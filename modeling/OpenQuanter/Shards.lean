/-
# One kernel per instrument (`Shards` of `oq-core/src/shard.rs`)

Several kernels that share nothing, each addressed by the instrument of its first
holding.  Where an event goes is read off the event and off instruments that no
event changes, so a run of the shards is, shard by shard, a run of a lone kernel
(`run_isolated`).

Which events say where they go is another matter: only a tick and a submission
are asked (`instrumentOf`), though a settlement, a charge and a fill of the venue
carry an instrument as well (`Event.named`).
-/
import OpenQuanter.Frames
import OpenQuanter.Sequencer

/-! ## Which instrument an event is for -/

/-- The instrument an event carries. -/
def Event.named : Event → Option InstrumentId
  | .tick instrument _ => instrument
  | .submit instrument .. => instrument
  | .funding instrument .. => instrument
  | .fundingCharged instrument .. => instrument
  | .venueFill fill _ => some fill.instrument
  | _ => none

/-- An observation or an order: the two kinds of event that are asked. -/
def Event.Asked : Event → Prop
  | .tick .. | .submit .. => True
  | _ => False

namespace State

theorem Move.instruments {s t : State} (h : Move s t) : t.instruments = s.instruments := by
  cases h with
  | fill fill => exact (s.kept_applyFill fill).instruments
  | held _ hholdings =>
    unfold State.instruments
    generalize s.holdings = l, t.holdings = l' at hholdings
    induction hholdings with
    | nil => rfl
    | cons hmove _ ih =>
      rw [List.map_cons, List.map_cons, ih]
      cases hmove <;> rfl

/-- No event changes which instruments an account holds. -/
theorem Moves.instruments {s t : State} (h : Moves s t) : t.instruments = s.instruments := by
  induction h with
  | refl => rfl
  | tail _ hmove ih => exact hmove.instruments.trans ih

theorem head?_instruments (s : State) : s.instruments.head? = some s.holding.instrument := by
  rw [instruments, List.head?_map, List.head?_eq_some_head s.nonempty]
  rfl

end State

namespace Kernel

/-- The instrument a shard is addressed by. -/
def instrument (k : Kernel) : InstrumentId := k.state.holding.instrument

theorem instruments_apply (k : Kernel) (event : Event) :
    (k.apply event).val.state.instruments = k.state.instruments :=
  (k.moves_apply event).instruments

theorem instrument_apply (k : Kernel) (event : Event) :
    (k.apply event).val.instrument = k.instrument := by
  apply Option.some.inj
  unfold instrument
  rw [← State.head?_instruments, ← State.head?_instruments, instruments_apply]

end Kernel

/-! ## The shards -/

/-- Several independent kernels, addressed by instrument. -/
structure Shards where
  shards : List Kernel
  outputs : List Output
  /-- Each instrument gets one shard, or neither holds the position. -/
  distinct : (shards.map Kernel.instrument).Nodup

namespace Shards

/-- Build one shard per state; two for one instrument are refused. -/
def new (states : List State) : Option Shards :=
  if h : ((states.map Kernel.new).map Kernel.instrument).Nodup then
    some { shards := states.map Kernel.new, outputs := [], distinct := h }
  else none

/-- The instrument an event addresses, when it names one. -/
def instrumentOf : Event → Option InstrumentId
  | .tick instrument _ => instrument
  | .submit instrument .. => instrument
  | _ => none

def orderId : Event → Option OrderId
  | .submit _ id .. => some id
  | .cancel id _ => some id
  | _ => none

variable (s : Shards)

/-- Which shard an event belongs to. -/
def route (event : Event) : Option Nat :=
  match instrumentOf event with
  | some id => s.shards.findIdx? (·.instrument = id)
  | none => if s.shards.length = 1 then some 0 else none

theorem distinct_set {l : List Kernel} (h : (l.map Kernel.instrument).Nodup) {index : Nat}
    {k k' : Kernel} (hk : l[index]? = some k) (hsame : k'.instrument = k.instrument) :
    ((l.set index k').map Kernel.instrument).Nodup := by
  obtain ⟨hlt, rfl⟩ := List.getElem?_eq_some_iff.mp hk
  rwa [List.map_set, hsame, ← List.getElem_map Kernel.instrument (h := by simpa using hlt),
    List.set_getElem_self]

/-- Apply an event to the shard it addresses; an event that addresses none is
refused. -/
def apply (event : Event) : Books Shards :=
  match s.route event with
  | none =>
    pure { s with outputs := [.rejected ((orderId event).getD 0) .unroutableObservation] }
  | some index =>
    match hk : s.shards[index]? with
    | none => Logged.note .panic False s
    | some k =>
      { val :=
          { shards := s.shards.set index (k.apply event).val
            outputs := (k.apply event).val.outputs
            distinct := distinct_set s.distinct hk (k.instrument_apply event) }
        faults := (k.apply event).faults }

def run (events : List Event) : Books Shards := events.foldlM apply s

/-- What each event of a list produces, and the shard it reached. -/
def replies (s : Shards) : List Event → List (Option Nat × List Output)
  | [] => []
  | event :: rest =>
    (s.route event, (s.apply event).val.outputs) :: (s.apply event).val.replies rest

/-! ## Shards share nothing -/

variable {s}

theorem exists_of_route {event : Event} {index : Nat} (h : s.route event = some index) :
    ∃ k, s.shards[index]? = some k := by
  have hlt : index < s.shards.length := by
    unfold route at h
    split at h
    · exact (List.findIdx?_eq_some_iff_findIdx_eq.mp h).1
    · split at h
      · rename_i hone
        rw [← Option.some.inj h, hone]
        exact Nat.one_pos
      · cases h
  exact ⟨_, List.getElem?_eq_getElem hlt⟩

/-- An event that reaches a shard is that shard's business. -/
theorem apply_routed {event : Event} {index : Nat} {k : Kernel} (h : s.route event = some index)
    (hk : s.shards[index]? = some k) :
    (s.apply event).val.shards = s.shards.set index (k.apply event).val ∧
      (s.apply event).val.outputs = (k.apply event).val.outputs ∧
      (s.apply event).faults = (k.apply event).faults := by
  unfold apply
  rw [h]
  simp only
  split
  · rename_i hnone
    rw [hnone] at hk
    cases hk
  · rename_i k' hk'
    obtain rfl := Option.some.inj (hk'.symm.trans hk)
    exact ⟨rfl, rfl, rfl⟩

theorem apply_unrouted {event : Event} (h : s.route event = none) :
    (s.apply event).val.shards = s.shards ∧ (s.apply event).faults = [] := by
  unfold apply
  rw [h]
  exact ⟨rfl, rfl⟩

/-- What one event does to one shard: its own step, or nothing. -/
theorem shards_apply {event : Event} {i : Nat} {k : Kernel} (hk : s.shards[i]? = some k) :
    (s.apply event).val.shards[i]? =
      some (if s.route event = some i then (k.apply event).val else k) := by
  cases hroute : s.route event with
  | none =>
    rw [(apply_unrouted hroute).1, hk]
    rfl
  | some index =>
    obtain ⟨k', hk'⟩ := exists_of_route hroute
    rw [(apply_routed hroute hk').1]
    by_cases hi : index = i
    · subst hi
      obtain rfl := Option.some.inj (hk'.symm.trans hk)
      rw [if_pos rfl, List.getElem?_set_self (List.getElem?_eq_some_iff.mp hk).1]
    · rw [List.getElem?_set_ne hi, hk, if_neg fun h => hi (Option.some.inj h)]

/-- No event changes the shards' instruments. -/
theorem instruments_apply (s : Shards) (event : Event) :
    (s.apply event).val.shards.map Kernel.instrument = s.shards.map Kernel.instrument := by
  cases hroute : s.route event with
  | none => rw [(apply_unrouted hroute).1]
  | some index =>
    obtain ⟨k, hk⟩ := exists_of_route hroute
    obtain ⟨hlt, rfl⟩ := List.getElem?_eq_some_iff.mp hk
    rw [(apply_routed hroute hk).1, List.map_set, Kernel.instrument_apply,
      ← List.getElem_map Kernel.instrument (h := by simpa using hlt), List.set_getElem_self]

theorem route_eq (s : Shards) (event : Event) :
    s.route event =
      match instrumentOf event with
      | some id => (s.shards.map Kernel.instrument).findIdx? (· = id)
      | none => if (s.shards.map Kernel.instrument).length = 1 then some 0 else none := by
  unfold route
  split
  · rw [List.findIdx?_map]
    rfl
  · rw [List.length_map]

/-- Where an event goes does not depend on what was applied before it. -/
theorem route_apply (s : Shards) (applied event : Event) :
    (s.apply applied).val.route event = s.route event := by
  rw [route_eq, route_eq, instruments_apply]

/-- The events of a list that are one shard's. -/
def addressed (s : Shards) (events : List Event) (i : Nat) : List Event :=
  events.filter fun event => s.route event = some i

theorem addressed_apply (s : Shards) (applied : Event) (events : List Event) (i : Nat) :
    (s.apply applied).val.addressed events i = s.addressed events i := by
  unfold addressed
  simp only [route_apply]

theorem val_run_cons (s : Shards) (event : Event) (rest : List Event) :
    (s.run (event :: rest)).val = ((s.apply event).val.run rest).val := by
  rw [run, List.foldlM_cons, Logged.val_bind]
  rfl

/-- The outputs of one shard among all. -/
def repliesOf (i : Nat) (replies : List (Option Nat × List Output)) : List (List Output) :=
  (replies.filter fun reply => reply.1 = some i).map Prod.snd

/-- **Shards share nothing.**  After any events a shard is the lone kernel that
was given those addressed to it, and it answered as that kernel did. -/
theorem run_isolated (events : List Event) {s : Shards} {i : Nat} {k : Kernel}
    (hk : s.shards[i]? = some k) :
    (s.run events).val.shards[i]? = some (k.run (s.addressed events i)).val ∧
      repliesOf i (s.replies events) = k.replies (s.addressed events i) := by
  induction events generalizing s k with
  | nil => exact ⟨hk, rfl⟩
  | cons event rest ih =>
    obtain ⟨hshard, hreplies⟩ := ih (s := (s.apply event).val) (shards_apply hk)
    rw [addressed_apply] at hshard hreplies
    rw [val_run_cons, hshard]
    by_cases hroute : s.route event = some i
    · have hmine : s.addressed (event :: rest) i = event :: s.addressed rest i :=
        List.filter_cons_of_pos (by simpa using hroute)
      rw [if_pos hroute] at hreplies ⊢
      refine ⟨by rw [hmine, Kernel.val_run_cons], ?_⟩
      rw [hmine, Kernel.replies, ← hreplies, repliesOf, replies,
        List.filter_cons_of_pos (by simpa using hroute), List.map_cons, repliesOf,
        (apply_routed hroute hk).2.1]
    · have hother : s.addressed (event :: rest) i = s.addressed rest i :=
        List.filter_cons_of_neg (by simpa using hroute)
      rw [if_neg hroute] at hreplies ⊢
      refine ⟨by rw [hother], ?_⟩
      rw [hother, ← hreplies, repliesOf, replies, List.filter_cons_of_neg (by simpa using hroute),
        repliesOf]

/-! ## What reaches the shard it names -/

theorem route_run (s : Shards) (before : List Event) (event : Event) :
    (s.run before).val.route event = s.route event := by
  induction before generalizing s with
  | nil => rfl
  | cons applied rest ih => rw [val_run_cons, ih, route_apply]

/-- An event that is asked goes where its instrument leads. -/
theorem route_of_asked {event : Event} {i : Nat} {k : Kernel} {id : InstrumentId}
    (hk : s.shards[i]? = some k) (hasked : event.Asked) (hid : event.named = some id) :
    s.route event = some i ↔ id = k.instrument := by
  have hof : instrumentOf event = some id := by
    cases event with
    | tick | submit => exact hid
    | _ => exact hasked.elim
  obtain ⟨hlt, rfl⟩ := List.getElem?_eq_some_iff.mp hk
  unfold route
  rw [hof]
  simp only
  rw [List.findIdx?_eq_some_iff_getElem]
  constructor
  · rintro ⟨_, hfound, -⟩
    exact (of_decide_eq_true hfound).symm
  · intro heq
    refine ⟨hlt, decide_eq_true heq.symm, fun j hj hfound => ?_⟩
    -- an earlier shard with the instrument would be a second one
    have hi : i < (s.shards.map Kernel.instrument).length := by simpa using hlt
    have hj' : j < (s.shards.map Kernel.instrument).length := by omega
    have hsame : (s.shards.map Kernel.instrument)[j] = (s.shards.map Kernel.instrument)[i] := by
      rw [List.getElem_map, List.getElem_map, ← heq]
      exact of_decide_eq_true hfound
    exact absurd ((List.Nodup.getElem_inj_iff s.distinct).mp hsame) (Nat.ne_of_lt hj)

/-- Any other event goes to the only shard, or nowhere. -/
theorem route_of_not_asked {event : Event} {i : Nat} {k : Kernel} (hk : s.shards[i]? = some k)
    (hasked : ¬ event.Asked) : s.route event = some i ↔ s.shards.length = 1 := by
  have hof : instrumentOf event = none := by
    cases event with
    | tick | submit => exact absurd trivial hasked
    | _ => rfl
  have hlt := (List.getElem?_eq_some_iff.mp hk).1
  unfold route
  rw [hof]
  simp only
  split
  · rename_i hone
    rw [hone, Nat.lt_one_iff] at hlt
    exact iff_of_true (congrArg some hlt.symm) hone
  · rename_i hmany
    exact iff_of_false nofun hmany

/-- **Shards are isolated, and what reaches them.**  In every run a shard is the
lone kernel given the events addressed to it.  An event that names an instrument
it holds reaches it exactly if it is a tick or a submission for the shard's own
instrument, or is anything else while there is only one shard. -/
theorem isolated_and_reached_iff (s : Shards) (before : List Event) {i : Nat} {k : Kernel}
    (hk : s.shards[i]? = some k) :
    ((s.run before).val.shards[i]? = some (k.run (s.addressed before i)).val ∧
      repliesOf i (s.replies before) = k.replies (s.addressed before i)) ∧
    ∀ event id, event.named = some id → id ∈ k.state.instruments →
      ((s.run before).val.route event = some i ↔
        event.Asked ∧ id = k.instrument ∨ ¬ event.Asked ∧ s.shards.length = 1) := by
  refine ⟨run_isolated before hk, fun event id hid _ => ?_⟩
  rw [route_run]
  by_cases hasked : event.Asked
  · rw [route_of_asked hk hasked hid]
    simp [hasked]
  · rw [route_of_not_asked hk hasked]
    simp [hasked]

/-- Two shards of one instrument each. -/
def twoShards : Shards where
  shards := [Kernel.new (State.new 1 ⟨1000⟩ Kernel.flatTable 10000),
    Kernel.new (State.new 2 ⟨1000⟩ Kernel.flatTable 10000)]
  outputs := []
  distinct := by decide

theorem isolated_and_reached_iff_twoShards :
    ((twoShards.run [.time 5]).val.shards[1]? =
        some ((Kernel.new (State.new 2 ⟨1000⟩ Kernel.flatTable 10000)).run
          (twoShards.addressed [.time 5] 1)).val ∧
      repliesOf 1 (twoShards.replies [.time 5]) =
        (Kernel.new (State.new 2 ⟨1000⟩ Kernel.flatTable 10000)).replies
          (twoShards.addressed [.time 5] 1)) ∧
    ∀ event id, event.named = some id → id ∈ [2] →
      ((twoShards.run [.time 5]).val.route event = some 1 ↔
        event.Asked ∧ id = 2 ∨ ¬ event.Asked ∧ twoShards.shards.length = 1) :=
  isolated_and_reached_iff twoShards [.time 5] rfl

/-- A charge, a settlement and a fill for the instrument of the first shard. -/
def namedEvents : List Event :=
  [.fundingCharged (some 1) 7 250, .funding (some 1) 7 100 6000000,
    .venueFill ⟨⟨7, 7⟩, 1, 3, 4, .buy, .opening, 6000000, 1, .taker⟩ (.reported 5)]

/-- They reach no shard, though the kernel that holds the instrument would book
the charge. -/
theorem named_not_reached :
    (∀ event ∈ namedEvents, event.named = some 1 ∧ twoShards.route event = none ∧
      (twoShards.apply event).val.outputs = [.rejected 0 .unroutableObservation] ∧
      (twoShards.apply event).val.shards.map (·.state.balance) = [10000, 10000]) ∧
    twoShards.shards.map Kernel.instrument = [1, 2] ∧
    ((Kernel.new (State.new 1 ⟨1000⟩ Kernel.flatTable 10000)).apply
      (.fundingCharged (some 1) 7 250)).val.state.balance = 10250 := by
  decide +kernel

end Shards
