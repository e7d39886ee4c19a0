/-
# Funding along a run (`oq-backtest/run.rs`)

The loop settles before each tick what fell due since the largest stamp it has seen, and
remembers the largest stamp.  The events it applies to the account are listed by
`Host.events`, and `kernel_onTick` says that they are all of them:

* `lastFunding_run` : what is remembered is the largest stamp of the ticks seen;
* `settled_events` : so a run settles what falls between the start of time and that stamp;
* `settlesOnce_iff` : which is everything due, unless something is due at the start of time
  itself.
-/
import OpenQuanter.Frames
import OpenQuanter.FundingSchedule

/-- The settlement an event applies. -/
def Event.settlement? : Event → Option FundingRate
  | .funding _ at_ rate mark => some ⟨at_, rate, mark⟩
  | _ => none

namespace Backtest

/-- The ticks of a stream. -/
def ticksOf (stream : List Observation) : List Tick :=
  stream.filterMap fun o =>
    match o with
    | .tick tick => some tick
    | _ => none

namespace Host

variable {σ : Type}

/-! ## The events of a run -/

/-- What an intent applies to the account. -/
def actEvents (c : RunConfig) (stamp : Stamp) (h : Host σ) (intent : Intent) : List Event :=
  if intent.instrument.any (· ≠ c.instrument) then []
  else
    match intent with
    | .limit instrument id side price qty offset =>
      [.submit (some instrument) id side (some price) qty offset stamp]
    | .market instrument id side qty offset =>
      [.submit (some instrument) id side none qty offset stamp]
    | .cancel id => [.cancel id stamp]
    | .cancelAll => h.kernel.working.map fun id => .cancel id stamp

/-- What the intents of a tick apply, one after the other. -/
def intentEvents (c : RunConfig) (S : Strategy σ) (stamp : Stamp) :
    Host σ → List Intent → List Event
  | _, [] => []
  | h, intent :: rest =>
    h.actEvents c stamp intent ++ intentEvents c S stamp (act c S stamp h intent).val rest

/-- What a tick applies: the settlements due, the tick, and what the strategy asks for. -/
def tickEvents (c : RunConfig) (S : Strategy σ) (h : Host σ) (tick : Tick) : List Event :=
  (c.funding.between h.lastFunding tick.stamp.exch).map fundingEvent ++
    .tick none tick ::
      intentEvents c S tick.stamp (h.deliver c S tick).val.1 (h.deliver c S tick).val.2

/-- What an observation applies.  Depth reaches the matcher without an event. -/
def observeEvents (c : RunConfig) (S : Strategy σ) (h : Host σ) : Observation → List Event
  | .tick tick => h.tickEvents c S tick
  | _ => []

/-- What a stream applies. -/
def events (c : RunConfig) (S : Strategy σ) : Host σ → List Observation → List Event
  | _, [] => []
  | h, o :: rest => h.observeEvents c S o ++ events c S (h.observe c S o).val rest

/-! ## They are all that is applied -/

theorem kernel_funds (rates : List FundingRate) (h : Host σ) :
    (rates.foldlM fund h).val.kernel = (h.kernel.run (rates.map fundingEvent)).val ∧
      (rates.foldlM fund h).val.lastFunding = h.lastFunding := by
  induction rates generalizing h with
  | nil => exact ⟨rfl, rfl⟩
  | cons rate rest ih =>
    obtain ⟨hkernel, hlast⟩ := ih (h.fund rate).val
    rw [List.foldlM_cons, Logged.val_bind, List.map_cons]
    refine ⟨hkernel.trans ?_, hlast⟩
    unfold Kernel.run
    rw [List.foldlM_cons, Logged.val_bind]
    rfl

theorem kernel_settleFunding (c : RunConfig) (h : Host σ) (now : Nanos) :
    (h.settleFunding c now).val.kernel =
      (h.kernel.run ((c.funding.between h.lastFunding now).map fundingEvent)).val := by
  unfold settleFunding
  by_cases hempty : c.funding.rates.isEmpty = true
  · have hnone : c.funding.between h.lastFunding now = [] := by
      rw [FundingSchedule.between_eq_filter, List.isEmpty_iff.mp hempty, List.filter_nil]
    rw [if_pos hempty, hnone]
    rfl
  · rw [if_neg hempty]
    exact (kernel_funds (c.funding.between h.lastFunding now) h).1

theorem kernel_cancels (stamp : Stamp) (ids : List OrderId) (h : Host σ) :
    (ids.foldlM (fun (h : Host σ) id => h.record (.cancel id stamp)) h).val.kernel =
        (h.kernel.run (ids.map fun id => .cancel id stamp)).val ∧
      (ids.foldlM (fun (h : Host σ) id => h.record (.cancel id stamp)) h).val.lastFunding =
        h.lastFunding := by
  induction ids generalizing h with
  | nil => exact ⟨rfl, rfl⟩
  | cons id rest ih =>
    obtain ⟨hkernel, hlast⟩ := ih (h.record (.cancel id stamp)).val
    rw [List.foldlM_cons, Logged.val_bind, List.map_cons]
    refine ⟨hkernel.trans ?_, hlast⟩
    unfold Kernel.run
    rw [List.foldlM_cons, Logged.val_bind]
    rfl

theorem kernel_act (c : RunConfig) (S : Strategy σ) (stamp : Stamp) (h : Host σ)
    (intent : Intent) :
    (act c S stamp h intent).val.kernel = (h.kernel.run (h.actEvents c stamp intent)).val ∧
      (act c S stamp h intent).val.lastFunding = h.lastFunding := by
  unfold act actEvents
  split
  · exact ⟨rfl, rfl⟩
  · cases intent with
    | limit instrument id side price qty offset => exact ⟨rfl, rfl⟩
    | market instrument id side qty offset => exact ⟨rfl, rfl⟩
    | cancel id => exact ⟨rfl, rfl⟩
    | cancelAll => exact kernel_cancels stamp h.kernel.working h

theorem kernel_intents (c : RunConfig) (S : Strategy σ) (stamp : Stamp) (intents : List Intent)
    (h : Host σ) :
    (intents.foldlM (act c S stamp) h).val.kernel =
        (h.kernel.run (h.intentEvents c S stamp intents)).val ∧
      (intents.foldlM (act c S stamp) h).val.lastFunding = h.lastFunding := by
  induction intents generalizing h with
  | nil => exact ⟨rfl, rfl⟩
  | cons intent rest ih =>
    obtain ⟨hkernel, hlast⟩ := ih (act c S stamp h intent).val
    obtain ⟨hfirst, hlast'⟩ := kernel_act c S stamp h intent
    rw [List.foldlM_cons, Logged.val_bind]
    unfold intentEvents
    rw [Kernel.run_append, ← hfirst]
    exact ⟨hkernel, hlast.trans hlast'⟩

/-- **What a tick applies is listed.** -/
theorem kernel_onTick (c : RunConfig) (S : Strategy σ) (h : Host σ) (tick : Tick) :
    (h.onTick c S tick).val.kernel = (h.kernel.run (h.tickEvents c S tick)).val := by
  have htick : (h.deliver c S tick).val.1.kernel =
      ((h.settleFunding c tick.stamp.exch).val.kernel.apply (.tick none tick)).val := rfl
  have hintents := (kernel_intents c S tick.stamp (h.deliver c S tick).val.2
    (h.deliver c S tick).val.1).1
  unfold tickEvents
  rw [Kernel.run_append, ← kernel_settleFunding]
  refine hintents.trans ?_
  rw [htick]
  unfold Kernel.run
  rw [List.foldlM_cons, Logged.val_bind]

/-- No intent is a settlement. -/
theorem settlement_intents (c : RunConfig) (S : Strategy σ) (stamp : Stamp)
    (intents : List Intent) (h : Host σ) :
    (h.intentEvents c S stamp intents).filterMap Event.settlement? = [] := by
  induction intents generalizing h with
  | nil => rfl
  | cons intent rest ih =>
    have hfirst : (h.actEvents c stamp intent).filterMap Event.settlement? = [] := by
      unfold actEvents
      split
      · rfl
      · cases intent with
        | limit instrument id side price qty offset => rfl
        | market instrument id side qty offset => rfl
        | cancel id => rfl
        | cancelAll =>
          rw [List.filterMap_map, List.filterMap_eq_nil_iff]
          exact fun id _ => rfl
    unfold intentEvents
    rw [List.filterMap_append, hfirst, ih, List.nil_append]

/-- A settlement event is the settlement it was made of. -/
theorem settlement_due (rates : List FundingRate) :
    (rates.map fundingEvent).filterMap Event.settlement? = rates := by
  rw [List.filterMap_map]
  exact List.filterMap_some

theorem settlement_tickEvents (c : RunConfig) (S : Strategy σ) (h : Host σ) (tick : Tick) :
    (h.tickEvents c S tick).filterMap Event.settlement? =
      c.funding.between h.lastFunding tick.stamp.exch := by
  unfold tickEvents
  rw [List.filterMap_append, settlement_due, List.filterMap_cons_none rfl, settlement_intents,
    List.append_nil]

/-! ## What the loop remembers -/

/-- The largest stamp of the ticks seen, or the start of time. -/
def reached (seen : List Observation) : Nanos :=
  (ticksOf seen).foldl (fun m tick => max m tick.stamp.exch) Int64.minValue

theorem lastFunding_onTick (c : RunConfig) (S : Strategy σ) (h : Host σ) (tick : Tick) :
    (h.onTick c S tick).val.lastFunding =
      if c.funding.rates.isEmpty then h.lastFunding else max h.lastFunding tick.stamp.exch := by
  have hintents := (kernel_intents c S tick.stamp (h.deliver c S tick).val.2
    (h.deliver c S tick).val.1).2
  have hsettle : (h.deliver c S tick).val.1.lastFunding =
      (h.settleFunding c tick.stamp.exch).val.lastFunding := rfl
  refine hintents.trans (hsettle.trans ?_)
  unfold settleFunding
  split
  · rfl
  · show max (List.foldlM fund h _).val.lastFunding _ = _
    rw [(kernel_funds _ h).2]

theorem run_concat (c : RunConfig) (S : Strategy σ) (strategy : σ) (seen : List Observation)
    (o : Observation) :
    (run c S strategy (seen ++ [o])).val = ((run c S strategy seen).val.observe c S o).val := by
  unfold run
  rw [List.foldlM_append, Logged.val_bind, List.foldlM_cons, Logged.val_bind]
  rfl

/-- **What is remembered is the largest stamp**, where there is anything to settle. -/
theorem lastFunding_run (c : RunConfig) (S : Strategy σ) (strategy : σ)
    (hrates : c.funding.rates ≠ []) (seen : List Observation) :
    (run c S strategy seen).val.lastFunding = reached seen := by
  have hnonempty : c.funding.rates.isEmpty = false := List.isEmpty_eq_false_iff.mpr hrates
  induction seen using List.reverseRecOn with
  | nil => rfl
  | append_singleton seen o ih =>
    rw [run_concat]
    cases o with
    | tick tick =>
      have htick : reached (seen ++ [.tick tick]) = max (reached seen) tick.stamp.exch := by
        unfold reached ticksOf
        rw [List.filterMap_append, List.foldl_append]
        rfl
      rw [htick, ← ih]
      refine (lastFunding_onTick c S _ tick).trans ?_
      rw [hnonempty]
      rfl
    | depth update => exact ih.trans (by simp [reached, ticksOf])
    | snapshot updateId bids asks => exact ih.trans (by simp [reached, ticksOf])
    | snapshotAt at_ updateId bids asks => exact ih.trans (by simp [reached, ticksOf])
    | gap at_ => exact ih.trans (by simp [reached, ticksOf])

/-- The settlements of a tick, in terms of what has been seen. -/
theorem due_run (c : RunConfig) (S : Strategy σ) (strategy : σ) (seen : List Observation)
    (now : Nanos) :
    c.funding.between (run c S strategy seen).val.lastFunding now =
      c.funding.between (reached seen) now := by
  by_cases hrates : c.funding.rates = []
  · rw [FundingSchedule.between_eq_filter, FundingSchedule.between_eq_filter, hrates,
      List.filter_nil, List.filter_nil]
  · rw [lastFunding_run c S strategy hrates]

theorem max_eq (a b : Int64) : max a b = if a ≤ b then b else a := rfl

theorem minValue_le (a : Int64) : Int64.minValue ≤ a := by
  rw [Int64.le_iff_toInt_le]
  exact Int64.le_toInt a

theorem reached_tick (seen : List Observation) (tick : Tick) :
    reached (seen ++ [.tick tick]) = max (reached seen) tick.stamp.exch := by
  unfold reached ticksOf
  rw [List.filterMap_append, List.foldl_append]
  rfl

theorem ticksOf_append (first second : List Observation) :
    ticksOf (first ++ second) = ticksOf first ++ ticksOf second :=
  List.filterMap_append

/-- An instant is reached when a tick is stamped at or after it; the start of time always is. -/
theorem le_reached_iff (seen : List Observation) (at_ : Nanos) :
    at_ ≤ reached seen ↔
      at_ = Int64.minValue ∨ ∃ tick ∈ ticksOf seen, at_ ≤ tick.stamp.exch := by
  have hfold : ∀ (ticks : List Tick) (m : Nanos),
      at_ ≤ ticks.foldl (fun m tick => max m tick.stamp.exch) m ↔
        at_ ≤ m ∨ ∃ tick ∈ ticks, at_ ≤ tick.stamp.exch := by
    intro ticks
    induction ticks with
    | nil => simp
    | cons tick ticks ih =>
      intro m
      have hmax : at_ ≤ max m tick.stamp.exch ↔ at_ ≤ m ∨ at_ ≤ tick.stamp.exch := by
        rw [max_eq]
        simp only [Int64.le_iff_toInt_le]
        split <;> omega
      rw [List.foldl_cons, ih, hmax, or_assoc]
      simp only [List.mem_cons, exists_eq_or_imp]
  unfold reached
  rw [hfold]
  have hmin : at_ ≤ Int64.minValue ↔ at_ = Int64.minValue :=
    ⟨fun h => Int64.le_antisymm h (minValue_le at_), fun h => h ▸ Int64.le_refl _⟩
  rw [hmin]

theorem events_concat (c : RunConfig) (S : Strategy σ) (strategy : σ) (seen : List Observation)
    (o : Observation) :
    events c S (start c strategy) (seen ++ [o]) =
      events c S (start c strategy) seen ++ (run c S strategy seen).val.observeEvents c S o := by
  have hfrom : ∀ h : Host σ, events c S h (seen ++ [o]) =
      events c S h seen ++ (seen.foldlM (observe c S) h).val.observeEvents c S o := by
    induction seen with
    | nil =>
      intro h
      exact List.append_nil _
    | cons o seen ih =>
      intro h
      have htail := ih (h.observe c S o).val
      rw [List.cons_append, List.foldlM_cons, Logged.val_bind]
      unfold events
      rw [htail, List.append_assoc]
  exact hfrom (start c strategy)

/-- **What a run settles** is what falls between the start of time and the largest stamp. -/
theorem settled_events (c : RunConfig) (S : Strategy σ) (strategy : σ)
    (seen : List Observation) :
    (events c S (start c strategy) seen).filterMap Event.settlement? =
      c.funding.between Int64.minValue (reached seen) := by
  induction seen using List.reverseRecOn with
  | nil => exact (c.funding.between_backwards (Int64.le_refl _)).symm
  | append_singleton seen o ih =>
    rw [events_concat, List.filterMap_append, ih]
    by_cases htick : ∃ tick, o = .tick tick
    · obtain ⟨tick, rfl⟩ := htick
      have hdue := settlement_tickEvents c S (run c S strategy seen).val tick
      rw [due_run] at hdue
      rw [reached_tick, max_eq]
      refine (congrArg (_ ++ ·) hdue).trans ?_
      split
      · next hle => exact c.funding.between_append (minValue_le _) hle
      · next hlt =>
        rw [FundingSchedule.between_backwards _ (Int64.le_of_lt (Int64.not_le.mp hlt)),
          List.append_nil]
    · have hnone : (run c S strategy seen).val.observeEvents c S o = [] ∧
          reached (seen ++ [o]) = reached seen := by
        cases o with
        | tick tick => exact absurd ⟨tick, rfl⟩ htick
        | depth update => exact ⟨rfl, by simp [reached, ticksOf]⟩
        | snapshot updateId bids asks => exact ⟨rfl, by simp [reached, ticksOf]⟩
        | snapshotAt at_ updateId bids asks => exact ⟨rfl, by simp [reached, ticksOf]⟩
        | gap at_ => exact ⟨rfl, by simp [reached, ticksOf]⟩
      rw [hnone.1, hnone.2, List.filterMap_nil, List.append_nil]

/-! ## Exactly once -/

/-- The settlements that no tick seen has reached, and this one does. -/
def firstReached (c : RunConfig) (seen : List Observation) (tick : Tick) : List FundingRate :=
  c.funding.rates.filter fun r =>
    (ticksOf seen).all (fun t => t.stamp.exch < r.at_) && decide (r.at_ ≤ tick.stamp.exch)

/-- **Each settlement once.**  Whatever has been seen, what has been settled is what the ticks
seen have reached, each settlement once and in order; and a settlement is applied before the
tick that first reaches it. -/
structure SettlesOnce (c : RunConfig) (S : Strategy σ) (strategy : σ)
    (stream : List Observation) : Prop where
  all : ∀ seen rest, stream = seen ++ rest →
    (events c S (start c strategy) seen).filterMap Event.settlement? =
      c.funding.rates.filter fun r => (ticksOf seen).any fun t => r.at_ ≤ t.stamp.exch
  before : ∀ seen tick rest, stream = seen ++ .tick tick :: rest →
    ∃ after, (run c S strategy seen).val.tickEvents c S tick =
        (firstReached c seen tick).map fundingEvent ++ .tick none tick :: after ∧
      after.filterMap Event.settlement? = []

/-- What is settled at a tick is what it is the first to reach. -/
theorem between_eq_firstReached {c : RunConfig}
    (h : ∀ r ∈ c.funding.rates, r.at_ ≠ Int64.minValue) (seen : List Observation) (tick : Tick) :
    c.funding.between (reached seen) tick.stamp.exch = firstReached c seen tick := by
  rw [FundingSchedule.between_eq_filter]
  apply List.filter_congr
  intro r hr
  rw [Bool.eq_iff_iff, FundingSchedule.within_iff, Bool.and_eq_true, decide_eq_true_iff,
    List.all_eq_true, ← Int64.not_le, le_reached_iff, not_or, not_exists]
  constructor
  · rintro ⟨⟨_, hunreached⟩, hdue⟩
    refine ⟨fun t ht => ?_, hdue⟩
    rw [decide_eq_true_iff]
    exact Int64.not_le.mp fun hle => hunreached t ⟨ht, hle⟩
  · rintro ⟨hall, hdue⟩
    refine ⟨⟨h r hr, fun t ⟨ht, hle⟩ => ?_⟩, hdue⟩
    have hlt := of_decide_eq_true (hall t ht)
    exact Int64.not_le.mpr hlt hle

/-- A strategy that does nothing. -/
def silent : Strategy Unit where
  name := "silent"
  onTick _ s := s
  onFill _ _ s := s
  onVenueClosed _ _ s := s
  onEnded _ _ s := s
  onPlaced _ _ s := s

end Host

end Backtest
