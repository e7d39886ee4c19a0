/-
# Reading the future (`oq-backtest/src/lookahead.rs`)

A strategy built from the whole window is run over it, with a recorder around it that
keeps what is sent and the tick it belongs to.  Then, at some of the ticks it sent
something on, a strategy built from the ticks so far is run over these, and what the two
sent is compared.

A strategy cannot tell that it is recorded (`acted_map`).  One tick more adds to the record
what was sent on it and nothing else (`grown_onTick`), so a run over a prefix has recorded
what the whole run recorded there, if both started alike (`recordedOn_take`).
-/
import OpenQuanter.Endings
import OpenQuanter.Tagged

namespace Backtest

open Live (Ending VenueClosed)

/-! ## The recorder -/

/-- A strategy's state, the on-tick calls so far, and what was sent.  A buffer that is
shorter than it was before a call stops the process. -/
structure Recorder (σ : Type) where
  inner : σ
  seen : Nat
  sent : Option (List (Nat × Intent))

namespace Recorder

variable {σ : Type}

def new (inner : σ) : Recorder σ := ⟨inner, 0, some []⟩

/-- Keep what is in the buffer from a place on. -/
def record (r : Recorder σ) (tick : Nat) (out : List Intent) (from_ : Nat) : Recorder σ :=
  { r with
    sent :=
      if from_ ≤ out.length then r.sent.map (· ++ (out.drop from_).map (tick, ·)) else none }

/-- A callback before a tick: what is sent belongs to that tick. -/
def heard (r : Recorder σ) (out : List Intent) (told : σ × List Intent) :
    Recorder σ × List Intent :=
  (({ r with inner := told.1 } : Recorder σ).record r.seen told.2 out.length, told.2)

/-- The strategy with a recorder around it. -/
def strategy (S : Strategy σ) : Strategy (Recorder σ) where
  name := S.name
  onTick ctx s :=
    -- counted before the strategy is called, and recorded under the old number
    let tick := s.1.seen
    let told := S.onTick ctx (s.1.inner, s.2)
    (({ s.1 with inner := told.1, seen := tick + 1 } : Recorder σ).record tick told.2 s.2.length,
      told.2)
  onFill fill ctx s := s.1.heard s.2 (S.onFill fill ctx (s.1.inner, s.2))
  onVenueClosed closed ctx s := s.1.heard s.2 (S.onVenueClosed closed ctx (s.1.inner, s.2))
  onEnded id ending s := s.1.heard s.2 (S.onEnded id ending (s.1.inner, s.2))
  onPlaced id accepted r := { r with inner := S.onPlaced id accepted r.inner }

end Recorder

/-! ## The check -/

/-- The first tick at which two runs sent different orders. -/
structure Divergence where
  checkedAt : Nat
  tick : Nat
  at_ : Nanos
  full : List Intent
  truncated : List Intent
  deriving DecidableEq, Repr

/-- What the check found. -/
structure LookaheadReport where
  signals : Nat
  checked : Nat
  divergences : List Divergence
  deriving DecidableEq, Repr

namespace LookaheadReport

/-- No checked point disagreed. -/
def clean (r : LookaheadReport) : Bool := r.divergences.isEmpty

/-- Fewer points were checked than there were signals. -/
def sampled (r : LookaheadReport) : Bool := r.checked < r.signals

end LookaheadReport

/-- Up to `max` of the candidates, evenly spread. -/
def spread (candidates : List Nat) (max : Nat) : List Nat :=
  if candidates.length ≤ max then candidates
  else if max = 0 then []
  else
    let n := candidates.length
    -- places of the list (`spread_index_le`); a single point divides by one, not by nothing
    ((List.range max).map fun k =>
      candidates.getD (k * (n - 1) / Nat.max (max - 1) 1) 0).destutter (· ≠ ·)

def intentsOn (sent : List (Nat × Intent)) (tick : Nat) : List Intent := Tagged.on sent tick

/-- Where the process would stop: a slice of a buffer that shrank, or of the ticks. -/
inductive Stop where
  | buffer
  | ticks
  deriving DecidableEq, Repr

section Check

variable {σ : Type} (c : RunConfig) (S : Strategy σ) (build : List Tick → σ)

/-- What a strategy sends over some ticks, by tick. -/
def recorded (strategy : σ) (ticks : List Tick) : Except Stop (List (Nat × Intent)) :=
  match (Host.run c (Recorder.strategy S) (Recorder.new strategy)
      (ticks.map Observation.tick)).val.strategy.sent with
  | some sent => .ok sent
  | none => .error .buffer

/-- One point: the rerun, and where it disagrees with what the full run sent. -/
def checkPoint (ticks : List Tick) (full : List (Nat × Intent)) (point : Nat) :
    Except Stop (Option Divergence) :=
  if ticks.length ≤ point then .error .ticks
  else do
    let pre := ticks.take (point + 1)
    let rerun ← recorded c S (build pre) pre
    -- the full run went on; only what it sent up to the point is compared
    let a := Tagged.through full point
    let b := Tagged.through rerun point
    if a = b then pure none
    else
      let tick := Tagged.firstDifference a b point
      match ticks[tick]? with
      | some t => pure (some ⟨point, tick, t.stamp.exch, intentsOn a tick, intentsOn b tick⟩)
      | none => .error .ticks

/-- The points one after the other. -/
def checkPoints (ticks : List Tick) (full : List (Nat × Intent)) :
    List Nat → Except Stop (List Divergence)
  | [] => .ok []
  | point :: points => do
    let found ← checkPoint c S build ticks full point
    let rest ← checkPoints ticks full points
    pure (found.toList ++ rest)

/-- Whether a strategy decides the same way on a prefix of the ticks as on all of them. -/
def lookahead (ticks : List Tick) (maxPoints : Nat) : Except Stop LookaheadReport := do
  let full ← recorded c S (build ticks) ticks
  let candidates := Tagged.tags full
  let points := spread candidates maxPoints
  let divergences ← checkPoints c S build ticks full points
  pure ⟨candidates.length, points.length, divergences⟩

end Check

/-! ## The points -/

/-- The places that are picked rise. -/
theorem spread_index_lt {n max i j : Nat} (hpos : 0 < max) (hmax : max < n) (hij : i < j) :
    i * (n - 1) / Nat.max (max - 1) 1 < j * (n - 1) / Nat.max (max - 1) 1 := by
  have hdiv : 0 < Nat.max (max - 1) 1 := lt_of_lt_of_le Nat.one_pos (Nat.le_max_right _ _)
  have hle : Nat.max (max - 1) 1 ≤ n - 1 := Nat.max_le.mpr ⟨by omega, by omega⟩
  rw [← Nat.succ_le_iff, Nat.succ_eq_add_one, ← Nat.add_div_right _ hdiv]
  refine Nat.div_le_div_right ?_
  calc i * (n - 1) + Nat.max (max - 1) 1 ≤ i * (n - 1) + (n - 1) := Nat.add_le_add_left hle _
    _ = (i + 1) * (n - 1) := by ring
    _ ≤ j * (n - 1) := Nat.mul_le_mul_right _ hij

/-- They are places of the list. -/
theorem spread_index_le {n max k : Nat} (hk : k < max) :
    k * (n - 1) / Nat.max (max - 1) 1 ≤ n - 1 := by
  refine Nat.div_le_of_le_mul (Nat.mul_le_mul_right _ ?_)
  exact le_trans (by omega) (Nat.le_max_left (max - 1) 1)

/-- What is picked of a list that rises. -/
structure Picked (candidates : List Nat) (max : Nat) (points : List Nat) : Prop where
  length : points.length = min max candidates.length
  rising : points.Pairwise (· < ·)
  mem : ∀ p ∈ points, p ∈ candidates
  ends : 2 ≤ max → ∀ p, candidates.head? = some p ∨ candidates.getLast? = some p → p ∈ points

theorem picked_spread {candidates : List Nat} (h : candidates.Pairwise (· < ·)) (max : Nat) :
    Picked candidates max (spread candidates max) := by
  unfold spread
  split
  · rename_i hall
    refine ⟨(min_eq_right hall).symm, h, fun p hp => hp, fun _ p hp => ?_⟩
    exact hp.elim List.mem_of_head? List.mem_of_getLast?
  rename_i hmore
  split
  · rename_i hzero
    rw [hzero]
    exact ⟨(Nat.zero_min _).symm, List.Pairwise.nil, fun p hp => absurd hp List.not_mem_nil,
      fun htwo => absurd htwo (by omega)⟩
  rename_i hpos
  simp only
  generalize hn : candidates.length = n at hmore
  have hmax : max < n := not_le.mp hmore
  have hget : ∀ k < max, ∃ hk : k * (n - 1) / Nat.max (max - 1) 1 < candidates.length,
      candidates.getD (k * (n - 1) / Nat.max (max - 1) 1) 0 =
        candidates[k * (n - 1) / Nat.max (max - 1) 1] := by
    intro k hk
    have hlt : k * (n - 1) / Nat.max (max - 1) 1 < candidates.length := by
      have := spread_index_le (n := n) hk
      omega
    exact ⟨hlt, List.getD_eq_getElem _ _ hlt⟩
  have hrising : ((List.range max).map fun k =>
      candidates.getD (k * (n - 1) / Nat.max (max - 1) 1) 0).Pairwise (· < ·) := by
    refine List.pairwise_map.mpr (List.pairwise_lt_range.imp_of_mem fun {i j} hi hj hij => ?_)
    obtain ⟨hi', hgeti⟩ := hget i (List.mem_range.mp hi)
    obtain ⟨hj', hgetj⟩ := hget j (List.mem_range.mp hj)
    rw [hgeti, hgetj]
    exact List.pairwise_iff_getElem.mp h _ _ hi' hj'
      (spread_index_lt (Nat.pos_of_ne_zero hpos) hmax hij)
  have hdedup := List.destutter_of_isChain _ (R := (· ≠ ·))
    (hrising.imp fun hlt => ne_of_lt hlt).isChain
  rw [hdedup]
  refine ⟨?_, hrising, fun p hp => ?_, fun htwo p hp => ?_⟩
  · rw [List.length_map, List.length_range, hn, min_eq_left hmax.le]
  · obtain ⟨k, hk, rfl⟩ := List.mem_map.mp hp
    obtain ⟨hk', hgetk⟩ := hget k (List.mem_range.mp hk)
    rw [hgetk]
    exact List.getElem_mem hk'
  · -- the first place is the first that is picked, and the last the last
    have hdiv : Nat.max (max - 1) 1 = max - 1 := Nat.max_eq_left (by omega)
    rcases hp with hhead | hlast
    · refine List.mem_map.mpr ⟨0, List.mem_range.mpr (by omega), ?_⟩
      rw [zero_mul, Nat.zero_div, List.getD_eq_getElem?_getD, ← List.head?_eq_getElem?, hhead]
      rfl
    · refine List.mem_map.mpr ⟨max - 1, List.mem_range.mpr (by omega), ?_⟩
      rw [hdiv, Nat.mul_div_cancel_left _ (by omega), List.getD_eq_getElem?_getD, ← hn,
        ← List.getLast?_eq_getElem?, hlast]
      rfl

/-! ## A strategy around another -/

section Around

variable {σ τ : Type}

/-- A strategy does, on a part of its state, what another one does, and sends the same. -/
structure Strategy.Around (T : Strategy τ) (S : Strategy σ) (f : τ → σ) : Prop where
  onTick : ∀ ctx s, S.onTick ctx (f s.1, s.2) = (f (T.onTick ctx s).1, (T.onTick ctx s).2)
  onFill : ∀ fill ctx s,
    S.onFill fill ctx (f s.1, s.2) = (f (T.onFill fill ctx s).1, (T.onFill fill ctx s).2)
  onVenueClosed : ∀ closed ctx s, S.onVenueClosed closed ctx (f s.1, s.2) =
    (f (T.onVenueClosed closed ctx s).1, (T.onVenueClosed closed ctx s).2)
  onEnded : ∀ id ending s,
    S.onEnded id ending (f s.1, s.2) = (f (T.onEnded id ending s).1, (T.onEnded id ending s).2)
  onPlaced : ∀ id accepted s, S.onPlaced id accepted (f s) = f (T.onPlaced id accepted s)

theorem Recorder.around (S : Strategy σ) : (Recorder.strategy S).Around S Recorder.inner :=
  ⟨fun _ _ => rfl, fun _ _ _ => rfl, fun _ _ _ => rfl, fun _ _ _ => rfl, fun _ _ _ => rfl⟩

namespace Host

/-- The same run of the strategy within. -/
def map (f : τ → σ) (h : Host τ) : Host σ :=
  ⟨h.kernel, f h.strategy, h.closedByVenue, h.ended, h.lastFunding, h.tally⟩

variable {T : Strategy τ} {S : Strategy σ} {f : τ → σ}

theorem settleFunding_map (c : RunConfig) (h : Host τ) (now : Nanos) :
    ((h.map f).settleFunding c now).val = (h.settleFunding c now).val.map f := by
  unfold settleFunding
  show (if c.funding.rates.isEmpty then _ else _ : Books (Host σ)).val = _
  split
  · rfl
  · have hfold : ((c.funding.between h.lastFunding now).foldlM fund (h.map f)).val =
        ((c.funding.between h.lastFunding now).foldlM fund h).val.map f :=
      Logged.val_foldlM_hom (fun _ _ => rfl) _ _
    exact congrArg (fun h : Host σ => { h with lastFunding := max h.lastFunding now }) hfold

theorem callBack_map (hT : T.Around S f) (h : Host τ) (ctx : Context) (fills : List Fill) :
    (h.map f).callBack S ctx fills =
      ((h.callBack T ctx fills).1.map f, (h.callBack T ctx fills).2) := by
  have hfold : ∀ {ι : Type} (told : τ × List Intent → ι → τ × List Intent)
      (told' : σ × List Intent → ι → σ × List Intent),
      (∀ s x, told' (f s.1, s.2) x = (f (told s x).1, (told s x).2)) →
        ∀ (l : List ι) (s : τ × List Intent),
          l.foldl told' (f s.1, s.2) = (f (l.foldl told s).1, (l.foldl told s).2) := by
    intro ι told told' hstep l
    induction l with
    | nil => exact fun s => rfl
    | cons x rest ih =>
      intro s
      rw [List.foldl_cons, List.foldl_cons, hstep]
      exact ih _
  have hfills := hfold (fun s fill => T.onFill fill ctx s) (fun s fill => S.onFill fill ctx s)
    (fun s fill => hT.onFill fill ctx s) fills (h.strategy, [])
  have hclosed := hfold (fun s closed => T.onVenueClosed closed ctx s)
    (fun s closed => S.onVenueClosed closed ctx s) (fun s closed => hT.onVenueClosed closed ctx s)
    h.closedByVenue
  have hended := hfold (fun s e => T.onEnded e.1 e.2 s) (fun s e => S.onEnded e.1 e.2 s)
    (fun s e => hT.onEnded e.1 e.2 s) h.ended
  unfold callBack
  simp only [map, hfills, hclosed, hended, hT.onTick]

theorem applyTick_map (h : Host τ) (tick : Tick) :
    ((h.map f).applyTick tick).val =
      ((h.applyTick tick).val.1.map f, (h.applyTick tick).val.2) := rfl

/-- What is sent on a tick does not depend on what is around the strategy. -/
theorem deliver_map (hT : T.Around S f) (c : RunConfig) (h : Host τ) (tick : Tick) :
    ((h.map f).deliver c S tick).val =
      ((h.deliver c T tick).val.1.map f, (h.deliver c T tick).val.2) := by
  unfold deliver
  simp only [Logged.val_bind, Logged.val_pure, settleFunding_map, applyTick_map]
  generalize ((h.settleFunding c tick.stamp.exch).val.applyTick tick).val = m
  exact callBack_map hT { m.1 with tally := m.1.tally.measure c m.1.kernel tick }
    (context c m.1.kernel tick) m.2

theorem act_map (hT : T.Around S f) (c : RunConfig) (stamp : Stamp) (h : Host τ)
    (intent : Intent) :
    ((h.map f).act c S stamp intent).val = (h.act c T stamp intent).val.map f := by
  have hplace : ∀ id event, ((h.map f).place S id event).val = (h.place T id event).val.map f := by
    intro id event
    let m := (h.record event).val
    exact congrArg (fun strategy => ({ m.map f with strategy := strategy } : Host σ))
      (hT.onPlaced id _ m.strategy)
  unfold act
  split
  · show (h.map f).misroute S intent = (h.misroute T intent).map f
    unfold misroute
    cases intent.id <;> simp only [map, hT.onPlaced]
  · cases intent with
    | limit instrument id side price qty offset => exact hplace id _
    | market instrument id side qty offset => exact hplace id _
    | cancel id => rfl
    | cancelAll => exact Logged.val_foldlM_hom (fun _ _ => rfl) _ _

theorem onTick_map (hT : T.Around S f) (c : RunConfig) (h : Host τ) (tick : Tick) :
    ((h.map f).onTick c S tick).val = (h.onTick c T tick).val.map f := by
  unfold onTick
  simp only [Logged.val_bind, deliver_map hT]
  exact Logged.val_foldlM_hom (act_map hT c tick.stamp) _ _

end Host

end Around

/-! ## What a tick does to the state of a strategy -/

section Frame

variable {τ : Type} {T : Strategy τ}

namespace Host

theorem strategy_settleFunding (c : RunConfig) (h : Host τ) (now : Nanos) :
    (h.settleFunding c now).val.strategy = h.strategy := by
  unfold settleFunding
  split
  · rfl
  · have hfold : ∀ (rates : List FundingRate) (h : Host τ),
        (rates.foldlM fund h).val.strategy = h.strategy := by
      intro rates
      induction rates with
      | nil => exact fun h => rfl
      | cons rate rest ih => exact fun h => ih _
    exact hfold _ h

/-- What the callbacks before a tick keep holds when the tick comes. -/
theorem callBack_of_callbacks {I : τ × List Intent → Prop}
    (hfill : ∀ fill ctx s, I s → I (T.onFill fill ctx s))
    (hclosed : ∀ closed ctx s, I s → I (T.onVenueClosed closed ctx s))
    (hended : ∀ id ending s, I s → I (T.onEnded id ending s)) (h : Host τ)
    (hstart : I (h.strategy, [])) (ctx : Context) (fills : List Fill) :
    ∃ s, I s ∧ (h.callBack T ctx fills).1.strategy = (T.onTick ctx s).1 ∧
      (h.callBack T ctx fills).2 = (T.onTick ctx s).2 := by
  have hfold : ∀ {ι : Type} (told : τ × List Intent → ι → τ × List Intent),
      (∀ s x, I s → I (told s x)) → ∀ (l : List ι) (s : τ × List Intent), I s →
        I (l.foldl told s) := by
    intro ι told hstep l
    induction l with
    | nil => exact fun s hs => hs
    | cons x rest ih => exact fun s hs => ih _ (hstep s x hs)
  refine ⟨_, ?_, rfl, rfl⟩
  have hends := hfold (fun s (e : OrderId × Ending) => T.onEnded e.1 e.2 s)
    (fun s e => hended e.1 e.2 s) h.ended
  have hcloses := hfold (fun s closed => T.onVenueClosed closed ctx s)
    (fun s closed => hclosed closed ctx s) h.closedByVenue
  have hfills := hfold (fun s fill => T.onFill fill ctx s) (fun s fill => hfill fill ctx s) fills
  exact hends _ (hcloses _ (hfills _ hstart))

/-- The same when the strategy was called on a tick. -/
theorem deliver_of_callbacks {I : τ × List Intent → Prop}
    (hfill : ∀ fill ctx s, I s → I (T.onFill fill ctx s))
    (hclosed : ∀ closed ctx s, I s → I (T.onVenueClosed closed ctx s))
    (hended : ∀ id ending s, I s → I (T.onEnded id ending s)) (c : RunConfig) (h : Host τ)
    (hstart : I (h.strategy, [])) (tick : Tick) :
    ∃ ctx s, I s ∧ (h.deliver c T tick).val.1.strategy = (T.onTick ctx s).1 ∧
      (h.deliver c T tick).val.2 = (T.onTick ctx s).2 := by
  let m := ((h.settleFunding c tick.stamp.exch).val.applyTick tick).val
  have hm : m.1.strategy = h.strategy := strategy_settleFunding c h tick.stamp.exch
  exact ⟨_, callBack_of_callbacks hfill hclosed hended
    { m.1 with tally := m.1.tally.measure c m.1.kernel tick } (by rwa [← hm] at hstart)
    (context c m.1.kernel tick) m.2⟩

/-- Acting on intents only tells the strategy whether its orders were taken. -/
theorem acts_of_onPlaced {P : τ → Prop}
    (hplaced : ∀ id accepted s, P s → P (T.onPlaced id accepted s)) (c : RunConfig)
    (stamp : Stamp) (intents : List Intent) (h : Host τ) (hP : P h.strategy) :
    P (intents.foldlM (act c T stamp) h).val.strategy := by
  -- a cancel is not answered to the strategy
  have hcancels : ∀ (ids : List OrderId) (h : Host τ),
      (ids.foldlM (fun (h : Host τ) id => h.record (.cancel id stamp)) h).val.strategy =
        h.strategy := by
    intro ids
    induction ids with
    | nil => exact fun h => rfl
    | cons id rest ih => exact fun h => ih _
  have hact : ∀ (h : Host τ) (intent : Intent), P h.strategy →
      P (h.act c T stamp intent).val.strategy := by
    intro h intent hP
    unfold act
    split
    · show P (h.misroute T intent).strategy
      unfold misroute
      simp only
      split
      · exact hplaced _ _ _ hP
      · exact hP
    · cases intent with
      | limit instrument id side price qty offset => exact hplaced _ _ _ hP
      | market instrument id side qty offset => exact hplaced _ _ _ hP
      | cancel id => exact hP
      | cancelAll =>
        show P (h.kernel.working.foldlM (fun (h : Host τ) id => h.record (.cancel id stamp))
          h).val.strategy
        rw [hcancels]
        exact hP
  induction intents generalizing h with
  | nil => exact hP
  | cons intent rest ih => exact ih _ (hact h intent hP)

/-- The intents a run acts on, tick by tick. -/
def acted {σ : Type} (c : RunConfig) (S : Strategy σ) (h : Host σ) : List Tick → List (List Intent)
  | [] => []
  | tick :: ticks => (h.deliver c S tick).val.2 :: acted c S (h.onTick c S tick).val ticks

/-- They do not depend on what is around the strategy. -/
theorem acted_map {σ : Type} {S : Strategy σ} {f : τ → σ} (hT : T.Around S f) (c : RunConfig)
    (h : Host τ) (ticks : List Tick) : (h.map f).acted c S ticks = h.acted c T ticks := by
  induction ticks generalizing h with
  | nil => rfl
  | cons tick rest ih =>
    unfold acted
    rw [deliver_map hT, onTick_map hT, ih]

end Host

end Frame

/-! ## What is recorded -/

namespace Recorder

variable {σ : Type}

/-- What is recorded, unless the process stopped, is what was and something on a tick. -/
def Grown (tick : Nat) (r r' : Recorder σ) : Prop :=
  ∀ sent', r'.sent = some sent' → ∃ sent more, r.sent = some sent ∧ sent' = sent ++ more ∧
    ∀ e ∈ more, e.1 = tick

variable {tick : Nat} {r r' r'' : Recorder σ}

theorem Grown.refl (tick : Nat) (r : Recorder σ) : Grown tick r r := fun sent' h =>
  ⟨sent', [], h, (List.append_nil _).symm, fun _ he => absurd he List.not_mem_nil⟩

theorem Grown.trans (h : Grown tick r r') (h' : Grown tick r' r'') : Grown tick r r'' := by
  intro sent'' hsent''
  obtain ⟨sent', more', hsent', rfl, hmore'⟩ := h' sent'' hsent''
  obtain ⟨sent, more, hsent, rfl, hmore⟩ := h sent' hsent'
  exact ⟨sent, more ++ more', hsent, List.append_assoc _ _ _, fun e he =>
    (List.mem_append.mp he).elim (hmore e) (hmore' e)⟩

theorem grown_record (r : Recorder σ) (tick : Nat) (out : List Intent) (from_ : Nat) :
    Grown tick r (r.record tick out from_) := by
  intro sent' hsent'
  unfold record at hsent'
  split at hsent'
  · obtain ⟨sent, hsent, rfl⟩ := Option.map_eq_some_iff.mp hsent'
    refine ⟨sent, _, hsent, rfl, fun e he => ?_⟩
    obtain ⟨x, -, rfl⟩ := List.mem_map.mp he
    rfl
  · cases hsent'

/-- **Step: one tick more.**  It is counted, and what is recorded with it has its number. -/
theorem grown_onTick (c : RunConfig) (S : Strategy σ) (h : Host (Recorder σ)) (tick : Tick) :
    (h.onTick c (strategy S) tick).val.strategy.seen = h.strategy.seen + 1 ∧
      Grown h.strategy.seen h.strategy (h.onTick c (strategy S) tick).val.strategy := by
  -- the callbacks before the tick record under the number the tick will have
  have hheard : ∀ (s : Recorder σ × List Intent) (told : σ × List Intent),
      s.1.seen = h.strategy.seen ∧ Grown h.strategy.seen h.strategy s.1 →
        (s.1.heard s.2 told).1.seen = h.strategy.seen ∧
          Grown h.strategy.seen h.strategy (s.1.heard s.2 told).1 := by
    rintro s told ⟨hseen, hgrown⟩
    refine ⟨hseen, hgrown.trans ?_⟩
    rw [← hseen]
    exact grown_record ({ s.1 with inner := told.1 } : Recorder σ) s.1.seen told.2 s.2.length
  obtain ⟨ctx, s, ⟨hseen, hgrown⟩, hstrategy, -⟩ :=
    Host.deliver_of_callbacks (T := strategy S)
      (I := fun s => s.1.seen = h.strategy.seen ∧ Grown h.strategy.seen h.strategy s.1)
      (fun fill ctx s => hheard s _) (fun closed ctx s => hheard s _)
      (fun id ending s => hheard s _) c h ⟨rfl, Grown.refl _ _⟩ tick
  refine Host.acts_of_onPlaced (T := strategy S)
    (P := fun r => r.seen = h.strategy.seen + 1 ∧ Grown h.strategy.seen h.strategy r)
    (fun _ _ _ hr => hr) c tick.stamp (h.deliver c (strategy S) tick).val.2
    (h.deliver c (strategy S) tick).val.1 ?_
  rw [hstrategy]
  refine ⟨congrArg (· + 1) hseen, hgrown.trans ?_⟩
  rw [← hseen]
  exact grown_record ({ s.1 with inner := _, seen := s.1.seen + 1 } : Recorder σ) s.1.seen _ _

/-- **A run** adds what is sent on its ticks, in their order. -/
theorem grown_ran (c : RunConfig) (S : Strategy σ) (h : Host (Recorder σ)) (ticks : List Tick) :
    ∀ sent', (h.ran c (strategy S) ticks).strategy.sent = some sent' →
      ∃ sent more, h.strategy.sent = some sent ∧ sent' = sent ++ more ∧ Tagged.Rising more ∧
        ∀ e ∈ more, h.strategy.seen ≤ e.1 ∧ e.1 < h.strategy.seen + ticks.length := by
  induction ticks generalizing h with
  | nil =>
    exact fun sent' hsent' => ⟨sent', [], hsent', (List.append_nil _).symm, List.Pairwise.nil,
      fun _ he => absurd he List.not_mem_nil⟩
  | cons tick rest ih =>
    intro sent'' hsent''
    obtain ⟨hseen, hgrown⟩ := grown_onTick c S h tick
    rw [Host.ran_cons] at hsent''
    obtain ⟨sent', more', hsent', rfl, hrising', hmore'⟩ := ih _ sent'' hsent''
    obtain ⟨sent, more, hsent, rfl, hmore⟩ := hgrown sent' hsent'
    rw [hseen] at hmore'
    -- the numbers of the first tick are one number, and below all that follow
    refine ⟨sent, more ++ more', hsent, List.append_assoc _ _ _, ?_, fun e he => ?_⟩
    · refine List.pairwise_append.mpr ⟨?_, hrising', fun a ha b hb => ?_⟩
      · exact List.Pairwise.imp_of_mem (fun ha hb _ => by rw [hmore _ ha, hmore _ hb])
          (List.pairwise_of_forall fun _ _ => trivial)
      · rw [hmore a ha]
        exact Nat.le_of_succ_le (hmore' b hb).1
    · rw [List.length_cons]
      rcases List.mem_append.mp he with he | he
      · rw [hmore e he]
        omega
      · have := hmore' e he
        omega

theorem seen_ran (c : RunConfig) (S : Strategy σ) (h : Host (Recorder σ)) (ticks : List Tick) :
    (h.ran c (strategy S) ticks).strategy.seen = h.strategy.seen + ticks.length := by
  induction ticks generalizing h with
  | nil => rfl
  | cons tick rest ih =>
    rw [Host.ran_cons, ih, (grown_onTick c S h tick).1, List.length_cons]
    omega

end Recorder

/-! ## What is recorded is what is sent -/

/-- A strategy appends to the buffer of intents, as the documentation of the callbacks has
it. -/
structure Strategy.Appends {σ : Type} (S : Strategy σ) : Prop where
  onTick : ∀ ctx s, s.2 <+: (S.onTick ctx s).2
  onFill : ∀ fill ctx s, s.2 <+: (S.onFill fill ctx s).2
  onVenueClosed : ∀ closed ctx s, s.2 <+: (S.onVenueClosed closed ctx s).2
  onEnded : ∀ id ending s, s.2 <+: (S.onEnded id ending s).2

namespace Recorder

variable {σ : Type}

/-- What was sent so far and the buffer, under a tick. -/
def Holds (base : Option (List (Nat × Intent))) (tick : Nat) (s : Recorder σ × List Intent) :
    Prop :=
  s.1.sent = base.map (· ++ s.2.map (tick, ·))

theorem Holds.record {base : Option (List (Nat × Intent))} {tick : Nat}
    {s : Recorder σ × List Intent} (h : Holds base tick s) {r : Recorder σ}
    (hr : r.sent = s.1.sent) {out : List Intent} (hout : s.2 <+: out) :
    Holds base tick (r.record tick out s.2.length, out) := by
  obtain ⟨more, rfl⟩ := hout
  show (if s.2.length ≤ (s.2 ++ more).length then _ else none) = _
  rw [if_pos (by rw [List.length_append]; omega), List.drop_left, hr, h, Option.map_map]
  congr 1
  funext sent
  rw [Function.comp_apply, List.map_append, List.append_assoc]

/-- **Step: one tick more.**  What the host acts on is recorded under the tick. -/
theorem sent_onTick {S : Strategy σ} (hS : S.Appends) (c : RunConfig) (h : Host (Recorder σ))
    (tick : Tick) :
    (h.onTick c (strategy S) tick).val.strategy.sent =
      h.strategy.sent.map
        (· ++ (h.deliver c (strategy S) tick).val.2.map (h.strategy.seen, ·)) := by
  -- at each call the record is what it was, and the buffer so far under one number
  have hheard : ∀ (s : Recorder σ × List Intent) (told : σ × List Intent), s.2 <+: told.2 →
      s.1.seen = h.strategy.seen ∧ Holds h.strategy.sent h.strategy.seen s →
        (s.1.heard s.2 told).1.seen = h.strategy.seen ∧
          Holds h.strategy.sent h.strategy.seen (s.1.heard s.2 told) := by
    rintro s told hout ⟨hseen, hholds⟩
    refine ⟨hseen, ?_⟩
    unfold heard
    rw [hseen]
    exact hholds.record rfl hout
  have hstart : Holds h.strategy.sent h.strategy.seen (h.strategy, []) := by
    unfold Holds
    simp
  obtain ⟨ctx, s, ⟨hseen, hholds⟩, hstrategy, hintents⟩ :=
    Host.deliver_of_callbacks (T := strategy S)
      (I := fun s => s.1.seen = h.strategy.seen ∧ Holds h.strategy.sent h.strategy.seen s)
      (fun fill ctx s => hheard s _ (hS.onFill fill ctx (s.1.inner, s.2)))
      (fun closed ctx s => hheard s _ (hS.onVenueClosed closed ctx (s.1.inner, s.2)))
      (fun id ending s => hheard s _ (hS.onEnded id ending (s.1.inner, s.2))) c h
      ⟨rfl, hstart⟩ tick
  have hdelivered : (h.deliver c (strategy S) tick).val.1.strategy.sent =
      h.strategy.sent.map
        (· ++ (h.deliver c (strategy S) tick).val.2.map (h.strategy.seen, ·)) := by
    rw [hstrategy, hintents, ← hseen]
    rw [← hseen] at hholds
    exact hholds.record (r := { s.1 with inner := _, seen := s.1.seen + 1 }) rfl
      (hS.onTick ctx (s.1.inner, s.2))
  rw [← hdelivered]
  exact Host.acts_of_onPlaced (T := strategy S)
    (P := fun r => r.sent = (h.deliver c (strategy S) tick).val.1.strategy.sent)
    (fun _ _ _ hr => hr) c tick.stamp (h.deliver c (strategy S) tick).val.2
    (h.deliver c (strategy S) tick).val.1 rfl

/-- **A run** records, tick by tick, what the host acts on. -/
theorem sent_ran {S : Strategy σ} (hS : S.Appends) (c : RunConfig) (h : Host (Recorder σ))
    (ticks : List Tick) :
    (h.ran c (strategy S) ticks).strategy.sent =
      h.strategy.sent.map
        (· ++ Tagged.tagged h.strategy.seen (h.acted c (strategy S) ticks)) := by
  induction ticks generalizing h with
  | nil =>
    show h.strategy.sent = h.strategy.sent.map (· ++ [])
    simp
  | cons tick rest ih =>
    rw [Host.ran_cons, ih, sent_onTick hS, (grown_onTick c S h tick).1, Option.map_map]
    congr 1
    funext sent
    exact List.append_assoc _ _ _

end Recorder

section Recorded

variable {σ : Type} {c : RunConfig} {S : Strategy σ} {s : σ} {ticks : List Tick}
  {sent : List (Nat × Intent)}

theorem recorded_eq_ok_iff :
    recorded c S s ticks = .ok sent ↔
      ((Host.start c (Recorder.new s)).ran c (Recorder.strategy S) ticks).strategy.sent =
        some sent := by
  unfold recorded
  show (match ((Host.start c (Recorder.new s)).ran c (Recorder.strategy S) ticks).strategy.sent with
    | some sent => .ok sent
    | none => .error .buffer : Except Stop (List (Nat × Intent))) = _ ↔ _
  cases ((Host.start c (Recorder.new s)).ran c (Recorder.strategy S) ticks).strategy.sent with
  | none => simp
  | some sent => simp

/-- What is recorded is in the order of the ticks, and on them. -/
theorem recorded_rising (h : recorded c S s ticks = .ok sent) :
    Tagged.Rising sent ∧ ∀ e ∈ sent, e.1 < ticks.length := by
  obtain ⟨sent₀, more, hsent₀, rfl, hrising, hmore⟩ :=
    Recorder.grown_ran c S _ ticks sent (recorded_eq_ok_iff.mp h)
  obtain rfl : [] = sent₀ := Option.some.inj hsent₀
  refine ⟨hrising, fun e he => ?_⟩
  have := (hmore e he).2
  rwa [show (Host.start c (Recorder.new s)).strategy.seen = 0 from rfl, zero_add] at this

/-- **A run over a prefix** has recorded what the whole run recorded on it. -/
theorem recorded_prefix (h : recorded c S s ticks = .ok sent) (k : Nat) :
    ∃ sent', recorded c S s (ticks.take k) = .ok sent' ∧
      ∀ tick < k, Tagged.on sent tick = Tagged.on sent' tick := by
  have hran := recorded_eq_ok_iff.mp h
  rw [← List.take_append_drop k ticks, Host.ran_append] at hran
  obtain ⟨sent', more, hsent', rfl, -, hmore⟩ := Recorder.grown_ran c S _ (ticks.drop k) sent hran
  refine ⟨sent', recorded_eq_ok_iff.mpr hsent', fun tick htick => ?_⟩
  -- what the ticks beyond the prefix added has their numbers
  have hnone : Tagged.on more tick = [] := Tagged.on_eq_nil fun e he heq => by
    obtain ⟨hlow, hhigh⟩ := hmore e he
    rw [Recorder.seen_ran, show (Host.start c (Recorder.new s)).strategy.seen = 0 from rfl,
      List.length_take] at hlow hhigh
    rw [List.length_drop] at hhigh
    omega
  rw [Tagged.on_append, hnone, List.append_nil]

end Recorded

/-- What a run recorded of a tick. -/
def recordedOn {σ : Type} (c : RunConfig) (S : Strategy σ) (build : List Tick → σ)
    (ticks : List Tick) (tick : Nat) : List Intent :=
  match recorded c S (build ticks) ticks with
  | .ok sent => intentsOn sent tick
  | .error _ => []

/-- What the host acted on at a tick, without a recorder. -/
def actedOn {σ : Type} (c : RunConfig) (S : Strategy σ) (build : List Tick → σ)
    (ticks : List Tick) (tick : Nat) : List Intent :=
  ((Host.start c (build ticks)).acted c S ticks).getD tick []

/-! ## One point -/

/-- A divergence is the first tick on which two runs sent different intents, and what each
of them sent. -/
structure Divergence.Of (ticks : List Tick) (point : Nat) (full truncated : Nat → List Intent)
    (d : Divergence) : Prop where
  checkedAt : d.checkedAt = point
  least : IsLeast {tick | full tick ≠ truncated tick} d.tick
  le : d.tick ≤ point
  full : d.full = full d.tick
  truncated : d.truncated = truncated d.tick
  at_ : ticks[d.tick]?.map (·.stamp.exch) = some d.at_

section Check

variable {σ : Type} {c : RunConfig} {S : Strategy σ} {build : List Tick → σ} {ticks : List Tick}
  {full : List (Nat × Intent)}

theorem recordedOn_eq (h : recorded c S (build ticks) ticks = .ok full) :
    recordedOn c S build ticks = intentsOn full := by
  funext tick
  unfold recordedOn
  rw [h]

theorem recorded_ne_ticks (s : σ) : recorded c S s ticks ≠ .error .ticks := by
  unfold recorded
  split <;> exact fun h => nomatch h

/-- **What is found at a point.** -/
theorem checkPoint_cases (h : recorded c S (build ticks) ticks = .ok full) {point : Nat}
    (hpoint : point < ticks.length) :
    (checkPoint c S build ticks full point = .error .buffer ∧
      recorded c S (build (ticks.take (point + 1))) (ticks.take (point + 1)) = .error .buffer) ∨
    (checkPoint c S build ticks full point = .ok none ∧ ∀ tick ≤ point,
      recordedOn c S build ticks tick = recordedOn c S build (ticks.take (point + 1)) tick) ∨
    ∃ d, checkPoint c S build ticks full point = .ok (some d) ∧
      d.Of ticks point (recordedOn c S build ticks)
        (recordedOn c S build (ticks.take (point + 1))) := by
  have hrising := (recorded_rising h).1
  rw [recordedOn_eq h]
  unfold checkPoint
  rw [if_neg (not_le.mpr hpoint)]
  simp only
  cases hrerun : recorded c S (build (ticks.take (point + 1))) (ticks.take (point + 1)) with
  | error stop =>
    cases stop with
    | buffer => exact .inl ⟨rfl, rfl⟩
    | ticks => exact absurd hrerun (recorded_ne_ticks _)
  | ok rerun =>
    have hrising' := (recorded_rising hrerun).1
    rw [recordedOn_eq hrerun]
    refine .inr ?_
    by_cases hsame : Tagged.through full point = Tagged.through rerun point
    · refine .inl ⟨if_pos hsame, fun tick htick => ?_⟩
      by_contra hdiff
      exact (Tagged.through_ne_iff hrising hrising' point).mpr ⟨tick, htick, hdiff⟩ hsame
    · obtain ⟨hleast, hle⟩ :=
        Tagged.isLeast_firstDifference hrising hrising' hsame point
      generalize hfirst : Tagged.firstDifference (Tagged.through full point)
        (Tagged.through rerun point) point = tick at hleast hle
      -- the difference is at a tick of the prefix, so it has a time
      have htick : tick < ticks.length := lt_of_le_of_lt hle hpoint
      have hget : ticks[tick]? = some ticks[tick] := List.getElem?_eq_getElem htick
      have hon : ∀ l : List (Nat × Intent),
          intentsOn (Tagged.through l point) tick = intentsOn l tick := fun l => by
        unfold intentsOn
        rw [Tagged.on_through, if_pos hle]
      refine .inr ⟨⟨point, tick, ticks[tick].stamp.exch, intentsOn full tick,
        intentsOn rerun tick⟩, ?_, ⟨rfl, hleast, hle, rfl, rfl, ?_⟩⟩
      · show (if _ then _ else _ : Except Stop (Option Divergence)) = _
        simp only [if_neg hsame, hfirst, hget, hon]
        rfl
      · rw [hget]
        rfl

/-! ## The points one after the other -/

/-- **What is found at the points**: at each of them a divergence, or no difference. -/
theorem checkPoints_cases (h : recorded c S (build ticks) ticks = .ok full) {points : List Nat}
    (hpoints : ∀ p ∈ points, p < ticks.length) :
    (checkPoints c S build ticks full points = .error .buffer ∧ ∃ p,
      recorded c S (build (ticks.take (p + 1))) (ticks.take (p + 1)) = .error .buffer) ∨
    ∃ ds, checkPoints c S build ticks full points = .ok ds ∧
      (ds.map Divergence.checkedAt).Sublist points ∧
      (∀ d ∈ ds, d.Of ticks d.checkedAt (recordedOn c S build ticks)
        (recordedOn c S build (ticks.take (d.checkedAt + 1)))) ∧
      ∀ p ∈ points, (∃ d ∈ ds, d.checkedAt = p) ∨ ∀ tick ≤ p,
        recordedOn c S build ticks tick = recordedOn c S build (ticks.take (p + 1)) tick := by
  induction points with
  | nil =>
    exact .inr ⟨[], rfl, List.Sublist.slnil, fun _ hd => absurd hd List.not_mem_nil,
      fun _ hp => absurd hp List.not_mem_nil⟩
  | cons p rest ih =>
    obtain ⟨hp, hrest⟩ := List.forall_mem_cons.mp hpoints
    unfold checkPoints
    rcases checkPoint_cases h hp with ⟨hcheck, hstop⟩ | ⟨hcheck, hsame⟩ | ⟨d, hcheck, hd⟩
    · rw [hcheck]
      exact .inl ⟨rfl, p, hstop⟩
    · rw [hcheck]
      rcases ih hrest with ⟨hstops, hstop⟩ | ⟨ds, hds, horder, hof, hfound⟩
      · rw [hstops]
        exact .inl ⟨rfl, hstop⟩
      · rw [hds]
        refine .inr ⟨ds, rfl, horder.cons p, hof, ?_⟩
        exact List.forall_mem_cons.mpr ⟨.inr hsame, hfound⟩
    · rw [hcheck]
      rcases ih hrest with ⟨hstops, hstop⟩ | ⟨ds, hds, horder, hof, hfound⟩
      · rw [hstops]
        exact .inl ⟨rfl, hstop⟩
      · rw [hds]
        refine .inr ⟨d :: ds, rfl, ?_, ?_, ?_⟩
        · rw [List.map_cons, hd.checkedAt]
          exact horder.cons_cons p
        · refine List.forall_mem_cons.mpr ⟨?_, hof⟩
          rw [hd.checkedAt]
          exact hd
        · refine List.forall_mem_cons.mpr ⟨.inl ⟨d, List.mem_cons_self, hd.checkedAt⟩, ?_⟩
          intro q hq
          exact (hfound q hq).imp_left fun ⟨d', hd', heq⟩ => ⟨d', List.mem_cons_of_mem d hd', heq⟩

/-! ## The report -/

/-- What a report says of what was sent over the ticks, and over each prefix of them. -/
structure LookaheadReport.Exact (ticks : List Tick) (maxPoints : Nat)
    (sent : List Tick → Nat → List Intent) (points : List Nat) (report : LookaheadReport) :
    Prop where
  signals : report.signals =
    ((List.range ticks.length).filter fun tick => sent ticks tick ≠ []).length
  checked : report.checked = points.length
  length : points.length = min maxPoints report.signals
  rising : points.Pairwise (· < ·)
  signal : ∀ p ∈ points, p < ticks.length ∧ sent ticks p ≠ []
  first : 2 ≤ maxPoints → ∀ p, sent ticks p ≠ [] → (∀ q < p, sent ticks q = []) → p ∈ points
  last : 2 ≤ maxPoints → ∀ p, sent ticks p ≠ [] → (∀ q, p < q → sent ticks q = []) → p ∈ points
  order : (report.divergences.map Divergence.checkedAt).Sublist points
  found : ∀ p ∈ points, (∃ d ∈ report.divergences, d.checkedAt = p) ↔
    ∃ tick ≤ p, sent ticks tick ≠ sent (ticks.take (p + 1)) tick
  divergence : ∀ d ∈ report.divergences, d.Of ticks d.checkedAt (sent ticks)
    (sent (ticks.take (d.checkedAt + 1)))

/-- The candidates are the ticks something was sent on. -/
theorem tags_eq (h : recorded c S (build ticks) ticks = .ok full) :
    Tagged.tags full =
      (List.range ticks.length).filter fun tick => recordedOn c S build ticks tick ≠ [] := by
  obtain ⟨hrising, hlt⟩ := recorded_rising h
  have hstrict := Tagged.pairwise_tags hrising
  have hstrict' : ((List.range ticks.length).filter fun tick =>
      recordedOn c S build ticks tick ≠ []).Pairwise (· < ·) := List.pairwise_lt_range.filter _
  have hperm : (Tagged.tags full).Perm ((List.range ticks.length).filter fun tick =>
      recordedOn c S build ticks tick ≠ []) := by
    refine (List.perm_ext_iff_of_nodup (hstrict.imp ne_of_lt) (hstrict'.imp ne_of_lt)).mpr
      fun tick => ?_
    rw [Tagged.mem_tags hrising, List.mem_filter, List.mem_range, decide_eq_true_eq,
      recordedOn_eq h]
    refine (and_iff_right_of_imp fun hne => ?_).symm
    obtain ⟨e, he, rfl⟩ := List.mem_map.mp (Tagged.on_ne_nil_iff.mp hne)
    exact hlt e he
  exact hperm.eq_of_pairwise (fun a b _ _ hab hba => absurd hab (lt_asymm hba)) hstrict hstrict'

theorem head?_of_least {l : List Nat} (h : l.Pairwise (· < ·)) {p : Nat} (hp : p ∈ l)
    (hleast : ∀ q ∈ l, p ≤ q) : l.head? = some p := by
  cases l with
  | nil => exact absurd hp List.not_mem_nil
  | cons q rest =>
    have hle := hleast q List.mem_cons_self
    rcases List.mem_cons.mp hp with rfl | hmem
    · rfl
    · have := (List.pairwise_cons.mp h).1 p hmem
      omega

theorem getLast?_of_greatest {l : List Nat} (h : l.Pairwise (· < ·)) {p : Nat} (hp : p ∈ l)
    (hgreatest : ∀ q ∈ l, q ≤ p) : l.getLast? = some p := by
  rcases List.eq_nil_or_concat' l with rfl | ⟨front, q, rfl⟩
  · exact absurd hp List.not_mem_nil
  rw [List.getLast?_concat]
  have hle := hgreatest q (by simp)
  rcases List.mem_append.mp hp with hmem | hmem
  · have := (List.pairwise_append.mp h).2.2 p hmem q (List.mem_singleton_self q)
    omega
  · rw [List.mem_singleton.mp hmem]

theorem mem_tags_iff (h : recorded c S (build ticks) ticks = .ok full) (p : Nat) :
    p ∈ Tagged.tags full ↔ p < ticks.length ∧ recordedOn c S build ticks p ≠ [] := by
  rw [tags_eq h, List.mem_filter, List.mem_range, decide_eq_true_eq]

/-- Nothing is recorded of a tick that did not come. -/
theorem lt_of_recordedOn (h : recorded c S (build ticks) ticks = .ok full) {p : Nat}
    (hp : recordedOn c S build ticks p ≠ []) : p < ticks.length := by
  rw [recordedOn_eq h] at hp
  exact ((mem_tags_iff h p).mp ((Tagged.mem_tags (recorded_rising h).1).mpr hp)).1

variable (c S build) in
/-- **A report is exact**, unless the process stopped at a buffer. -/
theorem lookahead_cases (ticks : List Tick) (maxPoints : Nat) :
    (lookahead c S build ticks maxPoints = .error .buffer ∧
      ∃ known, recorded c S (build known) known = .error .buffer) ∨
    ∃ report points, lookahead c S build ticks maxPoints = .ok report ∧
      report.Exact ticks maxPoints (recordedOn c S build) points := by
  unfold lookahead
  cases hfull : recorded c S (build ticks) ticks with
  | error stop =>
    cases stop with
    | buffer => exact .inl ⟨rfl, ticks, hfull⟩
    | ticks => exact absurd hfull (recorded_ne_ticks _)
  | ok full =>
    have hstrict := Tagged.pairwise_tags (recorded_rising hfull).1
    have hmem := mem_tags_iff hfull
    have hpicked := picked_spread hstrict maxPoints
    have hpoints : ∀ p ∈ spread (Tagged.tags full) maxPoints, p < ticks.length :=
      fun p hp => ((hmem p).mp (hpicked.mem p hp)).1
    rcases checkPoints_cases hfull hpoints with ⟨hstops, p, hstop⟩ | ⟨ds, hds, horder, hof, hfound⟩
    · refine .inl ⟨?_, _, hstop⟩
      show (checkPoints c S build ticks full (spread (Tagged.tags full) maxPoints) >>= _) = _
      rw [hstops]
      rfl
    refine .inr ⟨⟨(Tagged.tags full).length, (spread (Tagged.tags full) maxPoints).length, ds⟩,
      spread (Tagged.tags full) maxPoints, ?_, ?_⟩
    · show (checkPoints c S build ticks full (spread (Tagged.tags full) maxPoints) >>= _) = _
      rw [hds]
      rfl
    · refine ⟨congrArg List.length (tags_eq hfull), rfl, hpicked.length, hpicked.rising,
        fun p hp => (hmem p).mp (hpicked.mem p hp), fun htwo p hp hbefore => ?_,
        fun htwo p hp hafter => ?_, horder, fun p hp => ⟨?_, fun hdiff => ?_⟩, hof⟩
      · -- the first signal is the first candidate, and the last the last
        have hcandidate := (hmem p).mpr ⟨lt_of_recordedOn hfull hp, hp⟩
        refine hpicked.ends htwo p (.inl (head?_of_least hstrict hcandidate fun q hq => ?_))
        by_contra hless
        exact ((hmem q).mp hq).2 (hbefore q (not_le.mp hless))
      · have hcandidate := (hmem p).mpr ⟨lt_of_recordedOn hfull hp, hp⟩
        refine hpicked.ends htwo p (.inr (getLast?_of_greatest hstrict hcandidate fun q hq => ?_))
        by_contra hmore
        exact ((hmem q).mp hq).2 (hafter q (not_le.mp hmore))
      · rintro ⟨d, hd, rfl⟩
        exact ⟨d.tick, (hof d hd).le, (hof d hd).least.1⟩
      · obtain ⟨tick, htick, hne⟩ := hdiff
        exact (hfound p hp).resolve_right fun hsame => hne (hsame tick htick)

/-- Where there is a report, the whole run was recorded. -/
theorem recorded_of_lookahead {maxPoints : Nat} {report : LookaheadReport}
    (h : lookahead c S build ticks maxPoints = .ok report) :
    ∃ full, recorded c S (build ticks) ticks = .ok full := by
  unfold lookahead at h
  cases hfull : recorded c S (build ticks) ticks with
  | error stop =>
    rw [hfull] at h
    cases h
  | ok full => exact ⟨full, rfl⟩

/-- Of a strategy that does not know the ticks to come, a prefix records what all the ticks
do. -/
theorem recordedOn_take (h : recorded c S (build ticks) ticks = .ok full) {k : Nat}
    (hbuild : build (ticks.take k) = build ticks) {tick : Nat} (htick : tick < k) :
    recordedOn c S build ticks tick = recordedOn c S build (ticks.take k) tick := by
  obtain ⟨full', hfull', hon⟩ := recorded_prefix h k
  rw [← hbuild] at hfull'
  rw [recordedOn_eq h, recordedOn_eq hfull']
  exact hon tick htick

/-- What is recorded of a strategy that appends is what the host acts on without a
recorder. -/
theorem recorded_of_appends (hS : S.Appends) (s : σ) (ticks : List Tick) :
    recorded c S s ticks = .ok (Tagged.tagged 0 ((Host.start c s).acted c S ticks)) := by
  have hsame : (Host.start c (Recorder.new s)).acted c (Recorder.strategy S) ticks =
      (Host.start c s).acted c S ticks :=
    (Host.acted_map (Recorder.around S) c (Host.start c (Recorder.new s)) ticks).symm
  rw [recorded_eq_ok_iff, Recorder.sent_ran hS, hsame]
  rfl

theorem recordedOn_of_appends (hS : S.Appends) (ticks : List Tick) (tick : Nat) :
    recordedOn c S build ticks tick = actedOn c S build ticks tick := by
  rw [recordedOn_eq (recorded_of_appends hS (build ticks) ticks)]
  have hon := Tagged.on_tagged 0 tick ((Host.start c (build ticks)).acted c S ticks)
  rwa [zero_add] at hon

end Check

/-- **The check is exact.**  It never indexes past the ticks; its report is about the points it
should be about and finds at each of them the first difference there is; a builder that
ignores its data is cleared.  Of a strategy that appends there always is a report, and it is
about what the host acts on. -/
theorem lookahead_exact {σ : Type} (c : RunConfig) (S : Strategy σ) (build : List Tick → σ)
    (ticks : List Tick) (maxPoints : Nat) :
    lookahead c S build ticks maxPoints ≠ .error .ticks ∧
    (∀ report, lookahead c S build ticks maxPoints = .ok report →
      (∃ points, report.Exact ticks maxPoints (recordedOn c S build) points) ∧
      ((∀ known, build known = build ticks) → report.clean = true)) ∧
    (S.Appends → (∃ report, lookahead c S build ticks maxPoints = .ok report) ∧
      ∀ known tick, recordedOn c S build known tick = actedOn c S build known tick) := by
  rcases lookahead_cases c S build ticks maxPoints with
    ⟨hstop, known, hknown⟩ | ⟨report, points, hreport, hexact⟩
  · refine ⟨fun h => (nomatch hstop.symm.trans h), fun report hreport => ?_, fun hS => ?_⟩
    · cases hstop.symm.trans hreport
    · cases (recorded_of_appends hS (build known) known).symm.trans hknown
  · refine ⟨fun h => (nomatch hreport.symm.trans h), fun report' hreport' => ?_, fun hS =>
      ⟨⟨report, hreport⟩, fun known tick => recordedOn_of_appends hS known tick⟩⟩
    obtain rfl : report = report' := Except.ok.inj (hreport.symm.trans hreport')
    refine ⟨⟨points, hexact⟩, fun hignores => List.isEmpty_iff.mpr ?_⟩
    obtain ⟨full, hfull⟩ := recorded_of_lookahead hreport
    refine List.eq_nil_iff_forall_not_mem.mpr fun d hd => ?_
    have hof := hexact.divergence d hd
    exact hof.least.1
      (recordedOn_take hfull (hignores _) (Nat.lt_succ_of_le hof.le))

/-- A script for the whole window and another for less of it. -/
def peekingScript (known : List Tick) : List (List Intent) :=
  if 3 ≤ known.length then quietScript else [[.market 7 1 .buy 4 .opening], [.cancel 1]]

theorem lookahead_exact_peeking :
    Strategy.scripted.Appends ∧
    lookahead anchorConfig Strategy.scripted peekingScript quietTicks 1 =
      .ok ⟨2, 1, [⟨0, 0, 1, [.market 7 1 .buy 5 .opening, .limit 7 2 .buy 90 5 .opening],
        [.market 7 1 .buy 4 .opening]⟩]⟩ ∧
    (∃ points, LookaheadReport.Exact quietTicks 1
      (recordedOn anchorConfig Strategy.scripted peekingScript) points
      ⟨2, 1, [⟨0, 0, 1, [.market 7 1 .buy 5 .opening, .limit 7 2 .buy 90 5 .opening],
        [.market 7 1 .buy 4 .opening]⟩]⟩) ∧
    recordedOn anchorConfig Strategy.scripted peekingScript quietTicks 1 =
      actedOn anchorConfig Strategy.scripted peekingScript quietTicks 1 := by
  have happends : Strategy.scripted.Appends :=
    ⟨fun _ s => List.prefix_append s.2 _, fun _ _ s => List.prefix_refl s.2,
      fun _ _ s => List.prefix_refl s.2, fun _ _ s => List.prefix_refl s.2⟩
  obtain ⟨-, hreport, hsent⟩ :=
    lookahead_exact anchorConfig Strategy.scripted peekingScript quietTicks 1
  have hfound : lookahead anchorConfig Strategy.scripted peekingScript quietTicks 1 =
      .ok ⟨2, 1, [⟨0, 0, 1, [.market 7 1 .buy 5 .opening, .limit 7 2 .buy 90 5 .opening],
        [.market 7 1 .buy 4 .opening]⟩]⟩ := by decide +kernel
  exact ⟨happends, hfound, (hreport _ hfound).1, (hsent happends).2 quietTicks 1⟩

end Backtest
