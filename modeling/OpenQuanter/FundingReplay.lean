/-
# Replaying the journal of a funding watch

A journal that was accepted goes on being accepted when a watch writes in it, as long as
no settlement's sum saturates (`replay_accepts`): each record passes the checks of the
replay, which has booked what the run has returned (`Stands`, `Mirrors`).
-/
import OpenQuanter.FundingJournal

open Logged

/-! ## The books -/

namespace LiveBooks

/-- The books of one venue account and the funding they booked. -/
structure Sole (total : Cash) (b : LiveBooks) : Prop where
  venue : b.kernel.VenueKept
  one : b.kernel.state.holdings.length = 1
  funding : b.kernel.state.funding = total

variable {b : LiveBooks} {total : Cash}

theorem sole_new (instrument : InstrumentId) (contract : Contract) (table : TierTable)
    (balance : Cash) (mode : PositionMode) :
    (new instrument contract table balance mode).Sole 0 :=
  ⟨⟨rfl, rfl⟩, rfl, rfl⟩

/-- An event leaves one account one account. -/
theorem Sole.applying {event : Event} (h : b.Sole total) {total' : Cash}
    (hfunding : (b.kernel.apply event).val.state.funding = total') :
    (b.applying event).val.Sole total' where
  venue := venueKept_applying h.venue event
  one := (b.kernel.moves_apply event).length.trans h.one
  funding := hfunding

theorem funding_withdrawFilled (s : State) (fill : Fill) :
    (Kernel.withdrawFilled s fill).funding = s.funding := by
  unfold Kernel.withdrawFilled
  split
  · rfl
  · rfl

/-- A fill is not funding. -/
theorem Sole.venueFill (h : b.Sole total) (fill : Fill) (fee : Fee) :
    (b.applying (.venueFill fill fee)).val.Sole total := by
  refine h.applying ?_
  rw [Kernel.state_venueFill h.venue, (State.kept_applyFill _ fill).funding]
  have hpriced : ∀ s : State, (Kernel.venueFee s fill fee).2.funding = s.funding := by
    intro s
    cases fee <;> rfl
  show (Kernel.venueFee _ fill fee).2.funding = total
  rw [hpriced, funding_withdrawFilled]
  exact h.funding

theorem Sole.adopt (h : b.Sole total) (side : Side) (qty : QtyLots) (entry : PriceTicks)
    (at_ : Nanos) : (b.adopt side qty entry at_).val.Sole total := by
  unfold LiveBooks.adopt
  split
  · exact h
  · exact h.venueFill _ _

theorem Sole.tick (h : b.Sole total) (tick : Tick) : (b.onTick tick).val.Sole total := by
  refine h.applying ?_
  have hstate := Kernel.state_tick h.venue tick
  rw [hstate]
  cases b.kernel.route none with
  | none => exact h.funding
  | some index => exact h.funding

theorem Sole.bookNew (h : b.Sole total) (seen : TradeWindow Side) (fill : Fill) (fee : Fee) :
    (b.bookNew seen fill fee).val.Sole total := by
  have hsame : ∀ booked fills,
      ({ b with seen := seen, booked := booked, unpricedFills := fills } : LiveBooks).Sole total :=
    fun _ _ => ⟨h.venue, h.one, h.funding⟩
  exact (hsame _ _).venueFill fill fee.observed

theorem Sole.fill (h : b.Sole total) (fill : Fill) (fee : Fee) :
    (b.onVenueFill fill fee).val.1.Sole total := by
  have hseen : ∀ seen, ({ b with seen := seen } : LiveBooks).Sole total := fun _ =>
    ⟨h.venue, h.one, h.funding⟩
  unfold onVenueFill
  split
  · exact h
  · split
    · rename_i seen _
      exact h.bookNew seen fill fee
    · exact hseen _
    · exact hseen _

/-- Funding is added to what was booked. -/
theorem Sole.charged (h : b.Sole total) (amount : Cash) (at_ : Nanos) :
    (b.onFundingCharged amount at_).val.Sole (Cash.add total amount) := by
  refine h.applying ?_
  have hroute : b.kernel.route none = some 0 := if_pos h.one
  rw [Kernel.state_fundingCharged, hroute]
  show Cash.add b.kernel.state.funding amount = _
  rw [h.funding]

end LiveBooks

namespace FundingWatch

open Ledger Except

/-! ## What the replay knows of funding -/

/-- The settlements and the rows that were booked, their sum, and the last state. -/
structure Stands (st : Replay) (ats ids : List Int64) (total : Cash)
    (last : Option (Nanos × FundingObligations)) : Prop where
  books : ∀ b, st.books = some b → b.Sole total
  funding : ∀ a, a ∈ st.funding ↔ a ∈ ats
  ids : ∀ id, id ∈ st.fundingIds ↔ id ∈ ids
  state : st.fundingState = last

/-- The session has its books and its positions. -/
def Ready (st : Replay) : Prop := st.adopted = true ∧ st.books.isSome = true

/-- A record about funding. -/
def IsFunding : LiveRecord → Prop
  | .funding .. | .fundingEvidence .. | .fundingRecovered .. | .fundingState .. => True
  | _ => False

instance : (r : LiveRecord) → Decidable (IsFunding r)
  | .funding .. | .fundingEvidence .. | .fundingRecovered .. | .fundingState .. =>
    inferInstanceAs (Decidable True)
  | .sessionStart .. | .ledgerStart .. | .reconciled .. | .execution .. | .legacyFill
  | .feeEvidence .. | .tick .. | .other => inferInstanceAs (Decidable False)

section Records

variable {session : Session} {recovered : List (Nat × Cash)} {st st' : Replay}
  {ats ids : List Int64} {total : Cash} {last : Option (Nanos × FundingObligations)}

/-- The rows may be listed in another order. -/
theorem Stands.perm {ids' : List Int64} (h : Stands st ats ids total last) (hperm : ids'.Perm ids) :
    Stands st ats ids' total last :=
  { h with ids := fun id => (h.ids id).trans hperm.mem_iff.symm }

theorem stands_start : Stands Replay.start [] [] 0 none where
  books _ h := nomatch h
  funding a := by simp [Replay.start]
  ids id := by simp [Replay.start]
  state := rfl

/-- Adopted legs are not funding. -/
theorem sole_adoptLegs {at_ : Nanos} {legs : List AdoptedLeg} {b b' : LiveBooks}
    (h : b.Sole total) (hlegs : legs.foldlM (Replay.adoptLeg session at_) b = .ok b') :
    b'.Sole total := by
  refine foldlM_history (I := fun _ b => b.Sole total) (fun _ leg _ b₁ b₂ _ h₁ hleg => ?_) h hlegs
  unfold Replay.adoptLeg at hleg
  rw [require_bind_eq_ok] at hleg
  obtain rfl := pure_eq_ok.mp hleg.2
  exact h₁.adopt _ _ _ _

/-- **A record that is not about funding** books none. -/
theorem Stands.other {r : LiveRecord × Nat} (h : Stands st [] [] 0 none)
    (hother : ¬ IsFunding r.1) (hstep : Replay.step session recovered st r = .ok st') :
    Stands st' [] [] 0 none := by
  obtain ⟨record, index⟩ := r
  cases record with
  | funding at_ settledMs venue => exact absurd trivial hother
  | fundingEvidence at_ settledMs venue lines => exact absurd trivial hother
  | fundingRecovered at_ sinceMs throughMs lines => exact absurd trivial hother
  | fundingState at_ obligations => exact absurd trivial hother
  | legacyFill => cases hstep
  | ledgerStart instrumentId instrument tickCash balance mode =>
    obtain ⟨-, rfl⟩ := Replay.onLedgerStart_ok hstep
    refine { h with books := fun b hb => ?_ }
    rw [← Option.some.inj hb]
    exact LiveBooks.sole_new _ _ _ _ _
  | reconciled at_ legs =>
    obtain ⟨b, b', hbooks, hlegs, rfl⟩ := Replay.onReconciled_ok hstep
    refine { h with books := fun b₁ hb => ?_ }
    rw [← Option.some.inj hb]
    exact sole_adoptLegs (h.books b hbooks) hlegs
  | execution fill fee =>
    obtain ⟨b, b', outputs, hbooks, hfill, rfl⟩ := Replay.onExecution_ok hstep
    refine { h with books := fun b₁ hb => ?_ }
    have hsole := (h.books b hbooks).fill fill (Replay.evidence recovered index fee)
    rw [hfill] at hsole
    rwa [← Option.some.inj hb]
  | tick at_ seen lastPrice bid ask volume =>
    obtain rfl := pure_eq_ok.mp hstep
    refine { h with books := fun b₁ hb => ?_ }
    obtain ⟨b, hbooks, rfl⟩ := Option.map_eq_some_iff.mp hb
    exact (h.books b hbooks).tick _
  | feeEvidence at_ sourceMs fill amount =>
    obtain rfl := pure_eq_ok.mp hstep
    exact h
  | sessionStart symbol priceScale qtyScale =>
    obtain rfl := pure_eq_ok.mp hstep
    exact h
  | other =>
    obtain rfl := pure_eq_ok.mp hstep
    exact h

/-- Records are accepted, wherever they stand in the session. -/
def Accepts (session : Session) (recovered : List (Nat × Cash)) (records : List LiveRecord)
    (st st' : Replay) : Prop :=
  ∀ k : Nat, (records.zipIdx k).foldlM (Replay.step session recovered) st = .ok st'

theorem accepts_nil (st : Replay) : Accepts session recovered [] st st := fun _ => rfl

theorem accepts_singleton {record : LiveRecord}
    (h : ∀ k, Replay.step session recovered st (record, k) = .ok st') :
    Accepts session recovered [record] st st' := by
  intro k
  rw [List.zipIdx_singleton, List.foldlM_cons, bind_eq_ok]
  exact ⟨st', h k, rfl⟩

theorem Accepts.append {records more : List LiveRecord} {st'' : Replay}
    (h : Accepts session recovered records st st')
    (h' : Accepts session recovered more st' st'') :
    Accepts session recovered (records ++ more) st st'' := by
  intro k
  rw [List.zipIdx_append, List.foldlM_append, bind_eq_ok]
  exact ⟨st', h k, h' _⟩

/-! ### A settlement -/

/-- The rows behind one that was new are new behind it. -/
theorem new_of_insert {l : FundingLine} {lines : List FundingLine} {known : Finset Int64}
    (hfirst : l.id ∉ lines.map (·.id)) (hnew : ∀ l' ∈ lines, l'.id ∉ known) :
    ∀ l' ∈ lines, l'.id ∉ insert l.id known := by
  intro l' hl' hmem
  rcases Finset.mem_insert.mp hmem with hsame | hmem
  · exact hfirst (hsame ▸ List.mem_map_of_mem hl')
  · exact hnew l' hl' hmem

/-- Rows that are new and near are added up. -/
theorem addLines_ok {settledMs : Int64} {lines : List FundingLine} {known : Finset Int64}
    (sum : Int) (hnodup : (lines.map (·.id)).Nodup) (hnew : ∀ l ∈ lines, l.id ∉ known)
    (hnear : ∀ l ∈ lines, SameSettlement l.timeMs settledMs) :
    ∃ known', lines.foldlM (Replay.addLine settledMs) (known, sum) =
        .ok (known', sum + (lines.map (·.amount.toInt)).sum) ∧
      ∀ id, id ∈ known' ↔ id ∈ known ∨ id ∈ lines.map (·.id) := by
  induction lines generalizing known sum with
  | nil => exact ⟨known, by rw [List.map_nil, List.sum_nil, add_zero]; rfl, fun id => by simp⟩
  | cons l lines ih =>
    obtain ⟨hfirst, hrest⟩ := List.nodup_cons.mp hnodup
    rw [List.forall_mem_cons] at hnew hnear
    have hadd : Replay.addLine settledMs (known, sum) l =
        .ok (insert l.id known, sum + l.amount.toInt) := by
      unfold Replay.addLine
      rw [require_bind_eq_ok, require_bind_eq_ok]
      exact ⟨hnew.1, hnear.1, rfl⟩
    obtain ⟨known', hfold, hknown⟩ := ih (sum + l.amount.toInt) hrest
      (new_of_insert hfirst hnew.2) hnear.2
    refine ⟨known', ?_, fun id => ?_⟩
    · rw [List.foldlM_cons, bind_eq_ok]
      refine ⟨_, hadd, ?_⟩
      rw [hfold, List.map_cons, List.sum_cons, add_assoc]
    · rw [hknown, Finset.mem_insert, List.map_cons, List.mem_cons]
      tauto

/-- The sum of a settlement's rows was not saturated. -/
def Exact (s : Settled) : Prop := s.venue.toInt = (s.lines.map (·.amount.toInt)).sum

instance (s : Settled) : Decidable (Exact s) := inferInstanceAs (Decidable (_ = _))

/-- What a settlement must be to be booked. -/
structure Bookable (s : Settled) : Prop where
  near : ∀ l ∈ s.lines, SameSettlement l.timeMs s.atMs
  exact_ : Exact s

theorem Stands.settlement (h : Stands st ats ids total last) (session : Session)
    (recovered : List (Nat × Cash)) (hready : Ready st) {s : Settled}
    (hs : Bookable s) (hat : s.atMs ∉ ats) (hnodup : (ids ++ s.lines.map (·.id)).Nodup)
    (at_ : Nanos) :
    ∃ st', Accepts session recovered [recordFunding at_ s] st st' ∧ Ready st' ∧
      Stands st' (ats ++ [s.atMs]) (ids ++ s.lines.map (·.id)) (Cash.add total s.venue) last := by
  obtain ⟨hadopted, hsome⟩ := hready
  obtain ⟨b, hbooks⟩ := Option.isSome_iff_exists.mp hsome
  obtain ⟨-, hlines, hdisjoint⟩ := List.nodup_append.mp hnodup
  have hnew : ∀ l ∈ s.lines, l.id ∉ st.fundingIds := fun l hl hmem =>
    hdisjoint _ ((h.ids _).mp hmem) _ (List.mem_map_of_mem hl) rfl
  obtain ⟨known, hfold, hknown⟩ := addLines_ok 0 hlines hnew hs.near
  refine ⟨{ st with
    fundingIds := known
    funding := insert s.atMs st.funding
    books := some (b.onFundingCharged s.venue at_).val }, accepts_singleton fun k => ?_,
    ⟨hadopted, rfl⟩, fun b' hb' => ?_, fun a => ?_, fun id => ?_, h.state⟩
  · show (st.checkLines s.atMs s.venue s.lines >>= fun st => st.onFunding at_ s.atMs s.venue) = _
    rw [bind_eq_ok]
    refine ⟨{ st with fundingIds := known }, ?_, ?_⟩
    · unfold Replay.checkLines
      rw [bind_eq_ok]
      refine ⟨_, hfold, ?_⟩
      rw [require_bind_eq_ok]
      refine ⟨?_, rfl⟩
      rw [hs.exact_, zero_add]
    · unfold Replay.onFunding
      rw [require_bind_eq_ok]
      refine ⟨fun hmem => hat ((h.funding _).mp hmem), ?_⟩
      rw [bind_eq_ok]
      refine ⟨b, ?_, rfl⟩
      unfold Replay.booksOr
      rw [hbooks]
  · rw [← Option.some.inj hb']
    exact (h.books b hbooks).charged _ _
  · rw [Finset.mem_insert, h.funding, List.mem_append, List.mem_singleton, or_comm]
  · rw [hknown, h.ids, List.mem_append]

/-- Several settlements. -/
theorem Stands.settlements {settled : List Settled} (h : Stands st ats ids total last)
    (session : Session) (recovered : List (Nat × Cash)) (hready : Ready st)
    (hs : ∀ s ∈ settled, Bookable s)
    (hats : (ats ++ settled.map (·.atMs)).Nodup)
    (hids : (ids ++ (settled.flatMap (·.lines)).map (·.id)).Nodup) (at_ : Nanos) :
    ∃ st', Accepts session recovered (settled.map (recordFunding at_)) st st' ∧ Ready st' ∧
      Stands st' (ats ++ settled.map (·.atMs)) (ids ++ (settled.flatMap (·.lines)).map (·.id))
        ((settled.map (·.venue)).foldl Cash.add total) last := by
  induction settled generalizing st ats ids total with
  | nil => exact ⟨st, accepts_nil st, hready, by simpa using h⟩
  | cons s settled ih =>
    rw [List.forall_mem_cons] at hs
    have hatsCons : ats ++ (s :: settled).map (·.atMs) =
        ats ++ [s.atMs] ++ settled.map (·.atMs) := by simp
    have hidsCons : ids ++ ((s :: settled).flatMap (·.lines)).map (·.id) =
        ids ++ s.lines.map (·.id) ++ (settled.flatMap (·.lines)).map (·.id) := by simp
    rw [hatsCons] at hats ⊢
    rw [hidsCons] at hids ⊢
    have hat : s.atMs ∉ ats := fun hmem =>
      (List.nodup_append.mp (List.nodup_append.mp hats).1).2.2 _ hmem _
        (List.mem_singleton_self _) rfl
    obtain ⟨st₁, haccepts, hready₁, hstands⟩ :=
      h.settlement session recovered hready hs.1 hat (List.nodup_append.mp hids).1 at_
    obtain ⟨st', haccepts', hready', hstands'⟩ := ih hstands hready₁ hs.2 hats hids
    exact ⟨st', haccepts.append haccepts', hready', hstands'⟩

/-! ### A recovery -/

/-- Rows that are new and of the range are booked one by one. -/
theorem recoverLines_ok (at_ : Nanos) {sinceMs throughMs : Int64} {lines : List FundingLine}
    {known : Finset Int64} {b : LiveBooks} (hb : b.Sole total)
    (hnodup : (lines.map (·.id)).Nodup) (hnew : ∀ l ∈ lines, l.id ∉ known)
    (hrange : ∀ l ∈ lines, sinceMs ≤ l.timeMs ∧ l.timeMs ≤ throughMs) :
    ∃ known' b', lines.foldlM (Replay.recoverLine at_ sinceMs throughMs) (known, b) =
        .ok (known', b') ∧ b'.Sole ((lines.map (·.amount)).foldl Cash.add total) ∧
      ∀ id, id ∈ known' ↔ id ∈ known ∨ id ∈ lines.map (·.id) := by
  induction lines generalizing known b total with
  | nil => exact ⟨known, b, rfl, hb, fun id => by simp⟩
  | cons l lines ih =>
    obtain ⟨hfirst, hrest⟩ := List.nodup_cons.mp hnodup
    rw [List.forall_mem_cons] at hnew hrange
    have hline : Replay.recoverLine at_ sinceMs throughMs (known, b) l =
        .ok (insert l.id known, (b.onFundingCharged l.amount at_).val) := by
      unfold Replay.recoverLine
      rw [require_bind_eq_ok, require_bind_eq_ok]
      exact ⟨hnew.1, hrange.1, rfl⟩
    obtain ⟨known', b', hfold, hb', hknown⟩ := ih (hb.charged l.amount at_) hrest
      (new_of_insert hfirst hnew.2) hrange.2
    refine ⟨known', b', ?_, hb', fun id => ?_⟩
    · rw [List.foldlM_cons, bind_eq_ok]
      exact ⟨_, hline, hfold⟩
    · rw [hknown, Finset.mem_insert, List.map_cons, List.mem_cons]
      tauto

theorem Stands.recovery (h : Stands st ats ids total last) (session : Session)
    (recovered : List (Nat × Cash)) (hready : Ready st) {r : Recovered} (at_ : Nanos)
    (hnodup : (ids ++ r.lines.map (·.id)).Nodup) (hsince : r.sinceMs ≤ r.throughMs)
    (hthrough : r.throughMs ≤ at_.toMillis)
    (hrange : ∀ l ∈ r.lines, r.sinceMs ≤ l.timeMs ∧ l.timeMs ≤ r.throughMs) :
    ∃ st', Accepts session recovered [recordRecoveredFunding at_ r] st st' ∧ Ready st' ∧
      Stands st' ats (ids ++ r.lines.map (·.id))
        ((r.lines.map (·.amount)).foldl Cash.add total) last := by
  obtain ⟨hadopted, hsome⟩ := hready
  obtain ⟨b, hbooks⟩ := Option.isSome_iff_exists.mp hsome
  obtain ⟨-, hlines, hdisjoint⟩ := List.nodup_append.mp hnodup
  have hnew : ∀ l ∈ r.lines, l.id ∉ st.fundingIds := fun l hl hmem =>
    hdisjoint _ ((h.ids _).mp hmem) _ (List.mem_map_of_mem hl) rfl
  obtain ⟨known, b', hfold, hb', hknown⟩ := recoverLines_ok at_ (h.books b hbooks) hlines hnew
    hrange
  refine ⟨{ st with
    fundingIds := known
    books := some b'
    unmodelledLines := st.unmodelledLines + r.lines.length }, accepts_singleton fun k => ?_,
    ⟨hadopted, rfl⟩, fun b₁ hb₁ => ?_, h.funding, fun id => ?_, h.state⟩
  · show st.onFundingRecovered at_ r.sinceMs r.throughMs r.lines = _
    unfold Replay.onFundingRecovered
    rw [require_bind_eq_ok, require_bind_eq_ok, bind_eq_ok]
    refine ⟨hadopted, ⟨hsince, hthrough⟩, b, ?_, ?_⟩
    · unfold Replay.booksOr
      rw [hbooks]
    · rw [bind_eq_ok]
      exact ⟨_, hfold, rfl⟩
  · rwa [← Option.some.inj hb₁]
  · rw [hknown, h.ids, List.mem_append]

end Records

/-! ## One operation -/

/-- A problem that was reported stays reported. -/
theorem problem_step (t : Trace) (op : Op) (hsome : t.watch.problem.isSome = true) :
    (t.step op).watch.problem.isSome = true := by
  cases op with
  | onTime nowMs live model next =>
    show (t.watch.onTime nowMs live model next).problem.isSome = true
    rcases onTime_cases (w := t.watch) nowMs live model next with
      ⟨-, htime⟩ | ⟨_, -, -, htime⟩ | ⟨_, -, -, ⟨_, -, -, htime⟩ | ⟨_, htime⟩⟩
    · rw [htime, beginScheduleGap_eq]
      exact hsome
    · rwa [htime]
    · rwa [htime]
    · rw [htime]
      rfl
  | rediscover nowMs next =>
    show (t.watch.rediscoverSchedule nowMs next).problem.isSome = true
    rcases rediscoverSchedule_cases (w := t.watch) nowMs next with
      ⟨-, hschedule⟩ | ⟨-, hschedule | ⟨_, -, -, hschedule⟩⟩
    · rwa [hschedule]
    · rw [hschedule, beginScheduleGap_eq]
      exact hsome
    · rwa [hschedule]
  | resolve rates lines nowMs =>
    show (t.watch.resolve rates lines nowMs).1.problem.isSome = true
    rcases resolve_cases t.watch rates lines nowMs with ⟨why, hresolve⟩ | ⟨unique, -, hresolve⟩
    · rw [hresolve]
      rfl
    · rw [hresolve]
      exact (resolveAll_same _ _ _ _ _).problem hsome
  | recover lines nowMs =>
    show (t.watch.recoverUnknown lines nowMs).1.problem.isSome = true
    rcases recoverUnknown_cases t.watch lines nowMs with
      ⟨problem, hproblem, hrecover⟩ | ⟨sinceMs, unique, recovered, -, -, -, hrecover⟩
    · rw [hrecover]
      exact hproblem hsome
    · rwa [hrecover]

/-- **An operation keeps what is owed**, but for what it settled. -/
theorem onward_step {t : Trace} {clock : Int64} (hcrossed : Crossed t clock) {op : Op}
    (hle : clock ≤ op.nowMs) {booked : Finset Int64}
    (hbooked : ∀ a, a ∈ booked ↔ a ∈ (t.step op).settled.map (·.atMs)) :
    Onward booked t.watch.obligations (t.step op).watch.obligations where
  problem := problem_step t op
  pending a ha := by
    have hmem := crossed_step t op a (hcrossed.perm.mem_iff.mpr (List.mem_append_left _ ha))
    rw [hbooked]
    exact List.mem_append.mp ((hcrossed.step hle).perm.mem_iff.mp hmem)
  gaps := gapsKept_step t op

/-- The rows of a run after a step: those before it, and those it returned. -/
theorem lines_step (t : Trace) (op : Op) :
    (t.step op).lines.Perm (t.lines ++ (results t.watch op).1.flatMap (·.lines) ++
      (results t.watch op).2.toList.flatMap (·.lines)) := by
  obtain ⟨hsettled, hrecovered⟩ := results_step t op
  unfold Trace.lines
  rw [hsettled, hrecovered, List.flatMap_append, List.flatMap_append, ← List.append_assoc]
  exact (lines_perm _ _ _).append_right _

/-- What the records of an operation book. -/
theorem amounts_written (w w' : FundingWatch) (last : Option FundingObligations) (at_ : Nanos)
    (op : Op) :
    (written w w' last at_ op).flatMap amounts =
      (results w op).1.map (·.venue) ++
        ((results w op).2.toList.flatMap (·.lines)).map (·.amount) := by
  have hstate : (recordFundingState last at_ w'.obligations).flatMap amounts = [] := by
    unfold recordFundingState
    split
    · rfl
    · rfl
  have hsettled : ((results w op).1.map (recordFunding at_)).flatMap amounts =
      (results w op).1.map (·.venue) := by
    induction (results w op).1 with
    | nil => rfl
    | cons s settled ih => rw [List.map_cons, List.flatMap_cons, ih]; rfl
  unfold written
  rw [List.flatMap_append, List.flatMap_append, hstate, List.append_nil, hsettled]
  cases (results w op).2 with
  | none => rfl
  | some r => simp [recordRecoveredFunding, amounts]

/-- A time in milliseconds does not fall where the time does not. -/
theorem toMillis_le {a b : Nanos} (h : a ≤ b) : Nanos.toMillis a ≤ Nanos.toMillis b := by
  have hne : (1000000 : Int64) ≠ -1 := by decide
  rw [Int64.le_iff_toInt_le] at h ⊢
  unfold Nanos.toMillis
  rw [Int64.toInt_div_of_ne_right _ _ hne, Int64.toInt_div_of_ne_right _ _ hne]
  exact Int.tdiv_le_tdiv (by decide) h

/-- The replay beside a run, at a time. -/
structure Mirrors (j : Journal) (at_ : Nanos) (st : Replay) : Prop where
  ready : Ready st
  booked : Booked j.trace at_.toMillis
  tidy : Tidy j.trace.watch at_.toMillis
  stands : Stands st (j.trace.settled.map (·.atMs)) (j.trace.lines.map (·.id))
    ((j.records.flatMap amounts).foldl Cash.add 0) st.fundingState
  last : st.fundingState.map Prod.snd = j.last
  latest : ∀ o ∈ j.last, o = j.trace.watch.obligations
  past : ∀ e ∈ st.fundingState, e.1 ≤ at_
  returned : (j.records.flatMap amounts).Perm
    (j.trace.settled.map (·.venue) ++ (j.trace.recovered.flatMap (·.lines)).map (·.amount))

/-- What an operation returned is booked. -/
theorem Mirrors.results {j : Journal} {at_ : Nanos} {st : Replay} (h : Mirrors j at_ st)
    (session : Session) (recovered : List (Nat × Cash))
    {e : Nanos × Op} (hle : at_ ≤ e.1) (hnow : e.2.nowMs = e.1.toMillis)
    (hexact : ∀ s ∈ (FundingWatch.results j.trace.watch e.2).1, Exact s) :
    ∃ st', Accepts session recovered
        ((FundingWatch.results j.trace.watch e.2).1.map (recordFunding e.1) ++
          (FundingWatch.results j.trace.watch e.2).2.toList.map (recordRecoveredFunding e.1))
        st st' ∧ Ready st' ∧
      Stands st' ((j.trace.step e.2).settled.map (·.atMs)) ((j.trace.step e.2).lines.map (·.id))
        (((j.step e).records.flatMap amounts).foldl Cash.add 0) st.fundingState := by
  have hmillis : at_.toMillis ≤ e.2.nowMs := hnow ▸ toMillis_le hle
  have hbooked := h.booked.step hmillis
  obtain ⟨hsettled, hrecovered⟩ := results_step j.trace e.2
  have hperm := lines_step j.trace e.2
  have hids := ((hperm.map (·.id)).nodup_iff).mp hbooked.used.nodup
  have hats := (List.nodup_append.mp hbooked.crossed.nodup).2.1
  rw [hsettled, List.map_append] at hats
  rw [List.map_append, List.map_append] at hids
  obtain ⟨st₁, haccepts, hready, hstands⟩ := h.stands.settlements session recovered h.ready
    (fun s hs => ⟨near_of_results hs, hexact s hs⟩) hats
    (List.nodup_append.mp hids).1 e.1
  have htotal : ((j.step e).records.flatMap amounts).foldl Cash.add 0 =
      (((FundingWatch.results j.trace.watch e.2).2.toList.flatMap (·.lines)).map
        (·.amount)).foldl Cash.add
        (((FundingWatch.results j.trace.watch e.2).1.map (·.venue)).foldl Cash.add
          ((j.records.flatMap amounts).foldl Cash.add 0)) := by
    show ((j.records ++ written _ _ _ _ _).flatMap amounts).foldl Cash.add 0 = _
    rw [List.flatMap_append, amounts_written, List.foldl_append, List.foldl_append]
  rw [hsettled, List.map_append, htotal]
  cases hr : (FundingWatch.results j.trace.watch e.2).2 with
  | none =>
    rw [hr, Option.toList_none, List.flatMap_nil, List.append_nil] at hperm
    rw [Option.toList_none, List.map_nil, List.append_nil]
    exact ⟨st₁, haccepts, hready, hstands.perm (by simpa using hperm.map (·.id))⟩
  | some r =>
    rw [hr, Option.toList_some, List.flatMap_singleton] at hperm hids
    obtain ⟨hsince, hthrough, hrange⟩ := recovered_of_results h.tidy hmillis hr
    obtain ⟨st', haccepts', hready', hstands'⟩ := hstands.recovery session recovered
      hready e.1 hids hsince (by rw [hthrough, hnow]; exact Int64.le_refl _) hrange
    rw [Option.toList_some, List.flatMap_singleton]
    exact ⟨st', haccepts.append haccepts', hready',
      hstands'.perm (by simpa using hperm.map (·.id))⟩

/-- **Step**: an operation's records are accepted. -/
theorem Mirrors.step {j : Journal} {at_ : Nanos} {st : Replay} (h : Mirrors j at_ st)
    (session : Session) (recovered : List (Nat × Cash))
    {e : Nanos × Op} (hle : at_ ≤ e.1) (hnow : e.2.nowMs = e.1.toMillis)
    (hexact : ∀ s ∈ (FundingWatch.results j.trace.watch e.2).1, Exact s) :
    ∃ st', Accepts session recovered
        (written j.trace.watch (j.step e).trace.watch j.last e.1 e.2) st st' ∧
      Mirrors (j.step e) e.1 st' := by
  have hmillis : at_.toMillis ≤ e.2.nowMs := hnow ▸ toMillis_le hle
  obtain ⟨st₁, haccepts, hready, hstands⟩ := h.results session recovered hle hnow hexact
  have hbooked := h.booked.step hmillis
  have htidy := h.tidy.step h.booked.crossed hmillis
  rw [hnow] at hbooked htidy
  have hreturned : ((j.step e).records.flatMap amounts).Perm
      ((j.step e).trace.settled.map (·.venue) ++
        ((j.step e).trace.recovered.flatMap (·.lines)).map (·.amount)) := by
    obtain ⟨hsettled, hrecovered⟩ := results_step j.trace e.2
    show ((j.records ++ written _ _ _ _ _).flatMap amounts).Perm
      ((j.trace.step e.2).settled.map (·.venue) ++
        ((j.trace.step e.2).recovered.flatMap (·.lines)).map (·.amount))
    rw [List.flatMap_append, amounts_written, hsettled, hrecovered, List.map_append,
      List.flatMap_append, List.map_append]
    refine (h.returned.append_right _).trans ?_
    rw [List.append_assoc, List.append_assoc]
    refine List.Perm.append_left _ ?_
    rw [← List.append_assoc, ← List.append_assoc]
    exact List.perm_append_comm.append_right _
  unfold written recordFundingState
  split
  · -- nothing is owed that was not written last
    rename_i hsame
    refine ⟨st₁, by rwa [List.append_nil], hready, hbooked, htidy, ?_, ?_, ?_, ?_, hreturned⟩
    · rw [hstands.state]
      exact hstands
    · rw [hstands.state, h.last]
      exact hsame
    · exact fun o ho => (Option.some.inj ho).symm
    · rw [hstands.state]
      exact fun e' he' => Int64.le_trans (h.past e' he') hle
  · have hcheck : checkObligations st₁.funding st₁.fundingState e.1
        (j.step e).trace.watch.obligations = .ok () := by
      refine checkObligations_ok htidy (fun a ha => ?_) fun e' he' => ?_
      · exact hbooked.crossed.past a (hbooked.crossed.perm.mem_iff.mpr (List.mem_append_left _ ha))
      · rw [hstands.state] at he'
        have hlatest : e'.2 = j.trace.watch.obligations := by
          refine h.latest _ ?_
          rw [← h.last, Option.mem_def.mp he']
          rfl
        rw [hlatest]
        exact ⟨Int64.le_trans (h.past e' he') hle,
          onward_step h.booked.crossed hmillis hstands.funding⟩
    refine ⟨{ st₁ with fundingState := some (e.1, (j.step e).trace.watch.obligations) },
      haccepts.append (accepts_singleton fun k => ?_), hready, hbooked, htidy,
      ⟨hstands.books, hstands.funding, hstands.ids, rfl⟩, rfl, ?_, ?_, hreturned⟩
    · show st₁.onFundingState _ _ = _
      unfold Replay.onFundingState
      rw [bind_eq_ok]
      exact ⟨(), hcheck, rfl⟩
    · exact fun o ho => (Option.some.inj ho).symm
    · rintro e' he'
      rw [← Option.some.inj he']
      exact Int64.le_refl _

/-! ## Runs -/

theorem settled_run (j : Journal) (es : List (Nanos × Op)) :
    ∀ s ∈ j.trace.settled, s ∈ (j.run es).trace.settled := by
  induction es generalizing j with
  | nil => exact fun s hs => hs
  | cons e es ih =>
    intro s hs
    refine ih (j.step e) s ?_
    show s ∈ (j.trace.step e.2).settled
    rw [(results_step j.trace e.2).1]
    exact List.mem_append_left _ hs

/-- **The run lemma.** -/
theorem Mirrors.run {es : List (Nanos × Op)} {j : Journal} {at_ : Nanos} {st : Replay}
    (h : Mirrors j at_ st) (session : Session) (recovered : List (Nat × Cash))
    (hnow : ∀ e ∈ es, e.2.nowMs = e.1.toMillis)
    (htimes : (at_ :: es.map Prod.fst).Pairwise (· ≤ ·)) (hexact : ∀ s ∈ (j.run es).trace.settled,
    Exact s) :
    ∃ more st' at', (j.run es).records = j.records ++ more ∧
      Accepts session recovered more st st' ∧ Mirrors (j.run es) at' st' := by
  induction es generalizing j at_ st with
  | nil => exact ⟨[], st, at_, (List.append_nil _).symm, accepts_nil st, h⟩
  | cons e es ih =>
    obtain ⟨hfirst, hrest⟩ := List.pairwise_cons.mp htimes
    rw [List.forall_mem_cons] at hnow
    obtain ⟨st₁, haccepts, hstep⟩ := h.step session recovered
      (hfirst _ List.mem_cons_self) hnow.1 fun s hs => by
        refine hexact s (settled_run (j.step e) es s ?_)
        show s ∈ (j.trace.step e.2).settled
        rw [(results_step j.trace e.2).1]
        exact List.mem_append_right _ hs
    obtain ⟨more, st', at', hrecords, haccepts', hmirrors⟩ := ih hstep hnow.2 hrest hexact
    refine ⟨_, st', at', ?_, haccepts.append haccepts', hmirrors⟩
    rw [← List.append_assoc]
    exact hrecords

/-- What is written of a run is about funding, and of every settlement. -/
structure Written (j : Journal) : Prop where
  funding : ∀ r ∈ j.records, IsFunding r
  settled : ∀ s ∈ j.trace.settled, ∃ at_, recordFunding at_ s ∈ j.records

theorem Written.step {j : Journal} (h : Written j) (e : Nanos × Op) : Written (j.step e) where
  funding := by
    rintro r hr
    rcases List.mem_append.mp hr with hr | hr
    · exact h.funding r hr
    · rcases List.mem_append.mp hr with hr | hr
      · rcases List.mem_append.mp hr with hr | hr
        · obtain ⟨s, -, rfl⟩ := List.mem_map.mp hr
          exact trivial
        · obtain ⟨s, -, rfl⟩ := List.mem_map.mp hr
          exact trivial
      · unfold recordFundingState at hr
        split at hr
        · exact absurd hr List.not_mem_nil
        · rw [List.mem_singleton.mp hr]
          exact trivial
  settled := by
    intro s hs
    change s ∈ (j.trace.step e.2).settled at hs
    rw [(results_step j.trace e.2).1] at hs
    rcases List.mem_append.mp hs with hs | hs
    · obtain ⟨at_, hmem⟩ := h.settled s hs
      exact ⟨at_, List.mem_append_left _ hmem⟩
    · exact ⟨e.1, List.mem_append_right _ (List.mem_append_left _ (List.mem_append_left _
        (List.mem_map_of_mem hs)))⟩

theorem Written.run {j : Journal} (h : Written j) (es : List (Nanos × Op)) :
    Written (j.run es) := by
  induction es generalizing j with
  | nil => exact h
  | cons e es ih => exact ih (h.step e)

theorem written_start (w : FundingWatch) : Written (Journal.start w) where
  funding _ hr := absurd hr List.not_mem_nil
  settled _ hs := absurd hs List.not_mem_nil

/-! ## The journal -/

section Journals

variable {before rest more : List LiveRecord}

theorem latestSession_funding (hmore : ∀ r ∈ more, IsFunding r) : latestSession more = none := by
  induction more with
  | nil => rfl
  | cons r more ih =>
    rw [List.forall_mem_cons] at hmore
    cases r with
    | sessionStart symbol priceScale qtyScale => exact absurd hmore.1 id
    | _ => simp only [latestSession, ih hmore.2]

/-- Funding records go on with the session there is. -/
theorem latestSession_append (hmore : ∀ r ∈ more, IsFunding r) :
    latestSession (before ++ more) =
      (latestSession before).map fun found => (found.1, found.2 ++ more) := by
  induction before with
  | nil => exact latestSession_funding hmore
  | cons r before ih =>
    cases hfound : latestSession before with
    | some found =>
      rw [hfound] at ih
      cases r with
      | _ => simp only [List.cons_append, latestSession, ih, hfound, Option.map_some]
    | none =>
      rw [hfound] at ih
      cases r with
      | _ => simp only [List.cons_append, latestSession, ih, hfound, Option.map_some,
        Option.map_none]

theorem bindFee_append {r : LiveRecord × Nat} (hr : r.2 ≤ rest.length)
    (recovered : List (Nat × Cash)) : bindFee (rest ++ more) recovered r =
    bindFee rest recovered r := by
  obtain ⟨record, i⟩ := r
  cases record with
  | feeEvidence at_ sourceMs fill amount =>
    simp only [bindFee]
    rw [List.take_append_of_le_length hr]
  | _ => rfl

/-- They bind no fee. -/
theorem recoveredFees_append (hmore : ∀ r ∈ more, IsFunding r) :
    recoveredFees (rest ++ more) = recoveredFees rest := by
  have hfirst : ∀ (rs : List (LiveRecord × Nat)) (acc : List (Nat × Cash)),
      (∀ r ∈ rs, r.2 ≤ rest.length) →
        rs.foldlM (bindFee (rest ++ more)) acc = rs.foldlM (bindFee rest) acc := by
    intro rs
    induction rs with
    | nil => exact fun _ _ => rfl
    | cons r rs ih =>
      intro acc hrs
      rw [List.forall_mem_cons] at hrs
      rw [List.foldlM_cons, List.foldlM_cons, bindFee_append hrs.1]
      exact bind_congr fun acc => ih acc hrs.2
  have hmoreFold : ∀ (rs : List LiveRecord) (k : Nat) (acc : List (Nat × Cash)),
      (∀ r ∈ rs, IsFunding r) → (rs.zipIdx k).foldlM (bindFee (rest ++ more)) acc = .ok acc := by
    intro rs
    induction rs with
    | nil => exact fun _ _ _ => rfl
    | cons r rs ih =>
      intro k acc hrs
      rw [List.forall_mem_cons] at hrs
      rw [List.zipIdx_cons, List.foldlM_cons, bind_eq_ok]
      refine ⟨acc, ?_, ih (k + 1) acc hrs.2⟩
      cases r with
      | feeEvidence at_ sourceMs fill amount => exact absurd hrs.1 id
      | _ => rfl
  unfold recoveredFees
  rw [List.zipIdx_append, List.foldlM_append, hfirst _ _ fun r hr => ?_]
  · cases hfold : rest.zipIdx.foldlM (bindFee rest) [] with
    | error why => rfl
    | ok acc => exact hmoreFold more _ acc hmore
  · have hlt := (List.mem_zipIdx hr).2.1
    omega

/-- What an accepted settlement adds up to. -/
theorem exact_of_accepted {session : Session} {recovered : List (Nat × Cash)} {st st' : Replay}
    {at_ : Nanos} {s : Settled} {k : Nat}
    (h : Replay.step session recovered st (recordFunding at_ s, k) = .ok st') : Exact s := by
  obtain ⟨st₁, hlines, -⟩ := bind_eq_ok.mp h
  unfold Replay.checkLines at hlines
  obtain ⟨acc, hfold, htotal⟩ := bind_eq_ok.mp hlines
  rw [require_bind_eq_ok] at htotal
  have hsum : acc.2 = (s.lines.map (·.amount.toInt)).sum := by
    refine foldlM_history (I := fun done (acc : Finset Int64 × Int) =>
      acc.2 = (done.map fun l : FundingLine => l.amount.toInt).sum) ?_ rfl hfold
    intro done l post acc₁ acc₂ _ hacc hadd
    unfold Replay.addLine at hadd
    rw [require_bind_eq_ok, require_bind_eq_ok] at hadd
    obtain rfl := pure_eq_ok.mp hadd.2.2
    simp [hacc]
  exact htotal.1.symm.trans hsum

/-- What a session without funding has come to. -/
theorem stands_of_accepted {session : Session} {recovered : List (Nat × Cash)} {st : Replay}
    (hother : ∀ r ∈ rest, ¬ IsFunding r)
    (hfold : rest.zipIdx.foldlM (Replay.step session recovered) Replay.start = .ok st) :
    Stands st [] [] 0 none := by
  refine foldlM_history (I := fun _ st => Stands st [] [] 0 none) ?_ stands_start hfold
  intro done r post st₁ st₂ hrest hstands hstep
  refine hstands.other (hother r.1 ?_) hstep
  have hmem : r ∈ rest.zipIdx := hrest ▸ List.mem_append_right _ List.mem_cons_self
  exact List.fst_mem_of_mem_zipIdx hmem

/-- A session that could be reported is ready. -/
theorem ready_of_report {session : Session} {recovered : List (Nat × Cash)} {st : Replay}
    {report : LedgerReport} (h : st.report session recovered = .ok report) : Ready st := by
  unfold Replay.report at h
  obtain ⟨b, hbooks, h⟩ := bind_eq_ok.mp h
  rw [require_bind_eq_ok] at h
  refine ⟨h.1, ?_⟩
  rw [Replay.booksOr_ok hbooks]
  rfl

theorem report_of_ready (session : Session) (recovered : List (Nat × Cash)) {st : Replay}
    (h : Ready st) : ∃ report, st.report session recovered = .ok report := by
  obtain ⟨hadopted, hsome⟩ := h
  obtain ⟨b, hbooks⟩ := Option.isSome_iff_exists.mp hsome
  unfold Replay.report Replay.booksOr
  rw [hbooks, hadopted]
  exact ⟨_, rfl⟩

end Journals

/-- Nothing that is owed was booked. -/
theorem obligations_of_mirrors {j : Journal} {at_ : Nanos} {st : Replay} (h : Mirrors j at_ st) :
    st.obligations = j.last := by
  rw [← h.last]
  unfold Replay.obligations
  cases hstate : st.fundingState with
  | none => rfl
  | some e =>
    have hlatest : e.2 = j.trace.watch.obligations := by
      refine h.latest _ ?_
      rw [← h.last, hstate]
      rfl
    have hpending : e.2.pendingMs.filter (· ∉ st.funding) = e.2.pendingMs := by
      rw [List.filter_eq_self]
      intro a ha
      rw [hlatest] at ha
      refine decide_eq_true fun hmem => ?_
      obtain ⟨s, hs, rfl⟩ := List.mem_map.mp ((h.stands.funding a).mp hmem)
      exact h.booked.crossed.not_pending hs ha
    rw [Option.map_some, Option.map_some, hpending]

/-- What is owed was written at the last operation. -/
theorem last_run {w : FundingWatch} {ops : List (Nanos × Op)} (hsome : ops ≠ []) :
    ((Journal.start w).run ops).last = some ((Journal.start w).run
    ops).trace.watch.obligations := by
  induction ops using List.reverseRecOn with
  | nil => exact absurd rfl hsome
  | append_singleton ops e _ =>
    unfold Journal.run
    rw [List.foldl_append]
    rfl

/-- **The replay accepts what a watch records** exactly if no settlement's sum was
saturated.  Then the funding total is that of all amounts that were returned, and what is
owed at the end is what the watch owes, once it was asked anything. -/
theorem replay_accepts (i : Instrument) (next : Except String (Option Int64))
    (before : List LiveRecord) (session : Session) (rest : List LiveRecord)
    (report₀ : LedgerReport) (hbefore : replayRecords before = .ok report₀)
    (hsession : latestSession before = some (session, rest))
    (hother : ∀ r ∈ rest, ¬ IsFunding r) (ops : List (Nanos × Op))
    (hnow : ∀ e ∈ ops, e.2.nowMs = e.1.toMillis) (htimes : (ops.map Prod.fst).Pairwise (· ≤ ·)) :
    let j := (Journal.start (new i next)).run ops
    ((∃ report, replayRecords (before ++ j.records) = .ok report) ↔
        ∀ s ∈ j.trace.settled, Exact s) ∧
      ∀ report, replayRecords (before ++ j.records) = .ok report →
        report.funding = (j.records.flatMap amounts).foldl Cash.add 0 ∧
        ((∀ n : Nat, FitsI64 (((j.records.flatMap amounts).take n).map (·.toInt)).sum) →
          report.funding.toInt = (j.trace.settled.map (·.venue.toInt)).sum +
            ((j.trace.recovered.flatMap (·.lines)).map (·.amount.toInt)).sum) ∧
        (ops ≠ [] → report.fundingObligations = some j.trace.watch.obligations) := by
  intro j
  have hwritten : Written j := (written_start (new i next)).run ops
  obtain ⟨recovered, st, hrecovered, hst, hreport⟩ := replay_of_accepted hbefore hsession
  have hsession' : latestSession (before ++ j.records) = some (session, rest ++ j.records) := by
    rw [latestSession_append hwritten.funding, hsession, Option.map_some]
  have hrecovered' : recoveredFees (rest ++ j.records) = .ok recovered :=
    (recoveredFees_append hwritten.funding).trans hrecovered
  have hfold : ∀ st', Accepts session recovered j.records st st' →
      (rest ++ j.records).zipIdx.foldlM (Replay.step session recovered) Replay.start =
        .ok st' := by
    intro st' haccepts
    rw [List.zipIdx_append, List.foldlM_append, hst]
    exact haccepts _
  -- what was accepted was exact
  have hexact : (∃ report, replayRecords (before ++ j.records) = .ok report) →
      ∀ s ∈ j.trace.settled, Exact s := by
    rintro ⟨report, haccepted⟩ s hs
    obtain ⟨recovered', st', -, hst', -⟩ := replay_of_accepted haccepted hsession'
    obtain ⟨at_, hmem⟩ := hwritten.settled s hs
    obtain ⟨k, hk⟩ := List.getElem?_of_mem (List.mem_append_right rest hmem)
    have hentry : (recordFunding at_ s, k) ∈ (rest ++ j.records).zipIdx :=
      List.mem_zipIdx_iff_getElem?.mpr hk
    obtain ⟨st₁, st₂, hstep⟩ := ok_of_foldlM hst' _ hentry
    exact exact_of_accepted hstep
  have hmirrors : (∀ s ∈ j.trace.settled, Exact s) → ∃ st' at_,
      (rest ++ j.records).zipIdx.foldlM (Replay.step session recovered) Replay.start = .ok st' ∧
        Mirrors j at_ st' := by
    intro hall
    have hstands := stands_of_accepted hother hst
    have hstart : Mirrors (Journal.start (new i next)) Int64.minValue st :=
      { ready := ready_of_report hreport
        booked := booked_start i next _
        tidy := tidy_new i next _
        stands := by rw [hstands.state]; exact hstands
        last := by rw [hstands.state]; rfl
        latest := fun _ h => nomatch h
        past := by rw [hstands.state]; exact fun _ h => nomatch h
        returned := List.Perm.refl _ }
    obtain ⟨more, st', at_, hrecords, haccepts, hend⟩ := hstart.run session recovered hnow
      (List.pairwise_cons.mpr ⟨fun _ _ => Int64.minValue_le _, htimes⟩) hall
    refine ⟨st', at_, hfold st' ?_, hend⟩
    show Accepts session recovered ((Journal.start (new i next)).run ops).records st st'
    rw [hrecords]
    exact haccepts
  refine ⟨⟨hexact, fun hall => ?_⟩, fun report haccepted => ?_⟩
  · obtain ⟨st', at_, hst', hend⟩ := hmirrors hall
    obtain ⟨report, hreport'⟩ := report_of_ready session recovered hend.ready
    refine ⟨report, ?_⟩
    unfold replayRecords
    simp only [hsession']
    rw [bind_eq_ok]
    refine ⟨recovered, hrecovered', ?_⟩
    rw [bind_eq_ok]
    exact ⟨st', hst', hreport'⟩
  · obtain ⟨st', at_, hst', hend⟩ := hmirrors (hexact ⟨report, haccepted⟩)
    obtain ⟨recovered', st₁, hrecovered₁, hst₁, hreport₁⟩ := replay_of_accepted haccepted hsession'
    rw [hrecovered'] at hrecovered₁
    obtain rfl := Except.ok.inj hrecovered₁
    rw [hst'] at hst₁
    obtain rfl := Except.ok.inj hst₁
    obtain ⟨b, hbooks, -, -, hfunding, hobligations⟩ := Replay.report_ok hreport₁
    have htotal : report.funding = (j.records.flatMap amounts).foldl Cash.add 0 :=
      hfunding.trans (hend.stands.books b hbooks).funding
    refine ⟨htotal, fun hfits => ?_, fun hsome => ?_⟩
    · rw [htotal, toInt_foldl_add _ hfits, (hend.returned.map _).sum_eq, List.map_append,
        List.sum_append, List.map_map, List.map_map]
      rfl
    · rw [hobligations, obligations_of_mirrors hend]
      exact last_run hsome

/-! ### A journal, and one that is refused -/

/-- A settlement is passed, and settled with the rows that are shown. -/
def settlingRun (rows : List FundingLine) : List (Nanos × Op) :=
  [(150_000_000, .onTime 150 (8, -3) (8, -3) (some 28_800_000)),
    (200_000_000, .resolve hedgedRates rows 200)]

def settlingJournal (rows : List FundingLine) : Journal :=
  (Journal.start (new ⟨1, 3, 100_000_000⟩ (.ok (some 100)))).run (settlingRun rows)

theorem accepted_flatStart : ∃ report, replayRecords flatStart = .ok report := by
  have hstart : (replayRecords flatStart).toOption.map LedgerReport.fundingObligations =
      some none := by
    decide +kernel
  obtain ⟨report, hreport, -⟩ := exists_ok_of_map hstart
  exact ⟨report, hreport⟩

theorem replay_accepts_settling :
    ∃ report, replayRecords (flatStart ++ (settlingJournal twoLegs).records) = .ok report ∧
      report.funding.toInt = -3_794_721 ∧
      report.fundingObligations = some ⟨[], [], none⟩ := by
  obtain ⟨report₀, hbefore⟩ := accepted_flatStart
  have hall := replay_accepts ⟨1, 3, 100_000_000⟩ (.ok (some 100)) flatStart ⟨"BTCUSDT", 1, 3⟩
    flatStart.tail report₀ hbefore rfl (by decide) (settlingRun twoLegs) (by decide) (by decide)
  have hamounts : (settlingJournal twoLegs).records.flatMap amounts = [-3_794_721] := by
    decide +kernel
  have hexact : ∀ s ∈ (settlingJournal twoLegs).trace.settled, Exact s := by
    decide +kernel
  obtain ⟨report, hreport⟩ := hall.1.mpr hexact
  obtain ⟨htotal, -, howed⟩ := hall.2 report hreport
  refine ⟨report, hreport, ?_, (howed (by decide)).trans (by decide +kernel)⟩
  rw [htotal]
  exact congrArg (fun cs : List Cash => (cs.foldl Cash.add 0).toInt) hamounts

/-- Two rows of one settlement whose sum is more than an amount can be. -/
def hugeRows : List FundingLine := [⟨7, 101, Int64.maxValue⟩, ⟨8, 102, 1⟩]

/-- The watch saturates the sum, and the replay does not; and a watch that was asked
nothing has written nothing. -/
theorem replay_refuses_saturated :
    ((settlingJournal hugeRows).trace.settled.map (·.venue) = [Int64.maxValue] ∧
      replayRecords (flatStart ++ (settlingJournal hugeRows).records) =
        .error "funding ledger lines disagree with recorded amount") ∧
    ((replayRecords (flatStart ++
        (Journal.start (new ⟨1, 3, 100_000_000⟩ (.ok (some 100)))).records)).toOption.map
          LedgerReport.fundingObligations = some none ∧
      (new ⟨1, 3, 100_000_000⟩ (.ok (some 100))).obligations = ⟨[], [], none⟩) := by
  refine ⟨⟨by decide +kernel, ?_⟩, by decide +kernel, by decide⟩
  decide +kernel

end FundingWatch
