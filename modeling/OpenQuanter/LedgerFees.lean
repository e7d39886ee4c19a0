/-
# Recovered fees, live and from the journal

The live process books an execution when it hears of it and its commission when
it is read; the ledger knows both when it replays the journal.  An accepted
journal binds every piece of fee evidence to the first execution of its fill, so
the ledger's fold is the run that knew (`Followed`), and the live run agrees with
it.
-/
import OpenQuanter.LateFees
import OpenQuanter.Ledger

open Logged Except

namespace Ledger

/-! ## The live run of a journal -/

/-- The calls the live books took for a record. -/
def liveCalls : LiveRecord → List BooksCall
  | .reconciled at_ legs =>
    legs.map fun leg => .adopt (Replay.legSide leg) (satAbs leg.qty) leg.entry at_
  | .execution fill fee => [.fill fill fee]
  | .feeEvidence at_ _ fill amount => [.recover fill amount at_]
  | .funding at_ _ venue => [.funding venue at_]
  | .fundingEvidence at_ _ venue _ => [.funding venue at_]
  | .fundingRecovered at_ _ _ lines => lines.map fun line => .funding line.amount at_
  | .tick at_ seen last bid ask volume => [.tick (Replay.tickOf at_ seen last bid ask volume)]
  | _ => []

/-- The books a session opened and the calls they took. -/
def ledgerCalls : List LiveRecord → Option (LiveBooks × List BooksCall)
  | [] => none
  | .ledgerStart instrumentId _ tickCash balance mode :: rest =>
    some (LiveBooks.new instrumentId ⟨tickCash⟩ TierTable.exampleBtcusdt balance mode,
      rest.flatMap liveCalls)
  | _ :: rest => ledgerCalls rest

theorem ledgerCalls_append_of_some {records : List LiveRecord} {start : LiveBooks}
    {calls : List BooksCall} (h : ledgerCalls records = some (start, calls)) (record : LiveRecord) :
    ledgerCalls (records ++ [record]) = some (start, calls ++ liveCalls record) := by
  induction records with
  | nil => cases h
  | cons first rest ih =>
    cases first with
    | ledgerStart instrumentId instrument tickCash balance mode =>
      obtain ⟨rfl, rfl⟩ := Prod.mk.inj (Option.some.inj h)
      simp [ledgerCalls]
    | _ => exact ih h

theorem ledgerCalls_append_of_none {records : List LiveRecord} (h : ledgerCalls records = none)
    (record : LiveRecord) : ledgerCalls (records ++ [record]) = ledgerCalls [record] := by
  induction records with
  | nil => rfl
  | cons first rest ih =>
    cases first with
    | ledgerStart instrumentId instrument tickCash balance mode => cases h
    | _ => exact ih h

/-- The records the books were opened before. -/
theorem exists_of_ledgerCalls {records : List LiveRecord} {start : LiveBooks}
    {calls : List BooksCall} (h : ledgerCalls records = some (start, calls)) :
    ∃ pre instrumentId instrument tickCash balance mode rest,
      records = pre ++ .ledgerStart instrumentId instrument tickCash balance mode :: rest ∧
      start = LiveBooks.new instrumentId ⟨tickCash⟩ TierTable.exampleBtcusdt balance mode ∧
      calls = rest.flatMap liveCalls := by
  induction records with
  | nil => cases h
  | cons first rest ih =>
    cases first with
    | ledgerStart instrumentId instrument tickCash balance mode =>
      obtain ⟨rfl, rfl⟩ := Prod.mk.inj (Option.some.inj h)
      exact ⟨[], instrumentId, instrument, tickCash, balance, mode, rest, rfl, rfl, rfl⟩
    | _ =>
      obtain ⟨pre, instrumentId, instrument, tickCash, balance, mode, tail, rfl, hrest⟩ := ih h
      exact ⟨_ :: pre, instrumentId, instrument, tickCash, balance, mode, tail, rfl, hrest⟩

/-! ## Fee evidence -/

/-- The commission a record is evidence of. -/
def evidenceFor (fill : Fill) : LiveRecord → Option Cash
  | .feeEvidence _ _ original amount => if original = fill then some amount else none
  | _ => none

/-- The commission a session recovers for a fill. -/
def evidenceOf (records : List LiveRecord) (fill : Fill) : Option Cash :=
  records.findSome? (evidenceFor fill)

theorem evidenceFor_eq_some {fill : Fill} {record : LiveRecord} {amount : Cash}
    (h : evidenceFor fill record = some amount) :
    ∃ at_ sourceMs, record = .feeEvidence at_ sourceMs fill amount := by
  cases record with
  | feeEvidence at_ sourceMs original cash =>
    simp only [evidenceFor] at h
    split at h
    · rename_i hsame
      obtain rfl := Option.some.inj h
      exact ⟨at_, sourceMs, by rw [hsame]⟩
    · cases h
  | _ => cases h

theorem executionFee_eq_some {fill : Fill} {record : LiveRecord} {fee : Fee}
    (h : executionFee fill record = some fee) : record = .execution fill fee := by
  cases record with
  | execution original fee' =>
    simp only [executionFee] at h
    split at h
    · rename_i hsame
      obtain rfl := Option.some.inj h
      rw [hsame]
    · cases h
  | _ => cases h

theorem firstExecution_append (first second : List LiveRecord) (fill : Fill) :
    firstExecution (first ++ second) fill =
      (firstExecution first fill).or
        ((second.zipIdx first.length).findSome? fun r =>
          (executionFee fill r.1).map (r.2, ·)) := by
  unfold firstExecution
  rw [List.zipIdx_append, List.findSome?_append, Nat.zero_add]

/-- The first execution of a fill stands where it is said to. -/
theorem getElem?_of_firstExecution {records : List LiveRecord} {fill : Fill} {index : Nat}
    {fee : Fee}
    (h : firstExecution records fill = some (index, fee)) :
    records[index]? = some (.execution fill fee) := by
  obtain ⟨r, hr, hfound⟩ := List.exists_of_findSome?_eq_some h
  obtain ⟨fee', hfee, hpair⟩ := Option.map_eq_some_iff.mp hfound
  obtain ⟨rfl, rfl⟩ := Prod.mk.inj hpair
  rw [List.mem_zipIdx_iff_getElem?.mp hr, executionFee_eq_some hfee]

/-- The first execution in a part is the first of all. -/
theorem firstExecution_of_take {records : List LiveRecord} {n : Nat} {fill : Fill} {index : Nat}
    {fee : Fee} (h : firstExecution (records.take n) fill = some (index, fee)) :
    firstExecution records fill = some (index, fee) ∧ index < n := by
  constructor
  · rw [← List.take_append_drop n records, firstExecution_append, h]
    rfl
  · have hlt := (List.getElem?_eq_some_iff.mp (getElem?_of_firstExecution h)).1
    exact Nat.lt_of_lt_of_le hlt (List.length_take_le n records)

/-- An execution that nothing before it executed is the first. -/
theorem firstExecution_of_fresh {pre post : List LiveRecord} {fill : Fill} {fee : Fee}
    (h : ∀ record ∈ pre, ∀ fee', record ≠ .execution fill fee') :
    firstExecution (pre ++ .execution fill fee :: post) fill = some (pre.length, fee) := by
  have hnone : firstExecution pre fill = none := by
    unfold firstExecution
    rw [List.findSome?_eq_none_iff]
    intro r hr
    rw [Option.map_eq_none_iff]
    by_contra hsome
    obtain ⟨fee', hfee⟩ := Option.ne_none_iff_exists'.mp hsome
    exact h r.1 (List.fst_mem_of_mem_zipIdx hr) fee' (executionFee_eq_some hfee)
  rw [firstExecution_append, hnone]
  simp [executionFee]

/-- What the evidence read so far was bound to. -/
structure Bound (session : List LiveRecord) (done : List (LiveRecord × Nat))
    (recovered : List (Nat × Cash)) :
    Prop where
  bound : ∀ at_ sourceMs fill amount i, (.feeEvidence at_ sourceMs fill amount, i) ∈ done →
    ∃ index fee, firstExecution session fill = some (index, fee) ∧ index < i ∧
      fee.observed = .unreadable ∧ fill.stamp.local_ ≤ at_ ∧ recovered.lookup index = some amount
  evidenced : ∀ index amount, recovered.lookup index = some amount →
    ∃ at_ sourceMs fill fee i, (.feeEvidence at_ sourceMs fill amount, i) ∈ done ∧
      firstExecution session fill = some (index, fee)

theorem bound_start (session : List LiveRecord) : Bound session [] [] :=
  ⟨nofun, nofun⟩

theorem Bound.step {session : List LiveRecord} {done : List (LiveRecord × Nat)}
    {r : LiveRecord × Nat}
    {recovered recovered' : List (Nat × Cash)} (h : Bound session done recovered)
    (hstep : bindFee session recovered r = .ok recovered') :
    Bound session (done ++ [r]) recovered' := by
  obtain ⟨record, i⟩ := r
  by_cases hevidence : ∃ at_ sourceMs fill amount, record = .feeEvidence at_ sourceMs fill amount
  · obtain ⟨at_, sourceMs, fill, amount, rfl⟩ := hevidence
    simp only [bindFee] at hstep
    rw [require_bind_eq_ok] at hstep
    obtain ⟨⟨hreceipt, -⟩, hstep⟩ := hstep
    split at hstep
    · cases hstep
    · rename_i index fee htaken
      rw [require_bind_eq_ok, require_bind_eq_ok] at hstep
      obtain ⟨hunread, hfresh, hstep⟩ := hstep
      obtain rfl := pure_eq_ok.mp hstep
      obtain ⟨hfirst, hlt⟩ := firstExecution_of_take htaken
      constructor
      · intro at' sourceMs' fill' amount' i' hmem
        rcases List.mem_append.mp hmem with hold | hnew
        · obtain ⟨index', fee', hfirst', hlt', hunread', hreceipt', hlookup⟩ :=
            h.bound at' sourceMs' fill' amount' i' hold
          refine ⟨index', fee', hfirst', hlt', hunread', hreceipt', ?_⟩
          -- what was bound before was bound elsewhere, or this was refused
          have hne : index' ≠ index := by
            rintro rfl
            rw [hfresh] at hlookup
            cases hlookup
          rw [List.lookup_cons, beq_false_of_ne hne]
          exact hlookup
        · obtain ⟨hrecord, rfl⟩ := Prod.mk.inj (List.mem_singleton.mp hnew)
          obtain ⟨rfl, rfl, rfl, rfl⟩ := LiveRecord.feeEvidence.inj hrecord
          exact ⟨index, fee, hfirst, hlt, hunread, hreceipt, List.lookup_cons_self⟩
      · intro index' amount' hlookup
        by_cases hsame : index' = index
        · subst hsame
          rw [List.lookup_cons_self] at hlookup
          obtain rfl := Option.some.inj hlookup
          exact ⟨at_, sourceMs, fill, fee, i, List.mem_append_right _ (List.mem_singleton_self _),
            hfirst⟩
        · rw [List.lookup_cons, beq_false_of_ne hsame] at hlookup
          obtain ⟨at', sourceMs', fill', fee', i', hmem, hfirst'⟩ :=
            h.evidenced index' amount' hlookup
          exact ⟨at', sourceMs', fill', fee', i', List.mem_append_left _ hmem, hfirst'⟩
  · have hsame : recovered' = recovered := by
      cases record with
      | feeEvidence at_ sourceMs fill amount => exact absurd ⟨_, _, _, _, rfl⟩ hevidence
      | _ => exact (pure_eq_ok.mp hstep).symm
    rw [hsame]
    constructor
    · intro at' sourceMs' fill' amount' i' hmem
      rcases List.mem_append.mp hmem with hold | hnew
      · exact h.bound at' sourceMs' fill' amount' i' hold
      · obtain ⟨hrecord, -⟩ := Prod.mk.inj (List.mem_singleton.mp hnew)
        exact absurd ⟨_, _, _, _, hrecord.symm⟩ hevidence
    · intro index amount hlookup
      obtain ⟨at', sourceMs', fill', fee', i', hmem, hfirst'⟩ := h.evidenced index amount hlookup
      exact ⟨at', sourceMs', fill', fee', i', List.mem_append_left _ hmem, hfirst'⟩

theorem bound_of_recoveredFees {session : List LiveRecord} {recovered : List (Nat × Cash)}
    (h : recoveredFees session = .ok recovered) : Bound session session.zipIdx recovered :=
  foldlM_history (fun _ _ _ _ _ _ h => h.step) (bound_start session) h

section Evidence

variable {session : List LiveRecord} {recovered : List (Nat × Cash)}

/-- Evidence is for one execution, and of one amount. -/
theorem evidenceOf_of_mem (h : Bound session session.zipIdx recovered) {at_ : Nanos}
    {sourceMs : Int64} {fill : Fill} {amount : Cash}
    (hmem : .feeEvidence at_ sourceMs fill amount ∈ session) :
    evidenceOf session fill = some amount := by
  obtain ⟨i, hi⟩ := List.getElem?_of_mem hmem
  obtain ⟨index, fee, hfirst, -, -, -, hlookup⟩ :=
    h.bound at_ sourceMs fill amount i (List.mem_zipIdx_iff_getElem?.mpr hi)
  have hsome : evidenceOf session fill ≠ none := by
    unfold evidenceOf
    rw [ne_eq, List.findSome?_eq_none_iff]
    intro hnone
    have hfound := hnone _ hmem
    simp [evidenceFor] at hfound
  obtain ⟨amount', hamount'⟩ := Option.ne_none_iff_exists'.mp hsome
  obtain ⟨record, hrecord, hfor⟩ := List.exists_of_findSome?_eq_some hamount'
  obtain ⟨at', sourceMs', rfl⟩ := evidenceFor_eq_some hfor
  obtain ⟨i', hi'⟩ := List.getElem?_of_mem hrecord
  obtain ⟨index', fee', hfirst', -, -, -, hlookup'⟩ :=
    h.bound at' sourceMs' fill amount' i' (List.mem_zipIdx_iff_getElem?.mpr hi')
  rw [hfirst] at hfirst'
  obtain ⟨rfl, -⟩ := Prod.mk.inj (Option.some.inj hfirst')
  rw [hlookup] at hlookup'
  rw [hamount', ← Option.some.inj hlookup']

/-- **The ledger books what the run that knew books**: at the first execution of
a fill, the recovered amount if there is evidence of one. -/
theorem evidence_eq_knownFee (h : Bound session session.zipIdx recovered) {index : Nat}
    {fill : Fill}
    {fee : Fee} (hfirst : firstExecution session fill = some (index, fee)) :
    Replay.evidence recovered index fee = LiveBooks.knownFee (evidenceOf session) fill fee := by
  cases hamount : evidenceOf session fill with
  | some amount =>
    obtain ⟨record, hrecord, hfor⟩ := List.exists_of_findSome?_eq_some hamount
    obtain ⟨at_, sourceMs, rfl⟩ := evidenceFor_eq_some hfor
    obtain ⟨i, hi⟩ := List.getElem?_of_mem hrecord
    obtain ⟨index', fee', hfirst', -, hunread, -, hlookup⟩ :=
      h.bound at_ sourceMs fill amount i (List.mem_zipIdx_iff_getElem?.mpr hi)
    rw [hfirst] at hfirst'
    obtain ⟨rfl, rfl⟩ := Prod.mk.inj (Option.some.inj hfirst')
    simp only [Replay.evidence, hlookup, LiveBooks.knownFee, hunread, hamount]
  | none =>
    have hlookup : recovered.lookup index = none := by
      by_contra hsome
      obtain ⟨amount, hlookup⟩ := Option.ne_none_iff_exists'.mp hsome
      obtain ⟨at_, sourceMs, fill', fee', i, hmem, hfirst'⟩ := h.evidenced index amount hlookup
      -- both fills are the one executed at the index
      have hsame := (getElem?_of_firstExecution hfirst).symm.trans
        (getElem?_of_firstExecution hfirst')
      obtain ⟨rfl, -⟩ := LiveRecord.execution.inj (Option.some.inj hsame)
      have hevidence := evidenceOf_of_mem h (List.fst_mem_of_mem_zipIdx hmem)
      rw [hamount] at hevidence
      cases hevidence
    unfold Replay.evidence LiveBooks.knownFee
    rw [hlookup, hamount]
    cases fee.observed <;> rfl

end Evidence

/-! ## The fold is the run that knew -/

open LiveBooks (knownCalls knownCall knownFee)

theorem knownCalls_eq_self {amountOf : Fill → Option Cash} {calls : List BooksCall}
    (h : ∀ call ∈ calls, knownCall amountOf call = [call]) : knownCalls amountOf calls = calls := by
  unfold knownCalls
  rw [List.flatMap_congr h, List.flatMap_singleton']

theorem knownCalls_append (amountOf : Fill → Option Cash) (first second : List BooksCall) :
    knownCalls amountOf (first ++ second) =
      knownCalls amountOf first ++ knownCalls amountOf second :=
  List.flatMap_append

/-- Adopting the legs of a record one by one. -/
theorem run_of_adoptLegs {session : Session} {at_ : Nanos} {legs : List AdoptedLeg}
    {b b' : LiveBooks} (h : legs.foldlM (Replay.adoptLeg session at_) b = .ok b') :
    b' = (b.run (legs.map fun leg =>
      .adopt (Replay.legSide leg) (satAbs leg.qty) leg.entry at_)).val := by
  induction legs generalizing b with
  | nil => exact (pure_eq_ok.mp h).symm
  | cons leg rest ih =>
    rw [List.foldlM_cons, bind_eq_ok] at h
    obtain ⟨b₁, hleg, hrest⟩ := h
    unfold Replay.adoptLeg at hleg
    rw [require_bind_eq_ok] at hleg
    obtain rfl := pure_eq_ok.mp hleg.2
    rw [List.map_cons, LiveBooks.run_cons, val_bind]
    exact ih hrest

/-- Booking the lines of a recovered history one by one. -/
theorem run_of_recoverLines {at_ : Nanos} {sinceMs throughMs : Int64} {lines : List FundingLine}
    {acc acc' : Finset Int64 × LiveBooks}
    (h : lines.foldlM (Replay.recoverLine at_ sinceMs throughMs) acc = .ok acc') :
    acc'.2 = (acc.2.run (lines.map fun line => .funding line.amount at_)).val := by
  induction lines generalizing acc with
  | nil => exact congrArg Prod.snd (pure_eq_ok.mp h).symm
  | cons line rest ih =>
    rw [List.foldlM_cons, bind_eq_ok] at h
    obtain ⟨acc₁, hline, hrest⟩ := h
    unfold Replay.recoverLine at hline
    rw [require_bind_eq_ok, require_bind_eq_ok] at hline
    obtain rfl := pure_eq_ok.mp hline.2.2
    rw [List.map_cons, LiveBooks.run_cons, val_bind]
    exact ih hrest

namespace Replay

variable {session : Session} {recovered : List (Nat × Cash)} {st st' : Replay}

/-- An execution that was accepted was new to the books. -/
theorem books_onExecution {index : Nat} {fill : Fill} {fee : Fee}
    (h : st.onExecution recovered index fill fee = .ok st') :
    ∃ b, st.books = some b ∧ ¬ b.Settled (fill.trade, fill.side) ∧
      st'.books = some (b.step (.fill fill (evidence recovered index fee))).val := by
  obtain ⟨b, b', outputs, hbooks, hanswer, rfl⟩ := onExecution_ok h
  have hrefused := b.refused_iff fill (evidence recovered index fee)
  rw [hanswer] at hrefused
  refine ⟨b, hbooks, hrefused.not.mp (fun hno => hno), ?_⟩
  show some b' = some (b.onVenueFill fill (evidence recovered index fee)).val.1
  rw [hanswer]

theorem books_onFunding {at_ : Nanos} {settledMs : Int64} {venue : Cash}
    (h : st.onFunding at_ settledMs venue = .ok st') :
    st'.books = st.books.map fun b => (b.run [.funding venue at_]).val := by
  obtain ⟨b, hbooks, rfl⟩ := onFunding_ok h
  rw [hbooks, Option.map_some, LiveBooks.run_singleton]
  rfl

/-- **What an accepted record does to the books** once they are open: the calls
of the run that knew. -/
theorem books_step {amountOf : Fill → Option Cash} {record : LiveRecord} {index : Nat}
    (h : step session recovered st (record, index) = .ok st')
    (hopen : ∀ instrumentId instrument tickCash balance mode,
      record ≠ .ledgerStart instrumentId instrument tickCash balance mode)
    (hfee : ∀ fill fee, record = .execution fill fee →
      evidence recovered index fee = knownFee amountOf fill fee) :
    st'.books = st.books.map fun b => (b.run (knownCalls amountOf (liveCalls record))).val := by
  have hquiet : st'.books = st.books → liveCalls record = [] →
      st'.books = st.books.map fun b => (b.run (knownCalls amountOf (liveCalls record))).val := by
    intro hsame hnone
    rw [hsame, hnone]
    exact Option.map_id'.symm
  cases record with
  | ledgerStart instrumentId instrument tickCash balance mode => exact absurd rfl (hopen _ _ _ _ _)
  | sessionStart symbol priceScale qtyScale =>
    obtain rfl := pure_eq_ok.mp h
    exact hquiet rfl rfl
  | other =>
    obtain rfl := pure_eq_ok.mp h
    exact hquiet rfl rfl
  | legacyFill => cases h
  | feeEvidence at_ sourceMs fill amount =>
    obtain rfl := pure_eq_ok.mp h
    exact Option.map_id'.symm
  | fundingState at_ obligations =>
    obtain ⟨-, rfl⟩ := onFundingState_ok h
    exact hquiet rfl rfl
  | tick at_ seen last bid ask volume =>
    obtain rfl := pure_eq_ok.mp h
    show _ = st.books.map fun b => (b.run [.tick (tickOf at_ seen last bid ask volume)]).val
    simp only [LiveBooks.run_singleton]
    rfl
  | funding at_ settledMs venue => exact books_onFunding h
  | fundingEvidence at_ settledMs venue lines =>
    obtain ⟨st₀, hlines, h⟩ := bind_eq_ok.mp h
    obtain ⟨ids, rfl⟩ := checkLines_ok hlines
    have hbooked := books_onFunding h
    exact hbooked
  | fundingRecovered at_ sinceMs throughMs lines =>
    obtain ⟨b, acc, hbooks, hlines, rfl⟩ := onFundingRecovered_ok h
    rw [hbooks, Option.map_some, liveCalls, knownCalls_eq_self (by simp [knownCall])]
    exact congrArg some (run_of_recoverLines hlines)
  | reconciled at_ legs =>
    obtain ⟨b, b', hbooks, hlegs, rfl⟩ := onReconciled_ok h
    rw [hbooks, Option.map_some, liveCalls, knownCalls_eq_self (by simp [knownCall])]
    exact congrArg some (run_of_adoptLegs hlegs)
  | execution fill fee =>
    obtain ⟨b, hbooks, -, hbooked⟩ := books_onExecution h
    rw [hbooked, hbooks, Option.map_some, hfee fill fee rfl]
    exact congrArg (fun x : Books LiveBooks => some x.val) (LiveBooks.run_singleton b _).symm

end Replay

/-- The books after some records: those of the run that knew, in which every
execution so far was new. -/
structure Followed (amountOf : Fill → Option Cash) (done : List (LiveRecord × Nat)) (st : Replay) :
    Prop where
  books : st.books = (ledgerCalls (done.map Prod.fst)).map fun p =>
    (p.1.run (knownCalls amountOf p.2)).val
  delivered : ∀ r ∈ done, ∀ fill fee, r.1 = .execution fill fee →
    ∃ b, st.books = some b ∧ b.Settled (fill.trade, fill.side)
  distinct : done.Pairwise fun r r' =>
    ∀ fill fee fee', r.1 = .execution fill fee → r'.1 ≠ .execution fill fee'

theorem followed_start (amountOf : Fill → Option Cash) : Followed amountOf [] Replay.start :=
  ⟨rfl, nofun, List.Pairwise.nil⟩

theorem split_of_zipIdx {rest : List LiveRecord} {done post : List (LiveRecord × Nat)}
    {r : LiveRecord × Nat}
    (h : rest.zipIdx = done ++ r :: post) :
    rest = done.map Prod.fst ++ r.1 :: post.map Prod.fst ∧ r.2 = (done.map Prod.fst).length := by
  constructor
  · have hfst := congrArg (List.map Prod.fst) h
    rw [List.zipIdx_map_fst] at hfst
    rw [hfst, List.map_append, List.map_cons]
  · have hat : rest.zipIdx[done.length]? = some r := by
      rw [h, List.getElem?_append_right (Nat.le_refl _), Nat.sub_self]
      rfl
    rw [List.getElem?_zipIdx, Option.map_eq_some_iff] at hat
    obtain ⟨record, -, hr⟩ := hat
    rw [← hr, List.length_map, Nat.zero_add]

theorem settled_run (calls : List BooksCall) {b : LiveBooks} {key : TradeId × Side}
    (h : b.Settled key) : (b.run calls).val.Settled key := by
  induction calls generalizing b with
  | nil => exact h
  | cons call rest ih =>
    rw [LiveBooks.run_cons, val_bind]
    exact ih (h.step call)

/-- The books are opened once, before anything is executed. -/
theorem Followed.opened {amountOf : Fill → Option Cash} {session : Session}
    {done : List (LiveRecord × Nat)} {st st' : Replay} (h : Followed amountOf done st)
    {instrumentId : InstrumentId} {instrument : Instrument} {tickCash : Int64} {balance : Cash}
    {mode : PositionMode} {index : Nat}
    (hstep : st.onLedgerStart session instrumentId instrument tickCash balance mode = .ok st') :
    Followed amountOf
      (done ++ [(.ledgerStart instrumentId instrument tickCash balance mode, index)]) st' := by
  obtain ⟨hnone, rfl⟩ := Replay.onLedgerStart_ok hstep
  have hclosed : ledgerCalls (done.map Prod.fst) = none := by
    rw [← Option.map_eq_none_iff, ← h.books, hnone]
  have hquiet : ∀ r ∈ done, ∀ fill fee, r.1 ≠ .execution fill fee := by
    intro r hr fill fee hexecution
    obtain ⟨b, hb, -⟩ := h.delivered r hr fill fee hexecution
    rw [hnone] at hb
    cases hb
  constructor
  · rw [List.map_append, List.map_singleton, ledgerCalls_append_of_none hclosed]
    rfl
  · intro r hr fill fee hexecution
    rcases List.mem_append.mp hr with hold | hnew
    · exact absurd hexecution (hquiet r hold fill fee)
    · rw [List.mem_singleton.mp hnew] at hexecution
      cases hexecution
  · rw [List.pairwise_append]
    refine ⟨h.distinct, List.pairwise_singleton _ _, fun r hr r' _ fill fee fee' hexecution => ?_⟩
    exact absurd hexecution (hquiet r hr fill fee)

/-- One record of an accepted session. -/
theorem Followed.step {session : Session} {rest : List LiveRecord} {recovered : List (Nat × Cash)}
    (hbound : Bound rest rest.zipIdx recovered) {done post : List (LiveRecord × Nat)}
    {r : LiveRecord × Nat} (hsplit : rest.zipIdx = done ++ r :: post) {st st' : Replay}
    (h : Followed (evidenceOf rest) done st)
    (hstep : Replay.step session recovered st r = .ok st') :
    Followed (evidenceOf rest) (done ++ [r]) st' := by
  obtain ⟨record, index⟩ := r
  obtain ⟨hrest, hindex⟩ := split_of_zipIdx hsplit
  dsimp only at hrest hindex
  by_cases hopens : ∃ instrumentId instrument tickCash balance mode,
      record = .ledgerStart instrumentId instrument tickCash balance mode
  · obtain ⟨instrumentId, instrument, tickCash, balance, mode, rfl⟩ := hopens
    exact h.opened hstep
  · have hopen : ∀ instrumentId instrument tickCash balance mode,
        record ≠ .ledgerStart instrumentId instrument tickCash balance mode :=
      fun _ _ _ _ _ hrecord => hopens ⟨_, _, _, _, _, hrecord⟩
    -- an accepted execution was new to the books, so it is the first of its fill
    have hfresh : ∀ fill fee, record = .execution fill fee →
        ∀ r ∈ done, ∀ fee', r.1 ≠ .execution fill fee' := by
      rintro fill fee rfl r hr fee' hexecution
      obtain ⟨b, hb, hnew, -⟩ := Replay.books_onExecution hstep
      obtain ⟨b', hb', hsettled⟩ := h.delivered r hr fill fee' hexecution
      rw [hb] at hb'
      exact hnew (Option.some.inj hb' ▸ hsettled)
    have hfee : ∀ fill fee, record = .execution fill fee →
        Replay.evidence recovered index fee = knownFee (evidenceOf rest) fill fee := by
      rintro fill fee rfl
      apply evidence_eq_knownFee hbound
      rw [hrest, hindex]
      apply firstExecution_of_fresh
      intro record' hrecord' fee'
      obtain ⟨r, hr, rfl⟩ := List.mem_map.mp hrecord'
      exact hfresh fill fee rfl r hr fee'
    have hbooks := Replay.books_step hstep hopen hfee
    refine ⟨?_, ?_, ?_⟩
    · rw [hbooks, h.books, List.map_append, List.map_singleton]
      cases hcalls : ledgerCalls (done.map Prod.fst) with
      | none =>
        rw [ledgerCalls_append_of_none hcalls]
        cases record with
        | ledgerStart => exact absurd rfl (hopen _ _ _ _ _)
        | _ => rfl
      | some p =>
        obtain ⟨start, calls⟩ := p
        rw [ledgerCalls_append_of_some hcalls]
        simp only [Option.map_some, knownCalls_append, LiveBooks.run_append, val_bind]
    · intro r' hr' fill fee hexecution
      rcases List.mem_append.mp hr' with hold | hnew
      · obtain ⟨b, hb, hsettled⟩ := h.delivered r' hold fill fee hexecution
        rw [hbooks, hb, Option.map_some]
        exact ⟨_, rfl, settled_run _ hsettled⟩
      · obtain rfl := List.mem_singleton.mp hnew
        obtain rfl : record = .execution fill fee := hexecution
        obtain ⟨b, -, -, hbooked⟩ := Replay.books_onExecution hstep
        exact ⟨_, hbooked, b.settled_delivered rfl⟩
    · rw [List.pairwise_append]
      refine ⟨h.distinct, List.pairwise_singleton _ _, fun r' hr' r'' hr'' fill fee fee' => ?_⟩
      rw [List.mem_singleton.mp hr'']
      intro hexecution hsame
      exact hfresh fill fee' hsame r' hr' fee hexecution

/-- What an accepted session amounts to. -/
theorem followed_of_accepted {session : Session} {rest : List LiveRecord}
    {recovered : List (Nat × Cash)} (hbound : Bound rest rest.zipIdx recovered) {st : Replay}
    (h : rest.zipIdx.foldlM (Replay.step session recovered) Replay.start = .ok st) :
    Followed (evidenceOf rest) rest.zipIdx st :=
  foldlM_history (fun _ _ _ _ _ hsplit h hstep => h.step hbound hsplit hstep)
    (followed_start _) h

/-! ## The live run recovers what the journal does -/

open LiveBooks (RecoveredLater Places)

theorem not_places_liveCalls (record : LiveRecord) : ∀ call ∈ liveCalls record, ¬ Places call := by
  cases record <;> simp [liveCalls, Places]

theorem recover_mem_liveCalls {record : LiveRecord} {fill : Fill} {amount : Cash} {at_ : Nanos}
    (h : .recover fill amount at_ ∈ liveCalls record) :
    ∃ sourceMs, record = .feeEvidence at_ sourceMs fill amount := by
  cases record with
  | feeEvidence at' sourceMs fill' amount' =>
    obtain ⟨rfl, rfl, rfl⟩ := BooksCall.recover.inj (List.mem_singleton.mp h)
    exact ⟨sourceMs, rfl⟩
  | _ => simp [liveCalls] at h

/-- Calls that deliver nothing promise nothing. -/
theorem recoveredLater_append {amountOf : Fill → Option Cash} {first second : List BooksCall}
    (hfirst : ∀ fill fee, .fill fill fee ∉ first) (h : RecoveredLater amountOf second) :
    RecoveredLater amountOf (first ++ second) := by
  induction first with
  | nil => exact h
  | cons call rest ih =>
    have hrest : ∀ fill fee, .fill fill fee ∉ rest :=
      fun fill fee hmem => hfirst fill fee (List.mem_cons_of_mem _ hmem)
    cases call with
    | fill fill fee => exact absurd List.mem_cons_self (hfirst fill fee)
    | _ => exact ih hrest

theorem recoveredLater_flatMap {amountOf : Fill → Option Cash} (records : List LiveRecord)
    (h : ∀ pre fill fee post, records = pre ++ .execution fill fee :: post →
      fee.observed = .unreadable → ∀ amount, amountOf fill = some amount →
        ∃ at_ sourceMs, fill.stamp.local_ ≤ at_ ∧ .feeEvidence at_ sourceMs fill amount ∈ post) :
    RecoveredLater amountOf (records.flatMap liveCalls) := by
  induction records with
  | nil => trivial
  | cons record rest ih =>
    have hrest := ih fun pre fill fee post hsplit =>
      h (record :: pre) fill fee post (by rw [hsplit]; rfl)
    rw [List.flatMap_cons]
    by_cases hexecution : ∃ fill fee, record = .execution fill fee
    · obtain ⟨fill, fee, rfl⟩ := hexecution
      refine ⟨fun hread amount hamount => ?_, hrest⟩
      obtain ⟨at_, sourceMs, hat, hmem⟩ := h [] fill fee rest rfl hread amount hamount
      exact ⟨at_, hat, List.mem_flatMap.mpr ⟨_, hmem, List.mem_singleton_self _⟩⟩
    · refine recoveredLater_append (fun fill fee hmem => ?_) hrest
      cases record with
      | execution fill' fee' => exact hexecution ⟨fill', fee', rfl⟩
      | _ => simp [liveCalls] at hmem

/-- In an accepted session the evidence of a fill comes after its execution. -/
theorem evidence_after {rest : List LiveRecord} {recovered : List (Nat × Cash)}
    (hbound : Bound rest rest.zipIdx recovered)
    (hdistinct : rest.Pairwise fun r r' =>
      ∀ fill fee fee', r = .execution fill fee → r' ≠ .execution fill fee')
    {pre post : List LiveRecord} {fill : Fill} {fee : Fee}
    (hsplit : rest = pre ++ .execution fill fee :: post) {amount : Cash}
    (hamount : evidenceOf rest fill = some amount) :
    ∃ at_ sourceMs, fill.stamp.local_ ≤ at_ ∧ .feeEvidence at_ sourceMs fill amount ∈ post := by
  obtain ⟨record, hrecord, hfor⟩ := List.exists_of_findSome?_eq_some hamount
  obtain ⟨at_, sourceMs, rfl⟩ := evidenceFor_eq_some hfor
  obtain ⟨i, hi⟩ := List.getElem?_of_mem hrecord
  obtain ⟨index, fee', hfirst, hlt, -, hreceipt, -⟩ :=
    hbound.bound at_ sourceMs fill amount i (List.mem_zipIdx_iff_getElem?.mpr hi)
  have hindex : firstExecution rest fill = some (pre.length, fee) := by
    rw [hsplit] at hdistinct ⊢
    apply firstExecution_of_fresh
    intro record hmem fee' hexecution
    have hapart := (List.pairwise_append.mp hdistinct).2.2 record hmem _ List.mem_cons_self
    exact hapart fill fee' fee hexecution rfl
  rw [hfirst] at hindex
  obtain ⟨rfl, -⟩ := Prod.mk.inj (Option.some.inj hindex)
  refine ⟨at_, sourceMs, hreceipt, ?_⟩
  rw [hsplit, List.getElem?_append_right (Nat.le_of_lt hlt)] at hi
  obtain ⟨n, hn⟩ := Nat.exists_eq_add_of_lt hlt
  rw [show i - pre.length = n + 1 by omega, List.getElem?_cons_succ] at hi
  exact List.mem_of_getElem? hi

/-- **The ledger agrees with the live run.** -/
theorem agree_of_accepted {records : List LiveRecord} {report : LedgerReport}
    (h : replayRecords records = .ok report) {session : Session} {rest : List LiveRecord}
    (hsession : latestSession records = some (session, rest)) :
    ∃ start calls, ledgerCalls rest = some (start, calls) ∧
      (start.run calls).val.kernel.state.realized = report.realized ∧
      (start.run calls).val.kernel.state.funding = report.funding ∧
      ((start.run calls).Free .cash → (start.run (knownCalls (evidenceOf rest) calls)).Free .cash →
        (start.run calls).val.kernel.state.fees = report.recordedFees) := by
  obtain ⟨recovered, st, hrecovered, hst, hreport⟩ := replay_of_accepted h hsession
  have hbound := bound_of_recoveredFees hrecovered
  have hfollowed := followed_of_accepted hbound hst
  obtain ⟨b, hbooks, hrealized, hfees, hfunding, -⟩ := Replay.report_ok hreport
  rw [hrealized, hfees, hfunding]
  have hopened := hfollowed.books
  rw [hbooks, List.zipIdx_map_fst] at hopened
  obtain ⟨⟨start, calls⟩, hcalls, hrun⟩ := Option.map_eq_some_iff.mp hopened.symm
  obtain ⟨pre, instrumentId, instrument, tickCash, balance, mode, tail, hrest, hstart, htail⟩ :=
    exists_of_ledgerCalls hcalls
  -- no execution is accepted twice, so a fee recovered later is of the one before it
  have hdistinct : rest.Pairwise fun r r' =>
      ∀ fill fee fee', r = .execution fill fee → r' ≠ .execution fill fee' := by
    have hmap : (rest.zipIdx.map Prod.fst).Pairwise fun r r' =>
        ∀ fill fee fee', r = .execution fill fee → r' ≠ .execution fill fee' :=
      List.pairwise_map.mpr hfollowed.distinct
    rwa [List.zipIdx_map_fst] at hmap
  have hplaces : ∀ call ∈ calls, ¬ Places call := by
    intro call hcall
    rw [htail, List.mem_flatMap] at hcall
    obtain ⟨record, -, hmem⟩ := hcall
    exact not_places_liveCalls record call hmem
  have htrue : ∀ fill amount at_, .recover fill amount at_ ∈ calls →
      evidenceOf rest fill = some amount := by
    intro fill amount at_ hcall
    rw [htail, List.mem_flatMap] at hcall
    obtain ⟨record, hmem, hrecover⟩ := hcall
    obtain ⟨sourceMs, rfl⟩ := recover_mem_liveCalls hrecover
    apply evidenceOf_of_mem hbound
    rw [hrest]
    exact List.mem_append_right _ (List.mem_cons_of_mem _ hmem)
  have hlater : RecoveredLater (evidenceOf rest) calls := by
    rw [htail]
    refine recoveredLater_flatMap tail fun pre' fill fee post hsplit _ amount hamount => ?_
    have hwhere : rest = (pre ++ .ledgerStart instrumentId instrument tickCash balance mode ::
      pre') ++
        .execution fill fee :: post := by
      rw [hrest, hsplit, List.append_assoc, List.cons_append]
    exact evidence_after hbound hdistinct hwhere hamount
  -- fees agree only where nothing saturates; profit and funding agree at all events
  have hagree : ∀ clean : Prop, (clean → (start.run calls).Free .cash ∧
      (start.run (knownCalls (evidenceOf rest) calls)).Free .cash) →
      LiveBooks.Agree clean (start.run calls).val b := by
    intro clean hfree
    rw [← hrun, hstart] at *
    exact LiveBooks.agree_knownCalls calls hplaces htrue hlater hfree
  have hquiet := hagree False False.elim
  refine ⟨start, calls, hcalls, hquiet.realized, hquiet.funding, fun hlive hknown => ?_⟩
  exact (hagree True fun _ => ⟨hlive, hknown⟩).fees trivial

/-! ## Late and known -/

open LiveBooks (Adopts Recovers Agree)

/-- A fill the venue reported under a trade id. -/
def reportedFill (trade : TradeId) : Fill :=
  ⟨⟨1000000000, 1000000000⟩, 1, 1, trade, .buy, .opening, 6000000, 1, .taker⟩

/-- A fill whose commission is read a second later. -/
def lateCalls : List BooksCall :=
  [.fill (reportedFill 1) .unreadable, .recover (reportedFill 1) 7 2000000000]

/-- The journal of a session in which that happened. -/
def lateJournal : List LiveRecord :=
  flatStart ++
    [.execution (reportedFill 1) .unreadable, .feeEvidence 2000000000 1500 (reportedFill 1) 7]

theorem recoveredLater_lateCalls : RecoveredLater (fun _ => some 7) lateCalls := by
  refine ⟨fun _ amount hamount => ?_, trivial⟩
  obtain rfl := Option.some.inj hamount
  exact ⟨2000000000, by decide, List.mem_singleton_self _⟩

/-- Fees at the end of the range of cash, and one of them read late. -/
def saturatingCalls : List BooksCall :=
  [.fill (reportedFill 1) .unreadable, .fill (reportedFill 2) (.reported Int64.maxValue),
    .fill (reportedFill 3) (.reported (-1)), .recover (reportedFill 1) 1 2000000000]

/-- A position is adopted before a fee is read late. -/
def adoptedCalls : List BooksCall :=
  [.adopt .buy 1 6000000 500000000, .fill (reportedFill 1) .unreadable,
    .recover (reportedFill 1) 1 2000000000]

end Ledger
