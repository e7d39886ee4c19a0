/-
# The journal of a funding watch

`Session` writes down what a watch returns and, when it changed, what is still owed
(`record_funding`, `record_recovered_funding`, `record_funding_state` of
`oq-live/src/session.rs`).  The replay of a journal checks these records one against the
other.  Here the checks are shown to hold of what a watch can do: `GapsTidy` and `Tidy`
are what a run keeps of its gaps and of what is pending, `Mirrors` relates the replay to
the run, and `replay_accepts` puts them together.
-/
import OpenQuanter.FundingWhole
import OpenQuanter.LateFees

namespace FundingWatch

open Ledger Except

/-! ## Gaps in order -/

theorem after_iff {a b : ScheduleGap} :
    ScheduleGap.after a b = true ↔ ∃ u, a.untilMs = some u ∧ u < b.sinceMs := by
  unfold ScheduleGap.after
  rw [Option.any_eq_true]
  simp

/-- Gaps as a state may record them: each after the one before it was closed, none past the
clock. -/
structure GapsTidy (gaps : List ScheduleGap) (clock : Int64) : Prop where
  chain : gaps.IsChain fun a b => ScheduleGap.after a b = true
  since : ∀ gap ∈ gaps, gap.sinceMs ≤ clock
  closed : ∀ gap ∈ gaps, ∀ u, gap.untilMs = some u → gap.sinceMs ≤ u ∧ u ≤ clock

theorem GapsTidy.later {gaps : List ScheduleGap} {clock clock' : Int64}
    (h : GapsTidy gaps clock) (hle : clock ≤ clock') : GapsTidy gaps clock' where
  chain := h.chain
  since gap hgap := Int64.le_trans (h.since gap hgap) hle
  closed gap hgap u hu := ⟨(h.closed gap hgap u hu).1,
    Int64.le_trans (h.closed gap hgap u hu).2 hle⟩

/-- A gap is opened after the last one was closed. -/
theorem GapsTidy.begin {w : FundingWatch} {clock sinceMs : Int64}
    (h : GapsTidy w.scheduleGaps clock) (hsince : sinceMs ≤ clock)
    (hlast : ∀ gap ∈ w.scheduleGaps.getLast?, ∀ u, gap.untilMs = some u → u < sinceMs) :
    GapsTidy (w.beginScheduleGap sinceMs).scheduleGaps clock := by
  unfold beginScheduleGap
  split
  · rename_i hclosed
    refine ⟨?_, fun gap hgap => ?_, fun gap hgap u hu => ?_⟩
    · refine List.isChain_append.mpr ⟨h.chain, List.isChain_singleton _, fun a ha b hb => ?_⟩
      obtain rfl := Option.some.inj hb
      obtain ⟨u, hu⟩ : ∃ u, a.untilMs = some u := by
        rw [Option.mem_def.mp ha] at hclosed
        exact Option.isSome_iff_exists.mp (by simpa using hclosed)
      exact after_iff.mpr ⟨u, hu, hlast a ha u hu⟩
    · rcases List.mem_append.mp hgap with hgap | hgap
      · exact h.since gap hgap
      · rw [List.mem_singleton.mp hgap]
        exact hsince
    · rcases List.mem_append.mp hgap with hgap | hgap
      · exact h.closed gap hgap u hu
      · rw [List.mem_singleton.mp hgap] at hu
        cases hu
  · exact h

/-- Where a closed gap ends: where it did, or now. -/
theorem untilMs_close {nowMs : Int64} {gaps : List ScheduleGap} {gap : ScheduleGap}
    (h : gap ∈ closeScheduleGap nowMs gaps) :
    gap ∈ gaps ∨ ∃ gap' ∈ gaps, gap = { gap' with untilMs := some nowMs } := by
  induction gaps using closeScheduleGap.induct with
  | case1 => exact .inl h
  | case2 last => exact .inr ⟨last, List.mem_cons_self, List.mem_singleton.mp h⟩
  | case3 first gaps hmore ih =>
    rw [closeScheduleGap] at h
    · rcases List.mem_cons.mp h with rfl | h
      · exact .inl List.mem_cons_self
      · rcases ih h with h | ⟨gap', hgap', rfl⟩
        · exact .inl (List.mem_cons_of_mem _ h)
        · exact .inr ⟨gap', List.mem_cons_of_mem _ hgap', rfl⟩
    · exact hmore

/-- Then every gap is closed. -/
theorem isSome_close {nowMs : Int64} {gaps : List ScheduleGap}
    (hchain : gaps.IsChain fun a b => ScheduleGap.after a b = true) :
    ∀ gap ∈ closeScheduleGap nowMs gaps, gap.untilMs.isSome = true := by
  induction gaps using closeScheduleGap.induct with
  | case1 => exact fun _ hgap => absurd hgap List.not_mem_nil
  | case2 last =>
    intro gap hgap
    rw [List.mem_singleton.mp hgap]
    rfl
  | case3 first gaps hmore ih =>
    rw [closeScheduleGap]
    · cases gaps with
      | nil => exact absurd rfl hmore
      | cons second rest =>
        obtain ⟨hafter, hrest⟩ := List.isChain_cons_cons.mp hchain
        rw [List.forall_mem_cons]
        refine ⟨?_, ih hrest⟩
        obtain ⟨u, hu, -⟩ := after_iff.mp hafter
        rw [hu]
        rfl
    · exact hmore

/-- The last gap is closed now. -/
theorem GapsTidy.close {gaps : List ScheduleGap} {clock nowMs : Int64} (h : GapsTidy gaps clock)
    (hle : clock ≤ nowMs) : GapsTidy (closeScheduleGap nowMs gaps) nowMs := by
  refine ⟨?_, fun gap hgap => ?_, fun gap hgap u hu => ?_⟩
  · have hchain := h.chain
    clear h
    induction gaps using closeScheduleGap.induct with
    | case1 => exact List.isChain_nil
    | case2 last => exact List.isChain_singleton _
    | case3 first gaps hmore ih =>
      rw [closeScheduleGap]
      · cases gaps with
        | nil => exact absurd rfl hmore
        | cons second rest =>
          obtain ⟨hafter, hrest⟩ := List.isChain_cons_cons.mp hchain
          have hclosed := ih hrest
          cases rest with
          | nil => exact List.isChain_cons_cons.mpr ⟨hafter, hclosed⟩
          | cons third rest => exact List.isChain_cons_cons.mpr ⟨hafter, hclosed⟩
      · exact hmore
  · rcases untilMs_close hgap with hgap | ⟨gap', hgap', rfl⟩
    · exact Int64.le_trans (h.since gap hgap) hle
    · exact Int64.le_trans (h.since gap' hgap') hle
  · rcases untilMs_close hgap with hgap | ⟨gap', hgap', rfl⟩
    · obtain ⟨hsince, huntil⟩ := h.closed gap hgap u hu
      exact ⟨hsince, Int64.le_trans huntil hle⟩
    · obtain rfl := Option.some.inj hu
      exact ⟨Int64.le_trans (h.since gap' hgap') hle, Int64.le_refl _⟩

/-- No two gaps start at one time. -/
theorem GapsTidy.nodup {gaps : List ScheduleGap} {clock : Int64} (h : GapsTidy gaps clock) :
    (gaps.map (·.sinceMs)).Nodup := by
  have hrises : gaps.IsChain fun a b => a.sinceMs < b.sinceMs := by
    refine h.chain.imp_of_mem_imp fun a b ha _ hafter => ?_
    obtain ⟨u, hu, hlt⟩ := after_iff.mp hafter
    exact Int64.lt_of_le_of_lt (h.closed a ha u hu).1 hlt
  have htrans : IsTrans ScheduleGap fun a b => a.sinceMs < b.sinceMs :=
    ⟨fun _ _ _ => Int64.lt_trans⟩
  have hpairwise := List.isChain_iff_pairwise.mp hrises
  refine List.pairwise_map.mpr (hpairwise.imp fun {a b} hlt heq => ?_)
  rw [heq] at hlt
  exact Int64.lt_irrefl hlt

/-! ## What a run keeps -/

/-- A watch as a state may record it. -/
structure Tidy (w : FundingWatch) (clock : Int64) : Prop where
  rises : (w.pending.map (·.atMs)).Pairwise (· < ·)
  gaps : GapsTidy w.scheduleGaps clock
  closed : ∀ n, w.nextMs = some n → ∀ gap ∈ w.scheduleGaps, ∃ u, gap.untilMs = some u ∧ u < n
  open_ : w.nextMs = none → ∀ gap ∈ w.scheduleGaps.getLast?, gap.untilMs = none

theorem Tidy.later {w : FundingWatch} {clock clock' : Int64} (h : Tidy w clock)
    (hle : clock ≤ clock') : Tidy w clock' :=
  { h with gaps := h.gaps.later hle }

/-- A gap may be opened at any time before the clock while no schedule is known. -/
theorem Tidy.begin {w : FundingWatch} {clock sinceMs : Int64} (h : Tidy w clock)
    (hsince : sinceMs ≤ clock) (hnone : w.nextMs = none) :
    Tidy (w.beginScheduleGap sinceMs) clock := by
  have hgaps : GapsTidy (w.beginScheduleGap sinceMs).scheduleGaps clock := by
    refine h.gaps.begin hsince fun gap hgap u hu => ?_
    rw [h.open_ hnone gap hgap] at hu
    cases hu
  rw [beginScheduleGap_eq]
  refine ⟨h.rises, hgaps, fun n hn => ?_, fun _ gap hgap => ?_⟩
  · rw [hnone] at hn
    cases hn
  · exact getLast?_begin sinceMs gap (Option.mem_def.mp hgap)

theorem Tidy.onTime {t : Trace} {clock nowMs : Int64} (h : Tidy t.watch clock)
    (hcrossed : Crossed t clock) (hle : clock ≤ nowMs) (live model : Legs) (next : Option Int64) :
    Tidy (t.watch.onTime nowMs live model next) nowMs := by
  have hlater := h.later hle
  rcases onTime_cases (w := t.watch) nowMs live model next with
    ⟨hnone, htime⟩ | ⟨at_, hat, hshort, htime⟩ | ⟨at_, hat, hpassed, hmore⟩
  · rw [htime]
    exact hlater.begin (Int64.le_refl _) hnone
  · rwa [htime]
  · have hrises : ((t.watch.pending ++ [(⟨at_, live, model, false⟩ : Pending)]).map
        (·.atMs)).Pairwise (· < ·) := by
      rw [List.map_append, List.pairwise_append]
      refine ⟨h.rises, List.pairwise_singleton _ _, fun a ha b hb => ?_⟩
      rw [List.mem_singleton.mp hb]
      exact hcrossed.next at_ hat a (hcrossed.perm.mem_iff.mpr (List.mem_append_left _ ha))
    rcases hmore with ⟨n, -, hlt, htime⟩ | ⟨why, htime⟩
    · rw [htime]
      refine ⟨hrises, hlater.gaps, fun n' hn' gap hgap => ?_, fun hnone => by cases hnone⟩
      obtain ⟨u, hu, hbefore⟩ := h.closed at_ hat gap hgap
      obtain rfl := Option.some.inj hn'
      exact ⟨u, hu, Int64.lt_trans hbefore hlt⟩
    · rw [htime]
      -- the gap opens at the settlement, which every gap ends before
      refine ⟨hrises, hlater.gaps.begin hpassed fun gap hgap u hu => ?_, fun n hn => (by cases hn),
        fun _ gap hgap => getLast?_begin at_ gap (Option.mem_def.mp hgap)⟩
      obtain ⟨u', hu', hbefore⟩ := h.closed at_ hat gap (List.mem_of_getLast? hgap)
      rw [hu'] at hu
      rwa [← Option.some.inj hu]

theorem Tidy.rediscover {w : FundingWatch} {clock nowMs : Int64} (h : Tidy w clock)
    (hle : clock ≤ nowMs) (next : Except String (Option Int64)) :
    Tidy (w.rediscoverSchedule nowMs next) nowMs := by
  have hlater := h.later hle
  rcases rediscoverSchedule_cases (w := w) nowMs next with
    ⟨-, hschedule⟩ | ⟨hnone, hschedule | ⟨n, -, hlt, hschedule⟩⟩
  · rwa [hschedule]
  · rw [hschedule]
    exact hlater.begin (Int64.le_refl _) hnone
  · rw [hschedule]
    have hbegun := hlater.begin (Int64.le_refl _) hnone
    have hgaps := hbegun.gaps.close (Int64.le_refl _)
    refine ⟨h.rises, hgaps, fun n' hn' gap hgap => ?_, fun hnone => by cases hnone⟩
    obtain rfl := Option.some.inj hn'
    obtain ⟨u, hu⟩ := Option.isSome_iff_exists.mp (isSome_close hbegun.gaps.chain gap hgap)
    exact ⟨u, hu, Int64.lt_of_le_of_lt (hgaps.closed gap hgap u hu).2 hlt⟩

/-- What goes on waiting keeps its order. -/
theorem resolveAll_sublist (rates : List SettledRate) (unique : List FundingLine) (nowMs : Int64)
    (w : FundingWatch) (ps : List Pending) :
    ∃ kept, (resolveAll rates unique nowMs w ps).1.pending.map (·.atMs) =
      w.pending.map (·.atMs) ++ kept ∧ kept.Sublist (ps.map (·.atMs)) := by
  induction ps generalizing w with
  | nil => exact ⟨[], (List.append_nil _).symm, List.Sublist.refl _⟩
  | cons p ps ih =>
    rw [resolveAll]
    rcases resolveOne_cases rates unique nowMs w p with
      ⟨w', hone, hwaits⟩ | ⟨w', s, hone, hsettles⟩
    · rw [hone]
      obtain ⟨kept, hpending, hsub⟩ := ih w'
      refine ⟨p.atMs :: kept, ?_, hsub.cons_cons _⟩
      rw [hpending, hwaits.pending, List.map_append, List.append_assoc]
      rfl
    · rw [hone]
      obtain ⟨kept, hpending, hsub⟩ := ih w'
      exact ⟨kept, by rw [hpending, hsettles.pending], hsub.cons _⟩

/-- The watch did something that is not about the schedule. -/
theorem Tidy.congr {w w' : FundingWatch} {clock : Int64} (h : Tidy w clock)
    (hrises : (w'.pending.map (·.atMs)).Pairwise (· < ·)) (hnext : w'.nextMs = w.nextMs)
    (hgaps : w'.scheduleGaps = w.scheduleGaps) : Tidy w' clock where
  rises := hrises
  gaps := by rw [hgaps]; exact h.gaps
  closed n hn := by rw [hgaps]; exact h.closed n (hnext ▸ hn)
  open_ hnone := by rw [hgaps]; exact h.open_ (hnext ▸ hnone)

/-- Step. -/
theorem Tidy.step {t : Trace} {clock : Int64} (h : Tidy t.watch clock) (hcrossed : Crossed t clock)
    {op : Op} (hle : clock ≤ op.nowMs) : Tidy (t.step op).watch op.nowMs := by
  have hlater := h.later hle
  cases op with
  | onTime nowMs live model next => exact h.onTime hcrossed hle live model next
  | rediscover nowMs next => exact h.rediscover hle next
  | resolve rates lines nowMs =>
    show Tidy (t.watch.resolve rates lines nowMs).1 nowMs
    rcases resolve_cases t.watch rates lines nowMs with ⟨why, hresolve⟩ | ⟨unique, -, hresolve⟩
    · rw [hresolve]
      exact hlater.congr h.rises rfl rfl
    · rw [hresolve]
      have hsame := resolveAll_same rates unique nowMs
        { t.watch with pending := [] } t.watch.pending
      obtain ⟨kept, hpending, hsub⟩ := resolveAll_sublist rates unique
        nowMs { t.watch with pending := [] } t.watch.pending
      refine hlater.congr ?_ hsame.nextMs hsame.scheduleGaps
      rw [hpending]
      exact h.rises.sublist hsub
  | recover lines nowMs =>
    show Tidy (t.watch.recoverUnknown lines nowMs).1 nowMs
    rcases recoverUnknown_cases t.watch lines nowMs with
      ⟨problem, -, hrecover⟩ | ⟨sinceMs, unique, recovered, -, -, -, hrecover⟩
    · rw [hrecover]
      exact hlater.congr h.rises rfl rfl
    · rw [hrecover]
      exact hlater.congr h.rises rfl rfl

/-- A watch that starts has nothing to record. -/
theorem tidy_new (i : Instrument) (next : Except String (Option Int64)) (clock : Int64) :
    Tidy (new i next) clock where
  rises := List.Pairwise.nil
  gaps := ⟨List.isChain_nil, fun _ h => absurd h List.not_mem_nil,
    fun _ h => absurd h List.not_mem_nil⟩
  closed _ _ _ h := absurd h List.not_mem_nil
  open_ _ _ h := nomatch h

/-! ## The checks -/

/-- What a step does to what is owed: a problem stays, what is no longer pending was
settled, and no gap is lost. -/
structure Onward (booked : Finset Int64) (o o' : FundingObligations) : Prop where
  problem : o.problem.isSome = true → o'.problem.isSome = true
  pending : ∀ a ∈ o.pendingMs, a ∈ o'.pendingMs ∨ a ∈ booked
  gaps : GapsKept o.scheduleGaps o'.scheduleGaps

/-- A gap that was kept is found by its start. -/
theorem keepsGap_ok {gaps gaps' : List ScheduleGap} {clock : Int64} (hkept : GapsKept gaps gaps')
    (htidy : GapsTidy gaps' clock) {pendingMs : List Int64} {problem : Option String}
    {gap : ScheduleGap} (hgap : gap ∈ gaps) :
    keepsGap ⟨pendingMs, gaps', problem⟩ gap = .ok () := by
  obtain ⟨i, hi⟩ := List.getElem?_of_mem hgap
  obtain ⟨gap', hgap', hsince, hclosed⟩ := hkept i gap hi
  have hmem : gap' ∈ gaps' := List.mem_of_getElem? hgap'
  unfold keepsGap
  split
  · rename_i hnone
    exact absurd (decide_eq_true hsince) (List.find?_eq_none.mp hnone gap' hmem)
  · rename_i found hfind
    have hstart : found.sinceMs = gap.sinceMs := by simpa using List.find?_some hfind
    have hsame : found = gap' := List.inj_on_of_nodup_map htidy.nodup
      (List.mem_of_find?_eq_some hfind) hmem (hstart.trans hsince.symm)
    refine require_eq_ok.mpr fun hsome => ?_
    rw [hsame, hclosed hsome]

/-- A saturating step forward does not go back. -/
theorem le_satAdd_one (a : Int64) : a ≤ satAdd a 1 := by
  rw [Int64.le_iff_toInt_le]
  have hone : (1 : Int64).toInt = 1 := rfl
  unfold satAdd
  rw [hone]
  by_cases hfits : FitsI64 (a.toInt + 1)
  · rw [toInt_ofIntClamp_of_fits hfits]
    omega
  · have hlow : Int64.minValue.toInt ≤ a.toInt + 1 := by
      have := Int64.le_toInt a
      rw [Int64.toInt_minValue]
      omega
    have hbig : ¬ a.toInt + 1 ≤ Int64.maxValue.toInt := by
      rw [Int64.toInt_maxValue]
      unfold FitsI64 at hfits
      have := Int64.le_toInt a
      omega
    rw [Int64.ofIntClamp, dif_pos hlow, dif_neg hbig]
    exact Int64.toInt_le a

/-- **A watch's state passes the checks**, by itself and beside the one before it. -/
theorem checkObligations_ok {w : FundingWatch} {booked : Finset Int64} {at_ : Nanos}
    {earlier : Option (Nanos × FundingObligations)} (htidy : Tidy w at_.toMillis)
    (hpast : ∀ a ∈ w.pending.map (·.atMs), a ≤ at_.toMillis)
    (hearlier : ∀ e ∈ earlier, e.1 ≤ at_ ∧ Onward booked e.2 w.obligations) :
    checkObligations booked earlier at_ w.obligations = .ok () := by
  unfold checkObligations
  rw [require_bind_eq_ok, require_bind_eq_ok]
  refine ⟨⟨?_, ?_⟩, ⟨?_, htidy.gaps.chain⟩, ?_⟩
  · have htrans : IsTrans Int64 (· < ·) := ⟨fun _ _ _ => Int64.lt_trans⟩
    exact List.isChain_iff_pairwise.mpr htidy.rises
  · exact List.all_eq_true.mpr fun a ha => decide_eq_true (hpast a ha)
  · refine List.all_eq_true.mpr fun gap hgap => ?_
    have hsince := Int64.le_trans (htidy.gaps.since gap hgap) (le_satAdd_one at_.toMillis)
    unfold ScheduleGap.within
    rw [Bool.and_eq_true]
    refine ⟨?_, decide_eq_true hsince⟩
    cases huntil : gap.untilMs with
    | none => rfl
    | some u =>
      obtain ⟨hle, hpast⟩ := htidy.gaps.closed gap hgap u huntil
      simp [hle, hpast]
  · cases earlier with
    | none => rfl
    | some earlier =>
      obtain ⟨hle, hproblem, hpending, hgaps⟩ := hearlier earlier rfl
      simp only [checkSuccessor]
      rw [require_bind_eq_ok, require_bind_eq_ok, require_bind_eq_ok]
      refine ⟨hle, hproblem, ?_, ?_⟩
      · refine List.all_eq_true.mpr fun a ha => ?_
        simpa using hpending a ha
      · exact forM_ok fun gap hgap => keepsGap_ok hgaps htidy.gaps hgap

/-! ## What is written down -/

/-- `Session::record_funding`. -/
def recordFunding (at_ : Nanos) (s : Settled) : LiveRecord :=
  .fundingEvidence at_ s.atMs s.venue s.lines

/-- `Session::record_recovered_funding`. -/
def recordRecoveredFunding (at_ : Nanos) (r : Recovered) : LiveRecord :=
  .fundingRecovered at_ r.sinceMs r.throughMs r.lines

/-- `Session::record_funding_state`: what is owed, unless it was written last. -/
def recordFundingState (last : Option FundingObligations) (at_ : Nanos)
    (obligations : FundingObligations) : List LiveRecord :=
  if last = some obligations then [] else [.fundingState at_ obligations]

/-- What an operation returns. -/
def results (w : FundingWatch) : Op → List Settled × Option Recovered
  | .resolve rates lines nowMs => ((w.resolve rates lines nowMs).2, none)
  | .recover lines nowMs => ([], (w.recoverUnknown lines nowMs).2)
  | _ => ([], none)

/-- A run and what was written of it. -/
structure Journal where
  trace : Trace
  last : Option FundingObligations
  records : List LiveRecord

/-- The records of one operation. -/
def written (w w' : FundingWatch) (last : Option FundingObligations) (at_ : Nanos) (op : Op) :
    List LiveRecord :=
  (results w op).1.map (recordFunding at_) ++
    (results w op).2.toList.map (recordRecoveredFunding at_) ++
    recordFundingState last at_ w'.obligations

/-- An operation at a time, and its records. -/
def Journal.step (j : Journal) (e : Nanos × Op) : Journal :=
  let t := j.trace.step e.2
  { trace := t
    last := some t.watch.obligations
    records := j.records ++ written j.trace.watch t.watch j.last e.1 e.2 }

def Journal.start (w : FundingWatch) : Journal := ⟨Trace.start w, none, []⟩

def Journal.run (j : Journal) (es : List (Nanos × Op)) : Journal := es.foldl Journal.step j

/-- The amounts a record books. -/
def amounts : LiveRecord → List Cash
  | .fundingEvidence _ _ venue _ => [venue]
  | .fundingRecovered _ _ _ lines => lines.map (·.amount)
  | _ => []

/-- What a step adds to a run. -/
theorem results_step (t : Trace) (op : Op) :
    (t.step op).settled = t.settled ++ (results t.watch op).1 ∧
      (t.step op).recovered = t.recovered ++ (results t.watch op).2.toList := by
  cases op with
  | onTime nowMs live model next => exact ⟨(List.append_nil _).symm, (List.append_nil _).symm⟩
  | rediscover nowMs next => exact ⟨(List.append_nil _).symm, (List.append_nil _).symm⟩
  | resolve rates lines nowMs => exact ⟨rfl, (List.append_nil _).symm⟩
  | recover lines nowMs => exact ⟨(List.append_nil _).symm, rfl⟩

/-- **What is returned as settled**: rows at its time. -/
theorem near_of_results {w : FundingWatch} {op : Op} {s : Settled} (hs : s ∈ (results w op).1) :
    ∀ l ∈ s.lines, SameSettlement l.timeMs s.atMs := by
  have hall : ∀ {rates : List SettledRate} {unique : List FundingLine} {nowMs : Int64}
      {ps : List Pending} {w : FundingWatch}, s ∈ (resolveAll rates unique nowMs w ps).2 →
      ∀ l ∈ s.lines, SameSettlement l.timeMs s.atMs := by
    intro rates unique nowMs ps w hs
    induction ps generalizing w with
    | nil => exact absurd hs List.not_mem_nil
    | cons p ps ih =>
      rw [resolveAll] at hs
      rcases resolveOne_cases rates unique nowMs w p with
        ⟨w', hone, -⟩ | ⟨w', s', hone, hsettles⟩
      · rw [hone] at hs
        exact ih hs
      · rw [hone] at hs
        rcases List.mem_cons.mp hs with rfl | hs
        · intro l hl
          rw [hsettles.lines] at hl
          rw [hsettles.atMs]
          exact of_decide_eq_true (List.mem_filter.mp hl).2
        · exact ih hs
  cases op with
  | resolve rates lines nowMs =>
    rcases resolve_cases w rates lines nowMs with ⟨why, hresolve⟩ | ⟨unique, -, hresolve⟩
    · rw [results, hresolve] at hs
      exact absurd hs List.not_mem_nil
    · rw [results, hresolve] at hs
      exact hall hs
  | onTime nowMs live model next => exact absurd hs List.not_mem_nil
  | rediscover nowMs next => exact absurd hs List.not_mem_nil
  | recover lines nowMs => exact absurd hs List.not_mem_nil

/-- **What is returned as recovered**: rows of the range it was asked for. -/
theorem recovered_of_results {w : FundingWatch} {clock : Int64} (htidy : Tidy w clock) {op : Op}
    (hle : clock ≤ op.nowMs) {r : Recovered} (hr : (results w op).2 = some r) :
    r.sinceMs ≤ r.throughMs ∧ r.throughMs = op.nowMs ∧
      ∀ l ∈ r.lines, r.sinceMs ≤ l.timeMs ∧ l.timeMs ≤ r.throughMs := by
  cases op with
  | recover lines nowMs =>
    rcases recoverUnknown_cases w lines nowMs with
      ⟨problem, -, hrecover⟩ | ⟨sinceMs, unique, recovered, hmin, hrows, hperm, hrecover⟩
    · rw [results, hrecover] at hr
      cases hr
    · rw [results, hrecover] at hr
      obtain rfl := Option.some.inj hr
      obtain ⟨hmem, hleast⟩ := List.min?_eq_some_iff.mp hmin
      obtain ⟨gap, hgap, rfl⟩ := List.mem_map.mp hmem
      refine ⟨Int64.le_trans (htidy.gaps.since gap hgap) hle, rfl, fun l hl => ?_⟩
      have hunknown := (List.mem_filter.mp (hperm.mem_iff.mp hl)).2
      simp only [unknownLine, Bool.and_eq_true, List.any_eq_true, decide_eq_true_eq] at hunknown
      obtain ⟨⟨⟨-, hnow⟩, gap', hgap', hsince, -⟩, -⟩ := hunknown
      exact ⟨Int64.le_trans (hleast _ (List.mem_map_of_mem hgap')) hsince, hnow⟩
  | onTime nowMs live model next => cases hr
  | rediscover nowMs next => cases hr
  | resolve rates lines nowMs => cases hr

end FundingWatch
