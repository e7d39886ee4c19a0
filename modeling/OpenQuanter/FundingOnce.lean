/-
# Funding is booked once

Settling and recovering use rows of one ledger that is asked again and again.  The rows
returned so far are in the watch, each with the time and the amount it was used with
(`Used`); a settlement that became pending is pending or was returned (`Crossed`).  Both
are kept by every operation.
-/
import OpenQuanter.FundingWatch

namespace FundingWatch

variable {w : FundingWatch}

/-! ## Rows -/

/-- The rows returned so far: each once, and known to the watch as it was used. -/
structure Used (w : FundingWatch) (lines : List FundingLine) : Prop where
  nodup : (lines.map (·.id)).Nodup
  known : ∀ l ∈ lines, w.bookedLines.lookup l.id = some (l.timeMs, l.amount)

theorem used_nil : Used w [] where
  nodup := List.nodup_nil
  known _ h := absurd h List.not_mem_nil

/-- The order they were returned in does not matter. -/
theorem Used.perm {lines lines' : List FundingLine} (h : Used w lines)
    (hperm : lines.Perm lines') : Used w lines' where
  nodup := (hperm.map _).nodup_iff.mp h.nodup
  known l hl := h.known l (hperm.mem_iff.mpr hl)

theorem Used.congr {w' : FundingWatch} {lines : List FundingLine} (h : Used w lines)
    (hbooked : w'.bookedLines = w.bookedLines) : Used w' lines where
  nodup := h.nodup
  known l hl := by
    rw [hbooked]
    exact h.known l hl

/-- **Rows that were not used before** are used once more by using them now. -/
theorem Used.book {lines new : List FundingLine} (h : Used w lines)
    (hnodup : (new.map (·.id)).Nodup) (hfresh : ∀ l ∈ new, contains w.bookedLines l = false) :
    Used (w.book new) (lines ++ new) := by
  have hdisjoint : ∀ l ∈ lines, l.id ∉ new.map (·.id) := by
    intro l hl hid
    obtain ⟨l', hl', heq⟩ := List.mem_map.mp hid
    have hunused := hfresh l' hl'
    rw [contains, heq, h.known l hl] at hunused
    cases hunused
  refine ⟨?_, fun l hl => ?_⟩
  · rw [List.map_append, List.nodup_append]
    refine ⟨h.nodup, hnodup, ?_⟩
    rintro id hid id' hid' rfl
    obtain ⟨l, hl, rfl⟩ := List.mem_map.mp hid
    exact hdisjoint l hl hid'
  · rw [lookup_book w hnodup]
    rcases List.mem_append.mp hl with hl | hl
    · have hnone : new.find? (fun l' => decide (l'.id = l.id)) = none := by
        rw [List.find?_eq_none]
        intro l' hl' heq
        exact hdisjoint l hl (List.mem_map.mpr ⟨l', hl', of_decide_eq_true heq⟩)
      rw [hnone]
      exact h.known l hl
    · cases hfind : new.find? (fun l' => decide (l'.id = l.id)) with
      | none =>
        rw [List.find?_eq_none] at hfind
        exact absurd (decide_eq_true rfl) (hfind l hl)
      | some l' =>
        -- a row of the same id is the same row
        have hid : l'.id = l.id := by simpa using List.find?_some hfind
        rw [List.inj_on_of_nodup_map hnodup (List.mem_of_find?_eq_some hfind) hl hid]
        rfl

section Resolving

variable {rates : List SettledRate} {unique : List FundingLine} {nowMs : Int64}

/-- Settling leaves the schedule alone, and forgets no problem. -/
theorem resolveAll_same (rates : List SettledRate) (unique : List FundingLine) (nowMs : Int64)
    (w : FundingWatch) (ps : List Pending) :
    Same w (resolveAll rates unique nowMs w ps).1 := by
  induction ps generalizing w with
  | nil => exact Same.refl w
  | cons p ps ih =>
    rw [resolveAll]
    rcases resolveOne_cases rates unique nowMs w p with
      ⟨w', hone, hwaits⟩ | ⟨w', s, hone, hsettles⟩
    · rw [hone]
      exact hwaits.toSame.trans (ih w')
    · rw [hone]
      exact hsettles.toSame.trans (ih w')

/-- The settlements: each goes on waiting or is returned. -/
theorem resolveAll_perm (rates : List SettledRate) (unique : List FundingLine) (nowMs : Int64)
    (w : FundingWatch) (ps : List Pending) :
    ((resolveAll rates unique nowMs w ps).1.pending.map (·.atMs) ++
      (resolveAll rates unique nowMs w ps).2.map (·.atMs)).Perm
        (w.pending.map (·.atMs) ++ ps.map (·.atMs)) := by
  induction ps generalizing w with
  | nil => exact List.Perm.refl _
  | cons p ps ih =>
    rw [resolveAll]
    rcases resolveOne_cases rates unique nowMs w p with
      ⟨w', hone, hwaits⟩ | ⟨w', s, hone, hsettles⟩
    · rw [hone]
      have hrest := ih w'
      rw [hwaits.pending, List.map_append, List.append_assoc] at hrest
      exact hrest
    · rw [hone]
      have hrest := ih w'
      rw [hsettles.pending] at hrest
      simp only [Option.toList_some, List.singleton_append, List.map_cons, hsettles.atMs]
      exact List.perm_middle.trans ((hrest.cons p.atMs).trans List.perm_middle.symm)

/-- The rows they are settled with. -/
theorem Used.resolveAll {lines : List FundingLine} (h : Used w lines)
    (hnodup : (unique.map (·.id)).Nodup) (ps : List Pending) :
    Used (FundingWatch.resolveAll rates unique nowMs w ps).1
      (lines ++ (FundingWatch.resolveAll rates unique nowMs w ps).2.flatMap (·.lines)) := by
  induction ps generalizing w lines with
  | nil => simpa [FundingWatch.resolveAll] using h
  | cons p ps ih =>
    rw [FundingWatch.resolveAll]
    rcases resolveOne_cases rates unique nowMs w p with
      ⟨w', hone, hwaits⟩ | ⟨w', s, hone, hsettles⟩
    · rw [hone]
      exact ih (h.congr hwaits.bookedLines)
    · rw [hone]
      have hmine : (s.lines.map (·.id)).Nodup := by
        rw [hsettles.lines]
        exact (List.filter_sublist.map _).nodup hnodup
      have hrest := ih ((h.book hmine hsettles.fresh).congr hsettles.bookedLines)
      rw [List.append_assoc] at hrest
      exact hrest

end Resolving

/-- What resolving does, in one of two ways. -/
theorem resolve_cases (w : FundingWatch) (rates : List SettledRate) (lines : List FundingLine)
    (nowMs : Int64) :
    (∃ why, w.resolve rates lines nowMs = ({ w with problem := some why }, [])) ∨
    ∃ unique, Rows w.bookedLines lines unique ∧ w.resolve rates lines nowMs =
      resolveAll rates unique nowMs { w with pending := [] } w.pending := by
  unfold resolve
  cases hrows : w.uniqueLines (identity "ledger" "changed after booking")
      (identity "ledger" "has conflicting evidence") lines with
  | error why => exact .inl ⟨why, rfl⟩
  | ok unique => exact .inr ⟨unique, rows_of_uniqueLines hrows, rfl⟩

/-! ## Settlements -/

/-- The settlements that became pending so far, by the time the run has come to: they
rise, the next one is past them, and each is pending or was returned. -/
structure Crossed (t : Trace) (clock : Int64) : Prop where
  perm : t.crossed.Perm (t.watch.pending.map (·.atMs) ++ t.settled.map (·.atMs))
  rises : t.crossed.Pairwise (· < ·)
  past : ∀ c ∈ t.crossed, c ≤ clock
  next : ∀ n, t.watch.nextMs = some n → ∀ c ∈ t.crossed, c < n

theorem Crossed.later {t : Trace} {clock clock' : Int64} (h : Crossed t clock)
    (hle : clock ≤ clock') : Crossed t clock' :=
  { h with past := fun c hc => Int64.le_trans (h.past c hc) hle }

/-- The watch did something that is not about settlements. -/
theorem Crossed.congr {t : Trace} {clock : Int64} (h : Crossed t clock) {w' : FundingWatch}
    {recovered : List Recovered} (hpending : w'.pending = t.watch.pending)
    (hnext : w'.nextMs = t.watch.nextMs) :
    Crossed { t with watch := w', recovered := recovered } clock where
  perm := by rw [hpending]; exact h.perm
  rises := h.rises
  past := h.past
  next n hn := h.next n (hnext ▸ hn)

/-- The clock passes a settlement. -/
theorem Crossed.onTime {t : Trace} {clock nowMs : Int64} (h : Crossed t clock)
    (hle : clock ≤ nowMs) (live model : Legs) (next : Option Int64) :
    Crossed (t.step (.onTime nowMs live model next)) nowMs := by
  have hsame := h.later hle
  simp only [Trace.step, crossing]
  rcases onTime_cases (w := t.watch) nowMs live model next with
    ⟨hnone, htime⟩ | ⟨at_, hat, hshort, htime⟩ | ⟨at_, hat, hpassed, hmore⟩
  · rw [htime, hnone, beginScheduleGap_eq]
    simp only [Option.filter_none, Option.toList_none, List.append_nil]
    exact hsame.congr rfl rfl
  · have hnot : ¬ at_ ≤ nowMs := Int64.not_le.mpr hshort
    rw [htime, hat]
    simpa [Option.filter, hnot] using hsame
  · have hcrossing : ((some at_).filter (· ≤ nowMs)).toList = [at_] := by
      simp [Option.filter, hpassed]
    rw [hat, hcrossing]
    -- whether or not the next one is known
    have hcrossed : ∀ w', w'.pending = t.watch.pending ++ [⟨at_, live, model, false⟩] →
        (∀ n, w'.nextMs = some n → at_ < n) →
        Crossed { t with watch := w', crossed := t.crossed ++ [at_] } nowMs := by
      intro w' hpending hnext
      refine ⟨?_, ?_, ?_, ?_⟩
      · simp only [hpending, List.map_append, List.map_cons, List.map_nil]
        exact (List.perm_append_comm.trans (h.perm.cons at_)).trans
          (by rw [List.append_assoc]; exact List.perm_middle.symm)
      · refine List.pairwise_append.mpr ⟨h.rises, List.pairwise_singleton _ _, fun c hc b hb => ?_⟩
        rw [List.mem_singleton.mp hb]
        exact h.next at_ hat c hc
      · intro c hc
        rcases List.mem_append.mp hc with hc | hc
        · exact hsame.past c hc
        · rw [List.mem_singleton.mp hc]
          exact hpassed
      · intro n hn c hc
        rcases List.mem_append.mp hc with hc | hc
        · exact Int64.lt_trans (h.next at_ hat c hc) (hnext n hn)
        · rw [List.mem_singleton.mp hc]
          exact hnext n hn
    rcases hmore with ⟨n, -, hlt, htime⟩ | ⟨why, htime⟩
    · rw [htime]
      exact hcrossed _ rfl fun n' hn' => by rw [← Option.some.inj hn']; exact hlt
    · rw [htime]
      exact hcrossed _ rfl fun n' hn' => nomatch hn'

/-- A next settlement is installed only past the clock. -/
theorem Crossed.rediscover {t : Trace} {clock nowMs : Int64} (h : Crossed t clock)
    (hle : clock ≤ nowMs) (next : Except String (Option Int64)) :
    Crossed (t.step (.rediscover nowMs next)) nowMs := by
  have hsame := h.later hle
  simp only [Trace.step]
  rcases rediscoverSchedule_cases (w := t.watch) nowMs next with
    ⟨-, hschedule⟩ | ⟨hnone, hschedule | ⟨n, -, hlt, hschedule⟩⟩
  · rwa [hschedule]
  · rw [hschedule, beginScheduleGap_eq]
    exact hsame.congr rfl rfl
  · rw [hschedule]
    exact { hsame with
      next := fun n' hn' c hc => by
        rw [← Option.some.inj hn']
        exact Int64.lt_of_le_of_lt (hsame.past c hc) hlt }

theorem Crossed.resolve {t : Trace} {clock nowMs : Int64} (h : Crossed t clock)
    (hle : clock ≤ nowMs) (rates : List SettledRate) (lines : List FundingLine) :
    Crossed (t.step (.resolve rates lines nowMs)) nowMs := by
  have hsame := h.later hle
  simp only [Trace.step]
  rcases resolve_cases t.watch rates lines nowMs with ⟨why, hresolve⟩ | ⟨unique, -, hresolve⟩
  · rw [hresolve]
    simp only [List.append_nil]
    exact hsame.congr rfl rfl
  · rw [hresolve]
    have hperm := resolveAll_perm rates unique nowMs
      { t.watch with pending := [] } t.watch.pending
    have hframe := resolveAll_same rates unique nowMs
      { t.watch with pending := [] } t.watch.pending
    refine ⟨?_, hsame.rises, hsame.past, fun n hn => hsame.next n (hframe.nextMs ▸ hn)⟩
    rw [List.map_append]
    refine h.perm.trans ((hperm.symm.append_right _).trans ?_)
    rw [List.append_assoc]
    exact List.perm_append_comm.append_left _

theorem Crossed.recover {t : Trace} {clock nowMs : Int64} (h : Crossed t clock)
    (hle : clock ≤ nowMs) (lines : List FundingLine) :
    Crossed (t.step (.recover lines nowMs)) nowMs := by
  have hsame := h.later hle
  simp only [Trace.step]
  rcases recoverUnknown_cases t.watch lines nowMs with
    ⟨problem, -, hrecover⟩ | ⟨sinceMs, unique, recovered, -, -, -, hrecover⟩
  · rw [hrecover]
    exact hsame.congr rfl rfl
  · rw [hrecover]
    exact hsame.congr rfl rfl

/-- Step. -/
theorem Crossed.step {t : Trace} {clock : Int64} (h : Crossed t clock) {op : Op}
    (hle : clock ≤ op.nowMs) : Crossed (t.step op) op.nowMs := by
  cases op with
  | onTime nowMs live model next => exact h.onTime hle live model next
  | rediscover nowMs next => exact h.rediscover hle next
  | resolve rates lines nowMs => exact h.resolve hle rates lines
  | recover lines nowMs => exact h.recover hle lines

/-! ## Runs -/

/-- What holds all along a run. -/
structure Booked (t : Trace) (clock : Int64) : Prop where
  crossed : Crossed t clock
  used : Used t.watch t.lines

/-- Rows of one settlement more, or of one recovery more. -/
theorem lines_perm (a b c : List FundingLine) : (a ++ b ++ c).Perm (a ++ c ++ b) := by
  rw [List.append_assoc, List.append_assoc]
  exact List.perm_append_comm.append_left a

/-- Step: the rows. -/
theorem Used.step {t : Trace} (h : Used t.watch t.lines) (op : Op) :
    Used (t.step op).watch (t.step op).lines := by
  cases op with
  | onTime nowMs live model next =>
    refine h.congr ?_
    show (t.watch.onTime nowMs live model next).bookedLines = _
    rcases onTime_cases (w := t.watch) nowMs live model next with
      ⟨-, htime⟩ | ⟨_, -, -, htime⟩ | ⟨_, -, -, ⟨_, -, -, htime⟩ | ⟨_, htime⟩⟩
    · rw [htime, beginScheduleGap_eq]
    all_goals rw [htime]
  | rediscover nowMs next =>
    refine h.congr ?_
    show (t.watch.rediscoverSchedule nowMs next).bookedLines = _
    rcases rediscoverSchedule_cases (w := t.watch) nowMs next with
      ⟨-, hschedule⟩ | ⟨-, hschedule | ⟨_, -, -, hschedule⟩⟩
    · rw [hschedule]
    · rw [hschedule, beginScheduleGap_eq]
    · rw [hschedule]
  | resolve rates lines nowMs =>
    simp only [Trace.step, Trace.lines]
    rcases resolve_cases t.watch rates lines nowMs with ⟨why, hresolve⟩ | ⟨unique, hrows, hresolve⟩
    · rw [hresolve, List.append_nil]
      exact h.congr rfl
    · rw [hresolve, List.flatMap_append]
      have hunasked : Used { t.watch with pending := [] } t.lines := h.congr rfl
      exact (hunasked.resolveAll hrows.nodup t.watch.pending).perm (lines_perm _ _ _)
  | recover lines nowMs =>
    simp only [Trace.step, Trace.lines]
    rcases recoverUnknown_cases t.watch lines nowMs with
      ⟨problem, -, hrecover⟩ | ⟨sinceMs, unique, recovered, -, hrows, hperm, hrecover⟩
    · rw [hrecover, Option.toList_none, List.append_nil]
      exact h.congr rfl
    · rw [hrecover, List.flatMap_append, ← List.append_assoc, Option.toList_some,
        List.flatMap_singleton]
      refine h.book ?_ fun l hl => ?_
      · exact ((hperm.map _).nodup_iff).mpr ((List.filter_sublist.map _).nodup hrows.nodup)
      · have hunknown := (List.mem_filter.mp (hperm.mem_iff.mp hl)).2
        simp only [unknownLine, Bool.and_eq_true, Bool.not_eq_true'] at hunknown
        exact hunknown.1.1.1

/-- Step: the gaps. -/
theorem gapsKept_step (t : Trace) (op : Op) :
    GapsKept t.watch.scheduleGaps (t.step op).watch.scheduleGaps := by
  cases op with
  | onTime nowMs live model next =>
    show GapsKept _ (t.watch.onTime nowMs live model next).scheduleGaps
    rcases onTime_cases (w := t.watch) nowMs live model next with
      ⟨-, htime⟩ | ⟨_, -, -, htime⟩ | ⟨at_, -, -, ⟨_, -, -, htime⟩ | ⟨_, htime⟩⟩
    · rw [htime]
      exact gapsKept_begin nowMs
    · rw [htime]
      exact GapsKept.refl _
    · rw [htime]
      exact GapsKept.refl _
    · rw [htime]
      exact gapsKept_begin at_
  | rediscover nowMs next =>
    show GapsKept _ (t.watch.rediscoverSchedule nowMs next).scheduleGaps
    rcases rediscoverSchedule_cases (w := t.watch) nowMs next with
      ⟨-, hschedule⟩ | ⟨-, hschedule | ⟨_, -, -, hschedule⟩⟩
    · rw [hschedule]
      exact GapsKept.refl _
    · rw [hschedule]
      exact gapsKept_begin nowMs
    · rw [hschedule]
      exact (gapsKept_begin nowMs).trans (gapsKept_close nowMs (getLast?_begin nowMs))
  | resolve rates lines nowMs =>
    show GapsKept _ (t.watch.resolve rates lines nowMs).1.scheduleGaps
    rcases resolve_cases t.watch rates lines nowMs with ⟨why, hresolve⟩ | ⟨unique, -, hresolve⟩
    · rw [hresolve]
      exact GapsKept.refl _
    · rw [hresolve, (resolveAll_same _ _ _ _ _).scheduleGaps]
      exact GapsKept.refl _
  | recover lines nowMs =>
    show GapsKept _ (t.watch.recoverUnknown lines nowMs).1.scheduleGaps
    rcases recoverUnknown_cases t.watch lines nowMs with
      ⟨problem, -, hrecover⟩ | ⟨sinceMs, unique, recovered, -, -, -, hrecover⟩
    · rw [hrecover]
      exact GapsKept.refl _
    · rw [hrecover]
      exact GapsKept.refl _

/-- Step: both. -/
theorem Booked.step {t : Trace} {clock : Int64} (h : Booked t clock) {op : Op}
    (hle : clock ≤ op.nowMs) : Booked (t.step op) op.nowMs :=
  ⟨h.crossed.step hle, h.used.step op⟩

/-- The time a run has come to. -/
def clockAfter (clock : Int64) (ops : List Op) : Int64 := ops.foldl (fun _ op => op.nowMs) clock

/-- **The run lemma.** -/
theorem Booked.run {ops : List Op} {t : Trace} {clock : Int64} (h : Booked t clock)
    (htimes : (clock :: ops.map Op.nowMs).Pairwise (· ≤ ·)) :
    Booked (t.run ops) (clockAfter clock ops) := by
  induction ops generalizing t clock with
  | nil => exact h
  | cons op ops ih =>
    obtain ⟨hclock, hrest⟩ := List.pairwise_cons.mp htimes
    exact ih (h.step (hclock _ (List.mem_cons_self))) hrest

theorem gapsKept_run (t : Trace) (ops : List Op) :
    GapsKept t.watch.scheduleGaps (t.run ops).watch.scheduleGaps := by
  induction ops generalizing t with
  | nil => exact GapsKept.refl _
  | cons op ops ih => exact (gapsKept_step t op).trans (ih (t.step op))

theorem booked_start (i : Instrument) (next : Except String (Option Int64)) (clock : Int64) :
    Booked (Trace.start (new i next)) clock where
  crossed := ⟨List.Perm.refl _, List.Pairwise.nil, fun _ hc => absurd hc List.not_mem_nil,
    fun _ _ _ hc => absurd hc List.not_mem_nil⟩
  used := used_nil

/-- All that holds of a run whose times do not fall. -/
theorem booked_run (i : Instrument) (next : Except String (Option Int64)) {ops : List Op}
    (htimes : (ops.map Op.nowMs).Pairwise (· ≤ ·)) :
    Booked ((Trace.start (new i next)).run ops) (clockAfter Int64.minValue ops) :=
  (booked_start i next Int64.minValue).run
    (List.pairwise_cons.mpr ⟨fun _ _ => Int64.minValue_le _, htimes⟩)

/-- The times of a run that goes on. -/
theorem times_append {before after : List Op} {clock : Int64}
    (htimes : (clock :: (before ++ after).map Op.nowMs).Pairwise (· ≤ ·)) :
    (clockAfter clock before :: after.map Op.nowMs).Pairwise (· ≤ ·) := by
  induction before generalizing clock with
  | nil => exact htimes
  | cons op before ih => exact ih (List.pairwise_cons.mp htimes).2

/-- A row that was used, and is another now, is refused. -/
theorem Used.agrees {lines : List FundingLine} (h : Used w lines) {l l' : FundingLine}
    (hl : l ∈ lines) (hid : l'.id = l.id) (hne : l' ≠ l) : agrees w.bookedLines l' = false := by
  rw [FundingWatch.agrees, hid, h.known l hl, Option.all_some, decide_eq_false_iff_not]
  intro hsame
  obtain ⟨htime, hamount⟩ := Prod.mk.inj hsame
  obtain ⟨id, timeMs, amount⟩ := l
  obtain ⟨id', timeMs', amount'⟩ := l'
  simp only at hid htime hamount
  exact hne (by rw [hid, htime, hamount])

/-- **Funding is booked once.**  In a run whose times do not fall, no row is returned
twice, settling or recovering; each settlement that became pending is pending or was
returned, one of the two and once; no gap is ever lost; and a row that is not what was
used of it changes nothing but the problem. -/
theorem booked_once (i : Instrument) (next : Except String (Option Int64)) (ops : List Op)
    (htimes : (ops.map Op.nowMs).Pairwise (· ≤ ·)) :
    let t := (Trace.start (new i next)).run ops
    (t.lines.map (·.id)).Nodup ∧
      t.crossed.Nodup ∧
      t.crossed.Perm (t.watch.pending.map (·.atMs) ++ t.settled.map (·.atMs)) ∧
      (∀ more, GapsKept t.watch.scheduleGaps (t.run more).watch.scheduleGaps) ∧
      ∀ used ∈ t.lines, ∀ (lines : List FundingLine), ∀ l ∈ lines, l.id = used.id → l ≠ used →
        (∀ rates nowMs, ∃ why,
          t.watch.resolve rates lines nowMs = ({ t.watch with problem := some why }, [])) ∧
        ∀ nowMs, ∃ problem,
          t.watch.recoverUnknown lines nowMs = ({ t.watch with problem := problem }, none) := by
  intro t
  have hall : Booked t (clockAfter Int64.minValue ops) := booked_run i next htimes
  refine ⟨hall.used.nodup, ?_, hall.crossed.perm, gapsKept_run t, ?_⟩
  · exact hall.crossed.rises.imp fun hlt => by
      rintro rfl
      exact Int64.lt_irrefl hlt
  · intro used hused lines l hl hid hne
    have hdiffers := hall.used.agrees hused hid hne
    exact ⟨resolve_conflict t.watch hl hdiffers, recoverUnknown_conflict t.watch hl hdiffers⟩

/-- A settlement, and a ledger that is read three times. -/
def rereadRun : List Op :=
  [.onTime 150 (-8, 0) (-8, 0) none,
    .resolve [⟨101, "0.00008995", "84374.02268116"⟩] [⟨7, 101, 6_071_554⟩] 160,
    .recover [⟨7, 101, 6_071_554⟩, ⟨8, 70_000, 5⟩] 70_000,
    .recover [⟨7, 101, 6_071_554⟩, ⟨8, 70_000, 5⟩] 70_000]

theorem booked_once_reread :
    ((Trace.start (new ⟨1, 3, 100_000_000⟩ (.ok (some 100)))).run rereadRun).lines =
        [⟨7, 101, 6_071_554⟩, ⟨8, 70_000, 5⟩] ∧
      ([7, 8] : List Int64).Nodup := by
  have hlines : ((Trace.start (new ⟨1, 3, 100_000_000⟩ (.ok (some 100)))).run rereadRun).lines =
      [⟨7, 101, 6_071_554⟩, ⟨8, 70_000, 5⟩] := by decide +kernel
  have honce := (booked_once ⟨1, 3, 100_000_000⟩ (.ok (some 100)) rereadRun (by decide)).1
  rw [hlines] at honce
  exact ⟨hlines, honce⟩

end FundingWatch
