/-
# Settlements the clock jumps over

The watch holds one settlement.  When the clock passes it, the venue is asked for the next
one after the clock, so that a settlement the clock passes in the same jump is not heard
of: it is never pending, no gap is opened for it, and `evidence` is as if it had not been
(`jumpedRun_skips`).  Where no call jumps over a second one, none is left out
(`none_skipped`).
-/
import OpenQuanter.FundingWhole

namespace FundingWatch

/-! ## Schedules -/

/-- The first settlement after a time. -/
structure NextAfter (S : Int64 → Prop) (nowMs n : Int64) : Prop where
  scheduled : S n
  later : nowMs < n
  least : ∀ s, S s → nowMs < s → n ≤ s

/-- The venue answers by its schedule, where it answers. -/
def Scheduled (S : Int64 → Prop) : Op → Prop
  | .onTime nowMs _ _ next => ∀ n, next = some n → NextAfter S nowMs n
  | .rediscover nowMs next => ∀ n, next = .ok (some n) → NextAfter S nowMs n
  | _ => True

/-- **The condition**: the clock does not pass a second settlement in passing the one that
is held. -/
def OneAtATime (S : Int64 → Prop) (w : FundingWatch) : Op → Prop
  | .onTime nowMs _ _ _ => ∀ held, w.nextMs = some held → held ≤ nowMs →
      ∀ s, S s → held < s → nowMs < s
  | _ => True

/-- A gap covers a time. -/
def InGap (gap : ScheduleGap) (s : Int64) : Prop :=
  gap.sinceMs ≤ s ∧ ∀ u, gap.untilMs = some u → s ≤ u

/-- At or after the settlement that was announced first, if one was. -/
def Since (next : Except String (Option Int64)) (s : Int64) : Prop :=
  ∀ first, next = .ok (some first) → first ≤ s

/-- The time the watch is told. -/
def Op.told : Op → List Int64
  | .onTime nowMs _ _ _ => [nowMs]
  | _ => []

/-- The times it was told. -/
def toldTimes (ops : List Op) : List Int64 := ops.flatMap Op.told

/-! ## Runs -/

/-- All is accounted for up to the settlement that is held, which is past the clock. -/
structure Holds (S : Int64 → Prop) (next : Except String (Option Int64)) (t : Trace)
    (told : List Int64) (n : Int64) : Prop where
  held : t.watch.nextMs = some n
  crossed : ∀ s, S s → Since next s → s < n → s ∈ t.crossed
  ahead : ∀ now ∈ told, now < n

/-- The settlements are accounted for, or a problem is reported. -/
def Accounted (S : Int64 → Prop) (next : Except String (Option Int64)) (t : Trace)
    (told : List Int64) : Prop :=
  t.watch.problem.isSome = true ∨ ∃ n, Holds S next t told n

variable {S : Int64 → Prop} {next : Except String (Option Int64)} {t : Trace}
  {told : List Int64}

/-- A watch that starts knows the first settlement, or why it does not. -/
theorem accounted_start (i : Instrument) : Accounted S next (Trace.start (new i next)) [] := by
  rcases next with e | (- | first)
  · exact .inl rfl
  · exact .inl rfl
  · refine .inr ⟨first, rfl, fun s _ hsince hs => ?_, fun _ h => absurd h List.not_mem_nil⟩
    exact absurd hs (Int64.not_lt.mpr (hsince first rfl))

/-- The watch did something that is not about the schedule. -/
theorem Accounted.congr (h : Accounted S next t told) {t' : Trace}
    (hproblem : t.watch.problem.isSome = true → t'.watch.problem.isSome = true)
    (hnext : t'.watch.nextMs = t.watch.nextMs) (hcrossed : t'.crossed = t.crossed) :
    Accounted S next t' told := by
  rcases h with hsome | ⟨n, hheld, hall, hahead⟩
  · exact .inl (hproblem hsome)
  · exact .inr ⟨n, hnext.trans hheld, hcrossed ▸ hall, hahead⟩

/-- **The clock**: with a schedule that is known, the next settlement takes the place of
the one that was passed, and there is none between them. -/
theorem Accounted.onTime (h : Accounted S next t told) {nowMs : Int64} {live model : Legs}
    {asked : Option Int64} (hscheduled : Scheduled S (.onTime nowMs live model asked))
    (hone : OneAtATime S t.watch (.onTime nowMs live model asked)) :
    Accounted S next (t.step (.onTime nowMs live model asked)) (told ++ [nowMs]) := by
  simp only [Trace.step, crossing]
  rcases onTime_cases (w := t.watch) nowMs live model asked with
    ⟨hnone, htime⟩ | ⟨held, hheld, hshort, htime⟩ | ⟨held, hheld, hpassed, hmore⟩
  · rcases h with hsome | ⟨n, hn, -, -⟩
    · refine .inl ?_
      rw [htime, beginScheduleGap_eq]
      exact hsome
    · rw [hnone] at hn
      cases hn
  · rw [htime]
    rcases h with hsome | ⟨n, hn, hall, hahead⟩
    · exact .inl hsome
    · obtain rfl : held = n := Option.some.inj (hheld.symm.trans hn)
      refine .inr ⟨held, hn, fun s hs hsince hlt =>
        List.mem_append_left _ (hall s hs hsince hlt), ?_⟩
      intro now hnow
      rcases List.mem_append.mp hnow with hnow | hnow
      · exact hahead now hnow
      · rw [List.mem_singleton.mp hnow]
        exact hshort
  · rcases hmore with ⟨n, rfl, -, htime⟩ | ⟨why, htime⟩
    · rw [htime]
      rcases h with hsome | ⟨n', hn', hall, hahead⟩
      · exact .inl hsome
      obtain rfl : held = n' := Option.some.inj (hheld.symm.trans hn')
      have hafter := hscheduled n rfl
      have hcrossing : ((t.watch.nextMs).filter (· ≤ nowMs)).toList = [held] := by
        simp [hheld, Option.filter, hpassed]
      refine .inr ⟨n, rfl, fun s hs hsince hlt => ?_, ?_⟩
      · rw [hcrossing, List.mem_append, List.mem_singleton]
        -- by the schedule it is not after the clock, and then not after the one held
        have hpast : ¬ nowMs < s := fun hnow => Int64.not_lt.mpr (hafter.least s hs hnow) hlt
        have hle : ¬ held < s := fun hbehind => hpast (hone held hheld hpassed s hs hbehind)
        rcases Int64.lt_or_eq_of_le (Int64.not_lt.mp hle) with hbefore | heq
        · exact .inl (hall s hs hsince hbefore)
        · exact .inr heq
      · intro now hnow
        rcases List.mem_append.mp hnow with hnow | hnow
        · exact Int64.lt_trans (Int64.lt_of_lt_of_le (hahead now hnow) hpassed) hafter.later
        · rw [List.mem_singleton.mp hnow]
          exact hafter.later
    · rw [htime]
      exact .inl rfl

/-- Step. -/
theorem Accounted.step (h : Accounted S next t told) {op : Op} (hscheduled : Scheduled S op)
    (hone : OneAtATime S t.watch op) :
    Accounted S next (t.step op) (told ++ op.told) := by
  cases op with
  | onTime nowMs live model asked => exact h.onTime hscheduled hone
  | rediscover nowMs answer =>
    show Accounted S next _ (told ++ [])
    rw [List.append_nil]
    simp only [Trace.step]
    rcases rediscoverSchedule_cases (w := t.watch) nowMs answer with
      ⟨-, hschedule⟩ | ⟨hnone, hmore⟩
    · rwa [hschedule]
    · -- with no schedule a problem is reported, and it stays
      rcases h with hsome | ⟨n, hn, -, -⟩
      · rcases hmore with hschedule | ⟨n, -, -, hschedule⟩
        · refine .inl ?_
          rw [hschedule, beginScheduleGap_eq]
          exact hsome
        · refine .inl ?_
          rw [hschedule]
          exact hsome
      · rw [hnone] at hn
        cases hn
  | resolve rates lines nowMs =>
    show Accounted S next _ (told ++ [])
    rw [List.append_nil]
    simp only [Trace.step]
    rcases resolve_cases t.watch rates lines nowMs with ⟨why, hresolve⟩ | ⟨unique, -, hresolve⟩
    · rw [hresolve]
      exact h.congr (fun _ => rfl) rfl rfl
    · rw [hresolve]
      have hsame := resolveAll_same rates unique nowMs
        { t.watch with pending := [] } t.watch.pending
      exact h.congr hsame.problem hsame.nextMs rfl
  | recover lines nowMs =>
    show Accounted S next _ (told ++ [])
    rw [List.append_nil]
    simp only [Trace.step]
    rcases recoverUnknown_cases t.watch lines nowMs with
      ⟨problem, hproblem, hrecover⟩ | ⟨sinceMs, unique, recovered, -, -, -, hrecover⟩
    · rw [hrecover]
      exact h.congr hproblem rfl rfl
    · rw [hrecover]
      exact h.congr id rfl rfl

/-- **The run lemma.** -/
theorem accounted_run (i : Instrument) {ops : List Op} (hscheduled : ∀ op ∈ ops, Scheduled S op)
    (hone : ∀ before op after, ops = before ++ op :: after →
      OneAtATime S ((Trace.start (new i next)).run before).watch op) :
    Accounted S next ((Trace.start (new i next)).run ops) (toldTimes ops) := by
  induction ops using List.reverseRecOn with
  | nil => exact accounted_start i
  | append_singleton ops op ih =>
    have hinit := ih (fun op' hop' => hscheduled op' (List.mem_append_left _ hop')) (by
      rintro before op' after rfl
      exact hone before op' (after ++ [op]) (by rw [List.append_assoc]; rfl))
    rw [run_append, toldTimes, List.flatMap_append, List.flatMap_singleton]
    exact hinit.step (hscheduled op (List.mem_append_right _ List.mem_cons_self))
      (hone ops op [] rfl)

/-- A problem that is reported is an error. -/
theorem evidence_of_problem {w : FundingWatch} (h : w.problem.isSome = true) :
    ∃ why, w.evidence = .error why := by
  obtain ⟨why, hwhy⟩ := Option.isSome_iff_exists.mp h
  exact ⟨why, by rw [evidence, hwhy]⟩

/-- **No settlement is skipped** by a run that passes them one at a time: each settlement
of the schedule from the first that was announced to the latest time is pending, settled or
in a gap, or funding is not reported. -/
theorem none_skipped (S : Int64 → Prop) (i : Instrument) (next : Except String (Option Int64))
    (ops : List Op) (htimes : (ops.map Op.nowMs).Pairwise (· ≤ ·))
    (hscheduled : ∀ op ∈ ops, Scheduled S op)
    (hone : ∀ before op after, ops = before ++ op :: after →
      OneAtATime S ((Trace.start (new i next)).run before).watch op) :
    let t := (Trace.start (new i next)).run ops
    ∀ s, S s → Since next s → (∃ now ∈ toldTimes ops, s ≤ now) →
      s ∈ t.watch.pending.map (·.atMs) ∨ s ∈ t.settled.map (·.atMs) ∨
        (∃ gap ∈ t.watch.scheduleGaps, InGap gap s) ∨ ∃ why, t.watch.evidence = .error why := by
  rintro t s hs hsince ⟨now, hnow, hle⟩
  rcases accounted_run i hscheduled hone with hproblem | ⟨n, -, hall, hahead⟩
  · exact .inr (.inr (.inr (evidence_of_problem hproblem)))
  · have hcrossed := hall s hs hsince (Int64.lt_of_le_of_lt hle (hahead now hnow))
    rcases List.mem_append.mp ((booked_run i next htimes).crossed.perm.mem_iff.mp hcrossed) with
      hpending | hsettled
    · exact .inl hpending
    · exact .inr (.inl hsettled)

/-! ### A jump -/

/-- A settlement every eight hours. -/
def EightHours (s : Int64) : Prop := 28_800_000 ∣ s.toInt

instance (s : Int64) : Decidable (EightHours s) := inferInstanceAs (Decidable (_ ∣ _))

theorem nextAfter_eightHours {nowMs n : Int64} (hn : 28_800_000 ∣ n.toInt)
    (hnow : nowMs.toInt < n.toInt) (hle : n.toInt ≤ nowMs.toInt + 28_800_000) :
    NextAfter EightHours nowMs n where
  scheduled := hn
  later := Int64.lt_iff_toInt_lt.mpr hnow
  least s hs hlt := by
    have hlt := Int64.lt_iff_toInt_lt.mp hlt
    rw [Int64.le_iff_toInt_le]
    unfold EightHours at hs
    omega

/-- Short of eight hours after one of them there is no other. -/
theorem lt_of_eightHours {held nowMs s : Int64} (hheld : 28_800_000 ∣ held.toInt)
    (hnow : nowMs.toInt < held.toInt + 28_800_000) (hs : EightHours s) (hlt : held < s) :
    nowMs < s := by
  have hlt := Int64.lt_iff_toInt_lt.mp hlt
  rw [Int64.lt_iff_toInt_lt]
  unfold EightHours at hs
  omega

/-- A watch that waits for the first of them. -/
def eightHourly : Trace := Trace.start (new ⟨1, 3, 100_000_000⟩ (.ok (some 28_800_000)))

/-- The clock comes back behind the second settlement.  The venue's figures show both. -/
def jumpedRun : List Op :=
  [.onTime 60_000_000 (8, 0) (8, 0) (some 86_400_000),
    .resolve [⟨28_800_000, "0.00008995", "84374.02268116"⟩, ⟨57_600_000, "0.0001", "84000"⟩]
      [⟨7, 28_800_000, -6_071_554⟩, ⟨8, 57_600_000, -6_720_000⟩] 60_100_000]

/-- **The second settlement is skipped**: it is not pending, was not settled, and no gap
covers it, while funding is reported without it. -/
theorem jumpedRun_skips :
    (∀ op ∈ jumpedRun, Scheduled EightHours op) ∧ EightHours 57_600_000 ∧
      Since (.ok (some 28_800_000)) 57_600_000 ∧ (∃ now ∈ toldTimes jumpedRun, 57_600_000 ≤ now) ∧
      (eightHourly.run jumpedRun).watch.pending = [] ∧
      (eightHourly.run jumpedRun).settled.map (·.atMs) = [28_800_000] ∧
      (eightHourly.run jumpedRun).watch.scheduleGaps = [] ∧
      (eightHourly.run jumpedRun).watch.evidence = .ok (-6_071_554, -6_071_554) := by
  refine ⟨?_, by decide, ?_, by decide, by decide +kernel, by decide +kernel, by decide +kernel,
    by decide +kernel⟩
  · rintro op hop
    rcases List.mem_pair.mp hop with rfl | rfl
    · rintro n hn
      rw [← Option.some.inj hn]
      exact nextAfter_eightHours (by decide) (by decide) (by decide)
    · trivial
  · rintro first hfirst
    obtain rfl : (28_800_000 : Int64) = first := Option.some.inj (Except.ok.inj hfirst)
    decide

/-- The same settlements, passed one at a time. -/
def steadyRun : List Op :=
  [.onTime 28_800_500 (8, 0) (8, 0) (some 57_600_000),
    .onTime 60_000_000 (8, 0) (8, 0) (some 86_400_000)]

theorem none_skipped_steady :
    57_600_000 ∈ (eightHourly.run steadyRun).watch.pending.map (·.atMs) ∨
      57_600_000 ∈ (eightHourly.run steadyRun).settled.map (·.atMs) ∨
      (∃ gap ∈ (eightHourly.run steadyRun).watch.scheduleGaps, InGap gap 57_600_000) ∨
      ∃ why, (eightHourly.run steadyRun).watch.evidence = .error why := by
  refine none_skipped EightHours ⟨1, 3, 100_000_000⟩ (.ok (some 28_800_000)) steadyRun (by decide)
    ?_ ?_ 57_600_000 (by decide) ?_ (by decide)
  · rintro op hop
    rcases List.mem_pair.mp hop with rfl | rfl
    · rintro n hn
      rw [← Option.some.inj hn]
      exact nextAfter_eightHours (by decide) (by decide) (by decide)
    · rintro n hn
      rw [← Option.some.inj hn]
      exact nextAfter_eightHours (by decide) (by decide) (by decide)
  · rintro (- | ⟨first, - | ⟨second, before⟩⟩) op after hops
    · obtain ⟨rfl, -⟩ := List.cons.inj hops
      rintro held hheld - s hs hlt
      obtain rfl : (28_800_000 : Int64) = held := Option.some.inj hheld
      exact lt_of_eightHours (by decide) (by decide) hs hlt
    · obtain ⟨hfirst, hrest⟩ := List.cons.inj hops
      obtain ⟨rfl, -⟩ := List.cons.inj hrest
      rw [← hfirst]
      rintro held hheld - s hs hlt
      have hnext : (eightHourly.run [.onTime 28_800_500 (8, 0) (8, 0)
        (some 57_600_000)]).watch.nextMs =
          some 57_600_000 := by decide +kernel
      obtain rfl : (57_600_000 : Int64) = held := Option.some.inj (hnext.symm.trans hheld)
      exact lt_of_eightHours (by decide) (by decide) hs hlt
    · exact absurd (congrArg List.length hops) (by simp [steadyRun])
  · rintro first hfirst
    obtain rfl : (28_800_000 : Int64) = first := Option.some.inj (Except.ok.inj hfirst)
    decide

end FundingWatch
