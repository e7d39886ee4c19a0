/-
# A settlement's rows, shown over several polls

A settlement is settled at the first poll that shows its rate and any row of it (or
none, where the live legs compute to nothing).  The rows that are published later are not
booked for it.  Where that poll shows all of them, what is booked is their sum
(`booked_whole`).
-/
import OpenQuanter.FundingOnce

namespace FundingWatch

/-! ## What the polls show -/

/-- The rows that the venue's ledger shows in an operation. -/
def Op.lines : Op → List FundingLine
  | .resolve _ lines _ => lines
  | .recover lines _ => lines
  | _ => []

/-- The rows of one settlement, in the order of their ids. -/
structure OwnRows (atMs : Int64) (rows : List FundingLine) : Prop where
  sorted : rows.Pairwise fun a b => a.id.toInt < b.id.toInt
  near : ∀ l ∈ rows, SameSettlement l.timeMs atMs

/-- What is shown at a settlement's time is of the settlement, and so is what is shown
under the id of one of its rows. -/
structure Shows (atMs : Int64) (rows : List FundingLine) (op : Op) : Prop where
  near : ∀ l ∈ op.lines, SameSettlement l.timeMs atMs → l ∈ rows
  same : ∀ l ∈ op.lines, l.id ∈ rows.map (·.id) → l ∈ rows

/-- The poll has what it takes to settle a settlement: a rate the live legs are charged
by, and a row, or no need of one. -/
def Settling (i : Instrument) (p : Pending) (rates : List SettledRate)
    (shown : List FundingLine) : Prop :=
  ∃ rate expected, rates.find? (fun r => SameSettlement r.timeMs p.atMs) = some rate ∧
    chargeLegs i p.live rate.rate rate.mark = some expected ∧ (shown = [] → expected = 0)

/-- **The condition**: what settles the settlement shows all its rows. -/
def Whole (i : Instrument) (p : Pending) (rows : List FundingLine) : Op → Prop
  | .resolve rates lines _ =>
    Settling i p rates (rows.filter (· ∈ lines)) → ∀ l ∈ rows, l ∈ lines
  | _ => True

/-- What was booked for the settlements at a time. -/
def Trace.bookedAt (t : Trace) (atMs : Int64) : Int :=
  ((t.settled.filter (·.atMs = atMs)).map (·.venue.toInt)).sum

/-- No sum of the first of some amounts leaves an `i64`. -/
def SumsFit (rows : List FundingLine) : Prop :=
  ∀ n : Nat, FitsI64 ((rows.take n).map (·.amount.toInt)).sum

/-- Amounts whose first sums do not leave an `i64` are added exactly. -/
theorem toInt_foldl_add (cs : List Cash)
    (hfits : ∀ n : Nat, FitsI64 ((cs.take n).map (·.toInt)).sum) :
    (cs.foldl Cash.add 0).toInt = (cs.map (·.toInt)).sum := by
  induction cs using List.reverseRecOn with
  | nil => rfl
  | append_singleton cs c ih =>
    have hinit : ∀ n : Nat, FitsI64 ((cs.take n).map (·.toInt)).sum := by
      intro n
      have hn := hfits (min n cs.length)
      rwa [List.take_append_of_le_length (min_le_right _ _), ← List.take_eq_take_min] at hn
    have hall := hfits (cs ++ [c]).length
    rw [List.take_length] at hall
    have hsum : ((cs ++ [c]).map (·.toInt)).sum = (cs.foldl Cash.add 0).toInt + c.toInt := by
      rw [List.map_append, List.sum_append, ih hinit]
      simp
    rw [hsum] at hall ⊢
    rw [List.foldl_append]
    exact toInt_ofIntClamp_of_fits hall

/-- So are rows. -/
theorem toInt_charged {rows : List FundingLine} (hfits : SumsFit rows) :
    (charged rows).toInt = (rows.map (·.amount.toInt)).sum := by
  have hamounts := toInt_foldl_add (rows.map (·.amount)) fun n => by
    rw [← List.map_take, List.map_map]
    exact hfits n
  rw [List.foldl_map, List.map_map] at hamounts
  exact hamounts

/-- What has a key of its own is alone under it. -/
theorem filter_key_eq {α β : Type*} [DecidableEq β] (f : α → β) {as : List α}
    (hnodup : (as.map f).Nodup) {a : α} (ha : a ∈ as) : as.filter (fun b => f b = f a) = [a] := by
  induction as with
  | nil => exact absurd ha List.not_mem_nil
  | cons b as ih =>
    obtain ⟨hnew, hrest⟩ := List.nodup_cons.mp hnodup
    rcases List.mem_cons.mp ha with rfl | ha
    · have hnone : as.filter (fun b => f b = f a) = [] := by
        rw [List.filter_eq_nil_iff]
        intro b hb heq
        exact hnew (List.mem_map.mpr ⟨b, hb, of_decide_eq_true heq⟩)
      rw [List.filter_cons_of_pos (by simp), hnone]
    · have hne : ¬ f b = f a := fun heq => hnew (List.mem_map.mpr ⟨a, ha, heq.symm⟩)
      rw [List.filter_cons_of_neg (by simpa using hne), ih hrest ha]

/-- Rows in the order of their ids are told by what they are. -/
theorem eq_of_mem_iff {rows rows' : List FundingLine}
    (h : rows.Pairwise fun a b => a.id.toInt < b.id.toInt)
    (h' : rows'.Pairwise fun a b => a.id.toInt < b.id.toInt)
    (hmem : ∀ l, l ∈ rows ↔ l ∈ rows') : rows = rows' := by
  have hnodup : ∀ {rs : List FundingLine},
      rs.Pairwise (fun a b => a.id.toInt < b.id.toInt) → rs.Nodup := by
    intro rs hrs
    exact hrs.imp fun hlt heq => absurd hlt (by rw [heq]; exact lt_irrefl _)
  have hperm : rows.Perm rows' := (List.perm_ext_iff_of_nodup (hnodup h) (hnodup h')).mpr hmem
  exact hperm.eq_of_pairwise (fun a b _ _ hab hba => absurd hab (lt_asymm hba)) h h'

/-! ## One poll -/

section Poll

variable {i : Instrument} {p : Pending} {rows : List FundingLine}

/-- What is known of the settlement while it waits: it is as it was when the clock passed
it, but for being overdue. -/
def IsOf (p q : Pending) : Prop := q.atMs = p.atMs → q.live = p.live ∧ q.model = p.model

theorem IsOf.kept {q : Pending} (h : IsOf p q) (nowMs : Int64) : IsOf p (q.kept nowMs) := h

/-- The rows are of no other settlement. -/
def Alone (p : Pending) (rows : List FundingLine) (atMs : Int64) : Prop :=
  atMs ≠ p.atMs → ∀ l ∈ rows, ¬ SameSettlement l.timeMs atMs

/-- None of the rows was used. -/
def Unused (w : FundingWatch) (rows : List FundingLine) : Prop :=
  ∀ l ∈ rows, contains w.bookedLines l = false

theorem Unused.congr {w w' : FundingWatch} (h : Unused w rows)
    (hbooked : w'.bookedLines = w.bookedLines) : Unused w' rows := by
  intro l hl
  rw [hbooked]
  exact h l hl

/-- Using others leaves them unused. -/
theorem Unused.book {w : FundingWatch} (h : Unused w rows) {new : List FundingLine}
    (hnodup : (new.map (·.id)).Nodup) (hothers : ∀ l ∈ new, l.id ∉ rows.map (·.id)) :
    Unused (w.book new) rows := by
  intro l hl
  rw [Bool.eq_false_iff]
  intro hused
  rcases (contains_book w hnodup l).mp hused with hnew | hold
  · obtain ⟨l', hl', hid⟩ := List.mem_map.mp hnew
    exact hothers l' hl' (List.mem_map.mpr ⟨l, hl, hid.symm⟩)
  · rw [h l hl] at hold
    cases hold

variable {rates : List SettledRate} {lines unique : List FundingLine} {nowMs : Int64}
  {booked : List (Int64 × Int64 × Cash)}

/-- The rows of the settlement, among those that are shown. -/
theorem near_eq (hrows : Rows booked lines unique) (hown : OwnRows p.atMs rows)
    (hshows : Shows p.atMs rows (.resolve rates lines nowMs)) :
    unique.filter (fun l => SameSettlement l.timeMs p.atMs) = rows.filter (· ∈ lines) := by
  refine eq_of_mem_iff (hrows.sorted.filter _) (hown.sorted.filter _) fun l => ?_
  rw [List.mem_filter, List.mem_filter, hrows.mem]
  constructor
  · rintro ⟨hl, hnear⟩
    exact ⟨hshows.near l hl (of_decide_eq_true hnear), decide_eq_true hl⟩
  · rintro ⟨hl, hshown⟩
    exact ⟨of_decide_eq_true hshown, decide_eq_true (hown.near l hl)⟩

/-- **One settlement of a poll**: another leaves the rows unused, and so does this one
while it waits; this one is settled with all of them. -/
theorem resolveOne_whole {w : FundingWatch} (hunused : Unused w rows)
    (hinstrument : w.instrument = i) (hrows : Rows booked lines unique)
    (hown : OwnRows p.atMs rows) (hshows : Shows p.atMs rows (.resolve rates lines nowMs))
    (hwhole : Whole i p rows (.resolve rates lines nowMs)) {q : Pending} (hq : IsOf p q)
    (halone : Alone p rows q.atMs) :
    (∃ w', resolveOne rates unique nowMs w q = (w', none) ∧ Same w w' ∧ Unused w' rows ∧
      w'.pending = w.pending ++ [q.kept nowMs]) ∨
    ∃ w' s, resolveOne rates unique nowMs w q = (w', some s) ∧ Same w w' ∧ s.atMs = q.atMs ∧
      w'.pending = w.pending ∧ (q.atMs ≠ p.atMs → Unused w' rows) ∧
      (q.atMs = p.atMs → s.lines = rows ∧ s.venue = charged rows) := by
  rcases resolveOne_cases rates unique nowMs w q with
    ⟨w', hone, hwaits⟩ | ⟨w', s, hone, hsettles⟩
  · exact .inl ⟨w', hone, hwaits.toSame, hunused.congr hwaits.bookedLines, hwaits.pending⟩
  refine .inr ⟨w', s, hone, hsettles.toSame, hsettles.atMs, hsettles.pending, fun hother => ?_,
    fun hthis => ?_⟩
  · refine (hunused.book ?_ fun l hl hid => ?_).congr hsettles.bookedLines
    · rw [hsettles.lines]
      exact (List.filter_sublist.map _).nodup hrows.nodup
    · rw [hsettles.lines, List.mem_filter, hrows.mem] at hl
      exact halone hother l (hshows.same l hl.1 hid) (of_decide_eq_true hl.2)
  · have hlines := hsettles.lines
    rw [hthis, near_eq hrows hown hshows] at hlines
    obtain ⟨rate, expected, hrate, hexpected, hnone⟩ := hsettles.rate
    rw [hthis] at hrate
    rw [hinstrument, (hq hthis).1] at hexpected
    have hall := hwhole ⟨rate, expected, hrate, hexpected, fun h => hnone (hlines.trans h)⟩
    rw [List.filter_eq_self.mpr fun l hl => decide_eq_true (hall l hl)] at hlines
    exact ⟨hlines, by rw [hsettles.venue, hlines]⟩

/-- Only pending settlements are settled. -/
theorem mem_of_resolveAll {w : FundingWatch} {ps : List Pending} {s : Settled}
    (hs : s ∈ (resolveAll rates unique nowMs w ps).2) : s.atMs ∈ ps.map (·.atMs) := by
  induction ps generalizing w with
  | nil => exact absurd hs List.not_mem_nil
  | cons q ps ih =>
    rw [resolveAll] at hs
    rcases resolveOne_cases rates unique nowMs w q with
      ⟨w', hone, -⟩ | ⟨w', s', hone, hsettles⟩
    · rw [hone] at hs
      exact List.mem_cons_of_mem _ (ih hs)
    · rw [hone] at hs
      rcases List.mem_cons.mp hs with rfl | hs
      · rw [hsettles.atMs]
        exact List.mem_cons_self
      · exact List.mem_cons_of_mem _ (ih hs)

/-- Only pending settlements go on waiting. -/
theorem mem_pending_of_resolveAll {w : FundingWatch} {ps : List Pending} {q : Pending}
    (hq : q ∈ (resolveAll rates unique nowMs w ps).1.pending) :
    q ∈ w.pending ∨ ∃ q' ∈ ps, q = q'.kept nowMs := by
  induction ps generalizing w with
  | nil => exact .inl hq
  | cons q' ps ih =>
    rw [resolveAll] at hq
    rcases resolveOne_cases rates unique nowMs w q' with
      ⟨w', hone, hwaits⟩ | ⟨w', s, hone, hsettles⟩
    · rw [hone] at hq
      rcases ih hq with hq | ⟨q'', hq'', rfl⟩
      · rw [hwaits.pending, List.mem_append, List.mem_singleton] at hq
        rcases hq with hq | rfl
        · exact .inl hq
        · exact .inr ⟨q', List.mem_cons_self, rfl⟩
      · exact .inr ⟨q'', List.mem_cons_of_mem _ hq'', rfl⟩
    · rw [hone] at hq
      rcases ih hq with hq | ⟨q'', hq'', rfl⟩
      · exact .inl (hsettles.pending ▸ hq)
      · exact .inr ⟨q'', List.mem_cons_of_mem _ hq'', rfl⟩

/-- **A poll**: what is settled of the settlement has all the rows, and where nothing is,
they are unused. -/
theorem resolveAll_whole {w : FundingWatch} (hunused : Unused w rows)
    (hinstrument : w.instrument = i) (hrows : Rows booked lines unique)
    (hown : OwnRows p.atMs rows) (hshows : Shows p.atMs rows (.resolve rates lines nowMs))
    (hwhole : Whole i p rows (.resolve rates lines nowMs)) {ps : List Pending}
    (hps : ∀ q ∈ ps, IsOf p q ∧ Alone p rows q.atMs) (hnodup : (ps.map (·.atMs)).Nodup) :
    (∀ s ∈ (resolveAll rates unique nowMs w ps).2, s.atMs = p.atMs →
      s.lines = rows ∧ s.venue = charged rows) ∧
    ((∀ s ∈ (resolveAll rates unique nowMs w ps).2, s.atMs ≠ p.atMs) →
      Unused (resolveAll rates unique nowMs w ps).1 rows) := by
  induction ps generalizing w with
  | nil => exact ⟨fun _ hs => absurd hs List.not_mem_nil, fun _ => hunused⟩
  | cons q ps ih =>
    obtain ⟨hq, halone⟩ := hps q List.mem_cons_self
    have hrest : ∀ q ∈ ps, IsOf p q ∧ Alone p rows q.atMs :=
      fun q hq => hps q (List.mem_cons_of_mem _ hq)
    obtain ⟨hnew, hnodup⟩ := List.nodup_cons.mp hnodup
    rw [resolveAll]
    rcases resolveOne_whole hunused hinstrument hrows hown hshows hwhole hq halone with
      ⟨w', hone, hsame, hkept, -⟩ | ⟨w', s, hone, hsame, hat, -, hother, hthis⟩
    · rw [hone]
      exact ih hkept (hsame.instrument.trans hinstrument) hrest hnodup
    · rw [hone]
      simp only [Option.toList_some, List.singleton_append, List.forall_mem_cons]
      by_cases hp : q.atMs = p.atMs
      · -- behind it there is no settlement at this time
        have hbehind : ∀ s' ∈ (resolveAll rates unique nowMs w' ps).2, s'.atMs ≠ p.atMs := by
          intro s' hs' heq
          have hmem := mem_of_resolveAll hs'
          rw [heq, ← hp] at hmem
          exact hnew hmem
        refine ⟨⟨fun _ => hthis hp, fun s' hs' heq => absurd heq (hbehind s' hs')⟩, fun hnone => ?_⟩
        exact absurd (hat.trans hp) hnone.1
      · obtain ⟨hall, hunused⟩ :=
          ih (hother hp) (hsame.instrument.trans hinstrument) hrest hnodup
        exact ⟨⟨fun heq => absurd (hat.symm.trans heq) hp, hall⟩, fun hnone => hunused hnone.2⟩

/-- The venue's answer is complete: a rate both books' legs are charged by. -/
def Answered (i : Instrument) (p : Pending) (rates : List SettledRate) : Prop :=
  ∃ rate expected model, rates.find? (fun r => SameSettlement r.timeMs p.atMs) = some rate ∧
    chargeLegs i p.live rate.rate rate.mark = some expected ∧
    chargeLegs i p.model rate.rate rate.mark = some model

/-- Such a settlement, with a row that is shown, does not wait. -/
theorem resolveOne_answered (nowMs : Int64) {w : FundingWatch} {q : Pending}
    (hanswered : Answered w.instrument q rates)
    (hfresh : ∀ l ∈ unique, SameSettlement l.timeMs q.atMs → contains w.bookedLines l = false)
    (hline : ∃ l ∈ unique, SameSettlement l.timeMs q.atMs) :
    ∃ w' s, resolveOne rates unique nowMs w q = (w', some s) ∧ s.atMs = q.atMs := by
  obtain ⟨rate, expected, model, hrate, hexpected, hmodel⟩ := hanswered
  obtain ⟨l, hl, hnear⟩ := hline
  have hnew : ¬ (unique.filter (fun l => SameSettlement l.timeMs q.atMs)).any
      (contains w.bookedLines) = true := by
    simpa using hfresh
  have hsome : ¬ ((unique.filter (fun l => SameSettlement l.timeMs q.atMs)).isEmpty = true ∧
      expected ≠ 0) := by
    rintro ⟨hempty, -⟩
    exact List.ne_nil_of_mem (List.mem_filter.mpr ⟨hl, decide_eq_true hnear⟩)
      (List.isEmpty_iff.mp hempty)
  unfold resolveOne
  simp only [if_neg hnew, hrate, hexpected, hmodel, if_neg hsome]
  exact ⟨_, _, rfl, rfl⟩

/-- **A poll that shows all of it** settles it. -/
theorem resolveAll_answered (nowMs : Int64) {w : FundingWatch} (hunused : Unused w rows)
    (hinstrument : w.instrument = i) (hrows : Rows booked lines unique)
    (hown : OwnRows p.atMs rows) (hshows : Shows p.atMs rows (.resolve rates lines nowMs))
    (hall : ∀ l ∈ rows, l ∈ lines) (hsome : rows ≠ []) (hanswered : Answered i p rates)
    {ps : List Pending} (hps : ∀ q ∈ ps, IsOf p q ∧ Alone p rows q.atMs)
    (hp : p.atMs ∈ ps.map (·.atMs)) :
    ∃ s ∈ (resolveAll rates unique nowMs w ps).2, s.atMs = p.atMs := by
  induction ps generalizing w with
  | nil => exact absurd hp List.not_mem_nil
  | cons q ps ih =>
    obtain ⟨hq, halone⟩ := hps q List.mem_cons_self
    have hrest : ∀ q ∈ ps, IsOf p q ∧ Alone p rows q.atMs :=
      fun q hq => hps q (List.mem_cons_of_mem _ hq)
    rw [resolveAll]
    by_cases hthis : q.atMs = p.atMs
    · have hanswered : Answered w.instrument q rates := by
        rw [hinstrument, Answered, hthis, (hq hthis).1, (hq hthis).2]
        exact hanswered
      obtain ⟨l, hl⟩ := List.exists_mem_of_ne_nil rows hsome
      obtain ⟨w', s, hone, hat⟩ := resolveOne_answered nowMs hanswered
        (fun l hl hnear => hunused l (hshows.near l ((hrows.mem l).mp hl) (hthis ▸ hnear)))
        ⟨l, (hrows.mem l).mpr (hall l hl), hthis ▸ hown.near l hl⟩
      rw [hone]
      exact ⟨s, List.mem_cons_self, hat.trans hthis⟩
    · have hp : p.atMs ∈ ps.map (·.atMs) := by
        rcases List.mem_cons.mp hp with heq | hp
        · exact absurd heq.symm hthis
        · exact hp
      rcases resolveOne_whole hunused hinstrument hrows hown hshows (fun _ => hall) hq halone with
        ⟨w', hone, hsame, hkept, -⟩ | ⟨w', s, hone, hsame, -, -, hother, -⟩
      · rw [hone]
        exact ih hkept (hsame.instrument.trans hinstrument) hrest hp
      · rw [hone]
        obtain ⟨s', hs', hat⟩ := ih (hother hthis) (hsame.instrument.trans hinstrument) hrest hp
        exact ⟨s', List.mem_cons_of_mem _ hs', hat⟩

end Poll

/-! ## Runs -/

/-- **What is known of a settlement** the clock has passed: while it waits its rows are
unused, and it was settled with all of them. -/
structure Awaits (i : Instrument) (p : Pending) (rows : List FundingLine) (t : Trace) : Prop where
  crossed : p.atMs ∈ t.crossed
  instrument : t.watch.instrument = i
  isOf : ∀ q ∈ t.watch.pending, IsOf p q
  unused : p.atMs ∈ t.watch.pending.map (·.atMs) → Unused t.watch rows
  settled : ∀ s ∈ t.settled, s.atMs = p.atMs → s.lines = rows ∧ s.venue = charged rows

section Runs

variable {i : Instrument} {p : Pending} {rows : List FundingLine} {t : Trace} {clock : Int64}

/-- The settlements that are pending or were returned are different ones. -/
theorem Crossed.nodup (h : Crossed t clock) :
    (t.watch.pending.map (·.atMs) ++ t.settled.map (·.atMs)).Nodup :=
  h.perm.nodup_iff.mp (h.rises.imp fun hlt => by rintro rfl; exact Int64.lt_irrefl hlt)

/-- The watch did something that is not about settlements, and uses no row of it. -/
theorem Awaits.congr (h : Awaits i p rows t) {w' : FundingWatch} {recovered : List Recovered}
    (hinstrument : w'.instrument = t.watch.instrument) (hpending : w'.pending = t.watch.pending)
    (hunused : p.atMs ∈ t.watch.pending.map (·.atMs) → Unused w' rows) :
    Awaits i p rows { t with watch := w', recovered := recovered } where
  crossed := h.crossed
  instrument := hinstrument.trans h.instrument
  isOf q hq := h.isOf q (hpending ▸ hq)
  unused hp := hunused (hpending ▸ hp)
  settled := h.settled

theorem Awaits.onTime (h : Awaits i p rows t) (hcrossed : Crossed t clock) (nowMs : Int64)
    (live model : Legs) (next : Option Int64) :
    Awaits i p rows (t.step (.onTime nowMs live model next)) := by
  simp only [Trace.step, crossing]
  rcases onTime_cases (w := t.watch) nowMs live model next with
    ⟨hnone, htime⟩ | ⟨at_, hat, hshort, htime⟩ | ⟨at_, hat, hpassed, hmore⟩
  · rw [htime, hnone, beginScheduleGap_eq]
    simp only [Option.filter_none, Option.toList_none, List.append_nil]
    exact h.congr rfl rfl h.unused
  · have hnot : ¬ at_ ≤ nowMs := Int64.not_le.mpr hshort
    rw [htime, hat]
    simpa [Option.filter, hnot] using h
  · -- a settlement that was passed before is not passed now
    have hother : at_ ≠ p.atMs := by
      rintro rfl
      exact Int64.lt_irrefl (hcrossed.next _ hat _ h.crossed)
    have hall : ∀ w', w'.instrument = t.watch.instrument →
        w'.pending = t.watch.pending ++ [⟨at_, live, model, false⟩] →
        w'.bookedLines = t.watch.bookedLines →
        Awaits i p rows { t with
          watch := w'
          crossed := t.crossed ++ ((t.watch.nextMs.filter (· ≤ nowMs)).toList) } := by
      intro w' hinstrument hpending hbooked
      refine ⟨List.mem_append_left _ h.crossed, hinstrument.trans h.instrument, ?_, ?_, h.settled⟩
      · intro q hq
        rw [hpending] at hq
        rcases List.mem_append.mp hq with hq | hq
        · exact h.isOf q hq
        · rw [List.mem_singleton.mp hq]
          exact fun heq => absurd heq hother
      · intro hp
        rw [hpending, List.map_append, List.mem_append] at hp
        rcases hp with hp | hp
        · exact (h.unused hp).congr hbooked
        · exact absurd (List.mem_singleton.mp hp).symm hother
    rcases hmore with ⟨n, -, -, htime⟩ | ⟨why, htime⟩
    · rw [htime]
      exact hall _ rfl rfl rfl
    · rw [htime]
      exact hall _ rfl rfl rfl

theorem Awaits.rediscover (h : Awaits i p rows t) (nowMs : Int64)
    (next : Except String (Option Int64)) :
    Awaits i p rows (t.step (.rediscover nowMs next)) := by
  simp only [Trace.step]
  rcases rediscoverSchedule_cases (w := t.watch) nowMs next with
    ⟨-, hschedule⟩ | ⟨-, hschedule | ⟨n, -, -, hschedule⟩⟩
  · rwa [hschedule]
  · rw [hschedule, beginScheduleGap_eq]
    exact h.congr rfl rfl h.unused
  · rw [hschedule]
    exact h.congr rfl rfl h.unused

theorem Awaits.resolve (h : Awaits i p rows t) (hcrossed : Crossed t clock)
    {rates : List SettledRate} {lines : List FundingLine} {nowMs : Int64}
    (hafter : Crossed (t.step (.resolve rates lines nowMs)) nowMs)
    (hown : OwnRows p.atMs rows) (hshows : Shows p.atMs rows (.resolve rates lines nowMs))
    (hwhole : Whole i p rows (.resolve rates lines nowMs))
    (halone : ∀ c ∈ t.crossed, Alone p rows c) :
    Awaits i p rows (t.step (.resolve rates lines nowMs)) := by
  simp only [Trace.step] at hafter ⊢
  rcases resolve_cases t.watch rates lines nowMs with ⟨why, hresolve⟩ | ⟨unique, hrows, hresolve⟩
  · rw [hresolve]
    simp only [List.append_nil]
    exact h.congr rfl rfl h.unused
  rw [hresolve] at hafter ⊢
  have hnodup := hcrossed.nodup
  have hps : ∀ q ∈ t.watch.pending, IsOf p q ∧ Alone p rows q.atMs := fun q hq =>
    ⟨h.isOf q hq, halone q.atMs
      (hcrossed.perm.mem_iff.mpr (List.mem_append_left _ (List.mem_map_of_mem hq)))⟩
  have hisOf : ∀ q ∈ (resolveAll rates unique nowMs { t.watch with pending := [] }
      t.watch.pending).1.pending, IsOf p q := by
    intro q hq
    rcases mem_pending_of_resolveAll hq with hq | ⟨q', hq', rfl⟩
    · exact absurd hq List.not_mem_nil
    · exact (h.isOf q' hq').kept nowMs
  have hinstrument := (resolveAll_same rates unique nowMs
    { t.watch with pending := [] } t.watch.pending).instrument
  by_cases hp : p.atMs ∈ t.watch.pending.map (·.atMs)
  · obtain ⟨hsettled, hunused⟩ := resolveAll_whole (w := { t.watch with pending := [] })
      ((h.unused hp).congr rfl) h.instrument hrows hown hshows hwhole hps
      (List.nodup_append.mp hnodup).1
    refine ⟨h.crossed, hinstrument.trans h.instrument, hisOf, fun hstill => ?_, ?_⟩
    · refine hunused fun s hs heq => ?_
      have hdisjoint := (List.nodup_append.mp hafter.nodup).2.2
      exact hdisjoint _ hstill s.atMs
        (List.mem_map_of_mem (List.mem_append_right _ hs)) heq.symm
    · intro s hs
      rcases List.mem_append.mp hs with hs | hs
      · exact h.settled s hs
      · exact hsettled s hs
  · -- settled before: it is neither settled nor pending again
    refine ⟨h.crossed, hinstrument.trans h.instrument, hisOf, fun hstill => ?_, ?_⟩
    · obtain ⟨q, hq, hat⟩ := List.mem_map.mp hstill
      rcases mem_pending_of_resolveAll hq with hq | ⟨q', hq', rfl⟩
      · exact absurd hq List.not_mem_nil
      · exact absurd (List.mem_map.mpr ⟨q', hq', hat⟩) hp
    · intro s hs heq
      rcases List.mem_append.mp hs with hs | hs
      · exact h.settled s hs heq
      · exact absurd (heq ▸ mem_of_resolveAll hs) hp

theorem Awaits.recover (h : Awaits i p rows t) {lines : List FundingLine} {nowMs : Int64}
    (hown : OwnRows p.atMs rows) (hshows : Shows p.atMs rows (.recover lines nowMs)) :
    Awaits i p rows (t.step (.recover lines nowMs)) := by
  simp only [Trace.step]
  rcases recoverUnknown_cases t.watch lines nowMs with
    ⟨problem, -, hrecover⟩ | ⟨sinceMs, unique, recovered, -, hrows, hperm, hrecover⟩
  · rw [hrecover]
    exact h.congr rfl rfl fun hp => (h.unused hp).congr rfl
  rw [hrecover]
  refine h.congr rfl rfl fun hp => (h.unused hp).book ?_ fun l hl hid => ?_
  · exact ((hperm.map _).nodup_iff).mpr ((List.filter_sublist.map _).nodup hrows.nodup)
  · -- a row of a pending settlement is not recovered
    obtain ⟨q, hq, hat⟩ := List.mem_map.mp hp
    obtain ⟨hmem, hunknown⟩ := List.mem_filter.mp (hperm.mem_iff.mp hl)
    have hnear := hown.near l (hshows.same l ((hrows.mem l).mp hmem) hid)
    simp only [unknownLine, Bool.and_eq_true, Bool.not_eq_true', List.any_eq_false,
      decide_eq_true_eq] at hunknown
    exact hunknown.2 q hq (hat ▸ hnear)

/-- Step. -/
theorem Awaits.step (h : Awaits i p rows t) (hcrossed : Crossed t clock) {op : Op}
    (hle : clock ≤ op.nowMs) (hown : OwnRows p.atMs rows) (hshows : Shows p.atMs rows op)
    (hwhole : Whole i p rows op) (halone : ∀ c ∈ t.crossed, Alone p rows c) :
    Awaits i p rows (t.step op) := by
  cases op with
  | onTime nowMs live model next => exact h.onTime hcrossed nowMs live model next
  | rediscover nowMs next => exact h.rediscover nowMs next
  | resolve rates lines nowMs =>
    exact h.resolve hcrossed (hcrossed.step hle) hown hshows hwhole halone
  | recover lines nowMs => exact h.recover hown hshows

/-- What was crossed stays so. -/
theorem crossed_step (t : Trace) (op : Op) : ∀ c ∈ t.crossed, c ∈ (t.step op).crossed := by
  cases op with
  | onTime nowMs live model next => exact fun c hc => List.mem_append_left _ hc
  | rediscover nowMs next => exact fun c hc => hc
  | resolve rates lines nowMs => exact fun c hc => hc
  | recover lines nowMs => exact fun c hc => hc

theorem crossed_run (t : Trace) (ops : List Op) : ∀ c ∈ t.crossed, c ∈ (t.run ops).crossed := by
  induction ops generalizing t with
  | nil => exact fun c hc => hc
  | cons op ops ih => exact fun c hc => ih (t.step op) c (crossed_step t op c hc)

/-- **The run lemma.** -/
theorem Awaits.run {ops : List Op} (h : Awaits i p rows t) (hcrossed : Crossed t clock)
    (htimes : (clock :: ops.map Op.nowMs).Pairwise (· ≤ ·)) (hown : OwnRows p.atMs rows)
    (hshows : ∀ op ∈ ops, Shows p.atMs rows op) (hwhole : ∀ op ∈ ops, Whole i p rows op)
    (halone : ∀ c ∈ (t.run ops).crossed, Alone p rows c) : Awaits i p rows (t.run ops) := by
  induction ops generalizing t clock with
  | nil => exact h
  | cons op ops ih =>
    obtain ⟨hclock, hrest⟩ := List.pairwise_cons.mp htimes
    have hle : clock ≤ op.nowMs := hclock _ List.mem_cons_self
    rw [List.forall_mem_cons] at hshows hwhole
    have hstep := h.step hcrossed hle hown hshows.1 hwhole.1
      fun c hc => halone c (crossed_run t (op :: ops) c hc)
    exact ih hstep (hcrossed.step hle) hrest hshows.2 hwhole.2 halone

/-- What was booked for the settlement, by where it is. -/
theorem Awaits.bookedAt (h : Awaits i p rows t) (hcrossed : Crossed t clock)
    (hfits : SumsFit rows) :
    t.bookedAt p.atMs = if p.atMs ∈ t.watch.pending.map (·.atMs) then 0
      else (rows.map (·.amount.toInt)).sum := by
  obtain ⟨-, hnodup, hdisjoint⟩ := List.nodup_append.mp hcrossed.nodup
  unfold Trace.bookedAt
  split
  · rename_i hp
    have hnone : t.settled.filter (·.atMs = p.atMs) = [] := by
      rw [List.filter_eq_nil_iff]
      intro s hs heq
      exact hdisjoint _ hp s.atMs (List.mem_map_of_mem hs) (of_decide_eq_true heq).symm
    rw [hnone]
    rfl
  · rename_i hp
    have hmem : p.atMs ∈ t.settled.map (·.atMs) := by
      rcases List.mem_append.mp (hcrossed.perm.mem_iff.mp h.crossed) with hpending | hsettled
      · exact absurd hpending hp
      · exact hsettled
    obtain ⟨s, hs, hat⟩ := List.mem_map.mp hmem
    have hone : t.settled.filter (·.atMs = p.atMs) = [s] := by
      rw [← hat]
      exact filter_key_eq Settled.atMs hnodup hs
    rw [hone, List.map_singleton, List.sum_singleton, (h.settled s hs hat).2, toInt_charged hfits]

/-- Where it was settled, it does not wait. -/
theorem Crossed.not_pending (h : Crossed t clock) {s : Settled} (hs : s ∈ t.settled) :
    s.atMs ∉ t.watch.pending.map (·.atMs) := by
  intro hp
  exact (List.nodup_append.mp h.nodup).2.2 _ hp s.atMs (List.mem_map_of_mem hs) rfl

/-- None of its rows is recovered besides. -/
theorem Awaits.recovered (h : Awaits i p rows t) (hcrossed : Crossed t clock)
    (hused : Used t.watch t.lines) : ∀ r ∈ t.recovered, ∀ l ∈ r.lines, l ∉ rows := by
  intro r hr l hl hmine
  have hrecovered : l ∈ t.recovered.flatMap (·.lines) := List.mem_flatMap.mpr ⟨r, hr, hl⟩
  rcases List.mem_append.mp (hcrossed.perm.mem_iff.mp h.crossed) with hpending | hsettled
  · have hunused := h.unused hpending l hmine
    rw [contains, hused.known l (List.mem_append_right _ hrecovered)] at hunused
    cases hunused
  · -- it was returned when the settlement was
    obtain ⟨s, hs, hat⟩ := List.mem_map.mp hsettled
    have hbooked : l ∈ t.settled.flatMap (·.lines) := by
      refine List.mem_flatMap.mpr ⟨s, hs, ?_⟩
      rw [(h.settled s hs hat).1]
      exact hmine
    have hnodup := hused.nodup
    rw [Trace.lines, List.map_append, List.nodup_append] at hnodup
    exact hnodup.2.2 _ (List.mem_map_of_mem hbooked) _ (List.mem_map_of_mem hrecovered) rfl

/-- A settlement that has just been passed. -/
theorem Awaits.of_pending (hcrossed : Crossed t clock) (hp : p ∈ t.watch.pending)
    (hunused : Unused t.watch rows) : Awaits t.watch.instrument p rows t := by
  obtain ⟨hnodup, -, -⟩ := List.nodup_append.mp hcrossed.nodup
  have hmem : p.atMs ∈ t.watch.pending.map (·.atMs) := List.mem_map_of_mem hp
  refine ⟨hcrossed.perm.mem_iff.mpr (List.mem_append_left _ hmem), rfl, fun q hq hat => ?_,
    fun _ => hunused, fun s hs hat => ?_⟩
  · rw [List.inj_on_of_nodup_map hnodup hq hp hat]
    exact ⟨rfl, rfl⟩
  · exact absurd (hat ▸ hmem) (hcrossed.not_pending hs)

/-- After a poll that shows all of it, it was settled. -/
theorem Awaits.answered (h : Awaits i p rows t) (hcrossed : Crossed t clock)
    {rates : List SettledRate} {lines : List FundingLine} (nowMs : Int64)
    {unique : List FundingLine} (hown : OwnRows p.atMs rows)
    (hshows : Shows p.atMs rows (.resolve rates lines nowMs))
    (halone : ∀ c ∈ t.crossed, Alone p rows c) (hall : ∀ l ∈ rows, l ∈ lines)
    (hsome : rows ≠ []) (hanswered : Answered i p rates)
    (htaken : t.watch.uniqueLines (identity "ledger" "changed after booking")
      (identity "ledger" "has conflicting evidence") lines = .ok unique) :
    ∃ s ∈ (t.step (.resolve rates lines nowMs)).settled, s.atMs = p.atMs := by
  simp only [Trace.step, FundingWatch.resolve, htaken, List.mem_append]
  rcases List.mem_append.mp (hcrossed.perm.mem_iff.mp h.crossed) with hpending | hsettled
  · have hps : ∀ q ∈ t.watch.pending, IsOf p q ∧ Alone p rows q.atMs := fun q hq =>
      ⟨h.isOf q hq, halone q.atMs
        (hcrossed.perm.mem_iff.mpr (List.mem_append_left _ (List.mem_map_of_mem hq)))⟩
    obtain ⟨s, hs, hat⟩ := resolveAll_answered nowMs (w := { t.watch with pending := [] })
      ((h.unused hpending).congr rfl) h.instrument (rows_of_uniqueLines htaken) hown hshows hall
      hsome hanswered hps hpending
    exact ⟨s, .inr hs, hat⟩
  · obtain ⟨s, hs, hat⟩ := List.mem_map.mp hsettled
    exact ⟨s, .inl hs, hat⟩

end Runs

/-- Runs one after the other. -/
theorem run_append (t : Trace) (before after : List Op) :
    t.run (before ++ after) = (t.run before).run after :=
  List.foldl_append

/-- The contract stays the same. -/
theorem instrument_step (t : Trace) (op : Op) :
    (t.step op).watch.instrument = t.watch.instrument := by
  cases op with
  | onTime nowMs live model next =>
    show (t.watch.onTime nowMs live model next).instrument = _
    rcases onTime_cases (w := t.watch) nowMs live model next with
      ⟨-, htime⟩ | ⟨_, -, -, htime⟩ | ⟨_, -, -, ⟨_, -, -, htime⟩ | ⟨_, htime⟩⟩
    · rw [htime, beginScheduleGap_eq]
    all_goals rw [htime]
  | rediscover nowMs next =>
    show (t.watch.rediscoverSchedule nowMs next).instrument = _
    rcases rediscoverSchedule_cases (w := t.watch) nowMs next with
      ⟨-, hschedule⟩ | ⟨-, hschedule | ⟨_, -, -, hschedule⟩⟩
    · rw [hschedule]
    · rw [hschedule, beginScheduleGap_eq]
    · rw [hschedule]
  | resolve rates lines nowMs =>
    show (t.watch.resolve rates lines nowMs).1.instrument = _
    rcases resolve_cases t.watch rates lines nowMs with ⟨why, hresolve⟩ | ⟨unique, -, hresolve⟩
    · rw [hresolve]
    · rw [hresolve, (resolveAll_same _ _ _ _ _).instrument]
  | recover lines nowMs =>
    show (t.watch.recoverUnknown lines nowMs).1.instrument = _
    rcases recoverUnknown_cases t.watch lines nowMs with
      ⟨problem, -, hrecover⟩ | ⟨sinceMs, unique, recovered, -, -, -, hrecover⟩
    · rw [hrecover]
    · rw [hrecover]
      rfl

theorem instrument_run (t : Trace) (ops : List Op) :
    (t.run ops).watch.instrument = t.watch.instrument := by
  induction ops generalizing t with
  | nil => rfl
  | cons op ops ih => exact (ih (t.step op)).trans (instrument_step t op)

/-- **A settlement whose rows are all there when it is settled is booked whole.**  In a
run in which a settlement is pending after `before` and none of its rows was used, what
was booked for it is nothing while it waits and the sum of its rows afterwards, none of
its rows is recovered besides, and a poll that shows them all ends its waiting: if every
poll of `after` that can settle it shows all its rows, and their sums stay in an `i64`. -/
theorem booked_whole (i : Instrument) (next : Except String (Option Int64))
    (before after : List Op) (p : Pending) (rows : List FundingLine)
    (htimes : ((before ++ after).map Op.nowMs).Pairwise (· ≤ ·))
    (hp : p ∈ ((Trace.start (new i next)).run before).watch.pending)
    (hunused : Unused ((Trace.start (new i next)).run before).watch rows)
    (hown : OwnRows p.atMs rows) (hshows : ∀ op ∈ after, Shows p.atMs rows op)
    (halone : ∀ c ∈ ((Trace.start (new i next)).run (before ++ after)).crossed, Alone p rows c)
    (hwhole : ∀ op ∈ after, Whole i p rows op) (hfits : SumsFit rows) :
    let t := (Trace.start (new i next)).run (before ++ after)
    (t.bookedAt p.atMs = if p.atMs ∈ t.watch.pending.map (·.atMs) then 0
        else (rows.map (·.amount.toInt)).sum) ∧
      (∀ r ∈ t.recovered, ∀ l ∈ r.lines, l ∉ rows) ∧
      ∀ more rates lines nowMs unique, after = more ++ [.resolve rates lines nowMs] →
        (∀ l ∈ rows, l ∈ lines) → Answered i p rates →
        ((Trace.start (new i next)).run (before ++ more)).watch.uniqueLines
            (identity "ledger" "changed after booking")
            (identity "ledger" "has conflicting evidence") lines = .ok unique →
        t.bookedAt p.atMs = (rows.map (·.amount.toInt)).sum := by
  intro t
  -- what holds after any of the polls
  have hafter : ∀ ops, ops <+: after →
      (∃ clock, Booked ((Trace.start (new i next)).run (before ++ ops)) clock) ∧
        Awaits i p rows ((Trace.start (new i next)).run (before ++ ops)) := by
    rintro ops ⟨rest, rfl⟩
    rw [← List.append_assoc] at htimes halone
    have htimes : ((before ++ ops).map Op.nowMs).Pairwise (· ≤ ·) := by
      rw [List.map_append] at htimes
      exact (List.pairwise_append.mp htimes).1
    have hbefore : ((before).map Op.nowMs).Pairwise (· ≤ ·) := by
      rw [List.map_append] at htimes
      exact (List.pairwise_append.mp htimes).1
    refine ⟨⟨_, booked_run i next htimes⟩, ?_⟩
    have hcrossed := (booked_run i next hbefore).crossed
    have hawaits := Awaits.of_pending hcrossed hp hunused
    rw [instrument_run] at hawaits
    rw [run_append] at halone ⊢
    refine hawaits.run hcrossed (times_append (List.pairwise_cons.mpr
      ⟨fun _ _ => Int64.minValue_le _, htimes⟩)) hown
      (fun op hop => hshows op (List.mem_append_left _ hop))
      (fun op hop => hwhole op (List.mem_append_left _ hop)) fun c hc => halone c ?_
    rw [run_append] at halone
    exact crossed_run _ rest c (by rwa [run_append])
  obtain ⟨⟨clock, hbooked⟩, hawaits⟩ := hafter after (List.prefix_refl _)
  have hnow := hawaits.bookedAt hbooked.crossed hfits
  refine ⟨hnow, hawaits.recovered hbooked.crossed hbooked.used, ?_⟩
  rintro more rates lines nowMs unique rfl hall hanswered htaken
  by_cases hsome : rows = []
  · rw [hnow, hsome]
    split <;> rfl
  · obtain ⟨⟨clock', hbooked'⟩, hawaits'⟩ := hafter more (List.prefix_append _ _)
    have halone' : ∀ c ∈ ((Trace.start (new i next)).run (before ++ more)).crossed,
        Alone p rows c := by
      intro c hc
      refine halone c ?_
      rw [← List.append_assoc, run_append]
      exact crossed_run _ _ c hc
    obtain ⟨s, hs, hat⟩ := hawaits'.answered hbooked'.crossed nowMs hown
      (hshows _ (List.mem_append_right _ List.mem_cons_self)) halone' hall hsome hanswered htaken
    have hsettled : s ∈ t.settled := by
      show s ∈ ((Trace.start (new i next)).run (before ++ (more ++ [_]))).settled
      rw [← List.append_assoc, run_append]
      exact hs
    have hnot := hbooked.crossed.not_pending hsettled
    rw [hat] at hnot
    rw [hnow, if_neg hnot]

/-! ### Two legs -/

/-- A hedged account's rows, one for each leg. -/
def twoLegs : List FundingLine := [⟨7, 101, -6_071_554⟩, ⟨8, 102, 2_276_833⟩]

def hedgedRates : List SettledRate := [⟨101, "0.00008995", "84374.02268116"⟩]

/-- The clock passes the settlement. -/
def hedgedBefore : List Op := [.onTime 150 (8, -3) (8, -3) (some 28_800_000)]

/-- Nothing is published, then both rows. -/
def hedgedTogether : List Op := [.resolve hedgedRates [] 160, .resolve hedgedRates twoLegs 200]

/-- One row is published, then the other. -/
def hedgedApart : List Op :=
  [.resolve hedgedRates (twoLegs.take 1) 160, .resolve hedgedRates twoLegs 200,
    .recover twoLegs 200]

theorem hedged_expected :
    chargeLegs ⟨1, 3, 100_000_000⟩ (8, -3) "0.00008995" "84374.02268116" = some (-3_794_721) := by
  decide +kernel

theorem sumsFit_twoLegs : SumsFit twoLegs := by
  rintro (- | - | n)
  · decide
  · decide
  · rw [List.take_of_length_le (by simp [twoLegs])]
    decide

theorem ownRows_twoLegs : OwnRows 100 twoLegs := ⟨by decide, by decide⟩

theorem booked_whole_together :
    ((Trace.start (new ⟨1, 3, 100_000_000⟩ (.ok (some 100)))).run
      (hedgedBefore ++ hedgedTogether)).bookedAt 100 = -3_794_721 := by
  refine (booked_whole ⟨1, 3, 100_000_000⟩ (.ok (some 100)) hedgedBefore hedgedTogether
    ⟨100, (8, -3), (8, -3), false⟩ twoLegs (by decide) (by decide)
    (show ∀ l ∈ twoLegs, _ from by decide +kernel) ownRows_twoLegs ?_ ?_ ?_ sumsFit_twoLegs).2.2
      [.resolve hedgedRates [] 160] hedgedRates
      twoLegs 200 twoLegs rfl (by decide) ?_ (by decide +kernel)
  · rintro op hop
    rcases List.mem_pair.mp hop with rfl | rfl
    · exact ⟨by decide, by decide⟩
    · exact ⟨by decide, by decide⟩
  · have hcrossed : ((Trace.start (new ⟨1, 3, 100_000_000⟩ (.ok (some 100)))).run
        (hedgedBefore ++ hedgedTogether)).crossed = [100] := by decide +kernel
    intro c hc
    rw [hcrossed, List.mem_singleton] at hc
    exact fun hne => absurd hc hne
  · rintro op hop
    rcases List.mem_pair.mp hop with rfl | rfl
    · -- without a row the legs' charge is waited for
      rintro ⟨rate, expected, hrate, hexpected, hnone⟩
      obtain rfl : (⟨101, "0.00008995", "84374.02268116"⟩ : SettledRate) = rate :=
        Option.some.inj hrate
      rw [hedged_expected] at hexpected
      have hzero := hnone rfl
      rw [← Option.some.inj hexpected] at hzero
      exact absurd hzero (by decide)
    · exact fun _ => by decide
  · exact ⟨_, _, _, rfl, hedged_expected, hedged_expected⟩

theorem booked_whole_apart :
    OwnRows 100 twoLegs ∧ (∀ op ∈ hedgedApart, Shows 100 twoLegs op) ∧
      ((Trace.start (new ⟨1, 3, 100_000_000⟩ (.ok (some 100)))).run
        (hedgedBefore ++ hedgedApart)).watch.pending = [] ∧
      ((Trace.start (new ⟨1, 3, 100_000_000⟩ (.ok (some 100)))).run
        (hedgedBefore ++ hedgedApart)).recovered.length = 0 ∧
      ((Trace.start (new ⟨1, 3, 100_000_000⟩ (.ok (some 100)))).run
        (hedgedBefore ++ hedgedApart)).bookedAt 100 = -6_071_554 ∧
      (twoLegs.map (·.amount.toInt)).sum = -3_794_721 := by
  refine ⟨ownRows_twoLegs, ?_, by decide +kernel, by decide +kernel, by decide +kernel, by decide⟩
  simp only [hedgedApart, List.forall_mem_cons]
  refine ⟨⟨by decide, by decide⟩, ⟨by decide, by decide⟩, ⟨by decide, by decide⟩, ?_⟩
  exact fun op hop => absurd hop List.not_mem_nil

end FundingWatch
