/-
# Histories read by the page (`oq-gateway/src/binance.rs`)

A venue answers with its earliest rows from a time on, and says no more than
that a page was full.  Rows share a time, so the next page starts at the last
time read, not after it, and rows read twice are known by their identity.

What was in the history when the reading began is in the answer, whatever
arrives between the pages (`boundedTimeHistory_complete`); of a history that
stays, with few enough rows at one time, the answer is the whole
(`timePagedHistory_eq_filter`).
-/
import OpenQuanter.SortedAssoc

namespace Gateway

/-- Why a venue gives no answer. -/
inductive VenueError where
  /-- The request never completed. -/
  | transport (e : String)
  /-- The venue answered, and the answer was a refusal. -/
  | venue (status : UInt16) (body : String)
  /-- The venue answered with something that cannot be read. -/
  | malformed (what : String) (body : String)
  deriving DecidableEq, Repr

namespace History

variable {T : Type} [DecidableEq T] (id time : T → Int)

/-- The requests of one reading, at most. -/
def maxPages : Nat := 50

/-- The rows of one page, added to those kept by their identity. -/
def keep (start : Int) : List T → List (Int × T) → Except VenueError (List (Int × T))
  | [], out => .ok out
  | row :: rows, out =>
    if time row < start then
      .error (.malformed "history ignored the requested lower bound" (toString (id row)))
    else if (SortedAssoc.find (id row) out).any (· ≠ row) then
      .error (.malformed "history identity has conflicting evidence" (toString (id row)))
    else keep start rows (SortedAssoc.upsert (id row) (fun _ => row) row out)

/-- The order of the answer. -/
def notAfter (a b : T) : Bool := time a < time b || (time a = time b && id a ≤ id b)

/-- Read page after page. `fetch` is told how many pages were read before: what it answers is the
venue's, at that moment. -/
def readPages (fetch : Nat → Int → Except VenueError (List T × Bool)) :
    Nat → Nat → Int → List (Int × T) → Except VenueError (List T)
  | 0, _, _, out => .error (.malformed "history longer than the paging bound"
      (toString out.length ++ " identities read and more remain"))
  | left + 1, page, start, out =>
    match fetch page start with
    | .error e => .error e
    | .ok (rows, full) =>
      match keep id time start rows out with
      | .error e => .error e
      | .ok out =>
        if full = false then .ok ((out.map (·.2)).mergeSort (notAfter id time))
        else
          match (rows.map time).max?.filter (fun last => decide (start < last)) with
          | none => .error (.malformed
              "full history page cannot advance without losing boundary rows" (toString start))
          | some last => readPages fetch left (page + 1) last out

/-- Read a history from a time on, the boundaries of the pages included. -/
def timePagedHistory (sinceMs : Int) (fetch : Nat → Int → Except VenueError (List T × Bool)) :
    Except VenueError (List T) :=
  readPages id time fetch maxPages 0 sinceMs []

def weekMs : Int := 7 * 24 * 3600000

/-- The venue keeps a week. -/
def recentHistoryBounds (sinceMs throughMs observedMs : Int) : Except VenueError Unit :=
  if sinceMs < 0 ∨ sinceMs > throughMs ∨ throughMs > observedMs ∨
      sinceMs < max (-(2 ^ 63)) (observedMs - weekMs) then
    .error (.malformed "bounded history requires a retained closed interval in the last seven days"
      (toString sinceMs ++ "..=" ++ toString throughMs ++ " observed " ++ toString observedMs))
  else .ok ()

/-- A page of a reading with a fixed upper bound. -/
def boundedPage (throughMs : Int) (page : Except VenueError (List T × Bool)) :
    Except VenueError (List T × Bool) :=
  match page with
  | .error e => .error e
  | .ok (rows, full) =>
    if rows.any (fun row => throughMs < time row) then
      .error (.malformed "history ignored the fixed upper bound" (toString throughMs))
    else .ok (rows, full)

def boundedTimeHistory (sinceMs throughMs observedMs : Int)
    (fetch : Nat → Int → Int → Except VenueError (List T × Bool)) : Except VenueError (List T) :=
  match recentHistoryBounds sinceMs throughMs observedMs with
  | .error e => .error e
  | .ok () => timePagedHistory id time sinceMs fun page start =>
      boundedPage time throughMs (fetch page start throughMs)

/-! ## One page -/

/-- Rows kept by their identity. -/
structure Kept (out : List (Int × T)) : Prop where
  sorted : out.Pairwise (fun a b => a.1 < b.1)
  keyed : ∀ e ∈ out, e.1 = id e.2

variable {id time}

omit [DecidableEq T] in
theorem Kept.nil : Kept id ([] : List (Int × T)) :=
  ⟨List.Pairwise.nil, fun _ he => absurd he List.not_mem_nil⟩

omit [DecidableEq T] in
/-- A row is kept beside rows of other identities, or where it was. -/
theorem Kept.insert {out : List (Int × T)} (hout : Kept id out) {row : T}
    (hsame : ∀ v, SortedAssoc.find (id row) out = some v → v = row) :
    Kept id (SortedAssoc.upsert (id row) (fun _ => row) row out) ∧
      ∀ r, (id r, r) ∈ SortedAssoc.upsert (id row) (fun _ => row) row out ↔
        r = row ∨ (id r, r) ∈ out := by
  have hmem : ∀ {e : Int × T}, e ∈ SortedAssoc.upsert (id row) (fun _ => row) row out ↔
      e = (id row, row) ∨ e ∈ out := SortedAssoc.mem_upsert_iff hsame hout.sorted
  refine ⟨⟨SortedAssoc.pairwise_upsert _ _ _ hout.sorted, fun e he => ?_⟩, fun r => ?_⟩
  · rcases hmem.mp he with rfl | he
    · rfl
    · exact hout.keyed e he
  · have hpair : (id r, r) = (id row, row) ↔ r = row :=
      ⟨fun heq => congrArg Prod.snd heq, fun heq => by rw [heq]⟩
    rw [hmem, hpair]

/-- A page that is kept: nothing of it is before its start, and it is added to what was kept. -/
theorem keep_ok {start : Int} {rows : List T} {out out' : List (Int × T)} (hout : Kept id out)
    (h : keep id time start rows out = .ok out') :
    Kept id out' ∧ (∀ r ∈ rows, start ≤ time r) ∧
      ∀ r, (id r, r) ∈ out' ↔ r ∈ rows ∨ (id r, r) ∈ out := by
  induction rows generalizing out with
  | nil =>
    cases h
    exact ⟨hout, fun _ hr => absurd hr List.not_mem_nil, fun r => by simp⟩
  | cons row rows ih =>
    rw [keep, ite_eq_iff] at h
    rcases h with ⟨-, h⟩ | ⟨hstart, h⟩
    · cases h
    rw [ite_eq_iff] at h
    rcases h with ⟨-, h⟩ | ⟨hsame, h⟩
    · cases h
    have hrow : ∀ v, SortedAssoc.find (id row) out = some v → v = row := by
      intro v hv
      rw [hv] at hsame
      simpa using hsame
    obtain ⟨hkept, hmem⟩ := hout.insert hrow
    obtain ⟨hkept', htimes, hrows⟩ := ih hkept h
    refine ⟨hkept', List.forall_mem_cons.mpr ⟨not_lt.mp hstart, htimes⟩, fun r => ?_⟩
    rw [hrows, hmem, List.mem_cons]
    tauto

/-- A page is kept if its rows are not before its start and agree with what was kept. -/
theorem keep_isOk {start : Int} {rows : List T} {out : List (Int × T)} (hout : Kept id out)
    (hstart : ∀ r ∈ rows, start ≤ time r)
    (hagree : ∀ r ∈ rows, ∀ r', r' ∈ rows ∨ (id r', r') ∈ out → id r' = id r → r' = r) :
    ∃ out', keep id time start rows out = .ok out' := by
  induction rows generalizing out with
  | nil => exact ⟨out, rfl⟩
  | cons row rows ih =>
    have hrow : ∀ v, SortedAssoc.find (id row) out = some v → v = row := by
      intro v hv
      have hin := (SortedAssoc.find_eq_some_iff hout.sorted).mp hv
      have hid : id row = id v := hout.keyed _ hin
      rw [hid] at hin
      exact hagree row List.mem_cons_self v (Or.inr hin) hid.symm
    have hany : (SortedAssoc.find (id row) out).any (· ≠ row) = false := by
      cases hfind : SortedAssoc.find (id row) out with
      | none => rfl
      | some v => simpa using hrow v hfind
    obtain ⟨hkept, hmem⟩ := hout.insert hrow
    rw [keep, if_neg (not_lt.mpr (hstart row List.mem_cons_self)), hany]
    refine ih hkept (fun r hr => hstart r (List.mem_cons_of_mem _ hr)) fun r hr r' hr' hid => ?_
    refine hagree r (List.mem_cons_of_mem _ hr) r' ?_ hid
    rw [hmem] at hr'
    rw [List.mem_cons]
    tauto

/-! ## The order of the answer -/

omit [DecidableEq T] in
theorem notAfter_iff {a b : T} :
    notAfter id time a b = true ↔ time a < time b ∨ (time a = time b ∧ id a ≤ id b) := by
  simp [notAfter]

omit [DecidableEq T] in
/-- The answer has the rows that were kept, each once, by time and identity. -/
theorem sorted_answer {out : List (Int × T)} (hout : Kept id out) :
    ((out.map (·.2)).mergeSort (notAfter id time)).Pairwise (fun a b =>
        time a < time b ∨ (time a = time b ∧ id a < id b)) ∧
      ∀ r, r ∈ (out.map (·.2)).mergeSort (notAfter id time) ↔ (id r, r) ∈ out := by
  have hperm := List.mergeSort_perm (out.map (·.2)) (notAfter id time)
  have hpairs : out.Pairwise (fun a b => id a.2 ≠ id b.2) := by
    refine (List.pairwise_iff_forall_sublist.mpr fun {a b} hab => ?_)
    have hlt := List.pairwise_iff_forall_sublist.mp hout.sorted hab
    rw [hout.keyed a (hab.subset (by simp)), hout.keyed b (hab.subset (by simp))] at hlt
    exact hlt.ne
  have hids : ((out.map (·.2)).mergeSort (notAfter id time)).Pairwise (fun a b => id a ≠ id b) :=
    (hperm.pairwise_iff fun hne => hne.symm).mpr (List.pairwise_map.mpr hpairs)
  have hle : ((out.map (·.2)).mergeSort (notAfter id time)).Pairwise
      (fun a b => notAfter id time a b = true) := by
    refine List.pairwise_mergeSort (fun a b c hab hbc => ?_) (fun a b => ?_) _
    · rw [notAfter_iff] at hab hbc ⊢
      omega
    · rw [Bool.or_eq_true, notAfter_iff, notAfter_iff]
      omega
  refine ⟨(hle.and hids).imp fun {a b} hab => ?_, fun r => ?_⟩
  · have hab' := notAfter_iff.mp hab.1
    have hne := hab.2
    omega
  · rw [hperm.mem_iff, List.mem_map]
    constructor
    · rintro ⟨e, he, rfl⟩
      rwa [← hout.keyed e he]
    · exact fun hr => ⟨_, hr, rfl⟩

/-! ## A reading -/

variable (id time) in
/-- The earliest rows of a history from a start on: what a full page leaves out is no earlier than
what it has. -/
structure IsPage (history : T → Prop) (start : Int) (rows : List T) (full : Bool) : Prop where
  told : ∀ r ∈ rows, history r
  earliest : ∀ r, history r → start ≤ time r →
    r ∈ rows ∨ full = true ∧ ∀ r' ∈ rows, time r' ≤ time r

section Reading

variable {history : Nat → T → Prop} {fetch : Nat → Int → Except VenueError (List T × Bool)}
  {sinceMs : Int}

/-- What was read before a page: rows of the history from `sinceMs` on, and of those that were
there at the beginning every one before the start of the page. -/
structure ReadTo (id time : T → Int) (history : Nat → T → Prop) (sinceMs start : Int)
    (out : List (Int × T)) : Prop where
  kept : Kept id out
  since : sinceMs ≤ start
  told : ∀ r, (id r, r) ∈ out → sinceMs ≤ time r ∧ ∃ page, history page r
  whole : ∀ r, history 0 r → sinceMs ≤ time r → time r < start → (id r, r) ∈ out

/-- One page. -/
theorem ReadTo.page {start : Int} {out out' : List (Int × T)}
    (h : ReadTo id time history sinceMs start out) (hgrows : ∀ page r, history 0 r → history page r)
    {page : Nat} {rows : List T} {full : Bool}
    (hpage : IsPage time (history page) start rows full)
    (hkeep : keep id time start rows out = .ok out') :
    (full = false → ∀ r, history 0 r → sinceMs ≤ time r → (id r, r) ∈ out') ∧
    ∀ last, (∀ r ∈ rows, time r ≤ last) → (∃ r ∈ rows, time r = last) → start ≤ last →
      ReadTo id time history sinceMs last out' := by
  obtain ⟨hkept, htimes, hmem⟩ := keep_ok h.kept hkeep
  constructor
  · intro hlast r hr hsince
    rw [hmem]
    rcases lt_or_ge (time r) start with hbefore | hfrom
    · exact Or.inr (h.whole r hr hsince hbefore)
    · rcases hpage.earliest r (hgrows page r hr) hfrom with hin | ⟨hfull, -⟩
      · exact Or.inl hin
      · rw [hlast] at hfull
        cases hfull
  · intro last hmax hlast hle
    refine ⟨hkept, h.since.trans hle, fun r hr => ?_, fun r hr hsince hbefore => ?_⟩
    · rcases (hmem r).mp hr with hin | hin
      · exact ⟨h.since.trans (htimes r hin), page, hpage.told r hin⟩
      · exact h.told r hin
    · rw [hmem]
      rcases lt_or_ge (time r) start with hearlier | hfrom
      · exact Or.inr (h.whole r hr hsince hearlier)
      · rcases hpage.earliest r (hgrows page r hr) hfrom with hin | ⟨-, hafter⟩
        · exact Or.inl hin
        · obtain ⟨r', hr', rfl⟩ := hlast
          exact absurd (hafter r' hr') (not_le.mpr hbefore)

/-- The start of the next page. -/
theorem max?_filter_eq_some_iff {times : List Int} {start last : Int} :
    times.max?.filter (fun last => decide (start < last)) = some last ↔
      last ∈ times ∧ (∀ t ∈ times, t ≤ last) ∧ start < last := by
  rw [Option.filter_eq_some_iff, List.max?_eq_some_iff, decide_eq_true_eq]
  tauto

/-- The pages that follow. -/
theorem ReadTo.readPages (hgrows : ∀ page r, history 0 r → history page r)
    (hfetch : ∀ page start rows full, fetch page start = .ok (rows, full) →
      IsPage time (history page) start rows full)
    {left page : Nat} {start : Int} {out : List (Int × T)}
    (h : ReadTo id time history sinceMs start out) {rows : List T}
    (hread : History.readPages id time fetch left page start out = .ok rows) :
    (∀ r, history 0 r → sinceMs ≤ time r → r ∈ rows) ∧
    (∀ r ∈ rows, sinceMs ≤ time r ∧ ∃ page, history page r) ∧
    rows.Pairwise fun a b => time a < time b ∨ (time a = time b ∧ id a < id b) := by
  induction left generalizing page start out with
  | zero => cases hread
  | succ left ih =>
    rw [History.readPages] at hread
    cases hanswer : fetch page start with
    | error e => rw [hanswer] at hread; cases hread
    | ok answer =>
      obtain ⟨answered, full⟩ := answer
      rw [hanswer] at hread
      have hpage := hfetch page start answered full hanswer
      cases hkeep : keep id time start answered out with
      | error e => simp only [hkeep] at hread; cases hread
      | ok out' =>
        simp only [hkeep] at hread
        obtain ⟨hlast, hnext⟩ := h.page hgrows hpage hkeep
        obtain ⟨hkept, htimes, hmem⟩ := keep_ok h.kept hkeep
        cases full with
        | false =>
          rw [if_pos rfl, Except.ok.injEq] at hread
          obtain ⟨hsorted, hrows⟩ := @sorted_answer T id time out' hkept
          rw [hread] at hsorted hrows
          refine ⟨fun r hr hsince => (hrows r).mpr (hlast rfl r hr hsince), fun r hr => ?_, hsorted⟩
          rcases (hmem r).mp ((hrows r).mp hr) with hin | hin
          · exact ⟨h.since.trans (htimes r hin), page, hpage.told r hin⟩
          · exact h.told r hin
        | true =>
          rw [if_neg Bool.noConfusion] at hread
          cases hmax : (answered.map time).max?.filter (fun last => decide (start < last)) with
          | none => rw [hmax] at hread; cases hread
          | some last =>
            rw [hmax] at hread
            obtain ⟨hin, hall, hlt⟩ := max?_filter_eq_some_iff.mp hmax
            obtain ⟨r, hr, htime⟩ := List.mem_map.mp hin
            have hmax : ∀ r ∈ answered, time r ≤ last := fun r hr => hall _ (List.mem_map_of_mem hr)
            exact ih (hnext last hmax ⟨r, hr, htime⟩ hlt.le) hread

theorem timePagedHistory_sound (hgrows : ∀ page r, history 0 r → history page r)
    (hfetch : ∀ page start rows full, fetch page start = .ok (rows, full) →
      IsPage time (history page) start rows full)
    {rows : List T} (hread : timePagedHistory id time sinceMs fetch = .ok rows) :
    (∀ r, history 0 r → sinceMs ≤ time r → r ∈ rows) ∧
    (∀ r ∈ rows, sinceMs ≤ time r ∧ ∃ page, history page r) ∧
    rows.Pairwise fun a b => time a < time b ∨ (time a = time b ∧ id a < id b) := by
  have hstart : ReadTo id time history sinceMs sinceMs [] :=
    ⟨Kept.nil, le_refl _, fun r hr => absurd hr List.not_mem_nil,
      fun r _ hsince hbefore => absurd hbefore (not_lt.mpr hsince)⟩
  exact hstart.readPages hgrows hfetch hread

end Reading

/-! ## A history that stays -/

/-- The answer of a venue with a limit on the rows of a page. -/
def answer (time : T → Int) (limit : Nat) (history : List T) (start : Int) : List T × Bool :=
  let rows := (history.filter fun r => start ≤ time r).take limit
  (rows, rows.length = limit)

section Static

variable {history : List T} {limit shared : Nat}
  (hsorted : history.Pairwise fun a b => time a < time b ∨ (time a = time b ∧ id a < id b))

include hsorted

omit [DecidableEq T] in
theorem isPage_answer (start : Int) :
    IsPage time (· ∈ history) start (answer time limit history start).1
      (answer time limit history start).2 := by
  have hfrom : (history.filter fun r => decide (start ≤ time r)).Pairwise
      (fun a b => time a ≤ time b) :=
    (hsorted.filter _).imp fun {a b} hab => by omega
  rw [← List.take_append_drop limit (history.filter _), List.pairwise_append] at hfrom
  refine ⟨fun r hr => List.mem_of_mem_filter (List.mem_of_mem_take hr), fun r hr hstart => ?_⟩
  have hin : r ∈ history.filter fun r => decide (start ≤ time r) :=
    List.mem_filter.mpr ⟨hr, decide_eq_true hstart⟩
  rw [← List.take_append_drop limit (history.filter _), List.mem_append] at hin
  rcases hin with htake | hdrop
  · exact Or.inl htake
  · refine Or.inr ⟨decide_eq_true ?_, fun r' hr' => hfrom.2.2 r' hr' r hdrop⟩
    rw [List.length_take, Nat.min_eq_left]
    by_contra hshort
    rw [List.drop_eq_nil_of_le (by omega)] at hdrop
    exact absurd hdrop List.not_mem_nil

omit [DecidableEq T] hsorted in
/-- A full page has rows of more than one time, and what follows is shorter. -/
theorem answer_advances {start : Int}
    (hshared : ∀ t, (history.filter fun r => time r = t).length ≤ shared) (hlimit : shared < limit)
    (hfull : (answer time limit history start).1.length = limit) :
    ∃ last, ((answer time limit history start).1.map time).max?.filter
        (fun last => decide (start < last)) = some last ∧
      (history.filter fun r => last ≤ time r).length + (limit - shared) ≤
        (history.filter fun r => start ≤ time r).length := by
  set page := (answer time limit history start).1 with hpage
  have hsub : page.Sublist (history.filter fun r => start ≤ time r) := List.take_sublist _ _
  have hstart : ∀ r ∈ page, start ≤ time r := fun r hr =>
    of_decide_eq_true (List.mem_filter.mp (hsub.subset hr)).2
  -- few rows of the page have any one time
  have hcount : ∀ t, (page.filter fun r => decide (time r = t)).length ≤ shared := fun t =>
    ((hsub.trans List.filter_sublist).filter _).length_le.trans (hshared t)
  have hne : page.map time ≠ [] := by
    rw [Ne, List.map_eq_nil_iff, ← List.length_eq_zero_iff]
    omega
  obtain ⟨last, hlast⟩ := Option.ne_none_iff_exists'.mp (mt List.max?_eq_none_iff.mp hne)
  obtain ⟨hin, hmax⟩ := List.max?_eq_some_iff.mp hlast
  have hpagemax : ∀ r ∈ page, time r ≤ last := fun r hr => hmax _ (List.mem_map_of_mem hr)
  have hlt : start < last := by
    by_contra hnot
    have hall : page.filter (fun r => decide (time r = start)) = page :=
      List.filter_eq_self.mpr fun r hr => decide_eq_true (by
        have := hstart r hr
        have := hpagemax r hr
        omega)
    have hshort := hcount start
    rw [hall] at hshort
    omega
  refine ⟨last, max?_filter_eq_some_iff.mpr ⟨hin, hmax, hlt⟩, ?_⟩
  have hafter : (history.filter fun r => decide (start ≤ time r)).filter
      (fun r => decide (last ≤ time r)) = history.filter fun r => decide (last ≤ time r) := by
    rw [List.filter_filter]
    refine List.filter_congr fun r _ => ?_
    simp only [← Bool.decide_and, decide_eq_decide]
    omega
  have hsplit := List.length_eq_length_filter_add
    (l := history.filter fun r => decide (start ≤ time r)) (fun r => decide (last ≤ time r))
  have hpagesplit := List.length_eq_length_filter_add (l := page) (fun r => decide (last ≤ time r))
  have hends : page.filter (fun r => decide (last ≤ time r)) =
      page.filter fun r => decide (time r = last) :=
    List.filter_congr fun r hr => by
      have := hpagemax r hr
      simp only [decide_eq_decide]
      omega
  have hbefore := (hsub.filter fun r => !decide (last ≤ time r)).length_le
  have hfew := hcount last
  rw [hends] at hpagesplit
  rw [hafter] at hsplit
  omega

omit hsorted in
/-- The pages that follow are enough. -/
theorem readPages_answer_isOk (hids : ∀ r ∈ history, ∀ r' ∈ history, id r' = id r → r' = r)
    (hshared : ∀ t, (history.filter fun r => time r = t).length ≤ shared) (hlimit : shared < limit)
    {left page : Nat} {start : Int} {out : List (Int × T)} (hkept : Kept id out)
    (hout : ∀ r, (id r, r) ∈ out → r ∈ history) (hleft : 0 < left)
    (hfits : (history.filter fun r => start ≤ time r).length < left * (limit - shared) + shared) :
    ∃ rows, readPages id time (fun _ start => .ok (answer time limit history start)) left page start
      out = .ok rows := by
  induction left generalizing page start out with
  | zero => exact absurd hleft (Nat.lt_irrefl 0)
  | succ left ih =>
    have hpage : ∀ r ∈ (answer time limit history start).1, r ∈ history ∧ start ≤ time r := by
      intro r hr
      have hin := List.mem_filter.mp (List.mem_of_mem_take hr)
      exact ⟨hin.1, of_decide_eq_true hin.2⟩
    have hisOk : ∃ out', keep id time start (answer time limit history start).1 out = .ok out' :=
      keep_isOk hkept (fun r hr => (hpage r hr).2) fun r hr r' hr' =>
        hids r (hpage r hr).1 r' <| hr'.elim (fun hin => (hpage r' hin).1) (hout r')
    obtain ⟨out', hkeep⟩ := hisOk
    obtain ⟨hkept', -, hmem⟩ := keep_ok hkept hkeep
    rw [readPages]
    simp only [hkeep]
    by_cases hfull : (answer time limit history start).1.length = limit
    · obtain ⟨last, hlast, hshorter⟩ := answer_advances hshared hlimit hfull
      have htrue : (answer time limit history start).2 = true := decide_eq_true hfull
      have hlong := hfull.symm.le.trans (List.take_sublist _ _).length_le
      rw [Nat.add_mul, Nat.one_mul] at hfits
      have hmore : 0 < left := by
        rcases Nat.eq_zero_or_pos left with rfl | hpos
        · omega
        · exact hpos
      rw [if_neg (by rw [htrue]; exact Bool.noConfusion), hlast]
      refine ih hkept' (fun r hr => ?_) hmore (by omega)
      rcases (hmem r).mp hr with hin | hin
      · exact (hpage r hin).1
      · exact hout r hin
    · exact ⟨_, if_pos (decide_eq_false hfull)⟩

/-- **A history that stays is read whole**, if the rows that share a time are fewer than a page and
the rows are no more than the pages hold: the answer is what one request without a limit gives. -/
theorem timePagedHistory_eq_filter (hids : ∀ r ∈ history, ∀ r' ∈ history, id r' = id r → r' = r)
    (hshared : ∀ t, (history.filter fun r => time r = t).length ≤ shared) (hlimit : shared < limit)
    {sinceMs : Int} (hfits : (history.filter fun r => sinceMs ≤ time r).length <
      maxPages * (limit - shared) + shared) :
    timePagedHistory id time sinceMs (fun _ start => .ok (answer time limit history start)) =
      .ok (history.filter fun r => sinceMs ≤ time r) := by
  have hisOk : ∃ rows, timePagedHistory id time sinceMs
      (fun _ start => .ok (answer time limit history start)) = .ok rows :=
    readPages_answer_isOk hids hshared hlimit Kept.nil (fun r hr => absurd hr List.not_mem_nil)
      (by decide) hfits
  obtain ⟨rows, hread⟩ := hisOk
  have hpages : ∀ start rows full, Except.ok (answer time limit history start) =
      (Except.ok (rows, full) : Except VenueError (List T × Bool)) →
      IsPage time (· ∈ history) start rows full := by
    intro start rows full hanswer
    have hisPage : IsPage time (· ∈ history) start (answer time limit history start).1
        (answer time limit history start).2 := isPage_answer hsorted start
    rwa [Except.ok.inj hanswer] at hisPage
  obtain ⟨hwhole, htold, hrows⟩ := @timePagedHistory_sound T _ id time (fun _ r => r ∈ history) _
    sinceMs (fun _ _ hr => hr) (fun _ => hpages) rows hread
  have hmem : ∀ r, r ∈ rows ↔ r ∈ history.filter fun r => decide (sinceMs ≤ time r) := by
    intro r
    rw [List.mem_filter, decide_eq_true_eq]
    constructor
    · intro hr
      obtain ⟨hsince, -, hin⟩ := htold r hr
      exact ⟨hin, hsince⟩
    · exact fun hr => hwhole r hr.1 hr.2
  have hnodup : ∀ {l : List T}, l.Pairwise (fun a b =>
      time a < time b ∨ (time a = time b ∧ id a < id b)) → l.Nodup := fun h =>
    h.imp fun {a b} hab heq => by
      rw [heq] at hab
      omega
  have hperm : rows.Perm (history.filter fun r => decide (sinceMs ≤ time r)) :=
    (List.perm_ext_iff_of_nodup (hnodup hrows) (hnodup (hsorted.filter _))).mpr hmem
  rw [hread, hperm.eq_of_pairwise (fun a b _ _ hab hba => by omega) hrows
    (hsorted.filter _)]

end Static

theorem timePagedHistory_sharedTimes :
    timePagedHistory Prod.fst Prod.snd 15 (fun _ start => .ok (answer Prod.snd 3
      [(1, 10), (2, 20), (3, 20), (4, 30), (5, 40)] start)) =
      .ok [(2, 20), (3, 20), (4, 30), (5, 40)] :=
  @timePagedHistory_eq_filter _ _ _ _ [(1, 10), (2, 20), (3, 20), (4, 30), (5, 40)] 3 2
    (by decide) (by decide) (fun t => by grind) (by decide) 15 (by decide)

/-! ## An interval -/

theorem recentHistoryBounds_ok {sinceMs throughMs observedMs : Int}
    (h : recentHistoryBounds sinceMs throughMs observedMs = .ok ()) :
    0 ≤ sinceMs ∧ sinceMs ≤ throughMs ∧ throughMs ≤ observedMs ∧ observedMs - weekMs ≤ sinceMs := by
  rw [recentHistoryBounds, ite_eq_right_iff] at h
  by_contra hout
  have hrefused := h (by omega)
  cases hrefused

/-- **What is answered about an interval is its history.**  A venue answers a page with the earliest
rows of the interval that it has at that moment, and keeps what it has.  Then every row that was
there at the first page is in the answer, every row of the answer was there at some page, and the
answer is in order of time and identity without repetition. -/
theorem boundedTimeHistory_complete {history : Nat → T → Prop}
    {fetch : Nat → Int → Int → Except VenueError (List T × Bool)}
    {sinceMs throughMs observedMs : Int} (hgrows : ∀ page r, history 0 r → history page r)
    (hfetch : ∀ page start rows full, fetch page start throughMs = .ok (rows, full) →
      IsPage time (fun r => history page r ∧ time r ≤ throughMs) start rows full)
    {rows : List T}
    (hread : boundedTimeHistory id time sinceMs throughMs observedMs fetch = .ok rows) :
    (0 ≤ sinceMs ∧ throughMs ≤ observedMs ∧ observedMs - weekMs ≤ sinceMs) ∧
    (∀ r, history 0 r → sinceMs ≤ time r → time r ≤ throughMs → r ∈ rows) ∧
    (∀ r ∈ rows, sinceMs ≤ time r ∧ time r ≤ throughMs ∧ ∃ page, history page r) ∧
    rows.Pairwise fun a b => time a < time b ∨ (time a = time b ∧ id a < id b) := by
  rw [boundedTimeHistory] at hread
  cases hbounds : recentHistoryBounds sinceMs throughMs observedMs with
  | error e => rw [hbounds] at hread; cases hread
  | ok u =>
    rw [hbounds] at hread
    obtain ⟨hsince, -, hthrough, hweek⟩ := recentHistoryBounds_ok hbounds
    have hpages : ∀ page start rows full,
        boundedPage time throughMs (fetch page start throughMs) = .ok (rows, full) →
        IsPage time (fun r => history page r ∧ time r ≤ throughMs) start rows full := by
      intro page start rows full hpage
      refine hfetch page start rows full ?_
      cases hanswer : fetch page start throughMs with
      | error e => rw [hanswer] at hpage; cases hpage
      | ok answer =>
        rw [hanswer, boundedPage, ite_eq_iff] at hpage
        rcases hpage with ⟨-, hpage⟩ | ⟨-, hpage⟩
        · cases hpage
        · exact hpage
    obtain ⟨hwhole, htold, hsorted⟩ :=
      timePagedHistory_sound (fun page r hr => ⟨hgrows page r hr.1, hr.2⟩) hpages hread
    refine ⟨⟨hsince, hthrough, hweek⟩, fun r hr hfrom hto => hwhole r ⟨hr, hto⟩ hfrom,
      fun r hr => ?_, hsorted⟩
    obtain ⟨hfrom, page, hin, hto⟩ := htold r hr
    exact ⟨hfrom, hto, page, hin⟩

/-- Two rows, and a third after the first page. -/
def grown (page : Nat) : List (Int × Int) :=
  if page = 0 then [(1, 10), (2, 20)] else [(1, 10), (2, 20), (3, 25)]

theorem boundedTimeHistory_grown :
    ∃ rows, boundedTimeHistory Prod.fst Prod.snd 5 30 30
        (fun page start _ => .ok (answer Prod.snd 2 (grown page) start)) = .ok rows ∧
      (1, 10) ∈ rows ∧ (2, 20) ∈ rows := by
  have hsorted : ∀ page, (grown page).Pairwise (fun a b =>
      a.2 < b.2 ∨ (a.2 = b.2 ∧ a.1 < b.1)) ∧ ∀ r ∈ grown page, r.2 ≤ 30 := by
    intro page
    unfold grown
    split <;> decide
  have hpages : ∀ page start rows full, Except.ok (answer Prod.snd 2 (grown page) start) =
      (Except.ok (rows, full) : Except VenueError (List (Int × Int) × Bool)) →
      IsPage Prod.snd (fun r => r ∈ grown page ∧ r.2 ≤ 30) start rows full := by
    intro page start rows full hanswer
    have hisPage : IsPage Prod.snd (· ∈ grown page) start (answer Prod.snd 2 (grown page) start).1
        (answer Prod.snd 2 (grown page) start).2 := isPage_answer (hsorted page).1 start
    rw [Except.ok.inj hanswer] at hisPage
    exact ⟨fun r hr => ⟨hisPage.told r hr, (hsorted page).2 r (hisPage.told r hr)⟩,
      fun r hr => hisPage.earliest r hr.1⟩
  have hgrows : ∀ page, ∀ r ∈ grown 0, r ∈ grown page := by
    intro page r hr
    by_cases hpage : page = 0
    · rwa [hpage]
    · have hmore : ∀ r ∈ grown 0, r ∈ grown 1 := by decide
      rw [grown, if_neg hpage]
      exact hmore r hr
  have hread : boundedTimeHistory Prod.fst Prod.snd 5 30 30
      (fun page start _ => .ok (answer Prod.snd 2 (grown page) start)) =
      .ok ([(1, 10), (2, 20), (3, 25)].mergeSort (notAfter Prod.fst Prod.snd)) := rfl
  have hcomplete := @boundedTimeHistory_complete (Int × Int) _ Prod.fst Prod.snd
    (fun page r => r ∈ grown page) _ 5 30 30 hgrows hpages _ hread
  exact ⟨_, hread, hcomplete.2.1 (1, 10) (by decide) (by decide) (by decide),
    hcomplete.2.1 (2, 20) (by decide) (by decide) (by decide)⟩

end History
end Gateway
