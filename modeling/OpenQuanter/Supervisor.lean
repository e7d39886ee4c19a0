/-
# When the process reconnects and when it stops (`oq-live/src/supervisor.rs`)

The supervisor counts what goes wrong and says what to do.  Its counters are
cleared by what goes right, and some of them by being acted on, so what it says
depends on streaks: disagreements since the last agreement, failed reads since
the last good one, unknown placements since the last known one
(`actions_eq`).

Whether two views of an account agree is a comparison of floating-point amounts
(`views_agree` of `oq-gateway/src/stream.rs`); here it is any comparison.
-/
import OpenQuanter.Fixed
import OpenQuanter.Streak

/-- What a comparison of the two views concluded. -/
inductive Health where
  | agreed
  | disagreed (consecutive : Nat)
  | zombie (consecutive : Nat)
  deriving DecidableEq, Repr

/-- Compares the streamed view of an account against the venue's. -/
structure StreamHealth where
  threshold : Nat
  consecutive : Nat
  deriving DecidableEq, Repr

/-- The largest `u32`. -/
def u32Max : Nat := 4294967295

/-- `saturating_add(1)` of a `u32`. -/
def saturatingNext (n : Nat) : Nat := min (n + 1) u32Max

theorem saturatingNext_of_lt {n : Nat} (h : n < u32Max) : saturatingNext n = n + 1 :=
  Nat.min_eq_left h

theorem saturatingNext_min (n : Nat) : saturatingNext (min n u32Max) = min (n + 1) u32Max := by
  unfold saturatingNext
  generalize u32Max = k
  omega

/-- A small bound is reached whether or not the counter saturates. -/
theorem le_min_u32Max {k : Nat} (hk : k ≤ u32Max) (n : Nat) : k ≤ min n u32Max ↔ k ≤ n := by
  rw [le_min_iff, and_iff_left hk]

namespace StreamHealth

/-- Sensible defaults for a futures account; the tolerance is the comparison's. -/
def futures : StreamHealth := ⟨3, 0⟩

/-- Compare one view against the other. -/
def observe (h : StreamHealth) (agree : Bool) : Health × StreamHealth :=
  if agree then (.agreed, { h with consecutive := 0 })
  else
    let h := { h with consecutive := saturatingNext h.consecutive }
    if h.threshold ≤ h.consecutive then (.zombie h.consecutive, h)
    else (.disagreed h.consecutive, h)

/-- Forget the history, after a reconnect has happened. -/
def reset (h : StreamHealth) : StreamHealth := { h with consecutive := 0 }

end StreamHealth

/-- Something to be done. -/
inductive Supervisor.Action where
  | renewKey
  | checkPositions
  | reconcile
  | reconnect
  | halt (why : String)
  deriving DecidableEq, Repr

/-- How often, in nanoseconds. -/
structure Supervisor.Timings where
  renewEvery : Nat
  checkEvery : Nat
  deriving DecidableEq, Repr

/-- What is due, and what went wrong so far. -/
structure Supervisor where
  timings : Supervisor.Timings
  health : StreamHealth
  lastRenew : Option Nanos
  lastCheck : Option Nanos
  unresolved : Nat
  unresolvedLimit : Nat
  unreadable : Nat
  unreadableLimit : Nat
  condemned : Nat
  condemnedLimit : Nat
  deriving DecidableEq, Repr

/-- Whether a period has passed; one that no `i64` holds never does. -/
def Supervisor.elapsed (last : Option Nanos) (now : Nanos) (period : Nat) : Bool :=
  if 2 ^ 63 ≤ period then false
  else
    match last with
    | none => true
    | some t => (period : Int) ≤ (satSub now t).toInt

namespace Supervisor

def stillDisagree : String :=
  "positions still disagree with the venue after replacing the stream three times; the " ++
    "difference is not the link, and FR-RISK-4 makes unknown state fatal"

def tooManyUnknown : String :=
  "too many placements with an unknown outcome; the process no longer knows what it has working"

def new (timings : Timings) : Supervisor where
  timings := timings
  health := StreamHealth.futures
  lastRenew := none
  lastCheck := none
  unresolved := 0
  unresolvedLimit := 3
  unreadable := 0
  unreadableLimit := 5
  condemned := 0
  condemnedLimit := 3

variable (s : Supervisor)

/-- What is due at a time. -/
def due (now : Nanos) : Supervisor × List Action :=
  let renew := elapsed s.lastRenew now s.timings.renewEvery
  let check := elapsed s.lastCheck now s.timings.checkEvery
  ({ s with
      lastRenew := if renew then some now else s.lastRenew
      lastCheck := if check then some now else s.lastCheck },
    (if renew then [.renewKey] else []) ++ if check then [.checkPositions] else [])

/-- An event of the account's stream; the key behind the stream may have expired. -/
def onEvent (expired : Bool) : List Action := if expired then [.reconnect, .reconcile] else []

def onDisconnect : List Action := [.reconnect, .reconcile]

/-- The account could not be read. -/
def onReadFailed : Supervisor × List Action :=
  let s := { s with unreadable := saturatingNext s.unreadable }
  if s.unreadableLimit ≤ s.unreadable then ({ s with unreadable := 0 }, [.reconnect, .reconcile])
  else (s, [])

def onReadSucceeded : Supervisor := { s with unreadable := 0 }

/-- What a comparison of the positions says about the stream, and what to do. -/
def positionVerdict (agree : Bool) : Supervisor × Health × List Action :=
  let (verdict, health) := s.health.observe agree
  let s := { s with health := health }
  match verdict with
  | .agreed => ({ s with condemned := 0 }, verdict, [])
  | .disagreed _ => (s, verdict, [])
  | .zombie _ =>
    let s := { s with health := s.health.reset, condemned := saturatingNext s.condemned }
    (s, verdict,
      if s.condemnedLimit ≤ s.condemned then [.halt stillDisagree] else [.reconnect, .reconcile])

def requestPositionCheck : Supervisor := { s with lastCheck := none }

/-- A placement whose outcome is not known. -/
def onUnresolved : Supervisor × List Action :=
  let s := { s with unresolved := saturatingNext s.unresolved }
  (s, if s.unresolvedLimit ≤ s.unresolved then [.halt tooManyUnknown] else [.reconcile])

def onResolved : Supervisor := { s with unresolved := 0 }

end Supervisor

/-- What the supervisor is told; `compared` carries what the two views were. -/
inductive Supervisor.Told (P : Type) where
  | due (now : Nanos)
  | event (expired : Bool)
  | disconnect
  | readFailed
  | readSucceeded
  | compared (streamed venue : P)
  | requestCheck
  | unresolved
  | resolved

namespace Supervisor

section Runs

variable {P : Type} (viewsAgree : P → P → Bool)

/-- One call, and what it says to do. -/
def step (s : Supervisor) : Told P → Supervisor × List Action
  | .due now => s.due now
  | .event expired => (s, onEvent expired)
  | .disconnect => (s, onDisconnect)
  | .readFailed => s.onReadFailed
  | .readSucceeded => (s.onReadSucceeded, [])
  | .compared streamed venue =>
    let (s, _, actions) := s.positionVerdict (viewsAgree streamed venue)
    (s, actions)
  | .requestCheck => (s.requestPositionCheck, [])
  | .unresolved => s.onUnresolved
  | .resolved => (s.onResolved, [])

/-- The supervisor after some calls. -/
def run (timings : Timings) (history : List (Told P)) : Supervisor :=
  history.foldl (fun s e => (s.step viewsAgree e).1) (new timings)

/-! ## What the counters count -/

/-- A comparison that did not agree. -/
def disagrees : Told P → Bool
  | .compared streamed venue => !viewsAgree streamed venue
  | _ => false

def agrees : Told P → Bool
  | .compared streamed venue => viewsAgree streamed venue
  | _ => false

/-- The disagreements since the last agreement. -/
def disagreements (history : List (Told P)) : Nat :=
  Streak.streak (disagrees viewsAgree) (agrees viewsAgree) history

def isReadFailed : Told P → Bool
  | .readFailed => true
  | _ => false

def isReadSucceeded : Told P → Bool
  | .readSucceeded => true
  | _ => false

/-- The failed reads since the last good one. -/
def failedReads (history : List (Told P)) : Nat :=
  Streak.streak isReadFailed isReadSucceeded history

def isUnresolved : Told P → Bool
  | .unresolved => true
  | _ => false

def isResolved : Told P → Bool
  | .resolved => true
  | _ => false

/-- The unknown placements since the last known one. -/
def unknownPlacements (history : List (Told P)) : Nat :=
  Streak.streak isUnresolved isResolved history

/-- What the counters are, after so many disagreements, failed reads and unknown placements. -/
structure Counts (s : Supervisor) (disagreements failedReads unknown : Nat) : Prop where
  limits : s.health.threshold = 3 ∧ s.condemnedLimit = 3 ∧ s.unreadableLimit = 5 ∧
    s.unresolvedLimit = 3
  consecutive : s.health.consecutive = disagreements % 3
  condemned : s.condemned = min (disagreements / 3) u32Max
  unreadable : s.unreadable = failedReads % 5
  unresolved : s.unresolved = min unknown u32Max

theorem counts_new (timings : Timings) : Counts (new timings) 0 0 0 :=
  ⟨⟨rfl, rfl, rfl, rfl⟩, rfl, rfl, rfl, rfl⟩

variable {s : Supervisor} {d f u : Nat}

/-- Views that do not agree: every third time the stream is condemned. -/
theorem Counts.disagreed (h : Counts s d f u) :
    (s.positionVerdict false).1 =
        { s with
          health := { s.health with consecutive := (d + 1) % 3 }
          condemned := min ((d + 1) / 3) u32Max } ∧
      (s.positionVerdict false).2.2 =
        if (d + 1) % 3 ≠ 0 then []
        else if d + 1 < 9 then [.reconnect, .reconcile]
        else [.halt stillDisagree] := by
  obtain ⟨hthreshold, hlimit, -, -⟩ := h.limits
  have hsat : saturatingNext s.health.consecutive = d % 3 + 1 := by
    rw [h.consecutive]
    exact saturatingNext_of_lt ((Nat.mod_lt d (by decide)).trans (by decide))
  unfold positionVerdict StreamHealth.observe
  simp only [Bool.false_eq_true, if_false, hsat, hthreshold]
  by_cases hthird : 3 ≤ d % 3 + 1
  · -- the third: condemned, and the count starts over
    have hnext : (d + 1) % 3 = 0 ∧ d / 3 + 1 = (d + 1) / 3 := by omega
    have hcondemned : saturatingNext s.condemned = min ((d + 1) / 3) u32Max := by
      rw [h.condemned, saturatingNext_min, hnext.2]
    rw [if_pos hthird, hnext.1]
    simp only [hcondemned, hlimit, le_min_u32Max (by decide : 3 ≤ u32Max)]
    refine ⟨rfl, ?_⟩
    rw [if_neg (not_not.mpr rfl)]
    by_cases hlast : d + 1 < 9
    · rw [if_pos hlast, if_neg (by omega)]
    · rw [if_neg hlast, if_pos (by omega)]
  · have hnext : d % 3 + 1 = (d + 1) % 3 ∧ d / 3 = (d + 1) / 3 := by omega
    rw [if_neg hthird, ← hnext.1, ← hnext.2, ← h.condemned, if_pos (Nat.succ_ne_zero _)]
    exact ⟨rfl, rfl⟩

/-- A read that failed: every fifth in a row is acted on. -/
theorem Counts.readFailed (h : Counts s d f u) :
    s.onReadFailed = ({ s with unreadable := (f + 1) % 5 },
      if (f + 1) % 5 = 0 then [.reconnect, .reconcile] else []) := by
  obtain ⟨-, -, hlimit, -⟩ := h.limits
  have hsat : saturatingNext s.unreadable = f % 5 + 1 := by
    rw [h.unreadable]
    exact saturatingNext_of_lt ((Nat.mod_lt f (by decide)).trans (by decide))
  unfold onReadFailed
  simp only [hsat, hlimit]
  by_cases hfifth : 5 ≤ f % 5 + 1
  · have hnext : (f + 1) % 5 = 0 := by omega
    rw [if_pos hfifth, hnext, if_pos rfl]
  · have hnext : f % 5 + 1 = (f + 1) % 5 := by omega
    rw [if_neg hfifth, ← hnext, if_neg (Nat.succ_ne_zero _)]

/-- A placement whose outcome is not known. -/
theorem Counts.unknown (h : Counts s d f u) :
    s.onUnresolved = ({ s with unresolved := min (u + 1) u32Max },
      if u + 1 < 3 then [.reconcile] else [.halt tooManyUnknown]) := by
  obtain ⟨-, -, -, hlimit⟩ := h.limits
  have hsat : saturatingNext s.unresolved = min (u + 1) u32Max := by
    rw [h.unresolved, saturatingNext_min]
  unfold onUnresolved
  simp only [hsat, hlimit, le_min_u32Max (by decide : 3 ≤ u32Max)]
  by_cases hfew : u + 1 < 3
  · rw [if_pos hfew, if_neg (by omega)]
  · rw [if_neg hfew, if_pos (by omega)]

/-- The counters of a step are those of the streaks after it. -/
theorem Counts.step (h : Counts s d f u) (e : Told P) :
    Counts (s.step viewsAgree e).1 (Streak.next (disagrees viewsAgree) (agrees viewsAgree) e d)
      (Streak.next isReadFailed isReadSucceeded e f)
      (Streak.next isUnresolved isResolved e u) := by
  obtain ⟨hlimits, hconsecutive, hcondemned, hunreadable, hunresolved⟩ := id h
  cases e with
  | compared streamed venue =>
    show Counts (s.positionVerdict (viewsAgree streamed venue)).1
      (if viewsAgree streamed venue then 0 else d + if !viewsAgree streamed venue then 1 else 0) f u
    cases viewsAgree streamed venue with
    | true =>
      show Counts _ 0 f u
      exact ⟨hlimits, rfl, rfl, hunreadable, hunresolved⟩
    | false =>
      show Counts _ (d + 1) f u
      rw [h.disagreed.1]
      exact ⟨hlimits, rfl, rfl, hunreadable, hunresolved⟩
  | readFailed =>
    show Counts s.onReadFailed.1 d (f + 1) u
    rw [h.readFailed]
    exact ⟨hlimits, hconsecutive, hcondemned, rfl, hunresolved⟩
  | unresolved =>
    show Counts s.onUnresolved.1 d f (u + 1)
    rw [h.unknown]
    exact ⟨hlimits, hconsecutive, hcondemned, hunreadable, rfl⟩
  | readSucceeded => exact ⟨hlimits, hconsecutive, hcondemned, rfl, hunresolved⟩
  | resolved => exact ⟨hlimits, hconsecutive, hcondemned, hunreadable, rfl⟩
  | due now => exact ⟨hlimits, hconsecutive, hcondemned, hunreadable, hunresolved⟩
  | requestCheck => exact ⟨hlimits, hconsecutive, hcondemned, hunreadable, hunresolved⟩
  | event expired => exact h
  | disconnect => exact h

theorem counts_run (timings : Timings) (history : List (Told P)) :
    Counts (run viewsAgree timings history) (disagreements viewsAgree history)
      (failedReads history) (unknownPlacements history) := by
  induction history using List.reverseRecOn with
  | nil => exact counts_new timings
  | append_singleton history e ih =>
    rw [disagreements, failedReads, unknownPlacements, Streak.streak_concat, Streak.streak_concat,
      Streak.streak_concat, run, List.foldl_append]
    exact ih.step viewsAgree e

/-- What is done by the clock. -/
def Action.scheduled : Action → Bool
  | .renewKey | .checkPositions => true
  | _ => false

/-- What is said of the link and of stopping, by what the supervisor was told. -/
def advised (history : List (Told P)) : Told P → List Action
  | .event true | .disconnect => [.reconnect, .reconcile]
  | .readFailed =>
    if failedReads (history ++ [(.readFailed : Told P)]) % 5 = 0 then [.reconnect, .reconcile]
    else []
  | .compared streamed venue =>
    let count := disagreements viewsAgree (history ++ [.compared streamed venue])
    if count = 0 ∨ count % 3 ≠ 0 then []
    else if count < 9 then [.reconnect, .reconcile]
    else [.halt stillDisagree]
  | .unresolved =>
    if unknownPlacements (history ++ [(.unresolved : Told P)]) < 3 then [.reconcile]
    else [.halt tooManyUnknown]
  | _ => []

/-- **When the process reconnects and when it stops**, after any history.  A comparison is acted on
at every third disagreement since the views last agreed: the third and the sixth replace the
stream, the ninth and each third one after it stop the process.  Reads are acted on at every
fifth failure in a row.  The third placement in a row with an unknown outcome stops the process,
and so does each one after it until a placement is known.  Nothing else stops it. -/
theorem actions_eq (timings : Timings) (history : List (Told P)) (e : Told P) :
    ((run viewsAgree timings history).step viewsAgree e).2.filter (!·.scheduled) =
      advised viewsAgree history e := by
  have hcounts := counts_run viewsAgree timings history
  generalize run viewsAgree timings history = s at *
  cases e with
  | due now =>
    show (s.due now).2.filter _ = []
    unfold due
    cases elapsed s.lastRenew now s.timings.renewEvery <;>
      cases elapsed s.lastCheck now s.timings.checkEvery <;> rfl
  | event expired => cases expired <;> rfl
  | disconnect => rfl
  | readFailed =>
    show s.onReadFailed.2.filter _ = if Streak.streak _ _ _ % 5 = 0 then _ else _
    rw [hcounts.readFailed, Streak.streak_concat]
    show List.filter _ (if (failedReads history + 1) % 5 = 0 then _ else _) =
      if (failedReads history + 1) % 5 = 0 then _ else _
    split
    · rfl
    · rfl
  | readSucceeded => rfl
  | requestCheck => rfl
  | resolved => rfl
  | unresolved =>
    show s.onUnresolved.2.filter _ = if Streak.streak _ _ _ < 3 then _ else _
    rw [hcounts.unknown, Streak.streak_concat]
    show List.filter _ (if unknownPlacements history + 1 < 3 then _ else _) =
      if unknownPlacements history + 1 < 3 then _ else _
    split
    · rfl
    · rfl
  | compared streamed venue =>
    show (s.positionVerdict (viewsAgree streamed venue)).2.2.filter _ = _
    rw [advised, disagreements, Streak.streak_concat]
    cases hagree : viewsAgree streamed venue with
    | true =>
      have hzero : ∀ d, Streak.next (disagrees viewsAgree) (agrees viewsAgree)
          (.compared streamed venue) d = 0 := fun d => by
        rw [Streak.next, if_pos (by exact hagree)]
      rw [hzero, if_pos (.inl rfl)]
      rfl
    | false =>
      have hone : ∀ d, Streak.next (disagrees viewsAgree) (agrees viewsAgree)
          (.compared streamed venue) d = d + 1 := fun d => by
        simp only [Streak.next, agrees, disagrees, hagree]
        rfl
      have hfold : Streak.streak (disagrees viewsAgree) (agrees viewsAgree) history =
          disagreements viewsAgree history := rfl
      rw [hone, hcounts.disagreed.2, hfold]
      generalize disagreements viewsAgree history = d
      by_cases hthird : (d + 1) % 3 ≠ 0
      · rw [if_pos hthird, if_pos (.inr hthird)]
        rfl
      · rw [if_neg hthird, if_neg (not_or.mpr ⟨Nat.succ_ne_zero _, hthird⟩)]
        split
        · rfl
        · rfl

end Runs

end Supervisor
