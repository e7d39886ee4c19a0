/-
# A capture session (`oq-l2feed/src/session.rs`)

The loop connects, listens until the connection is lost, and connects again.  What the network,
the clocks, the disk and the signal handler answer in one pass of either loop is a `Pass`, so a
list of passes is any behaviour of theirs.  A connection that is lost is remembered (`lostAt`)
until listening resumes or the session stops, and declared there.

The session keeps what it exchanged with the network (`log`) and what it handed to the writer
(`handed`).  Every pass keeps the two in step, but for the loss that is remembered
(`Accounted.connectPass`, `Accounted.listenPass`), and every way out declares that one.
-/
import OpenQuanter.CaptureWriter
import OpenQuanter.Checked

namespace Capture

/-! ## What the world answers -/

/-- The kinds of error the loop tells apart. -/
inductive ErrorKind where
  | wouldBlock
  | interrupted
  | other
  deriving DecidableEq, Repr

structure IoError where
  kind : ErrorKind
  text : Text
  deriving DecidableEq, Repr

/-- What the world answers in one pass of a loop.  A pass asks for some of it. -/
structure Pass where
  /-- Whether a termination signal has been seen, at the top of the pass. -/
  shutdown : Bool
  /-- The time since the session started. -/
  elapsed : Nat
  /-- Whether a connection is opened. -/
  connect : Except IoError Unit
  /-- The time since the connection was lost. -/
  outage : Nat
  message : Except IoError (List UInt8)
  silenceIsADisconnect : Bool
  /-- Whether a termination signal has been seen, after an interrupted read. -/
  shutdownAgain : Bool
  nowNs : Int64
  /-- Whether what is handed to the writer is written. -/
  write : Except IoError Unit
  /-- The time since the last flush. -/
  sinceFlush : Nat
  flush : Except IoError Unit
  /-- The flush before the free space is looked at. -/
  flushAgain : Except IoError Unit
  aboveFloor : Except IoError Bool

/-- What the world answers in a session: before the loop, pass by pass, and after it. -/
structure World where
  startNs : Int64
  startWrite : Except IoError Unit
  passes : List Pass
  outage : Nat
  write : Except IoError Unit
  flush : Except IoError Unit
  elapsed : Nat

/-! ## The session -/

/-- How the session decides when to stop, and how it reads a payload. -/
structure SessionConfig where
  duration : Option Nat
  diskCheckEvery : UInt64
  flushInterval : Nat
  maxConsecutiveFailures : UInt32
  eventTimeNs : List UInt8 → Option Int64

/-- Why a session stopped. -/
inductive StopReason where
  | durationElapsed
  | diskFloor
  | connectionLost
  | signalled
  deriving DecidableEq, Repr

/-- What a session did. -/
structure SessionStats where
  payloads : Nat
  payloadBytes : Nat
  gaps : Nat
  outage : Nat
  elapsed : Nat
  stop : StopReason
  lastError : Option Text
  deriving DecidableEq, Repr

/-- What passes between a session and the network: an attempt to connect, or a read, with what the
source says of its silence, whether a signal was seen, and the clock. -/
inductive Exchange where
  | connect (answer : Except IoError Unit)
  | read (answer : Except IoError (List UInt8)) (silenceIsADisconnect shutdown : Bool)
    (nowNs : Int64)

/-- Where the loop is. -/
inductive Phase where
  | connecting
  | listening
  | stopped
  deriving DecidableEq, Repr

/-- Why a session fails; a panic of the writer ends the process. -/
inductive Failure where
  | io (e : IoError)
  | writer (e : Stop)

/-- The session under way. -/
structure Session where
  writer : CaptureWriter
  disk : Disk
  stats : SessionStats
  consecutiveFailures : UInt32
  sinceDiskCheck : UInt64
  /-- The clock when the connection was lost, until that is declared. -/
  lostAt : Option Int64
  /-- The calls of the writer. -/
  handed : List Call
  log : List Exchange

/-- The reason of the gaps a session declares. -/
def connectionLost : Text := "connection lost".toList

/-- An answer that may be an error of the session. -/
def ioAnswer {α : Type} : Except IoError α → Except Failure α
  | .error e => .error (.io e)
  | .ok a => .ok a

namespace SessionConfig

variable (c : SessionConfig)

/-- Whether the session ran as long as it should. -/
def timeUp (elapsed : Nat) : Bool :=
  match c.duration with
  | none => false
  | some limit => decide (limit ≤ elapsed)

/-- The record of a payload that was received. -/
def payloadRecord (nowNs : Int64) (payload : List UInt8) : Record where
  kind := .payload
  localTs := nowNs
  exchTs := (c.eventTimeNs payload).getD noExchTs
  payload := payload

end SessionConfig

namespace Session

/-- The session before anything is written. -/
def start (w : CaptureWriter) (d : Disk) : Session where
  writer := w
  disk := d
  stats := ⟨0, 0, 0, 0, 0, .durationElapsed, none⟩
  consecutiveFailures := 0
  sinceDiskCheck := 0
  lostAt := none
  handed := []
  log := []

variable (c : SessionConfig) (s : Session)

/-- Call the writer. -/
def hand (call : Call) (write : Except IoError Unit) : Except Failure Session := do
  ioAnswer write
  match call.run s.writer s.disk with
  | (_, _, some e) => .error (.writer e)
  | (w, d, none) => .ok { s with writer := w, disk := d, handed := s.handed ++ [call] }

def stop (reason : StopReason) : Session := { s with stats := { s.stats with stop := reason } }

def told (x : Exchange) : Session := { s with log := s.log ++ [x] }

/-- Write a gap marker for a finished outage and account for it. -/
def declareGap (atNs : Int64) (outage : Nat) (write : Except IoError Unit) :
    Except Failure Session :=
  { s with
    stats := { s.stats with gaps := s.stats.gaps + 1, outage := s.stats.outage + outage } }.hand
    (.gap atNs connectionLost none (Int64.ofIntClamp outage)) write

/-- Declare the loss that is remembered, if one is. -/
def declareLoss (outage : Nat) (write : Except IoError Unit) : Except Failure Session :=
  match s.lostAt with
  | none => .ok s
  | some atNs => { s with lostAt := none }.declareGap atNs outage write

/-- One pass of the outer loop, to where it connects. -/
def connectPass (p : Pass) : Except Failure (Phase × Session) :=
  if p.shutdown then .ok (.stopped, s.stop .signalled)
  else if c.timeUp p.elapsed then .ok (.stopped, s.stop .durationElapsed)
  else
    let s := s.told (.connect p.connect)
    match p.connect with
    | .ok () => do
      let s ← { s with consecutiveFailures := 0 }.declareLoss p.outage p.write
      return (.listening, s)
    | .error e =>
      let failures := s.consecutiveFailures + 1
      let s := { s with
        consecutiveFailures := failures
        stats := { s.stats with lastError := some e.text } }
      if c.maxConsecutiveFailures ≤ failures then .ok (.stopped, s.stop .connectionLost)
      else .ok (.connecting, s)

/-- Flush once it is time to. -/
def flushDue (p : Pass) : Except Failure Unit :=
  if c.flushInterval ≤ p.sinceFlush then ioAnswer p.flush else .ok ()

/-- Take a payload in. -/
def receive (p : Pass) (payload : List UInt8) : Except Failure (Phase × Session) := do
  let s ← { s with stats := { s.stats with
      payloadBytes := s.stats.payloadBytes + payload.length } }.hand
    (.append (c.payloadRecord p.nowNs payload)) p.write
  let s := { s with stats := { s.stats with payloads := s.stats.payloads + 1 } }
  flushDue c p
  let sinceDiskCheck := s.sinceDiskCheck + 1
  if c.diskCheckEvery ≤ sinceDiskCheck then
    ioAnswer p.flushAgain
    let s := { s with sinceDiskCheck := 0 }
    if ← ioAnswer p.aboveFloor then return (.listening, s)
    else return (.stopped, s.stop .diskFloor)
  else return (.listening, { s with sinceDiskCheck })

/-- One pass of the inner loop. -/
def listenPass (p : Pass) : Except Failure (Phase × Session) :=
  if c.timeUp p.elapsed then .ok (.stopped, s.stop .durationElapsed)
  else if p.shutdown then .ok (.stopped, s.stop .signalled)
  else
    let s := s.told (.read p.message p.silenceIsADisconnect p.shutdownAgain p.nowNs)
    match p.message with
    | .ok payload => s.receive c p payload
    | .error e =>
      if e.kind = .wouldBlock ∧ p.silenceIsADisconnect = false then do
        -- a keepalive tick: the socket answered, there is nothing to say
        flushDue c p
        return (.listening, s)
      else if e.kind = .interrupted ∧ p.shutdownAgain = true then
        .ok (.stopped, s.stop .signalled)
      else .ok (.connecting, { s with lostAt := some p.nowNs })

/-- One pass, wherever the loop is. -/
def pass (p : Pass) : Phase → Except Failure (Phase × Session)
  | .connecting => s.connectPass c p
  | .listening => s.listenPass c p
  | .stopped => .ok (.stopped, s)

/-- The loop.  A session that the passes end before is still under way. -/
def loop (phase : Phase) (s : Session) : List Pass → Option (Except Failure Session)
  | [] => if phase = .stopped then some (.ok s) else none
  | p :: ps =>
    if phase = .stopped then some (.ok s)
    else
      match s.pass c p phase with
      | .error e => some (.error e)
      | .ok (phase, s) => loop phase s ps

/-- What follows the loop: an outage that never ended still has to be declared. -/
def finish (world : World) : Except Failure Session := do
  let s ← s.declareLoss world.outage world.write
  ioAnswer world.flush
  return { s with stats := { s.stats with elapsed := world.elapsed } }

/-- Run a capture session against what the world answers. -/
def runWithClock (w : CaptureWriter) (d : Disk) (world : World) : Option (Except Failure Session) :=
  match (start w d).hand (.sessionStart world.startNs) world.startWrite with
  | .error e => some (.error e)
  | .ok s => (loop c .connecting s world.passes).map fun r => r.bind fun s => s.finish world

end Session

/-! ## What a session is to say -/

namespace Exchange

/-- A keepalive: a read that timed out, of a source whose silence is not a disconnect. -/
def keepalive : Exchange → Bool
  | .read (.error e) silenceIsADisconnect _ _ =>
    decide (e.kind = .wouldBlock) && !silenceIsADisconnect
  | _ => false

/-- A read that the shutdown signal interrupted. -/
def interrupted : Exchange → Bool
  | .read (.error e) _ shutdown _ => decide (e.kind = .interrupted) && shutdown
  | _ => false

/-- A lost connection: any other read that fails. -/
def lost (x : Exchange) : Bool :=
  match x with
  | .read (.error _) .. => !x.keepalive && !x.interrupted
  | _ => false

/-- Whether an exchange is to leave a record: a payload does, and a lost connection. -/
def marked (x : Exchange) : Bool :=
  match x with
  | .read (.ok _) .. => true
  | x => x.lost

/-- Where the loop is when it has an exchange. -/
def during : Exchange → Phase
  | .connect _ => .connecting
  | .read .. => .listening

/-- Where the loop is after an exchange, if it goes on. -/
def after (x : Exchange) : Phase :=
  match x with
  | .connect (.ok ()) => .listening
  | .connect (.error _) => .connecting
  | x => if x.lost then .connecting else if x.interrupted then .stopped else .listening

variable {e : IoError} {silence shutdown : Bool} {nowNs : Int64}

theorem lost_interrupted_of_keepalive (h : e.kind = .wouldBlock ∧ silence = false) :
    (read (.error e) silence shutdown nowNs).lost = false ∧
      (read (.error e) silence shutdown nowNs).interrupted = false := by
  constructor
  · simp [lost, keepalive, h.1, h.2]
  · simp [interrupted, h.1]

theorem marked_of_interrupted (h : e.kind = .interrupted ∧ shutdown = true) :
    (read (.error e) silence shutdown nowNs).marked = false := by
  simp [marked, lost, interrupted, h.1, h.2]

/-- A read that fails in neither of the two ways loses the connection. -/
theorem lost_of_failed (hquiet : ¬ (e.kind = .wouldBlock ∧ silence = false))
    (hsignal : ¬ (e.kind = .interrupted ∧ shutdown = true)) :
    (read (.error e) silence shutdown nowNs).lost = true := by
  simp only [not_and_or, Bool.not_eq_true, Bool.not_eq_false] at hquiet hsignal
  simp only [lost, keepalive, interrupted, Bool.and_eq_true, Bool.not_eq_true',
    Bool.and_eq_false_iff, decide_eq_false_iff_not, Bool.not_eq_false']
  exact ⟨hquiet, hsignal⟩

/-- After a failed read the loop listens on, unless it was interrupted or lost. -/
theorem after_failed : (read (.error e) silence shutdown nowNs).after =
    if (read (.error e) silence shutdown nowNs).lost then .connecting
    else if (read (.error e) silence shutdown nowNs).interrupted then .stopped
    else .listening := rfl

end Exchange

/-- The call an exchange is to leave: a payload is appended as it was received, and a lost
connection has a gap marker stamped with the moment of the loss. -/
inductive Marks (c : SessionConfig) : Exchange → Call → Prop where
  | payload (payload : List UInt8) (silence shutdown : Bool) (nowNs : Int64) :
    Marks c (.read (.ok payload) silence shutdown nowNs) (.append (c.payloadRecord nowNs payload))
  | gap (e : IoError) (silence shutdown : Bool) (nowNs outageNs : Int64)
    (h : (Exchange.read (.error e) silence shutdown nowNs).lost = true) :
    Marks c (.read (.error e) silence shutdown nowNs) (.gap nowNs connectionLost none outageNs)

/-- Connections come first, reads on an open one, and after a loss a connection again. -/
def Threaded : Phase → List Exchange → Prop
  | _, [] => True
  | phase, x :: xs => x.during = phase ∧ Threaded x.after xs

/-- Where the exchanges leave the loop, if it goes on. -/
def leave (phase : Phase) (xs : List Exchange) : Phase := xs.foldl (fun _ x => x.after) phase

/-- Whether a call appends a payload. -/
def Call.appendsPayload : Call → Bool
  | .append r => decide (r.kind = .payload)
  | _ => false

/-- Whether a call declares a gap. -/
def Call.declaresGap : Call → Bool
  | .gap .. => true
  | _ => false

theorem leave_concat (phase : Phase) (xs : List Exchange) (x : Exchange) :
    leave phase (xs ++ [x]) = x.after := by
  rw [leave, List.foldl_append]
  rfl

theorem Threaded.concat {x : Exchange} : ∀ {xs : List Exchange} {phase : Phase},
    Threaded phase xs → x.during = leave phase xs → Threaded phase (xs ++ [x])
  | [], _, _, hx => ⟨hx, trivial⟩
  | _ :: _, _, ⟨hy, hxs⟩, hx => ⟨hy, hxs.concat hx⟩

/-! ## A loss that is not declared yet -/

/-- The loss that is remembered is an exchange that is owed a gap marker. -/
inductive Owed : Option Int64 → List Exchange → Prop where
  | nothing : Owed none []
  | lost (e : IoError) (silence shutdown : Bool) (nowNs : Int64)
    (h : (Exchange.read (.error e) silence shutdown nowNs).lost = true) :
    Owed (some nowNs) [.read (.error e) silence shutdown nowNs]

/-- The calls say what was exchanged, but for the loss that is remembered. -/
def Marked (c : SessionConfig) (log : List Exchange) (lostAt : Option Int64) (calls : List Call) :
    Prop :=
  ∃ said owed, log.filter Exchange.marked = said ++ owed ∧ Owed lostAt owed ∧
    List.Forall₂ (Marks c) said calls

namespace Marked

variable {c : SessionConfig} {log : List Exchange} {lostAt : Option Int64} {calls : List Call}

/-- Nothing is to be said of an exchange that leaves no record. -/
theorem silent {x : Exchange} (h : Marked c log lostAt calls) (hx : x.marked = false) :
    Marked c (log ++ [x]) lostAt calls := by
  obtain ⟨said, owed, hlog, howed, hsaid⟩ := h
  refine ⟨said, owed, ?_, howed, hsaid⟩
  rw [List.filter_append, hlog, List.filter_cons_of_neg (by rw [hx]; exact Bool.false_ne_true),
    List.filter_nil, List.append_nil]

theorem filter_concat {x : Exchange} {said : List Exchange}
    (hlog : log.filter Exchange.marked = said) (hx : x.marked = true) :
    (log ++ [x]).filter Exchange.marked = said ++ [x] := by
  rw [List.filter_append, hlog, List.filter_cons_of_pos hx, List.filter_nil]

/-- With nothing remembered, everything was said. -/
theorem said (h : Marked c log none calls) :
    List.Forall₂ (Marks c) (log.filter Exchange.marked) calls := by
  obtain ⟨said, _, hlog, ⟨⟩, hsaid⟩ := h
  rw [hlog, List.append_nil]
  exact hsaid

theorem payload {payload : List UInt8} {silence shutdown : Bool} {nowNs : Int64}
    (h : Marked c log none calls) :
    Marked c (log ++ [.read (.ok payload) silence shutdown nowNs]) none
      (calls ++ [.append (c.payloadRecord nowNs payload)]) := by
  refine ⟨_, [], (filter_concat rfl rfl).trans (List.append_nil _).symm, .nothing, ?_⟩
  exact List.rel_append h.said (.cons (.payload ..) .nil)

theorem lost {e : IoError} {silence shutdown : Bool} {nowNs : Int64} (h : Marked c log none calls)
    (hlost : (Exchange.read (.error e) silence shutdown nowNs).lost = true) :
    Marked c (log ++ [.read (.error e) silence shutdown nowNs]) (some nowNs) calls :=
  ⟨_, _, filter_concat rfl hlost, .lost _ _ _ _ hlost, h.said⟩

/-- The gap marker is stamped with the moment of the loss. -/
theorem declared {atNs : Int64} (h : Marked c log (some atNs) calls) (outageNs : Int64) :
    Marked c log none (calls ++ [.gap atNs connectionLost none outageNs]) := by
  obtain ⟨said, _, hlog, howed, hsaid⟩ := h
  cases howed with
  | lost e silence shutdown nowNs hlost =>
    refine ⟨_, [], hlog.trans (List.append_nil _).symm, .nothing, ?_⟩
    exact List.rel_append hsaid (.cons (.gap _ _ _ _ _ hlost) .nil)

end Marked

/-! ## What a session keeps -/

/-- What a session has to show for the calls it made since its start. -/
structure Accounted (c : SessionConfig) (w : CaptureWriter) (d : Disk) (startNs : Int64)
    (s : Session) (calls : List Call) : Prop where
  handed : s.handed = .sessionStart startNs :: calls
  marked : Marked c s.log s.lostAt calls
  payloads : s.stats.payloads = calls.countP Call.appendsPayload
  gaps : s.stats.gaps = calls.countP Call.declaresGap
  threaded : Threaded .connecting s.log
  /-- The writer is where those calls, none of which failed, have brought it. -/
  written : (⟨some w, false, d⟩ : State).run (s.handed.map Event.call) =
    ⟨some s.writer, false, s.disk⟩

/-- Where the loop stands: its exchanges left it there, and with a connection open no loss is
remembered. -/
structure Stands (phase : Phase) (s : Session) : Prop where
  left : phase ≠ .stopped → leave .connecting s.log = phase
  open_ : phase = .listening → s.lostAt = none

theorem stands_stopped (s : Session) : Stands .stopped s :=
  ⟨fun h => absurd rfl h, fun h => nomatch h⟩

namespace Session

variable {c : SessionConfig} {w : CaptureWriter} {d : Disk} {startNs : Int64} {s s' : Session}
  {calls : List Call}

/-- What a call of the writer leaves, if it returns. -/
theorem hand_eq_ok {call : Call} {write : Except IoError Unit} (h : s.hand call write = .ok s') :
    ∃ w' d', call.run s.writer s.disk = (w', d', none) ∧
      s' = { s with writer := w', disk := d', handed := s.handed ++ [call] } := by
  obtain ⟨u, -, h⟩ := Except.bind_eq_ok.mp h
  split at h
  · cases h
  · rename_i w' d' hrun
    exact ⟨w', d', hrun, (Except.ok.inj h).symm⟩

/-- A call that returned is one the writer made. -/
theorem run_concat {disk : Disk} {writer w' : CaptureWriter} {d' : Disk} {handed : List Call}
    {call : Call} (h : (⟨some w, false, d⟩ : State).run (handed.map Event.call) =
      ⟨some writer, false, disk⟩) (hcall : call.run writer disk = (w', d', none)) :
    (⟨some w, false, d⟩ : State).run ((handed ++ [call]).map Event.call) =
      ⟨some w', false, d'⟩ := by
  rw [List.map_append, State.run, List.foldl_append]
  show ((⟨some w, false, d⟩ : State).run (handed.map Event.call)).step (.call call) = _
  rw [h]
  simp only [State.step, Bool.false_eq_true, if_false, hcall]
  rfl

end Session

namespace Accounted

variable {c : SessionConfig} {w : CaptureWriter} {d : Disk} {startNs : Int64} {s s' : Session}
  {calls : List Call} {phase : Phase} {p : Pass}

/-- What else a session keeps makes no difference. -/
theorem same (h : Accounted c w d startNs s calls)
    (hs : (s'.handed, s'.log, s'.lostAt, s'.stats.payloads, s'.stats.gaps, s'.writer, s'.disk) =
      (s.handed, s.log, s.lostAt, s.stats.payloads, s.stats.gaps, s.writer, s.disk)) :
    Accounted c w d startNs s' calls := by
  simp only [Prod.mk.injEq] at hs
  obtain ⟨hhanded, hlog, hlost, hpayloads, hgaps, hwriter, hdisk⟩ := hs
  constructor
  · rw [hhanded, h.handed]
  · rw [hlog, hlost]
    exact h.marked
  · rw [hpayloads, h.payloads]
  · rw [hgaps, h.gaps]
  · rw [hlog]
    exact h.threaded
  · rw [hhanded, h.written, hwriter, hdisk]

/-- An exchange that leaves no record. -/
theorem told (h : Accounted c w d startNs s calls) {x : Exchange}
    (hx : x.marked = false) (hduring : x.during = leave .connecting s.log) :
    Accounted c w d startNs (s.told x) calls :=
  ⟨h.handed, h.marked.silent hx, h.payloads, h.gaps, h.threaded.concat hduring, h.written⟩

/-- Declaring what is remembered leaves nothing to declare. -/
theorem declareLoss {outage : Nat} {write : Except IoError Unit}
    (h : Accounted c w d startNs s calls) (hs : s.declareLoss outage write = .ok s') :
    ∃ calls', Accounted c w d startNs s' calls' ∧ s'.lostAt = none ∧ s'.log = s.log := by
  unfold Session.declareLoss at hs
  split at hs
  · rename_i hlost
    rw [← Except.ok.inj hs]
    exact ⟨calls, h, hlost, rfl⟩
  · rename_i atNs hlost
    obtain ⟨w', d', hrun, rfl⟩ := Session.hand_eq_ok hs
    have hmarked := h.marked
    rw [hlost] at hmarked
    refine ⟨calls ++ [.gap atNs connectionLost none (Int64.ofIntClamp outage)],
      ⟨?_, hmarked.declared _, ?_, ?_, h.threaded, Session.run_concat h.written hrun⟩, rfl, rfl⟩
    · show s.handed ++ _ = _
      rw [h.handed, List.cons_append]
    · rw [List.countP_append, ← h.payloads]
      rfl
    · rw [List.countP_append, ← h.gaps]
      rfl

/-- A payload is appended, once. -/
theorem receive {payload : List UInt8} (h : Accounted c w d startNs s calls)
    (hstands : Stands .listening s)
    (hs : (s.told (.read (.ok payload) p.silenceIsADisconnect p.shutdownAgain p.nowNs)).receive c p
      payload = .ok (phase, s')) :
    ∃ calls', Accounted c w d startNs s' calls' ∧ Stands phase s' := by
  have hopen : s.lostAt = none := hstands.open_ rfl
  have hmarked := h.marked
  rw [hopen] at hmarked
  obtain ⟨s₁, hhand, hs⟩ := Except.bind_eq_ok.mp hs
  obtain ⟨w', d', hrun, rfl⟩ := Session.hand_eq_ok hhand
  obtain ⟨u, -, hs⟩ := Except.bind_eq_ok.mp hs
  have hkept : Accounted c w d startNs
      { s.told (.read (.ok payload) p.silenceIsADisconnect p.shutdownAgain p.nowNs) with
        writer := w', disk := d'
        stats := { s.stats with
          payloadBytes := s.stats.payloadBytes + payload.length
          payloads := s.stats.payloads + 1 }
        handed := s.handed ++ [.append (c.payloadRecord p.nowNs payload)] }
      (calls ++ [.append (c.payloadRecord p.nowNs payload)]) := by
    refine ⟨?_, ?_, ?_, ?_, h.threaded.concat (hstands.left nofun).symm,
      Session.run_concat h.written hrun⟩
    · show s.handed ++ _ = _
      rw [h.handed, List.cons_append]
    · show Marked c _ s.lostAt _
      rw [hopen]
      exact hmarked.payload
    · rw [List.countP_append, ← h.payloads]
      rfl
    · rw [List.countP_append, ← h.gaps]
      rfl
  -- what is left is when to look at the disk, which says nothing of the stream
  have hleft : leave .connecting (s.log ++
      [.read (.ok payload) p.silenceIsADisconnect p.shutdownAgain p.nowNs]) = .listening :=
    leave_concat _ _ _
  dsimp only at hs
  split at hs
  · obtain ⟨u, -, hs⟩ := Except.bind_eq_ok.mp hs
    obtain ⟨above, -, hs⟩ := Except.bind_eq_ok.mp hs
    split at hs
    · obtain ⟨rfl, rfl⟩ := Prod.mk.inj (Except.ok.inj hs)
      exact ⟨_, hkept.same rfl, fun _ => hleft, fun _ => hopen⟩
    · obtain ⟨rfl, rfl⟩ := Prod.mk.inj (Except.ok.inj hs)
      exact ⟨_, hkept.same rfl, stands_stopped _⟩
  · obtain ⟨rfl, rfl⟩ := Prod.mk.inj (Except.ok.inj hs)
    exact ⟨_, hkept.same rfl, fun _ => hleft, fun _ => hopen⟩

/-- A pass of the outer loop: a loss that is remembered survives a refused connection, and is
declared once one is open. -/
theorem connectPass (h : Accounted c w d startNs s calls) (hstands : Stands .connecting s)
    (hs : s.connectPass c p = .ok (phase, s')) :
    ∃ calls', Accounted c w d startNs s' calls' ∧ Stands phase s' := by
  have hleft : Phase.connecting = leave .connecting s.log := (hstands.left nofun).symm
  unfold Session.connectPass at hs
  split at hs
  · obtain ⟨rfl, rfl⟩ := Prod.mk.inj (Except.ok.inj hs)
    exact ⟨calls, h.same rfl, stands_stopped _⟩
  split at hs
  · obtain ⟨rfl, rfl⟩ := Prod.mk.inj (Except.ok.inj hs)
    exact ⟨calls, h.same rfl, stands_stopped _⟩
  have htold : Accounted c w d startNs (s.told (.connect p.connect)) calls := h.told rfl hleft
  dsimp only at hs
  split at hs
  · rename_i hconnect
    obtain ⟨s₁, hloss, hs⟩ := Except.bind_eq_ok.mp hs
    obtain ⟨rfl, rfl⟩ := Prod.mk.inj (Except.ok.inj hs)
    obtain ⟨calls', hcalls, hlost, hlog⟩ := Accounted.declareLoss
      (s := { s.told (.connect p.connect) with consecutiveFailures := 0 }) (htold.same rfl) hloss
    refine ⟨calls', hcalls, fun _ => ?_, fun _ => hlost⟩
    rw [hlog]
    show leave _ (s.log ++ [.connect p.connect]) = _
    rw [leave_concat, hconnect]
    rfl
  · rename_i e hconnect
    split at hs
    · obtain ⟨rfl, rfl⟩ := Prod.mk.inj (Except.ok.inj hs)
      exact ⟨calls, htold.same rfl, stands_stopped _⟩
    · obtain ⟨rfl, rfl⟩ := Prod.mk.inj (Except.ok.inj hs)
      refine ⟨calls, htold.same rfl, fun _ => ?_, nofun⟩
      show leave _ (s.log ++ [.connect p.connect]) = _
      rw [leave_concat, hconnect]
      rfl

/-- A pass of the inner loop: a keepalive and an interrupted read are passed over, and a loss is
remembered. -/
theorem listenPass (h : Accounted c w d startNs s calls) (hstands : Stands .listening s)
    (hs : s.listenPass c p = .ok (phase, s')) :
    ∃ calls', Accounted c w d startNs s' calls' ∧ Stands phase s' := by
  have hleft : Phase.listening = leave .connecting s.log := (hstands.left nofun).symm
  have hopen : s.lostAt = none := hstands.open_ rfl
  unfold Session.listenPass at hs
  split at hs
  · obtain ⟨rfl, rfl⟩ := Prod.mk.inj (Except.ok.inj hs)
    exact ⟨calls, h.same rfl, stands_stopped _⟩
  split at hs
  · obtain ⟨rfl, rfl⟩ := Prod.mk.inj (Except.ok.inj hs)
    exact ⟨calls, h.same rfl, stands_stopped _⟩
  dsimp only at hs
  split at hs
  · rename_i payload hmessage
    rw [hmessage] at hs
    exact h.receive hstands hs
  · rename_i e hmessage
    rw [hmessage] at hs
    split at hs
    · rename_i hquiet
      have hkept : (Exchange.read (.error e) p.silenceIsADisconnect p.shutdownAgain
          p.nowNs).lost = false ∧ (Exchange.read (.error e) p.silenceIsADisconnect
          p.shutdownAgain p.nowNs).interrupted = false :=
        Exchange.lost_interrupted_of_keepalive hquiet
      obtain ⟨hlost, hcalm⟩ := hkept
      obtain ⟨u, -, hs⟩ := Except.bind_eq_ok.mp hs
      obtain ⟨rfl, rfl⟩ := Prod.mk.inj (Except.ok.inj hs)
      refine ⟨calls, h.told hlost hleft, fun _ => ?_, fun _ => hopen⟩
      show leave _ (s.log ++ [_]) = _
      rw [leave_concat, Exchange.after_failed, hlost, hcalm]
      rfl
    split at hs
    · rename_i hsignal
      obtain ⟨rfl, rfl⟩ := Prod.mk.inj (Except.ok.inj hs)
      exact ⟨calls, (h.told (Exchange.marked_of_interrupted hsignal) hleft).same rfl,
        stands_stopped _⟩
    · rename_i hquiet hsignal
      have hlost : (Exchange.read (.error e) p.silenceIsADisconnect p.shutdownAgain
          p.nowNs).lost = true := Exchange.lost_of_failed hquiet hsignal
      obtain ⟨rfl, rfl⟩ := Prod.mk.inj (Except.ok.inj hs)
      have hmarked := h.marked
      rw [hopen] at hmarked
      refine ⟨calls, ⟨h.handed, hmarked.lost hlost, h.payloads, h.gaps, h.threaded.concat hleft,
        h.written⟩, fun _ => ?_, nofun⟩
      show leave _ (s.log ++ [_]) = _
      rw [leave_concat, Exchange.after_failed, hlost]
      rfl

/-- The whole loop. -/
theorem loop : ∀ {ps : List Pass} {phase : Phase} {s : Session} {calls : List Call},
    Accounted c w d startNs s calls → Stands phase s →
      Session.loop c phase s ps = some (.ok s') → ∃ calls', Accounted c w d startNs s' calls'
  | [], phase, s, calls, h, _, hs => by
    rw [Session.loop] at hs
    split at hs
    · rw [← Except.ok.inj (Option.some.inj hs)]
      exact ⟨calls, h⟩
    · cases hs
  | p :: ps, phase, s, calls, h, hstands, hs => by
    rw [Session.loop] at hs
    split at hs
    · rw [← Except.ok.inj (Option.some.inj hs)]
      exact ⟨calls, h⟩
    split at hs
    · cases hs
    · rename_i hphase _ next s₁ hpass
      have hnext : ∃ calls', Accounted c w d startNs s₁ calls' ∧ Stands next s₁ := by
        cases phase with
        | connecting => exact h.connectPass hstands hpass
        | listening => exact h.listenPass hstands hpass
        | stopped => exact absurd rfl hphase
      obtain ⟨calls', h', hstands'⟩ := hnext
      exact h'.loop hstands' hs

end Accounted

/-- A pass that has a connection and nothing on it. -/
def quietPass : Pass where
  shutdown := false
  elapsed := 0
  connect := .ok ()
  outage := 0
  message := .error ⟨.wouldBlock, []⟩
  silenceIsADisconnect := false
  shutdownAgain := false
  nowNs := 0
  write := .ok ()
  sinceFlush := 0
  flush := .ok ()
  flushAgain := .ok ()
  aboveFloor := .ok true

/-- A session that receives a payload, loses the connection, is refused one, gets one, and is told
to stop while it listens. -/
def worldOfALoss : World where
  startNs := 1000
  startWrite := .ok ()
  passes := [quietPass, { quietPass with message := .ok [7], nowNs := 2000 },
    { quietPass with message := .error ⟨.other, []⟩, nowNs := 3000 },
    { quietPass with connect := .error ⟨.other, []⟩ }, { quietPass with outage := 40 }, quietPass,
    { quietPass with message := .error ⟨.interrupted, []⟩, shutdownAgain := true }]
  outage := 0
  write := .ok ()
  flush := .ok ()
  elapsed := 50

/-- That session, with nothing in the archive. -/
def runOfALoss : Option (Except Failure Session) :=
  Session.runWithClock ⟨none, 1000, 5000, 10, fun _ => none⟩
    (.new ⟨⟨['v'], ['s'], ['d']⟩, ⟨['1'], ['c']⟩, 60000000000, .daily, none⟩)
    ⟨fun _ => none, fun _ => none⟩ worldOfALoss

end Capture
