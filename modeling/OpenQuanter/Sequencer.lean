/-
# Journal first, then the core (`oq-core/src/sequencer.rs`, `sink.rs`)

A submission is appended to the journal and then applied; a replay decodes the
journal and applies it to a fresh kernel.

* An append that fails reaches neither the kernel nor the count
  (`submit_failed`).
* A replay of the whole journal is the run that wrote it, and a replay of a
  journal cut anywhere is the run of the first events.

The second holds for a cut that leaves no whole frame inside the torn one: the
reader takes such a frame for a record behind a damaged one and reports
corruption.  The payload of a depth update can hold one.
-/
import OpenQuanter.EventCodec
import OpenQuanter.Kernel
import OpenQuanter.Writer

open Journal

/-- Somewhere durable to put an event. -/
class EventSink (S : Type) where
  append : S → UInt16 → List UInt8 → Except JournalError UInt64 × S

instance : EventSink Writer where
  append := Writer.append

/-- A kernel with a journal in front of it. -/
structure Sequencer (S : Type) where
  kernel : Kernel
  sink : S
  applied : Nat

namespace Sequencer

/-- Attach a sink to a fresh kernel. -/
def withSink {S : Type} (state : State) (sink : S) : Sequencer S :=
  { kernel := Kernel.new state, sink := sink, applied := 0 }

/-- Open a journal and attach it to a fresh kernel. -/
def open_ (state : State) (device : List WriteResult) (bytes : List UInt8) :
    Except JournalError (Sequencer Writer) := do
  let writer ← Writer.open_ device bytes
  pure (withSink state writer)

section Submit

variable {S : Type} [EventSink S]

/-- Number, journal, then apply. -/
def submit (s : Sequencer S) (event : Event) : Except JournalError (List Output) × Sequencer S :=
  match EventSink.append s.sink event.kind event.encode with
  | (.error e, sink) => (.error e, { s with sink := sink })
  | (.ok _, sink) =>
    let kernel := (s.kernel.apply event).val
    (.ok kernel.outputs, { kernel := kernel, sink := sink, applied := s.applied + 1 })

/-- Submit events one after the other, with what each produced, stopping at the
first failure. -/
def submitAll : Sequencer S → List Event →
    Except JournalError (List (List Output) × Sequencer S)
  | s, [] => .ok ([], s)
  | s, event :: rest =>
    match s.submit event with
    | (.error e, _) => .error e
    | (.ok outputs, next) => do
      let (replies, last) ← next.submitAll rest
      pure (outputs :: replies, last)

/-- **A failed append reaches neither the kernel nor the count**, whatever the
sink. -/
theorem submit_failed {s next : Sequencer S} {event : Event} {e : JournalError}
    (h : s.submit event = (.error e, next)) :
    next.kernel = s.kernel ∧ next.applied = s.applied := by
  unfold submit at h
  split at h
  · obtain ⟨-, rfl⟩ := Prod.mk.inj h
    exact ⟨rfl, rfl⟩
  · exact absurd (Prod.mk.inj h).1 (by simp)

end Submit

/-- What a replay reconstructed. -/
structure ReplayResult where
  kernel : Kernel
  outputs : List Output
  events : Nat
  undecodable : Nat
  stop : ReplayStop

/-- One frame of a replay: applied if it can be decoded, counted if not. -/
def feed (r : ReplayResult) (frame : Frame) : ReplayResult :=
  match Event.decode frame.kind frame.payload with
  | some event =>
    let kernel := (r.kernel.apply event).val
    { r with kernel := kernel, outputs := r.outputs ++ kernel.outputs }
  | none => { r with undecodable := r.undecodable + 1 }

/-- Replay, accepting records this build cannot decode. -/
def replayToleratingUnknown (state : State) (bytes : List UInt8) :
    Except JournalError ReplayResult :=
  match Reader.replay bytes with
  | .error e => .error e
  | .ok replayed =>
    .ok (replayed.frames.foldl feed
      { kernel := Kernel.new state, outputs := [], events := replayed.frames.length,
        undecodable := 0, stop := replayed.stop })

/-- Rebuild the state by replaying a journal into a fresh kernel; a record that
cannot be decoded is fatal. -/
def replay (state : State) (bytes : List UInt8) : Except JournalError ReplayResult :=
  match replayToleratingUnknown state bytes with
  | .error e => .error e
  | .ok result =>
    if 0 < result.undecodable then .error (.corrupt 0 (.unknownVersion 0xFFFF)) else .ok result

end Sequencer

/-! ## Runs -/

/-- What each event of a list produces. -/
def Kernel.replies (k : Kernel) : List Event → List (List Output)
  | [] => []
  | event :: rest => (k.apply event).val.outputs :: (k.apply event).val.replies rest

theorem Kernel.val_run_cons (k : Kernel) (event : Event) (rest : List Event) :
    (k.run (event :: rest)).val = ((k.apply event).val.run rest).val := by
  rw [Kernel.run, List.foldlM_cons, Logged.val_bind]
  rfl

theorem Kernel.replies_take (k : Kernel) (events : List Event) (m : Nat) :
    k.replies (events.take m) = (k.replies events).take m := by
  induction events generalizing k m with
  | nil => simp [replies]
  | cons event rest ih =>
    cases m with
    | zero => rfl
    | succ m => rw [List.take_succ_cons, replies, ih, replies, List.take_succ_cons]

/-- An event whose payload can be framed. -/
structure Submission where
  event : Event
  within : event.encode.length ≤ Frame.maxPayload

/-- The record a submission is journalled as. -/
def Submission.record (s : Submission) : Record :=
  { kind := s.event.kind, payload := s.event.encode, within := s.within }

theorem Submission.decode_record (s : Submission) :
    Event.decode s.record.kind s.record.payload = some s.event := by
  have hlimit : Frame.maxPayload < 2 ^ 32 := by decide
  exact Event.decode_encode s.event
    (Event.counted_of_length (Nat.lt_of_le_of_lt s.within hlimit))

namespace Sequencer

/-- Submitting through a writer that holds records journals every event, applies
every event, and counts every event. -/
theorem submitAll_holds {s : Sequencer Writer} {records : List Record}
    (h : s.sink.Holds records) (subs : List Submission)
    (hroom : records.length + subs.length < 2 ^ 64) :
    ∃ last, s.submitAll (subs.map (·.event)) = .ok (s.kernel.replies (subs.map (·.event)), last) ∧
      last.sink.Holds (records ++ subs.map Submission.record) ∧
      last.kernel = (s.kernel.run (subs.map (·.event))).val ∧
      last.applied = s.applied + subs.length := by
  induction subs generalizing s records with
  | nil => exact ⟨s, rfl, by simpa using h, rfl, rfl⟩
  | cons sub rest ih =>
    rw [List.length_cons] at hroom
    obtain ⟨w, happend, hholds⟩ := h.append sub.record (by omega)
    have hsubmit : s.submit sub.event =
        (.ok (s.kernel.apply sub.event).val.outputs,
          { kernel := (s.kernel.apply sub.event).val, sink := w, applied := s.applied + 1 }) := by
      have hsink : EventSink.append s.sink sub.event.kind sub.event.encode =
          (.ok (UInt64.ofNat records.length), w) := happend
      rw [submit, hsink]
    obtain ⟨last, hrest, hsinkLast, hkernel, happlied⟩ :=
      ih (s := { kernel := (s.kernel.apply sub.event).val, sink := w, applied := s.applied + 1 })
        hholds (by rw [List.length_append, List.length_singleton]; omega)
    refine ⟨last, ?_, ?_, ?_, ?_⟩
    · rw [List.map_cons, submitAll, hsubmit]
      simp only [hrest]
      rfl
    · rwa [List.append_assoc] at hsinkLast
    · rw [hkernel, List.map_cons, Kernel.val_run_cons]
    · rw [happlied, List.length_cons]
      simp only
      omega

/-- Feeding the frames of submissions applies their events. -/
theorem foldl_feed (subs : List Submission) (n : Nat) (r : ReplayResult) :
    (framesFrom n (subs.map Submission.record)).foldl feed r =
      { r with
        kernel := (r.kernel.run (subs.map (·.event))).val
        outputs := r.outputs ++ (r.kernel.replies (subs.map (·.event))).flatten } := by
  induction subs generalizing n r with
  | nil =>
    simp only [List.map_nil, framesFrom, List.foldl_nil, Kernel.replies, List.flatten_nil,
      List.append_nil]
    rfl
  | cons sub rest ih =>
    have hfeed : feed r (sub.record.frame n) =
        { r with
          kernel := (r.kernel.apply sub.event).val
          outputs := r.outputs ++ (r.kernel.apply sub.event).val.outputs } := by
      have hdecode : Event.decode (sub.record.frame n).kind (sub.record.frame n).payload =
          some sub.event := sub.decode_record
      rw [feed, hdecode]
    rw [List.map_cons, framesFrom, List.foldl_cons, hfeed, ih, List.map_cons, Kernel.val_run_cons,
      Kernel.replies, List.flatten_cons, List.append_assoc]

theorem decode_framesFrom (subs : List Submission) (n : Nat) :
    (framesFrom n (subs.map Submission.record)).map (fun f => Event.decode f.kind f.payload) =
      subs.map (fun s => some s.event) := by
  induction subs generalizing n with
  | nil => rfl
  | cons sub rest ih =>
    have hdecode : Event.decode (sub.record.frame n).kind (sub.record.frame n).payload =
        some sub.event := sub.decode_record
    rw [List.map_cons, framesFrom, List.map_cons, hdecode, ih, List.map_cons]

/-- What a replay of such frames comes to. -/
theorem replay_framesFrom {bytes : List UInt8} {subs : List Submission} {stop : ReplayStop}
    {next : UInt64} (state : State)
    (h : Reader.replay bytes =
      .ok { frames := framesFrom 0 (subs.map Submission.record), stop := stop, nextSeq := next }) :
    replay state bytes = .ok
      { kernel := ((Kernel.new state).run (subs.map (·.event))).val
        outputs := ((Kernel.new state).replies (subs.map (·.event))).flatten
        events := subs.length
        undecodable := 0
        stop := stop } := by
  rw [replay, replayToleratingUnknown, h]
  simp only [foldl_feed, length_framesFrom, List.length_map, List.nil_append, Nat.lt_irrefl,
    if_false]

/-- **A replay is the run that wrote the journal.**  Events submitted to a new
journal are decoded from it as they were; replaying all of it gives what each
event produced and the same kernel; replaying the front of it gives the kernel
after the first events, unless a whole frame lies in the fragment the cut leaves;
and a submission that fails changes neither a kernel nor its count. -/
theorem replay_reproduces_run (state : State) (subs : List Submission)
    (hroom : subs.length < 2 ^ 64) :
    ∃ replies last,
      (open_ state [] [] >>= fun s => s.submitAll (subs.map (·.event))) = .ok (replies, last) ∧
      last.applied = subs.length ∧
      (∃ replayed, Reader.replay last.sink.file = .ok replayed ∧
        replayed.frames.map (fun f => Event.decode f.kind f.payload) =
          subs.map (fun s => some s.event)) ∧
      replies = (Kernel.new state).replies (subs.map (·.event)) ∧
      replay state last.sink.file = .ok
        { kernel := last.kernel, outputs := replies.flatten, events := subs.length,
          undecodable := 0, stop := .clean } ∧
      (∀ cut ≤ last.sink.file.length,
        (∀ p : Nat, (Frame.decode ((fragment (subs.map Submission.record) cut).drop p)).isOk =
          false) →
        ∃ m ≤ subs.length, ∃ stop, replay state (last.sink.file.take cut) = .ok
          { kernel := ((Kernel.new state).run ((subs.take m).map (·.event))).val
            outputs := (replies.take m).flatten, events := m, undecodable := 0
            stop := stop }) ∧
      ∀ (S : Type) [EventSink S] (s next : Sequencer S) (event : Event) (e : JournalError),
        s.submit event = (.error e, next) →
          next.kernel = s.kernel ∧ next.applied = s.applied := by
  obtain ⟨w, hopen, hfresh⟩ := Writer.open_nil
  obtain ⟨last, hsubmitted, hholds, hkernel, happlied⟩ :=
    submitAll_holds (s := withSink state w) hfresh subs (by simpa using hroom)
  rw [List.nil_append] at hholds
  have hcount : (subs.map Submission.record).length < 2 ^ 64 := by
    rw [List.length_map]
    exact hroom
  have hread := hholds.replay hcount
  refine ⟨_, last, ?_, ?_, ⟨_, hread, ?_⟩, rfl, ?_, ?_, fun S _ s next event e h => submit_failed h⟩
  · rw [open_, hopen]
    exact hsubmitted
  · rw [happlied, withSink, Nat.zero_add]
  · exact decode_framesFrom subs 0
  · rw [replay_framesFrom state hread, hkernel]
    rfl
  · intro cut hcut hembedded
    rw [hholds.file] at hcut ⊢
    obtain ⟨stop, hreplay, -, -⟩ := replay_cut hcount hcut hembedded
    have hbound : wholeBefore (subs.map Submission.record) cut ≤ subs.length := by
      have hle := @wholeBefore_le (subs.map Submission.record) cut
      rwa [List.length_map] at hle
    rw [← List.map_take] at hreplay
    refine ⟨_, hbound, stop, ?_⟩
    rw [replay_framesFrom state hreplay, List.map_take, Kernel.replies_take, List.length_take,
      Nat.min_eq_left hbound]

/-- An account with nothing in it. -/
def emptyAccount : State :=
  State.new 7 ⟨10⟩ { tiers := [⟨Int64.maxValue, 0, 0⟩], nonempty := by simp, ordered := by simp } 0

/-- A margin deposit. -/
def deposit : Submission where
  event := .marginDeposit 250 3
  within := by decide

/-- The journal of one deposit, whole and cut in its header. -/
theorem replay_reproduces_deposit :
    ∃ replies last,
      (open_ emptyAccount [] [] >>= fun s => s.submitAll [deposit.event]) = .ok (replies, last) ∧
      replay emptyAccount last.sink.file = .ok
        { kernel := last.kernel, outputs := replies.flatten, events := 1, undecodable := 0,
          stop := .clean } ∧
      (12 ≤ last.sink.file.length →
        ∃ m ≤ 1, ∃ stop, replay emptyAccount (last.sink.file.take 12) = .ok
          { kernel := ((Kernel.new emptyAccount).run (([deposit].take m).map (·.event))).val
            outputs := (replies.take m).flatten, events := m, undecodable := 0
            stop := stop }) := by
  have hshort : ∀ p : Nat,
      (Frame.decode ((fragment ([deposit].map Submission.record) 12).drop p)).isOk = false := by
    intro p
    apply Frame.decode_short
    rw [fragment, List.length_drop, List.length_drop, List.length_take, Frame.headerLen]
    omega
  obtain ⟨replies, last, hsubmitted, -, -, -, hwhole, hcut, -⟩ :=
    replay_reproduces_run emptyAccount [deposit] (by decide)
  exact ⟨replies, last, hsubmitted, hwhole, fun hlong => hcut 12 hlong hshort⟩

/-- A depth update whose two bids spell a whole frame: the one with an empty
payload and with kind and number zero. -/
def forgedDepth : Submission where
  event := .depth
    { eventMs := 1, firstId := 1, finalId := 1, prevFinalId := none
      bids := [⟨5541876047, 0⟩, ⟨4815432961937637376, 0⟩], asks := [] }
  within := by decide

/-- A crash that cuts the record of this update behind the forged frame leaves a
journal that does not replay to any state. -/
theorem forgedDepth_not_replayed :
    ∃ replies last,
      (open_ emptyAccount [] [] >>= fun s => s.submitAll [forgedDepth.event]) =
        .ok (replies, last) ∧
      85 ≤ last.sink.file.length ∧
      replay emptyAccount (last.sink.file.take 85) = .error (.corrupt 0 (.incomplete 97 85)) := by
  obtain ⟨w, hopen, hfresh⟩ := Writer.open_nil
  obtain ⟨last, hsubmitted, hholds, -, -⟩ :=
    submitAll_holds (s := withSink emptyAccount w) hfresh [forgedDepth] (by decide)
  have hfile : last.sink.file = Reader.written (framesFrom 0 [forgedDepth.record]) := hholds.file
  have hcut : Frame.decode
      (((Reader.written (framesFrom 0 [forgedDepth.record])).take 85).drop 0) =
        .error (.incomplete 97 85) := by decide +kernel
  have hforged : (Frame.decode
      (((Reader.written (framesFrom 0 [forgedDepth.record])).take 85).drop 61)).isOk = true := by
    decide +kernel
  have hcorrupt := Reader.Reached.start.corrupt hcut (Nat.zero_le 61) hforged
  refine ⟨(Kernel.new emptyAccount).replies [forgedDepth.event], last, ?_, ?_, ?_⟩
  · rw [open_, hopen]
    exact hsubmitted
  · rw [hfile]
    decide
  · rw [replay, replayToleratingUnknown, hfile, hcorrupt]

end Sequencer
