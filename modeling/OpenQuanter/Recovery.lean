/-
# What a restart has to ask about (`oq-live/src/recovery.rs`)

The orders a journal says were sent and does not say what became of, in the order they
were sent (`Tally.inFlight_ids`).

Over any run of a session, with the journal failing anywhere and the file cut anywhere,
an order that was placed and that the file does not say was accepted or rejected is among
them (`no_orphan_orders`), unless what the cut leaves of the last record holds a frame of
its own.
-/
import OpenQuanter.LiveSession

namespace Live

/-! ## Recovering -/

/-- How an order comes to be unaccounted for. -/
inductive Unaccounted where
  | noOutcome
  | outcomeUnknown
  deriving DecidableEq, Repr

/-- An order the journal cannot account for. -/
structure InFlight where
  clientId : String
  reason : Unaccounted
  deriving DecidableEq, Repr

/-- What a journal says about the run that wrote it.  `prefix` of the source is
`issued`. -/
structure Recovered where
  issued : Option String
  symbol : Option String
  inFlight : List InFlight
  undecodable : Nat
  deriving DecidableEq, Repr

/-- The loop of `recover`: the ids in the order they were written, and the outcomes by
id, the latest first. -/
structure Tally where
  out : Recovered
  order : List String
  outcome : List (String × OutcomeTag)
  deriving DecidableEq, Repr

namespace Tally

def empty : Tally := ⟨⟨none, none, [], 0⟩, [], []⟩

def frame (t : Tally) (f : Journal.Frame) : Tally :=
  match Record.decode f.kind f.payload with
  | some (.sessionStart issued symbol _ _) =>
    { t with out := { t.out with issued := some issued, symbol := some symbol } }
  | some (.submitted _ clientId _ _ _ _ _) =>
    if clientId ∈ t.order then t else { t with order := t.order ++ [clientId] }
  | some (.outcome _ clientId tag _) => { t with outcome := (clientId, tag) :: t.outcome }
  | some _ => t
  | none => { t with out := { t.out with undecodable := t.out.undecodable + 1 } }

/-- The orders that are not accounted for. -/
def inFlight (t : Tally) : List InFlight :=
  t.order.filterMap fun clientId =>
    match t.outcome.lookup clientId with
    | none => some ⟨clientId, .noOutcome⟩
    | some .unknown => some ⟨clientId, .outcomeUnknown⟩
    | some _ => none

end Tally

/-- Read a journal and report what it leaves unresolved. -/
def recover (bytes : List UInt8) : Except Journal.JournalError Recovered :=
  match Journal.Reader.replay bytes with
  | .error e => .error e
  | .ok replay =>
    let t := replay.frames.foldl Tally.frame Tally.empty
    .ok { t.out with inFlight := t.inFlight }

/-! ## What the records say of an order -/

/-- What a record says became of an order. -/
def Record.outcomeOf (clientId : String) : Record → Option OutcomeTag
  | .outcome _ id tag _ => if id = clientId then some tag else none
  | _ => none

/-- What became of an order, by the last record that says so. -/
def lastOutcome (records : List Record) (clientId : String) : Option OutcomeTag :=
  (records.filterMap (Record.outcomeOf clientId)).getLast?

/-- Nothing says that an order was accepted or rejected. -/
def unaccounted (records : List Record) (clientId : String) : Bool :=
  lastOutcome records clientId = none || lastOutcome records clientId = some .unknown

theorem lastOutcome_concat (records : List Record) (r : Record) (clientId : String) :
    lastOutcome (records ++ [r]) clientId =
      (r.outcomeOf clientId).or (lastOutcome records clientId) := by
  unfold lastOutcome
  rw [List.filterMap_append, List.filterMap_cons, List.filterMap_nil]
  cases r.outcomeOf clientId <;> simp

theorem submittedIds_concat (records : List Record) (r : Record) :
    submittedIds (records ++ [r]) = submittedIds records ++ r.submittedId.toList := by
  unfold submittedIds
  rw [List.filterMap_append, List.filterMap_cons, List.filterMap_nil]
  cases r.submittedId <;> rfl

namespace Tally

/-- **What the loop keeps** of the records it read: each order once, where it was first
written, and its last outcome. -/
structure Follows (t : Tally) (records : List Record) : Prop where
  order : t.order = (submittedIds records).eraseDups
  outcome : ∀ clientId, t.outcome.lookup clientId = lastOutcome records clientId

/-- A record that is neither a submission nor an outcome. -/
theorem Follows.other {t t' : Tally} {records : List Record} (h : t.Follows records) {r : Record}
    (horder : t'.order = t.order) (houtcome : t'.outcome = t.outcome)
    (hid : r.submittedId = none) (hno : ∀ clientId, r.outcomeOf clientId = none) :
    t'.Follows (records ++ [r]) where
  order := by
    rw [horder, h.order, submittedIds_concat, hid, Option.toList_none, List.append_nil]
  outcome clientId := by
    rw [houtcome, h.outcome, lastOutcome_concat, hno, Option.none_or]

/-- Step: one frame. -/
theorem Follows.frame {t : Tally} {records : List Record} (h : t.Follows records)
    (f : Journal.Frame) :
    (t.frame f).Follows (records ++ (Record.decode f.kind f.payload).toList) := by
  unfold Tally.frame
  cases Record.decode f.kind f.payload with
  | none =>
    rw [Option.toList_none, List.append_nil]
    exact ⟨h.order, h.outcome⟩
  | some r =>
    rw [Option.toList_some]
    cases r with
    | submitted at_ clientId side limitPrice qty reduceOnly leg =>
      refine ⟨?_, fun id => ?_⟩
      · -- the loop asks its own list, which holds the same ids
        have hmem : clientId ∈ t.order ↔ clientId ∈ submittedIds records := by
          rw [h.order, List.mem_eraseDups]
        rw [submittedIds_concat, Record.submittedId, Option.toList_some, History.eraseDups_concat,
          ← h.order]
        by_cases hold : clientId ∈ t.order
        · simp only [if_pos hold, if_pos (hmem.mp hold)]
        · simp only [if_neg hold, if_neg (mt hmem.mpr hold)]
      · rw [lastOutcome_concat, ← h.outcome]
        by_cases hold : clientId ∈ t.order
        · simp only [if_pos hold]
          rfl
        · simp only [if_neg hold]
          rfl
    | outcome at_ clientId tag detail =>
      refine ⟨?_, fun id => ?_⟩
      · rw [submittedIds_concat]
        exact h.order.trans (congrArg List.eraseDups (List.append_nil _).symm)
      · rw [lastOutcome_concat, Record.outcomeOf, ← h.outcome, List.lookup_cons]
        by_cases hid : clientId = id
        · simp [hid]
        · have hne : (id == clientId) = false := by simpa using fun heq => hid heq.symm
          rw [if_neg hid, hne, Option.none_or]
    | _ => exact h.other rfl rfl rfl fun _ => rfl

/-- Run: the frames of a journal. -/
theorem follows_framesFrom (records : List Journal.Record) :
    Follows ((Journal.framesFrom 0 records).foldl Tally.frame empty) (decoded records) := by
  induction records using List.reverseRecOn with
  | nil => exact ⟨rfl, fun _ => rfl⟩
  | append_singleton records r ih =>
    have hdecoded : decoded (records ++ [r]) =
        decoded records ++ (Record.decode r.kind r.payload).toList := by
      unfold decoded
      rw [List.filterMap_append, List.filterMap_cons, List.filterMap_nil]
      cases Record.decode r.kind r.payload <;> rfl
    rw [Journal.framesFrom_append, List.foldl_append, hdecoded]
    exact ih.frame (r.frame (0 + records.length))

/-- **The orders in flight** are those that were written down and are not accounted for,
each once, in the order they were written. -/
theorem Follows.inFlight_ids {t : Tally} {records : List Record} (h : t.Follows records) :
    t.inFlight.map (·.clientId) =
      (submittedIds records).eraseDups.filter (unaccounted records) := by
  unfold Tally.inFlight
  rw [← h.order]
  induction t.order with
  | nil => rfl
  | cons clientId order ih =>
    rw [List.filterMap_cons, List.filter_cons, unaccounted, ← h.outcome]
    rcases hlast : t.outcome.lookup clientId with - | tag
    · simp [ih]
    · cases tag <;> simp [ih]

/-- The reason says which of the two it is. -/
theorem Follows.reason {t : Tally} {records : List Record} (h : t.Follows records) {f : InFlight}
    (hf : f ∈ t.inFlight) :
    lastOutcome records f.clientId =
      match f.reason with
      | .noOutcome => none
      | .outcomeUnknown => some .unknown := by
  obtain ⟨clientId, -, hclient⟩ := List.mem_filterMap.mp hf
  rcases hlast : t.outcome.lookup clientId with - | tag
  · rw [hlast, Option.some.injEq] at hclient
    rw [← hclient, ← h.outcome, hlast]
  · cases tag with
    | unknown =>
      rw [hlast, Option.some.injEq] at hclient
      rw [← hclient, ← h.outcome, hlast]
    | _ =>
      rw [hlast] at hclient
      cases hclient

end Tally

/-! ## Over a run -/

/-- As long as every outcome of an order is that nobody knows, it is unaccounted for. -/
theorem unaccounted_of_forall {records : List Record} {clientId : String}
    (h : ∀ at_ tag detail, .outcome at_ clientId tag detail ∈ records → tag = .unknown) :
    unaccounted records clientId = true := by
  unfold unaccounted
  rcases hlast : lastOutcome records clientId with - | tag
  · rfl
  · obtain ⟨r, hr, hof⟩ := List.mem_filterMap.mp (List.mem_of_getLast? hlast)
    cases r with
    | outcome at_ id tag' detail =>
      rw [Record.outcomeOf] at hof
      split at hof
      · rename_i hid
        rw [hid, Option.some.inj hof] at hr
        rw [h at_ tag detail hr]
        rfl
      · cases hof
    | _ => cases hof

section Placements

variable {earlier handed : List Journal.Record} {before : List Placement} {q : Placement}

/-- A placed order that the cut leaves in the file: its submission is among the records
that are whole, behind those of earlier runs and of the orders placed before. -/
theorem Recorded.survives (h : Recorded earlier handed before q) {cut : Nat}
    (hcut : q.flushed ≤ cut) :
    submittedIds (decoded earlier) ++ (before ++ [q]).map (·.order.clientId) <+:
      submittedIds (decoded (handed.take (Journal.wholeBefore handed cut))) := by
  obtain ⟨records, within, hprefix, hlength, hids⟩ := h
  generalize Sink.framed (q.order.submitted q.at_) within = framed at hprefix hlength hids
  have htake : handed.take (records.length + 1) = records ++ [framed] := by
    have heq := List.prefix_iff_eq_take.mp hprefix
    rw [List.length_append, List.length_singleton] at heq
    exact heq.symm
  have hlt : records.length < handed.length := by
    have hle := hprefix.length_le
    rw [List.length_append, List.length_singleton] at hle
    omega
  have hwhole : records.length < Journal.wholeBefore handed cut := by
    rw [Journal.lt_wholeBefore_iff hlt, Journal.boundary, htake, hlength]
    exact hcut
  have hmore : records ++ [framed] <+: handed.take (Journal.wholeBefore handed cut) := by
    rw [← htake]
    exact List.take_prefix_take_left hwhole
  obtain ⟨rest, hrest⟩ := hmore
  rw [← hids, ← hrest, submittedIds_decoded_append (records ++ [framed]) rest]
  exact List.prefix_append _ _

/-- Its submission is in the journal, and had left the process when it was placed. -/
theorem Recorded.submitted (h : Recorded earlier handed before q) :
    ∃ i record, handed[i]? = some record ∧
      Record.decode record.kind record.payload = some (q.order.submitted q.at_) ∧
      Journal.boundary handed (i + 1) = q.flushed := by
  obtain ⟨records, within, hprefix, hlength, -⟩ := h
  refine ⟨records.length, _, ?_, decode_framed_submitted q.order q.at_ within, ?_⟩
  · obtain ⟨rest, hrest⟩ := hprefix
    rw [← hrest, List.append_assoc, List.getElem?_append_right (Nat.le_refl _), Nat.sub_self]
    rfl
  · have heq := List.prefix_iff_eq_take.mp hprefix
    rw [List.length_append, List.length_singleton] at heq
    rw [Journal.boundary, ← heq, hlength]

end Placements

namespace Process.Sound

variable {issued separator : String} {r : IdRange} {earlier : List Journal.Record} {p : Process}
  {sink : Sink}

/-- No two orders have one id. -/
theorem nodup_clientIds (h : p.Sound issued separator r earlier sink) :
    (p.placed.map (·.order.clientId)).Nodup := by
  refine List.pairwise_map.mpr (h.rises.imp_of_mem fun {a b} ha hb hlt heq => ?_)
  rw [(h.numbered a ha).2.2, (h.numbered b hb).2.2] at heq
  rw [IdRules.clientId_inj heq] at hlt
  exact UInt64.lt_irrefl _ hlt

/-- The placed orders that the cut leaves are written down in the order they were sent. -/
theorem placed_sublist (h : p.Sound issued separator r earlier sink)
    (hnew : ∀ q ∈ p.placed, q.order.clientId ∉ submittedIds (decoded earlier)) {cut n : Nat}
    (hcut : ∀ q ∈ p.placed.take n, q.flushed ≤ cut) :
    ((p.placed.take n).map (·.order.clientId)).Sublist
      (submittedIds (decoded (sink.handed.take
      (Journal.wholeBefore sink.handed cut)))).eraseDups := by
  rcases List.eq_nil_or_concat (p.placed.take n) with hnil | ⟨before, q, hlast⟩
  · rw [hnil]
    exact List.nil_sublist _
  rw [List.concat_eq_append] at hlast
  have hplaced : p.placed = before ++ q :: p.placed.drop n := by
    conv_lhs => rw [← List.take_append_drop n p.placed, hlast]
    simp
  have hq : q ∈ p.placed.take n := by rw [hlast]; simp
  obtain ⟨rest, hrest⟩ := (h.recorded before q _ hplaced).survives (hcut q hq)
  rw [← hlast] at hrest
  rw [← hrest]
  refine History.sublist_eraseDups ?_ _ _ fun a ha => ?_
  · exact h.nodup_clientIds.sublist ((List.take_sublist n p.placed).map _)
  · obtain ⟨q, hq, rfl⟩ := List.mem_map.mp ha
    exact hnew q (List.mem_of_mem_take hq)

/-- What a restart finds of a file that was cut. -/
theorem recover_cut (h : p.Sound issued separator r earlier sink) {cut : Nat}
    (hcut : cut ≤ sink.writer.file.length)
    (hnone : ∀ at_ : Nat,
      (Journal.Frame.decode ((Journal.fragment sink.handed cut).drop at_)).isOk = false) :
    ∃ found t, recover (sink.writer.file.take cut) = .ok found ∧ found.inFlight = t.inFlight ∧
      Tally.Follows t
        (decoded (sink.handed.take (Journal.wholeBefore sink.handed cut))) := by
  have hfile : sink.writer.file.take cut =
      (Journal.Reader.written (Journal.framesFrom 0 sink.handed)).take cut := by
    rw [List.prefix_iff_eq_take.mp h.kept.file, List.take_take, Nat.min_eq_left hcut]
  obtain ⟨stop, hreplay, -, -⟩ :=
    Journal.replay_cut h.kept.room (hcut.trans h.kept.file.length_le) hnone
  have hfollows := Tally.follows_framesFrom
    (sink.handed.take (Journal.wholeBefore sink.handed cut))
  generalize ht : (Journal.framesFrom 0 (sink.handed.take (Journal.wholeBefore sink.handed
    cut))).foldl Tally.frame Tally.empty = t at hfollows
  have hrecover : recover (sink.writer.file.take cut) =
      .ok { t.out with inFlight := t.inFlight } := by
    unfold recover
    rw [hfile, hreplay, ← ht]
  exact ⟨_, t, hrecover, rfl, hfollows⟩

end Process.Sound

/-- **No orphan orders.**  Of a session that keeps a journal and numbers its orders from a
reserved range, whatever it is asked, whatever the venue answers, and wherever the journal
fails: an order is placed only after its submission is in the journal and out of the
process; once the journal failed none is placed; the numbers rise and are of the range; and
of the file cut anywhere, recovering lists every placed order whose submission is left and
of which nothing left says that it was accepted or rejected, and lists exactly the orders
whose last outcome left is absent or unknown, once each, in the order they were sent. -/
theorem no_orphan_orders {session session' : Session} {r : IdRange} {sink : Sink}
    (hworking : sink.Working) (hrange : session.withOrderIdRange r = .ok session')
    (actions : List Action) :
    ∃ last p, p = (Process.journalling session' sink).run actions ∧
      p.session.journal = some last ∧
      last.writer.file <+: Journal.Reader.written (Journal.framesFrom 0 last.handed) ∧
      (∀ q ∈ p.placed, q.flushed ≤ last.writer.file.length ∧
        ∃ i record, last.handed[i]? = some record ∧
          Record.decode record.kind record.payload = some (q.order.submitted q.at_) ∧
          Journal.boundary last.handed (i + 1) = q.flushed) ∧
      (p.session.journalLost.isSome = true → ∀ more, (p.run more).placed = p.placed) ∧
      (p.placed.Pairwise (fun a b => a.sequence < b.sequence) ∧ ∀ q ∈ p.placed, q.sequence ∈ r ∧
        q.order.clientId = IdRules.clientId session.issued session.separator q.sequence) ∧
      ∀ cut ≤ last.writer.file.length,
        (∀ at_ : Nat,
          (Journal.Frame.decode ((Journal.fragment last.handed cut).drop at_)).isOk = false) →
        ∃ m found, (∀ i < last.handed.length, i < m ↔ Journal.boundary last.handed (i + 1) ≤ cut) ∧
          recover (last.writer.file.take cut) = .ok found ∧
          found.inFlight.map (·.clientId) =
            (submittedIds (decoded (last.handed.take m))).eraseDups.filter
              (unaccounted (decoded (last.handed.take m))) ∧
          (∀ q ∈ p.placed, q.flushed ≤ cut →
            (∀ at_ tag detail, .outcome at_ q.order.clientId tag detail ∈
              decoded (last.handed.take m) → tag = .unknown) →
            q.order.clientId ∈ found.inFlight.map (·.clientId)) ∧
          ((∀ q ∈ p.placed, q.order.clientId ∉ submittedIds (decoded sink.handed)) →
            ∀ n, (∀ q ∈ p.placed.take n, q.flushed ≤ cut) →
              (((p.placed.take n).map (·.order.clientId)).filter
                (unaccounted (decoded (last.handed.take m)))).Sublist
                  (found.inFlight.map (·.clientId))) := by
  obtain ⟨start, hstart⟩ := Process.sound_journalling hrange hworking
  obtain ⟨last, hsound⟩ := hstart.run actions
  refine ⟨last, _, rfl, hsound.journal, hsound.kept.file, ?_, ?_, ⟨hsound.rises, ?_⟩, ?_⟩
  · intro q hq
    obtain ⟨before, after, hplaced⟩ := List.append_of_mem hq
    exact ⟨hsound.flushed q hq, (hsound.recorded before q after hplaced).submitted⟩
  · intro hlost more
    exact Process.run_lost (by rw [hsound.journal]; exact nofun) hlost more
  · intro q hq
    exact (hsound.numbered q hq).2
  · -- what a cut leaves is the records before it that are whole
    intro cut hcut hnone
    obtain ⟨found, t, hrecover, hinFlight, hfollows⟩ := hsound.recover_cut hcut hnone
    have hids := hfollows.inFlight_ids
    rw [← hinFlight] at hids
    refine ⟨_, found, fun i hi => Journal.lt_wholeBefore_iff hi, hrecover, hids, ?_, ?_⟩
    · intro q hq hflushed hunknown
      obtain ⟨before, after, hplaced⟩ := List.append_of_mem hq
      have hprefix := (hsound.recorded before q after hplaced).survives hflushed
      have hmem : q.order.clientId ∈ submittedIds (decoded
          (last.handed.take (Journal.wholeBefore last.handed cut))) :=
        hprefix.subset (by simp)
      rw [hids, List.mem_filter, List.mem_eraseDups]
      exact ⟨hmem, unaccounted_of_forall hunknown⟩
    · intro hnew n hflushed
      rw [hids]
      exact (hsound.placed_sublist hnew hflushed).filter _

/-! ### A refusal that spells a frame -/

/-- A session on a one-way account, and a new journal. -/
def trial : Session :=
  .connected "oq99" "-" "ETHUSDT" ⟨2, 3, 100_000_000⟩ .oneWay
    (.new ⟨1000, 1000, 1_000_000_000_000_000, 1_000_000_000, 10, 10, 1_000_000_000⟩)

def newJournal : Sink := ⟨⟨[], 0, 0, false, none, []⟩, 0, []⟩

theorem newJournal_working : newJournal.Working := ⟨rfl, rfl, rfl, by decide, rfl⟩

theorem trial_range :
    trial.withOrderIdRange ⟨1, 10⟩ = .ok { trial with ids := ⟨0, 10⟩ } := rfl

/-- An order refused with a text whose bytes are those of a frame with an empty payload. -/
def forgedRefusal : Action :=
  .submit ⟨.buy, some 200_000, 10, false⟩ ⟨0, 200_000, 0⟩ 7
    (.rejected "OQRJ\x01\x00\x00\x00\x03\x00\x00\x00\x00\x00\x00\x00\x00\x00\x00\x004\x08M5")
    (.ok none)

/-- The session after that order. -/
def refusedRun : Process :=
  (Process.journalling { trial with ids := ⟨0, 10⟩ } newJournal).run [forgedRefusal]

/-- A crash that cuts the record of the refusal behind that text leaves a journal that
cannot be read, and an order that was placed and whose submission is in it. -/
theorem refusedRun_unreadable :
    trial.withOrderIdRange ⟨1, 10⟩ = .ok { trial with ids := ⟨0, 10⟩ } ∧ newJournal.Working ∧
      refusedRun.placed.map (fun q => (q.order.clientId, q.flushed)) = [("oq99-1", 113)] ∧
      ∃ last, refusedRun.session.journal = some last ∧ 180 ≤ last.writer.file.length ∧
        recover (last.writer.file.take 180) = .error (.corrupt 113 (.incomplete 71 67)) := by
  refine ⟨trial_range, newJournal_working, by decide +kernel, ?_⟩
  have hthere : refusedRun.session.journal.isSome = true := by decide +kernel
  obtain ⟨last, hlast⟩ := Option.isSome_iff_exists.mp hthere
  have hget : last = refusedRun.session.journal.getD newJournal := by rw [hlast]; rfl
  refine ⟨last, hlast, by rw [hget]; decide +kernel, ?_⟩
  -- the file holds two whole records, and the beginning of a third
  have hnumbered := Journal.numbered_framesFrom 0 (last.handed.take 2)
    (Nat.lt_of_le_of_lt (Nat.add_le_add_left (List.length_take_le 2 _) 0) (by decide))
  have hfront : Journal.Reader.written (Journal.framesFrom 0 (last.handed.take 2)) =
      (last.writer.file.take 180).take 113 := by
    rw [hget]
    decide +kernel
  have hcut : Journal.Frame.decode ((last.writer.file.take 180).drop 113) =
      .error (.incomplete 71 67) := by
    rw [hget]
    decide +kernel
  have hforged : (Journal.Frame.decode (((last.writer.file.take 180).drop 113).drop 43)).isOk =
      true := by
    rw [hget]
    decide +kernel
  have hlength : (Journal.Reader.written
      (Journal.framesFrom 0 (last.handed.take 2))).length = 113 := by
    rw [hget]
    decide +kernel
  have hreplay := Journal.Reader.replay_embedded hnumbered hcut hforged
  rw [hlength, hfront, List.take_append_drop] at hreplay
  rw [recover, hreplay]

/-- Of the same session, cut right behind the submission: the order is in flight. -/
theorem no_orphan_orders_refusedRun :
    ∃ last, refusedRun.session.journal = some last ∧
      ∃ m found, (∀ i < last.handed.length,
          i < m ↔ Journal.boundary last.handed (i + 1) ≤ 113) ∧
        recover (last.writer.file.take 113) = .ok found ∧
        ∀ q ∈ refusedRun.placed, q.flushed ≤ 113 →
          (∀ at_ tag detail, .outcome at_ q.order.clientId tag detail ∈
            decoded (last.handed.take m) → tag = .unknown) →
          q.order.clientId ∈ found.inFlight.map (·.clientId) := by
  obtain ⟨last, p, hp, hlast, -, -, -, -, hcuts⟩ :=
    no_orphan_orders newJournal_working (r := ⟨1, 10⟩) trial_range [forgedRefusal]
  obtain rfl : p = refusedRun := hp
  have hget : last = refusedRun.session.journal.getD newJournal := by rw [hlast]; rfl
  have hcut : 113 ≤ last.writer.file.length := by rw [hget]; decide +kernel
  have hnothing : Journal.fragment last.handed 113 = [] := by rw [hget]; decide +kernel
  obtain ⟨m, found, hm, hfound, -, hlisted, -⟩ := hcuts 113 hcut fun at_ => by
    rw [hnothing, List.drop_nil]
    rfl
  exact ⟨last, hlast, m, found, hm, hfound, hlisted⟩

end Live
