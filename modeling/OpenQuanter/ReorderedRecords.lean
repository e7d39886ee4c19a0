/-
# What a reordering repairs (`oq-l2feed/src/bin/oq-resequence.rs`)

The records that have a number in the venue's sequence come out in its order, each number once.
Every other record is anchored to the last number that arrived before it and travels with it
(`Repairs`). A file that is in order comes out as it is, and so does what was reordered before
(`reorder_repairs`).

A record is told from its copies by its place in the file.
-/
import OpenQuanter.CaptureTools
import OpenQuanter.FirstCopies

namespace Capture.Resequence

open FirstCopies

section Keys

variable (finalId : List UInt8 → Option UInt64)

/-- The number of a record in the venue's sequence, if it has one. -/
def number (r : Record) : Option UInt64 := if r.kind = .control then none else finalId r.payload

/-- The last number that arrived before a place. -/
def anchor (records : List Record) (n : ℕ) : Option UInt64 :=
  ((records.take n).filterMap (number finalId)).getLast?

/-- What the record at a place goes by: its number, or its anchor. -/
def keyAt (records : List Record) (n : ℕ) : Option UInt64 :=
  (records[n]?.bind (number finalId)).or (anchor finalId records n)

theorem keyed_none {r : Record} (h : number finalId r = none) (a : Option UInt64)
    (rs : List Record) : keyed finalId a (r :: rs) = ⟨a, r, false⟩ :: keyed finalId a rs := by
  unfold number at h
  rw [keyed, h]

theorem keyed_some {r : Record} {id : UInt64} (h : number finalId r = some id)
    (a : Option UInt64) (rs : List Record) :
    keyed finalId a (r :: rs) = ⟨some id, r, true⟩ :: keyed finalId (some id) rs := by
  unfold number at h
  rw [keyed, h]

theorem map_record_keyed (a : Option UInt64) (rs : List Record) :
    (keyed finalId a rs).map Keyed.record = rs := by
  induction rs generalizing a with
  | nil => rfl
  | cons r rs ih =>
    cases h : number finalId r with
    | none => rw [keyed_none finalId h, List.map_cons, ih]
    | some id => rw [keyed_some finalId h, List.map_cons, ih]

/-- A record at its place, with its key. -/
structure At (records : List Record) (k : Keyed) (n : ℕ) : Prop where
  record : records[n]? = some k.record
  key : k.key = keyAt finalId records n
  sequenced : k.sequenced = (number finalId k.record).isSome

/-- What is keyed is keyed by its number or by the last one before it. -/
theorem getElem?_keyed (a : Option UInt64) (rs : List Record) (n : ℕ) :
    (keyed finalId a rs)[n]? = rs[n]?.map fun r =>
      ⟨(number finalId r).or ((anchor finalId rs n).or a), r, (number finalId r).isSome⟩ := by
  induction rs generalizing a n with
  | nil => rfl
  | cons r rs ih =>
    cases h : number finalId r with
    | none =>
      rw [keyed_none finalId h]
      cases n with
      | zero => simp [anchor, h]
      | succ n => simp [anchor, h, ih]
    | some id =>
      rw [keyed_some finalId h]
      cases n with
      | zero => simp [h]
      | succ n =>
        rw [List.getElem?_cons_succ, List.getElem?_cons_succ, ih]
        -- The number just read is the anchor until the next one arrives.
        have hanchor : ((anchor finalId (r :: rs) (n + 1)).or a) =
            (anchor finalId rs n).or (some id) := by
          simp only [anchor, List.take_succ_cons, List.filterMap_cons, h, List.getLast?_cons]
          cases ((rs.take n).filterMap (number finalId)).getLast? <;> rfl
        rw [hanchor]

theorem at_of_mem {records : List Record} {z : Keyed × ℕ}
    (h : z ∈ (keyed finalId none records).zipIdx) : At finalId records z.1 z.2 := by
  have hget := List.mem_zipIdx_iff_getElem?.mp h
  rw [getElem?_keyed, Option.map_eq_some_iff] at hget
  obtain ⟨r, hr, hz⟩ := hget
  rw [← hz]
  refine ⟨hr, ?_, rfl⟩
  simp [keyAt, hr]

end Keys

/-! ## Sorting and dropping -/

theorem keyLe_trans (a b c : Keyed) (hab : keyLe a b = true) (hbc : keyLe b c = true) :
    keyLe a c = true := by
  unfold keyLe at *
  cases ha : a.key with
  | none => rfl
  | some x =>
    cases hb : b.key with
    | none => simp [ha, hb] at hab
    | some y =>
      cases hc : c.key with
      | none => simp [hb, hc] at hbc
      | some z =>
        simp only [ha, hb, hc, decide_eq_true_eq] at hab hbc ⊢
        exact UInt64.le_trans hab hbc

theorem keyLe_total (a b : Keyed) : (keyLe a b || keyLe b a) = true := by
  unfold keyLe
  cases a.key with
  | none => rfl
  | some x =>
    cases b.key with
    | none => rfl
    | some y => simpa using UInt64.le_total x y

/-- The number by which repeats are told. -/
def ownKey (z : Keyed × ℕ) : Option (Option UInt64) :=
  if z.1.sequenced then some z.1.key else none

theorem dropRepeats_map (seen : List (Option UInt64)) (placed : List (Keyed × ℕ)) :
    dropRepeats seen (placed.map Prod.fst) =
      (dropSeen ownKey seen placed).map (·.1.record) := by
  induction placed generalizing seen with
  | nil => rfl
  | cons z placed ih =>
    rw [List.map_cons, dropRepeats]
    cases hseq : z.1.sequenced with
    | false =>
      rw [dropSeen_none ownKey (by simp [ownKey, hseq]), List.map_cons, ← ih]
      rfl
    | true =>
      have hkey : ownKey z = some z.1.key := by simp [ownKey, hseq]
      by_cases hmem : z.1.key ∈ seen
      · rw [dropSeen_seen ownKey hkey hmem, ← ih, if_pos (by simpa using hmem)]
      · rw [dropSeen_new ownKey hkey hmem, List.map_cons, ← ih, if_neg (by simpa using hmem)]
        rfl

/-! ## What is kept -/

section Kept

variable (finalId : List UInt8 → Option UInt64)

theorem At.key_of_number {finalId} {records : List Record} {k : Keyed} {n : ℕ} {id : UInt64}
    (h : At finalId records k n) (hid : number finalId k.record = some id) : k.key = some id := by
  rw [h.key, keyAt, h.record, Option.bind_some, hid, Option.some_or]

theorem At.ownKey_eq {finalId} {records : List Record} {z : Keyed × ℕ}
    (h : At finalId records z.1 z.2) : ownKey z = (number finalId z.1.record).map some := by
  rw [ownKey, h.sequenced]
  cases hid : number finalId z.1.record with
  | none => rfl
  | some id => exact congrArg some (h.key_of_number hid)

theorem keyLe_of_eq {a b : Keyed} (h : a.key = b.key) : keyLe a b = true := by
  unfold keyLe
  rw [h]
  cases b.key with
  | none => rfl
  | some x => exact decide_eq_true (UInt64.le_refl x)

/-- What is kept of some records, in its new order. -/
structure Kept (records : List Record) (kept : List (Keyed × ℕ)) : Prop where
  at_ : ∀ z ∈ kept, At finalId records z.1 z.2
  sorted : kept.Pairwise (Earlier keyLe)
  places : (kept.map Prod.snd).Nodup
  once : kept.Pairwise fun z w => ∀ k, ownKey z = some k → ownKey w ≠ some k
  others : ∀ n r, records[n]? = some r → number finalId r = none → ∃ z ∈ kept, z.2 = n
  first : ∀ n r id, records[n]? = some r → number finalId r = some id →
    ∃ z ∈ kept, number finalId z.1.record = some id ∧ z.2 ≤ n

theorem exists_kept (records : List Record) : ∃ kept : List (Keyed × ℕ),
    kept.map (·.1.record) = reorder finalId records ∧ Kept finalId records kept := by
  obtain ⟨placed, hfst, hperm, hsorted⟩ :=
    exists_places keyLe_trans keyLe_total (keyed finalId none records)
  have hat : ∀ z ∈ placed, At finalId records z.1 z.2 :=
    fun z hz => at_of_mem finalId (hperm.mem_iff.mp hz)
  have hsub := dropSeen_sublist ownKey [] placed
  have hnodup := nodup_places hperm
  -- Each place of the input is among those that were sorted.
  have hplaced : ∀ n r, records[n]? = some r → ∃ z ∈ placed, z.2 = n ∧ z.1.record = r := by
    intro n r hr
    have hget := getElem?_keyed finalId none records n
    rw [hr] at hget
    exact ⟨(_, n), hperm.mem_iff.mpr (List.mk_mem_zipIdx_iff_getElem?.mpr hget), rfl, rfl⟩
  refine ⟨dropSeen ownKey [] placed, ?_, fun z hz => hat z (hsub.subset hz), hsorted.sublist hsub,
    hnodup.sublist (hsub.map Prod.snd), dropSeen_pairwise ownKey [] placed, ?_, ?_⟩
  · rw [← dropRepeats_map, hfst]
    rfl
  · intro n r hr hnone
    obtain ⟨z, hz, hn, rfl⟩ := hplaced n r hr
    refine ⟨z, mem_dropSeen_of_none ownKey ?_ [] hz, hn⟩
    rw [(hat z hz).ownKey_eq, hnone]
    rfl
  · intro n r id hr hsome
    obtain ⟨z, hz, hn, rfl⟩ := hplaced n r hr
    have hkey : ownKey z = some (some id) := by
      rw [(hat z hz).ownKey_eq, hsome]
      rfl
    obtain ⟨w, hw, hwkey, hbefore⟩ := exists_first ownKey hkey List.not_mem_nil hz
    have hwat := hat w (hsub.subset hw)
    rw [hwat.ownKey_eq, Option.map_eq_some_iff] at hwkey
    obtain ⟨id', hwid, heq⟩ := hwkey
    rw [Option.some.inj heq] at hwid
    refine ⟨w, hw, hwid, ?_⟩
    rcases hbefore with rfl | hbefore
    · exact hn.le
    · have hearlier := List.rel_of_pairwise_cons (hsorted.sublist hbefore) List.mem_cons_self
      have hback : keyLe z.1 w.1 = true := keyLe_of_eq
        (((hat z hz).key_of_number hsome).trans (hwat.key_of_number hwid).symm)
      exact hn ▸ hearlier.2 hback

/-- `kept` is a repair of the records, which are taken from `places` in this order. -/
structure Repairs (records kept : List Record) (places : List ℕ) : Prop where
  taken : kept.map some = places.map (records[·]?)
  once : places.Nodup
  increasing : (kept.filterMap (number finalId)).Pairwise (· < ·)
  numbers : ∀ id, id ∈ kept.filterMap (number finalId) ↔ id ∈ records.filterMap (number finalId)
  /-- Each record without a number is kept. -/
  others : ∀ n r, records[n]? = some r → number finalId r = none → n ∈ places
  /-- It is behind the record that carries the number of its anchor. -/
  carried : ∀ n r id, records[n]? = some r → number finalId r = none →
    anchor finalId records n = some id →
    ∃ m q, records[m]? = some q ∧ number finalId q = some id ∧ [m, n].Sublist places
  /-- What goes by no number is first, and before what goes by a larger one. -/
  ascending : ∀ n ∈ places, ∀ m ∈ places, ∀ id, keyAt finalId records m = some id →
    (∀ a, keyAt finalId records n = some a → a < id) → [n, m].Sublist places
  /-- What goes by the same number is in the order in which it arrived. -/
  arrival : ∀ n ∈ places, ∀ m ∈ places, keyAt finalId records n = keyAt finalId records m →
    n < m → [n, m].Sublist places

variable {finalId} {records : List Record} {kept : List (Keyed × ℕ)}

/-- Two places of what is kept are in the order of their keys. -/
theorem Kept.sublist (h : Kept finalId records kept) {z w : Keyed × ℕ} (hz : z ∈ kept)
    (hw : w ∈ kept) (hne : z.2 ≠ w.2) (hnot : ¬ Earlier keyLe w z) :
    [z.2, w.2].Sublist (kept.map Prod.snd) :=
  (pair_sublist_of_pairwise h.sorted hz hw (fun heq => hne (congrArg Prod.snd heq)) hnot).map
    Prod.snd

theorem Kept.arrival (h : Kept finalId records kept) {z w : Keyed × ℕ} (hz : z ∈ kept)
    (hw : w ∈ kept) (hkey : z.1.key = w.1.key) (hlt : z.2 < w.2) :
    [z.2, w.2].Sublist (kept.map Prod.snd) := by
  refine h.sublist hz hw hlt.ne fun hearlier => ?_
  have hle := hearlier.2 (keyLe_of_eq hkey)
  omega

/-- A number that is not behind another one and is another is smaller. -/
theorem lt_of_keyLe {a b : Keyed} {x y : UInt64} (ha : a.key = some x) (hb : b.key = some y)
    (hle : keyLe a b = true) (hne : x ≠ y) : x < y := by
  rw [keyLe, ha, hb] at hle
  exact UInt64.lt_of_le_of_ne (of_decide_eq_true hle) hne

theorem Kept.increasing (h : Kept finalId records kept) :
    ((kept.map (·.1.record)).filterMap (number finalId)).Pairwise (· < ·) := by
  rw [List.filterMap_map, List.pairwise_filterMap]
  refine (h.sorted.and h.once).imp_of_mem ?_
  rintro z w hz hw ⟨hearlier, honce⟩ x hx y hy
  have hzat := h.at_ z hz
  have hwat := h.at_ w hw
  refine lt_of_keyLe (hzat.key_of_number hx) (hwat.key_of_number hy) hearlier.1 ?_
  rintro rfl
  -- Two of one number would both have been kept.
  refine honce (some x) ?_ ?_
  · rw [hzat.ownKey_eq, show number finalId z.1.record = some x from hx, Option.map_some]
  · rw [hwat.ownKey_eq, show number finalId w.1.record = some x from hy, Option.map_some]

theorem Kept.numbers (h : Kept finalId records kept) (id : UInt64) :
    id ∈ (kept.map (·.1.record)).filterMap (number finalId) ↔
      id ∈ records.filterMap (number finalId) := by
  rw [List.mem_filterMap, List.mem_filterMap]
  constructor
  · rintro ⟨r, hr, hid⟩
    obtain ⟨z, hz, rfl⟩ := List.mem_map.mp hr
    exact ⟨z.1.record, List.mem_of_getElem? (h.at_ z hz).record, hid⟩
  · rintro ⟨r, hr, hid⟩
    obtain ⟨n, hn⟩ := List.mem_iff_getElem?.mp hr
    obtain ⟨z, hz, hzid, -⟩ := h.first n r id hn hid
    exact ⟨z.1.record, List.mem_map_of_mem hz, hzid⟩

/-- The anchor of a place is a number that arrived before it. -/
theorem exists_of_anchor {n : ℕ} {id : UInt64} (h : anchor finalId records n = some id) :
    ∃ m q, m < n ∧ records[m]? = some q ∧ number finalId q = some id := by
  obtain ⟨q, hq, hid⟩ := List.mem_filterMap.mp (List.mem_of_getLast? h)
  obtain ⟨m, hm⟩ := List.mem_iff_getElem?.mp hq
  rw [List.getElem?_take] at hm
  split at hm <;> rename_i hlt
  · exact ⟨m, q, hlt, hm, hid⟩
  · cases hm

theorem Kept.carried (h : Kept finalId records kept) {n : ℕ} {r : Record} {id : UInt64}
    (hr : records[n]? = some r) (hnone : number finalId r = none)
    (hanchor : anchor finalId records n = some id) :
    ∃ m q, records[m]? = some q ∧ number finalId q = some id ∧
      [m, n].Sublist (kept.map Prod.snd) := by
  obtain ⟨w, hw, rfl⟩ := h.others n r hr hnone
  obtain ⟨m, q, hlt, hq, hid⟩ := exists_of_anchor hanchor
  -- The copy that is kept arrived no later than the one that is the anchor.
  obtain ⟨z, hz, hzid, hle⟩ := h.first m q id hq hid
  refine ⟨z.2, z.1.record, (h.at_ z hz).record, hzid, h.arrival hz hw ?_ (by omega)⟩
  rw [(h.at_ z hz).key_of_number hzid, (h.at_ w hw).key, keyAt, hr, Option.bind_some, hnone,
    Option.none_or, hanchor]

theorem Kept.ascending (h : Kept finalId records kept) {z w : Keyed × ℕ} (hz : z ∈ kept)
    (hw : w ∈ kept) {id : UInt64} (hkey : w.1.key = some id)
    (hbelow : ∀ a, z.1.key = some a → a < id) : [z.2, w.2].Sublist (kept.map Prod.snd) := by
  have hnot : ¬ keyLe w.1 z.1 = true := by
    intro hle
    cases hzkey : z.1.key with
    | none => simp [keyLe, hkey, hzkey] at hle
    | some a =>
      rw [keyLe, hkey, hzkey] at hle
      exact absurd (hbelow a hzkey) (UInt64.not_lt.mpr (of_decide_eq_true hle))
  refine h.sublist hz hw (fun heq => hnot ?_) fun hearlier => hnot hearlier.1
  refine keyLe_of_eq ?_
  rw [(h.at_ z hz).key, (h.at_ w hw).key, heq]

theorem repairs_of_kept (h : Kept finalId records kept) :
    Repairs finalId records (kept.map (·.1.record)) (kept.map Prod.snd) := by
  refine ⟨?_, h.places, h.increasing, h.numbers, fun n r hr hnone => ?_,
    fun n r id hr hnone hanchor => h.carried hr hnone hanchor, ?_, ?_⟩
  · rw [List.map_map, List.map_map]
    exact List.map_congr_left fun z hz => (h.at_ z hz).record.symm
  · obtain ⟨z, hz, rfl⟩ := h.others n r hr hnone
    exact List.mem_map_of_mem hz
  · intro n hn m hm id hkey hbelow
    obtain ⟨z, hz, rfl⟩ := List.mem_map.mp hn
    obtain ⟨w, hw, rfl⟩ := List.mem_map.mp hm
    refine h.ascending hz hw ((h.at_ w hw).key.trans hkey) fun a ha => hbelow a ?_
    exact (h.at_ z hz).key.symm.trans ha
  · intro n hn m hm hkey hlt
    obtain ⟨z, hz, rfl⟩ := List.mem_map.mp hn
    obtain ⟨w, hw, rfl⟩ := List.mem_map.mp hm
    exact h.arrival hz hw (((h.at_ z hz).key.trans hkey).trans (h.at_ w hw).key.symm) hlt

end Kept

/-! ## Files that are in order -/

section InOrder

variable {finalId : List UInt8 → Option UInt64}

/-- In a file in order the keys are sorted, and none is before what arrived last. -/
theorem keyed_sorted {rs : List Record} {a : Option UInt64}
    (habove : ∀ x, a = some x → ∀ id ∈ rs.filterMap (number finalId), x < id)
    (hincreasing : (rs.filterMap (number finalId)).Pairwise (· < ·)) :
    (keyed finalId a rs).Pairwise (keyLe · ·) ∧
      ∀ x, a = some x → ∀ k ∈ keyed finalId a rs, ∃ y, k.key = some y ∧ x ≤ y := by
  induction rs generalizing a with
  | nil => exact ⟨List.Pairwise.nil, fun _ _ k hk => nomatch hk⟩
  | cons q rs ih =>
    -- A key that nothing later is before can stand in front.
    have hhead : ∀ {k : Keyed} {c : Option UInt64}, k.key = c →
        (∀ x, c = some x → ∀ l ∈ keyed finalId c rs, ∃ y, l.key = some y ∧ x ≤ y) →
        ∀ l ∈ keyed finalId c rs, keyLe k l = true := by
      intro k c hk hlater l hl
      unfold keyLe
      cases c with
      | none => rw [hk]
      | some x =>
        obtain ⟨y, hy, hle⟩ := hlater x rfl l hl
        rw [hk, hy]
        exact decide_eq_true hle
    cases h : number finalId q with
    | none =>
      rw [List.filterMap_cons_none h] at habove hincreasing
      obtain ⟨hsorted, hlater⟩ := ih habove hincreasing
      rw [keyed_none finalId h]
      refine ⟨List.pairwise_cons.mpr ⟨hhead rfl hlater, hsorted⟩, fun x hx k hk => ?_⟩
      rcases List.mem_cons.mp hk with rfl | hk
      · exact ⟨x, hx, UInt64.le_refl x⟩
      · exact hlater x hx k hk
    | some id =>
      rw [List.filterMap_cons_some h] at habove hincreasing
      obtain ⟨hid, hrest⟩ := List.pairwise_cons.mp hincreasing
      obtain ⟨hsorted, hlater⟩ := ih (a := some id)
        (fun x hx => Option.some.inj hx ▸ hid) hrest
      rw [keyed_some finalId h]
      refine ⟨List.pairwise_cons.mpr ⟨hhead rfl hlater, hsorted⟩, fun x hx k hk => ?_⟩
      have hle := UInt64.le_of_lt (habove x hx id List.mem_cons_self)
      rcases List.mem_cons.mp hk with rfl | hk
      · exact ⟨id, rfl, hle⟩
      · obtain ⟨y, hy, hidy⟩ := hlater id rfl k hk
        exact ⟨y, hy, UInt64.le_trans hle hidy⟩

theorem reorder_eq_self {records : List Record}
    (h : (records.filterMap (number finalId)).Pairwise (· < ·)) :
    reorder finalId records = records := by
  have habove : ∀ x, none = some x → ∀ id ∈ records.filterMap (number finalId), x < id := by
    intro x hx
    cases hx
  have hsorted : (keyed finalId none records).mergeSort keyLe = keyed finalId none records :=
    List.mergeSort_of_pairwise (keyed_sorted habove h).1
  have hrecords : (keyed finalId none records).zipIdx.map (·.1.record) = records := by
    have hmap := List.map_map (g := Keyed.record) (f := Prod.fst)
      (l := (keyed finalId none records).zipIdx)
    rw [List.zipIdx_map_fst, map_record_keyed] at hmap
    exact hmap.symm
  -- Nothing is moved as the keys are sorted, and nothing dropped as the numbers increase.
  have honce : (keyed finalId none records).zipIdx.Pairwise fun z w =>
      ∀ k, ownKey z = some k → ownKey w ≠ some k := by
    rw [← hrecords, List.filterMap_map, List.pairwise_filterMap] at h
    refine h.imp_of_mem fun {z w} hz hw hlt k hzk hwk => ?_
    rw [(at_of_mem finalId hz).ownKey_eq, Option.map_eq_some_iff] at hzk
    rw [(at_of_mem finalId hw).ownKey_eq, Option.map_eq_some_iff] at hwk
    obtain ⟨x, hx, rfl⟩ := hzk
    obtain ⟨y, hy, heq⟩ := hwk
    exact UInt64.lt_irrefl x (Option.some.inj heq ▸ hlt x hx y hy)
  calc reorder finalId records
      = dropRepeats [] ((keyed finalId none records).zipIdx.map Prod.fst) := by
        rw [reorder, hsorted, List.zipIdx_map_fst]
    _ = (keyed finalId none records).zipIdx.map (·.1.record) := by
        rw [dropRepeats_map, dropSeen_eq_self ownKey (fun _ _ _ _ => List.not_mem_nil) honce]
    _ = records := hrecords

end InOrder

/-- **A reordering is a repair**: it takes nothing away but repeats, it leaves a file in order
as it is, and it does nothing the second time. -/
theorem reorder_repairs (finalId : List UInt8 → Option UInt64) (records : List Record) :
    (∃ places, Repairs finalId records (reorder finalId records) places) ∧
    ((records.filterMap (number finalId)).Pairwise (· < ·) → reorder finalId records = records) ∧
    reorder finalId (reorder finalId records) = reorder finalId records := by
  obtain ⟨kept, hmap, hkept⟩ := exists_kept finalId records
  have hrepairs := repairs_of_kept hkept
  rw [hmap] at hrepairs
  exact ⟨⟨_, hrepairs⟩, reorder_eq_self, reorder_eq_self hrepairs.increasing⟩

end Capture.Resequence
