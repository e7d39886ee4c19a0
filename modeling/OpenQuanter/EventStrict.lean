/-
# How strict the decoder is (`Event::decode` of `oq-core/src/event.rs`)

Two questions the round trip does not answer.

* Is a payload that decodes the encoding of what it decodes to?  Yes, but for
  two bytes a reader skips: the flag of a submission's price, where every value
  but 1 reads as "no price", and the field of a value that is absent
  (`encode_of_decode`, `Canonical`).
* Is a payload cut short refused?  Yes, but where one kind has two lengths: a
  named funding charge cut to an unnamed one, and a fill cut to the layout from
  before fees were carried (`decode_take_iff`, `RefusedAt`).
-/
import OpenQuanter.EventCodec

namespace Event

/-! ## Enumerations -/

theorem sideByte_of_sideOf {b : UInt8} {s : Side} (h : sideOf b = some s) : sideByte s = b := by
  unfold sideOf at h
  split at h
  · cases h
    rfl
  · cases h
    rfl
  · cases h

theorem offsetByte_of_offsetOf {b : UInt8} {o : Offset} (h : offsetOf b = some o) :
    offsetByte o = b := by
  unfold offsetOf at h
  split at h
  · cases h
    rfl
  · cases h
    rfl
  · cases h

theorem liquidityByte_of_liquidityOf {b : UInt8} {l : Liquidity} (h : liquidityOf b = some l) :
    liquidityByte l = b := by
  unfold liquidityOf at h
  split at h
  · cases h
    rfl
  · cases h
    rfl
  · cases h

/-! ## Writing back what was read -/

/-- The instrument a payload ends with, if its kind names one. -/
theorem drop_of_instrumentAt {named : Bool} {payload : List UInt8} {i : Nat}
    {instrument : Option InstrumentId} (h : instrumentAt named payload i = some instrument)
    (hlength : payload.length = if named then i + 4 else i) :
    payload.drop i = instrumentBytes instrument ∧ instrument.isSome = named := by
  cases named with
  | false =>
    obtain rfl := Option.some.inj h
    refine ⟨?_, rfl⟩
    rw [List.drop_of_length_le (by simpa using hlength.le)]
    rfl
  | true =>
    obtain ⟨id, hid, rfl⟩ := Option.map_eq_some_iff.mp h
    refine ⟨?_, rfl⟩
    rw [drop_of_u32At hid, List.drop_of_length_le (by simpa using hlength.le), List.append_nil]
    rfl

section Decoders

variable {payload : List UInt8} {e : Event}

theorem encode_of_decodeTick {named : Bool} (h : decodeTick named payload = some e) :
    e.kind = (if named then Kind.tickOn else Kind.tick) ∧ e.encode = payload := by
  simp only [decodeTick, Option.bind_eq_bind, Option.bind_eq_some_iff, expect_eq_some,
    Option.some.injEq, wordAt] at h
  obtain ⟨-, hlength, instrument, hinstrument, exch, hexch, local_, hlocal, last, hlast, high,
    hhigh, low, hlow, bid, hbid, ask, hask, volume, hvolume, rfl⟩ := h
  obtain ⟨hend, rfl⟩ := drop_of_instrumentAt hinstrument hlength
  refine ⟨by cases instrument <;> rfl, ?_⟩
  have hstart : payload = payload.drop 0 := rfl
  rw [hstart, drop_of_i64At hexch, drop_of_i64At hlocal, drop_of_i64At hlast, drop_of_i64At hhigh,
    drop_of_i64At hlow, drop_of_i64At hbid, drop_of_i64At hask, drop_of_i64At hvolume, hend]
  rfl

/-- The bytes of a submission's price: the flag says whether the field is
there, and a field that is not there is zero. -/
def PriceCanonical (payload : List UInt8) : Prop :=
  payload[9]? = some 1 ∨ payload[9]? = some 0 ∧ i64At payload 10 = some 0

/-- A submission is written back exactly when the bytes of its price are. -/
theorem encode_of_decodeSubmit {named : Bool} (h : decodeSubmit false named payload = some e) :
    e.kind = (if named then Kind.submitOn else Kind.submit) ∧
      (e.encode = payload ↔ PriceCanonical payload) := by
  simp only [decodeSubmit, Option.bind_eq_bind, Option.bind_eq_some_iff, expect_eq_some,
    Option.some.injEq, wordAt, Bool.false_eq_true, if_false] at h
  obtain ⟨-, hlength, instrument, hinstrument, offset, ⟨offsetTag, htag, hoffset⟩, id, hid, side,
    ⟨sideTag, hsideTag, hside⟩, flag, hflag, price, hprice, qty, hqty, exch, hexch, local_, hlocal,
    rfl⟩ := h
  obtain ⟨hend, rfl⟩ := drop_of_instrumentAt hinstrument hlength
  refine ⟨by cases instrument <;> rfl, ?_⟩
  have hprice' := drop_of_i64At hprice
  have hqty' := drop_of_i64At hqty
  have hexch' := drop_of_i64At hexch
  have hlocal' := drop_of_i64At hlocal
  rw [List.drop_drop, List.drop_drop] at hprice' hqty' hexch' hlocal'
  have hpayload : payload = u64Bytes id ++ (sideByte side :: flag :: (i64Bytes price ++
      (i64Bytes qty ++ (i64Bytes exch ++ (i64Bytes local_ ++
        (offsetByte offset :: instrumentBytes instrument)))))) := by
    have hstart : payload = payload.drop 0 := rfl
    rw [sideByte_of_sideOf hside, offsetByte_of_offsetOf hoffset, ← hend, ← drop_of_getElem? htag,
      ← hlocal', ← hexch', ← hqty', ← hprice', ← drop_of_getElem? hflag,
      ← drop_of_getElem? hsideTag, ← drop_of_u64At hid]
    exact hstart
  have hflagAt : payload[9]? = some flag := hflag
  have hpriceAt : i64At payload 10 = some price := by
    rw [hpayload]
    simp [i64At, u64At]
  rw [PriceCanonical, hflagAt, hpriceAt]
  -- a flag of 1 is written back, and any other is written as 0 with a zero price
  by_cases hone : flag = 1
  · subst hone
    refine iff_of_true ?_ (Or.inl rfl)
    rw [hpayload]
    rfl
  · rw [hpayload]
    simp only [encode, Option.isSome_none, Bool.false_eq_true, if_false,
      Option.getD_none, List.append_cancel_left_eq, List.cons.injEq, true_and,
      List.append_cancel_right_eq, Option.some.injEq, hone, false_or, i64Bytes_inj]
    constructor
    · rintro ⟨hzero, hprice⟩
      exact ⟨hzero.symm, hprice.symm⟩
    · rintro ⟨hzero, hprice⟩
      exact ⟨hzero.symm, hprice.symm⟩

theorem encode_of_decodeCancel (h : decodeCancel payload = some e) :
    e.kind = Kind.cancel ∧ e.encode = payload := by
  simp only [decodeCancel, Option.bind_eq_bind, Option.bind_eq_some_iff, expect_eq_some,
    Option.some.injEq, wordAt] at h
  obtain ⟨-, hlength, id, hid, exch, hexch, local_, hlocal, rfl⟩ := h
  refine ⟨rfl, ?_⟩
  have hexch' := drop_of_i64At hexch
  have hlocal' := drop_of_i64At hlocal
  rw [List.drop_drop, List.drop_drop] at hexch' hlocal'
  have hstart : payload = payload.drop 0 := rfl
  rw [hstart, drop_of_u64At hid, hexch', hlocal', List.drop_of_length_le hlength.le,
    List.append_nil]
  rfl

theorem encode_of_decodeFunding {named : Bool} (h : decodeFunding named payload = some e) :
    e.kind = (if named then Kind.fundingOn else Kind.funding) ∧ e.encode = payload := by
  simp only [decodeFunding, Option.bind_eq_bind, Option.bind_eq_some_iff, expect_eq_some,
    Option.some.injEq, wordAt] at h
  obtain ⟨-, hlength, instrument, hinstrument, at_, hat, rate, hrate, mark, hmark, rfl⟩ := h
  obtain ⟨hend, rfl⟩ := drop_of_instrumentAt hinstrument hlength
  refine ⟨by cases instrument <;> rfl, ?_⟩
  have hstart : payload = payload.drop 0 := rfl
  rw [hstart, drop_of_i64At hat, drop_of_i64At hrate, drop_of_i64At hmark, hend]
  rfl

theorem encode_of_decodeFundingCharged (h : decodeFundingCharged payload = some e) :
    e.kind = Kind.fundingCharged ∧ e.encode = payload := by
  simp only [decodeFundingCharged, Option.bind_eq_bind, Option.bind_eq_some_iff, Option.some.injEq,
    wordAt] at h
  obtain ⟨instrument, hinstrument, at_, hat, amount, hamount, rfl⟩ := h
  have hend : payload.drop 16 = instrumentBytes instrument := by
    unfold chargedInstrument at hinstrument
    split at hinstrument
    · rename_i hlength
      obtain rfl := Option.some.inj hinstrument
      rw [List.drop_of_length_le hlength.le]
      rfl
    · split at hinstrument
      · rename_i hlength
        obtain ⟨id, hid, rfl⟩ := Option.map_eq_some_iff.mp hinstrument
        rw [drop_of_u32At hid, List.drop_of_length_le hlength.le, List.append_nil]
        rfl
      · exact absurd hinstrument (by simp)
  refine ⟨rfl, ?_⟩
  have hstart : payload = payload.drop 0 := rfl
  rw [hstart, drop_of_i64At hat, drop_of_i64At hamount, hend]
  rfl

theorem encode_of_decodeTime (h : decodeTime payload = some e) :
    e.kind = Kind.time ∧ e.encode = payload := by
  simp only [decodeTime, Option.bind_eq_bind, Option.bind_eq_some_iff, expect_eq_some,
    Option.some.injEq, wordAt] at h
  obtain ⟨-, hlength, at_, hat, rfl⟩ := h
  refine ⟨rfl, ?_⟩
  have hstart : payload = payload.drop 0 := rfl
  rw [hstart, drop_of_i64At hat, List.drop_of_length_le hlength.le, List.append_nil]
  rfl

theorem encode_of_decodeFeeRecovered (h : decodeFeeRecovered payload = some e) :
    e.kind = Kind.feeRecovered ∧ e.encode = payload := by
  simp only [decodeFeeRecovered, Option.bind_eq_bind, Option.bind_eq_some_iff, expect_eq_some,
    Option.some.injEq, wordAt] at h
  obtain ⟨-, hlength, at_, hat, amount, hamount, remaining, hremaining, rfl⟩ := h
  refine ⟨rfl, ?_⟩
  have hstart : payload = payload.drop 0 := rfl
  rw [hstart, drop_of_i64At hat, drop_of_i64At hamount, drop_of_u64At hremaining,
    List.drop_of_length_le hlength.le, List.append_nil]
  rfl

theorem encode_of_decodeMarginDeposit (h : decodeMarginDeposit payload = some e) :
    e.kind = Kind.marginDeposit ∧ e.encode = payload := by
  simp only [decodeMarginDeposit, Option.bind_eq_bind, Option.bind_eq_some_iff, expect_eq_some,
    Option.some.injEq, wordAt] at h
  obtain ⟨-, hlength, amount, hamount, at_, hat, rfl⟩ := h
  refine ⟨rfl, ?_⟩
  have hstart : payload = payload.drop 0 := rfl
  rw [hstart, drop_of_i64At hamount, drop_of_i64At hat, List.drop_of_length_le hlength.le,
    List.append_nil]
  rfl

/-- A fee is written back from every layout that carries one. -/
theorem drop_of_decodeFee {fee : Fee} (h : decodeFee payload = some fee)
    (hlegacy : payload.length ≠ 55) : payload.drop 55 = feeBytes fee := by
  unfold decodeFee at h
  rw [if_neg hlegacy] at h
  split at h
  · rename_i hlength
    obtain ⟨tag, htag, h⟩ := Option.bind_eq_some_iff.mp h
    rw [drop_of_getElem? htag, List.drop_of_length_le hlength.le]
    split at h
    · rename_i hzero
      obtain rfl := Option.some.inj h
      rw [hzero]
      rfl
    · split at h
      · rename_i htwo
        obtain rfl := Option.some.inj h
        rw [htwo]
        rfl
      · exact absurd h (by simp)
  · split at h
    · rename_i hlength
      obtain ⟨tag, htag, h⟩ := Option.bind_eq_some_iff.mp h
      split at h
      · rename_i hone
        obtain ⟨cash, hcash, rfl⟩ := Option.map_eq_some_iff.mp h
        have hcash' : payload.drop 56 = i64Bytes cash ++ payload.drop 64 := drop_of_i64At hcash
        rw [drop_of_getElem? htag, hcash', List.drop_of_length_le hlength.le, List.append_nil, hone]
        rfl
      · exact absurd h (by simp)
    · exact absurd h (by simp)

theorem encode_of_decodeVenueFill (h : decodeVenueFill payload = some e)
    (hlegacy : payload.length ≠ 55) : e.kind = Kind.venueFill ∧ e.encode = payload := by
  simp only [decodeVenueFill, Option.bind_eq_bind, Option.bind_eq_some_iff, Option.some.injEq,
    wordAt] at h
  obtain ⟨fee, hfee, exch, hexch, local_, hlocal, instrument, hinstrument, order, horder, trade,
    htrade, price, hprice, qty, hqty, side, ⟨sideTag, hsideTag, hside⟩, offset,
    ⟨offsetTag, hoffsetTag, hoffset⟩, liquidity, ⟨liquidityTag, hliquidityTag, hliquidity⟩,
    rfl⟩ := h
  refine ⟨rfl, ?_⟩
  have hstart : payload = payload.drop 0 := rfl
  rw [hstart, drop_of_i64At hexch, drop_of_i64At hlocal, drop_of_u32At hinstrument,
    drop_of_u64At horder, drop_of_u64At htrade, drop_of_i64At hprice, drop_of_i64At hqty,
    drop_of_getElem? hsideTag, drop_of_getElem? hoffsetTag, drop_of_getElem? hliquidityTag,
    drop_of_decodeFee hfee hlegacy, ← sideByte_of_sideOf hside, ← offsetByte_of_offsetOf hoffset,
    ← liquidityByte_of_liquidityOf hliquidity]
  rfl

/-- The levels read are what stands behind the header. -/
theorem levels_of_mapM {n : Nat} {levels : List Level}
    (h : (List.range n).mapM (levelAt payload) = some levels) :
    levels.length = n ∧
      payload.drop depthHeader = levels.flatMap levelBytes ++
      payload.drop (depthHeader + n * 16) := by
  induction n generalizing levels with
  | zero =>
    obtain rfl := Option.some.inj h
    exact ⟨rfl, by simp⟩
  | succ n ih =>
    simp only [List.range_succ, List.mapM_append, List.mapM_cons, List.mapM_nil,
      Option.bind_eq_bind, Option.bind_eq_some_iff, Option.pure_def, Option.some.injEq,
        levelAt] at h
    obtain ⟨front, hfront, -, ⟨-, ⟨price, hprice, qty, hqty, rfl⟩, -, rfl, rfl⟩, rfl⟩ := h
    obtain ⟨hcount, hbytes⟩ := ih hfront
    refine ⟨by rw [List.length_append, hcount, List.length_singleton], ?_⟩
    have hnext : depthHeader + (n + 1) * 16 = depthHeader + n * 16 + 8 + 8 := by omega
    rw [hbytes, drop_of_i64At hprice, drop_of_i64At hqty, hnext]
    simp [levelBytes]

/-- The bytes of the id before a depth update: where the flag says there is none
the field is zero. -/
def PrevCanonical (payload : List UInt8) : Prop :=
  payload[32]? = some 0 → u64At payload 24 = some 0

/-- A depth update is written back exactly when the bytes of the previous id
are. -/
theorem encode_of_decodeDepth (h : decodeDepth payload = some e) :
    e.kind = Kind.depth ∧ (e.encode = payload ↔ PrevCanonical payload) := by
  simp only [decodeDepth, Option.bind_eq_bind, Option.bind_eq_some_iff, expect_eq_some,
    Option.some.injEq] at h
  obtain ⟨-, -, prev, hprev, prevFinalId, ⟨flag, hflag, hid⟩, bidCount, hbidCount, askCount,
    haskCount, -, hlength, read, hread, eventMs, hms, firstId, hfirst, finalId, hfinal, rfl⟩ := h
  refine ⟨rfl, ?_⟩
  obtain ⟨hcount, hlevels⟩ := levels_of_mapM hread
  rw [List.drop_of_length_le hlength.le, List.append_nil] at hlevels
  have hpayload : payload = i64Bytes eventMs ++ (u64Bytes firstId ++ (u64Bytes finalId ++
      (u64Bytes prev ++ (flag :: (u32Bytes bidCount ++ (u32Bytes askCount ++
        read.flatMap levelBytes)))))) := by
    have hstart : payload = payload.drop 0 := rfl
    have hlevels' : payload.drop 41 = read.flatMap levelBytes := hlevels
    rw [← hlevels', ← drop_of_u32At haskCount, ← drop_of_u32At hbidCount, ← drop_of_getElem? hflag,
      ← drop_of_u64At hprev, ← drop_of_u64At hfinal, ← drop_of_u64At hfirst, ← drop_of_i64At hms]
    exact hstart
  have hencode : encode (.depth
      { eventMs := eventMs, firstId := firstId, finalId := finalId, prevFinalId := prevFinalId
        bids := read.take bidCount.toNat, asks := read.drop bidCount.toNat }) =
      i64Bytes eventMs ++ (u64Bytes firstId ++ (u64Bytes finalId ++
        (u64Bytes (prevFinalId.getD 0) ++ ((if prevFinalId.isSome then 1 else 0) ::
          (u32Bytes bidCount ++ (u32Bytes askCount ++ read.flatMap levelBytes)))))) := by
    have hbids : UInt32.ofNat (read.take bidCount.toNat).length = bidCount := by
      rw [List.length_take, hcount, Nat.min_eq_left (by omega), UInt32.ofNat_toNat]
    have hasks : UInt32.ofNat (read.drop bidCount.toNat).length = askCount := by
      rw [List.length_drop, hcount, Nat.add_sub_cancel_left, UInt32.ofNat_toNat]
    rw [encode, encodeDepth, hbids, hasks, List.take_append_drop]
  rw [PrevCanonical, hflag, hprev, hencode, hpayload]
  simp only [List.append_cancel_left_eq, Option.some.injEq]
  -- the flag is 0 or 1, and only 0 leaves a field unread
  split at hid
  · rename_i hzero
    obtain rfl := Option.some.inj hid
    simp only [hzero, Option.getD_none, Option.isSome_none, Bool.false_eq_true, if_false,
      List.append_cancel_right_eq, u64Bytes_inj, true_implies]
    exact eq_comm
  · split at hid
    · rename_i hzero hone
      obtain rfl := Option.some.inj hid
      simp [hone]
    · exact absurd hid (by simp)

end Decoders

/-! ## Payloads that are written back -/

theorem some_of_ite {α : Type} {p : Prop} [Decidable p] {x y : Option α} {a : α}
    (h : (if p then x else y) = some a) : p ∧ x = some a ∨ y = some a := by
  split at h
  · rename_i hp
    exact Or.inl ⟨hp, h⟩
  · exact Or.inr h

/-- Which decoder answered. -/
theorem decode_cases {kind : UInt16} {payload : List UInt8} {e : Event}
    (h : decode kind payload = some e) :
    (kind = Kind.tick ∧ decodeTick false payload = some e) ∨
    (kind = Kind.tickOn ∧ decodeTick true payload = some e) ∨
    (kind = Kind.submit ∧ decodeSubmit false false payload = some e) ∨
    (kind = Kind.submitLegacy ∧ decodeSubmit true false payload = some e) ∨
    (kind = Kind.submitOn ∧ decodeSubmit false true payload = some e) ∨
    (kind = Kind.cancel ∧ decodeCancel payload = some e) ∨
    (kind = Kind.funding ∧ decodeFunding false payload = some e) ∨
    (kind = Kind.fundingOn ∧ decodeFunding true payload = some e) ∨
    (kind = Kind.fundingCharged ∧ decodeFundingCharged payload = some e) ∨
    (kind = Kind.time ∧ decodeTime payload = some e) ∨
    (kind = Kind.feeRecovered ∧ decodeFeeRecovered payload = some e) ∨
    (kind = Kind.marginDeposit ∧ decodeMarginDeposit payload = some e) ∨
    (kind = Kind.depth ∧ decodeDepth payload = some e) ∨
    (kind = Kind.venueFill ∧ decodeVenueFill payload = some e) := by
  unfold decode at h
  iterate 13 refine (some_of_ite h).imp_right fun h => ?_
  exact (some_of_ite h).resolve_right (by simp)

/-- The bytes the decoder skips are as the encoder writes them. -/
def Canonical (kind : UInt16) (payload : List UInt8) : Prop :=
  (kind = Kind.submit ∨ kind = Kind.submitOn → PriceCanonical payload) ∧
    (kind = Kind.depth → PrevCanonical payload)

/-- The layouts of earlier builds: a submission without open or close, and a
fill without a fee. -/
def Legacy (kind : UInt16) (payload : List UInt8) : Prop :=
  kind = Kind.submitLegacy ∨ kind = Kind.venueFill ∧ payload.length = 55

instance (kind : UInt16) (payload : List UInt8) : Decidable (Legacy kind payload) :=
  inferInstanceAs (Decidable (_ ∨ _))

/-- A payload that decodes is the encoding of what it decodes to exactly when
the bytes the decoder skips are as the encoder writes them. -/
theorem encode_of_decode {kind : UInt16} {payload : List UInt8} {e : Event}
    (h : decode kind payload = some e) (hlegacy : ¬ Legacy kind payload) :
    (e.kind = kind ∧ e.encode = payload) ↔ Canonical kind payload := by
  have hother : kind ≠ Kind.submit → kind ≠ Kind.submitOn → kind ≠ Kind.depth →
      Canonical kind payload := fun h₁ h₂ h₃ =>
    ⟨fun hsubmit => absurd hsubmit (not_or.mpr ⟨h₁, h₂⟩), fun hdepth => absurd hdepth h₃⟩
  rcases decode_cases h with ⟨rfl, h⟩ | ⟨rfl, h⟩ | ⟨rfl, h⟩ | ⟨rfl, h⟩ | ⟨rfl, h⟩ | ⟨rfl, h⟩ |
    ⟨rfl, h⟩ | ⟨rfl, h⟩ | ⟨rfl, h⟩ | ⟨rfl, h⟩ | ⟨rfl, h⟩ | ⟨rfl, h⟩ | ⟨rfl, h⟩ | ⟨rfl, h⟩
  · exact iff_of_true (encode_of_decodeTick h) (hother (by decide) (by decide) (by decide))
  · exact iff_of_true (encode_of_decodeTick h) (hother (by decide) (by decide) (by decide))
  · obtain ⟨hkind, hencode⟩ := encode_of_decodeSubmit h
    refine (and_iff_right hkind).trans (hencode.trans ⟨fun hprice => ?_, fun h => h.1 (Or.inl rfl)⟩)
    exact ⟨fun _ => hprice, fun hdepth => absurd hdepth (by decide)⟩
  · exact absurd (Or.inl rfl) hlegacy
  · obtain ⟨hkind, hencode⟩ := encode_of_decodeSubmit h
    refine (and_iff_right hkind).trans (hencode.trans ⟨fun hprice => ?_, fun h => h.1 (Or.inr rfl)⟩)
    exact ⟨fun _ => hprice, fun hdepth => absurd hdepth (by decide)⟩
  · exact iff_of_true (encode_of_decodeCancel h) (hother (by decide) (by decide) (by decide))
  · exact iff_of_true (encode_of_decodeFunding h) (hother (by decide) (by decide) (by decide))
  · exact iff_of_true (encode_of_decodeFunding h) (hother (by decide) (by decide) (by decide))
  · exact iff_of_true (encode_of_decodeFundingCharged h)
      (hother (by decide) (by decide) (by decide))
  · exact iff_of_true (encode_of_decodeTime h) (hother (by decide) (by decide) (by decide))
  · exact iff_of_true (encode_of_decodeFeeRecovered h) (hother (by decide) (by decide) (by decide))
  · exact iff_of_true (encode_of_decodeMarginDeposit h)
      (hother (by decide) (by decide) (by decide))
  · obtain ⟨hkind, hencode⟩ := encode_of_decodeDepth h
    refine (and_iff_right hkind).trans (hencode.trans ⟨fun hprev => ?_, fun h => h.2 rfl⟩)
    exact ⟨fun hsubmit => absurd hsubmit (by decide), fun _ => hprev⟩
  · have hlength : payload.length ≠ 55 := fun hlength => hlegacy (Or.inr ⟨rfl, hlength⟩)
    exact iff_of_true (encode_of_decodeVenueFill h hlength)
      (hother (by decide) (by decide) (by decide))

/-- **Strict decoding.**  Outside the layouts of earlier builds, a payload that
decodes has its own kind and is the encoding of what it decodes to exactly when
the bytes the decoder skips are as the encoder writes them, and two such payloads
of one kind do not decode to the same event. -/
theorem decode_strict_iff {kind : UInt16} {payload : List UInt8} {e : Event}
    (h : decode kind payload = some e) (hlegacy : ¬ Legacy kind payload) :
    ((e.kind = kind ∧ e.encode = payload) ↔ Canonical kind payload) ∧
      ∀ other : List UInt8, ¬ Legacy kind other → decode kind other = some e →
        Canonical kind payload → Canonical kind other → other = payload := by
  refine ⟨encode_of_decode h hlegacy, ?_⟩
  intro other hlegacy' h' hcanonical hcanonical'
  obtain ⟨-, hpayload⟩ := (encode_of_decode h hlegacy).mpr hcanonical
  obtain ⟨-, hother⟩ := (encode_of_decode h' hlegacy').mpr hcanonical'
  rw [← hother, hpayload]

/-- A limit order. -/
def limitOrder : Event := .submit (some 3) 1 .sell (some 250) 5 .closing ⟨1, 2⟩

theorem decode_strict_limitOrder :
    ((limitOrder.kind = Kind.submitOn ∧ limitOrder.encode = limitOrder.encode) ↔
        Canonical Kind.submitOn limitOrder.encode) ∧
      ∀ other : List UInt8, ¬ Legacy Kind.submitOn other →
        decode Kind.submitOn other = some limitOrder → Canonical Kind.submitOn limitOrder.encode →
          Canonical Kind.submitOn other → other = limitOrder.encode := by
  have hdecode : decode Kind.submitOn limitOrder.encode = some limitOrder := by decide
  exact decode_strict_iff hdecode (by decide)

/-- A market order whose price flag is 7. -/
def oddFlag : List UInt8 :=
  (Event.submit none 1 .buy none 5 .opening ⟨1, 1⟩).encode.set 9 7

/-- The odd flag is read as a market order, which is written with another
byte. -/
theorem oddFlag_not_strict :
    decode Kind.submit oddFlag = some (.submit none 1 .buy none 5 .opening ⟨1, 1⟩) ∧
      ¬ Legacy Kind.submit oddFlag ∧
      (Event.submit none 1 .buy none 5 .opening ⟨1, 1⟩).encode ≠ oddFlag := by
  decide

/-! ## Payloads cut short -/

/-- The cuts at which the decoder refuses what is left of an event: all but
those that leave a shorter layout of the same kind.  A list of levels too long
for its count is read back as if cut. -/
def RefusedAt : Event → Nat → Prop
  | .fundingCharged (some _) _ _, n => n ≠ 16
  | .venueFill _ _, n => n ≠ 55
  | .depth u, n =>
    n ≠ depthHeader + (u.bids.length % 2 ^ 32 + u.asks.length % 2 ^ 32) * 16
  | _, _ => True

section Cut

variable {payload : List UInt8}

/-! ### One length for a kind -/

theorem decodeTick_eq_none {named : Bool} (h : payload.length ≠ if named then 68 else 64) :
    decodeTick named payload = none := by
  rw [decodeTick, expect, if_neg h]
  rfl

theorem decodeSubmit_eq_none {named : Bool} (h : payload.length ≠ if named then 47 else 43) :
    decodeSubmit false named payload = none := by
  have h' : ¬ payload.length = if false then 42 else if named then 47 else 43 := h
  rw [decodeSubmit, expect, if_neg h']
  rfl

theorem decodeCancel_eq_none (h : payload.length ≠ 24) : decodeCancel payload = none := by
  rw [decodeCancel, expect, if_neg h]
  rfl

theorem decodeFunding_eq_none {named : Bool} (h : payload.length ≠ if named then 28 else 24) :
    decodeFunding named payload = none := by
  rw [decodeFunding, expect, if_neg h]
  rfl

theorem decodeTime_eq_none (h : payload.length ≠ 8) : decodeTime payload = none := by
  rw [decodeTime, expect, if_neg h]
  rfl

theorem decodeFeeRecovered_eq_none (h : payload.length ≠ 24) :
    decodeFeeRecovered payload = none := by
  rw [decodeFeeRecovered, expect, if_neg h]
  rfl

theorem decodeMarginDeposit_eq_none (h : payload.length ≠ 16) :
    decodeMarginDeposit payload = none := by
  rw [decodeMarginDeposit, expect, if_neg h]
  rfl

/-! ### Two lengths -/

theorem decodeFundingCharged_eq_none (hshort : payload.length ≠ 16) (hlong : payload.length ≠ 20) :
    decodeFundingCharged payload = none := by
  rw [decodeFundingCharged, chargedInstrument, if_neg hshort, if_neg hlong]
  rfl

/-- The bytes of a fill before its fee. -/
def fillBytes (f : Fill) : List UInt8 :=
  i64Bytes f.stamp.exch ++ (i64Bytes f.stamp.local_ ++ (u32Bytes f.instrument ++
    (u64Bytes f.order ++ (u64Bytes f.trade ++ (i64Bytes f.price ++ (i64Bytes f.qty ++
      [sideByte f.side, offsetByte f.offset, liquidityByte f.liquidity]))))))

theorem length_fillBytes (f : Fill) : (fillBytes f).length = 55 := by
  simp [fillBytes]

theorem encode_venueFill (f : Fill) (fee : Fee) :
    encode (.venueFill f fee) = fillBytes f ++ feeBytes fee := by
  simp [encode, fillBytes]

/-- A fill without its fee is the layout of an earlier build. -/
theorem decodeVenueFill_fillBytes (f : Fill) :
    decodeVenueFill (fillBytes f) = some (.venueFill f .unsaid) := by
  simp [decodeVenueFill, decodeFee, fillBytes, wordAt, i64At, u64At, u32At]

theorem decodeVenueFill_eq_none (h : decodeFee payload = none) :
    decodeVenueFill payload = none := by
  rw [decodeVenueFill, h]
  rfl

/-- A fill is refused at every cut but the one before its fee. -/
theorem decodeVenueFill_take (f : Fill) (fee : Fee) {n : Nat}
    (hn : n < (encode (.venueFill f fee)).length) :
    decodeVenueFill ((encode (.venueFill f fee)).take n) = none ↔ n ≠ 55 := by
  have hlength : ((encode (.venueFill f fee)).take n).length = n := by
    rw [List.length_take]
    omega
  rw [encode_venueFill] at hn hlength ⊢
  by_cases hold : n = 55
  · have htake : (fillBytes f ++ feeBytes fee).take n = fillBytes f := by
      rw [hold, ← length_fillBytes f, List.take_left]
    rw [htake, decodeVenueFill_fillBytes]
    simp [hold]
  · refine iff_of_true (decodeVenueFill_eq_none ?_) hold
    rw [List.length_append, length_fillBytes] at hn
    unfold decodeFee
    rw [hlength, if_neg hold]
    cases fee with
    | unsaid =>
      have hfee : (feeBytes .unsaid).length = 1 := rfl
      rw [if_neg (by omega), if_neg (by omega)]
    | unreadable =>
      have hfee : (feeBytes .unreadable).length = 1 := rfl
      rw [if_neg (by omega), if_neg (by omega)]
    | reported cash =>
      have hfee : (feeBytes (.reported cash)).length = 9 := by simp [feeBytes]
      by_cases htag : n = 56
      · -- the tag of a reported fee is not one that stands alone
        have hbyte : ((fillBytes f ++ feeBytes (.reported cash)).take n)[55]? = some 1 := by
          rw [List.getElem?_take_of_lt (by omega),
            List.getElem?_append_right (length_fillBytes f).le, length_fillBytes]
          rfl
        rw [if_pos htag, hbyte]
        rfl
      · rw [if_neg htag, if_neg (by omega)]

/-! ### A declared length -/

theorem exists_u64At {i : Nat} (h : i + 8 ≤ payload.length) : ∃ v, u64At payload i = some v := by
  rw [u64At, slice, if_pos h]
  exact ⟨_, rfl⟩

theorem exists_i64At {i : Nat} (h : i + 8 ≤ payload.length) : ∃ v, i64At payload i = some v := by
  obtain ⟨v, hv⟩ := exists_u64At h
  rw [i64At, hv]
  exact ⟨_, rfl⟩

theorem exists_mapM_levelAt {n : Nat} (h : depthHeader + n * 16 ≤ payload.length) :
    ∃ levels, (List.range n).mapM (levelAt payload) = some levels := by
  induction n with
  | zero => exact ⟨[], rfl⟩
  | succ n ih =>
    obtain ⟨front, hfront⟩ := ih (by omega)
    have hfirst : depthHeader + n * 16 + 8 ≤ payload.length := by omega
    have hsecond : depthHeader + n * 16 + 8 + 8 ≤ payload.length := by omega
    obtain ⟨price, hprice⟩ := exists_i64At hfirst
    obtain ⟨qty, hqty⟩ := exists_i64At hsecond
    refine ⟨front ++ [⟨price, qty⟩], ?_⟩
    rw [List.range_succ, List.mapM_append, hfront]
    simp [levelAt, hprice, hqty]

/-- A depth update is refused at every cut but the one its counts declare. -/
theorem decodeDepth_take (u : DepthUpdate) {n : Nat} (hn : n < (encodeDepth u).length) :
    decodeDepth ((encodeDepth u).take n) = none ↔
      n ≠ depthHeader + (u.bids.length % 2 ^ 32 + u.asks.length % 2 ^ 32) * 16 := by
  have hlength : ((encodeDepth u).take n).length = n := by
    rw [List.length_take]
    omega
  by_cases hheader : n < depthHeader
  · refine iff_of_true ?_ (by omega)
    rw [decodeDepth, expect, if_neg (by omega)]
    rfl
  · have hsame : ∀ i w : Nat, i + w ≤ depthHeader →
        slice ((encodeDepth u).take n) i w = slice (encodeDepth u) i w := by
      intro i w hw
      have hwithin : i + w ≤ ((encodeDepth u).take n).length := by omega
      have hsplit := slice_append_of_le hwithin ((encodeDepth u).drop n)
      rw [List.take_append_drop] at hsplit
      exact hsplit.symm
    have hprev : u64At ((encodeDepth u).take n) 24 = some (u.prevFinalId.getD 0) := by
      rw [u64At, hsame 24 8 (by decide)]
      simp [encodeDepth]
    have hflag : ((encodeDepth u).take n)[32]? =
        some (if u.prevFinalId.isSome then 1 else 0) := by
      rw [List.getElem?_take_of_lt (by rw [depthHeader] at hheader; omega)]
      simp [encodeDepth]
    have hbidCount : u32At ((encodeDepth u).take n) 33 = some (UInt32.ofNat u.bids.length) := by
      rw [u32At, hsame 33 4 (by decide)]
      simp [encodeDepth]
    have haskCount : u32At ((encodeDepth u).take n) 37 = some (UInt32.ofNat u.asks.length) := by
      rw [u32At, hsame 37 4 (by decide)]
      simp [encodeDepth]
    unfold decodeDepth
    rw [hprev, hflag, hbidCount, haskCount, expect_of (by omega)]
    simp only [Option.bind_eq_bind, Option.bind_some, prevOf_flag, UInt32.toNat_ofNat', hlength]
    by_cases hdeclared :
        n = depthHeader + (u.bids.length % 2 ^ 32 + u.asks.length % 2 ^ 32) * 16
    · obtain ⟨levels, hlevels⟩ := exists_mapM_levelAt (hdeclared.symm.trans hlength.symm).le
      have hms : 0 + 8 ≤ ((encodeDepth u).take n).length := by
        rw [hlength]
        exact Nat.le_trans (by decide) (Nat.le_of_not_lt hheader)
      have hfirst : 8 + 8 ≤ ((encodeDepth u).take n).length := by
        rw [hlength]
        exact Nat.le_trans (by decide) (Nat.le_of_not_lt hheader)
      have hfinal : 16 + 8 ≤ ((encodeDepth u).take n).length := by
        rw [hlength]
        exact Nat.le_trans (by decide) (Nat.le_of_not_lt hheader)
      obtain ⟨ms, hms⟩ := exists_i64At hms
      obtain ⟨firstId, hfirst⟩ := exists_u64At hfirst
      obtain ⟨finalId, hfinal⟩ := exists_u64At hfinal
      rw [expect_of hdeclared, hlevels, hms, hfirst, hfinal]
      exact iff_of_false (by simp) (not_not.mpr hdeclared)
    · refine iff_of_true ?_ hdeclared
      rw [expect, if_neg hdeclared]
      rfl

end Cut

/-- **A payload cut short is refused**, but where what is left is a shorter
layout of the same kind. -/
theorem decode_take_iff (e : Event) {n : Nat} (hn : n < e.encode.length) :
    decode e.kind (e.encode.take n) = none ↔ RefusedAt e n := by
  have hlength : (e.encode.take n).length = n := by
    rw [List.length_take]
    omega
  cases e with
  | tick instrument t =>
    have hfixed : (encode (.tick instrument t)).length = if instrument.isSome then 68 else 64 := by
      cases instrument <;> simp [encode, instrumentBytes]
    have hnone := decodeTick_eq_none (by rw [hlength, ← hfixed]; exact hn.ne)
    cases instrument <;> exact iff_of_true hnone trivial
  | submit instrument id side price qty offset stamp =>
    have hfixed : (encode (.submit instrument id side price qty offset stamp)).length =
        if instrument.isSome then 47 else 43 := by
      cases instrument <;> simp [encode, instrumentBytes]
    have hnone := decodeSubmit_eq_none (by rw [hlength, ← hfixed]; exact hn.ne)
    cases instrument <;> exact iff_of_true hnone trivial
  | cancel id stamp =>
    have hfixed : (encode (.cancel id stamp)).length = 24 := by simp [encode]
    exact iff_of_true (decodeCancel_eq_none (by omega)) trivial
  | funding instrument at_ rate mark =>
    have hfixed : (encode (.funding instrument at_ rate mark)).length =
        if instrument.isSome then 28 else 24 := by
      cases instrument <;> simp [encode, instrumentBytes]
    have hnone := decodeFunding_eq_none (by rw [hlength, ← hfixed]; exact hn.ne)
    cases instrument <;> exact iff_of_true hnone trivial
  | fundingCharged instrument at_ amount =>
    cases instrument with
    | none =>
      have hfixed : (encode (.fundingCharged none at_ amount)).length = 16 := by
        simp [encode, instrumentBytes]
      exact iff_of_true (decodeFundingCharged_eq_none (by omega) (by omega)) trivial
    | some id =>
      have hfixed : (encode (.fundingCharged (some id) at_ amount)).length = 20 := by
        simp [encode, instrumentBytes]
      by_cases hunnamed : n = 16
      · -- what is left is a charge that names no instrument
        have htake : (encode (.fundingCharged (some id) at_ amount)).take n =
            encode (.fundingCharged none at_ amount) := by
          subst hunnamed
          simp [encode, instrumentBytes, List.take_append]
        rw [htake]
        have hread := decodeFundingCharged_encode none at_ amount
        refine iff_of_false ?_ (not_not.mpr hunnamed)
        intro hnone
        exact absurd (hread.symm.trans hnone) (by simp)
      · exact iff_of_true (decodeFundingCharged_eq_none (by omega) (by omega)) hunnamed
  | feeRecovered at_ amount remaining =>
    have hfixed : (encode (.feeRecovered at_ amount remaining)).length = 24 := by simp [encode]
    exact iff_of_true (decodeFeeRecovered_eq_none (by omega)) trivial
  | time at_ =>
    have hfixed : (encode (.time at_)).length = 8 := by simp [encode]
    exact iff_of_true (decodeTime_eq_none (by omega)) trivial
  | marginDeposit amount at_ =>
    have hfixed : (encode (.marginDeposit amount at_)).length = 16 := by simp [encode]
    exact iff_of_true (decodeMarginDeposit_eq_none (by omega)) trivial
  | venueFill fill fee => exact decodeVenueFill_take fill fee hn
  | depth u => exact decodeDepth_take u hn

/-- A charge that names its instrument is refused at 17 bytes. -/
theorem decode_take_namedCharge :
    decode (Event.fundingCharged (some 7) 1 250).kind
        ((Event.fundingCharged (some 7) 1 250).encode.take 17) = none ↔
      RefusedAt (.fundingCharged (some 7) 1 250) 17 :=
  decode_take_iff (.fundingCharged (some 7) 1 250) (by decide)

/-- A charge that names its instrument, cut to 16 bytes, is one that names
none. -/
theorem namedCharge_cut :
    16 < (Event.fundingCharged (some 7) 1 250).encode.length ∧
      decode (Event.fundingCharged (some 7) 1 250).kind
        ((Event.fundingCharged (some 7) 1 250).encode.take 16) =
          some (.fundingCharged none 1 250) := by
  decide

end Event
