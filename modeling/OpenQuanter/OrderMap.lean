/-
# The order map follows the venue

What is known of the orders of a run: those that the venue was given and may have, those
that are known to have landed, and those whose end was reported (`World`).  `Lives` is
what the map, the open questions and the strategy's own account say of them, apart from
everything else a trader holds; `Follows` is kept by each thing that can happen to an
order (`Follows.sent`, `.unsure`, `.found`, `.denied`, `.tell`, `.forget`), and the
trader's calls are made of these.
-/
import OpenQuanter.Trader

namespace Live

/-! ## The life of an order -/

/-- What a trader knows of its orders. -/
structure Lives where
  live : List (Nat × String)
  /-- Submissions that were not answered. -/
  waiting : List (OrderId × String)
  /-- Every order that was not refused, and those that are known to have landed. -/
  given : List (OrderId × String)
  known : List (OrderId × String)
  /-- Ends that were reported, and those that were acted on. -/
  told : List String
  gone : List String
  /-- The orders the strategy was told the end of. -/
  log : List OrderId

/-- The map is of the orders that are known to have landed and have not ended, and the
strategy was told of those that have. -/
structure Follows (landed : String → Prop) (x : Lives) : Prop where
  sorted : x.live.Pairwise fun a b => a.1 < b.1
  locals : (x.given.map (·.1)).Nodup
  clients : (x.given.map (·.2)).Nodup
  known : ∀ e ∈ x.known, e ∈ x.given
  live : ∀ f, f ∈ x.live ↔ ∃ e ∈ x.known, (e.1.toNat, e.2) = f ∧ e.2 ∉ x.gone
  once : x.waiting.Nodup
  waiting : ∀ e ∈ x.waiting, e ∈ x.given ∧ e ∉ x.known ∧ e.2 ∉ x.told
  rest : ∀ e ∈ x.given, e ∈ x.known ∨ e ∈ x.waiting ∨ ¬ landed e.2
  gone : ∀ c ∈ x.gone, c ∈ x.told
  told : ∀ id ∈ x.log, id ∈ x.given.map (·.1)
  count : ∀ e ∈ x.given, x.log.count e.1 = if e ∈ x.known ∧ e.2 ∈ x.told then 1 else 0

namespace Follows

variable {landed : String → Prop} {x : Lives}

/-- An order is told by its strategy's id, and by its client id. -/
theorem eq_of_local (h : Follows landed x) {e f : OrderId × String} (he : e ∈ x.given)
    (hf : f ∈ x.given) (hid : e.1 = f.1) : e = f :=
  List.inj_on_of_nodup_map h.locals he hf hid

theorem eq_of_client (h : Follows landed x) {e f : OrderId × String} (he : e ∈ x.given)
    (hf : f ∈ x.given) (hid : e.2 = f.2) : e = f :=
  List.inj_on_of_nodup_map h.clients he hf hid

/-- No two entries have one client id. -/
theorem nodup_live (h : Follows landed x) : (x.live.map (·.2)).Nodup := by
  refine List.pairwise_map.mpr (h.sorted.imp_of_mem fun {a b} ha hb hlt heq => ?_)
  obtain ⟨e, he, rfl, -⟩ := (h.live a).mp ha
  obtain ⟨f, hf, rfl, -⟩ := (h.live b).mp hb
  have hsame := h.eq_of_client (h.known e he) (h.known f hf) heq
  rw [hsame] at hlt
  exact lt_irrefl _ hlt

/-- An order that is known to have landed goes into the map. -/
theorem mem_insert (h : Follows landed x) {l : OrderId} {c : String}
    (hnew : ∀ e ∈ x.known, e.1 ≠ l) (f : Nat × String) :
    f ∈ SortedAssoc.upsert l.toNat (fun _ => c) c x.live ↔ f = (l.toNat, c) ∨ f ∈ x.live := by
  refine SortedAssoc.mem_upsert_iff (fun v hv => ?_) h.sorted
  obtain ⟨e, he, hf, -⟩ := (h.live _).mp ((SortedAssoc.find_eq_some_iff h.sorted).mp hv)
  exact absurd (UInt64.toNat_inj.mp (Prod.mk.inj hf).1) (hnew e he)

/-- An order was given to the venue, and may be there or not. -/
theorem unsure (h : Follows landed x) {l : OrderId} {c : String} (hl : l ∉ x.given.map (·.1))
    (hc : c ∉ x.given.map (·.2)) (htold : c ∉ x.told) :
    Follows landed
      { x with given := x.given ++ [(l, c)], waiting := x.waiting ++ [(l, c)] } := by
  have hnew : (l, c) ∉ x.given := fun hmem => hl (List.mem_map_of_mem hmem)
  refine ⟨h.sorted, ?_, ?_, fun e he => List.mem_append_left _ (h.known e he), h.live, ?_,
    fun e he => ?_, fun e he => ?_, h.gone, fun id hid => ?_, fun e he => ?_⟩
  · rw [List.map_append, List.nodup_append]
    exact ⟨h.locals, List.nodup_singleton _, fun a ha b hb => by
      rw [List.mem_singleton.mp hb]; rintro rfl; exact hl ha⟩
  · rw [List.map_append, List.nodup_append]
    exact ⟨h.clients, List.nodup_singleton _, fun a ha b hb => by
      rw [List.mem_singleton.mp hb]; rintro rfl; exact hc ha⟩
  · rw [List.nodup_append]
    refine ⟨h.once, List.nodup_singleton _, fun a ha b hb => ?_⟩
    rw [List.mem_singleton.mp hb]
    rintro rfl
    exact hnew (h.waiting _ ha).1
  · rcases List.mem_append.mp he with he | he
    · exact ⟨List.mem_append_left _ (h.waiting e he).1, (h.waiting e he).2⟩
    · rw [List.mem_singleton.mp he]
      exact ⟨List.mem_append_right _ (List.mem_singleton_self _),
        fun hmem => hnew (h.known _ hmem), htold⟩
  · rcases List.mem_append.mp he with he | he
    · rcases h.rest e he with hknown | hwaits | hnot
      · exact .inl hknown
      · exact .inr (.inl (List.mem_append_left _ hwaits))
      · exact .inr (.inr hnot)
    · exact .inr (.inl (List.mem_append_right _ he))
  · rw [List.map_append]
    exact List.mem_append_left _ (h.told id hid)
  · rcases List.mem_append.mp he with he | he
    · exact h.count e he
    · rw [List.mem_singleton.mp he, if_neg fun hknown => hnew (h.known _ hknown.1)]
      exact List.count_eq_zero_of_not_mem fun hmem => hl (h.told l hmem)

/-- It was found to have landed. -/
theorem found {a b : List (OrderId × String)} {e : OrderId × String} (h : Follows landed x)
    (hx : x.waiting = a ++ e :: b) :
    Follows landed
      { x with
        live := SortedAssoc.upsert e.1.toNat (fun _ => e.2) e.2 x.live
        waiting := a ++ b
        known := x.known ++ [e] } := by
  have hmem : e ∈ x.waiting := hx ▸ List.mem_append_right _ List.mem_cons_self
  obtain ⟨hgiven, hnot, htold⟩ := h.waiting e hmem
  have honce := h.once
  rw [hx] at honce
  have hmid : (e :: (a ++ b)).Nodup := (List.perm_middle.nodup_iff).mp honce
  obtain ⟨hout, hrest⟩ := List.nodup_cons.mp hmid
  have hsub : ∀ e' ∈ a ++ b, e' ∈ x.waiting := by
    intro e' he'
    rw [hx]
    rcases List.mem_append.mp he' with he' | he'
    · exact List.mem_append_left _ he'
    · exact List.mem_append_right _ (List.mem_cons_of_mem _ he')
  have hnew : ∀ e' ∈ x.known, e'.1 ≠ e.1 := fun e' he' hid =>
    hnot (h.eq_of_local (h.known e' he') hgiven hid ▸ he')
  refine ⟨SortedAssoc.pairwise_upsert _ _ _ h.sorted, h.locals, h.clients, fun e' he' => ?_,
    fun f => ?_, hrest, fun e' he' => ?_, fun e' he' => ?_, h.gone, h.told, fun e' he' => ?_⟩
  · rcases List.mem_append.mp he' with he' | he'
    · exact h.known e' he'
    · rwa [List.mem_singleton.mp he']
  · rw [h.mem_insert hnew, h.live]
    constructor
    · rintro (rfl | ⟨e', he', hf, hgone⟩)
      · exact ⟨e, List.mem_append_right _ (List.mem_singleton_self _), rfl,
          fun hgone => htold (h.gone _ hgone)⟩
      · exact ⟨e', List.mem_append_left _ he', hf, hgone⟩
    · rintro ⟨e', he', hf, hgone⟩
      rcases List.mem_append.mp he' with he' | he'
      · exact .inr ⟨e', he', hf, hgone⟩
      · rw [List.mem_singleton.mp he'] at hf
        exact .inl hf.symm
  · obtain ⟨hg, hk, ht⟩ := h.waiting e' (hsub e' he')
    refine ⟨hg, fun hmem => ?_, ht⟩
    rcases List.mem_append.mp hmem with hmem | hmem
    · exact hk hmem
    · rw [List.mem_singleton.mp hmem] at he'
      exact hout he'
  · rcases h.rest e' he' with hknown | hwaits | hno
    · exact .inl (List.mem_append_left _ hknown)
    · rw [hx] at hwaits
      rcases List.mem_append.mp hwaits with hwaits | hwaits
      · exact .inr (.inl (List.mem_append_left _ hwaits))
      · rcases List.mem_cons.mp hwaits with rfl | hwaits
        · exact .inl (List.mem_append_right _ (List.mem_singleton_self _))
        · exact .inr (.inl (List.mem_append_right _ hwaits))
    · exact .inr (.inr hno)
  · rw [h.count e' he']
    by_cases hsame : e' = e
    · rw [hsame, if_neg fun hk => hnot hk.1, if_neg fun hk => htold hk.2]
    · have hiff : e' ∈ x.known ++ [e] ↔ e' ∈ x.known := by
        rw [List.mem_append, List.mem_singleton, or_iff_left hsame]
      simp only [hiff]

/-- It was found that it never landed. -/
theorem denied {a b : List (OrderId × String)} {e : OrderId × String} (h : Follows landed x)
    (hx : x.waiting = a ++ e :: b) (hnot : ¬ landed e.2) :
    Follows landed { x with waiting := a ++ b } := by
  have honce := h.once
  rw [hx] at honce
  have hmid : (e :: (a ++ b)).Nodup := (List.perm_middle.nodup_iff).mp honce
  refine { h with
    once := (List.nodup_cons.mp hmid).2
    waiting := fun e' he' => ?_
    rest := fun e' he' => ?_ }
  · refine h.waiting e' ?_
    rw [hx]
    rcases List.mem_append.mp he' with he' | he'
    · exact List.mem_append_left _ he'
    · exact List.mem_append_right _ (List.mem_cons_of_mem _ he')
  · rcases h.rest e' he' with hknown | hwaits | hno
    · exact .inl hknown
    · rw [hx] at hwaits
      rcases List.mem_append.mp hwaits with hwaits | hwaits
      · exact .inr (.inl (List.mem_append_left _ hwaits))
      · rcases List.mem_cons.mp hwaits with rfl | hwaits
        · exact .inr (.inr hnot)
        · exact .inr (.inl (List.mem_append_right _ hwaits))
    · exact .inr (.inr hno)

/-- An order was given to the venue, and the venue has it: as one that is found at once. -/
theorem sent (h : Follows landed x) {l : OrderId} {c : String} (hl : l ∉ x.given.map (·.1))
    (hc : c ∉ x.given.map (·.2)) (htold : c ∉ x.told) :
    Follows landed
      { x with
        live := SortedAssoc.upsert l.toNat (fun _ => c) c x.live
        given := x.given ++ [(l, c)]
        known := x.known ++ [(l, c)] } := by
  have hfound := (h.unsure hl hc htold).found (a := x.waiting) (b := []) (e := (l, c)) rfl
  rwa [List.append_nil] at hfound

/-- The end of an order that is not in the map is reported. -/
theorem tell_none (h : Follows landed x) {c : String} (hwaits : c ∉ x.waiting.map (·.2))
    (hnone : ∀ f ∈ x.live, f.2 ≠ c) : Follows landed { x with told := x.told ++ [c] } := by
  refine { h with
    waiting := fun e he => ?_
    gone := fun c' hc' => List.mem_append_left _ (h.gone c' hc')
    count := fun e he => ?_ }
  · obtain ⟨hg, hk, ht⟩ := h.waiting e he
    refine ⟨hg, hk, fun hmem => ?_⟩
    rcases List.mem_append.mp hmem with hmem | hmem
    · exact ht hmem
    · exact hwaits (List.mem_singleton.mp hmem ▸ List.mem_map_of_mem he)
  · rw [h.count e he]
    -- what was known of it had ended before
    have hold : e ∈ x.known → e.2 = c → e.2 ∈ x.told := by
      intro hk hsame
      by_contra hnew
      exact hnone (e.1.toNat, e.2) ((h.live _).mpr ⟨e, hk, rfl, fun hg => hnew (h.gone _ hg)⟩) hsame
    have hiff : (e ∈ x.known ∧ e.2 ∈ x.told ++ [c]) ↔ e ∈ x.known ∧ e.2 ∈ x.told := by
      rw [List.mem_append, List.mem_singleton]
      constructor
      · rintro ⟨hk, ht | hsame⟩
        · exact ⟨hk, ht⟩
        · exact ⟨hk, hold hk hsame⟩
      · exact fun hk => ⟨hk.1, .inl hk.2⟩
    simp only [hiff]

/-- The end of an order in the map is reported, and the strategy is told. -/
theorem tell (h : Follows landed x) {e : OrderId × String} (he : e ∈ x.known)
    (hnew : e.2 ∉ x.told) (hwaits : e.2 ∉ x.waiting.map (·.2)) :
    Follows landed { x with told := x.told ++ [e.2], log := x.log ++ [e.1] } := by
  have hgiven := h.known e he
  refine { h with
    waiting := fun e' he' => ?_
    gone := fun c' hc' => List.mem_append_left _ (h.gone c' hc')
    told := fun id hid => ?_
    count := fun e' he' => ?_ }
  · obtain ⟨hg, hk, ht⟩ := h.waiting e' he'
    refine ⟨hg, hk, fun hmem => ?_⟩
    rcases List.mem_append.mp hmem with hmem | hmem
    · exact ht hmem
    · exact hwaits (List.mem_singleton.mp hmem ▸ List.mem_map_of_mem he')
  · rcases List.mem_append.mp hid with hid | hid
    · exact h.told id hid
    · rw [List.mem_singleton.mp hid]
      exact List.mem_map_of_mem hgiven
  · rw [List.count_append, h.count e' he']
    by_cases hsame : e' = e
    · rw [hsame, if_neg fun hk => hnew hk.2,
        if_pos ⟨he, List.mem_append_right _ (List.mem_singleton_self _)⟩, List.count_singleton_self]
    · have hid : e.1 ≠ e'.1 := fun hid => hsame (h.eq_of_local hgiven he' hid).symm
      have hc : e'.2 ≠ e.2 := fun hc => hsame (h.eq_of_client he' hgiven hc)
      have hiff : e'.2 ∈ x.told ++ [e.2] ↔ e'.2 ∈ x.told := by
        rw [List.mem_append, List.mem_singleton, or_iff_left hc]
      have hzero : [e.1].count e'.1 = 0 :=
        List.count_eq_zero_of_not_mem fun hmem => hid (List.mem_singleton.mp hmem).symm
      simp only [hiff, hzero, add_zero]

/-- The association of an order that has ended is forgotten. -/
theorem forget (h : Follows landed x) {c : String} (hc : c ∈ x.told) {live' : List (Nat × String)}
    (hsub : live'.Sublist x.live) (hlive : ∀ f, f ∈ live' ↔ f ∈ x.live ∧ f.2 ≠ c) :
    Follows landed { x with live := live', gone := x.gone ++ [c] } := by
  refine { h with
    sorted := h.sorted.sublist hsub
    live := fun f => ?_
    gone := fun c' hc' => ?_ }
  · rw [hlive, h.live]
    constructor
    · rintro ⟨⟨e, he, rfl, hgone⟩, hne⟩
      refine ⟨e, he, rfl, fun hmem => ?_⟩
      rcases List.mem_append.mp hmem with hmem | hmem
      · exact hgone hmem
      · exact hne (List.mem_singleton.mp hmem)
    · rintro ⟨e, he, rfl, hgone⟩
      exact ⟨⟨e, he, rfl, fun hmem => hgone (List.mem_append_left _ hmem)⟩,
        fun hsame => hgone (List.mem_append_right _ (List.mem_singleton.mpr hsame))⟩
  · rcases List.mem_append.mp hc' with hc' | hc'
    · exact h.gone c' hc'
    · rwa [List.mem_singleton.mp hc']

end Follows

/-! ## Fresh client ids -/

namespace Process

variable {p p' : Process}

/-- The session does not come to choose this client id any more. -/
def Past (p : Process) (c : String) : Prop :=
  ∀ n : UInt64, p.session.ids.sequence < n →
    c ≠ IdRules.clientId p.session.issued p.session.separator n

/-- The names a session gives, after it gave none or some. -/
structure Names (p p' : Process) : Prop where
  issued : p'.session.issued = p.session.issued
  separator : p'.session.separator = p.session.separator
  sequence : p.session.ids.sequence ≤ p'.session.ids.sequence

theorem Names.past (h : Names p p') {c : String} (hc : p.Past c) : p'.Past c := by
  intro n hn
  rw [h.issued, h.separator]
  exact hc n (UInt64.lt_of_le_of_lt h.sequence hn)

theorem names_write (p : Process) (record : Record) :
    Names p (p.write record).2 ∧ (p.write record).2.session.ids = p.session.ids := by
  unfold write
  split
  · exact ⟨⟨rfl, rfl, UInt64.le_refl _⟩, rfl⟩
  · split
    · exact ⟨⟨rfl, rfl, UInt64.le_refl _⟩, rfl⟩
    · split
      · exact ⟨⟨rfl, rfl, UInt64.le_refl _⟩, rfl⟩
      · exact ⟨⟨rfl, rfl, UInt64.le_refl _⟩, rfl⟩
      · exact ⟨⟨rfl, rfl, UInt64.le_refl _⟩, rfl⟩

theorem Names.trans {p'' : Process} (h : Names p p') (h' : Names p' p'') : Names p p'' :=
  ⟨h'.issued.trans h.issued, h'.separator.trans h.separator,
    UInt64.le_trans h.sequence h'.sequence⟩

/-- A client id was chosen on the way from one state of the session to another. -/
def Chosen (p p' : Process) (c : String) : Prop :=
  ∃ n : UInt64, p.session.ids.sequence < n ∧ n ≤ p'.session.ids.sequence ∧
    c = IdRules.clientId p.session.issued p.session.separator n

/-- It was not chosen before. -/
theorem Chosen.ne {c c' : String} (h : Chosen p p' c) (hpast : p.Past c') : c' ≠ c := by
  obtain ⟨n, hlt, -, rfl⟩ := h
  exact hpast n hlt

/-- It is not chosen again. -/
theorem Chosen.past {c : String} (h : Chosen p p' c) (hnames : Names p p') : p'.Past c := by
  obtain ⟨n, -, hle, rfl⟩ := h
  intro m hm heq
  rw [hnames.issued, hnames.separator] at heq
  rw [IdRules.clientId_inj heq] at hle
  exact UInt64.lt_irrefl m (UInt64.lt_of_le_of_lt hle hm)

/-- The order a submission was answered about, unless it was refused. -/
def named : Submission → Option String
  | .sent clientId => some clientId
  | .unresolved clientId _ => some clientId
  | _ => none

section Submitting

variable {answer : Placed} {asked : Except String (Option OrderAck)} {now : Nanos}
  {submitted : Submission}

/-- Whatever is answered, it is about the order that was sent. -/
theorem named_settle {order : NewOrder} {id c : String} (hclient : order.clientId = id)
    (hanswer : ∀ ack, answer = .accepted ack → ack.clientId = id)
    (hasked : ∀ ack, asked = .ok (some ack) → ack.clientId = id)
    (hc : named (settle order answer asked) = some c) : c = id := by
  unfold settle at hc
  split at hc
  · obtain rfl := Option.some.inj hc
    exact hanswer _ rfl
  · cases hc
  · obtain rfl := Option.some.inj hc
    exact hasked _ rfl
  · obtain rfl := Option.some.inj hc
    exact hclient
  · obtain rfl := Option.some.inj hc
    exact hclient

/-- **What sending names**: an order of the next id, or none. -/
theorem send_names {permit : Permit}
    (hanswer : ∀ ack, answer = .accepted ack → ack.clientId = p.nextClientId)
    (hasked : ∀ ack, asked = .ok (some ack) → ack.clientId = p.nextClientId)
    (h : p.send permit now answer asked = (p', some submitted)) :
    Names p p' ∧ ∀ c, named submitted = some c → Chosen p p' c := by
  unfold send at h
  split at h
  · obtain ⟨rfl, hsub⟩ := Prod.mk.inj h
    obtain rfl := Option.some.inj hsub
    exact ⟨⟨rfl, rfl, UInt64.le_refl _⟩, fun c hc => nomatch hc⟩
  split at h
  · obtain ⟨rfl, hsub⟩ := Prod.mk.inj h
    obtain rfl := Option.some.inj hsub
    exact ⟨⟨rfl, rfl, UInt64.le_refl _⟩, fun c hc => nomatch hc⟩
  rename_i sequence ids hnext
  obtain ⟨hid, -, hseq, -⟩ := IdSequence.next_ok hnext
  have hlt : p.session.ids.sequence < sequence := by
    rw [UInt64.lt_iff_toNat_lt]
    omega
  have hclient : (p.session.newOrder permit.order sequence).clientId = p.nextClientId := by
    unfold nextClientId
    rw [hnext]
    rfl
  have hchosen : ∀ {q : Process}, q.session.ids.sequence = sequence →
      Chosen p q p.nextClientId := by
    intro q hq
    refine ⟨sequence, hlt, ?_, ?_⟩
    · rw [hq]
      exact UInt64.le_refl _
    · unfold nextClientId
      rw [hnext]
  simp only at h
  -- the order is written down first, under the next number
  generalize horder : p.session.newOrder permit.order sequence = order at h hclient
  have hfirst := names_write { p with session := { p.session with ids := ids } }
    (order.submitted now)
  generalize hwrote : write { p with session := { p.session with ids := ids } }
    (order.submitted now) = wrote at h hfirst
  have hnamed : Names p wrote.2 :=
    ⟨hfirst.1.issued, hfirst.1.separator, by
      rw [hfirst.2]
      show p.session.ids.sequence ≤ ids.sequence
      rw [hseq]
      exact UInt64.le_of_lt hlt⟩
  have hids : wrote.2.session.ids.sequence = sequence := by
    rw [hfirst.2]
    exact hseq
  obtain ⟨answered, q⟩ := wrote
  cases answered with
  | stopped => cases (Prod.mk.inj h).2
  | no =>
    obtain ⟨rfl, hsub⟩ := Prod.mk.inj h
    obtain rfl := Option.some.inj hsub
    exact ⟨hnamed, fun c hc => nomatch hc⟩
  | yes =>
    simp only at h
    -- and so is what became of it
    have hlast := names_write (q.place order sequence now)
      (.outcome now order.clientId answer.tag answer.detail)
    generalize write _ (.outcome now order.clientId answer.tag answer.detail) = wrote' at h hlast
    obtain ⟨answered', q'⟩ := wrote'
    have hend : Names p q' :=
      hnamed.trans ⟨hlast.1.issued, hlast.1.separator, hlast.1.sequence⟩
    have hids' : q'.session.ids.sequence = sequence := by
      rw [hlast.2]
      exact hids
    have hsettle : ∀ c, named (settle order answer asked) = some c → Chosen p q' c := by
      intro c hc
      rw [named_settle hclient hanswer hasked hc]
      exact hchosen hids'
    cases answered' with
    | stopped => cases (Prod.mk.inj h).2
    | _ =>
      obtain ⟨rfl, hsub⟩ := Prod.mk.inj h
      obtain rfl := Option.some.inj hsub
      exact ⟨hend, hsettle⟩

/-- The same of a submission: the gate names nothing. -/
theorem submit_names {order : ProposedOrder} {account : AccountState}
    (hanswer : ∀ ack, answer = .accepted ack → ack.clientId = p.nextClientId)
    (hasked : ∀ ack, asked = .ok (some ack) → ack.clientId = p.nextClientId)
    (h : p.submit order account now answer asked = (p', some submitted)) :
    Names p p' ∧ ∀ c, named submitted = some c → Chosen p p' c := by
  unfold submit at h
  generalize p.session.gate.check order account p.session.instrument now = checked at h
  obtain ⟨gate, decision⟩ := checked
  simp only at h
  cases decision with
  | none => cases (Prod.mk.inj h).2
  | some decision =>
    cases decision with
    | permit permit =>
      obtain ⟨hnames, hchosen⟩ := send_names
        (p := { p with session := { p.session with gate := gate } }) hanswer hasked h
      exact ⟨⟨hnames.issued, hnames.separator, hnames.sequence⟩, hchosen⟩
    | refuse breach =>
      have hwrite := names_write { p with session := { p.session with gate := gate } }
        (.refused now breach.text)
      simp only at h
      generalize write { p with session := { p.session with gate := gate } }
        (.refused now breach.text) = wrote at h hwrite
      obtain ⟨answered, q⟩ := wrote
      have hend : Names p q := ⟨hwrite.1.issued, hwrite.1.separator, hwrite.1.sequence⟩
      cases answered with
      | stopped => cases (Prod.mk.inj h).2
      | _ =>
        obtain ⟨rfl, hsub⟩ := Prod.mk.inj h
        obtain rfl := Option.some.inj hsub
        exact ⟨hend, fun c hc => nomatch hc⟩

end Submitting

end Process

/-! ## What a call makes of the orders -/

/-- The order an outcome says may be at the venue. -/
def Outcome.given : Outcome → Option (OrderId × String)
  | .sent id clientId => some (id, clientId)
  | .unresolved id clientId _ => some (id, clientId)
  | _ => none

/-- The order an outcome says has landed. -/
def Outcome.known : Outcome → Option (OrderId × String)
  | .sent id clientId => some (id, clientId)
  | _ => none

/-- The order an outcome leaves open. -/
def Outcome.waits : Outcome → Option (OrderId × String)
  | .unresolved id clientId _ => some (id, clientId)
  | _ => none

/-- What is known of the orders after some outcomes. -/
def Lives.after (x : Lives) (live : List (Nat × String)) (out : List Outcome) : Lives :=
  { x with
    live := live
    given := x.given ++ out.filterMap Outcome.given
    known := x.known ++ out.filterMap Outcome.known
    waiting := x.waiting ++ out.filterMap Outcome.waits }

theorem Lives.after_after (x : Lives) (live live' : List (Nat × String)) (out more : List Outcome) :
    (x.after live out).after live' more = x.after live' (out ++ more) := by
  simp [Lives.after]

/-- An outcome that is not of a submission, or of one that was refused. -/
def Outcome.Quiet (o : Outcome) : Prop := o.given = none ∧ o.known = none ∧ o.waits = none

/-- Such outcomes change nothing. -/
theorem Lives.after_quiet (x : Lives) {out : List Outcome} (hout : ∀ o ∈ out, o.Quiet) :
    x.after x.live out = x := by
  have hgiven : out.filterMap Outcome.given = [] :=
    List.filterMap_eq_nil_iff.mpr fun o ho => (hout o ho).1
  have hknown : out.filterMap Outcome.known = [] :=
    List.filterMap_eq_nil_iff.mpr fun o ho => (hout o ho).2.1
  have hwaits : out.filterMap Outcome.waits = [] :=
    List.filterMap_eq_nil_iff.mpr fun o ho => (hout o ho).2.2
  simp [Lives.after, hgiven, hknown, hwaits]

/-- No order that is spoken of will be chosen again. -/
def Settled (p : Process) (x : Lives) : Prop :=
  ∀ c, c ∈ x.given.map (·.2) ∨ c ∈ x.told → p.Past c

/-- What acting on some intents leaves. -/
structure Acted {σ : Type} (landed : String → Prop) (x : Lives) (ids : List OrderId)
    (t t' : Trader σ) (out : List Outcome) : Prop where
  follows : Follows landed (x.after t'.live out)
  settled : Settled t'.process (x.after t'.live out)
  ids : ((out.filterMap Outcome.given).map (·.1)).Sublist ids
  unanswered : t'.unanswered = t.unanswered
  strategy : t'.strategy = t.strategy

section Acting

variable {σ χ : Type} {landed : String → Prop} {x : Lives} {t t' : Trader σ} {venue : Venue}
  {i : Nat} {now : Nanos}

/-- Nothing was submitted. -/
theorem acted_quiet (h : Follows landed x) (hlive : x.live = t.live)
    (hsame : t'.live = t.live) (hsettled : Settled t'.process x) (ids : List OrderId)
    {out : List Outcome} (hout : ∀ o ∈ out, o.Quiet) (hunanswered : t'.unanswered = t.unanswered)
    (hstrategy : t'.strategy = t.strategy) : Acted landed x ids t t' out := by
  have hafter : x.after t'.live out = x := by
    rw [hsame, ← hlive]
    exact x.after_quiet hout
  have hgiven : out.filterMap Outcome.given = [] :=
    List.filterMap_eq_nil_iff.mpr fun o ho => (hout o ho).1
  refine ⟨?_, ?_, ?_, hunanswered, hstrategy⟩
  · rwa [hafter]
  · rwa [hafter]
  · rw [hgiven]
    exact List.nil_sublist _

/-- **One order is sent.** -/
theorem acted_send (h : Follows landed x) (hlive : x.live = t.live)
    (hsettled : Settled t.process x) (hechoes : venue.Echoes) {id : OrderId} {order : ProposedOrder}
    (hid : id ∉ x.given.map (·.1)) {out : Outcome}
    (hsend : t.send venue i id order now = some (t', out)) : Acted landed x [id] t t' [out] := by
  unfold Trader.send at hsend
  simp only at hsend
  split at hsend
  · cases hsend
  rename_i process submitted hsubmit
  obtain ⟨hnames, hchosen⟩ := Process.submit_names (fun ack hack => hechoes.place _ ack hack)
    (fun ack hack => hechoes.orderStatus _ ack hack) hsubmit
  have hquiet : Settled process x := fun c hc => hnames.past (hsettled c hc)
  -- the order that was chosen is spoken of from now
  have hnew : ∀ c, Process.named submitted = some c →
      c ∉ x.given.map (·.2) ∧ c ∉ x.told ∧ process.Past c := by
    intro c hc
    have hmine := hchosen c hc
    exact ⟨fun hmem => hmine.ne (hsettled c (.inl hmem)) rfl,
      fun hmem => hmine.ne (hsettled c (.inr hmem)) rfl, hmine.past hnames⟩
  have hgrown : ∀ c live out, out.given = some (id, c) → process.Past c →
      Settled process (x.after live [out]) := by
    intro c live out hout hpast c' hc'
    simp only [Lives.after, List.filterMap_cons, hout, List.filterMap_nil, List.map_append,
      List.mem_append, List.map_cons, List.map_nil, List.mem_singleton] at hc'
    rcases hc' with (hc' | rfl) | hc'
    · exact hquiet c' (.inl hc')
    · exact hpast
    · exact hquiet c' (.inr hc')
  cases submitted with
  | sent c =>
    obtain ⟨rfl, rfl⟩ := Prod.mk.inj (Option.some.inj hsend)
    obtain ⟨hgiven, htold, hpast⟩ := hnew c rfl
    have hsent := h.sent hid hgiven htold
    rw [hlive] at hsent
    refine ⟨?_, hgrown c _ _ rfl hpast, List.Sublist.refl _, rfl, rfl⟩
    show Follows landed { x with
      live := SortedAssoc.upsert id.toNat (fun _ => c) c t.live
      given := x.given ++ [(id, c)]
      known := x.known ++ [(id, c)]
      waiting := x.waiting ++ [] }
    rwa [List.append_nil]
  | unresolved c why =>
    obtain ⟨rfl, rfl⟩ := Prod.mk.inj (Option.some.inj hsend)
    obtain ⟨hgiven, htold, hpast⟩ := hnew c rfl
    have hunsure := h.unsure hid hgiven htold
    refine ⟨?_, hgrown c _ _ rfl hpast, List.Sublist.refl _, rfl, rfl⟩
    show Follows landed { x with
      live := t.live
      given := x.given ++ [(id, c)]
      known := x.known ++ []
      waiting := x.waiting ++ [(id, c)] }
    rwa [List.append_nil, ← hlive]
  | refused breach =>
    obtain ⟨rfl, rfl⟩ := Prod.mk.inj (Option.some.inj hsend)
    refine acted_quiet h hlive ?_ ?_ _ (fun o ho => ?_) ?_ ?_
    · rfl
    · exact hquiet
    · rw [List.mem_singleton.mp ho]
      exact ⟨rfl, rfl, rfl⟩
    · rfl
    · rfl
  | rejected why =>
    obtain ⟨rfl, rfl⟩ := Prod.mk.inj (Option.some.inj hsend)
    refine acted_quiet h hlive ?_ ?_ _ (fun o ho => ?_) ?_ ?_
    · rfl
    · exact hquiet
    · rw [List.mem_singleton.mp ho]
      exact ⟨rfl, rfl, rfl⟩
    · rfl
    · rfl

/-- A cancel is of no submission. -/
theorem quiet_withdraw (id : OrderId) (clientId : String) :
    (Trader.withdraw venue i id clientId).Quiet := by
  unfold Trader.withdraw
  split
  all_goals exact ⟨rfl, rfl, rfl⟩

/-- **One intent.** -/
theorem acted_act (h : Follows landed x) (hlive : x.live = t.live) (hsettled : Settled t.process x)
    (hechoes : venue.Echoes) {intent : Intent}
    (hid : ∀ id ∈ intent.submits, id ∉ x.given.map (·.1)) {out : List Outcome}
    (hact : t.act venue i now intent = some (t', out)) :
    Acted landed x intent.submits.toList t t' out := by
  cases intent with
  | limit id side price qty offset =>
    obtain ⟨⟨t₁, o⟩, hsend, heq⟩ := Option.map_eq_some_iff.mp hact
    obtain ⟨rfl, rfl⟩ := Prod.mk.inj heq
    exact acted_send h hlive hsettled hechoes (hid id rfl) hsend
  | market id side qty offset =>
    obtain ⟨⟨t₁, o⟩, hsend, heq⟩ := Option.map_eq_some_iff.mp hact
    obtain ⟨rfl, rfl⟩ := Prod.mk.inj heq
    exact acted_send h hlive hsettled hechoes (hid id rfl) hsend
  | cancel id =>
    unfold Trader.act at hact
    simp only at hact
    split at hact
    · obtain ⟨rfl, rfl⟩ := Prod.mk.inj (Option.some.inj hact)
      refine acted_quiet h hlive rfl hsettled _ (fun o ho => ?_) rfl rfl
      rw [List.mem_singleton.mp ho]
      exact quiet_withdraw _ _
    · obtain ⟨rfl, rfl⟩ := Prod.mk.inj (Option.some.inj hact)
      refine acted_quiet h hlive rfl hsettled _ (fun o ho => ?_) rfl rfl
      rw [List.mem_singleton.mp ho]
      exact ⟨rfl, rfl, rfl⟩
  | cancelAll =>
    obtain ⟨rfl, rfl⟩ := Prod.mk.inj (Option.some.inj hact)
    refine acted_quiet h hlive rfl hsettled _ (fun o ho => ?_) rfl rfl
    obtain ⟨e, -, rfl⟩ := List.mem_map.mp ho
    exact quiet_withdraw _ _

/-- **The intents of one call.** -/
theorem acted_acts {intents : List Intent} (h : Follows landed x) (hlive : x.live = t.live)
    (hsettled : Settled t.process x) (hechoes : venue.Echoes)
    (hids : (x.given.map (·.1) ++ intents.filterMap Intent.submits).Nodup) {out : List Outcome}
    (hacts : Trader.acts venue now i t intents = some (t', out)) :
    Acted landed x (intents.filterMap Intent.submits) t t' out := by
  induction intents generalizing x t i out with
  | nil =>
    obtain ⟨rfl, rfl⟩ := Prod.mk.inj (Option.some.inj hacts)
    exact acted_quiet h hlive rfl hsettled _ (fun o ho => absurd ho List.not_mem_nil) rfl rfl
  | cons intent intents ih =>
    rw [Trader.acts, Option.bind_eq_bind, Option.bind_eq_some_iff] at hacts
    obtain ⟨⟨t₁, out₁⟩, hact, hacts⟩ := hacts
    simp only [Option.bind_eq_some_iff] at hacts
    obtain ⟨⟨t₂, out₂⟩, hrest, heq⟩ := hacts
    obtain ⟨rfl, rfl⟩ := Prod.mk.inj (Option.some.inj heq)
    have hsubmits : (intent :: intents).filterMap Intent.submits =
        intent.submits.toList ++ intents.filterMap Intent.submits := by
      cases hs : intent.submits <;> simp [hs]
    rw [hsubmits] at hids ⊢
    have hfirst := acted_act h hlive hsettled hechoes (fun id hid hmem =>
      (List.nodup_append.mp hids).2.2 id hmem id
        (List.mem_append_left _ (by rw [Option.mem_def.mp hid]; exact List.mem_singleton_self _))
        rfl) hact
    have hids₁ : ((x.after t₁.live out₁).given.map (·.1) ++
        intents.filterMap Intent.submits).Nodup := by
      refine hids.sublist ?_
      simp only [Lives.after, List.map_append, List.append_assoc]
      exact (hfirst.ids.append_right _).append_left _
    have hlast := ih hfirst.follows rfl hfirst.settled hids₁ hrest
    refine ⟨?_, ?_, ?_, hlast.unanswered.trans hfirst.unanswered,
      hlast.strategy.trans hfirst.strategy⟩
    · rw [← Lives.after_after]
      exact hlast.follows
    · rw [← Lives.after_after]
      exact hlast.settled
    · rw [List.filterMap_append, List.map_append]
      exact hfirst.ids.append hlast.ids

end Acting

end Live
