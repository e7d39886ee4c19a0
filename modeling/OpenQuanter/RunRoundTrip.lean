/-
# What a run file keeps (`oq-parity/src/wire.rs`)

A file that is read at all is read as texts without separators (`separated_of_parse`), and the
file of such a run is read as the run with the blanks at the ends of its texts lost, and with
no tag where the tag was empty or a dash (`parse_render`).  So a run comes back exactly if
nothing of it is lost on the way (`parse_render_same_iff`).
-/
import OpenQuanter.RunFile

namespace Text

/-! ## Blanks at the end -/

theorem trimEnd_concat (text : Text) (c : Char) :
    trimEnd (text ++ [c]) = if isWhitespace c then trimEnd text else text ++ [c] :=
  List.rdropWhile_concat ..

/-- Blanks at the end of a text, after another. -/
theorem trimEnd_append (t u : Text) :
    trimEnd (t ++ u) = if trimEnd u = [] then trimEnd t else t ++ trimEnd u := by
  induction u using List.reverseRecOn with
  | nil =>
    rw [List.append_nil]
    exact (if_pos rfl).symm
  | append_singleton u c ih =>
    rw [← List.append_assoc, trimEnd_concat, trimEnd_concat]
    by_cases hc : isWhitespace c = true
    · rw [if_pos hc, if_pos hc, ih]
    · rw [if_neg hc, if_neg hc, if_neg (by simp), List.append_assoc]

/-- A text without blanks is left as it is. -/
theorem trimEnd_of_plain {text : Text} (h : ∀ c ∈ text, isWhitespace c = false) :
    trimEnd text = text := by
  refine List.rdropWhile_eq_self_iff.mpr fun hne => ?_
  rw [h _ (List.getLast_mem hne)]
  exact Bool.false_ne_true

theorem trim_of_plain {text : Text} (h : ∀ c ∈ text, isWhitespace c = false) :
    trim text = text := by
  have hfront : text.dropWhile isWhitespace = text := by
    cases text with
    | nil => rfl
    | cons c text => rw [List.dropWhile_cons_of_neg (by rw [h c List.mem_cons_self]; decide)]
  rw [trim, hfront, trimEnd_of_plain h]

theorem mem_of_mem_trimEnd {text : Text} {c : Char} (h : c ∈ trimEnd text) : c ∈ text :=
  (List.rdropWhile_prefix isWhitespace text).subset h

/-- A carriage return at the end is a blank. -/
theorem trimEnd_stripCr (line : Text) : trimEnd (stripCr line) = trimEnd line := by
  unfold stripCr
  split
  · rename_i hlast
    obtain ⟨body, rfl⟩ := List.getLast?_eq_some_iff.mp hlast
    rw [List.dropLast_concat, trimEnd_concat, if_pos (by decide)]
  · rfl

/-! ## Pieces -/

theorem mem_of_mem_splitOn {sep c : Char} {text piece : Text} (h : piece ∈ text.splitOn sep)
    (hc : c ∈ piece) : c ∈ text ∧ c ≠ sep := by
  induction text generalizing piece with
  | nil =>
    rw [List.splitOn_nil, List.mem_singleton] at h
    exact absurd (h ▸ hc) List.not_mem_nil
  | cons x text ih =>
    rw [List.splitOn_cons_eq_if_modifyHead] at h
    split at h
    · rcases List.mem_cons.mp h with rfl | h
      · exact absurd hc List.not_mem_nil
      · exact (ih h hc).imp_left (List.mem_cons_of_mem _)
    · rename_i hx
      obtain ⟨first, others, hsplit⟩ := List.exists_cons_of_ne_nil (List.splitOn_ne_nil sep text)
      rw [hsplit, List.modifyHead_cons] at h
      rw [hsplit] at ih
      rcases List.mem_cons.mp h with rfl | h
      · rcases List.mem_cons.mp hc with rfl | hc
        · exact ⟨List.mem_cons_self, fun heq => hx (beq_iff_eq.mpr heq)⟩
        · exact (ih List.mem_cons_self hc).imp_left (List.mem_cons_of_mem _)
      · exact (ih (List.mem_cons_of_mem _ h) hc).imp_left (List.mem_cons_of_mem _)

theorem intercalate_concat (sep : Char) {ls : List Text} (h : ls ≠ []) (l : Text) :
    [sep].intercalate (ls ++ [l]) = [sep].intercalate ls ++ sep :: l := by
  induction ls with
  | nil => exact absurd rfl h
  | cons first ls ih =>
    cases ls with
    | nil => simp
    | cons second ls =>
      rw [List.cons_append, List.cons_append, List.intercalate_cons_cons, ← List.cons_append,
        ih (List.cons_ne_nil _ _), List.intercalate_cons_cons]
      simp

theorem newline_not_mem_of_mem_lines {text line : Text} (h : line ∈ lines text) : '\n' ∉ line := by
  intro hmem
  rcases List.mem_append.mp h with h | h
  · obtain ⟨piece, hpiece, rfl⟩ := List.mem_map.mp h
    refine (mem_of_mem_splitOn (List.mem_of_mem_dropLast hpiece) (c := '\n') ?_).2 rfl
    unfold stripCr at hmem
    split at hmem
    · exact List.mem_of_mem_dropLast hmem
    · exact hmem
  · have hlast := (Option.filter_eq_some_iff.mp (Option.mem_toList.mp h)).1
    exact (mem_of_mem_splitOn (List.mem_of_getLast? hlast) hmem).2 rfl

/-- **What is written is read back**, but for a carriage return at the end of a line. -/
theorem lines_unlines_stripCr {ls : List Text} (h : ∀ l ∈ ls, '\n' ∉ l) :
    lines (unlines ls) = ls.map stripCr := by
  have hsplit := splitOn_unlines_append h []
  rw [List.append_nil, List.splitOn_nil] at hsplit
  unfold lines
  rw [hsplit]
  simp only [List.dropLast_concat, List.getLast?_concat]
  exact List.append_nil _

theorem afterLine_append {line : Text} (h : '\n' ∉ line) (rest : Text) :
    afterLine (line ++ '\n' :: rest) = rest := by
  have hline : ∀ c ∈ line, decide (c ≠ '\n') = true :=
    fun c hc => decide_eq_true fun heq => h (heq ▸ hc)
  rw [afterLine, List.dropWhile_append_of_pos hline, List.dropWhile_cons_of_neg (by decide)]
  rfl

theorem splitOnce_append {key : Text} (h : ' ' ∉ key) (rest : Text) :
    splitOnce (key ++ ' ' :: rest) = (key, rest) := by
  have hkey : ∀ c ∈ key, decide (c ≠ ' ') = true :=
    fun c hc => decide_eq_true fun heq => h (heq ▸ hc)
  rw [splitOnce, List.takeWhile_append_of_pos hkey, List.dropWhile_append_of_pos hkey,
    List.takeWhile_cons_of_neg (by decide), List.dropWhile_cons_of_neg (by decide)]
  simp

theorem splitOnce_of_not_mem {key : Text} (h : ' ' ∉ key) : splitOnce key = (key, []) := by
  have hkey : ∀ c ∈ key, decide (c ≠ ' ') = true :=
    fun c hc => decide_eq_true fun heq => h (heq ▸ hc)
  rw [splitOnce, List.takeWhile_eq_self_iff.mpr hkey, List.dropWhile_eq_nil_iff.mpr hkey]
  rfl

theorem stripPrefix_append (key rest : Text) : stripPrefix key (key ++ rest) = some rest := by
  rw [stripPrefix, if_pos (List.isPrefixOf_iff_prefix.mpr (List.prefix_append _ _)), List.drop_left]

end Text

namespace Parity

open Text Except

variable {F : Type}

/-! ## What a file can say -/

/-- The texts of a run that a file can say: a value is a line of its own, a symbol and a tag
are columns of one. -/
structure Separated (r : Run F) : Prop where
  codeCommit : '\n' ∉ r.manifest.codeCommit
  dataHash : '\n' ∉ r.manifest.dataHash
  configHash : '\n' ∉ r.manifest.configHash
  label : '\n' ∉ r.manifest.label
  symbol : ∀ f ∈ r.fills.val, ' ' ∉ f.symbol ∧ '\n' ∉ f.symbol
  tag : ∀ f ∈ r.fills.val, ∀ t ∈ f.tag, ' ' ∉ t ∧ '\n' ∉ t

/-- The same of what has been read. -/
structure Fields.Separated (s : Fields F) : Prop where
  codeCommit : ∀ t ∈ s.codeCommit, '\n' ∉ t
  dataHash : ∀ t ∈ s.dataHash, '\n' ∉ t
  configHash : ∀ t ∈ s.configHash, '\n' ∉ t
  label : '\n' ∉ s.label
  symbol : ∀ f ∈ s.fills, ' ' ∉ f.symbol ∧ '\n' ∉ f.symbol
  tag : ∀ f ∈ s.fills, ∀ t ∈ f.tag, ' ' ∉ t ∧ '\n' ∉ t

theorem Fields.separated_none : (Fields.none : Fields F).Separated where
  codeCommit := nofun
  dataHash := nofun
  configHash := nofun
  label := nofun
  symbol := nofun
  tag := nofun

theorem identity_ok {α : Type} {what : String} {found : Option α} {v : α} :
    identity what found = .ok v ↔ found = some v := by
  cases found with
  | none => exact ⟨fun h => (nomatch h), fun h => (nomatch h)⟩
  | some v' => rw [identity, Except.ok.injEq, Option.some.injEq]

/-- The run is what has been read. -/
theorem finish_ok {s : Fields F} {r : Run F} :
    s.finish = .ok r ↔ s.codeCommit = some r.manifest.codeCommit ∧
      s.dataHash = some r.manifest.dataHash ∧ s.configHash = some r.manifest.configHash ∧
      s.label = r.manifest.label ∧ s.fills = r.fills.val ∧ s.pnl = some r.pnl ∧
      s.declaredFills = some (Coverage.len r.fills) := by
  obtain ⟨⟨code, data, config, label⟩, ⟨fills, hsize⟩, pnl⟩ := r
  have hlen : (Coverage.len (⟨fills, hsize⟩ : Vec RunFill)).toNat = fills.length :=
    Coverage.toNat_len _
  unfold Fields.finish
  constructor
  · intro h
    split at h
    · cases h
    rename_i n hdeclared
    split at h
    · rename_i hcount
      simp only [bind_eq_ok, identity_ok] at h
      obtain ⟨code', hcode, data', hdata, config', hconfig, pnl', hpnl, hrun⟩ := h
      cases pure_eq_ok.mp hrun
      refine ⟨hcode, hdata, hconfig, rfl, rfl, hpnl, ?_⟩
      rw [hdeclared, UInt64.toNat_inj.mp (hcount.trans hlen.symm)]
    · cases h
  · rintro ⟨hcode, hdata, hconfig, hlabel, hfills, hpnl, hdeclared⟩
    simp only at hcode hdata hconfig hlabel hfills hpnl
    subst hfills
    simp only [hdeclared, dif_pos hlen]
    simp only [hcode, hdata, hconfig, hpnl, hlabel, identity]
    rfl

variable [FloatText F]

theorem mem_of_parseTag {part : Option Text} {t : Text} (h : t ∈ parseTag part) : t ∈ part := by
  unfold parseTag at h
  cases part with
  | none => exact h
  | some text =>
    simp only at h
    split at h
    · cases h
    · exact h

theorem column_ok {n : Nat} {rest t : Text} {missing : String} {part : Option Text} :
    column n rest missing part = .ok t ↔ part = some t := by
  cases part with
  | none => exact ⟨fun h => (nomatch h), fun h => (nomatch h)⟩
  | some text => rw [column, Except.ok.injEq, Option.some.injEq]

/-- A row is read as columns of it. -/
theorem columns_of_parseFill {rest : Text} {n : Nat} {f : RunFill} (h : parseFill rest n = .ok f) :
    f.symbol ∈ rest.splitOn ' ' ∧ ∀ t ∈ f.tag, t ∈ rest.splitOn ' ' := by
  unfold parseFill at h
  simp only [bind_eq_ok] at h
  obtain ⟨ts, -, symbol, hsymbol, side, -, price, -, qty, -, hf⟩ := h
  obtain rfl := pure_eq_ok.mp hf
  exact ⟨List.mem_of_getElem? (column_ok.mp hsymbol),
    fun t ht => List.mem_of_getElem? (mem_of_parseTag ht)⟩

/-- A line puts its own characters into what has been read. -/
theorem Fields.Separated.put {s s' : Fields F} {n : Nat} {line key rest : Text}
    (hs : s.Separated) (hrest : '\n' ∉ rest) (h : s.put n line key rest = .ok s') :
    s'.Separated := by
  have hgiven : ∀ t ∈ some rest, '\n' ∉ t := fun t ht => Option.some.inj ht ▸ hrest
  unfold Fields.put at h
  split at h
  · exact Except.ok.inj h ▸ { hs with codeCommit := hgiven }
  split at h
  · exact Except.ok.inj h ▸ { hs with dataHash := hgiven }
  split at h
  · exact Except.ok.inj h ▸ { hs with configHash := hgiven }
  split at h
  · exact Except.ok.inj h ▸ { hs with label := hrest }
  split at h
  · split at h
    · cases h
    · exact Except.ok.inj h ▸ { hs with }
  split at h
  · split at h
    · cases h
    · exact Except.ok.inj h ▸ { hs with }
  split at h
  · obtain ⟨f, hf, hs'⟩ := bind_eq_ok.mp h
    obtain rfl := pure_eq_ok.mp hs'
    obtain ⟨hsymbol, htag⟩ := columns_of_parseFill hf
    have hpiece : ∀ t ∈ rest.splitOn ' ', ' ' ∉ t ∧ '\n' ∉ t := by
      intro t ht
      exact ⟨fun hc => (mem_of_mem_splitOn ht hc).2 rfl,
        fun hc => hrest (mem_of_mem_splitOn ht hc).1⟩
    refine { hs with symbol := ?_, tag := ?_ }
    · intro g hg
      rcases List.mem_append.mp hg with hg | hg
      · exact hs.symbol g hg
      · obtain rfl := List.mem_singleton.mp hg
        exact hpiece _ hsymbol
    · intro g hg t ht
      rcases List.mem_append.mp hg with hg | hg
      · exact hs.tag g hg t ht
      · obtain rfl := List.mem_singleton.mp hg
        exact hpiece t (htag t ht)
  · cases h

theorem Fields.Separated.read {s s' : Fields F} {line : Text} {n : Nat} (hs : s.Separated)
    (hline : '\n' ∉ line) (h : s.read (line, n) = .ok s') : s'.Separated := by
  unfold Fields.read at h
  simp only at h
  split at h
  · exact Except.ok.inj h ▸ hs
  · refine hs.put (fun hmem => hline (mem_of_mem_trimEnd ?_)) h
    exact (List.dropWhile_suffix _).subset (List.mem_of_mem_drop hmem)

/-- **A file that is read says a run without separators in its texts.** -/
theorem separated_of_parseBody {body : Text} {r : Run F} (h : parseBody body = .ok r) :
    Separated r := by
  obtain ⟨s, hread, hfinish⟩ := bind_eq_ok.mp h
  have hs : s.Separated := by
    refine foldlM_history (I := fun _ s => s.Separated) ?_ Fields.separated_none hread
    rintro done ⟨line, n⟩ rest s₁ s₂ hall hs₁ hstep
    have hmem : (line, n) ∈ (lines body).zipIdx 3 := by
      rw [hall]
      simp
    exact hs₁.read (newline_not_mem_of_mem_lines (List.fst_mem_of_mem_zipIdx hmem)) hstep
  obtain ⟨hcommit, hdata, hconfig, hlabel, hfills, -⟩ := finish_ok.mp hfinish
  exact ⟨hs.codeCommit _ hcommit, hs.dataHash _ hdata, hs.configHash _ hconfig,
    hlabel ▸ hs.label, hfills ▸ hs.symbol, hfills ▸ hs.tag⟩

/-! ## What comes back -/

/-- A tag as it comes back: without the blanks at its end, and not at all if it is then empty
or a dash. -/
def rereadTag (tag : Option Text) : Option Text :=
  (tag.map trimEnd).filter fun t => t ≠ [] ∧ t ≠ ['-']

/-- A fill as it comes back. -/
def RunFill.reread (f : RunFill) : RunFill := { f with tag := rereadTag f.tag }

/-- An identity as it comes back. -/
def RunManifest.reread (m : RunManifest) : RunManifest :=
  ⟨trimEnd m.codeCommit, trimEnd m.dataHash, trimEnd m.configHash, trimEnd m.label⟩

theorem isWhitespace_of_plain {c : Char} (h : c = '-' ∨ c.isDigit = true) :
    isWhitespace c = false := by
  rcases h with rfl | h
  · decide
  · simp only [Char.isDigit, Bool.and_eq_true, decide_eq_true_eq, ge_iff_le,
      UInt32.le_iff_toNat_le] at h
    simp only [isWhitespace]
    have hlow : 48 ≤ c.toNat := h.1
    have hhigh : c.toNat ≤ 57 := h.2
    simp
    omega

/-- A number is one column, without blanks. -/
theorem display_plain {T : Type} [Numeral T] (v : T) :
    ∀ c ∈ Numeral.display v, isWhitespace c = false :=
  fun c hc => isWhitespace_of_plain (Numeral.plain v c hc)

theorem not_mem_of_plain {text : Text} {c : Char} (h : ∀ c ∈ text, isWhitespace c = false)
    (hc : isWhitespace c = true) : c ∉ text := fun hmem => by
  rw [h c hmem] at hc
  cases hc

/-- Every column but the last. -/
def front (f : RunFill) : List Text :=
  [Numeral.display f.ts, f.symbol, sideName f.side, Numeral.display f.price, Numeral.display f.qty]

theorem sideName_plain (s : Side) : ∀ c ∈ sideName s, isWhitespace c = false := by
  cases s <;> simp [sideName, isWhitespace]

theorem parseSide_sideName (n : Nat) (rest : Text) (s : Side) :
    parseSide n rest (some (sideName s)) = .ok s := by
  cases s <;> rfl

theorem fillNumber_display (n : Nat) (rest : Text) (missing wrong : String) (v : Int64) :
    fillNumber n rest missing wrong (some (Numeral.display v)) = .ok v :=
  bind_eq_ok.mpr ⟨Numeral.display v, rfl, by rw [Numeral.fromStr_display]⟩

/-- A row is read by its columns. -/
theorem parseFill_of_columns {f : RunFill} {rest : Text} {tail : List Text} (n : Nat)
    (h : rest.splitOn ' ' = front f ++ tail) :
    parseFill rest n = .ok { f with tag := parseTag tail[0]? } := by
  unfold parseFill
  simp only [h, front, List.cons_append,
    List.nil_append, List.getElem?_cons_zero, List.getElem?_cons_succ, fillNumber_display,
    parseSide_sideName, column]
  rfl

theorem display_ne_nil (v : Int64) : Numeral.display v ≠ [] := by
  intro hnil
  have hread := Numeral.fromStr_display v
  rw [hnil] at hread
  cases hread

/-- There is a number at the end of them. -/
theorem trimEnd_front (f : RunFill) :
    trimEnd ([' '].intercalate (front f)) = [' '].intercalate (front f) := by
  have hqty : trimEnd (Numeral.display f.qty) = Numeral.display f.qty :=
    trimEnd_of_plain (display_plain _)
  have hfront : front f = [Numeral.display f.ts, f.symbol, sideName f.side,
    Numeral.display f.price] ++ [Numeral.display f.qty] := rfl
  rw [hfront, intercalate_concat ' ' (List.cons_ne_nil _ _), List.append_cons, trimEnd_append, hqty,
    if_neg (display_ne_nil _)]

/-- The columns of a row, read from a line: the blanks at its end are gone, and with them the
last column if there is nothing else in it. -/
theorem splitOn_trimEnd_columns {f : RunFill} (hsymbol : ' ' ∉ f.symbol)
    (htag : ∀ t ∈ f.tag, ' ' ∉ t) :
    (trimEnd ([' '].intercalate (columns f))).splitOn ' ' = front f ++
      (if trimEnd (f.tag.getD ['-']) = [] then [] else [trimEnd (f.tag.getD ['-'])]) := by
  have hfront : ∀ part ∈ front f, ' ' ∉ part := by
    intro part hpart
    simp only [front, List.mem_cons, List.not_mem_nil, or_false] at hpart
    rcases hpart with rfl | rfl | rfl | rfl | rfl
    · exact not_mem_of_plain (display_plain _) (by decide)
    · exact hsymbol
    · exact not_mem_of_plain (sideName_plain _) (by decide)
    · exact not_mem_of_plain (display_plain _) (by decide)
    · exact not_mem_of_plain (display_plain _) (by decide)
  have hlast : ' ' ∉ f.tag.getD ['-'] := by
    cases htext : f.tag with
    | none => decide
    | some t => exact htag t htext
  have hne : front f ≠ [] := List.cons_ne_nil _ _
  have hcolumns : columns f = front f ++ [f.tag.getD ['-']] := rfl
  rw [hcolumns, intercalate_concat ' ' hne, trimEnd_append,
    ← List.singleton_append, trimEnd_append]
  by_cases hempty : trimEnd (f.tag.getD ['-']) = []
  · rw [if_pos hempty, if_pos hempty, if_pos (by decide), trimEnd_front, List.append_nil,
      List.splitOn_intercalate ' ' hfront hne]
  · rw [if_neg hempty, if_neg hempty, if_neg (by simp), List.singleton_append,
      ← intercalate_concat ' ' hne]
    refine List.splitOn_intercalate ' ' ?_ (by simp)
    intro part hpart
    rcases List.mem_append.mp hpart with hpart | hpart
    · exact hfront part hpart
    · rw [List.mem_singleton.mp hpart]
      exact fun hmem => hlast (mem_of_mem_trimEnd hmem)

/-- **A row comes back** as the fill it says. -/
theorem parseFill_trimEnd {f : RunFill} (n : Nat) (hsymbol : ' ' ∉ f.symbol)
    (htag : ∀ t ∈ f.tag, ' ' ∉ t) :
    parseFill (trimEnd ([' '].intercalate (columns f))) n = .ok f.reread := by
  rw [parseFill_of_columns n (splitOn_trimEnd_columns hsymbol htag)]
  have htag : parseTag (if trimEnd (f.tag.getD ['-']) = [] then [] else
      [trimEnd (f.tag.getD ['-'])])[0]? = rereadTag f.tag := by
    cases f.tag with
    | none => decide
    | some t =>
      simp only [Option.getD_some, rereadTag, Option.map_some, Option.filter_some]
      by_cases hempty : trimEnd t = []
      · rw [if_pos hempty, if_neg (by simp [hempty])]
        rfl
      · rw [if_neg hempty]
        by_cases hdash : trimEnd t = ['-']
        · rw [if_neg (by simp [hdash]), hdash]
          rfl
        · rw [if_pos (by simp [hempty, hdash])]
          exact if_neg hdash
  rw [htag]
  rfl

/-! ## What is written -/

/-- A line behind a key that is a word. -/
theorem trimEnd_keyed {key : Text} (hkey : ∀ c ∈ key, isWhitespace c = false) (value : Text) :
    trimEnd (key ++ ' ' :: value) = if trimEnd value = [] then key else key ++ ' ' ::
    trimEnd value := by
  rw [trimEnd_append, ← List.singleton_append, trimEnd_append]
  by_cases hempty : trimEnd value = []
  · rw [if_pos hempty, if_pos hempty, if_pos (by decide), trimEnd_of_plain hkey]
  · rw [if_neg hempty, if_neg hempty, if_neg (by simp), List.singleton_append]

/-- It is read by its key, without the blanks at the end of its value. -/
theorem splitOnce_keyed {key : Text} (hkey : ∀ c ∈ key, isWhitespace c = false) (value : Text) :
    splitOnce (trimEnd (key ++ ' ' :: value)) = (key, trimEnd value) := by
  have hspace : ' ' ∉ key := not_mem_of_plain hkey (by decide)
  rw [trimEnd_keyed hkey]
  by_cases hempty : trimEnd value = []
  · rw [if_pos hempty, hempty, splitOnce_of_not_mem hspace]
  · rw [if_neg hempty, splitOnce_append hspace]

/-- Reading a line behind a key. -/
theorem Fields.read_keyed (s : Fields F) (key : String) (value : Text) (n : Nat)
    (hkey : ∀ c ∈ key.toList, isWhitespace c = false) (hfirst : key.toList ≠ [])
    (hhash : key.toList.head? ≠ some '#') :
    s.read (stripCr (keyed key value), n) =
      s.put n (trimEnd (keyed key value)) key.toList (trimEnd value) := by
  have hline : trimEnd (keyed key value) ≠ [] ∧ (trimEnd (keyed key value)).head? ≠ some '#' := by
    rw [keyed, trimEnd_keyed hkey]
    obtain ⟨c, rest, hcons⟩ := List.exists_cons_of_ne_nil hfirst
    rw [hcons] at hhash ⊢
    split
    · exact ⟨List.cons_ne_nil _ _, hhash⟩
    · exact ⟨List.cons_ne_nil _ _, hhash⟩
  unfold Fields.read
  simp only [trimEnd_stripCr]
  rw [if_neg (not_or.mpr hline), keyed, splitOnce_keyed hkey]

/-- The rows of a run are read as its fills. -/
theorem read_fills (s : Fields F) (fills : List RunFill) (n : Nat)
    (hsymbol : ∀ f ∈ fills, ' ' ∉ f.symbol) (htag : ∀ f ∈ fills, ∀ t ∈ f.tag, ' ' ∉ t) :
    (((fills.map fillLine).map stripCr).zipIdx n).foldlM Fields.read s =
      .ok { s with fills := s.fills ++ fills.map RunFill.reread } := by
  induction fills generalizing s n with
  | nil =>
    rw [List.map_nil (f := RunFill.reread), List.append_nil]
    rfl
  | cons f fills ih =>
    rw [List.forall_mem_cons] at hsymbol htag
    have hrow : s.read (stripCr (fillLine f), n) =
      .ok { s with fills := s.fills ++ [f.reread] } := by
      rw [fillLine, Fields.read_keyed s "fill" _ n (by simp [isWhitespace]) (by simp) (by simp)]
      simp only [Fields.put, parseFill_trimEnd n hsymbol.1 htag.1]
      simp
    rw [List.map_cons, List.map_cons, List.zipIdx_cons, List.foldlM_cons, hrow]
    show List.foldlM _ _ _ = _
    rw [ih _ _ hsymbol.2 htag.2]
    simp

/-- The lines before them, too. -/
theorem read_head (r : Run F) {pnl : F} (hpnl : FloatText.fromStr (FloatText.display r.pnl) =
    some pnl) :
    (((headLines r).map stripCr).zipIdx 3).foldlM Fields.read (Fields.none : Fields F) =
      .ok ⟨some (trimEnd r.manifest.codeCommit), some (trimEnd r.manifest.dataHash),
        some (trimEnd r.manifest.configHash), trimEnd r.manifest.label, some pnl,
        some (Coverage.len r.fills), []⟩ := by
  have hcode : ∀ s n v, Fields.read (F := F) s (stripCr (keyed "code-commit" v), n) =
      .ok { s with codeCommit := some (trimEnd v) } := by
    intro s n v
    rw [Fields.read_keyed s "code-commit" _ n (by simp [isWhitespace]) (by simp) (by simp)]
    simp [Fields.put]
  have hdata : ∀ s n v, Fields.read (F := F) s (stripCr (keyed "data-sha256" v), n) =
      .ok { s with dataHash := some (trimEnd v) } := by
    intro s n v
    rw [Fields.read_keyed s "data-sha256" _ n (by simp [isWhitespace]) (by simp) (by simp)]
    simp [Fields.put]
  have hconfig : ∀ s n v, Fields.read (F := F) s (stripCr (keyed "config-sha256" v), n) =
      .ok { s with configHash := some (trimEnd v) } := by
    intro s n v
    rw [Fields.read_keyed s "config-sha256" _ n (by simp [isWhitespace]) (by simp) (by simp)]
    simp [Fields.put]
  have hlabel : ∀ s n v, Fields.read (F := F) s (stripCr (keyed "label" v), n) =
      .ok { s with label := trimEnd v } := by
    intro s n v
    rw [Fields.read_keyed s "label" _ n (by simp [isWhitespace]) (by simp) (by simp)]
    simp [Fields.put]
  have hprofit : ∀ s n, Fields.read (F := F) s
    (stripCr (keyed "pnl" (FloatText.display r.pnl)), n) =
      .ok { s with pnl := some pnl } := by
    intro s n
    rw [Fields.read_keyed s "pnl" _ n (by simp [isWhitespace]) (by simp) (by simp),
      trimEnd_of_plain (FloatText.plain _)]
    simp [Fields.put, hpnl]
  have hcount : ∀ s n, Fields.read (F := F) s
    (stripCr (keyed "fills" (Numeral.display (Coverage.len r.fills))), n) =
      .ok { s with declaredFills := some (Coverage.len r.fills) } := by
    intro s n
    rw [Fields.read_keyed s "fills" _ n (by simp [isWhitespace]) (by simp) (by simp),
      trimEnd_of_plain (display_plain _)]
    simp [Fields.put, Numeral.fromStr_display]
  have hcomment : ∀ s n, Fields.read (F := F) s (stripCr "# ts symbol side price qty tag".toList,
    n) = .ok s := by
    intro s n
    unfold Fields.read
    simp only [trimEnd_stripCr]
    rw [if_pos (.inr (by decide))]
  simp only [headLines, List.map_cons, List.map_nil, List.zipIdx_cons, List.zipIdx_nil,
    List.foldlM_cons, hcode, hdata, hconfig, hlabel, hprofit, hcount, hcomment]
  rfl

theorem newline_not_mem_keyed {key : String} {value : Text} (hkey : '\n' ∉ key.toList)
    (hvalue : '\n' ∉ value) : '\n' ∉ keyed key value := by
  simp [keyed, hkey, hvalue]

theorem newline_not_mem_head {r : Run F} (hr : Separated r) : ∀ l ∈ headLines r, '\n' ∉ l := by
  have hplain : ∀ {text : Text}, (∀ c ∈ text, isWhitespace c = false) → '\n' ∉ text :=
    fun h => not_mem_of_plain h (by decide)
  simp only [headLines, List.forall_mem_cons]
  exact ⟨newline_not_mem_keyed (by simp) hr.codeCommit, newline_not_mem_keyed (by simp) hr.dataHash,
    newline_not_mem_keyed (by simp) hr.configHash, newline_not_mem_keyed (by simp) hr.label,
    newline_not_mem_keyed (by simp) (hplain (FloatText.plain _)),
    newline_not_mem_keyed (by simp) (hplain (display_plain _)), by simp, by simp⟩

theorem mem_of_mem_intercalate {sep c : Char} {ls : List Text} (h : c ∈ [sep].intercalate ls) :
    c = sep ∨ ∃ l ∈ ls, c ∈ l := by
  induction ls with
  | nil => cases h
  | cons l ls ih =>
    cases ls with
    | nil => exact .inr ⟨l, List.mem_cons_self, by simpa using h⟩
    | cons l' ls =>
      rw [List.intercalate_cons_cons, List.mem_append, List.mem_append, List.mem_singleton] at h
      rcases h with (h | h) | h
      · exact .inr ⟨l, List.mem_cons_self, h⟩
      · exact .inl h
      · exact (ih h).imp_right fun ⟨m, hm, hc⟩ => ⟨m, List.mem_cons_of_mem _ hm, hc⟩

theorem newline_not_mem_fillLine {f : RunFill} (hsymbol : '\n' ∉ f.symbol)
    (htag : ∀ t ∈ f.tag, '\n' ∉ t) : '\n' ∉ fillLine f := by
  have hplain : ∀ {text : Text}, (∀ c ∈ text, isWhitespace c = false) → '\n' ∉ text :=
    fun h => not_mem_of_plain h (by decide)
  refine newline_not_mem_keyed (by simp) fun hmem => ?_
  rcases mem_of_mem_intercalate hmem with hsep | ⟨part, hpart, hc⟩
  · exact absurd hsep (by decide)
  · simp only [columns, List.mem_cons, List.not_mem_nil, or_false] at hpart
    rcases hpart with rfl | rfl | rfl | rfl | rfl | rfl
    · exact hplain (display_plain _) hc
    · exact hsymbol hc
    · exact hplain (sideName_plain _) hc
    · exact hplain (display_plain _) hc
    · exact hplain (display_plain _) hc
    · cases ht : f.tag with
      | none => simp [ht] at hc
      | some t => exact htag t ht (by simpa [ht] using hc)

/-- A run as it comes back, with its profit read. -/
def Run.reread (r : Run F) (pnl : F) : Run F :=
  ⟨r.manifest.reread, ⟨r.fills.val.map RunFill.reread, by
    rw [List.length_map]
    exact r.fills.property⟩, pnl⟩

/-- The body of a run without separators is read. -/
theorem parseBody_body {r : Run F} (hr : Separated r) {pnl : F}
    (hpnl : FloatText.fromStr (FloatText.display r.pnl) = some pnl) :
    parseBody (body r) = .ok (r.reread pnl) := by
  have hlines : ∀ l ∈ headLines r ++ r.fills.val.map fillLine, '\n' ∉ l := by
    intro l hl
    rcases List.mem_append.mp hl with hl | hl
    · exact newline_not_mem_head hr l hl
    · obtain ⟨f, hf, rfl⟩ := List.mem_map.mp hl
      exact newline_not_mem_fillLine (hr.symbol f hf).2 fun t ht => (hr.tag f hf t ht).2
  have hcount : Coverage.len (r.reread pnl).fills = Coverage.len r.fills := by
    simp [Coverage.len, Run.reread]
  unfold parseBody
  rw [body, lines_unlines_stripCr hlines, List.map_append, List.zipIdx_append, List.foldlM_append,
    read_head r hpnl]
  show (List.foldlM Fields.read _ _ >>= _) = _
  rw [read_fills _ _ _ (fun f hf => (hr.symbol f hf).1) fun f hf t ht => (hr.tag f hf t ht).1]
  have hfinish := finish_ok (r := r.reread pnl) (s := ⟨some (trimEnd r.manifest.codeCommit),
    some (trimEnd r.manifest.dataHash), some (trimEnd r.manifest.configHash),
    trimEnd r.manifest.label, some pnl, some (Coverage.len r.fills),
    r.fills.val.map RunFill.reread⟩)
  exact hfinish.mpr ⟨rfl, rfl, rfl, rfl, rfl, rfl, congrArg some hcount.symm⟩

/-- The digits of a digest are one word. -/
theorem sha256Hex_plain (data : List UInt8) :
    ∀ c ∈ Sha256.sha256Hex data, isWhitespace c = false := by
  have hall : ∀ c ∈ Sha256.hexDigits, isWhitespace c = false := by
    simp [Sha256.hexDigits, isWhitespace]
  exact fun c hc => hall c (Sha256.mem_hexDigits_of_mem hc)

/-- The two lines over a body are read, and the body is left. -/
theorem parse_render_body (r : Run F) : (parse (render r) : Except ReadError (Run F)) =
    parseBody (body r) := by
  have hfirst : '\n' ∉ keyed "openquanter-run" version ∧
    '\r' ∉ keyed "openquanter-run" version := by
    simp [keyed, version]
  have hdigest : ∀ c, isWhitespace c = true → c ∉ Sha256.sha256Hex (utf8 (body r)) :=
    fun c hc => not_mem_of_plain (sha256Hex_plain _) hc
  have hsecond : '\n' ∉ keyed "body-sha256" (Sha256.sha256Hex (utf8 (body r))) ∧
      '\r' ∉ keyed "body-sha256" (Sha256.sha256Hex (utf8 (body r))) := by
    simp [keyed, hdigest '\n' (by decide), hdigest '\r' (by decide)]
  have hlines : lines (render r) = [keyed "openquanter-run" version,
      keyed "body-sha256" (Sha256.sha256Hex (utf8 (body r)))] ++ lines (body r) := by
    refine lines_unlines_append ?_ _
    rintro l (_ | ⟨_, _ | ⟨_, hl⟩⟩)
    · exact hfirst
    · exact hsecond
    · cases hl
  have hbody : afterLine (afterLine (render r)) = body r := by
    rw [render, unlines_cons, unlines_cons, unlines_nil, List.append_assoc, List.cons_append,
      afterLine_append hfirst.1, List.append_assoc, List.cons_append, afterLine_append hsecond.1]
    rfl
  have hkeyVersion : keyed "openquanter-run" version = "openquanter-run ".toList ++ version := by
    simp [keyed]
  have hkeyDigest : ∀ digest, keyed "body-sha256" digest = "body-sha256 ".toList ++ digest := by
    simp [keyed]
  unfold parse
  rw [hlines, hbody, hkeyVersion, hkeyDigest]
  simp only [List.cons_append, List.getElem?_cons_zero, List.getElem?_cons_succ, stripPrefix_append,
    trim_of_plain (sha256Hex_plain _)]
  rw [if_neg (by decide), if_neg (not_not.mpr rfl)]

/-- **A run without separators is read**, without what is lost at the ends of its texts. -/
theorem parse_render {r : Run F} (hr : Separated r) {pnl : F}
    (hpnl : FloatText.fromStr (FloatText.display r.pnl) = some pnl) :
    parse (render r) = .ok (r.reread pnl) :=
  (parse_render_body r).trans (parseBody_body hr hpnl)

/-! ## What is kept -/

/-- Nothing of a run is lost on the way: its texts have no separators in them and no blanks at
their ends, and a tag is neither empty nor a dash. -/
structure Kept (r : Run F) : Prop where
  separated : Separated r
  codeCommit : trimEnd r.manifest.codeCommit = r.manifest.codeCommit
  dataHash : trimEnd r.manifest.dataHash = r.manifest.dataHash
  configHash : trimEnd r.manifest.configHash = r.manifest.configHash
  label : trimEnd r.manifest.label = r.manifest.label
  tag : ∀ f ∈ r.fills.val, ∀ t ∈ f.tag, trimEnd t = t ∧ t ≠ [] ∧ t ≠ ['-']

omit [FloatText F] in
theorem reread_manifest_eq_iff {m : RunManifest} : m.reread = m ↔
    trimEnd m.codeCommit = m.codeCommit ∧ trimEnd m.dataHash = m.dataHash ∧
      trimEnd m.configHash = m.configHash ∧ trimEnd m.label = m.label := by
  cases m
  simp [RunManifest.reread]

theorem rereadTag_eq_iff {tag : Option Text} :
    rereadTag tag = tag ↔ ∀ t ∈ tag, trimEnd t = t ∧ t ≠ [] ∧ t ≠ ['-'] := by
  cases tag with
  | none => exact ⟨fun _ _ h => (nomatch h), fun _ => rfl⟩
  | some t =>
    rw [rereadTag, Option.map_some, Option.filter_some]
    constructor
    · intro h t' ht'
      obtain rfl := Option.some.inj ht'
      split at h
      · rename_i hkept
        rw [Option.some.inj h] at hkept
        exact ⟨Option.some.inj h, of_decide_eq_true hkept⟩
      · cases h
    · intro h
      obtain ⟨htrim, hkept⟩ := h t rfl
      rw [htrim, if_pos (decide_eq_true hkept)]

theorem reread_fills_eq_iff {fills : List RunFill} : fills.map RunFill.reread = fills ↔
    ∀ f ∈ fills, ∀ t ∈ f.tag, trimEnd t = t ∧ t ≠ [] ∧ t ≠ ['-'] := by
  have hfill : ∀ f : RunFill, f.reread = f ↔ rereadTag f.tag = f.tag := by
    intro f
    cases f
    simp [RunFill.reread]
  induction fills with
  | nil => simp
  | cons f fills ih =>
    rw [List.map_cons, List.cons_eq_cons, hfill, rereadTag_eq_iff, List.forall_mem_cons]
    exact and_congr_right fun _ => ih

/-- **A run comes back from its file if and only if** nothing of it is lost on the way. -/
theorem parse_render_same_iff (r : Run F) :
    (∃ back, parse (render r) = .ok back ∧ back.same r) ↔
      Kept r ∧ FloatText.eq r.pnl r.pnl = true := by
  obtain ⟨pnl, hpnl, heq⟩ := FloatText.reads r.pnl
  constructor
  · rintro ⟨back, hback, hmanifest, hfills, hprofit⟩
    have hsep : Separated r := by
      rw [parse_render_body] at hback
      have hsep := separated_of_parseBody hback
      exact ⟨hmanifest ▸ hsep.codeCommit, hmanifest ▸ hsep.dataHash, hmanifest ▸ hsep.configHash,
        hmanifest ▸ hsep.label, hfills ▸ hsep.symbol, hfills ▸ hsep.tag⟩
    rw [parse_render hsep hpnl] at hback
    obtain rfl := Except.ok.inj hback
    obtain ⟨hcode, hdata, hconfig, hlabel⟩ := reread_manifest_eq_iff.mp hmanifest
    exact ⟨⟨hsep, hcode, hdata, hconfig, hlabel,
      reread_fills_eq_iff.mp (congrArg Subtype.val hfills)⟩, heq ▸ hprofit⟩
  · rintro ⟨hkept, hself⟩
    refine ⟨r.reread pnl, parse_render hkept.separated hpnl, ?_, ?_, heq.trans hself⟩
    · exact reread_manifest_eq_iff.mpr ⟨hkept.codeCommit, hkept.dataHash, hkept.configHash,
        hkept.label⟩
    · exact Subtype.ext (reread_fills_eq_iff.mpr hkept.tag)

/-- A profit that is a whole number. -/
instance : FloatText Int64 where
  display := Numeral.display
  fromStr := Numeral.fromStr
  eq x y := x == y
  plain := display_plain
  reads x := ⟨x, Numeral.fromStr_display x, rfl⟩

theorem one_lt_size : 1 < 2 ^ 64 := Nat.one_lt_two_pow (by decide)

/-- A run of one fill. -/
def taggedRun (tag : Option Text) : Run Int64 :=
  ⟨⟨['c'], ['d'], ['g'], []⟩, ⟨[⟨1, ['X'], .buy, 1, 1, tag⟩], one_lt_size⟩, 0⟩

/-- An empty tag comes back absent. -/
theorem empty_tag_lost : parse (render (taggedRun (some []))) = .ok (taggedRun none) ∧
    ¬ ∃ back, parse (render (taggedRun (some []))) = .ok back ∧
    back.same (taggedRun (some [])) := by
  have hsep : Separated (taggedRun (some [])) := by
    constructor <;> simp [taggedRun]
  have hread : parse (render (taggedRun (some []))) = .ok (taggedRun none) :=
    parse_render hsep (Numeral.fromStr_display 0)
  refine ⟨hread, ?_⟩
  rintro ⟨back, hback, -, hfills, -⟩
  obtain rfl := Except.ok.inj (hread.symm.trans hback)
  exact absurd hfills (by decide)

end Parity
