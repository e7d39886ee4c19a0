/-
# The interlock of a live process (`oq-live/src/interlock.rs`)

One process trades a contract under a prefix of its order ids, and holds a lock file for as long
as it lives. The name of the file is put together from three texts, each of them encoded.

* A text is found again in its encoding, and so are the three in the name
  (`encode_injective`, `lockName_injective`).
* The files that are held are those of the live processes (`Reached.spec`), so a claim is refused
  by the process that trades the same and by no other.
-/
import OpenQuanter.CaptureManifest

namespace Interlock

/-! ## Names -/

/-- `u8::is_ascii_alphanumeric`, or a hyphen. -/
def isSafe (b : UInt8) : Bool :=
  (0x30 ≤ b && b ≤ 0x39) || (0x41 ≤ b && b ≤ 0x5A) || (0x61 ≤ b && b ≤ 0x7A) || b = 0x2D

/-- The hexadecimal digits, in capitals. -/
def hexDigits : Text :=
  ['0', '1', '2', '3', '4', '5', '6', '7', '8', '9', 'A', 'B', 'C', 'D', 'E', 'F']

def hexDigit (n : ℕ) : Char := hexDigits.getD n '0'

/-- One byte in a name. -/
def encodeByte (b : UInt8) : Text :=
  if isSafe b then [Char.ofUInt8 b]
  else ['%', hexDigit (b.toNat / 16), hexDigit (b.toNat % 16)]

def encodeBytes (bytes : List UInt8) : Text := bytes.flatMap encodeByte

/-- Make a component safe in a filename without merging two of them. -/
def encode (s : Text) : Text := encodeBytes (Text.utf8 s)

/-- The name of the lock file. -/
def lockName (deployment symbol prefix_ : Text) : Text :=
  ['o', 'q', '-', 'l', 'i', 'v', 'e', '.'] ++ (encode deployment ++ '.' :: (encode symbol ++ '.' ::
    (encode prefix_ ++ ['.', 'l', 'o', 'c', 'k'])))

section Encoding

theorem safe_char {b : UInt8} (h : isSafe b = true) :
    Char.ofUInt8 b ≠ '%' ∧ Char.ofUInt8 b ≠ '.' ∧ Char.ofUInt8 b ≠ '/' ∧
      Char.ofUInt8 b ≠ '\\' := by
  have hall : ∀ n : Fin 256, isSafe (UInt8.ofNat n) = true → Char.ofUInt8 (UInt8.ofNat n) ≠ '%' ∧
      Char.ofUInt8 (UInt8.ofNat n) ≠ '.' ∧ Char.ofUInt8 (UInt8.ofNat n) ≠ '/' ∧
      Char.ofUInt8 (UInt8.ofNat n) ≠ '\\' := by decide +kernel
  have hb := hall ⟨b.toNat, b.toNat_lt⟩
  rw [UInt8.ofNat_toNat] at hb
  exact hb h

theorem hexDigit_char {n : ℕ} (h : n < 16) :
    hexDigit n ≠ '.' ∧ hexDigit n ≠ '/' ∧ hexDigit n ≠ '\\' := by
  have hall : ∀ n : Fin 16, hexDigit n ≠ '.' ∧ hexDigit n ≠ '/' ∧ hexDigit n ≠ '\\' := by decide
  exact hall ⟨n, h⟩

theorem hexDigit_injective {m n : ℕ} (hm : m < 16) (hn : n < 16)
    (h : hexDigit m = hexDigit n) : m = n := by
  have hall : ∀ m n : Fin 16, hexDigit m = hexDigit n → m = n := by decide
  exact congrArg Fin.val (hall ⟨m, hm⟩ ⟨n, hn⟩ h)

theorem ofUInt8_injective {b c : UInt8} (h : Char.ofUInt8 b = Char.ofUInt8 c) : b = c := by
  have hnat : b.toNat = c.toNat := congrArg Char.toNat h
  exact UInt8.toNat_inj.mp hnat

/-- No byte is written with a dot or a separator. -/
theorem encodeByte_chars {b : UInt8} {c : Char} (hc : c ∈ encodeByte b) :
    c ≠ '.' ∧ c ≠ '/' ∧ c ≠ '\\' := by
  have hb := b.toNat_lt
  unfold encodeByte at hc
  split at hc <;> rename_i hsafe
  · rw [List.mem_singleton.mp hc]
    exact (safe_char hsafe).2
  · simp only [List.mem_cons, List.not_mem_nil, or_false] at hc
    rcases hc with rfl | rfl | rfl
    · decide
    · exact hexDigit_char (by omega)
    · exact hexDigit_char (by omega)

/-- The first byte of an encoding is told by its first character, a percent sign or not. -/
theorem encodeByte_append_inj {b c : UInt8} {t u : Text}
    (h : encodeByte b ++ t = encodeByte c ++ u) : b = c ∧ t = u := by
  have hb := b.toNat_lt
  have hc := c.toNat_lt
  unfold encodeByte at h
  split at h <;> split at h <;> rename_i hsafe hsafe'
  · obtain ⟨hchar, htail⟩ := List.cons.inj h
    exact ⟨ofUInt8_injective hchar, htail⟩
  · exact absurd (List.cons.inj h).1 (safe_char hsafe).1
  · exact absurd (List.cons.inj h).1.symm (safe_char hsafe').1
  · obtain ⟨-, h⟩ := List.cons.inj h
    obtain ⟨hhigh, h⟩ := List.cons.inj h
    obtain ⟨hlow, htail⟩ := List.cons.inj h
    have hdiv := hexDigit_injective (by omega) (by omega) hhigh
    have hmod := hexDigit_injective (by omega) (by omega) hlow
    exact ⟨UInt8.toNat_inj.mp (by omega), htail⟩

theorem encodeByte_ne_nil (b : UInt8) : encodeByte b ≠ [] := by
  unfold encodeByte
  split <;> exact List.cons_ne_nil _ _

theorem encodeBytes_injective : Function.Injective encodeBytes := by
  intro bytes other h
  induction bytes generalizing other with
  | nil =>
    cases other with
    | nil => rfl
    | cons c other =>
      have hnil := (List.append_eq_nil_iff.mp h.symm).1
      exact absurd hnil (encodeByte_ne_nil c)
  | cons b bytes ih =>
    cases other with
    | nil =>
      have hnil := (List.append_eq_nil_iff.mp h).1
      exact absurd hnil (encodeByte_ne_nil b)
    | cons c other =>
      obtain ⟨rfl, htail⟩ := encodeByte_append_inj (t := encodeBytes bytes) h
      rw [ih htail]

theorem utf8_injective : Function.Injective Text.utf8 := by
  intro s t h
  have hs := Text.fromUtf8_utf8 s
  rw [h, Text.fromUtf8_utf8] at hs
  exact (Option.some.inj hs).symm

/-- **Distinct inputs stay distinct.** -/
theorem encode_injective : Function.Injective encode :=
  encodeBytes_injective.comp utf8_injective

-- A slash is not merged with a hyphen.
example : encode ['B', '/', 'U', '-'] = ['B', '%', '2', 'F', 'U', '-'] := by decide +kernel

theorem encode_chars {s : Text} {c : Char} (hc : c ∈ encode s) :
    c ≠ '.' ∧ c ≠ '/' ∧ c ≠ '\\' := by
  obtain ⟨b, -, hc⟩ := List.mem_flatMap.mp hc
  exact encodeByte_chars hc

theorem dot_not_mem_encode (s : Text) : '.' ∉ encode s := fun h => (encode_chars h).1 rfl

/-- What is in front of the first dot is told apart by it. -/
theorem dot_inj {a a' t t' : Text} (ha : '.' ∉ a) (ha' : '.' ∉ a')
    (h : a ++ '.' :: t = a' ++ '.' :: t') : a = a' ∧ t = t' := by
  induction a generalizing a' with
  | nil =>
    cases a' with
    | nil => exact ⟨rfl, (List.cons.inj h).2⟩
    | cons c a' => exact absurd ((List.cons.inj h).1 ▸ List.mem_cons_self) ha'
  | cons c a ih =>
    cases a' with
    | nil => exact absurd ((List.cons.inj h).1 ▸ List.mem_cons_self) ha
    | cons d a' =>
      obtain ⟨rfl, htail⟩ := List.cons.inj h
      rw [List.mem_cons, not_or] at ha ha'
      obtain ⟨rfl, ht⟩ := ih ha.2 ha'.2 htail
      exact ⟨rfl, ht⟩

/-- The dots of a name are those between its parts. -/
theorem lockName_injective {deployment symbol prefix_ deployment' symbol' prefix' : Text}
    (h : lockName deployment symbol prefix_ = lockName deployment' symbol' prefix') :
    deployment = deployment' ∧ symbol = symbol' ∧ prefix_ = prefix' := by
  have hdot := dot_not_mem_encode
  have hparts := List.append_cancel_left h
  obtain ⟨hdeployment, hparts⟩ := dot_inj (hdot _) (hdot _) hparts
  obtain ⟨hsymbol, hparts⟩ := dot_inj (hdot _) (hdot _) hparts
  obtain ⟨hprefix_, -⟩ := dot_inj (hdot _) (hdot _) hparts
  exact ⟨encode_injective hdeployment, encode_injective hsymbol, encode_injective hprefix_⟩

/-- A name is that of one file in its directory. -/
theorem lockName_chars {deployment symbol prefix_ : Text} {c : Char}
    (hc : c ∈ lockName deployment symbol prefix_) : c ≠ '/' ∧ c ≠ '\\' := by
  have hbegin : ∀ c ∈ ['o', 'q', '-', 'l', 'i', 'v', 'e', '.'], c ≠ '/' ∧ c ≠ '\\' := by simp
  have hend : ∀ c ∈ ['.', 'l', 'o', 'c', 'k'], c ≠ '/' ∧ c ≠ '\\' := by simp
  unfold lockName at hc
  rcases List.mem_append.mp hc with hc | hc
  · exact hbegin c hc
  rcases List.mem_append.mp hc with hc | hc
  · exact (encode_chars hc).2
  rcases List.mem_cons.mp hc with rfl | hc
  · decide
  rcases List.mem_append.mp hc with hc | hc
  · exact (encode_chars hc).2
  rcases List.mem_cons.mp hc with rfl | hc
  · decide
  rcases List.mem_append.mp hc with hc | hc
  · exact (encode_chars hc).2
  · exact hend c hc

end Encoding

/-! ## The lock -/

/-- A directory and the name of a file in it. -/
abbrev Path := Text × Text

/-- What one process trades, and where it keeps its lock. -/
structure Claimant where
  pid : UInt32
  dir : Text
  deployment : Text
  symbol : Text
  prefix_ : Text
  deriving DecidableEq

namespace Claimant

/-- The three facts that decide which orders a process will claim. -/
def triple (c : Claimant) : Text × Text × Text := (c.deployment, c.symbol, c.prefix_)

def path (c : Claimant) : Path := (c.dir, lockName c.deployment c.symbol c.prefix_)

theorem path_eq_iff {c d : Claimant} : c.path = d.path ↔ c.dir = d.dir ∧ c.triple = d.triple := by
  simp only [path, triple, Prod.mk.injEq]
  constructor
  · rintro ⟨hdir, hname⟩
    exact ⟨hdir, lockName_injective hname⟩
  · rintro ⟨hdir, hdeployment, hsymbol, hprefix_⟩
    exact ⟨hdir, by rw [hdeployment, hsymbol, hprefix_]⟩

/-- What a holder writes about itself. -/
def line (c : Claimant) : Text :=
  "pid ".toList ++ (Nat.toDigits 10 c.pid.toNat ++ (" trading ".toList ++ (c.symbol ++
    (" on ".toList ++ (c.deployment ++ (" as ".toList ++ (c.prefix_ ++ ['\n'])))))))

end Claimant

/-- The lock files of a host: which of them are locked, and what is in them. -/
structure Host where
  held : List Path
  content : Path → List UInt8

/-- Somebody else is already trading this. -/
structure Taken where
  path : Path
  heldBy : Text
  deriving DecidableEq

/-- How the operating system answers, apart from the lock being held: the calls that fail, and
what is left in a file whose writing failed. -/
structure Os where
  createDir : Option Text
  open_ : Option Text
  tryLock : Option Text
  written : Option (List UInt8)

/-- The first call that fails. -/
def Os.fails (os : Os) : Option Text := os.createDir.or (os.open_.or os.tryLock)

/-- What is read of the holder, at most 1024 bytes of it. -/
def heldBy (content : List UInt8) : Text :=
  let text := Text.trim ((Text.fromUtf8 (content.take 1024)).getD [])
  if text = [] then "nothing about itself".toList else text

def failed (path : Path) (why : Text) : Taken :=
  ⟨path, "the lock could not be established: ".toList ++ why⟩

/-- Claim a triple in a directory, or say who holds it. -/
def claim (os : Os) (c : Claimant) (h : Host) : Except Taken Path × Host :=
  match os.createDir, os.open_ with
  | some why, _ => (.error (failed c.path why), h)
  | none, some why => (.error (failed c.path why), h)
  | none, none =>
    if c.path ∈ h.held then
      match os.tryLock with
      | some why => (.error (failed c.path why), h)
      | none => (.error ⟨c.path, heldBy (h.content c.path)⟩, h)
    else
      match os.tryLock with
      | some why => (.error (failed c.path why), h)
      | none => (.ok c.path,
        { held := c.path :: h.held
          content := Function.update h.content c.path (os.written.getD (Text.utf8 c.line)) })

/-- The lock is released when its holder drops it or ends; the file is left in place. -/
def Host.release (h : Host) (path : Path) : Host :=
  { h with held := h.held.filter (· ≠ path) }

/-- A claim succeeds if no call fails and the file is not locked, and else changes no lock. -/
theorem claim_cases (os : Os) (c : Claimant) (h : Host) :
    (os.fails = none ∧ c.path ∉ h.held ∧ (claim os c h).1 = .ok c.path ∧
      (claim os c h).2.held = c.path :: h.held) ∨
    ((os.fails = none → c.path ∈ h.held) ∧ (∃ t, (claim os c h).1 = .error t) ∧
      (claim os c h).2 = h) := by
  obtain ⟨createDir, open_, tryLock, written⟩ := os
  cases createDir with
  | some why => exact .inr ⟨fun h => (nomatch h), ⟨_, rfl⟩, rfl⟩
  | none =>
    cases open_ with
    | some why => exact .inr ⟨fun h => (nomatch h), ⟨_, rfl⟩, rfl⟩
    | none =>
      by_cases hheld : c.path ∈ h.held
      · cases tryLock <;> simp [claim, hheld, Os.fails]
      · cases tryLock <;> simp [claim, hheld, Os.fails]

/-! ## Runs of a host -/

/-- The hosts that are reached, with the processes that are live. -/
inductive Reached : Host → List Claimant → Prop
  | start (content : Path → List UInt8) : Reached ⟨[], content⟩ []
  | claimed {h : Host} {live : List Claimant} (os : Os) (c : Claimant) (reached : Reached h live)
    (ok : (claim os c h).1 = .ok c.path) : Reached (claim os c h).2 (c :: live)
  | refused {h : Host} {live : List Claimant} {t : Taken} (os : Os) (c : Claimant)
    (reached : Reached h live) (error : (claim os c h).1 = .error t) :
    Reached (claim os c h).2 live
  | released {h : Host} {live : List Claimant} {c : Claimant} (reached : Reached h live)
    (mem : c ∈ live) : Reached (h.release c.path) (live.erase c)

/-- The files that are locked are those of the live processes, one each. -/
structure Held (h : Host) (live : List Claimant) : Prop where
  mem_iff : ∀ path, path ∈ h.held ↔ ∃ c ∈ live, c.path = path
  nodup : (live.map Claimant.path).Nodup

theorem Held.claimed {h : Host} {live : List Claimant} (held : Held h live) {os : Os} {c : Claimant}
    (ok : (claim os c h).1 = .ok c.path) : Held (claim os c h).2 (c :: live) := by
  rcases claim_cases os c h with ⟨-, hfree, -, hlocks⟩ | ⟨-, ⟨t, ht⟩, -⟩
  · have hother : c.path ∉ live.map Claimant.path := by
      rw [List.mem_map]
      exact fun hmem => hfree ((held.mem_iff c.path).mpr hmem)
    refine ⟨?_, List.nodup_cons.mpr ⟨hother, held.nodup⟩⟩
    intro path
    simp only [hlocks, List.mem_cons, held.mem_iff, exists_eq_or_imp]
    rw [eq_comm]
  · rw [ht] at ok
    cases ok

theorem Held.released {h : Host} {live : List Claimant} (held : Held h live) {c : Claimant}
    (mem : c ∈ live) : Held (h.release c.path) (live.erase c) := by
  have hnodup := held.nodup.of_map
  refine ⟨?_, held.nodup.sublist (List.erase_sublist.map _)⟩
  intro path
  -- No other live process holds the file that is released.
  have hother : ∀ d ∈ live, d.path = c.path → d = c := fun d hd heq =>
    List.inj_on_of_nodup_map held.nodup hd mem heq
  rw [Host.release, List.mem_filter, held.mem_iff, decide_eq_true_eq]
  constructor
  · rintro ⟨⟨d, hd, rfl⟩, hne⟩
    exact ⟨d, (hnodup.mem_erase_iff).mpr ⟨fun heq => hne (heq ▸ rfl), hd⟩, rfl⟩
  · rintro ⟨d, hd, rfl⟩
    obtain ⟨hne, hd⟩ := hnodup.mem_erase_iff.mp hd
    exact ⟨⟨d, hd, rfl⟩, fun heq => hne (hother d hd heq)⟩

theorem Reached.held {h : Host} {live : List Claimant} (reached : Reached h live) :
    Held h live := by
  induction reached with
  | start content => exact ⟨fun path => by simp, List.nodup_nil⟩
  | claimed os c _ ok ih => exact ih.claimed ok
  | refused os c _ error ih =>
    rcases claim_cases os c _ with ⟨-, -, hok, -⟩ | ⟨-, -, hsame⟩
    · rw [hok] at error
      cases error
    · rw [hsame]
      exact ih
  | released _ mem ih => exact ih.released mem

/-- **Two live processes never share or miss an interlock.**  The name is that of one triple and
of one file; so of the live processes no two trade the same out of one directory, and a claim is
refused, if no call fails, by a process that trades the same and by no other. -/
theorem interlock_exclusive {h : Host} {live : List Claimant} (reached : Reached h live) :
    (∀ deployment symbol prefix_ deployment' symbol' prefix',
      (deployment, symbol, prefix_) ≠ (deployment', symbol', prefix') →
      lockName deployment symbol prefix_ ≠ lockName deployment' symbol' prefix') ∧
    (∀ deployment symbol prefix_, ∀ c ∈ lockName deployment symbol prefix_, c ≠ '/' ∧ c ≠ '\\') ∧
    live.Pairwise (fun c d => c.dir = d.dir → c.triple ≠ d.triple) ∧
    (∀ os c, (claim os c h).1 = .ok c.path → ∀ d ∈ live, d.dir = c.dir → d.triple ≠ c.triple) ∧
    (∀ os c t, os.fails = none → (claim os c h).1 = .error t →
      ∃ d ∈ live, d.dir = c.dir ∧ d.triple = c.triple) := by
  have hheld := reached.held
  refine ⟨?_, fun _ _ _ _ hc => lockName_chars hc, ?_, ?_, ?_⟩
  · intro deployment symbol prefix_ deployment' symbol' prefix' hne heq
    obtain ⟨rfl, rfl, rfl⟩ := lockName_injective heq
    exact hne rfl
  · refine (List.pairwise_map.mp hheld.nodup).imp ?_
    intro c d hne hdir htriple
    exact hne (Claimant.path_eq_iff.mpr ⟨hdir, htriple⟩)
  · intro os c hok d hd hdir htriple
    rcases claim_cases os c h with ⟨-, hfree, -, -⟩ | ⟨-, ⟨t, ht⟩, -⟩
    · exact hfree ((hheld.mem_iff _).mpr ⟨d, hd, Claimant.path_eq_iff.mpr ⟨hdir, htriple⟩⟩)
    · rw [ht] at hok
      cases hok
  · intro os c t hworks hrefused
    rcases claim_cases os c h with ⟨-, -, hok, -⟩ | ⟨hlocked, -, -⟩
    · rw [hok] at hrefused
      cases hrefused
    · obtain ⟨d, hd, hpath⟩ := (hheld.mem_iff _).mp (hlocked hworks)
      exact ⟨d, hd, Claimant.path_eq_iff.mp hpath⟩

/-- The process that trades the BTC contract of a test network. -/
def tester : Claimant := ⟨7, ['/'], ['t'], ['B', '/', 'U'], ['o', 'q']⟩

theorem interlock_exclusive_tester :
    [tester].Pairwise (fun c d => c.dir = d.dir → c.triple ≠ d.triple) ∧
    lockName ['t'] ['B', '/', 'U'] ['o', 'q'] ≠ lockName ['t', '.', 'B'] ['/', 'U'] ['o', 'q'] := by
  have hclaimed := Reached.claimed ⟨none, none, none, none⟩ tester (.start fun _ => []) rfl
  have hexclusive := interlock_exclusive hclaimed
  exact ⟨hexclusive.2.2.1, hexclusive.1 _ _ _ _ _ _ (by decide)⟩

end Interlock
