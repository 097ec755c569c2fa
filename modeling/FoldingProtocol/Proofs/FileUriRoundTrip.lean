import FoldingProtocol.Proofs.PathNormalForm
import FoldingProtocol.Proofs.Utf8RoundTrip
import FoldingProtocol.Uri.File
import Mathlib.Data.List.TakeWhile

/-!
# A path comes back from its URI

The URI of a path is made in three steps: the names of its normal form are put
behind slashes, the text of that becomes bytes, and the bytes become characters
that a URI may have. Reading back undoes the steps from the last to the first,
but by other means: a URI is split into scheme, authority and path before anyone
looks at escapes. What makes this harmless is that an escaped path holds none of
the characters that splitting looks for, and starts with a slash, so that the
authority in front of it is empty.
-/

namespace FoldingProtocol

theorem Hex.value?_upper : ∀ n < 16, value? (upper n) = some n := by decide

namespace Percent

/-! ## What an escaped path is made of -/

/-- A character that a URI has as it is: a letter or digit of ASCII, or one of six
marks. -/
def StandsForItself (c : Char) : Prop :=
  c.isAlphanum = true ∨ c ∈ ['_', '.', '-', '~', '/', ':']

/-- A digit of an escape. -/
def IsHexDigit (c : Char) : Prop :=
  c ∈ ['0', '1', '2', '3', '4', '5', '6', '7', '8', '9', 'A', 'B', 'C', 'D', 'E', 'F']

instance (c : Char) : Decidable (IsHexDigit c) := inferInstanceAs (Decidable (c ∈ _))

/-- Characters that stand for themselves, and escapes. -/
inductive Escaped : List Char → Prop where
  | nil : Escaped []
  | char {c : Char} {rest : List Char} (h : StandsForItself c) (hrest : Escaped rest) :
      Escaped (c :: rest)
  | byte {a b : Char} {rest : List Char} (ha : IsHexDigit a) (hb : IsHexDigit b)
      (hrest : Escaped rest) : Escaped ('%' :: a :: b :: rest)

theorem isAlphanum_iff {c : Char} :
    c.isAlphanum = true ↔ ('A' ≤ c ∧ c ≤ 'Z') ∨ ('a' ≤ c ∧ c ≤ 'z') ∨ ('0' ≤ c ∧ c ≤ '9') := by
  have hbool : c.isAlphanum = (decide ('A' ≤ c ∧ c ≤ 'Z') ||
      (decide ('a' ≤ c) && decide (c ≤ 'z')) || (decide ('0' ≤ c) && decide (c ≤ '9'))) := rfl
  simp only [hbool, Bool.or_eq_true, Bool.and_eq_true, decide_eq_true_eq, or_assoc]

theorem standsForItself_of_isPlain {c : Char} (h : isPlain c = true) : StandsForItself c := by
  simp only [isPlain, Bool.or_eq_true, Bool.and_eq_true, decide_eq_true_eq, beq_iff_eq] at h
  rw [StandsForItself, isAlphanum_iff]
  rcases h with ((((((((h | h) | h) | h) | h) | h) | h) | h) | h)
  · exact .inl (.inr (.inl h))
  · exact .inl (.inl h)
  · exact .inl (.inr (.inr h))
  all_goals simp [h]

theorem isHexDigit_upper : ∀ n < 16, IsHexDigit (Hex.upper n) := by decide

theorem escapeByte_eq (b : UInt8) :
    escapeByte b = ['%', Hex.upper (b.toNat / 16), Hex.upper (b.toNat % 16)] := by
  have hb : b.toNat / 16 % 16 = b.toNat / 16 := by
    have := b.toNat_lt
    omega
  rw [escapeByte, Hex.fixed, Hex.fixed, Hex.fixed, hb]
  rfl

theorem escaped_flatMap_escapeByte {rest : List Char} (hrest : Escaped rest)
    (bytes : Utf8.Bytes) : Escaped (bytes.flatMap escapeByte ++ rest) := by
  induction bytes with
  | nil => exact hrest
  | cons b bytes ih =>
      have hb := b.toNat_lt
      rw [List.flatMap_cons, escapeByte_eq, List.append_assoc]
      exact .byte (isHexDigit_upper _ (by omega)) (isHexDigit_upper _ (by omega)) ih

theorem escape_cons (c : Char) (rest : List Char) :
    escape (c :: rest) =
      (if isPlain c then [c] else (Utf8.encodeChar c).flatMap escapeByte) ++ escape rest :=
  List.flatMap_cons

theorem escaped_escape (cs : List Char) : Escaped (escape cs) := by
  induction cs with
  | nil => exact .nil
  | cons c rest ih =>
      rw [escape_cons]
      split
      · next h => exact .char (standsForItself_of_isPlain h) ih
      · exact escaped_flatMap_escapeByte ih _

/-- The bounds of characters in a URI: all of ASCII, above the number sign, and no
question mark among them. -/
theorem StandsForItself.bounds {c : Char} (h : StandsForItself c) :
    0x25 < c.toNat ∧ c.toNat < 0x80 ∧ c ≠ '?' := by
  have hquestion : c.toNat ≠ 63 → c ≠ '?' := fun hne heq => hne (heq ▸ rfl)
  rw [StandsForItself, isAlphanum_iff] at h
  rcases h with (⟨hlow, hhigh⟩ | ⟨hlow, hhigh⟩ | ⟨hlow, hhigh⟩) | h
  · have hlow : 65 ≤ c.toNat := hlow
    have hhigh : c.toNat ≤ 90 := hhigh
    exact ⟨by omega, by omega, hquestion (by omega)⟩
  · have hlow : 97 ≤ c.toNat := hlow
    have hhigh : c.toNat ≤ 122 := hhigh
    exact ⟨by omega, by omega, hquestion (by omega)⟩
  · have hlow : 48 ≤ c.toNat := hlow
    have hhigh : c.toNat ≤ 57 := hhigh
    exact ⟨by omega, by omega, hquestion (by omega)⟩
  · simp only [List.mem_cons, List.not_mem_nil, or_false] at h
    rcases h with rfl | rfl | rfl | rfl | rfl | rfl <;> decide
theorem IsHexDigit.standsForItself {c : Char} (h : IsHexDigit c) : StandsForItself c := by
  simp only [IsHexDigit, List.mem_cons, List.not_mem_nil, or_false] at h
  rcases h with rfl | rfl | rfl | rfl | rfl | rfl | rfl | rfl | rfl | rfl | rfl | rfl |
    rfl | rfl | rfl | rfl <;> exact .inl rfl

theorem Escaped.bounds {cs : List Char} (h : Escaped cs) :
    ∀ c ∈ cs, 0x25 ≤ c.toNat ∧ c.toNat < 0x80 ∧ c ≠ '?' := by
  have hplain : ∀ {c : Char}, StandsForItself c → 0x25 ≤ c.toNat ∧ c.toNat < 0x80 ∧ c ≠ '?' :=
    fun hc => ⟨Nat.le_of_lt hc.bounds.1, hc.bounds.2⟩
  induction h with
  | nil => exact nofun
  | char hc _ ih => exact List.forall_mem_cons.mpr ⟨hplain hc, ih⟩
  | byte ha hb _ ih =>
      exact List.forall_mem_cons.mpr ⟨by decide, List.forall_mem_cons.mpr
        ⟨hplain ha.standsForItself, List.forall_mem_cons.mpr ⟨hplain hb.standsForItself, ih⟩⟩⟩

/-! ## Behind the escapes -/

theorem bytes_cons {c : Char} (h : c ≠ '%') (rest : List Char) :
    bytes (c :: rest) = .ofNat c.toNat :: bytes rest := by
  rw [bytes]
  rintro a b tail heq
  exact absurd heq h

theorem bytes_escapeByte (b : UInt8) (rest : List Char) :
    bytes (escapeByte b ++ rest) = b :: bytes rest := by
  have hb := b.toNat_lt
  rw [escapeByte_eq]
  show bytes ('%' :: Hex.upper _ :: Hex.upper _ :: rest) = _
  rw [bytes, Hex.value?_upper _ (by omega), Hex.value?_upper _ (by omega)]
  have hnumber : 16 * (b.toNat / 16) + b.toNat % 16 = b.toNat := by omega
  simp only [hnumber, UInt8.ofNat_toNat]

theorem bytes_flatMap_escapeByte (bs : Utf8.Bytes) (rest : List Char) :
    bytes (bs.flatMap escapeByte ++ rest) = bs ++ bytes rest := by
  induction bs with
  | nil => rfl
  | cons b bs ih =>
      rw [List.flatMap_cons, List.append_assoc, bytes_escapeByte, ih]
      rfl

theorem encodeChar_of_ascii {c : Char} (h : c.toNat < 0x80) :
    Utf8.encodeChar c = [.ofNat c.toNat] := if_pos h

theorem bytes_escape (cs : List Char) : bytes (escape cs) = Utf8.encode cs := by
  induction cs with
  | nil => rfl
  | cons c rest ih =>
      rw [escape_cons, Utf8.encode, List.flatMap_cons, ← Utf8.encode, ← ih]
      split
      · next h =>
          have hbounds := (standsForItself_of_isPlain h).bounds
          have hpercent : c ≠ '%' := fun heq => absurd (heq ▸ hbounds.1) (by decide)
          rw [encodeChar_of_ascii hbounds.2.1]
          exact bytes_cons hpercent _
      · exact bytes_flatMap_escapeByte _ _

theorem unescapeFrom_of_ascii {cs : List Char} (h : ∀ c ∈ cs, c.toNat < 0x80)
    (run : List Char) : unescapeFrom run cs = Utf8.decodeLossy (bytes (run.reverse ++ cs)) := by
  induction cs generalizing run with
  | nil => rw [unescapeFrom, List.append_nil]
  | cons c rest ih =>
      rw [unescapeFrom, if_pos (h c List.mem_cons_self),
        ih fun c' hc' => h c' (List.mem_cons_of_mem _ hc')]
      rw [List.reverse_cons, List.append_assoc]
      rfl

/-- Whatever characters a text has, it stands behind its escapes. -/
theorem unescape_escape (cs : List Char) : unescape (escape cs) = cs := by
  rw [unescape, unescapeFrom_of_ascii fun c hc => ((escaped_escape cs).bounds c hc).2.1]
  exact (congrArg Utf8.decodeLossy (bytes_escape cs)).trans (Utf8.decodeLossy_encode cs)

end Percent

namespace Uri

open FilePath

/-! ## Splitting -/

/-- A reference with the scheme of files, an empty authority, and a path without
characters that mean something to whoever splits it. -/
theorem ofText_file {path : List Char} (hslash : path.head? = some '/')
    (hpath : ∀ c ∈ path, 0x25 ≤ c.toNat ∧ c.toNat < 0x80 ∧ c ≠ '?') :
    Reference.ofText ("file://".toList ++ path) = .ok ⟨['f', 'i', 'l', 'e'], path⟩ := by
  have hkept : ∀ c ∈ path, c ≠ '\t' ∧ c ≠ '\r' ∧ c ≠ '\n' ∧ c ≠ '#' := by
    intro c hc
    have hlow := (hpath c hc).1
    refine ⟨?_, ?_, ?_, ?_⟩ <;> rintro rfl <;> exact absurd hlow (by decide)
  have hfilter : path.filter (fun c => c ≠ '\t' && c ≠ '\r' && c ≠ '\n') = path :=
    List.filter_eq_self.mpr fun c hc => by simp [hkept c hc]
  have hhash : path.takeWhile (· ≠ '#') = path :=
    List.takeWhile_eq_self_iff.mpr fun c hc => by simp [hkept c hc]
  have hquestion : path.takeWhile (· ≠ '?') = path :=
    List.takeWhile_eq_self_iff.mpr fun c hc => by simp [hpath c hc]
  have hclean : (("file://".toList ++ path).dropWhile fun c => decide (c.toNat ≤ 0x20)).filter
      (fun c => c ≠ '\t' && c ≠ '\r' && c ≠ '\n') = "file://".toList ++ path :=
    congrArg ("file://".toList ++ ·) hfilter
  obtain ⟨rest, rfl⟩ := List.head?_eq_some_iff.mp hslash
  have hscheme : splitScheme ("file://".toList ++ '/' :: rest) =
      (['f', 'i', 'l', 'e'], '/' :: '/' :: '/' :: rest) := rfl
  have hauthority : splitAuthority ('/' :: '/' :: '/' :: rest) = ([], '/' :: rest) := rfl
  have hempty : checkAuthority [] = .ok () := rfl
  rw [Reference.ofText, hclean, hscheme]
  simp only [hauthority, hempty, hhash, hquestion]
  rfl

/-! ## There and back -/

theorem plainPath_file (path : List Char) :
    Reference.plainPath ⟨['f', 'i', 'l', 'e'], path⟩ = path := rfl

theorem ofPath?_of_absolute {path : List Char} (habsolute : path.head? = some '/')
    (hnull : '\x00' ∉ path) (directory : List (List Char)) {names : List (List Char)}
    (h : NormalForm path names) : ofPath? directory path = some (ofNames names) := by
  rw [ofPath?, if_neg (by simpa using hnull), resolve_of_absolute habsolute,
    ← normalForm_iff.mp h]

theorem ofNames_eq (names : List (List Char)) :
    ofNames names = "file://".toList ++ Percent.escape ('/' :: ['/'].intercalate names) := rfl

theorem head?_escape (rest : List Char) :
    (Percent.escape ('/' :: rest)).head? = some '/' := rfl

theorem toPath_ofNames {path : List Char} {names : List (List Char)}
    (h : NormalForm path names) : toPath (ofNames names) = .ok ⟨.single, names⟩ := by
  have hread := ofText_file (head?_escape (['/'].intercalate names))
    (Percent.escaped_escape _).bounds
  have hback := h.ofText_text
  rw [text_single] at hback
  rw [toPath, ofNames_eq, hread]
  simp only [if_true, plainPath_file, Percent.unescape_escape, hback]

theorem ofNames_injective {path other : List Char} {names others : List (List Char)}
    (h : NormalForm path names) (h' : NormalForm other others)
    (heq : ofNames names = ofNames others) : names = others := by
  have hpaths := (toPath_ofNames h).symm.trans ((congrArg toPath heq).trans (toPath_ofNames h'))
  injection hpaths with hpaths
  exact congrArg FilePath.names hpaths

/-- A path from the root without null characters has a URI, in which its escapes
stand behind the scheme. What comes back from the URI is the normal form of the
path, and two paths have the same URI exactly if they have the same normal form. -/
theorem toPath_of_ofPath? {path : List Char} (habsolute : path.head? = some '/')
    (hnull : '\x00' ∉ path) (directory : List (List Char)) :
    ∃ names escaped, NormalForm path names ∧
      ofPath? directory path = some ("file://".toList ++ escaped) ∧
      Percent.Escaped escaped ∧
      toPath ("file://".toList ++ escaped) = .ok ⟨.single, names⟩ ∧
      ∀ other, other.head? = some '/' → '\x00' ∉ other →
        (ofPath? directory other = ofPath? directory path ↔ NormalForm other names) := by
  have h := normalForm_iff.mpr (Eq.refl (enterAll [] (Text.splitAt '/' path)))
  generalize enterAll [] (Text.splitAt '/' path) = names at h
  have hpath := ofPath?_of_absolute habsolute hnull directory h
  refine ⟨names, _, h, hpath, Percent.escaped_escape _, toPath_ofNames h, ?_⟩
  intro other habsolute' hnull'
  have h' := normalForm_iff.mpr (Eq.refl (enterAll [] (Text.splitAt '/' other)))
  generalize enterAll [] (Text.splitAt '/' other) = others at h'
  rw [hpath, ofPath?_of_absolute habsolute' hnull' directory h', Option.some_inj]
  constructor
  · intro heq
    rwa [ofNames_injective h' h heq] at h'
  · intro hsame
    rw [normalForm_iff.mp h', normalForm_iff.mp hsame]

/-- A path with steps that lead nowhere, above the root and back, and a name that
looks like an escape and a query. -/
def awkwardPath : List Char :=
  ['/', '.', '.', '/', 'a', '/', '/', '.', '/', 'b', '/', '.', '.', '/', '%', '4', '1', '?', 'é']

theorem awkwardPath_comes_back :
    awkwardPath.head? = some '/' ∧ '\x00' ∉ awkwardPath ∧
      ∃ escaped, ofPath? [] awkwardPath = some ("file://".toList ++ escaped) ∧
        Percent.Escaped escaped ∧
        toPath ("file://".toList ++ escaped) = .ok ⟨.single, [['a'], ['%', '4', '1', '?', 'é']]⟩ ∧
        ofPath? [] ['/', 'a', '/', '%', '4', '1', '?', 'é'] = ofPath? [] awkwardPath := by
  have habsolute : awkwardPath.head? = some '/' := rfl
  have hnull : '\x00' ∉ awkwardPath := by decide
  obtain ⟨names, escaped, hform, huri, hescaped, hback, hsame⟩ :=
    toPath_of_ofPath? habsolute hnull []
  have hnames : names = [['a'], ['%', '4', '1', '?', 'é']] := normalForm_iff.mp hform
  subst hnames
  exact ⟨habsolute, hnull, escaped, huri, hescaped, hback,
    (hsame _ rfl (by decide)).mpr (normalForm_iff.mpr rfl)⟩

end Uri

end FoldingProtocol
