import FoldingProtocol.Json.Printer
import FoldingProtocol.Json.Reader
import FoldingProtocol.Proofs.ShownNumbers
import FoldingProtocol.Proofs.StoredTexts
import FoldingProtocol.Proofs.Utf8RoundTrip
import Mathlib.Algebra.Group.Nat.Defs
import Mathlib.Data.List.TakeDrop

/-!
# Texts and integers read back

The two kinds of JSON scalar in which printing and reading have something to
undo. A text is printed point by point: a character as itself, as an escape of one
letter, as the escape of a unit, or as a pair of these, and half a pair as the escape
of a unit. Reading takes the escapes apart into pieces and joins them again. Joining
looks at two units at a time, so a unit that stands for a character must not be taken
for half of a pair, which holds because no character is a surrogate; and a half must
not find its other half behind it.

An integer is printed without a zero before its other digits, so reading does
not stop early, and it is read back as long as it has no more digits than the
reader is to accept. What follows it must not look like more of the number.
-/

namespace FoldingProtocol

namespace Hex

theorem value?_lower : ∀ n < 16, value? (lower n) = some n := by decide

theorem read?_append_singleton (cs : List Char) (c : Char) :
    read? (cs ++ [c]) = (read? cs).bind fun n => (value? c).map (16 * n + ·) := by
  rw [read?, List.foldlM_append]
  cases h : cs.foldlM (fun n c => (value? c).map (16 * n + ·)) 0 with
  | none => simp only [read?, h]; rfl
  | some n =>
      simp only [read?, h, Option.bind_some, List.foldlM_cons, List.foldlM_nil]
      cases value? c <;> rfl

/-- A width keeps the lowest digits of a number. -/
theorem read?_fixed {digit : Nat → Char} (hdigit : ∀ n < 16, value? (digit n) = some n)
    (width n : Nat) : read? (fixed digit width n) = some (n % 16 ^ width) := by
  induction width generalizing n with
  | zero => rw [Nat.pow_zero, Nat.mod_one]; rfl
  | succ width ih =>
      rw [fixed, read?_append_singleton, ih, Option.bind_some, hdigit _ (by omega), Option.map_some,
        Nat.pow_succ', Nat.mod_mul, Nat.add_comm]

end Hex

/-- An integer with no more digits than a limit allows. -/
def Numeral.Within (limit : Option Nat) (n : Int) : Prop :=
  exceeds limit (ofNat n.natAbs).length = false

theorem Numeral.exceeds_some {most count : Nat} :
    exceeds (some most) count = true ↔ most < count := decide_eq_true_iff

theorem Numeral.within_none (n : Int) : Within none n := rfl

theorem Numeral.Short.within {n : Int} (h : Short n) : Within (some digitLimit) n :=
  Bool.eq_false_iff.mpr fun hmore => Nat.not_lt.mpr (length_ofNat h) (exceeds_some.mp hmore)

namespace Json

/-! ## Texts -/

theorem unitEscape_eq (n : Nat) :
    unitEscape n = ['\\', 'u', Hex.lower (n / 16 / 16 / 16 % 16), Hex.lower (n / 16 / 16 % 16),
      Hex.lower (n / 16 % 16), Hex.lower (n % 16)] := rfl

theorem pieces_unitEscape (opening : List Char) {n : Nat} (hn : n < 0x10000) {rest : List Char}
    (hrest : rest ≠ []) :
    pieces opening (unitEscape n ++ rest) =
      (pieces opening rest).map fun (ps, r) => (.unit n :: ps, r) := by
  have hread : Hex.read? (Hex.fixed Hex.lower 4 n) = some n := by
    rw [Hex.read?_fixed Hex.value?_lower, Nat.mod_eq_of_lt (show n < 16 ^ 4 from hn)]
  have hmore : rest.isEmpty = false := by
    cases rest with
    | nil => exact absurd rfl hrest
    | cons _ _ => rfl
  rw [unitEscape_eq]
  simp only [List.cons_append, List.nil_append]
  rw [pieces]
  have hfixed : [Hex.lower (n / 16 / 16 / 16 % 16), Hex.lower (n / 16 / 16 % 16),
      Hex.lower (n / 16 % 16), Hex.lower (n % 16)] = Hex.fixed Hex.lower 4 n := rfl
  rw [hfixed, hread, hmore]

theorem pieces_plain (opening : List Char) {c : Char} (hquote : c ≠ '"') (hslash : c ≠ '\\')
    (hc : 0x20 ≤ c.toNat) (rest : List Char) :
    pieces opening (c :: rest) =
      (pieces opening rest).map fun (ps, r) => (.char c :: ps, r) := by
  rw [pieces]
  · rw [if_neg (by omega)]
  all_goals simp_all

theorem pieces_letter (opening : List Char) {letter c : Char} (hletter : escaped? letter = some c)
    (hunit : letter ≠ 'u') (rest : List Char) :
    pieces opening ('\\' :: letter :: rest) =
      (pieces opening rest).map fun (ps, r) => (.char c :: ps, r) := by
  rw [pieces]
  · rw [hletter]
  all_goals simp_all

/-- Pieces that start with a unit that closes a pair. -/
def StartsLow (ps : List Piece) : Prop := ∃ low rest, ps = .unit low :: rest ∧ isLow low = true

theorem join_unit {n : Nat} {ps : List Piece} (h : isHigh n = true → ¬ StartsLow ps) :
    join (.unit n :: ps) = pointOfUnit n :: join ps := by
  cases ps with
  | nil => rfl
  | cons p ps =>
      cases p with
      | char c => rfl
      | unit low =>
          have hpair : (isHigh n && isLow low) = false := by
            cases hhigh : isHigh n with
            | false => rfl
            | true => exact Bool.eq_false_iff.mpr fun hlow => h hhigh ⟨low, ps, rfl, hlow⟩
          rw [join, hpair, if_neg Bool.false_ne_true]

theorem join_pair {high low : Nat} (hhigh : isHigh high = true) (hlow : isLow low = true)
    (ps : List Piece) :
    join (.unit high :: .unit low :: ps) = .char (charOfPair high low) :: join ps := by
  rw [join, hhigh, hlow, Bool.true_and, if_pos rfl]

theorem pointOfUnit_toNat (c : Char) : pointOfUnit c.toNat = .char c := by
  have hscalar := Utf8.toNat_not_surrogate c
  rw [pointOfUnit, dif_neg (by omega), Char.ofNat_toNat]

theorem pointOfUnit_halfCode (n : Fin 0x800) : pointOfUnit (Text.halfCode n) = .half n := by
  have hcode : Text.halfCode n = 0xd800 + n := rfl
  rw [pointOfUnit, dif_pos (by omega), Text.Point.half.injEq, Fin.ext_iff]
  show Text.halfCode n - 0xd800 = n
  omega

/-- The point of a unit is a character, or the half with the code of the unit. -/
theorem pointOfUnit_cases (n : Nat) :
    (∃ c, pointOfUnit n = .char c) ∨ ∃ k, pointOfUnit n = .half k ∧ Text.halfCode k = n := by
  unfold pointOfUnit
  split
  · next hn => exact .inr ⟨_, rfl, Nat.add_sub_cancel' hn.1⟩
  · exact .inl ⟨_, rfl⟩

theorem isHigh_of_pointOfUnit {n : Nat} (h : (pointOfUnit n).isHigh = true) : isHigh n = true := by
  obtain ⟨c, hpoint⟩ | ⟨k, hpoint, rfl⟩ := pointOfUnit_cases n
  · rw [hpoint] at h
    cases h
  · rw [hpoint, Text.Point.isHigh, decide_eq_true_eq] at h
    have hcode : Text.halfCode k = 0xd800 + k := rfl
    simp only [isHigh, Bool.and_eq_true, decide_eq_true_eq]
    omega

theorem isLow_of_pointOfUnit {n : Nat} (h : (pointOfUnit n).isLow = true) : isLow n = true := by
  obtain ⟨c, hpoint⟩ | ⟨k, hpoint, rfl⟩ := pointOfUnit_cases n
  · rw [hpoint] at h
    cases h
  · rw [hpoint, Text.Point.isLow, decide_eq_true_eq] at h
    have hcode : Text.halfCode k = 0xd800 + k := rfl
    simp only [isLow, Bool.and_eq_true, decide_eq_true_eq]
    omega

/-- Joining closes no pair that was not closed in the pieces. -/
theorem startsLow_of_join {ps : List Piece} {p : Text.Point} (hp : p ∈ (join ps).head?)
    (hlow : p.isLow = true) : StartsLow ps := by
  cases ps with
  | nil => cases hp
  | cons piece ps =>
      cases piece with
      | char c =>
          cases hp
          cases hlow
      | unit n =>
          by_cases hpair : isHigh n = true ∧ StartsLow ps
          · obtain ⟨hhigh, low, rest, rfl, hcloses⟩ := hpair
            rw [join_pair hhigh hcloses] at hp
            cases hp
            cases hlow
          · rw [join_unit fun hhigh hstarts => hpair ⟨hhigh, hstarts⟩] at hp
            cases hp
            exact ⟨n, ps, rfl, isLow_of_pointOfUnit hlow⟩

/-- What was joined has no halves left that make a pair. -/
theorem joined_join (ps : List Piece) : Text.Joined (join ps) := by
  induction ps using join.induct with
  | case1 => exact .nil
  | case2 c rest ih => exact List.isChain_cons.mpr ⟨fun _ _ h => Bool.false_ne_true h.1, ih⟩
  | case3 high low rest hpair ih =>
      rw [join, if_pos hpair]
      exact List.isChain_cons.mpr ⟨fun _ _ h => Bool.false_ne_true h.1, ih⟩
  | case4 high low rest hpair ih =>
      rw [join, if_neg hpair]
      refine List.isChain_cons.mpr ⟨fun q hq h => hpair ?_, ih⟩
      obtain ⟨_, _, ⟨⟩, hlow⟩ := startsLow_of_join hq h.2
      rw [isHigh_of_pointOfUnit h.1, hlow, Bool.and_self]
  | case5 n rest hrest ih =>
      have hopen : ¬ StartsLow rest := by
        rintro ⟨low, more, rfl, -⟩
        exact hrest low more rfl
      rw [join_unit fun _ => hopen]
      exact List.isChain_cons.mpr ⟨fun q hq h => hopen (startsLow_of_join hq h.2), ih⟩

/-- The ways to print a point. -/
inductive PrintedAs : Text.Point → List Char → Prop where
  | letter {c letter : Char} (hletter : escaped? letter = some c) (hunit : letter ≠ 'u') :
      PrintedAs (.char c) ['\\', letter]
  | plain {c : Char} (hquote : c ≠ '"') (hslash : c ≠ '\\') (hlow : 0x20 ≤ c.toNat)
      (hhigh : c.toNat < 0x7f) : PrintedAs (.char c) [c]
  | unit {c : Char} (h : c.toNat < 0x10000) : PrintedAs (.char c) (unitEscape c.toNat)
  | pair {c : Char} (h : 0x10000 ≤ c.toNat) :
      PrintedAs (.char c) (unitEscape (0xd800 + (c.toNat - 0x10000) / 0x400) ++
        unitEscape (0xdc00 + (c.toNat - 0x10000) % 0x400))
  | half (n : Fin 0x800) : PrintedAs (.half n) (unitEscape (Text.halfCode n))

theorem printedAs_escapedChar (c : Char) : PrintedAs (.char c) (escapedChar c) := by
  unfold escapedChar
  split
  · next h =>
      rcases h with rfl | rfl
      · exact .letter rfl (by decide)
      · exact .letter rfl (by decide)
  · next hspecial =>
      split
      · next h => exact .letter (by rw [h]; rfl) (by decide)
      split
      · next h => exact .letter (by rw [h]; rfl) (by decide)
      split
      · next h => exact .letter (by rw [h]; rfl) (by decide)
      split
      · next h => exact .letter (by rw [h]; rfl) (by decide)
      split
      · next h => exact .letter (by rw [h]; rfl) (by decide)
      split
      · next h =>
          exact .plain (fun hc => hspecial (.inl hc)) (fun hc => hspecial (.inr hc)) h.1 h.2
      split
      · next h => exact .unit h
      · next h => exact .pair (by omega)

theorem printedAs_escapedPoint (p : Text.Point) : PrintedAs p (escapedPoint p) := by
  cases p with
  | char c => exact printedAs_escapedChar c
  | half n => exact .half n

/-- What reading makes of a printed point: pieces that join to it again, unless it opens a
pair that what follows would close. -/
structure Rejoins (p : Text.Point) (made : List Piece) : Prop where
  joins : ∀ ps, (p.isHigh = true → ¬ StartsLow ps) → join (made ++ ps) = p :: join ps
  low : ∀ ps, StartsLow (made ++ ps) → p.isLow = true

theorem rejoins_char (c : Char) : Rejoins (.char c) [.char c] where
  joins _ _ := rfl
  low _ h := by
    obtain ⟨low, rest, heq, -⟩ := h
    cases heq

theorem rejoins_unit (c : Char) : Rejoins (.char c) [.unit c.toNat] where
  joins ps _ := by
    have hscalar := Utf8.toNat_not_surrogate c
    have hhigh : isHigh c.toNat = false := by simp [isHigh]; omega
    rw [List.singleton_append, join_unit (by rw [hhigh]; exact nofun), pointOfUnit_toNat]
  low ps h := by
    obtain ⟨low, rest, heq, hlow⟩ := h
    cases heq
    have hscalar := Utf8.toNat_not_surrogate c
    simp only [isLow, Bool.and_eq_true, decide_eq_true_eq] at hlow
    omega

theorem rejoins_pair {c : Char} (h : 0x10000 ≤ c.toNat) :
    Rejoins (.char c) [.unit (0xd800 + (c.toNat - 0x10000) / 0x400),
      .unit (0xdc00 + (c.toNat - 0x10000) % 0x400)] where
  joins ps _ := by
    have hlt := Utf8.toNat_lt c
    have hnumber : 0x10000 + (0xd800 + (c.toNat - 0x10000) / 0x400 - 0xd800) * 0x400 +
        (0xdc00 + (c.toNat - 0x10000) % 0x400 - 0xdc00) = c.toNat := by omega
    rw [List.cons_append, List.singleton_append,
      join_pair (by simp [isHigh]; omega) (by simp [isLow]; omega), charOfPair, hnumber,
      Char.ofNat_toNat]
  low ps hstarts := by
    have hlt := Utf8.toNat_lt c
    obtain ⟨low, rest, heq, hlow⟩ := hstarts
    cases heq
    simp only [isLow, Bool.and_eq_true, decide_eq_true_eq] at hlow
    omega

theorem rejoins_half (n : Fin 0x800) : Rejoins (.half n) [.unit (Text.halfCode n)] where
  joins ps hnot := by
    rw [List.singleton_append, join_unit, pointOfUnit_halfCode]
    intro hhigh
    simp only [isHigh, Bool.and_eq_true, decide_eq_true_eq] at hhigh
    exact hnot (decide_eq_true hhigh.2)
  low ps h := by
    obtain ⟨low, rest, heq, hlow⟩ := h
    cases heq
    simp only [isLow, Bool.and_eq_true, decide_eq_true_eq] at hlow
    exact decide_eq_true hlow.1

/-- A printed point is read as pieces that join to it again. -/
theorem pieces_printed (opening : List Char) {p : Text.Point} {cs rest : List Char}
    (hprinted : PrintedAs p cs) (hrest : rest ≠ []) :
    ∃ made : List Piece, Rejoins p made ∧
      pieces opening (cs ++ rest) =
        (pieces opening rest).map (fun (ps, r) => (made ++ ps, r)) := by
  cases hprinted with
  | @letter c letter hletter hunit =>
      exact ⟨_, rejoins_char c, pieces_letter opening hletter hunit rest⟩
  | @plain c hquote hslash hlow _ =>
      exact ⟨_, rejoins_char c, pieces_plain opening hquote hslash hlow rest⟩
  | @unit c hunit => exact ⟨_, rejoins_unit c, pieces_unitEscape opening hunit hrest⟩
  | @pair c hpair =>
      have hlt := Utf8.toNat_lt c
      refine ⟨_, rejoins_pair hpair, ?_⟩
      rw [List.append_assoc, pieces_unitEscape opening (by omega) (by simp [unitEscape_eq]),
        pieces_unitEscape opening (by omega) hrest]
      cases pieces opening rest <;> rfl
  | half n =>
      have hcode : Text.halfCode n = 0xd800 + n := rfl
      exact ⟨_, rejoins_half n, pieces_unitEscape opening (by omega) hrest⟩

theorem pieces_text (opening : List Char) {ps : List Text.Point} (hjoined : Text.Joined ps)
    (rest : List Char) :
    ∃ made, pieces opening (ps.flatMap escapedPoint ++ '"' :: rest) = .ok (made, rest) ∧
      join made = ps ∧ (StartsLow made → ∃ p ∈ ps.head?, p.isLow = true) := by
  induction ps with
  | nil =>
      refine ⟨[], by rw [List.flatMap_nil, List.nil_append, pieces], rfl, ?_⟩
      rintro ⟨_, _, heq, -⟩
      cases heq
  | cons p ps ih =>
      obtain ⟨hnext, hjoined⟩ := List.isChain_cons.mp hjoined
      obtain ⟨more, hpieces, hjoin, hstarts⟩ := ih hjoined
      have hrest : ps.flatMap escapedPoint ++ '"' :: rest ≠ [] := by simp
      obtain ⟨made, hrejoins, hmade⟩ :=
        pieces_printed opening (printedAs_escapedPoint p) hrest
      -- What follows starts with a closing unit only if the next point is a closing half.
      have hopen : p.isHigh = true → ¬ StartsLow more := fun hhigh hlow => by
        obtain ⟨q, hq, hqlow⟩ := hstarts hlow
        exact hnext q hq ⟨hhigh, hqlow⟩
      refine ⟨made ++ more, ?_, by rw [hrejoins.joins more hopen, hjoin], fun hlow =>
        ⟨p, rfl, hrejoins.low more hlow⟩⟩
      rw [List.flatMap_cons, List.append_assoc, hmade, hpieces]
      rfl

theorem text_quotedText {storage : Text.Storage} {s : String} (h : storage.Holds s)
    (opening rest : List Char) :
    text storage opening ((storage.points s.toList).flatMap escapedPoint ++ '"' :: rest) =
      .ok (s.toList, rest) := by
  obtain ⟨ps, hstore, hjoined⟩ := h
  obtain ⟨made, hpieces, hjoin, -⟩ := pieces_text opening hjoined rest
  rw [Text.Storage.points_of_store? hstore, text, hpieces]
  simp only [bind, Except.bind, hjoin, hstore]

/-- A text that was read can have been read. -/
theorem holds_of_text {storage : Text.Storage} {opening rest after : List Char} {cs : List Char}
    (h : text storage opening rest = .ok (cs, after)) : storage.Holds (.ofList cs) := by
  rw [text] at h
  cases hpieces : pieces opening rest with
  | error fault =>
      rw [hpieces] at h
      cases h
  | ok found =>
      obtain ⟨ps, more⟩ := found
      rw [hpieces] at h
      simp only [bind, Except.bind] at h
      split at h
      · next hstore =>
          cases h
          exact ⟨join ps, by rw [String.toList_ofList]; exact hstore, joined_join ps⟩
      · cases h

/-! ## Integers -/

/-- What follows a number and is not taken for more of it. -/
def Ends (rest : List Char) : Prop :=
  ∀ c ∈ rest.head?, isDigit c = false ∧ c ≠ '.' ∧ c ≠ 'e' ∧ c ≠ 'E'

theorem ends_cons {c : Char} {rest : List Char}
    (h : isDigit c = false ∧ c ≠ '.' ∧ c ≠ 'e' ∧ c ≠ 'E') : Ends (c :: rest) := by
  intro d hd
  cases hd
  exact h

theorem fraction_of_ends {rest : List Char} (h : Ends rest) : fraction rest = ([], rest) := by
  unfold fraction
  split
  · next more => exact absurd rfl (h '.' rfl).2.1
  · rfl

theorem exponent_of_ends {rest : List Char} (h : Ends rest) : exponent rest = (none, rest) := by
  unfold exponent
  split
  · next c more =>
      obtain ⟨-, -, hsmall, hcapital⟩ := h c rfl
      rw [if_neg (not_or.mpr ⟨hsmall, hcapital⟩)]
  · rfl

theorem isDigit_eq (c : Char) : isDigit c = c.isDigit := by
  rw [isDigit, Char.isDigit]
  rfl

theorem isDigit_of_mem_ofNat {n : Nat} {c : Char} (h : c ∈ Numeral.ofNat n) :
    isDigit c = true := by
  rw [isDigit_eq]
  exact Nat.isDigit_of_mem_toDigits (by decide) (by decide) h

theorem ofDigits_ofNat (n : Nat) : ofDigits (Numeral.ofNat n) = n := by
  have h := Nat.ofDigitChars_ten_toDigits (n := n)
  rw [Nat.ofDigitChars_eq_foldl] at h
  exact h

theorem digitChar_ne_zero : ∀ n < 10, 0 < n → Nat.digitChar n ≠ '0' := by decide

/-- Only zero starts with the digit zero. -/
theorem head?_ofNat {n : Nat} (hn : 0 < n) : (Numeral.ofNat n).head? ≠ some '0' := by
  induction n using Nat.strongRecOn with
  | _ n ih =>
      rw [Numeral.ofNat]
      by_cases hsmall : n < 10
      · rw [Nat.toDigits_of_lt_base hsmall]
        intro h
        exact digitChar_ne_zero n hsmall hn (Option.some.inj h)
      · rw [Nat.toDigits_of_base_le (by decide) (by omega), List.head?_append,
          Option.or_of_isSome (List.isSome_head?.mpr Nat.toDigits_ne_nil)]
        exact ih (n / 10) (by omega) (by omega)

theorem span_ofNat (n : Nat) {rest : List Char} (h : Ends rest) :
    (Numeral.ofNat n ++ rest).span isDigit = (Numeral.ofNat n, rest) := by
  have hdigits : ∀ c ∈ Numeral.ofNat n, isDigit c = true := fun c hc => isDigit_of_mem_ofNat hc
  rw [List.span_eq_takeWhile_dropWhile, List.takeWhile_append_of_pos hdigits,
    List.dropWhile_append_of_pos hdigits]
  cases rest with
  | nil => rw [List.takeWhile_nil, List.append_nil, List.dropWhile_nil]
  | cons c rest =>
      have hc : ¬ isDigit c = true := by rw [(h c rfl).1]; exact Bool.false_ne_true
      rw [List.takeWhile_cons_of_neg hc, List.append_nil, List.dropWhile_cons_of_neg hc]

theorem whole?_ofNat (n : Nat) {rest : List Char} (h : Ends rest) :
    whole? (Numeral.ofNat n ++ rest) = some (Numeral.ofNat n, rest) := by
  rcases Nat.eq_zero_or_pos n with rfl | hn
  · rfl
  · have hspan := span_ofNat n h
    have hhead := head?_ofNat hn
    have hdigits : ∀ c ∈ Numeral.ofNat n, isDigit c = true := fun c hc => isDigit_of_mem_ofNat hc
    cases hds : Numeral.ofNat n with
    | nil => exact absurd hds Nat.toDigits_ne_nil
    | cons d ds =>
        rw [hds] at hspan hhead hdigits
        have hd : d ≠ '0' := fun heq => hhead (by rw [heq]; rfl)
        rw [List.cons_append] at hspan ⊢
        rw [whole?, if_neg hd, if_pos (hdigits d List.mem_cons_self), hspan]

theorem ofNat_eq_cons (n : Nat) :
    ∃ d ds, Numeral.ofNat n = d :: ds ∧ isDigit d = true := by
  cases h : Numeral.ofNat n with
  | nil => exact absurd h Nat.toDigits_ne_nil
  | cons d ds => exact ⟨d, ds, rfl, isDigit_of_mem_ofNat (h ▸ List.mem_cons_self)⟩

theorem number_ofNat {limit : Option Nat} {n : Nat} (hn : Numeral.Within limit n)
    {rest : List Char} (h : Ends rest) :
    number limit (Numeral.ofNat n ++ rest) = .ok (.int n, rest) := by
  have hlen : Numeral.exceeds limit (Numeral.ofNat n).length = false := hn
  unfold number
  split
  next negative body hsign =>
    split at hsign
    -- A digit is no minus sign.
    · next more heq =>
        obtain ⟨d, ds, hds, hd⟩ := ofNat_eq_cons n
        rw [hds] at heq
        cases heq
        cases hd
    · cases hsign
      simp only [whole?_ofNat n h, fraction_of_ends h, exponent_of_ends h, List.isEmpty_nil,
        Option.isNone_none, Bool.and_self, if_true, hlen, ofDigits_ofNat, Bool.false_eq_true,
        if_false]

theorem number_minus {limit : Option Nat} {n : Nat} (hn : Numeral.Within limit n)
    {rest : List Char} (h : Ends rest) :
    number limit ('-' :: (Numeral.ofNat n ++ rest)) = .ok (.int (-n), rest) := by
  have hlen : Numeral.exceeds limit (Numeral.ofNat n).length = false := hn
  simp only [number, whole?_ofNat n h, fraction_of_ends h, exponent_of_ends h, List.isEmpty_nil,
    Option.isNone_none, Bool.and_self, if_true, hlen, ofDigits_ofNat, Bool.false_eq_true, if_false]

/-! No word starts with a digit, and the one that starts with a minus sign has a
letter after it. -/

theorem ne_of_isDigit {c d : Char} (hd : isDigit d = true) (hc : isDigit c = false) : c ≠ d := by
  rintro rfl
  rw [hc] at hd
  cases hd

theorem word?_digit {d : Char} (hd : isDigit d = true) (rest : List Char) :
    word? (d :: rest) = none := by
  have hword : ∀ c ∈ ['n', 't', 'f', 'N', 'I', '-'], isDigit c = false := by simp [isDigit]
  have hletter : ∀ c ∈ ['n', 't', 'f', 'N', 'I', '-'], c ≠ d := by
    intro c hc
    exact ne_of_isDigit hd (hword c hc)
  simp_all [word?, words]

theorem word?_minus {d : Char} (hd : isDigit d = true) (rest : List Char) :
    word? ('-' :: d :: rest) = none := by
  have hletter : 'I' ≠ d := ne_of_isDigit hd rfl
  simp_all [word?, words]

theorem scalar_ofInt {limit : Option Nat} {n : Int} (hn : Numeral.Within limit n)
    {rest : List Char} (h : Ends rest) :
    scalar limit (Numeral.ofInt n ++ rest) = .ok (.int n, rest) := by
  cases n with
  | ofNat n =>
      obtain ⟨d, ds, hds, hd⟩ := ofNat_eq_cons n
      rw [scalar, Numeral.ofInt, hds, List.cons_append, word?_digit hd, ← List.cons_append, ← hds]
      exact number_ofNat hn h
  | negSucc n =>
      obtain ⟨d, ds, hds, hd⟩ := ofNat_eq_cons (n + 1)
      rw [scalar, Numeral.ofInt, hds, List.cons_append, List.cons_append, word?_minus hd,
        ← List.cons_append, ← hds]
      exact number_minus (n := n + 1) hn h

end Json

end FoldingProtocol
