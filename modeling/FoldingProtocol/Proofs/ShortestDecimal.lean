import FoldingProtocol.Number.Shortest
import FoldingProtocol.Proofs.JsonScalars
import Mathlib.Data.List.TakeWhile

/-!
# Shortest decimals read back

A double read from a decimal depends on the value of the decimal alone, not on how
it is split into a coefficient and a power of ten. The two bounds past which no power
is taken do not show, since past them the nearest double is infinity or zero anyway.
So zeros may move between coefficient and power, as they do when a decimal is laid
out, and the shortest decimal of a double reads back wherever its point is put.

A neighbour on a decimal grid is chosen because it reads back. The decimal that is
left if none does is exact, and a double is the nearest to its own magnitude.
-/

namespace FoldingProtocol.Binary64

/-! ## Ratios -/

theorem roundDiv_mul {k : Nat} (hk : 0 < k) (num den : Nat) :
    roundDiv (k * num) (k * den) = roundDiv num den := by
  have htwice : 2 * (k * num % (k * den)) = k * (2 * (num % den)) := by
    rw [Nat.mul_mod_mul_left, Nat.mul_left_comm]
  simp only [roundDiv, Nat.mul_div_mul_left num den hk, htwice, Nat.mul_lt_mul_left hk]

theorem nearestRank_mul {k : Nat} (hk : 0 < k) (num den : Nat) :
    nearestRank (k * num) (k * den) = nearestRank num den := by
  simp only [nearestRank, Nat.mul_div_mul_left num den hk, Nat.mul_assoc k, roundDiv_mul hk]

theorem ofRatio_mul {k : Nat} (hk : 0 < k) (negative : Bool) (num den : Nat) :
    ofRatio negative (k * num) (k * den) = ofRatio negative num den := by
  simp only [ofRatio, Nat.mul_assoc k, nearestRank_mul hk]

/-- Equal ratios are one double. -/
theorem ofRatio_congr {num den num' den' : Nat} (hden : 0 < den) (hden' : 0 < den')
    (h : num * den' = num' * den) (negative : Bool) :
    ofRatio negative num den = ofRatio negative num' den' := by
  calc ofRatio negative num den
      = ofRatio negative (den' * num) (den' * den) := (ofRatio_mul hden' _ _ _).symm
    _ = ofRatio negative (den * num') (den * den') := by
        rw [Nat.mul_comm den' num, h, Nat.mul_comm num' den, Nat.mul_comm den' den]
    _ = ofRatio negative num' den' := ofRatio_mul hden _ _ _

/-! ## The window of exponents -/

theorem unitsPerOne_eq : unitsPerOne = 2 ^ 1074 := by rw [unitsPerOne, Nat.pow_eq]

theorem ofRatio_of_large {num : Nat} (h : 10 ^ 310 ≤ num) (negative : Bool) :
    ofRatio negative num 1 = .infinity negative := by
  have hbits : 2 ^ (1025 + 1074) ≤ num * unitsPerOne := by
    rw [unitsPerOne_eq, Nat.pow_add]
    exact Nat.mul_le_mul_right _ (Nat.le_trans (by decide +kernel) h)
  have hlog : 1025 + 1074 ≤ (num * unitsPerOne / 1).log2 := by
    rw [Nat.div_one]
    exact (Nat.le_log2 (Nat.ne_of_gt (Nat.lt_of_lt_of_le (Nat.two_pow_pos _) hbits))).mpr hbits
  have hrank : infinityRank ≤ nearestRank (num * unitsPerOne) 1 := by
    have hruns : 2047 * runLength ≤ ((num * unitsPerOne / 1).log2 - 52) * runLength :=
      Nat.mul_le_mul_right _ (by omega)
    exact Nat.le_trans hruns (Nat.le_add_right _ _)
  rw [ofRatio, Nat.min_eq_left hrank]
  rfl

theorem ofRatio_of_small {num den : Nat} (h : 2 * (num * unitsPerOne) < den) (negative : Bool) :
    ofRatio negative num den = ⟨negative, 0⟩ := by
  have hlt : num * unitsPerOne < den := by omega
  have hrank : nearestRank (num * unitsPerOne) den = 0 := by
    have hden : den * Nat.pow 2 0 = den := Nat.mul_one den
    rw [nearestRank, Nat.div_eq_of_lt hlt]
    show 0 * runLength + roundDiv (num * unitsPerOne) (den * Nat.pow 2 0) = 0
    rw [hden, roundDiv, Nat.div_eq_of_lt hlt, Nat.mod_eq_of_lt hlt, if_pos h, Nat.zero_mul]
  rw [ofRatio, hrank, Nat.min_zero]

/-- A number is below a power of ten by its length in bits. -/
theorem lt_pow_ten_of_log2 (n : Nat) : n < 10 ^ ((n.log2 + 1) / 3 + 1) := by
  calc n < 2 ^ (n.log2 + 1) := Nat.lt_log2_self
    _ ≤ 2 ^ (3 * ((n.log2 + 1) / 3 + 1)) := Nat.pow_le_pow_right (by decide) (by omega)
    _ = 8 ^ ((n.log2 + 1) / 3 + 1) := Nat.pow_mul 2 3 _
    _ ≤ 10 ^ ((n.log2 + 1) / 3 + 1) := Nat.pow_le_pow_left (by decide) _

/-- The window of exponents does not show: a decimal is read as its ratio. -/
theorem ofDecimal_eq_ofRatio {coefficient : Nat} (hcoefficient : 0 < coefficient) (exponent : Int)
    (negative : Bool) :
    ofDecimal negative ⟨coefficient, exponent⟩ =
      ofRatio negative (coefficient * 10 ^ exponent.toNat) (10 ^ (-exponent).toNat) := by
  unfold ofDecimal
  dsimp only
  rw [if_neg (Nat.ne_of_gt hcoefficient)]
  split
  · next hlarge =>
      have hpower : 10 ^ 310 ≤ 10 ^ exponent.toNat :=
        Nat.pow_le_pow_right (by decide) (by omega)
      have hzero : (-exponent).toNat = 0 := by omega
      rw [hzero, Nat.pow_zero]
      exact (ofRatio_of_large (Nat.le_trans hpower (Nat.le_mul_of_pos_left _ hcoefficient)) _).symm
  split
  · next hsmall =>
      have hzero : exponent.toNat = 0 := by omega
      rw [hzero, Nat.pow_zero, Nat.mul_one]
      refine (ofRatio_of_small ?_ negative).symm
      have hunits : 2 * unitsPerOne < 10 ^ 330 := by rw [unitsPerOne_eq]; decide +kernel
      calc 2 * (coefficient * unitsPerOne)
          = coefficient * (2 * unitsPerOne) := Nat.mul_left_comm _ _ _
        _ < 10 ^ ((coefficient.log2 + 1) / 3 + 1) * 10 ^ 330 :=
            Nat.mul_lt_mul'' (lt_pow_ten_of_log2 coefficient) hunits
        _ ≤ 10 ^ (-exponent).toNat := by
            rw [← Nat.pow_add]
            exact Nat.pow_le_pow_right (by decide) (by omega)
  split
  · next hwhole =>
      have hzero : (-exponent).toNat = 0 := by omega
      rw [hzero, Nat.pow_zero, Nat.pow_eq]
  · next hpart =>
      have hzero : exponent.toNat = 0 := by omega
      rw [hzero, Nat.pow_zero, Nat.mul_one, Nat.pow_eq]

/-- Zeros move between the coefficient and the power of ten. -/
theorem ofDecimal_zeros (negative : Bool) (coefficient zeros : Nat) (exponent : Int) :
    ofDecimal negative ⟨coefficient * 10 ^ zeros, exponent⟩ =
      ofDecimal negative ⟨coefficient, zeros + exponent⟩ := by
  rcases Nat.eq_zero_or_pos coefficient with rfl | hcoefficient
  · rw [Nat.zero_mul, ofDecimal, ofDecimal, if_pos rfl, if_pos rfl]
  · have hpos : 0 < coefficient * 10 ^ zeros := Nat.mul_pos hcoefficient (Nat.pow_pos (by decide))
    have hpowers : zeros + exponent.toNat + (-(zeros + exponent)).toNat =
        (zeros + exponent).toNat + (-exponent).toNat := by omega
    rw [ofDecimal_eq_ofRatio hpos, ofDecimal_eq_ofRatio hcoefficient]
    refine ofRatio_congr (Nat.pow_pos (by decide)) (Nat.pow_pos (by decide)) ?_ negative
    rw [Nat.mul_assoc, Nat.mul_assoc, Nat.mul_assoc, ← Nat.pow_add, ← Nat.pow_add, ← Nat.pow_add,
      ← Nat.add_assoc, hpowers]

/-! ## The shortest decimal -/

theorem runLength_eq : runLength = 2 ^ 52 := rfl

theorem roundDiv_one (n : Nat) : roundDiv n 1 = n := by
  rw [roundDiv, Nat.mod_one, Nat.div_one]
  rfl

/-- A whole number of units of 53 digits of base two, or of fewer, is not rounded. -/
theorem nearestRank_of_log2 {n p : Nat} (h : n.log2 = 52 + p) (k : Nat) (hk : n = 2 ^ p * k) :
    nearestRank n 1 = p * runLength + k := by
  have hp : (n / 1).log2 - 52 = p := by rw [Nat.div_one]; omega
  rw [nearestRank, hp]
  show p * runLength + roundDiv n (1 * 2 ^ p) = _
  rw [hk, Nat.mul_comm 1, roundDiv_mul (Nat.two_pow_pos p), roundDiv_one]

/-- A double is the nearest to its own magnitude. -/
theorem nearestRank_scaled (x : Binary64) : nearestRank x.scaled 1 = x.rank := by
  unfold scaled
  split
  · next hsmall =>
      have hlog : (x.rank / 1).log2 - 52 = 0 := by
        rw [Nat.div_one]
        rcases Nat.eq_zero_or_pos x.rank with hzero | hpos
        · rw [hzero]; rfl
        · have hlt := (Nat.log2_lt (Nat.ne_of_gt hpos)).mpr (runLength_eq ▸ hsmall)
          omega
      rw [nearestRank, hlog]
      show 0 * runLength + roundDiv x.rank (1 * 1) = x.rank
      rw [Nat.mul_one, roundDiv_one, Nat.zero_mul, Nat.zero_add]
  · next hlarge =>
      have hpos : 0 < runLength := Nat.two_pow_pos 52
      have hrun : 0 < x.rank / runLength := Nat.div_pos (Nat.not_lt.mp hlarge) hpos
      have hmod : x.rank % runLength < runLength := Nat.mod_lt _ hpos
      have hsplit : runLength * (x.rank / runLength) + x.rank % runLength = x.rank :=
        Nat.div_add_mod _ _
      generalize x.rank % runLength = r at *
      obtain ⟨p, hp⟩ := Nat.exists_eq_add_one_of_ne_zero (Nat.ne_of_gt hrun)
      rw [hp] at hsplit ⊢
      show nearestRank ((runLength + r) * 2 ^ p) 1 = x.rank
      have hlow : 2 ^ (52 + p) ≤ (runLength + r) * 2 ^ p := by
        rw [Nat.pow_add, ← runLength_eq]
        exact Nat.mul_le_mul_right _ (Nat.le_add_right _ _)
      have hhigh : (runLength + r) * 2 ^ p < 2 ^ (52 + p + 1) := by
        rw [Nat.pow_succ, Nat.pow_add, ← runLength_eq, Nat.mul_right_comm]
        exact Nat.mul_lt_mul_of_pos_right (by omega) (Nat.two_pow_pos p)
      have hlog : ((runLength + r) * 2 ^ p).log2 = 52 + p :=
        (Nat.log2_eq_iff (by have := Nat.two_pow_pos (52 + p); omega)).mpr ⟨hlow, hhigh⟩
      rw [nearestRank_of_log2 hlog (runLength + r) (Nat.mul_comm _ _), ← hsplit, Nat.mul_add,
        Nat.mul_one, Nat.mul_comm p, Nat.add_assoc]

theorem scaled_pos {x : Binary64} (hzero : x.rank ≠ 0) : 0 < x.scaled := by
  refine Nat.pos_of_ne_zero fun h => hzero ?_
  rw [← nearestRank_scaled, h]
  rfl

theorem ofDecimal_wholeDecimal {x : Binary64} (h : x.rank < infinityRank) (hzero : x.rank ≠ 0) :
    ofDecimal x.negative ⟨x.wholeDecimal, -1074⟩ = x := by
  have hpos : 0 < x.scaled * 5 ^ 1074 := Nat.mul_pos (scaled_pos hzero) (Nat.pow_pos (by decide))
  have hunits : 0 < unitsPerOne := by rw [unitsPerOne_eq]; exact Nat.two_pow_pos _
  have hvalue (n : Nat) : x.scaled * 5 ^ n * 2 ^ n = x.scaled * 10 ^ n := by
    rw [Nat.mul_assoc, ← Nat.mul_pow]
  have hrank : nearestRank (x.scaled * unitsPerOne) unitsPerOne = x.rank := by
    have hscaled := nearestRank_mul hunits x.scaled 1
    rw [Nat.mul_one, Nat.mul_comm unitsPerOne] at hscaled
    rw [hscaled, nearestRank_scaled]
  calc ofDecimal x.negative ⟨x.wholeDecimal, -1074⟩
      = ofRatio x.negative (x.scaled * 5 ^ 1074) (10 ^ 1074) := by
        have hwhole : (-1074 : Int).toNat = 0 := by decide
        have hpart : (- -1074 : Int).toNat = 1074 := by decide
        rw [wholeDecimal, Nat.pow_eq, ofDecimal_eq_ofRatio hpos, hwhole, hpart, Nat.pow_zero,
          Nat.mul_one]
    _ = ofRatio x.negative x.scaled unitsPerOne :=
        ofRatio_congr (Nat.pow_pos (by decide)) hunits
          (by rw [unitsPerOne_eq]; exact hvalue _) _
    _ = x := by
        rw [ofRatio, hrank, Nat.min_eq_right (Nat.le_of_lt h)]

theorem ofDecimal_neighbour? {x : Binary64} {count : Nat} {d : Decimal}
    (h : x.neighbour? count = some d) : ofDecimal x.negative d = x := by
  unfold neighbour? at h
  dsimp only at h
  split at h
  · next hhigh =>
      cases h
      rw [Bool.and_eq_true, decide_eq_true_eq] at hhigh
      exact hhigh.1
  · split at h
    · next hlow =>
        cases h
        exact hlow
    · cases h

theorem ofDecimal_shortest {x : Binary64} (h : x.rank < infinityRank) (hzero : x.rank ≠ 0) :
    ofDecimal x.negative x.shortest = x := by
  unfold shortest
  cases hfound : (List.range 17).findSome? fun n => x.neighbour? (n + 1) with
  | none => exact ofDecimal_wholeDecimal h hzero
  | some d =>
      obtain ⟨n, -, hn⟩ := List.exists_of_findSome?_eq_some hfound
      exact ofDecimal_neighbour? hn

/-! ## Digits that are laid out -/

theorem eq_append_zeros (ds : List Char) :
    ∃ zeros, ds = (ds.reverse.dropWhile (· == '0')).reverse ++ List.replicate zeros '0' := by
  have hzeros : ds.reverse.takeWhile (· == '0') =
      List.replicate (ds.reverse.takeWhile (· == '0')).length '0' :=
    List.eq_replicate_of_mem fun c hc => by simpa using List.mem_takeWhile_imp hc
  refine ⟨(ds.reverse.takeWhile (· == '0')).length, ?_⟩
  have hsplit := congrArg List.reverse (List.takeWhile_append_dropWhile (p := (· == '0'))
    (l := ds.reverse))
  rw [List.reverse_append, List.reverse_reverse] at hsplit
  rw [← List.reverse_replicate, ← hzeros]
  exact hsplit.symm

theorem ofDigits_append_zeros (ds : List Char) (zeros : Nat) :
    Json.ofDigits (ds ++ List.replicate zeros '0') = Json.ofDigits ds * 10 ^ zeros := by
  induction zeros with
  | zero => rw [List.replicate_zero, List.append_nil, Nat.pow_zero, Nat.mul_one]
  | succ zeros ih =>
      rw [List.replicate_succ', ← List.append_assoc, Json.ofDigits, List.foldl_append]
      show 10 * Json.ofDigits (ds ++ List.replicate zeros '0') + 0 = _
      rw [ih, Nat.pow_succ, Nat.add_zero, Nat.mul_comm 10, Nat.mul_assoc]

/-- A decimal is laid out by its digits without the zeros at their end, the first of
which is no zero, and by the place of its point. -/
inductive LaidOut (d : Decimal) : Prop where
  | intro {c : Char} {cs : List Char} {zeros : Nat} (hfirst : c ≠ '0')
      (hdigits : ∀ x ∈ c :: cs, Json.isDigit x = true)
      (hvalue : d.coefficient = Json.ofDigits (c :: cs) * 10 ^ zeros)
      (hlayout : ∀ point : Int, point = (c :: cs).length + zeros + d.exponent →
        layout d = if -4 < point ∧ point ≤ 16 then positional (c :: cs) point
          else scientific (c :: cs) (point - 1))

theorem laidOut {d : Decimal} (h : 0 < d.coefficient) : LaidOut d := by
  have hvalue : Json.ofDigits (Nat.toDigits 10 d.coefficient) = d.coefficient :=
    Json.ofDigits_ofNat _
  have hhead : (Nat.toDigits 10 d.coefficient).head? ≠ some '0' := Json.head?_ofNat h
  have hdigits : ∀ c ∈ Nat.toDigits 10 d.coefficient, Json.isDigit c = true :=
    fun c hc => Json.isDigit_of_mem_ofNat hc
  obtain ⟨zeros, hall⟩ := eq_append_zeros (Nat.toDigits 10 d.coefficient)
  have hlayout (point : Int)
      (hpoint : point = (Nat.toDigits 10 d.coefficient).length + d.exponent) : layout d =
        if -4 < point ∧ point ≤ 16 then
          positional ((Nat.toDigits 10 d.coefficient).reverse.dropWhile (· == '0')).reverse point
        else scientific ((Nat.toDigits 10 d.coefficient).reverse.dropWhile
          (· == '0')).reverse (point - 1) := by
    rw [hpoint]
    rfl
  generalize ((Nat.toDigits 10 d.coefficient).reverse.dropWhile (· == '0')).reverse = ds at *
  rw [hall] at hvalue hhead hdigits
  rw [ofDigits_append_zeros] at hvalue
  cases ds with
  | nil =>
      rw [← hvalue] at h
      exact absurd h (by simp [Json.ofDigits])
  | cons c cs =>
      refine @LaidOut.intro d c cs zeros ?_ ?_ hvalue.symm fun point hpoint => ?_
      · rintro rfl
        exact hhead rfl
      · exact fun x hx => hdigits x (List.mem_append_left _ hx)
      · refine hlayout point ?_
        rw [hpoint, hall, List.length_append, List.length_replicate, Int.natCast_add]

/-! ## Characters of a double -/

/-- A character that doubles are written with. -/
def IsNumeric (c : Char) : Prop := Json.isDigit c = true ∨ c ∈ ['.', 'e', '+', '-']

theorem isNumeric_of_mem_toDigits {n : Nat} {c : Char} (h : c ∈ Nat.toDigits 10 n) : IsNumeric c :=
  .inl (Json.isDigit_of_mem_ofNat h)

theorem isNumeric_of_mem_zeros {n : Nat} {c : Char} (h : c ∈ List.replicate n '0') :
    IsNumeric c := by
  rw [List.eq_of_mem_replicate h]
  exact .inl rfl

theorem forall_mem_positional {digits : List Char} (h : ∀ c ∈ digits, IsNumeric c) (point : Int) :
    ∀ c ∈ positional digits point, IsNumeric c := by
  have hzero : ∀ c ∈ ['0', '.'], IsNumeric c := by simp [IsNumeric, Json.isDigit]
  unfold positional
  split
  · simp only [List.forall_mem_append]
    exact ⟨⟨hzero, fun c => isNumeric_of_mem_zeros⟩, h⟩
  · split
    · simp only [List.forall_mem_append]
      refine ⟨⟨h, fun c => isNumeric_of_mem_zeros⟩, fun c hc => hzero c ?_⟩
      exact List.mem_reverse.mp hc
    · rw [List.forall_mem_append, List.forall_mem_cons]
      exact ⟨fun c hc => h c (List.mem_of_mem_take hc), .inr (by decide),
        fun c hc => h c (List.mem_of_mem_drop hc)⟩

theorem forall_mem_scientific {digits : List Char} (h : ∀ c ∈ digits, IsNumeric c) (power : Int) :
    ∀ c ∈ scientific digits power, IsNumeric c := by
  have hplaces : ∀ c ∈ (if digits.length ≤ 1 then [] else '.' :: digits.drop 1), IsNumeric c := by
    split
    · nofun
    · exact List.forall_mem_cons.mpr ⟨.inr (by decide), fun c hc => h c (List.mem_of_mem_drop hc)⟩
  have hmark : ∀ c ∈ ['e', if power < 0 then '-' else '+'], IsNumeric c := by
    split <;> simp [IsNumeric]
  unfold scientific
  simp only [List.forall_mem_append]
  exact ⟨⟨⟨⟨fun c hc => h c (List.mem_of_mem_take hc), hplaces⟩, hmark⟩,
    fun c => isNumeric_of_mem_zeros⟩, fun c => isNumeric_of_mem_toDigits⟩

theorem forall_mem_layout (d : Decimal) : ∀ c ∈ layout d, IsNumeric c := by
  have hdigits : ∀ c ∈ ((Nat.toDigits 10 d.coefficient).reverse.dropWhile (· == '0')).reverse,
      IsNumeric c := by
    intro c hc
    have hmem := (List.dropWhile_suffix _).subset (List.mem_reverse.mp hc)
    exact isNumeric_of_mem_toDigits (List.mem_reverse.mp hmem)
  unfold layout
  dsimp only
  split
  · exact forall_mem_positional hdigits _
  · exact forall_mem_scientific hdigits _

/-- Doubles are written with digits and four marks, apart from two words. -/
theorem forall_mem_render {P : Char → Prop} (hP : ∀ c, IsNumeric c → P c) {spelling : Spelling}
    (hnan : ∀ c ∈ spelling.nan.toList, P c) (hinfinity : ∀ c ∈ spelling.infinity.toList, P c)
    (x : Binary64) : ∀ c ∈ x.render spelling, P c := by
  unfold render
  split
  · exact hnan
  · rw [List.forall_mem_append]
    constructor
    · split
      · exact List.forall_mem_singleton.mpr (hP _ (.inr (by decide)))
      · nofun
    · split
      · exact hinfinity
      · split
        · exact fun c hc => hP c (by revert c; simp [IsNumeric, Json.isDigit])
        · exact fun c hc => hP c (forall_mem_layout _ c hc)

end FoldingProtocol.Binary64
