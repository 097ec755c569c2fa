import FoldingProtocol.Value.Literal
import Mathlib.Algebra.Group.Nat.Defs

/-!
# Numbers that can be shown

An integer is shown digit by digit, and only if it has no more digits than a numeral may
have. That is a bound on the number itself, and a value can be shown if the bound holds of
every integer in it.
-/

namespace FoldingProtocol

namespace Numeral

/-- An integer with no more digits than a numeral may have. -/
def Short (n : Int) : Prop := n.natAbs < 10 ^ digitLimit

theorem length_ofNat {n : Nat} (h : Short n) : (ofNat n).length ≤ digitLimit :=
  (Nat.length_toDigits_le_iff (by decide) (by decide)).mpr h

/-- The integers that are shown are those that are short. -/
theorem isShowable_iff {n : Int} : isShowable n = true ↔ Short n := by
  rw [isShowable, decide_eq_true_eq]
  exact Nat.length_toDigits_le_iff (by decide) (by decide)

theorem not_isShowable_of_le {n : Int} (h : 10 ^ digitLimit ≤ n.natAbs) : isShowable n = false := by
  rw [Bool.eq_false_iff, ne_eq, isShowable_iff]
  exact Nat.not_lt.mpr h

end Numeral

namespace Value

theorem areShowable_iff {items : List Value} :
    areShowable items = true ↔ ∀ v ∈ items, v.isShowable = true := by
  induction items with
  | nil => exact iff_of_true rfl (List.forall_mem_nil _)
  | cons v items ih => rw [areShowable, Bool.and_eq_true, ih, List.forall_mem_cons]

theorem haveShowable_iff {members : Members} :
    haveShowable members = true ↔ ∀ m ∈ members, m.2.isShowable = true := by
  induction members with
  | nil => exact iff_of_true rfl (List.forall_mem_nil _)
  | cons m members ih => rw [haveShowable, Bool.and_eq_true, ih, List.forall_mem_cons]

/-- A number of too many digits. -/
def tooLong : Value := .ofNat (10 ^ Numeral.digitLimit)

theorem not_isShowable_tooLong : tooLong.isShowable = false :=
  Numeral.not_isShowable_of_le (Nat.le_refl _)

end Value

end FoldingProtocol
