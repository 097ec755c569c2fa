/-!
# Likeness of words

How alike two words are is told by the runs of characters that they share. The
longest shared run is set apart first. What stands before it in both words is
then compared in the same way, and so is what stands after it. The likeness of
two words is the share that these runs have in all their characters.

Of runs that are equally long, the one that starts first in the first word
counts, and then the one that starts first in the second. This choice matters:
it decides what is left to compare, so the likeness may differ when the words
change places.
-/

namespace FoldingProtocol.Text

/-- How many characters two words have in common at their start. -/
def commonStart : List Char → List Char → Nat
  | a :: as, b :: bs => if a = b then commonStart as bs + 1 else 0
  | _, _ => 0

/-- A run of characters that two words share: where it starts in each of them,
and how long it is. -/
structure SharedRun where
  first : Nat
  second : Nat
  length : Nat
deriving DecidableEq, Repr

/-- The longer of two runs, the first one if they are equally long. -/
def SharedRun.longer (r s : SharedRun) : SharedRun :=
  if r.length < s.length then s else r

/-- The longest run among the best so far and those that start at place `i` of
the first word, where `as` stands. -/
def longestRunAt (as : List Char) (i : Nat) : List Char → Nat → SharedRun → SharedRun
  | [], _, best => best
  | b :: bs, j, best =>
    longestRunAt as i bs (j + 1) (best.longer ⟨i, j, commonStart as (b :: bs)⟩)

/-- The longest run among the best so far and those that start at place `i` of
the first word or after it. -/
def longestRunFrom (bs : List Char) : List Char → Nat → SharedRun → SharedRun
  | [], _, best => best
  | a :: as, i, best => longestRunFrom bs as (i + 1) (longestRunAt (a :: as) i bs 0 best)

/-- The longest run that two words share. -/
def longestRun (as bs : List Char) : SharedRun := longestRunFrom bs as 0 ⟨0, 0, 0⟩

theorem commonStart_le (as bs : List Char) : commonStart as bs ≤ as.length := by
  fun_induction commonStart as bs with
  | case1 => simp only [List.length_cons]; omega
  | case2 => exact Nat.zero_le _
  | case3 => exact Nat.zero_le _

theorem longestRunAt_inside {as bs : List Char} {i j n : Nat} {best : SharedRun}
    (hbest : best.first + best.length ≤ n) (has : i + as.length ≤ n) :
    (longestRunAt as i bs j best).first + (longestRunAt as i bs j best).length ≤ n := by
  induction bs generalizing j best with
  | nil => exact hbest
  | cons b bs ih =>
    refine ih ?_
    have := commonStart_le as (b :: bs)
    unfold SharedRun.longer
    split
    · simp only; omega
    · exact hbest

theorem longestRunFrom_inside {as bs : List Char} {i n : Nat} {best : SharedRun}
    (hbest : best.first + best.length ≤ n) (has : i + as.length ≤ n) :
    (longestRunFrom bs as i best).first + (longestRunFrom bs as i best).length ≤ n := by
  induction as generalizing i best with
  | nil => exact hbest
  | cons a as ih =>
    refine ih (longestRunAt_inside hbest has) ?_
    simp only [List.length_cons] at has
    omega

/-- The longest run ends inside the first word. -/
theorem longestRun_inside (as bs : List Char) :
    (longestRun as bs).first + (longestRun as bs).length ≤ as.length :=
  longestRunFrom_inside (Nat.zero_le _) (Nat.le_of_eq (Nat.zero_add _))

/-- How many characters two words share: those of the longest run, those before
it, and those after it. -/
def sharedCount (as bs : List Char) : Nat :=
  if _h : (longestRun as bs).length = 0 then 0
  else
    let run := longestRun as bs
    sharedCount (as.take run.first) (bs.take run.second) + run.length +
      sharedCount (as.drop (run.first + run.length)) (bs.drop (run.second + run.length))
termination_by as.length
decreasing_by
  all_goals
    have := longestRun_inside as bs
    simp only [List.length_take, List.length_drop]
    omega

/-! ## Names that come near -/

/-- Whether a name is like a word: shared characters, counted in both, make up
three fifths or more of all characters. -/
def isNear (word name : List Char) : Bool :=
  3 * (name.length + word.length) ≤ 10 * sharedCount name word

/-- Whether the first name goes before the second: it is more like the word, or
as much like it and not the smaller of the two. -/
def isNearer (word : List Char) (x y : String) : Bool :=
  let forX := sharedCount x.toList word * (y.toList.length + word.length)
  let forY := sharedCount y.toList word * (x.toList.length + word.length)
  forY < forX || (forY == forX && decide (y ≤ x))

/-- The names that come near a word, in order; of many, the three nearest. -/
def nearNames (word : String) (names : List String) : List String :=
  let near := names.filter fun name => isNear word.toList name.toList
  let nearest := (near.mergeSort (isNearer word.toList)).take 3
  nearest.mergeSort fun a b => decide (a ≤ b)

end FoldingProtocol.Text
