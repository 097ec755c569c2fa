import FoldingProtocol.Commands
import Mathlib.Data.List.Sort
import Mathlib.Data.String.Basic

/-!
# Commands are listed once each

An order may name commands that do not exist and leave out others that do. Whatever
it names, every command is listed once: those that are named come first, in the order
in which they are named, and the others follow by the code points of their names. No
other list does that, so this says all there is to say about the order of a list.
-/

namespace FoldingProtocol

/-! ## Names by code point -/

/-- The code points of a name. -/
def codePoints (name : String) : List Nat := name.toList.map Char.toNat

theorem lt_iff_map_toNat {xs ys : List Char} :
    xs < ys ↔ xs.map Char.toNat < ys.map Char.toNat := by
  induction xs generalizing ys with
  | nil => cases ys <;> simp
  | cons x xs ih =>
      cases ys with
      | nil => simp
      | cons y ys =>
          have hlt : x < y ↔ x.toNat < y.toNat := Iff.rfl
          have heq : x = y ↔ x.toNat = y.toNat := Char.toNat_inj.symm
          rw [List.map_cons, List.map_cons, List.cons_lt_cons_iff, List.cons_lt_cons_iff, ih, hlt,
            heq]

theorem lt_iff_codePoints {a b : String} : a < b ↔ codePoints a < codePoints b :=
  String.lt_iff_toList_lt.trans lt_iff_map_toNat

/-! ## The sorted names -/

theorem nodup_eraseDups (names : List String) : names.eraseDups.Nodup := by
  induction hlength : names.length using Nat.strongRecOn generalizing names with
  | _ length ih =>
      cases names with
      | nil => exact List.nodup_nil
      | cons name names =>
          rw [List.eraseDups_cons, List.nodup_cons, List.mem_eraseDups]
          refine ⟨by simp, ih _ ?_ _ rfl⟩
          rw [← hlength, List.length_cons]
          exact Nat.lt_succ_of_le (List.length_filter_le _ _)

theorem mem_sortedNames {names : List String} {name : String} :
    name ∈ sortedNames names ↔ name ∈ names := by
  rw [sortedNames, (List.mergeSort_perm _ _).mem_iff, List.mem_eraseDups]

theorem sorted_sortedNames (names : List String) : (sortedNames names).Pairwise (· < ·) := by
  have hle : (sortedNames names).Pairwise (· ≤ ·) := by
    refine (List.pairwise_mergeSort (fun a b c hab hbc => ?_) (fun a b => ?_) _).imp
      of_decide_eq_true
    · exact decide_eq_true (le_trans (of_decide_eq_true hab) (of_decide_eq_true hbc))
    · simpa using le_total a b
  have hnodup : (sortedNames names).Nodup :=
    (List.mergeSort_perm _ _).nodup_iff.mpr (nodup_eraseDups names)
  exact hle.imp₂ (fun a b hle hne => lt_of_le_of_ne hle hne) hnodup

/-! ## The order of a list -/

/-- A list of commands in an order: each command once, those that the order names in
the order of their names there, and all others after them by code point. -/
structure Listing (order names listed : List String) : Prop where
  once : listed.Nodup
  all : ∀ name, name ∈ listed ↔ name ∈ names
  parts : ∃ named others, listed = named ++ others ∧ named.Sublist order ∧
    (∀ name ∈ others, name ∉ order) ∧ others.Pairwise (codePoints · < codePoints ·)

variable {order names listed : List String}

theorem listing_orderedNames (horder : order.Nodup) (names : List String) :
    Listing order names (orderedNames order names) where
  once := by
    have hsorted := sorted_sortedNames names
    refine List.nodup_append.mpr ⟨horder.filter _, (hsorted.imp ne_of_lt).filter _, ?_⟩
    intro a ha b hb heq
    have hnot := (List.mem_filter.mp hb).2
    rw [← heq] at hnot
    simp [(List.mem_filter.mp ha).1] at hnot
  all name := by
    rw [orderedNames, List.mem_append, List.mem_filter, List.mem_filter, List.contains_iff_mem,
      mem_sortedNames]
    by_cases hname : name ∈ order <;> simp [hname]
  parts := by
    refine ⟨_, _, rfl, List.filter_sublist, fun name hname => ?_, ?_⟩
    · simpa using (List.mem_filter.mp hname).2
    · exact ((sorted_sortedNames names).filter _).imp lt_iff_codePoints.mp

/-- A part of a list without repetitions is told by its members. -/
theorem eq_filter_of_sublist {named : List String} (h : named.Sublist order)
    (horder : order.Nodup) : named = order.filter named.contains := by
  induction h with
  | slnil => rfl
  | @cons named order name h ih =>
      obtain ⟨hname, horder⟩ := List.nodup_cons.mp horder
      have hnot : ¬ named.contains name = true := by
        rw [List.contains_iff_mem]
        exact fun hmem => hname (h.subset hmem)
      rw [List.filter_cons_of_neg hnot]
      exact ih horder
  | @cons_cons named order name h ih =>
      obtain ⟨hname, horder⟩ := List.nodup_cons.mp horder
      rw [List.filter_cons_of_pos (by simp)]
      refine congrArg (name :: ·) ((ih horder).trans (List.filter_congr fun n hn => ?_))
      have hne : n ≠ name := fun heq => hname (heq ▸ hn)
      simp [hne]

theorem Listing.unique (horder : order.Nodup) {other : List String}
    (h : Listing order names listed) (h' : Listing order names other) : listed = other := by
  obtain ⟨named, others, rfl, hnamed, hothers, hsorted⟩ := h.parts
  obtain ⟨named', others', rfl, hnamed', hothers', hsorted'⟩ := h'.parts
  have hsame (name : String) : name ∈ named ++ others ↔ name ∈ named' ++ others' :=
    (h.all name).trans (h'.all name).symm
  -- Whether a name is in the first part or in the second one is for the order to say.
  have hfirst (name : String) : name ∈ named ↔ name ∈ named' := by
    have hname := hsame name
    rw [List.mem_append, List.mem_append] at hname
    constructor
    · intro hmem
      exact (hname.mp (.inl hmem)).resolve_right fun hmem' => hothers' _ hmem' (hnamed.subset hmem)
    · intro hmem
      exact (hname.mpr (.inl hmem)).resolve_right fun hmem' => hothers _ hmem' (hnamed'.subset hmem)
  have hsecond (name : String) : name ∈ others ↔ name ∈ others' := by
    have hname := hsame name
    rw [List.mem_append, List.mem_append] at hname
    constructor
    · intro hmem
      exact (hname.mp (.inr hmem)).resolve_left fun hmem' => hothers _ hmem (hnamed'.subset hmem')
    · intro hmem
      exact (hname.mpr (.inr hmem)).resolve_left fun hmem' => hothers' _ hmem (hnamed.subset hmem')
  have hnamedEq : named = named' := by
    rw [eq_filter_of_sublist hnamed horder, eq_filter_of_sublist hnamed' horder]
    refine List.filter_congr fun name _ => Bool.eq_iff_iff.mpr ?_
    rw [List.contains_iff_mem, List.contains_iff_mem]
    exact hfirst name
  have hothersEq : others = others' :=
    (hsorted.imp lt_iff_codePoints.mpr).eq_of_mem_iff (hsorted'.imp lt_iff_codePoints.mpr) hsecond
  rw [hnamedEq, hothersEq]

/-- For an order that names nothing twice, the commands are listed once each, those
that are named first and in that order, and then all others by code point; and this
is the only such list. -/
theorem listing_iff_orderedNames (horder : order.Nodup) (names listed : List String) :
    Listing order names listed ↔ listed = orderedNames order names := by
  constructor
  · intro h
    exact h.unique horder (listing_orderedNames horder names)
  · rintro rfl
    exact listing_orderedNames horder names

/-- Names with one that is no command, and commands of which two are not named and one
is there twice. -/
theorem unknownNames_are_passed_over :
    ["ranges", "absent", "config"].Nodup ∧
      Listing ["ranges", "absent", "config"] ["é", "config", "Z", "ranges", "Z"]
        ["ranges", "config", "Z", "é"] ∧
      orderedNames ["ranges", "absent", "config"] ["é", "config", "Z", "ranges", "Z"] =
        ["ranges", "config", "Z", "é"] := by
  have horder : ["ranges", "absent", "config"].Nodup := by decide
  have hlisting : Listing ["ranges", "absent", "config"] ["é", "config", "Z", "ranges", "Z"]
      ["ranges", "config", "Z", "é"] :=
    ⟨by decide, by simp; tauto, ["ranges", "config"], ["Z", "é"], rfl, by decide, by decide,
      by decide⟩
  exact ⟨horder, hlisting, ((listing_iff_orderedNames horder _ _).mp hlisting).symm⟩

end FoldingProtocol
