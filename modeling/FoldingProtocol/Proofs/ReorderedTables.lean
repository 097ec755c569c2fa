import FoldingProtocol.Proofs.TomlValues
import Mathlib.Data.List.Forall2

/-!
# Tables with their members in another order

Two values are reorderings of each other if they differ in nothing but the order of
the members of their tables, however deep those stand. Numbers keep their kinds and
items their places. For tables that bind their keys once, and without the double
that is not equal to itself, reordered values are the same as values are compared.
-/

namespace FoldingProtocol

namespace Value

/-- The same value but for the order of the members of its tables. -/
inductive Reordered : Value → Value → Prop where
  | leaf {v : Value} (harr : ∀ items, v ≠ .arr items) (hobj : ∀ ms, v ≠ .obj ms) : Reordered v v
  | arr {xs ys : List Value} (hlength : xs.length = ys.length)
      (hitems : ∀ m ∈ xs.zip ys, Reordered m.1 m.2) : Reordered (.arr xs) (.arr ys)
  | obj {ms ns : Members} (hbound : ∀ key, (ms.get? key).isSome = (ns.get? key).isSome)
      (hmembers : ∀ key v w, ms.get? key = some v → ns.get? key = some w → Reordered v w) :
      Reordered (.obj ms) (.obj ns)

theorem Reordered.of_forall₂ {xs ys : List Value} (h : List.Forall₂ Reordered xs ys) :
    Reordered (.arr xs) (.arr ys) := by
  obtain ⟨hlength, hitems⟩ := List.forall₂_iff_zip.mp h
  exact .arr hlength fun m hm => hitems hm

theorem Reordered.refl {v : Value} (h : Toml.Writable v) : Reordered v v := by
  induction h with
  | bool | int | float | str | moment => exact .leaf nofun nofun
  | arr _ ih => exact .of_forall₂ (List.forall₂_same.mpr ih)
  | obj _ _ ih =>
      refine .obj (fun _ => rfl) fun key v w hv hw => ?_
      cases hv.symm.trans hw
      exact ih _ (Members.mem_of_get? hv)

/-- Members by the same keys in the same order, with reordered values. -/
def SameKeys (m n : String × Value) : Prop := m.1 = n.1 ∧ Reordered m.2 n.2

theorem get?_of_sameKeys {ms ns : Members} (h : List.Forall₂ SameKeys ms ns) (key : String) :
    (ms.get? key).isSome = (ns.get? key).isSome ∧
      ∀ v w, ms.get? key = some v → ns.get? key = some w → Reordered v w := by
  induction h with
  | nil => exact ⟨rfl, nofun⟩
  | @cons m n ms ns hm _ ih =>
      obtain ⟨k, v⟩ := m
      obtain ⟨k', w⟩ := n
      obtain ⟨rfl, hvalues⟩ := hm
      rw [Members.get?_cons, Members.get?_cons]
      split
      · refine ⟨rfl, fun x y hx hy => ?_⟩
        cases hx
        cases hy
        exact hvalues
      · exact ih

/-- Members may be taken in another order first. -/
theorem Reordered.of_perm {ms more ns : Members} (hkeys : ms.Distinct) (hperm : more.Perm ms)
    (h : List.Forall₂ SameKeys more ns) : Reordered (.obj ms) (.obj ns) := by
  have hsame := get?_of_sameKeys h
  refine .obj (fun key => ?_) fun key v w hv hw => ?_
  · rw [← Members.get?_perm hkeys hperm, (hsame key).1]
  · rw [← Members.get?_perm hkeys hperm] at hv
    exact (hsame key).2 v w hv hw

/-! ## Sameness -/

/-- A value without the double that is not equal to itself. -/
inductive NanFree : Value → Prop where
  | leaf {v : Value} (harr : ∀ items, v ≠ .arr items) (hobj : ∀ ms, v ≠ .obj ms)
      (h : ∀ x, v = .float x → x.isNaN = false) : NanFree v
  | arr {items : List Value} (hitems : ∀ v ∈ items, NanFree v) : NanFree (.arr items)
  | obj {ms : Members} (hmembers : ∀ m ∈ ms, NanFree m.2) : NanFree (.obj ms)

theorem same_leaf {v : Value} (harr : ∀ items, v ≠ .arr items) (hobj : ∀ ms, v ≠ .obj ms)
    (h : ∀ x, v = .float x → x.isNaN = false) : same v v = true := by
  cases v with
  | float x => simp [same, sameScalar, Binary64.same, h x rfl]
  | arr items => exact absurd rfl (harr items)
  | obj ms => exact absurd rfl (hobj ms)
  | null | bool | int | str | moment => simp [same, sameScalar]

theorem sameItems_of_zip {xs ys : List Value} (hlength : xs.length = ys.length)
    (h : ∀ m ∈ xs.zip ys, same m.1 m.2 = true) : sameItems xs ys = true := by
  induction xs generalizing ys with
  | nil =>
      cases ys with
      | nil => rw [sameItems]
      | cons y ys => cases hlength
  | cons x xs ih =>
      cases ys with
      | nil => cases hlength
      | cons y ys =>
          rw [List.zip_cons_cons, List.forall_mem_cons] at h
          rw [sameItems, h.1, ih (Nat.succ.inj hlength) h.2]
          rfl

theorem sameMembers_of_mem {ms ns : Members}
    (h : ∀ m ∈ ms, ∃ w, ns.get? m.1 = some w ∧ same m.2 w = true) : sameMembers ms ns = true := by
  induction ms with
  | nil => rw [sameMembers]
  | cons m ms ih =>
      rw [List.forall_mem_cons] at h
      obtain ⟨w, hw, hsame⟩ := h.1
      rw [sameMembers, hw, ih h.2]
      simp only [hsame, Bool.and_self]

theorem length_eq_of_bound {ms ns : Members} (hms : ms.Distinct) (hns : ns.Distinct)
    (h : ∀ key, (ms.get? key).isSome = (ns.get? key).isSome) : ms.length = ns.length := by
  have hperm : (ms.map Prod.fst).Perm (ns.map Prod.fst) := by
    rw [List.perm_ext_iff_of_nodup hms hns]
    intro key
    rw [Members.mem_keys_iff, Members.mem_keys_iff, h key]
  simpa using hperm.length_eq

theorem Reordered.same {v w : Value} (h : Reordered v w) (hv : Toml.Sound v) (hw : Toml.Sound w)
    (hnan : NanFree v) : same v w = true := by
  induction h with
  | leaf harr hobj =>
      cases hnan with
      | leaf _ _ h => exact same_leaf harr hobj h
      | arr => exact absurd rfl (harr _)
      | obj => exact absurd rfl (hobj _)
  | arr hlength _ ih =>
      cases hnan with
      | leaf harr => exact absurd rfl (harr _)
      | arr hnan =>
          cases hv with
          | arr hv =>
              cases hw with
              | arr hw =>
                  rw [Value.same]
                  refine sameItems_of_zip hlength fun m hm => ?_
                  obtain ⟨hleft, hright⟩ := List.of_mem_zip hm
                  exact ih m hm (hv _ hleft) (hw _ hright) (hnan _ hleft)
  | @obj ms ns hbound _ ih =>
      cases hnan with
      | leaf _ hobj => exact absurd rfl (hobj _)
      | obj hnan =>
          rw [Value.same, length_eq_of_bound hv.distinct hw.distinct hbound, beq_self_eq_true,
            Bool.true_and]
          refine sameMembers_of_mem fun m hm => ?_
          have hm' := (Members.get?_eq_some hv.distinct).mpr hm
          obtain ⟨w, hw'⟩ := Option.isSome_iff_exists.mp ((hbound m.1).symm.trans (by rw [hm']; rfl))
          exact ⟨w, hw', ih _ _ _ hm' hw' (Toml.sound_of_get? hv hm') (Toml.sound_of_get? hw hw')
            (hnan m hm)⟩

end Value

end FoldingProtocol
