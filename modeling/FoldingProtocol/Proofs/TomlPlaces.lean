import FoldingProtocol.Proofs.JsonRoundTrip
import FoldingProtocol.Proofs.DocumentValues

/-!
# Places in a document under construction

Every statement of a document changes the table at one path, from the root down and
through the last tables of arrays. Told from the root this is a recursion for each
statement. Told from the place it is simple: around a place stands a document, a
function of the table that is put there, and a statement is a change of that table.
`Around` says so, for a place that is there and for one that is still to be made,
and its laws lead from a place to the places inside it.

What may still happen at a place is told by the marks. A fresh path is neither
declared nor fixed, nor is anything below it, and what is read at one place leaves
the paths that start with another key fresh.
-/

namespace FoldingProtocol

@[simp] theorem Members.put_put (key : String) (v w : Value) (ms : Members) :
    (ms.put key v).put key w = ms.put key w := by
  induction ms with
  | nil => simp [put]
  | cons m ms ih =>
      obtain ⟨k, x⟩ := m
      by_cases hk : k = key
      · simp [put, hk]
      · simp [put, hk, ih]

namespace Toml

/-! ## Changes one after the other -/

section

variable {act : Members → Except Conflict Members} {key : String} {path : Path} {ms table : Members}

theorem change_none (h : ms.get? key = none) :
    change true act (key :: path) ms =
      (change true act path []).map fun u => ms.put key (.obj u) := by
  rw [change, h]
  rfl

theorem change_obj (h : ms.get? key = some (.obj table)) :
    change true act (key :: path) ms =
      (change true act path table).map fun u => ms.put key (.obj u) := by
  rw [change, h]
  rfl

theorem change_arr {items : List Value} (h : ms.get? key = some (.arr (items ++ [.obj table]))) :
    change true act (key :: path) ms =
      (change true act path table).map fun u => ms.put key (.arr (items ++ [.obj u])) := by
  rw [change, h]
  simp only [List.getLast?_concat, List.dropLast_concat]
  rfl

/-- The ways in which a change below a key can come out well. -/
inductive StepsInto (act : Members → Except Conflict Members) (key : String) (path : Path)
    (ms : Members) : Members → Prop where
  | made {u : Members} (h : ms.get? key = none) (hu : change true act path [] = .ok u) :
      StepsInto act key path ms (ms.put key (.obj u))
  | table {table u : Members} (h : ms.get? key = some (.obj table))
      (hu : change true act path table = .ok u) : StepsInto act key path ms (ms.put key (.obj u))
  | last {items : List Value} {table u : Members}
      (h : ms.get? key = some (.arr (items ++ [.obj table])))
      (hu : change true act path table = .ok u) :
      StepsInto act key path ms (ms.put key (.arr (items ++ [.obj u])))

theorem stepsInto_of_change {ns : Members} (h : change true act (key :: path) ms = .ok ns) :
    StepsInto act key path ms ns := by
  rw [change] at h
  split at h
  · next hget =>
      obtain ⟨u, hu, h⟩ := bind_eq_ok.mp h
      cases h
      exact .made hget hu
  · next table hget =>
      obtain ⟨u, hu, h⟩ := bind_eq_ok.mp h
      cases h
      exact .table hget hu
  · next items hget =>
      split at h
      · next table hlast =>
          obtain ⟨front, rfl⟩ := List.getLast?_eq_some_iff.mp hlast
          obtain ⟨u, hu, h⟩ := bind_eq_ok.mp h
          cases h
          rw [List.dropLast_concat]
          exact .last hget hu
      · cases h
  · cases h

theorem change_append (act : Members → Except Conflict Members) (path more : Path) :
    change true act (path ++ more) = change true (change true act more) path := by
  induction path with
  | nil => rfl
  | cons key path ih =>
      funext ms
      simp only [List.cons_append, change, ih]

/-- Two changes at one path are one change there. -/
theorem change_change {next : Members → Except Conflict Members} {ns : Members}
    (h : change true act path ms = .ok ns) :
    change true next path ns = change true (fun table => act table >>= next) path ms := by
  induction path generalizing ms ns with
  | nil =>
      rw [change] at h
      simp only [change, h]
      rfl
  | cons key path ih =>
      -- After the first change the key leads to the changed table, so the second one goes
      -- the same way, and what it puts there takes the place of what the first has put.
      cases stepsInto_of_change h with
      | made hget hu =>
          rw [change_none hget, change_obj (Members.get?_put_self _ _ _), ih hu]
          simp only [Members.put_put]
      | table hget hu =>
          rw [change_obj hget, change_obj (Members.get?_put_self _ _ _), ih hu]
          simp only [Members.put_put]
      | last hget hu =>
          rw [change_arr hget, change_arr (Members.get?_put_self _ _ _), ih hu]
          simp only [Members.put_put]

end

/-! ## Around a place -/

/-- At a path of a document there is a table, or one could be made that is empty,
and a change of the table changes what is around it as `fill` says. -/
def Around (root : Members) (path : Path) (table : Members) (fill : Members → Members) : Prop :=
  ∀ act, change true act path root = (act table).map fill

theorem around_root (root : Members) : Around root [] root id := by
  intro act
  rw [change]
  cases act root <;> rfl

section

variable {root table : Members} {path : Path} {fill : Members → Members}

/-- Around a place nothing changes but the table. -/
theorem Around.filled (h : Around root path table fill) (u : Members) :
    Around (fill u) path u fill := by
  intro act
  have hput : change true (fun _ => .ok u) path root = .ok (fill u) := h _
  rw [change_change hput, h]
  rfl

theorem Around.below {key : String} {inside : Members} {put : Members → Members}
    (h : Around root path table fill)
    (hkey : ∀ act, change true act [key] table = (act inside).map put) :
    Around root (path ++ [key]) inside fun u => fill (put u) := by
  intro act
  rw [change_append, h, hkey]
  cases act inside <;> rfl

/-- A place that is still to be made. -/
theorem Around.made {key : String} (h : Around root path table fill) (hkey : table.get? key = none) :
    Around root (path ++ [key]) [] fun u => fill (table.put key (.obj u)) :=
  h.below fun _ => change_none hkey

/-- The last table of an array. -/
theorem Around.last {key : String} {items : List Value} {inside : Members}
    (h : Around root path table fill)
    (hkey : table.get? key = some (.arr (items ++ [.obj inside]))) :
    Around root (path ++ [key]) inside fun u => fill (table.put key (.arr (items ++ [.obj u]))) :=
  h.below fun _ => change_arr hkey

end

/-! ## Marks -/

namespace Marks

variable {m n : Marks} {path : Path} {key other : String}

/-- Neither a path nor one below it is marked, and it is below no fixed one. -/
structure Fresh (m : Marks) (path : Path) : Prop where
  undeclared : ∀ p ∈ m.declared, ¬ path <+: p
  unfixed : ∀ p ∈ m.fixed, ¬ p <+: path ∧ ¬ path <+: p

/-- A path is at or below no fixed one. -/
def Free (m : Marks) (path : Path) : Prop := ∀ p ∈ m.fixed, ¬ p <+: path

/-- There are no more marks than before, apart from some at and below a path. -/
structure GrownAt (m n : Marks) (path : Path) : Prop where
  declared : ∀ p ∈ n.declared, p ∈ m.declared ∨ path <+: p
  fixed : ∀ p ∈ n.fixed, p ∈ m.fixed ∨ path <+: p

theorem fresh_none (path : Path) : none.Fresh path := ⟨nofun, nofun⟩

theorem Free.isFixed_eq_false (h : m.Free path) : m.isFixed path = false := by
  rw [isFixed, List.any_eq_false]
  exact fun p hp hprefix => h p hp (List.isPrefixOf_iff_prefix.mp hprefix)

theorem Fresh.free (h : m.Fresh path) : m.Free path := fun p hp => (h.unfixed p hp).1

theorem Fresh.isDeclared_eq_false (h : m.Fresh path) : m.isDeclared path = false := by
  rw [isDeclared, Bool.eq_false_iff]
  exact fun hmem => h.undeclared path (List.contains_iff_mem.mp hmem) (List.prefix_refl path)

theorem Fresh.below (h : m.Fresh path) (key : String) : m.Fresh (path ++ [key]) where
  undeclared p hp hprefix := h.undeclared p hp ((List.prefix_append path [key]).trans hprefix)
  unfixed p hp := by
    refine ⟨fun hprefix => ?_, fun hprefix => ?_⟩
    · rcases List.prefix_concat_iff.mp hprefix with rfl | hprefix
      · exact (h.unfixed _ hp).2 (List.prefix_append path [key])
      · exact (h.unfixed p hp).1 hprefix
    · exact (h.unfixed p hp).2 ((List.prefix_append path [key]).trans hprefix)

theorem not_below_self : ¬ path ++ [key] <+: path := by
  intro h
  have hlength := h.length_le
  rw [List.length_append, List.length_singleton] at hlength
  omega

theorem eq_of_below {p : Path} (h : path ++ [key] <+: p) (hother : path ++ [other] <+: p) :
    key = other := by
  have heq := List.prefix_of_prefix_length_le h hother (by simp)
  have hkeys := List.append_cancel_left (heq.eq_of_length (by simp))
  exact (List.cons.inj hkeys).1

theorem grownAt_refl (m : Marks) (path : Path) : m.GrownAt m path :=
  ⟨fun _ => .inl, fun _ => .inl⟩

theorem GrownAt.trans {l : Marks} (h : l.GrownAt m path) (hnext : m.GrownAt n path) :
    l.GrownAt n path where
  declared p hp := (hnext.declared p hp).elim (h.declared p) .inr
  fixed p hp := (hnext.fixed p hp).elim (h.fixed p) .inr

theorem GrownAt.above (h : m.GrownAt n (path ++ [key])) : m.GrownAt n path where
  declared p hp := (h.declared p hp).imp_right (List.prefix_append path [key]).trans
  fixed p hp := (h.fixed p hp).imp_right (List.prefix_append path [key]).trans

theorem grownAt_declare (m : Marks) (path : Path) : m.GrownAt (m.declare path) path where
  declared _ hp := (List.mem_cons.mp hp).elim (fun heq => .inr (heq ▸ List.prefix_refl path)) .inl
  fixed _ := .inl

theorem grownAt_fix (m : Marks) (path : Path) : m.GrownAt (m.fix path) path where
  declared _ := .inl
  fixed _ hp := (List.mem_cons.mp hp).elim (fun heq => .inr (heq ▸ List.prefix_refl path)) .inl

theorem grownAt_release (m : Marks) (path : Path) : m.GrownAt (m.release path) path where
  declared _ hp := .inl (List.mem_filter.mp hp).1
  fixed _ hp := .inl (List.mem_filter.mp hp).1

/-- What is marked below one key leaves the paths below another fresh. -/
theorem Fresh.of_grownAt (h : m.Fresh (path ++ [key])) (hgrown : m.GrownAt n (path ++ [other]))
    (hne : other ≠ key) : n.Fresh (path ++ [key]) where
  undeclared p hp hprefix := by
    rcases hgrown.declared p hp with hold | hnew
    · exact h.undeclared p hold hprefix
    · exact hne (eq_of_below hnew hprefix)
  unfixed p hp := by
    rcases hgrown.fixed p hp with hold | hnew
    · exact h.unfixed p hold
    · refine ⟨fun hprefix => ?_, fun hprefix => hne (eq_of_below hnew hprefix)⟩
      exact hne (eq_of_below (hnew.trans hprefix) (List.prefix_refl _))

theorem Free.of_grownAt (h : m.Free path) (hgrown : m.GrownAt n (path ++ [key])) : n.Free path := by
  intro p hp hprefix
  rcases hgrown.fixed p hp with hold | hnew
  · exact h p hold hprefix
  · exact not_below_self (hnew.trans hprefix)

/-- A path that was fresh is declared, and what is below it is still fresh. -/
theorem Fresh.declare (h : m.Fresh path) (key : String) :
    (m.declare path).Fresh (path ++ [key]) where
  undeclared := List.forall_mem_cons.mpr ⟨not_below_self, (h.below key).undeclared⟩
  unfixed := (h.below key).unfixed

theorem Free.of_release (h : m.Free path) : ((m.release path).declare path).Free path :=
  fun p hp => h p (List.mem_filter.mp hp).1

/-- Where an array of tables gets one more, its marks are taken off. -/
theorem Free.release (h : m.Free path) (key : String) :
    ((m.release path).declare path).Fresh (path ++ [key]) := by
  have hkept {marks : List Path} {p : Path} (hp : p ∈ marks.filter (!path.isPrefixOf ·)) :
      p ∈ marks ∧ ¬ path <+: p := by
    obtain ⟨hmem, hnot⟩ := List.mem_filter.mp hp
    refine ⟨hmem, fun hprefix => ?_⟩
    rw [List.isPrefixOf_iff_prefix.mpr hprefix] at hnot
    cases hnot
  refine ⟨List.forall_mem_cons.mpr ⟨not_below_self, fun p hp hprefix => ?_⟩, fun p hp => ?_⟩
  · exact (hkept hp).2 ((List.prefix_append path [key]).trans hprefix)
  · obtain ⟨hmem, hnot⟩ := hkept hp
    refine ⟨fun hprefix => ?_, fun hprefix => hnot ((List.prefix_append path [key]).trans hprefix)⟩
    rcases List.prefix_concat_iff.mp hprefix with rfl | hprefix
    · exact hnot (List.prefix_append path [key])
    · exact h p hmem hprefix

end Marks

end Toml

end FoldingProtocol
