import FoldingProtocol.Proofs.ReadBack

/-!
# Values that are sent as they are

Null stands on the wire for a double that is not finite, at any depth, and nothing else
is changed. So a value is sent as it is exactly if every double in it is finite, and what
was sent once is sent as it is from then on. The shapes of the protocol have no doubles
among their fields; only the values that they carry without knowing them can have some.
-/

namespace FoldingProtocol

namespace Value

mutual

/-- A value in which every double is finite. -/
def isFinite : Value → Bool
  | .float x => x.isFinite
  | .arr items => areFinite items
  | .obj members => haveFinite members
  | .null | .bool _ | .int _ | .str _ | .moment _ => true
termination_by structural v => v

/-- Items in which every double is finite. -/
def areFinite : List Value → Bool
  | [] => true
  | v :: rest => isFinite v && areFinite rest
termination_by structural vs => vs

/-- Members in whose values every double is finite. -/
def haveFinite : List (String × Value) → Bool
  | [] => true
  | (_, v) :: rest => isFinite v && haveFinite rest
termination_by structural ms => ms

end

theorem areFinite_iff {items : List Value} :
    areFinite items = true ↔ ∀ v ∈ items, v.isFinite = true := by
  induction items with
  | nil => exact iff_of_true rfl (List.forall_mem_nil _)
  | cons v items ih => rw [areFinite, Bool.and_eq_true, ih, List.forall_mem_cons]

theorem haveFinite_iff {members : Members} :
    haveFinite members = true ↔ ∀ m ∈ members, m.2.isFinite = true := by
  induction members with
  | nil => exact iff_of_true rfl (List.forall_mem_nil _)
  | cons m members ih => rw [haveFinite, Bool.and_eq_true, ih, List.forall_mem_cons]

mutual

theorem dumped_eq_self_iff : (v : Value) → (v.dumped = v ↔ v.isFinite = true)
  | .float x => by
      rw [dumped, isFinite]
      split
      · next h => exact iff_of_true rfl h
      · next h => exact iff_of_false nofun h
  | .arr items => by rw [dumped, isFinite, arr.injEq]; exact dumpedItems_eq_self_iff items
  | .obj members => by rw [dumped, isFinite, obj.injEq]; exact dumpedMembers_eq_self_iff members
  | .null => iff_of_true rfl rfl
  | .bool _ => iff_of_true rfl rfl
  | .int _ => iff_of_true rfl rfl
  | .str _ => iff_of_true rfl rfl
  | .moment _ => iff_of_true rfl rfl
termination_by structural v => v

theorem dumpedItems_eq_self_iff :
    (items : List Value) → (dumpedItems items = items ↔ areFinite items = true)
  | [] => iff_of_true rfl rfl
  | v :: rest => by
      rw [dumpedItems, areFinite, List.cons.injEq, Bool.and_eq_true, dumped_eq_self_iff v,
        dumpedItems_eq_self_iff rest]
termination_by structural items => items

theorem dumpedMembers_eq_self_iff :
    (members : List (String × Value)) →
      (dumpedMembers members = members ↔ haveFinite members = true)
  | [] => iff_of_true rfl rfl
  | (k, v) :: rest => by
      rw [dumpedMembers, haveFinite, List.cons.injEq, Prod.mk.injEq, eq_self, true_and,
        Bool.and_eq_true, dumped_eq_self_iff v, dumpedMembers_eq_self_iff rest]
termination_by structural members => members

end

/-- A value in which every double is finite is sent as it is. -/
theorem dumped_of_isFinite {v : Value} (h : v.isFinite = true) : v.dumped = v :=
  (dumped_eq_self_iff v).mpr h

mutual

theorem isFinite_dumped : (v : Value) → v.dumped.isFinite = true
  | .float x => by
      rw [dumped]
      split
      · next h => exact h
      · rfl
  | .arr items => areFinite_dumpedItems items
  | .obj members => haveFinite_dumpedMembers members
  | .null => rfl
  | .bool _ => rfl
  | .int _ => rfl
  | .str _ => rfl
  | .moment _ => rfl
termination_by structural v => v

theorem areFinite_dumpedItems :
    (items : List Value) → areFinite (dumpedItems items) = true
  | [] => rfl
  | v :: rest => Bool.and_eq_true_iff.mpr ⟨isFinite_dumped v, areFinite_dumpedItems rest⟩
termination_by structural items => items

theorem haveFinite_dumpedMembers :
    (members : List (String × Value)) → haveFinite (dumpedMembers members) = true
  | [] => rfl
  | (_, v) :: rest => Bool.and_eq_true_iff.mpr ⟨isFinite_dumped v, haveFinite_dumpedMembers rest⟩
termination_by structural members => members

end

/-- What was sent is sent again as it is. -/
theorem dumped_dumped (v : Value) : v.dumped.dumped = v.dumped :=
  dumped_of_isFinite (isFinite_dumped v)

theorem isFinite_ofOption {α : Type} {write : α → Value}
    (h : ∀ a, (write a).isFinite = true) (x : Option α) :
    (ofOption (x.map write)).isFinite = true := by
  cases x with
  | none => rfl
  | some a => exact h a

theorem isFinite_arr {α : Type} {write : α → Value} (h : ∀ a, (write a).isFinite = true)
    (items : List α) : (arr (items.map write)).isFinite = true :=
  areFinite_iff.mpr fun _ hv => by
    obtain ⟨a, -, rfl⟩ := List.mem_map.mp hv
    exact h a

end Value

/-! ## Members -/

namespace Members

/-- Members as they are sent. -/
def dumped (ms : Members) : Members := Value.dumpedMembers ms

theorem dumped_cons (key : String) (v : Value) (rest : Members) :
    dumped ((key, v) :: rest) = (key, v.dumped) :: dumped rest := rfl

theorem dumped_append (ms more : Members) : dumped (ms ++ more) = dumped ms ++ dumped more := by
  induction ms with
  | nil => rfl
  | cons m ms ih =>
      obtain ⟨key, v⟩ := m
      rw [List.cons_append, dumped_cons, dumped_cons, List.cons_append, ih]

theorem keys_dumped (ms : Members) : (dumped ms).map Prod.fst = ms.map Prod.fst := by
  induction ms with
  | nil => rfl
  | cons m ms ih => exact congrArg (m.1 :: ·) ih

theorem get?_dumped (key : String) (ms : Members) :
    (dumped ms).get? key = (ms.get? key).map Value.dumped := by
  induction ms with
  | nil => rfl
  | cons m ms ih =>
      obtain ⟨other, v⟩ := m
      rw [dumped_cons, get?_cons, get?_cons]
      split
      · rfl
      · exact ih

theorem haveFinite_dropNulls {ms : Members} (h : Value.haveFinite ms = true) :
    Value.haveFinite ms.dropNulls = true :=
  Value.haveFinite_iff.mpr fun m hm =>
    Value.haveFinite_iff.mp h m (List.mem_filter.mp hm).1

end Members

namespace Field

variable {α : Type} {decode : Decoder α} {f : Field} {entries : List (Field × Value)} {v : Value}

/-- Fields with finite values make a finite object. -/
theorem isFinite_wireMembers (h : ∀ e ∈ entries, e.2.isFinite = true) :
    (Value.obj (wireMembers entries)).isFinite = true :=
  Members.haveFinite_dropNulls (Value.haveFinite_iff.mpr fun m hm => by
    obtain ⟨e, he, rfl⟩ := List.mem_map.mp hm
    exact h e he)

end Field

end FoldingProtocol
