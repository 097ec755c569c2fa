import FoldingProtocol.Decoding.Scalar
import FoldingProtocol.Model.Style

/-!
# What is written is read back

A shape of the protocol is written member by member and read member by member,
so reading back what was written is a matter of single fields: each field finds
the value that was put under it and no other. Two things stand in the way. A
null member is not written at all, and a field that misses its wire name looks
for its field name next, where it could meet a stranger. Both are harmless when
no field of an object answers to the wire name of another, which is what
`Field.Apart` asks of the fields of a shape.

`ReadsBack` is the contract that decoders and writers then share. It climbs from
scalars over lists and fields to whole shapes, and it carries the one side
condition that fields need, that what was written is not null.
-/

namespace FoldingProtocol

theorem Value.isNull_eq_false_iff {v : Value} : v.isNull = false ↔ v ≠ .null := by
  cases v <;> simp [isNull]

/-! ## Members on the wire -/

namespace Members

theorem dropNulls_cons {key : String} {v : Value} {rest : Members} :
    dropNulls ((key, v) :: rest) =
      if v.isNull then dropNulls rest else (key, v) :: dropNulls rest := by
  cases v <;> rfl

theorem get?_cons {key other : String} {v : Value} {rest : Members} :
    get? key ((other, v) :: rest) = if other = key then some v else get? key rest := rfl

end Members

namespace Field

/-- Fields that do not answer to each other's wire names. -/
def Apart (fields : List Field) : Prop :=
  fields.Pairwise fun f g => f.wire ≠ g.wire ∧ f.name ≠ g.wire ∧ g.name ≠ f.wire

instance (fields : List Field) : Decidable (Apart fields) :=
  inferInstanceAs (Decidable (fields.Pairwise _))

/-- Fields with their values as they stand in an object on the wire. -/
def wireMembers (entries : List (Field × Value)) : Members :=
  Members.dropNulls (entries.map fun e => e.1.entry .wire e.2)

theorem wireMembers_cons {f : Field} {v : Value} {rest : List (Field × Value)} :
    wireMembers ((f, v) :: rest) =
      if v.isNull then wireMembers rest else (f.wire, v) :: wireMembers rest :=
  Members.dropNulls_cons

theorem get?_wireMembers_of_unused {key : String} {entries : List (Field × Value)}
    (h : ∀ e ∈ entries, e.1.wire ≠ key) :
    (wireMembers entries).get? key = none := by
  induction entries with
  | nil => rfl
  | cons e rest ih =>
      have hrest := ih fun e' he' => h e' (List.mem_cons_of_mem _ he')
      rw [wireMembers_cons]
      split
      · exact hrest
      · rw [Members.get?_cons, if_neg (h e List.mem_cons_self)]
        exact hrest

/-- Under its wire name a field finds its own value, unless that is null. -/
theorem get?_wireMembers {f : Field} {v : Value} {entries : List (Field × Value)}
    (hapart : Apart (entries.map Prod.fst)) (hmem : (f, v) ∈ entries) :
    (wireMembers entries).get? f.wire = if v.isNull then none else some v := by
  induction entries with
  | nil => cases hmem
  | cons e rest ih =>
      rw [List.map_cons] at hapart
      obtain ⟨hhead, hrest⟩ := List.pairwise_cons.mp hapart
      have hothers : ∀ e' ∈ rest, e.1.wire ≠ e'.1.wire :=
        fun e' he' => (hhead e'.1 (List.mem_map_of_mem he')).1
      rw [wireMembers_cons]
      rcases List.mem_cons.mp hmem with rfl | htail
      · split
        -- The value was left out, and no later field writes under this name.
        · exact get?_wireMembers_of_unused fun e' he' => (hothers e' he').symm
        · rw [Members.get?_cons, if_pos rfl]
      · split
        · exact ih hrest htail
        · rw [Members.get?_cons, if_neg (hothers _ htail)]
          exact ih hrest htail

/-- A field whose value was left out finds nothing under its field name
either. -/
theorem get?_wireMembers_name {f : Field} {v : Value} {entries : List (Field × Value)}
    (hapart : Apart (entries.map Prod.fst)) (hmem : (f, v) ∈ entries)
    (hnull : v.isNull = true) :
    (wireMembers entries).get? f.name = none := by
  induction entries with
  | nil => cases hmem
  | cons e rest ih =>
      rw [List.map_cons] at hapart
      obtain ⟨hhead, hrest⟩ := List.pairwise_cons.mp hapart
      rw [wireMembers_cons]
      rcases List.mem_cons.mp hmem with rfl | htail
      · rw [if_pos hnull]
        exact get?_wireMembers_of_unused fun e' he' =>
          (hhead e'.1 (List.mem_map_of_mem he')).2.1.symm
      · split
        · exact ih hrest htail
        · rw [Members.get?_cons, if_neg (hhead f (List.mem_map_of_mem htail)).2.2.symm]
          exact ih hrest htail

theorem find?_wireMembers {f : Field} {v : Value} {entries : List (Field × Value)}
    (hapart : Apart (entries.map Prod.fst)) (hmem : (f, v) ∈ entries) :
    f.find? (wireMembers entries) = if v.isNull then none else some (f.wire, v) := by
  rw [find?, get?_wireMembers hapart hmem]
  cases hnull : v.isNull with
  | true => simp only [if_true, get?_wireMembers_name hapart hmem hnull, Option.map_none]
  | false => rfl

end Field

/-! ## Decoders and writers -/

namespace Decoded

variable {α β : Type}

theorem map_accepted {f : α → β} {d : Decoded α} {a : α} (h : d = .accepted a) :
    f <$> d = .accepted (f a) := by
  rw [h]
  rfl

theorem seq_accepted {df : Decoded (α → β)} {d : Decoded α} {f : α → β} {a : α}
    (hf : df = .accepted f) (h : d = .accepted a) : df <*> d = .accepted (f a) := by
  rw [hf, h]
  rfl

end Decoded

namespace Decoder

variable {α : Type} {decode : Decoder α} {write : α → Value}

/-- A decoder accepts what a writer writes, and that is never null. -/
structure ReadsBack (decode : Decoder α) (write : α → Value) : Prop where
  accepted : ∀ a, decode (write a) = .accepted a
  notNull : ∀ a, (write a).isNull = false

theorem text_readsBack : ReadsBack text .str where
  accepted _ := rfl
  notNull _ := rfl

theorem count_readsBack : ReadsBack count .ofNat where
  accepted _ := rfl
  notNull _ := rfl

theorem flag_readsBack : ReadsBack flag .bool where
  accepted _ := rfl
  notNull _ := rfl

theorem itemsFrom_map {again : α → α} (h : ∀ a, decode (write a) = .accepted (again a))
    (items : List α) :
    ∀ place, itemsFrom decode place (items.map write) = .accepted (items.map again) := by
  induction items with
  | nil => intro place; rfl
  | cons a rest ih =>
      intro place
      rw [List.map_cons, itemsFrom, h, ih]
      rfl

theorem list_readsBack (h : ReadsBack decode write) :
    ReadsBack (list decode) fun items => .arr (items.map write) where
  accepted items := (itemsFrom_map h.accepted items 0).trans (by rw [List.map_id'])
  notNull _ := rfl

/-- Where null is something to read, an absent value is written as null and
comes back as absent. -/
theorem nullable_ofOption (h : ReadsBack decode write) (x : Option α) :
    nullable decode (.ofOption (x.map write)) = .accepted x := by
  cases x with
  | none => rfl
  | some a =>
      have hnull := h.notNull a
      have haccepted := h.accepted a
      rw [Option.map_some, Value.ofOption]
      unfold nullable
      split
      · next hv => rw [hv] at hnull; cases hnull
      · rw [haccepted]; rfl

end Decoder

/-! ## Fields of an object -/

namespace Field

variable {α : Type} {decode : Decoder α} {write : α → Value} {f : Field}
  {entries : List (Field × Value)}

theorem required_of_accepted {v : Value} {a : α} (hapart : Apart (entries.map Prod.fst))
    (hmem : (f, v) ∈ entries) (hnull : v.isNull = false) (haccepted : decode v = .accepted a) :
    f.required decode (wireMembers entries) = .accepted a := by
  rw [required, find?_wireMembers hapart hmem, hnull]
  simp only [Bool.false_eq_true, if_false]
  rw [haccepted]
  rfl

theorem required_wireMembers {a : α} (h : Decoder.ReadsBack decode write)
    (hapart : Apart (entries.map Prod.fst)) (hmem : (f, write a) ∈ entries) :
    f.required decode (wireMembers entries) = .accepted a :=
  required_of_accepted hapart hmem (h.notNull a) (h.accepted a)

theorem optional_wireMembers {x : Option α} (h : Decoder.ReadsBack decode write)
    (hapart : Apart (entries.map Prod.fst))
    (hmem : (f, .ofOption (x.map write)) ∈ entries) :
    Decoder.optional f decode (wireMembers entries) = .accepted x := by
  rw [Decoder.optional, defaulted, find?_wireMembers hapart hmem]
  cases x with
  | none => rfl
  | some a =>
      have hnull : (Value.ofOption ((some a).map write)).isNull = false := h.notNull a
      rw [hnull]
      simp only [Bool.false_eq_true, if_false]
      rw [Decoder.nullable_ofOption h]
      rfl

end Field

end FoldingProtocol
