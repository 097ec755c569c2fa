import FoldingProtocol.Proofs.DocumentValues
import FoldingProtocol.Proofs.DumpedValues
import FoldingProtocol.Proofs.JsonRoundTrip

/-!
# A field beside members that are kept

Some shapes keep what they do not know. Their object on the wire has the field's
value first and then the other members, without those that are null, and all of them
dumped. Reading it again therefore asks two questions: does the field find its own value,
and if that was left out as a null, does it find nothing else?

The first question always has a good answer, since none of the kept members answers to
the wire name. The second has not. A null under the wire name is what the field reads, so
that a member under its field name is one of the others; on the wire the null is gone
and the other member is still there. `Field.Hides` names this case, and it is the only
one in which the field is read differently.
-/

namespace FoldingProtocol

/-! ## Lookup in fewer members -/

namespace Members

theorem get?_filter_key (keep : String → Bool) (key : String) (ms : Members) :
    get? key (ms.filter fun m => keep m.1) = if keep key then ms.get? key else none := by
  induction ms with
  | nil => cases keep key <;> rfl
  | cons m ms ih =>
      rw [List.filter_cons, get?_cons]
      by_cases hkey : m.1 = key
      · subst hkey
        cases hkeep : keep m.1 with
        | true => rw [if_pos rfl, if_pos rfl, get?_cons, if_pos rfl, if_pos rfl]
        | false => rw [if_neg Bool.false_ne_true, ih, hkeep]; rfl
      · rw [if_neg hkey]
        split
        · rw [get?_cons, if_neg hkey, ih]
        · exact ih

theorem get?_dropNulls {ms : Members} (h : ms.Distinct) (key : String) :
    ms.dropNulls.get? key = (ms.get? key).filter (!·.isNull) := by
  induction ms with
  | nil => rfl
  | cons m ms ih =>
      obtain ⟨k, v⟩ := m
      obtain ⟨hk, hms⟩ := List.nodup_cons.mp h
      rw [dropNulls_cons, get?_cons]
      by_cases hkey : k = key
      · subst hkey
        rw [if_pos rfl, Option.filter_some]
        cases hnull : v.isNull with
        -- A null is gone, and its key is not bound a second time.
        | true => rw [if_pos rfl, ih hms, get?_eq_none hk]; rfl
        | false => rw [if_neg Bool.false_ne_true, get?_cons, if_pos rfl]; rfl
      · rw [if_neg hkey]
        split
        · exact ih hms
        · rw [get?_cons, if_neg hkey, ih hms]

end Members

/-! ## What a field leaves to the others -/

namespace Field

variable {f : Field} {ms : Members}

theorem others_eq_filter (f : Field) (ms : Members) :
    others [f] ms = ms.filter fun m => decide ((f.find? ms).map Prod.fst ≠ some m.1) := by
  refine List.filter_congr fun m _ => ?_
  cases hfound : f.find? ms with
  | none => simp [hfound]
  | some found => simp [hfound, eq_comm]

theorem get?_others (f : Field) (ms : Members) (key : String) :
    (others [f] ms).get? key =
      if (f.find? ms).map Prod.fst = some key then none else ms.get? key := by
  rw [others_eq_filter]
  refine (Members.get?_filter_key
    (fun k => decide ((f.find? ms).map Prod.fst ≠ some k)) key ms).trans ?_
  simp only [decide_eq_true_eq, ite_not]

theorem distinct_others (h : ms.Distinct) : (others [f] ms).Distinct :=
  List.Sublist.nodup (List.Sublist.map _ List.filter_sublist) h

theorem find?_eq_none : f.find? ms = none ↔ ms.get? f.wire = none ∧ ms.get? f.name = none := by
  rw [find?]
  split
  · next hwire => simp [hwire]
  · next hwire => rw [hwire, Option.map_eq_none_iff]; exact (and_iff_right rfl).symm

/-- None of the others answers to the wire name. -/
theorem get?_others_wire (f : Field) (ms : Members) : (others [f] ms).get? f.wire = none := by
  rw [get?_others]
  split
  · rfl
  · next hne =>
      cases hfound : f.find? ms with
      | none => exact (find?_eq_none.mp hfound).1
      | some found =>
          rcases find?_eq_some hfound with ⟨hkey, -⟩ | ⟨-, hwire, -⟩
          · rw [hfound, Option.map_some, hkey] at hne
            exact absurd rfl hne
          · exact hwire

/-- A null under the wire name is what the field reads, and not the value under its
field name, which is sent as something else than null. -/
structure Hides (f : Field) (ms : Members) (w : Value) : Prop where
  wire : ms.get? f.wire = some .null
  name : ms.get? f.name = some w
  notNull : w.dumped ≠ .null

/-- A field and the members that it leaves, as they stand in an object on the wire. -/
def keptMembers (f : Field) (v : Value) (ms : Members) : Members :=
  Members.dumped (Members.dropNulls ((f.wire, v) :: others [f] ms))

theorem distinct_cons_others (v : Value) (h : ms.Distinct) :
    Members.Distinct ((f.wire, v) :: others [f] ms) := by
  refine List.nodup_cons.mpr ⟨fun hmem => ?_, distinct_others h⟩
  have hbound := Members.mem_keys_iff.mp hmem
  rw [get?_others_wire] at hbound
  cases hbound

theorem object_kept (h : ms.Distinct) (v : Value) :
    (Style.wire.object [f.entry .wire v] (others [f] ms)).dumped =
      .obj (f.keptMembers v ms) := by
  have happend : Members.putAll [f.entry .wire v] (others [f] ms) =
      [f.entry .wire v] ++ others [f] ms := Json.putAll_eq_append (distinct_cons_others v h)
  rw [Style.object, happend]
  rfl

theorem get?_keptMembers (h : ms.Distinct) (v : Value) (key : String) :
    (f.keptMembers v ms).get? key =
      ((if f.wire = key then some v else (others [f] ms).get? key).filter (!·.isNull)).map
        Value.dumped := by
  rw [keptMembers, Members.get?_dumped, Members.get?_dropNulls (distinct_cons_others v h),
    Members.get?_cons]

theorem find?_keptMembers (h : ms.Distinct) {v : Value} (hv : v ≠ .null)
    (hfinite : v.isFinite = true) : f.find? (f.keptMembers v ms) = some (f.wire, v) := by
  have hget : (f.keptMembers v ms).get? f.wire = some v := by
    rw [get?_keptMembers h, if_pos rfl, Option.filter_some, Value.isNull_eq_false_iff.mpr hv]
    exact congrArg some (Value.dumped_of_isFinite hfinite)
  rw [find?, hget]

variable {α : Type} {decode : Decoder α} {write : α → Value}

theorem optional_eq_none (h : Decoder.optional f decode ms = .accepted none) {key : String}
    {v : Value} (hfound : f.find? ms = some (key, v)) : v = .null := by
  have hread := optional_iff.mp h
  rw [valueIn, hfound] at hread
  exact Decoder.nullable_eq_none hread

theorem Hides.wire_ne_name {w : Value} (h : f.Hides ms w) : f.wire ≠ f.name := by
  intro heq
  have hname := h.name
  rw [← heq, h.wire] at hname
  exact h.notNull (congrArg Value.dumped (Option.some.inj hname).symm)

theorem Hides.find?_eq {w : Value} (h : f.Hides ms w) : f.find? ms = some (f.wire, .null) := by
  rw [find?, h.wire]

/-- What the others answer to the field name, beside a field that reads nothing, is what
the field hid. -/
theorem hides_of_others (hread : Decoder.optional f decode ms = .accepted none) {w : Value}
    (hget : (others [f] ms).get? f.name = some w) (hw : w.dumped ≠ .null) :
    f.Hides ms w := by
  rw [get?_others] at hget
  split at hget
  · cases hget
  · next hkey =>
      cases hfound : f.find? ms with
      | none =>
          rw [(find?_eq_none.mp hfound).2] at hget
          cases hget
      | some found =>
          obtain ⟨key, v⟩ := found
          obtain rfl := optional_eq_none hread hfound
          rw [hfound, Option.map_some, Option.some.injEq] at hkey
          rcases find?_eq_some hfound with ⟨-, hwire⟩ | ⟨hname, -⟩
          · exact ⟨hwire, hget, hw⟩
          · exact absurd hname hkey

theorem Hides.others {w : Value} (h : f.Hides ms w) : (others [f] ms).get? f.name = some w := by
  have hkey : (f.find? ms).map Prod.fst ≠ some f.name := by
    rw [h.find?_eq]
    exact fun heq => h.wire_ne_name (Option.some.inj heq)
  rw [get?_others, if_neg hkey]
  exact h.name

/-- Where a field is written as nothing, its name leads to what it hid. -/
theorem Hides.get?_keptMembers {w : Value} (h : f.Hides ms w) (hkeys : ms.Distinct) :
    (f.keptMembers .null ms).get? f.name = some w.dumped := by
  have hw : w ≠ .null := fun hnull => h.notNull (congrArg Value.dumped hnull)
  rw [Field.get?_keptMembers hkeys, if_neg h.wire_ne_name, h.others, Option.filter_some,
    Value.isNull_eq_false_iff.mpr hw]
  rfl

theorem hides_of_get?_keptMembers (hkeys : ms.Distinct)
    (hread : Decoder.optional f decode ms = .accepted none) {u : Value}
    (hget : (f.keptMembers .null ms).get? f.name = some u) (hu : u ≠ .null) :
    ∃ w, f.Hides ms w := by
  rw [get?_keptMembers hkeys] at hget
  obtain ⟨w, hw, rfl⟩ := Option.map_eq_some_iff.mp hget
  obtain ⟨hw, -⟩ := Option.filter_eq_some_iff.mp hw
  split at hw
  · exact absurd (congrArg Value.dumped (Option.some.inj hw).symm) hu
  · exact ⟨w, hides_of_others hread hw hu⟩

theorem find?_keptMembers_null (hkeys : ms.Distinct) :
    f.find? (f.keptMembers .null ms) =
      ((f.keptMembers .null ms).get? f.name).map (f.name, ·) := by
  have hwire : (f.keptMembers .null ms).get? f.wire = none := by
    rw [get?_keptMembers hkeys, if_pos rfl]
    rfl
  rw [find?, hwire]

/-! ## What is read again -/

/-- An optional field beside members that are kept is read again as it was read,
unless it hid a value. -/
theorem optional_keptMembers_iff (h : Decoder.ReadsBack decode write)
    (hfinite : ∀ a, (write a).isFinite = true) (hkeys : ms.Distinct)
    {x : Option α} (hread : Decoder.optional f decode ms = .accepted x) :
    Decoder.optional f decode (f.keptMembers (.ofOption (x.map write)) ms) = .accepted x ↔
      ∀ w, ¬ f.Hides ms w := by
  cases x with
  | some a =>
      have hnull : write a ≠ .null := Value.isNull_eq_false_iff.mp (h.notNull a)
      refine iff_of_true (optional_iff.mpr ?_) fun w hw => ?_
      · have hfound : f.find? (f.keptMembers (write a) ms) = some (f.wire, write a) :=
          find?_keptMembers hkeys hnull (hfinite a)
        show Decoder.nullable decode (f.valueIn (f.keptMembers (write a) ms)) = _
        rw [valueIn, hfound]
        exact Decoder.nullable_ofOption h (some a)
      · have hnothing := optional_iff.mp hread
        rw [valueIn, hw.find?_eq] at hnothing
        cases hnothing
  | none =>
      show Decoder.optional f decode (f.keptMembers .null ms) = _ ↔ _
      refine ⟨fun hagain w hw => ?_, fun hno => ?_⟩
      -- What was hidden is found under the field name, and it is not sent as null.
      · have hfound : f.find? (f.keptMembers .null ms) = some (f.name, w.dumped) := by
          rw [find?_keptMembers_null hkeys, hw.get?_keptMembers hkeys]
          rfl
        exact hw.notNull (optional_eq_none hagain hfound)
      · rw [optional_iff, valueIn, find?_keptMembers_null hkeys]
        cases hname : (f.keptMembers .null ms).get? f.name with
        | none => rfl
        | some u =>
            have hu : u = .null := by
              by_contra hne
              obtain ⟨w, hw⟩ := hides_of_get?_keptMembers hkeys hread hname hne
              exact hno w hw
            rw [hu]
            rfl

end Field

end FoldingProtocol
