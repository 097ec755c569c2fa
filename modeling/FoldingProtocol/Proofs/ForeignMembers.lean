import FoldingProtocol.Proofs.ServerOffers

/-!
# Members that belong to others

The capabilities of a server and of a client have one field of their own, and so has the
part of a client's for text documents. What else their objects hold is foreign to them. It
is written after the field, in the order in which it came, and only here is a null left out:
inside a value a null stays where it is, and all that changes there is a double that is not
finite, which is sent as null.

The written object is then told by the field's value and the foreign members alone. On such
an object reading is exact, since none of the foreign members answers to the field: the field
finds its value, and what it leaves to the others is what was foreign before.
-/

namespace FoldingProtocol

open Decoder Decoded FoldingProtocol.Field

namespace Field

variable {f : Field} {ms : Members} {v : Value}

/-- At most one of the two spellings of a field is bound. -/
def SpelledOnce (f : Field) (ms : Members) : Prop := ms.get? f.wire = none ∨ ms.get? f.name = none

/-- The members that are neither spelling of a field, in order and without nulls. -/
def foreign (f : Field) (ms : Members) : Members :=
  Members.dropNulls (ms.filter fun m => m.1 != f.wire && m.1 != f.name)

/-- The value of a field, unless it is null, and then what is foreign to the field, as it
is sent. -/
def beside (f : Field) (v : Value) (ms : Members) : Members :=
  Members.dropNulls [(f.wire, v)] ++ (f.foreign ms).dumped

/-- `sent` has a field's value `own` and then what is foreign to the field in an object, as
it is sent, and `kept` is just the latter. That is what was foreign as it came exactly if
every double in it is finite. -/
structure Carries (f : Field) (ms : Members) (own sent : Value) (kept : Members) : Prop where
  written : sent = .obj (f.beside own ms)
  extras : kept = (f.foreign ms).dumped
  unchanged_iff : kept = f.foreign ms ↔ Value.haveFinite (f.foreign ms) = true

theorem SpelledOnce.find?_key_iff (h : f.SpelledOnce ms) {m : String × Value} (hm : m ∈ ms) :
    (f.find? ms).map Prod.fst = some m.1 ↔ m.1 = f.wire ∨ m.1 = f.name := by
  constructor
  · intro hkey
    obtain ⟨⟨key, v⟩, hfound, rfl⟩ := Option.map_eq_some_iff.mp hkey
    rcases find?_eq_some hfound with ⟨hwire, -⟩ | ⟨hname, -⟩
    · exact .inl hwire
    · exact .inr hname
  · have hbound : (ms.get? m.1).isSome = true :=
      Members.mem_keys_iff.mp (List.mem_map_of_mem hm)
    obtain ⟨v, hv⟩ := Option.isSome_iff_exists.mp hbound
    rintro (hwire | hname)
    · rw [hwire] at hv ⊢
      rw [find?, hv]
      rfl
    · rw [hname] at hv ⊢
      have hwire : ms.get? f.wire = none := h.resolve_right (hv ▸ Option.some_ne_none v)
      rw [find?, hwire, hv]
      rfl

theorem SpelledOnce.others_eq (h : f.SpelledOnce ms) :
    others [f] ms = ms.filter fun m => m.1 != f.wire && m.1 != f.name := by
  rw [others_eq_filter]
  refine List.filter_congr fun m hm => ?_
  rw [Bool.eq_iff_iff, decide_eq_true_eq, ne_eq, h.find?_key_iff hm]
  simp

theorem SpelledOnce.object_eq (h : f.SpelledOnce ms) (hkeys : ms.Distinct)
    (hfinite : v.isFinite = true) :
    (Style.wire.object [f.entry .wire v] (others [f] ms)).dumped = .obj (f.beside v ms) := by
  have hown : Members.dumped (Members.dropNulls [(f.wire, v)]) =
      Members.dropNulls [(f.wire, v)] :=
    (Value.dumpedMembers_eq_self_iff _).mpr (Members.haveFinite_dropNulls
      (Value.haveFinite_iff.mpr (List.forall_mem_singleton.mpr hfinite)))
  rw [object_kept hkeys, keptMembers, h.others_eq, ← List.singleton_append, Members.dropNulls,
    List.filter_append, Members.dumped_append]
  exact congrArg (fun own => Value.obj (own ++ (f.foreign ms).dumped)) hown

/-! ## Reading what was written -/

theorem ne_of_mem_foreign {m : String × Value} (h : m ∈ f.foreign ms) :
    m.1 ≠ f.wire ∧ m.1 ≠ f.name := by
  have hkept := List.mem_filter.mp (List.mem_filter.mp h).1
  simpa using hkept.2

theorem ne_of_mem_dumped_foreign {m : String × Value} (h : m ∈ (f.foreign ms).dumped) :
    m.1 ≠ f.wire ∧ m.1 ≠ f.name := by
  have hkey : m.1 ∈ (f.foreign ms).map Prod.fst :=
    Members.keys_dumped (f.foreign ms) ▸ List.mem_map_of_mem h
  obtain ⟨n, hn, hkey⟩ := List.mem_map.mp hkey
  exact hkey ▸ ne_of_mem_foreign hn

theorem get?_foreign_wire (f : Field) (ms : Members) :
    (f.foreign ms).dumped.get? f.wire = none :=
  Members.get?_eq_none fun hmem => by
    obtain ⟨m, hm, hkey⟩ := List.mem_map.mp hmem
    exact (ne_of_mem_dumped_foreign hm).1 hkey

theorem get?_foreign_name (f : Field) (ms : Members) :
    (f.foreign ms).dumped.get? f.name = none :=
  Members.get?_eq_none fun hmem => by
    obtain ⟨m, hm, hkey⟩ := List.mem_map.mp hmem
    exact (ne_of_mem_dumped_foreign hm).2 hkey

theorem beside_eq (f : Field) (v : Value) (ms : Members) :
    f.beside v ms =
      if v.isNull then (f.foreign ms).dumped else (f.wire, v) :: (f.foreign ms).dumped := by
  rw [beside, Members.dropNulls_cons]
  split <;> rfl

theorem find?_beside (f : Field) (v : Value) (ms : Members) :
    f.find? (f.beside v ms) = if v.isNull then none else some (f.wire, v) := by
  rw [beside_eq]
  split
  · exact find?_eq_none.mpr ⟨get?_foreign_wire f ms, get?_foreign_name f ms⟩
  · rw [find?, Members.get?_cons, if_pos rfl]

theorem valueIn_beside (f : Field) (v : Value) (ms : Members) :
    f.valueIn (f.beside v ms) = v := by
  rw [valueIn, find?_beside]
  cases v <;> rfl

theorem others_beside (f : Field) (v : Value) (ms : Members) :
    others [f] (f.beside v ms) = (f.foreign ms).dumped := by
  have hforeign : (f.foreign ms).dumped.filter (fun m => decide (some f.wire ≠ some m.1)) =
      (f.foreign ms).dumped :=
    List.filter_eq_self.mpr fun m hm =>
      decide_eq_true fun hkey => (ne_of_mem_dumped_foreign hm).1 (Option.some.inj hkey).symm
  rw [others_eq_filter, find?_beside, beside_eq]
  split
  · exact List.filter_eq_self.mpr fun _ _ => rfl
  · rw [List.filter_cons_of_neg (by simp)]
    exact hforeign

theorem SpelledOnce.carries (h : f.SpelledOnce ms) (hkeys : ms.Distinct)
    (hfinite : v.isFinite = true) :
    f.Carries ms v (Style.wire.object [f.entry .wire v] (others [f] ms)).dumped
      (f.foreign ms).dumped :=
  ⟨h.object_eq hkeys hfinite, rfl, Value.dumpedMembers_eq_self_iff _⟩

/-- A shape that keeps what its one field leaves to others reads the field's value and what
was sent of the foreign members from what was written. -/
theorem SpelledOnce.decode_object {α β : Type} {title : String} {part : Decoder β}
    {build : Option β → Members → α} {x : Option β} (h : f.SpelledOnce ms)
    (hkeys : ms.Distinct) (hfinite : v.isFinite = true)
    (hv : Decoder.nullable part v = .accepted x) :
    Decoder.object title
        (fun ms => (build · (others [f] ms)) <$> Decoder.optional f part ms)
        (Style.wire.object [f.entry .wire v] (others [f] ms)).dumped =
      .accepted (build x (f.foreign ms).dumped) := by
  rw [h.object_eq hkeys hfinite, ← others_beside f v ms]
  refine map_accepted (optional_iff.mpr ?_)
  rw [valueIn_beside, hv]

end Field

/-! ## The three shapes -/

theorem ServerCapabilities.carries {ms : Members} {m : ServerCapabilities} (hkeys : ms.Distinct)
    (h : decode (.obj ms) = .accepted m) (honce : foldingProviderField.SpelledOnce ms) :
    ∃ own again, decode (m.encode .wire) = .accepted again ∧
      foldingProviderField.Carries ms own (m.encode .wire) again.extras := by
  obtain ⟨offer, -, rfl⟩ := map_eq_accepted h
  have hoffer := nullable_ofOption FoldingProvider.readsBack offer
  have hfinite := Value.isFinite_ofOption FoldingProvider.isFinite_encode offer
  exact ⟨_, _, honce.decode_object hkeys hfinite hoffer, honce.carries hkeys hfinite⟩

theorem TextDocumentClientCapabilities.carries {ms : Members} {m : TextDocumentClientCapabilities}
    (hkeys : ms.Distinct) (h : decode (.obj ms) = .accepted m)
    (honce : foldingProviderField.SpelledOnce ms) :
    ∃ own again, decode (m.encode .wire) = .accepted again ∧
      foldingProviderField.Carries ms own (m.encode .wire) again.extras := by
  obtain ⟨folding, -, rfl⟩ := map_eq_accepted h
  have hfolding := nullable_ofOption FoldingClientCapabilities.readsBack folding
  have hfinite := Value.isFinite_ofOption FoldingClientCapabilities.isFinite_encode folding
  exact ⟨_, _, honce.decode_object hkeys hfinite hfolding, honce.carries hkeys hfinite⟩

/-- The part for text documents is written from an object of its own, whose foreign members
are carried in the same way. -/
theorem ClientCapabilities.carries {ms : Members} {m : ClientCapabilities} (hkeys : ms.Distinct)
    (h : decode (.obj ms) = .accepted m) (honce : textDocumentField.SpelledOnce ms)
    (hinner : ∀ inner : Members, textDocumentField.valueIn ms = .obj inner →
      inner.Distinct ∧
        TextDocumentClientCapabilities.foldingProviderField.SpelledOnce inner) :
    ∃ own again, decode (m.encode .wire) = .accepted again ∧
      textDocumentField.Carries ms own (m.encode .wire) again.extras ∧
      ∀ inner : Members, textDocumentField.valueIn ms = .obj inner →
        ∃ folding part, again.textDocument = some part ∧
          TextDocumentClientCapabilities.foldingProviderField.Carries
            inner folding own part.extras := by
  obtain ⟨part, hpart, rfl⟩ := map_eq_accepted h
  have hread := optional_iff.mp hpart
  cases part with
  | none =>
      have hnothing : nullable TextDocumentClientCapabilities.decode .null = .accepted none := rfl
      refine ⟨_, _, honce.decode_object hkeys rfl hnothing, honce.carries hkeys rfl, ?_⟩
      intro inner hobject
      rw [nullable_eq_none hread] at hobject
      cases hobject
  | some part =>
      have hdecode := nullable_eq_some hread
      obtain ⟨inner, hobject, -⟩ := object_eq_accepted hdecode
      rw [hobject] at hdecode
      obtain ⟨hinnerKeys, hinnerOnce⟩ := hinner inner hobject
      obtain ⟨folding, again, hagain, hcarries⟩ :=
        TextDocumentClientCapabilities.carries hinnerKeys hdecode hinnerOnce
      have hpartAgain : nullable TextDocumentClientCapabilities.decode (part.encode .wire) =
          .accepted (some again) := map_accepted hagain
      have hfinite : (part.encode .wire).isFinite = true := Value.isFinite_dumped _
      refine ⟨_, _, honce.decode_object hkeys hfinite hpartAgain,
        honce.carries hkeys hfinite, ?_⟩
      intro other hother
      obtain rfl : inner = other := Value.obj.inj (hobject.symm.trans hother)
      exact ⟨folding, again, rfl, hcarries⟩

/-! ## Both sides -/

end FoldingProtocol
