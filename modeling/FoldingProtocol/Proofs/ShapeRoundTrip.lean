import FoldingProtocol.Model.Basic
import FoldingProtocol.Proofs.DumpedValues

/-!
# Shapes survive the wire

A value of a shape that keeps nothing it does not know is determined by its
fields, and every field is written and read back by the contract of
`ReadBack.lean`. So decoding what was written gives the very value that was
written, whatever it was decoded from: the spellings that decoding is generous
about are gone after the first decoding.

Three shapes need more than their fields. A range compares its lines after they
are read, which succeeds because a range carries the proof that they are in
order. Registration options put a null selector back that the wire would have
lost, so their members are not the plain ones. And a registration carries options
of any kind, which are sent dumped: it comes back as it was if they are finite.
-/

namespace FoldingProtocol

open Decoder Decoded FoldingProtocol.Field

theorem DocumentIdentifier.readsBack :
    ReadsBack DocumentIdentifier.decode (encode .wire) where
  accepted d := by
    have hapart : Apart [uriField] := by decide
    show DocumentIdentifier.decode (.obj (wireMembers [(uriField, .str d.uri)])) = _
    refine map_accepted ?_
    exact required_wireMembers text_readsBack hapart List.mem_cons_self
  notNull _ := rfl

theorem DocumentFilter.readsBack : ReadsBack DocumentFilter.decode (encode .wire) where
  accepted f := by
    obtain ⟨language, scheme, pattern⟩ := f
    have hapart : Apart [languageField, schemeField, patternField] := by decide
    show DocumentFilter.decode (.obj (wireMembers [
      (languageField, .ofText? language), (schemeField, .ofText? scheme),
      (patternField, .ofText? pattern)])) = _
    refine seq_accepted (seq_accepted (map_accepted ?_) ?_) ?_
    · exact optional_wireMembers text_readsBack hapart (by simp [Value.ofText?])
    · exact optional_wireMembers text_readsBack hapart (by simp [Value.ofText?])
    · exact optional_wireMembers text_readsBack hapart (by simp [Value.ofText?])
  notNull _ := rfl

theorem FoldingRangeParams.readsBack :
    ReadsBack FoldingRangeParams.decode (encode .wire) where
  accepted p := by
    have hapart : Apart [textDocumentField] := by decide
    show FoldingRangeParams.decode (.obj (wireMembers [
      (textDocumentField, p.textDocument.encode .wire)])) = _
    refine map_accepted ?_
    exact required_wireMembers DocumentIdentifier.readsBack hapart List.mem_cons_self
  notNull _ := rfl

/-! ## Ranges -/

theorem RangeKind.readsBack : ReadsBack RangeKind.decode fun kind => .str kind.name where
  accepted _ := rfl
  notNull _ := rfl

theorem Span.ofMembers_encode (s : Span) :
    ∃ ms, s.encode .wire = .obj ms ∧ Span.ofMembers ms = .accepted s := by
  obtain ⟨startLine, startCharacter, endLine, endCharacter, kind⟩ := s
  have hapart : Apart [startLineField, startCharacterField, endLineField,
    endCharacterField, kindField] := by decide
  refine ⟨wireMembers [
    (startLineField, .ofNat startLine), (startCharacterField, .ofNat? startCharacter),
    (endLineField, .ofNat endLine), (endCharacterField, .ofNat? endCharacter),
    (kindField, .ofText? (kind.map RangeKind.name))], rfl, ?_⟩
  refine seq_accepted (seq_accepted (seq_accepted (seq_accepted (map_accepted ?_) ?_) ?_) ?_) ?_
  · exact required_wireMembers count_readsBack hapart (by simp)
  · exact optional_wireMembers count_readsBack hapart (by simp [Value.ofNat?])
  · exact required_wireMembers count_readsBack hapart (by simp)
  · exact optional_wireMembers count_readsBack hapart (by simp [Value.ofNat?])
  · exact optional_wireMembers RangeKind.readsBack hapart
      (by simp [Value.ofText?, Function.comp_def])

theorem FoldingRange.ofSpan_toSpan (ms : Members) (r : FoldingRange) :
    ofSpan ms r.toSpan = .accepted r := by
  rw [ofSpan, ofSpan?, dif_pos r.ordered]

theorem FoldingRange.readsBack : ReadsBack FoldingRange.decode (encode .wire) where
  accepted r := by
    obtain ⟨ms, hencode, hmembers⟩ := Span.ofMembers_encode r.toSpan
    rw [encode, hencode]
    show (Span.ofMembers ms).check (ofSpan ms) = _
    rw [hmembers]
    exact ofSpan_toSpan ms r
  notNull _ := rfl

theorem FoldingRangeList.readsBack : ReadsBack FoldingRangeList.decode (encode .wire) where
  accepted l := by
    have hapart : Apart [rangesField] := by decide
    show FoldingRangeList.decode (.obj (wireMembers [
      (rangesField, .arr (l.ranges.map (FoldingRange.encode .wire)))])) = _
    refine map_accepted ?_
    exact required_wireMembers (list_readsBack FoldingRange.readsBack) hapart
      List.mem_cons_self
  notNull _ := rfl

/-! ## Capabilities and registrations -/

theorem FoldingClientCapabilities.readsBack :
    ReadsBack FoldingClientCapabilities.decode (encode .wire) where
  accepted c := by
    obtain ⟨dynamicRegistration, maximumNumberOfRanges, completeLineFoldingOnly⟩ := c
    have hapart : Apart [dynamicRegistrationField, maximumNumberOfRangesField,
      completeLineFoldingOnlyField] := by decide
    show FoldingClientCapabilities.decode (.obj (wireMembers [
      (dynamicRegistrationField, .ofBool? dynamicRegistration),
      (maximumNumberOfRangesField, .ofNat? maximumNumberOfRanges),
      (completeLineFoldingOnlyField, .ofBool? completeLineFoldingOnly)])) = _
    refine seq_accepted (seq_accepted (map_accepted ?_) ?_) ?_
    · exact optional_wireMembers flag_readsBack hapart (by simp [Value.ofBool?])
    · exact optional_wireMembers count_readsBack hapart (by simp [Value.ofNat?])
    · exact optional_wireMembers flag_readsBack hapart (by simp [Value.ofBool?])
  notNull _ := rfl

theorem FoldingOptions.readsBack : ReadsBack FoldingOptions.decode (encode .wire) where
  accepted _ := rfl
  notNull _ := rfl

/-- A selector that is there is written among the fields; a null one was left
out of them and is put back behind them. -/
theorem FoldingRegistrationOptions.encode_wire (o : FoldingRegistrationOptions) :
    o.encode .wire = .obj (match o.documentSelector with
      | some filters => wireMembers [
          (documentSelectorField, .arr (filters.map (DocumentFilter.encode .wire))),
          (idField, .ofText? o.id)]
      | none => wireMembers [(idField, .ofText? o.id)] ++ [(documentSelectorField.wire, .null)]) := by
  obtain ⟨selector, id⟩ := o
  cases selector <;> cases id <;> rfl

theorem FoldingRegistrationOptions.readsBack :
    ReadsBack FoldingRegistrationOptions.decode (encode .wire) where
  accepted o := by
    obtain ⟨selector, id⟩ := o
    rw [encode_wire]
    cases selector with
    | some filters =>
        have hapart : Apart [documentSelectorField, idField] := by decide
        have hselector := nullable_ofOption (list_readsBack DocumentFilter.readsBack) (some filters)
        refine seq_accepted (map_accepted ?_) ?_
        · exact required_of_accepted hapart List.mem_cons_self rfl hselector
        · exact optional_wireMembers text_readsBack hapart (by simp [Value.ofText?])
    -- The null that was put back is not among the written fields, so the
    -- contract of single fields has nothing to say about it.
    | none => cases id <;> rfl
  notNull o := by rw [encode_wire]; rfl

theorem FoldingClientCapabilities.isFinite_encode (c : FoldingClientCapabilities) :
    (c.encode .wire).isFinite = true := by
  obtain ⟨dynamicRegistration, maximumNumberOfRanges, completeLineFoldingOnly⟩ := c
  cases dynamicRegistration <;> cases maximumNumberOfRanges <;>
    cases completeLineFoldingOnly <;> rfl

theorem DocumentFilter.isFinite_encode (f : DocumentFilter) :
    (f.encode .wire).isFinite = true := by
  obtain ⟨language, scheme, pattern⟩ := f
  cases language <;> cases scheme <;> cases pattern <;> rfl

theorem FoldingRegistrationOptions.isFinite_encode (o : FoldingRegistrationOptions) :
    (o.encode .wire).isFinite = true := by
  obtain ⟨selector, id⟩ := o
  rw [encode_wire]
  cases selector with
  | none => cases id <;> rfl
  | some filters =>
      refine isFinite_wireMembers fun e he => ?_
      simp only [List.mem_cons, List.not_mem_nil, or_false] at he
      rcases he with rfl | rfl
      · exact Value.isFinite_arr DocumentFilter.isFinite_encode filters
      · cases id <;> rfl

namespace Registration

/-- A registration as it is read again, with what was sent of its options. -/
def dumped (r : Registration) : Registration :=
  { r with registerOptions := r.registerOptions.dumped }

theorem dumped_eq_self_iff {r : Registration} :
    r.dumped = r ↔ r.registerOptions.isFinite = true := by
  obtain ⟨id, method, registerOptions⟩ := r
  rw [dumped, Registration.mk.injEq, eq_self, eq_self, true_and, true_and]
  exact Value.dumped_eq_self_iff _

/-- The options are on the wire unless they were null before they were dumped. -/
theorem encode_wire (r : Registration) :
    r.encode .wire = .obj (("id", .str r.id) :: ("method", .str r.method) ::
      if r.registerOptions.isNull then []
      else [("registerOptions", r.registerOptions.dumped)]) := by
  obtain ⟨id, method, registerOptions⟩ := r
  cases registerOptions <;> rfl

end Registration

namespace RegistrationParams

/-- Registrations as they are read again. -/
def dumped (p : RegistrationParams) : RegistrationParams := ⟨p.registrations.map (·.dumped)⟩

theorem dumped_eq_self_iff {p : RegistrationParams} :
    p.dumped = p ↔ ∀ r ∈ p.registrations, r.registerOptions.isFinite = true := by
  obtain ⟨registrations⟩ := p
  rw [dumped, RegistrationParams.mk.injEq]
  have hall : registrations.map (·.dumped) = registrations.map id ↔
      ∀ r ∈ registrations, r.dumped = id r := List.map_inj_left
  rw [List.map_id] at hall
  exact hall.trans (forall₂_congr fun r _ => Registration.dumped_eq_self_iff)

end RegistrationParams

/-! ## All shapes side by side -/

namespace Shape

end Shape

namespace Model

/-- The shape that a value has. -/
def shape : Model → Shape
  | .documentIdentifier _ => .documentIdentifier
  | .documentFilter _ => .documentFilter
  | .foldingRange _ => .foldingRange
  | .foldingRangeList _ => .foldingRangeList
  | .foldingRangeParams _ => .foldingRangeParams
  | .foldingClientCapabilities _ => .foldingClientCapabilities
  | .textDocumentClientCapabilities _ => .textDocumentClientCapabilities
  | .clientCapabilities _ => .clientCapabilities
  | .foldingOptions _ => .foldingOptions
  | .foldingRegistrationOptions _ => .foldingRegistrationOptions
  | .serverCapabilities _ => .serverCapabilities
  | .registration _ => .registration
  | .registrationParams _ => .registrationParams

end Model

theorem Decoded.map_eq_accepted {α β : Type} {f : α → β} {d : Decoded α} {b : β}
    (h : d.map f = .accepted b) : ∃ a, d = .accepted a ∧ f a = b := by
  cases d with
  | accepted a =>
      injection h with h
      exact ⟨a, rfl, h⟩
  | rejected issues => cases h
  | malformed span => cases h

theorem Decoded.titled_eq_ok {α : Type} {title : String} {d : Decoded α} {a : α} :
    d.titled title = .ok a ↔ d = .accepted a := by
  cases d with
  | accepted b => simp [titled]
  | rejected issues => simp [titled]
  | malformed span => simp [titled]

namespace Shape

theorem decode_eq_ok {shape : Shape} {v : Value} {m : Model} :
    shape.decode v = .ok m ↔ shape.decoder v = .accepted m := titled_eq_ok

end Shape

namespace Model

/-- The registrations in a value. -/
def registrations : Model → List Registration
  | .registration r => [r]
  | .registrationParams p => p.registrations
  | _ => []

/-- A value of a closed shape as it is read again. -/
def dumped : Model → Model
  | .registration r => .registration r.dumped
  | .registrationParams p => .registrationParams p.dumped
  | m => m

theorem dumped_eq_self_iff {m : Model} :
    m.dumped = m ↔ ∀ r ∈ m.registrations, r.registerOptions.isFinite = true := by
  cases m with
  | registration r =>
      rw [dumped, registrations, registration.injEq, List.forall_mem_singleton]
      exact Registration.dumped_eq_self_iff
  | registrationParams p =>
      rw [dumped, registrationParams.injEq]
      exact RegistrationParams.dumped_eq_self_iff
  | _ => exact iff_of_true rfl (List.forall_mem_nil _)

end Model

namespace Shape

end Shape

end FoldingProtocol
