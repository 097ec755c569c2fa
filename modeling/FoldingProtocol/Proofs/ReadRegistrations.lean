import FoldingProtocol.Proofs.ServerOffers

/-!
# What registrations are read from

Registrations and their options come as values. What is read from a value is said here by
relations that do not mention a reader: an object has these members, an array these items,
and what is null or left out is open. Each reader accepts exactly what its relation says,
and the one for a whole message is put together from them.
-/

namespace FoldingProtocol

open Decoded Decoder FoldingProtocol.Field

/-! ## Texts and filters -/

theorem Decoder.nullable_text_iff {v : Value} {s : Option String} :
    nullable text v = .accepted s ↔ v = .ofText? s := by
  constructor
  · intro h
    cases s with
    | none => exact nullable_eq_none h
    | some s =>
        have htext := nullable_eq_some h
        cases v with
        | str t =>
            cases htext
            rfl
        | null | bool | int | float | moment | arr | obj => cases htext
  · intro h
    subst h
    cases s <;> rfl

theorem Decoder.text_iff {v : Value} {s : String} : text v = .accepted s ↔ v = .str s := by
  constructor
  · intro h
    cases v with
    | str t =>
        cases h
        rfl
    | null | bool | int | float | moment | arr | obj => cases h
  · intro h
    subst h
    rfl

theorem Field.required_text_iff {f : Field} {ms : Members} {s : String} :
    f.required text ms = .accepted s ↔ f.valueIn ms = .str s :=
  (required_valueIn_iff fun ⟨_, h⟩ => by cases h).trans text_iff

theorem Decoder.list_iff {α : Type} {decode : Decoder α} {v : Value} {as : List α} :
    list decode v = .accepted as ↔
      ∃ items, v = .arr items ∧ List.Forall₂ (fun item a => decode item = .accepted a) items as := by
  cases v with
  | arr items =>
      refine ⟨fun h => ⟨items, rfl, itemsFrom_eq_accepted.mp h⟩, ?_⟩
      rintro ⟨_, ⟨⟩, h⟩
      exact itemsFrom_eq_accepted.mpr h
  | null | bool | int | float | str | moment | obj => exact ⟨nofun, nofun⟩

/-- A filter that is read from a value: from an object, condition by condition, where a
condition that is null or left out stays open. -/
def DocumentFilter.IsReadFrom (f : DocumentFilter) (v : Value) : Prop :=
  ∃ ms, v = .obj ms ∧ languageField.valueIn ms = .ofText? f.language ∧
    schemeField.valueIn ms = .ofText? f.scheme ∧ patternField.valueIn ms = .ofText? f.pattern

theorem DocumentFilter.decode_eq_accepted {v : Value} {f : DocumentFilter} :
    decode v = .accepted f ↔ f.IsReadFrom v := by
  constructor
  · intro h
    obtain ⟨ms, rfl, hms⟩ := object_eq_accepted h
    obtain ⟨_, pattern, htwo, hpattern, rfl⟩ := seq_eq_accepted hms
    obtain ⟨_, scheme, hone, hscheme, rfl⟩ := seq_eq_accepted htwo
    obtain ⟨language, hlanguage, rfl⟩ := map_eq_accepted hone
    exact ⟨ms, rfl, nullable_text_iff.mp (optional_iff.mp hlanguage),
      nullable_text_iff.mp (optional_iff.mp hscheme),
      nullable_text_iff.mp (optional_iff.mp hpattern)⟩
  · rintro ⟨ms, rfl, hlanguage, hscheme, hpattern⟩
    exact seq_accepted (seq_accepted
      (map_accepted (optional_iff.mpr (nullable_text_iff.mpr hlanguage)))
      (optional_iff.mpr (nullable_text_iff.mpr hscheme)))
      (optional_iff.mpr (nullable_text_iff.mpr hpattern))

/-! ## Selectors and options -/

namespace FoldingRegistrationOptions

/-- A selector that is read from a value: none from null, and filters from an array, one
from each item. -/
def SelectorIsReadFrom : Option (List DocumentFilter) → Value → Prop
  | none, v => v = .null
  | some filters, v =>
    ∃ items, v = .arr items ∧ List.Forall₂ (fun item f => f.IsReadFrom item) items filters

theorem nullable_filters_iff {v : Value} {selector : Option (List DocumentFilter)} :
    nullable (Decoder.list DocumentFilter.decode) v = .accepted selector ↔
      SelectorIsReadFrom selector v := by
  cases selector with
  | none => exact ⟨nullable_eq_none, fun h => by rw [h]; rfl⟩
  | some filters =>
      have hlist : Decoder.list DocumentFilter.decode v = .accepted filters ↔
          SelectorIsReadFrom (some filters) v := by
        rw [list_iff, SelectorIsReadFrom]
        simp only [DocumentFilter.decode_eq_accepted]
      rw [← hlist]
      refine ⟨nullable_eq_some, fun h => ?_⟩
      have hv : v ≠ .null := by
        intro hnull
        rw [hnull] at h
        cases h
      rw [nullable_of_ne hv, h]
      rfl

theorem decode_eq_accepted {ms : Members} {options : FoldingRegistrationOptions} :
    decode (.obj ms) = .accepted options ↔
      (∃ key v, documentSelectorField.find? ms = some (key, v) ∧
        SelectorIsReadFrom options.documentSelector v) ∧
      idField.valueIn ms = .ofText? options.id := by
  simp only [← nullable_filters_iff, ← nullable_text_iff, ← required_iff, ← optional_iff]
  constructor
  · intro h
    obtain ⟨_, id, hone, hid, rfl⟩ := seq_eq_accepted h
    obtain ⟨selector, hselector, rfl⟩ := map_eq_accepted hone
    exact ⟨hselector, hid⟩
  · rintro ⟨hselector, hid⟩
    exact seq_accepted (map_accepted hselector) hid

end FoldingRegistrationOptions

/-! ## Registrations in a message -/

namespace Registration

/-- A registration that is read from a value: an object with an identifier, a method, and
options, which are null where they are left out. -/
def IsReadFrom (r : Registration) (v : Value) : Prop :=
  ∃ ms, v = .obj ms ∧ idField.valueIn ms = .str r.id ∧ methodField.valueIn ms = .str r.method ∧
    registerOptionsField.valueIn ms = r.registerOptions

theorem options_iff {ms : Members} {options : Value} :
    registerOptionsField.defaulted .null .accepted ms = .accepted options ↔
      registerOptionsField.valueIn ms = options := by
  rw [defaulted, valueIn]
  cases registerOptionsField.find? ms with
  | none => exact ⟨fun h => by cases h; rfl, fun h => by rw [← h]; rfl⟩
  | some m => exact ⟨fun h => by cases h; rfl, fun h => by rw [← h]; rfl⟩

theorem decode_eq_accepted {v : Value} {r : Registration} :
    decode v = .accepted r ↔ r.IsReadFrom v := by
  constructor
  · intro h
    obtain ⟨ms, rfl, hms⟩ := object_eq_accepted h
    obtain ⟨_, options, htwo, hoptions, rfl⟩ := seq_eq_accepted hms
    obtain ⟨_, method, hone, hmethod, rfl⟩ := seq_eq_accepted htwo
    obtain ⟨id, hid, rfl⟩ := map_eq_accepted hone
    exact ⟨ms, rfl, required_text_iff.mp hid, required_text_iff.mp hmethod,
      options_iff.mp hoptions⟩
  · rintro ⟨ms, rfl, hid, hmethod, hoptions⟩
    exact seq_accepted (seq_accepted (map_accepted (required_text_iff.mpr hid))
      (required_text_iff.mpr hmethod)) (options_iff.mpr hoptions)

end Registration

namespace RegistrationParams

theorem ofValue_obj {ms : Members} {p : RegistrationParams} :
    ofValue (.obj ms) = .ok p ↔
      Decoder.list Registration.decode (registrationsField.valueIn ms) =
        .accepted p.registrations := by
  rw [ofValue, mapError_eq_ok, titled_eq_ok,
    ← required_valueIn_iff fun ⟨_, h⟩ => by cases h]
  constructor
  · intro h
    obtain ⟨registrations, hregistrations, rfl⟩ := map_eq_accepted h
    exact hregistrations
  · exact fun h => map_accepted h

/-- A message whose registrations are all valid is read, registration by registration. -/
theorem exists_ofValue {payload : Members} {items : List Value}
    (hitems : registrationsField.valueIn payload = .arr items)
    (hvalid : ∀ item ∈ items, ∃ r : Registration, r.IsReadFrom item) :
    ∃ p, ofValue (.obj payload) = .ok p ∧
      List.Forall₂ (fun item r => r.IsReadFrom item) items p.registrations := by
  have haccepts : Accepts (Decoder.list Registration.decode (.arr items)) :=
    accepts_list.mpr ⟨items, rfl, fun item hmem =>
      (hvalid item hmem).imp fun _ => Registration.decode_eq_accepted.mpr⟩
  obtain ⟨registrations, hlist⟩ := haccepts
  refine ⟨⟨registrations⟩, ofValue_obj.mpr (hitems ▸ hlist), ?_⟩
  obtain ⟨_, ⟨⟩, hread⟩ := list_iff.mp hlist
  exact hread.imp fun _ _ => Registration.decode_eq_accepted.mp

end RegistrationParams

end FoldingProtocol
