import FoldingProtocol.Proofs.ReadRegistrations

/-!
# A selector in an offer, from the start or later

A server can name the documents that it folds in two places: in the offer among its
capabilities, and in the options of a registration that it sends later. The object may be
the same in both places, and where it can be read it is read as the same options.

The two readers part where it cannot be read, because a filter is none, or the
identifier is no text. Options that are registered later are refused then. An offer is
read as the first of its forms that it has, and the last form is any object at all. So the
offer stands, the selector is dropped, and what is left says nothing about documents.
-/

namespace FoldingProtocol

open Decoded Decoder

/-! ## Texts and filters -/

/-- Null or a text. -/
def Value.IsOpenOrText (v : Value) : Prop := v = .null ∨ ∃ s, v = .str s

theorem Value.isOpenOrText_iff {v : Value} : v.IsOpenOrText ↔ ∃ s, v = .ofText? s := by
  constructor
  · rintro (rfl | ⟨s, rfl⟩)
    · exact ⟨none, rfl⟩
    · exact ⟨some s, rfl⟩
  · rintro ⟨_ | s, rfl⟩
    · exact .inl rfl
    · exact .inr ⟨s, rfl⟩

namespace Decoder

theorem orderly_text (v : Value) : (text v).Orderly := by
  cases v <;> nofun

theorem accepts_nullable_text {v : Value} : Accepts (nullable text v) ↔ v.IsOpenOrText := by
  rw [Value.isOpenOrText_iff]
  exact exists_congr fun _ => nullable_text_iff

theorem accepts_optional_text {f : Field} {ms : Members} :
    Accepts (Decoder.optional f text ms) ↔ (f.valueIn ms).IsOpenOrText :=
  Field.accepts_optional.trans accepts_nullable_text

end Decoder

namespace DocumentFilter

/-- An object whose conditions on documents are open or texts. -/
def IsSpelled (v : Value) : Prop :=
  ∃ ms, v = .obj ms ∧ (languageField.valueIn ms).IsOpenOrText ∧
    (schemeField.valueIn ms).IsOpenOrText ∧ (patternField.valueIn ms).IsOpenOrText

theorem orderly_decode (v : Value) : (decode v).Orderly := by
  cases v with
  | obj ms =>
      exact ((Field.orderly_optional orderly_text).map.seq
        (Field.orderly_optional orderly_text)).seq (Field.orderly_optional orderly_text)
  | null | bool | int | float | str | moment | arr => exact orderly_rejected _

theorem accepts_decode {v : Value} : Accepts (decode v) ↔ IsSpelled v := by
  constructor
  · rintro ⟨f, hf⟩
    obtain ⟨ms, rfl, hlanguage, hscheme, hpattern⟩ := decode_eq_accepted.mp hf
    exact ⟨ms, rfl, Value.isOpenOrText_iff.mpr ⟨_, hlanguage⟩,
      Value.isOpenOrText_iff.mpr ⟨_, hscheme⟩, Value.isOpenOrText_iff.mpr ⟨_, hpattern⟩⟩
  · rintro ⟨ms, rfl, hlanguage, hscheme, hpattern⟩
    obtain ⟨language, hlanguage⟩ := Value.isOpenOrText_iff.mp hlanguage
    obtain ⟨scheme, hscheme⟩ := Value.isOpenOrText_iff.mp hscheme
    obtain ⟨pattern, hpattern⟩ := Value.isOpenOrText_iff.mp hpattern
    exact ⟨⟨language, scheme, pattern⟩,
      decode_eq_accepted.mpr ⟨ms, rfl, hlanguage, hscheme, hpattern⟩⟩

end DocumentFilter

theorem Field.find?_congr {f : Field} {ms other : Members} (hwire : other.get? f.wire = ms.get? f.wire)
    (hname : other.get? f.name = ms.get? f.name) : f.find? other = f.find? ms := by
  rw [find?, hwire, hname, find?]

/-! ## Options -/

namespace FoldingRegistrationOptions

/-- What a selector can be: null, which selects everything, or filters. -/
def IsSelector (v : Value) : Prop :=
  v = .null ∨ ∃ items, v = .arr items ∧ ∀ item ∈ items, DocumentFilter.IsSpelled item

variable {o : Members} {selector : Value}

theorem find?_selector (h : o.get? "documentSelector" = some selector) :
    documentSelectorField.find? o = some ("documentSelector", selector) := by
  rw [Field.find?, documentSelectorField, h]

theorem accepts_selector :
    Accepts (nullable (Decoder.list DocumentFilter.decode) selector) ↔ IsSelector selector := by
  by_cases hnull : selector = .null
  · subst hnull
    exact ⟨fun _ => .inl rfl, fun _ => ⟨none, rfl⟩⟩
  · rw [accepts_nullable hnull, accepts_list, IsSelector, or_iff_right hnull]
    simp only [DocumentFilter.accepts_decode]

theorem orderly_selector (v : Value) :
    (nullable (Decoder.list DocumentFilter.decode) v).Orderly :=
  orderly_nullable (orderly_list DocumentFilter.orderly_decode)

theorem orderly_decode (v : Value) : (decode v).Orderly := by
  cases v with
  | obj ms =>
      exact (Field.orderly_required orderly_selector).map.seq (Field.orderly_optional orderly_text)
  | null | bool | int | float | str | moment | arr => exact orderly_rejected _

theorem accepts_decode (h : o.get? "documentSelector" = some selector) :
    Accepts (decode (.obj o)) ↔ IsSelector selector ∧ (idField.valueIn o).IsOpenOrText := by
  show Accepts (_ <*> _) ↔ _
  rw [accepts_seq, accepts_map, accepts_optional_text, Field.required, find?_selector h]
  exact and_congr_left' (accepts_under.trans accepts_selector)

/-- Options with a selector are told by their selector and their identifier alone. -/
theorem decode_congr {other : Members} (h : o.get? "documentSelector" = some selector)
    (hselector : other.get? "documentSelector" = some selector)
    (hid : other.get? "id" = o.get? "id") : decode (.obj other) = decode (.obj o) := by
  have hfind : idField.find? other = idField.find? o := Field.find?_congr hid hid
  show mk <$> documentSelectorField.required _ other <*> Decoder.optional idField _ other = _
  rw [Field.required, find?_selector hselector, Decoder.optional, Field.defaulted, hfind]
  show _ = mk <$> documentSelectorField.required _ o <*> Decoder.optional idField _ o
  rw [Field.required, find?_selector h, Decoder.optional, Field.defaulted]

end FoldingRegistrationOptions

/-! ## Offered from the start -/

namespace FoldingProvider

theorem decode_registration {o : Members} {options : FoldingRegistrationOptions}
    (h : FoldingRegistrationOptions.decode (.obj o) = .accepted options) :
    decode (.obj o) = .accepted (.registration options) :=
  firstOf_of_rejected rfl (firstOf_of_accepted (map_accepted h))

/-- Any object is an offer, so the issues of one that is no options are forgotten. -/
theorem decode_marker {o : Members} {issues : List Issue}
    (h : FoldingRegistrationOptions.decode (.obj o) = .rejected issues) :
    decode (.obj o) = .accepted (.marker ⟨⟩) := by
  have hoptions : (FoldingRegistrationOptions.decode (.obj o)).map registration =
      .rejected issues := by
    rw [h]
    rfl
  exact firstOf_of_rejected rfl (firstOf_of_rejected hoptions rfl)

end FoldingProvider

theorem ServerCapabilities.ofValue_offer {o : Members} {p : FoldingProvider}
    (h : FoldingProvider.decode (.obj o) = .accepted p) :
    ofValue (.obj [("foldingProvider", .obj o)]) = .ok ⟨some p, []⟩ := by
  have hread : Decoder.optional foldingProviderField FoldingProvider.decode
      [("foldingProvider", .obj o)] = .accepted (some p) := by
    refine Field.optional_iff.mpr ?_
    show (FoldingProvider.decode (.obj o)).map some = _
    rw [h]
    rfl
  exact ofValue_obj.mpr (map_accepted hread)

/-! ## Registered later -/

theorem Members.get?_putAll {more : Members} (h : more.Distinct) (ms : Members) (key : String) :
    (ms.putAll more).get? key = (more.get? key).or (ms.get? key) := by
  induction more generalizing ms with
  | nil => rfl
  | cons m more ih =>
      obtain ⟨k, v⟩ := m
      obtain ⟨hk, hmore⟩ := List.nodup_cons.mp h
      show (putAll (put k v ms) more).get? key = _
      rw [ih hmore, get?_cons]
      by_cases hkey : k = key
      · subst hkey
        rw [if_pos rfl, get?_eq_none hk, get?_put_self]
        rfl
      · rw [if_neg hkey, get?_put_of_ne (Ne.symm hkey)]

namespace RegistrationParams

open FoldingRegistrationOptions

variable {o : Members} {selector : Value}

theorem foldingOptions_obj (o : Members) :
    foldingOptions (.obj o) = .obj (Members.putAll [("documentSelector", .null)] o) := by
  cases o <;> rfl

/-- The null that stands for a missing selector gives way to the one that is there. -/
theorem decode_foldingOptions (hkeys : o.Distinct)
    (h : o.get? "documentSelector" = some selector) :
    FoldingRegistrationOptions.decode (foldingOptions (.obj o)) =
      FoldingRegistrationOptions.decode (.obj o) := by
  rw [foldingOptions_obj]
  refine decode_congr h ?_ ?_
  · rw [Members.get?_putAll hkeys, h]
    rfl
  · rw [Members.get?_putAll hkeys]
    exact Option.or_none

theorem findFolding_of_selector (hkeys : o.Distinct)
    (h : o.get? "documentSelector" = some selector) {p : RegistrationParams} {r : Registration}
    (hfound : p.folding? = some r) (hoptions : r.registerOptions = .obj o) :
    p.findFolding.1 = ((FoldingRegistrationOptions.decode (.obj o)).titled
      FoldingRegistrationOptions.title).map fun options => some { options with id := some r.id } := by
  rw [findFolding, hfound]
  show (decodeFolding r).map some = _
  rw [decodeFolding, hoptions, decode_foldingOptions hkeys h]
  cases FoldingRegistrationOptions.decode (.obj o) <;> rfl

end RegistrationParams

/-! ## Both -/

namespace ServerCapabilities

open FoldingRegistrationOptions

/-- What becomes of an object with a selector that is offered from the start, beside what
becomes of it as the options of a registration. If the selector is null or an array of
filters, and the identifier is open or a text, it is options in both places, with the same
selector; only the identifier is that of the registration there. Otherwise it is no
options: the registration is refused for that, and the offer is taken for the bare marker,
without its selector. -/
theorem selector_is_kept_or_dropped {o : Members} {selector : Value} (hkeys : o.Distinct)
    (h : o.get? "documentSelector" = some selector) :
    let readable := IsSelector selector ∧ (idField.valueIn o).IsOpenOrText
    let offered := ofValue (.obj [("foldingProvider", .obj o)])
    let alone := Shape.foldingRegistrationOptions.decode (.obj o)
    (readable → ∃ options, alone = .ok (.foldingRegistrationOptions options) ∧
      offered = .ok ⟨some (.registration options), []⟩ ∧
      ∀ (p : RegistrationParams) (r : Registration), p.folding? = some r →
        r.registerOptions = .obj o →
          p.findFolding.1 = .ok (some { options with id := some r.id })) ∧
    (¬ readable → ∃ refusal, alone = .error refusal ∧
      offered = .ok ⟨some (.marker ⟨⟩), []⟩ ∧
      ∀ (p : RegistrationParams) (r : Registration), p.folding? = some r →
        r.registerOptions = .obj o → p.findFolding.1 = .error refusal) := by
  intro readable offered alone
  have haccepts : Accepts (FoldingRegistrationOptions.decode (.obj o)) ↔ readable :=
    accepts_decode h
  have halone : alone = ((FoldingRegistrationOptions.decode (.obj o)).map
      Model.foldingRegistrationOptions).titled FoldingRegistrationOptions.title := rfl
  refine ⟨fun hread => ?_, fun hunread => ?_⟩
  · obtain ⟨options, hoptions⟩ := haccepts.mpr hread
    refine ⟨options, ?_, ofValue_offer (FoldingProvider.decode_registration hoptions), ?_⟩
    · rw [halone, hoptions]
      rfl
    · intro p r hfound hr
      rw [RegistrationParams.findFolding_of_selector hkeys h hfound hr, hoptions]
      rfl
  · have hissues := (FoldingRegistrationOptions.orderly_decode (.obj o)).eq_rejected
      (mt haccepts.mp hunread)
    refine ⟨.rejected ⟨title, (FoldingRegistrationOptions.decode (.obj o)).issues⟩, ?_,
      ofValue_offer (FoldingProvider.decode_marker hissues), ?_⟩
    · rw [halone, hissues]
      rfl
    · intro p r hfound hr
      rw [RegistrationParams.findFolding_of_selector hkeys h hfound hr, hissues]
      rfl

/-- A selector of one filter, and null for an identifier. -/
def plainSelector : Members :=
  [("id", .null), ("documentSelector", .arr [.obj [("language", .str "typescript")]])]

/-- A selector whose second filter has a number for a pattern. -/
def numberSelector : Members :=
  [("documentSelector", .arr [.obj [("language", .str "typescript")], .obj [("pattern", .int 5)]])]

/-- The first selector arrives in both ways. The second one is refused where it is
registered and dropped where it is offered. -/
theorem numberSelector_is_dropped :
    (∃ options, ofValue (.obj [("foldingProvider", .obj plainSelector)]) =
      .ok ⟨some (.registration options), []⟩) ∧
    ofValue (.obj [("foldingProvider", .obj numberSelector)]) = .ok ⟨some (.marker ⟨⟩), []⟩ ∧
    ∃ refusal, (RegistrationParams.mk
      [⟨"fold", "textDocument/foldingRanges", .obj numberSelector⟩]).findFolding.1 =
        .error refusal := by
  have hplain := selector_is_kept_or_dropped (by decide : plainSelector.Distinct) rfl
  have hnumber := selector_is_kept_or_dropped (by decide : numberSelector.Distinct) rfl
  have hfilter : DocumentFilter.IsSpelled (.obj [("language", .str "typescript")]) :=
    ⟨_, rfl, .inr ⟨"typescript", rfl⟩, .inl rfl, .inl rfl⟩
  have hpattern : ¬ DocumentFilter.IsSpelled (.obj [("pattern", .int 5)]) := by
    rintro ⟨_, ⟨⟩, -, -, ⟨⟨⟩⟩ | ⟨_, ⟨⟩⟩⟩
  obtain ⟨options, -, hoffered, -⟩ := hplain.1
    ⟨.inr ⟨_, rfl, List.forall_mem_singleton.mpr hfilter⟩, .inl rfl⟩
  obtain ⟨refusal, -, hdropped, hrefused⟩ := hnumber.2 fun hread => by
    rcases hread.1 with hnull | ⟨items, heq, hitems⟩
    · cases hnull
    · cases heq
      exact hpattern (hitems _ (List.mem_cons_of_mem _ List.mem_cons_self))
  exact ⟨⟨options, hoffered⟩, hdropped, refusal, hrefused _ _ rfl rfl⟩

end ServerCapabilities

end FoldingProtocol
