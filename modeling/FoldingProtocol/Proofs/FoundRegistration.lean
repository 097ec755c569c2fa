import FoldingProtocol.Proofs.DeclaredSelectors
import FoldingProtocol.Selector

/-!
# The registration that is found

A server registers for several methods in one message, and for folding perhaps more than
once. The first registration for folding decides, and it decides alone: those before it
are for other methods, and those behind it are not looked at.

What it decides is told by its options. None at all, or an object without a selector,
select every document; an object with a selector selects what its filters say; and what
cannot be read as options is refused. There is a gap in this: a value that is no object but
counts for nothing, such as an empty array, is taken for none at all and not refused.

A second gap is between the two names of the selector. An object is read with a null put
under the wire name first. A selector under the wire name takes the place of that null,
but one under the field name does not, and a null that is there hides it.
-/

namespace FoldingProtocol

open Decoded Decoder FoldingProtocol.Field

/-! ## The first registration for folding -/

namespace RegistrationParams

/-- A registration is the first one for folding. -/
def IsFirst (p : RegistrationParams) (r : Registration) : Prop :=
  r.method = FoldingRequest.method ∧ ∃ before after, p.registrations = before ++ r :: after ∧
    ∀ other ∈ before, other.method ≠ FoldingRequest.method

theorem folding?_eq_some_iff {p : RegistrationParams} {r : Registration} :
    p.folding? = some r ↔ p.IsFirst r := by
  rw [folding?, List.find?_eq_some_iff_append, IsFirst]
  simp only [beq_iff_eq, Bool.not_eq_true', beq_eq_false_iff_ne]

theorem folding?_eq_none_iff {p : RegistrationParams} :
    p.folding? = none ↔ ∀ r ∈ p.registrations, r.method ≠ FoldingRequest.method := by
  rw [folding?, List.find?_eq_none]
  simp only [beq_iff_eq]

/-! ## Options as they are read -/

section

open FoldingRegistrationOptions

variable {o : Members} {options : FoldingRegistrationOptions} {r : Registration}

/-- Options that are an object are read from what is under the wire name of the selector,
null where nothing is. What is under the field name does not count. -/
theorem decode_foldingOptions_iff (hkeys : o.Distinct) :
    FoldingRegistrationOptions.decode (foldingOptions (.obj o)) = .accepted options ↔
      SelectorIsReadFrom options.documentSelector (.ofOption (o.get? "documentSelector")) ∧
        idField.valueIn o = .ofText? options.id := by
  have hselector : (Members.putAll [("documentSelector", .null)] o).get? "documentSelector" =
      some (.ofOption (o.get? "documentSelector")) := by
    rw [Members.get?_putAll hkeys]
    cases o.get? "documentSelector" <;> rfl
  have hid : (Members.putAll [("documentSelector", .null)] o).get? "id" = o.get? "id" := by
    rw [Members.get?_putAll hkeys]
    exact Option.or_none
  have hvalue : idField.valueIn (Members.putAll [("documentSelector", .null)] o) =
      idField.valueIn o := by
    rw [valueIn, valueIn, find?_congr hid hid]
  rw [foldingOptions_obj, decode_eq_accepted, find?_selector hselector, hvalue]
  refine and_congr_left' ⟨?_, fun h => ⟨_, _, rfl, h⟩⟩
  rintro ⟨_, _, ⟨⟩, h⟩
  exact h

theorem found_of_accepted
    (h : FoldingRegistrationOptions.decode (foldingOptions r.registerOptions) =
      .accepted options) :
    (decodeFolding r).map some = .ok (some ⟨options.documentSelector, some r.id⟩) := by
  rw [decodeFolding, h]
  rfl

theorem found_of_refused
    (h : ¬ Accepts (FoldingRegistrationOptions.decode (foldingOptions r.registerOptions))) :
    ∃ issues, (decodeFolding r).map some =
      .error (.rejected ⟨FoldingRegistrationOptions.title, issues⟩) := by
  rw [decodeFolding, (FoldingRegistrationOptions.orderly_decode _).eq_rejected h]
  exact ⟨_, rfl⟩

/-- What counts for nothing is read as options without a selector. -/
theorem found_of_empty (h : r.registerOptions.isTruthy = false) :
    (decodeFolding r).map some = .ok (some ⟨none, some r.id⟩) := by
  have hnull : foldingOptions r.registerOptions = .obj [("documentSelector", .null)] := by
    unfold foldingOptions
    rw [if_pos (by rw [h]; rfl)]
  rw [decodeFolding, hnull]
  rfl

theorem not_accepts_foldingOptions {v : Value} (h : v.isTruthy = true)
    (hobject : ∀ o, v ≠ .obj o) :
    ¬ Accepts (FoldingRegistrationOptions.decode (foldingOptions v)) := by
  have hsame : foldingOptions v = v := by
    unfold foldingOptions
    rw [h]
    cases v with
    | obj o => exact absurd rfl (hobject o)
    | null | bool | int | float | str | moment | arr => rfl
  rw [hsame]
  rintro ⟨options, haccepted⟩
  obtain ⟨o, heq, -⟩ := object_eq_accepted haccepted
  exact hobject o heq

theorem findFolding_of_first {p : RegistrationParams} (hfirst : p.IsFirst r) :
    p.findFolding.1 = (decodeFolding r).map some := by
  rw [findFolding, folding?_eq_some_iff.mpr hfirst]

end

end RegistrationParams

/-! ## What it yields -/

open RegistrationParams FoldingRegistrationOptions

/-- What a registration for folding yields, told by its options. -/
structure Registration.Yields (r : Registration)
    (found : Except Refusal (Option FoldingRegistrationOptions)) : Prop where
  /-- Without options every document is selected. -/
  noOptions : r.registerOptions = .null → found = .ok (some ⟨none, some r.id⟩)
  /-- The selector of options is found, and null if they have none; the identifier is that
  of the registration. -/
  readable : ∀ {o : Members} {selector : Option (List DocumentFilter)},
    r.registerOptions = .obj o → o.Distinct →
      SelectorIsReadFrom selector (.ofOption (o.get? "documentSelector")) →
        (FoldingRegistrationOptions.idField.valueIn o).IsOpenOrText →
          found = .ok (some ⟨selector, some r.id⟩)
  /-- Options with any other selector or identifier are refused. -/
  unreadable : ∀ {o : Members}, r.registerOptions = .obj o → o.Distinct →
    ¬ ((∃ selector, SelectorIsReadFrom selector (.ofOption (o.get? "documentSelector"))) ∧
      (FoldingRegistrationOptions.idField.valueIn o).IsOpenOrText) →
        ∃ issues, found = .error (.rejected ⟨FoldingRegistrationOptions.title, issues⟩)
  /-- What is no object is refused, unless it counts for nothing. -/
  noObject : r.registerOptions ≠ .null → (∀ o, r.registerOptions ≠ .obj o) →
    if r.registerOptions.isTruthy then
      ∃ issues, found = .error (.rejected ⟨FoldingRegistrationOptions.title, issues⟩)
    else found = .ok (some ⟨none, some r.id⟩)
  /-- A null selector selects every document. -/
  everywhere : ∀ {options : FoldingRegistrationOptions}, found = .ok (some options) →
    options.documentSelector = none → ∀ uri language, options.takes uri language = .ok true

theorem FoldingRegistrationOptions.takes_of_null {options : FoldingRegistrationOptions}
    (h : options.documentSelector = none) (uri : String) (language : Option String) :
    options.takes uri language = .ok true := by
  rw [FoldingRegistrationOptions.takes, h]

theorem Registration.yields (r : Registration) : r.Yields ((decodeFolding r).map some) where
  noOptions h := found_of_empty (by rw [h]; rfl)
  readable := by
    intro o selector hobject hkeys hselector hid
    obtain ⟨id, hid⟩ := Value.isOpenOrText_iff.mp hid
    have hread : FoldingRegistrationOptions.decode (foldingOptions r.registerOptions) =
        .accepted ⟨selector, id⟩ := by
      rw [hobject]
      exact (decode_foldingOptions_iff hkeys).mpr ⟨hselector, hid⟩
    exact found_of_accepted hread
  unreadable := by
    intro o hobject hkeys hnot
    refine found_of_refused ?_
    rintro ⟨options, haccepted⟩
    rw [hobject, decode_foldingOptions_iff hkeys] at haccepted
    exact hnot ⟨⟨_, haccepted.1⟩, Value.isOpenOrText_iff.mpr ⟨_, haccepted.2⟩⟩
  noObject := by
    intro _ hobject
    split
    · next htruthy => exact found_of_refused (not_accepts_foldingOptions htruthy hobject)
    · next hempty => exact found_of_empty (Bool.eq_false_iff.mpr hempty)
  everywhere _ hnull := takes_of_null hnull

namespace RegistrationParams

theorem findFolding_eq_none_iff {p : RegistrationParams} :
    p.findFolding.1 = .ok none ↔ ∀ r ∈ p.registrations, r.method ≠ FoldingRequest.method := by
  rw [← folding?_eq_none_iff, findFolding]
  cases p.folding? with
  | none => exact ⟨fun _ => rfl, fun _ => rfl⟩
  | some r =>
      constructor
      · intro h
        obtain ⟨options, -, hsome⟩ := map_eq_ok.mp h
        cases hsome
      · intro h
        cases h

/-- A message whose registrations are all valid is read, and nothing is found in it
exactly if none of them is for folding. Otherwise the first one for folding decides alone,
by its options. -/
theorem first_registration_decides {payload : Members} {items : List Value}
    (hitems : registrationsField.valueIn payload = .arr items)
    (hvalid : ∀ item ∈ items, ∃ r : Registration, r.IsReadFrom item) :
    ∃ p, ofValue (.obj payload) = .ok p ∧
      List.Forall₂ (fun item r => r.IsReadFrom item) items p.registrations ∧
      (p.findFolding.1 = .ok none ↔
        ∀ r ∈ p.registrations, r.method ≠ FoldingRequest.method) ∧
      ∀ r, p.IsFirst r → r.Yields p.findFolding.1 := by
  obtain ⟨p, hp, hread⟩ := exists_ofValue hitems hvalid
  refine ⟨p, hp, hread, findFolding_eq_none_iff, fun r hfirst => ?_⟩
  rw [findFolding_of_first hfirst]
  exact r.yields

/-- A registration for folding, as an object. -/
def foldingItem (id : String) (options : Value) : Value :=
  .obj [("id", .str id), ("method", .str "textDocument/foldingRanges"),
    ("registerOptions", options)]

theorem isReadFrom_foldingItem (id : String) (options : Value) :
    (⟨id, "textDocument/foldingRanges", options⟩ : Registration).IsReadFrom
      (foldingItem id options) := ⟨_, rfl, rfl, rfl, rfl⟩

/-- A message that registers for folding twice, under two identifiers. -/
def twoRegistrations (options : Value) : Members :=
  [("registrations", .arr [foldingItem "fold" options, foldingItem "later" .null])]

/-- Options with a selector and an identifier of their own. -/
def typescriptOptions : Members :=
  [("documentSelector", .arr [.obj [("language", .str "typescript")]]), ("id", .str "inner")]

/-- The first of two registrations decides. With a selector it yields that, under its own
identifier; with a text for options it is refused; and an empty array, which is no options
either, yields what no options yield. -/
theorem firstOfTwo_decides :
    (∃ p, ofValue (.obj (twoRegistrations (.obj typescriptOptions))) = .ok p ∧
      p.findFolding.1 = .ok (some ⟨some [⟨some "typescript", none, none⟩], some "fold"⟩)) ∧
    (∃ p, ofValue (.obj (twoRegistrations (.str "typescript"))) = .ok p ∧
      ∃ issues, p.findFolding.1 =
        .error (.rejected ⟨FoldingRegistrationOptions.title, issues⟩)) ∧
    ∃ p, ofValue (.obj (twoRegistrations (.arr []))) = .ok p ∧
      p.findFolding.1 = .ok (some ⟨none, some "fold"⟩) := by
  have hvalid : ∀ options, ∀ item ∈ [foldingItem "fold" options, foldingItem "later" .null],
      ∃ r : Registration, r.IsReadFrom item := fun options =>
    List.forall_mem_cons.mpr ⟨⟨_, isReadFrom_foldingItem _ _⟩,
      List.forall_mem_singleton.mpr ⟨_, isReadFrom_foldingItem _ _⟩⟩
  have hfound : ∀ options, ∃ p, ofValue (.obj (twoRegistrations options)) = .ok p ∧
      (⟨"fold", "textDocument/foldingRanges", options⟩ : Registration).Yields
        p.findFolding.1 := by
    intro options
    obtain ⟨p, hp, -, -, hfirst⟩ := first_registration_decides
      (show registrationsField.valueIn (twoRegistrations options) = _ from rfl) (hvalid options)
    have hread : ofValue (.obj (twoRegistrations options)) =
        .ok ⟨[⟨"fold", "textDocument/foldingRanges", options⟩,
          ⟨"later", "textDocument/foldingRanges", .null⟩]⟩ := rfl
    obtain rfl := Except.ok.inj (hp.symm.trans hread)
    exact ⟨_, hp, hfirst _ ⟨rfl, [], _, rfl, nofun⟩⟩
  refine ⟨(hfound (.obj typescriptOptions)).imp fun p ⟨hp, h⟩ => ⟨hp, ?_⟩,
    (hfound (.str "typescript")).imp fun p ⟨hp, h⟩ => ⟨hp, h.noObject nofun nofun⟩,
    (hfound (.arr [])).imp fun p ⟨hp, h⟩ => ⟨hp, h.noObject nofun nofun⟩⟩
  have hselector : SelectorIsReadFrom (some [⟨some "typescript", none, none⟩])
      (.ofOption (typescriptOptions.get? "documentSelector")) :=
    ⟨_, rfl, .cons ⟨_, rfl, rfl, rfl, rfl⟩ .nil⟩
  exact h.readable rfl (by decide) hselector (.inr ⟨"inner", rfl⟩)

/-! ## Either spelling -/

/-- Options that can be read select the same documents where they are registered as they
do alone, unless their selector stands under its field name only and is not null. Then it
is lost, and every document is selected. The identifier is that of the registration in any
case. -/
theorem selector_is_found_iff {p : RegistrationParams} {r : Registration}
    (hfirst : p.IsFirst r) {o : Members} (hobject : r.registerOptions = .obj o)
    (hkeys : o.Distinct) {options : FoldingRegistrationOptions}
    (halone : FoldingRegistrationOptions.decode (.obj o) = .accepted options) :
    ∃ found, p.findFolding.1 = .ok (some found) ∧ found.id = some r.id ∧
      (found.documentSelector = options.documentSelector ↔
        ¬ (o.get? "documentSelector" = none ∧ options.documentSelector ≠ none)) ∧
      (found.documentSelector = options.documentSelector →
        ∀ uri language, found.takes uri language = options.takes uri language) ∧
      (found.documentSelector ≠ options.documentSelector →
        (∃ v, o.get? "document_selector" = some v ∧
          SelectorIsReadFrom options.documentSelector v) ∧
        ∀ uri language, found.takes uri language = .ok true) := by
  obtain ⟨⟨key, v, hfind, hselector⟩, hid⟩ :=
    FoldingRegistrationOptions.decode_eq_accepted.mp halone
  have hfound : ∀ {selector}, SelectorIsReadFrom selector
      (.ofOption (o.get? "documentSelector")) →
        p.findFolding.1 = .ok (some ⟨selector, some r.id⟩) := by
    intro selector hread
    rw [findFolding_of_first hfirst]
    exact r.yields.readable hobject hkeys hread (Value.isOpenOrText_iff.mpr ⟨_, hid⟩)
  rcases find?_eq_some hfind with ⟨-, hwire⟩ | ⟨-, hwire, hname⟩
  · -- The selector under the wire name is what both readers look at.
    have hwire : o.get? "documentSelector" = some v := hwire
    have hread : SelectorIsReadFrom options.documentSelector
        (.ofOption (o.get? "documentSelector")) := by
      rw [hwire]
      exact hselector
    refine ⟨_, hfound hread, rfl, iff_of_true rfl ?_, fun _ uri language => rfl, ?_⟩
    · rintro ⟨hnone, -⟩
      rw [hwire] at hnone
      cases hnone
    · exact fun hne => absurd rfl hne
  · have hwire : o.get? "documentSelector" = none := hwire
    have hread : SelectorIsReadFrom none (.ofOption (o.get? "documentSelector")) := by
      rw [hwire]
      rfl
    refine ⟨_, hfound hread, rfl, ?_, ?_, fun _ => ⟨⟨v, hname, hselector⟩, fun _ _ => rfl⟩⟩
    · rw [not_and_not_right]
      exact ⟨fun heq _ => heq.symm, fun h => (h hwire).symm⟩
    · intro heq uri language
      rw [takes_of_null heq.symm]
      rfl

/-- A selector under its field name, beside an identifier. -/
def fieldNameOptions : Members :=
  [("id", .str "inner"), ("document_selector", .arr [.obj [("language", .str "typescript")]])]

/-- Under the wire name the selector is found. Under the field name it is lost, and with it
that a document in another language was not selected. -/
theorem fieldNameSelector_is_lost :
    (∃ found, (RegistrationParams.mk [⟨"fold", "textDocument/foldingRanges",
        .obj typescriptOptions⟩]).findFolding.1 = .ok (some found) ∧
      found.documentSelector = some [⟨some "typescript", none, none⟩]) ∧
    ∃ options, FoldingRegistrationOptions.decode (.obj fieldNameOptions) = .accepted options ∧
      options.takes "file:///a.rs" (some "rust") = .ok false ∧
      ∃ found, (RegistrationParams.mk [⟨"fold", "textDocument/foldingRanges",
          .obj fieldNameOptions⟩]).findFolding.1 = .ok (some found) ∧
        found.takes "file:///a.rs" (some "rust") = .ok true := by
  have hfirst : ∀ options, (RegistrationParams.mk [⟨"fold", "textDocument/foldingRanges",
      options⟩]).IsFirst ⟨"fold", "textDocument/foldingRanges", options⟩ :=
    fun _ => ⟨rfl, [], [], rfl, nofun⟩
  refine ⟨?_, ⟨_, rfl, rfl, ?_⟩⟩
  · obtain ⟨found, hfound, -, hsame, -, -⟩ := selector_is_found_iff (hfirst _) rfl
      (by decide : typescriptOptions.Distinct) rfl
    exact ⟨found, hfound, hsame.mpr fun h => nomatch h.1⟩
  · obtain ⟨found, hfound, -, hsame, -, hlost⟩ := selector_is_found_iff (hfirst _) rfl
      (by decide : fieldNameOptions.Distinct) rfl
    exact ⟨found, hfound, (hlost fun heq => hsame.mp heq ⟨rfl, nofun⟩).2 _ _⟩

end RegistrationParams

end FoldingProtocol
