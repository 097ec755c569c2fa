import FoldingProtocol.Selector

/-!
# What a selector says about a document

A selector asks its filters one after the other and stops at the first one that takes the
document. As long as every filter has an answer this is a disjunction, and only which
filters there are matters, not in which order they stand or how often.

But a filter need not have an answer. It looks at the language and the scheme without
reading the URI, and only if both are right and there is a pattern it has to find the path,
which a URI that cannot be split does not have. A filter that gets there is `Stuck`. From
then on the order matters: a filter that takes the document keeps the question from a stuck
one behind it, and a stuck one keeps it from all the filters behind it. The two facts on
`anyTakes` below say this for all lists, and the theorem draws the line: a selector gives a
verdict that does not depend on its order exactly if none of its filters is stuck.
-/

namespace FoldingProtocol

namespace DocumentFilter

/-- A filter that cannot say whether it takes a document: it gets to its pattern, and the
URI has no path to compare with it. -/
structure Stuck (f : DocumentFilter) (uri : String) (language : Option String) : Prop where
  language : f.takesLanguage language = true
  scheme : f.takesScheme uri.toList = true
  pattern : f.pattern ≠ none
  noPath : ∃ fault, Uri.Reference.ofText uri.toList = .error fault

variable {f : DocumentFilter} {filters : List DocumentFilter} {uri : String}
  {language : Option String}

/-! ## One filter -/

theorem takesPath_eq_error {cs : List Char} {fault : Uri.Fault} :
    f.takesPath cs = .error fault ↔
      f.pattern ≠ none ∧ Uri.Reference.ofText cs = .error fault := by
  rw [takesPath]
  cases f.pattern with
  | none => simp
  | some pattern => cases Uri.Reference.ofText cs <;> simp [bind, Except.bind]

theorem takes_eq_error {fault : Uri.Fault} :
    f.takes uri language = .error fault ↔
      f.takesLanguage language = true ∧ f.takesScheme uri.toList = true ∧
        f.pattern ≠ none ∧ Uri.Reference.ofText uri.toList = .error fault := by
  rw [takes]
  split <;> rename_i hasked
  · rw [takesPath_eq_error]
    simp_all
  · simp_all

theorem stuck_iff : f.Stuck uri language ↔ ∃ fault, f.takes uri language = .error fault := by
  simp only [takes_eq_error]
  constructor
  · rintro ⟨hlanguage, hscheme, hpattern, fault, hfault⟩
    exact ⟨fault, hlanguage, hscheme, hpattern, hfault⟩
  · rintro ⟨fault, hlanguage, hscheme, hpattern, hfault⟩
    exact ⟨hlanguage, hscheme, hpattern, fault, hfault⟩

theorem exists_verdict (h : ¬ f.Stuck uri language) :
    ∃ verdict, f.takes uri language = .ok verdict := by
  cases htakes : f.takes uri language with
  | ok verdict => exact ⟨verdict, rfl⟩
  | error fault => exact absurd (stuck_iff.mpr ⟨fault, htakes⟩) h

/-! ## One filter after the other -/

theorem anyTakes_of_no (h : f.takes uri language = .ok false) :
    anyTakes uri language (f :: filters) = anyTakes uri language filters := by
  rw [anyTakes, h]
  rfl

theorem anyTakes_of_not_no (h : f.takes uri language ≠ .ok false) :
    anyTakes uri language (f :: filters) = f.takes uri language := by
  rw [anyTakes]
  cases htakes : f.takes uri language with
  | error fault => rfl
  | ok verdict =>
      cases verdict with
      | true => rfl
      | false => exact absurd htakes h

/-- Where no filter is stuck, a selector takes what one of its filters takes. -/
theorem anyTakes_of_not_stuck (h : ∀ f ∈ filters, ¬ f.Stuck uri language) :
    ∃ verdict, anyTakes uri language filters = .ok verdict ∧
      (verdict = true ↔ ∃ f ∈ filters, f.takes uri language = .ok true) := by
  induction filters with
  | nil => exact ⟨false, rfl, by simp⟩
  | cons f rest ih =>
      obtain ⟨hf, hrest⟩ := List.forall_mem_cons.mp h
      obtain ⟨verdict, htakes⟩ := exists_verdict hf
      cases verdict with
      | true =>
          have hdecides : f.takes uri language ≠ .ok false := by simp [htakes]
          exact ⟨true, (anyTakes_of_not_no hdecides).trans htakes, by simp [htakes]⟩
      | false =>
          obtain ⟨verdict, hany, hverdict⟩ := ih hrest
          refine ⟨verdict, (anyTakes_of_no htakes).trans hany, ?_⟩
          simp [hverdict, htakes]

/-- Whatever the filters, the first one that does not say no decides. -/
theorem anyTakes_eq_iff_first {outcome : Except Uri.Fault Bool} (h : outcome ≠ .ok false) :
    anyTakes uri language filters = outcome ↔
      ∃ before f after, filters = before ++ f :: after ∧
        (∀ g ∈ before, g.takes uri language = .ok false) ∧ f.takes uri language = outcome := by
  induction filters with
  | nil =>
      constructor
      · intro hnil
        exact absurd hnil.symm h
      · rintro ⟨before, f, after, hsplit, -⟩
        simp at hsplit
  | cons g rest ih =>
      by_cases hno : g.takes uri language = .ok false
      · rw [anyTakes_of_no hno, ih]
        constructor
        · rintro ⟨before, f, after, rfl, hbefore, hf⟩
          exact ⟨g :: before, f, after, rfl, List.forall_mem_cons.mpr ⟨hno, hbefore⟩, hf⟩
        · rintro ⟨before, f, after, hsplit, hbefore, hf⟩
          cases before with
          | nil =>
              cases hsplit
              exact absurd (hf.symm.trans hno) h
          | cons first before =>
              cases hsplit
              exact ⟨before, f, after, rfl, (List.forall_mem_cons.mp hbefore).2, hf⟩
      · rw [anyTakes_of_not_no hno]
        constructor
        · intro hg
          exact ⟨[], g, rest, rfl, by simp, hg⟩
        · rintro ⟨before, f, after, hsplit, hbefore, hf⟩
          cases before with
          | nil => cases hsplit; exact hf
          | cons first before =>
              cases hsplit
              exact absurd (hbefore _ List.mem_cons_self) hno

/-- A stuck filter makes all of the filters fail if it stands first. -/
theorem anyTakes_of_stuck (h : f.Stuck uri language) :
    ∃ fault, anyTakes uri language (f :: filters) = .error fault := by
  obtain ⟨fault, hfault⟩ := stuck_iff.mp h
  have hdecides : f.takes uri language ≠ .ok false := by simp [hfault]
  exact ⟨fault, (anyTakes_of_not_no hdecides).trans hfault⟩

end DocumentFilter

/-! ## Selectors -/

namespace FoldingRegistrationOptions

/-- No selector takes every document, and a selector without filters takes none. A selector
with filters has a verdict that stays the same however they are reordered and repeated, and
it is that one of the filters takes the document, exactly if none of them is stuck. In any
case the first filter that does not say no decides, so a stuck one lets all of them fail in
some order. -/
theorem verdict_is_orderless_iff (filters : List DocumentFilter) (id : Option String)
    (uri : String) (language : Option String) :
    let select := fun selector : Option (List DocumentFilter) =>
      (⟨selector, id⟩ : FoldingRegistrationOptions).takes uri language
    select none = .ok true ∧ select (some []) = .ok false ∧
      ((∀ f ∈ filters, ¬ f.Stuck uri language) ↔
        ∃ verdict, (verdict = true ↔ ∃ f ∈ filters, f.takes uri language = .ok true) ∧
          ∀ others, (∀ f, f ∈ others ↔ f ∈ filters) → select (some others) = .ok verdict) ∧
      (∀ outcome, outcome ≠ .ok false → (select (some filters) = outcome ↔
        ∃ before f after, filters = before ++ f :: after ∧
          (∀ g ∈ before, g.takes uri language = .ok false) ∧
          f.takes uri language = outcome)) ∧
      ∀ f ∈ filters, f.Stuck uri language →
        ∃ others fault, others.Perm filters ∧ select (some others) = .error fault := by
  intro select
  have hfails : ∀ f ∈ filters, f.Stuck uri language →
      ∃ others fault, others.Perm filters ∧ select (some others) = .error fault := by
    intro f hmem hstuck
    obtain ⟨before, after, rfl⟩ := List.append_of_mem hmem
    obtain ⟨fault, hfault⟩ := DocumentFilter.anyTakes_of_stuck hstuck
    exact ⟨f :: (before ++ after), fault, List.perm_middle.symm, hfault⟩
  refine ⟨rfl, rfl, ⟨fun hanswers => ?_, ?_⟩, fun outcome =>
    DocumentFilter.anyTakes_eq_iff_first, hfails⟩
  · obtain ⟨verdict, -, hverdict⟩ := DocumentFilter.anyTakes_of_not_stuck hanswers
    refine ⟨verdict, hverdict, fun others hsame => ?_⟩
    -- Any list of the same filters has a verdict, and the same question decides it.
    have hothers : ∀ f ∈ others, ¬ f.Stuck uri language :=
      fun f hmem => hanswers f ((hsame f).mp hmem)
    obtain ⟨other, hother, hdecides⟩ := DocumentFilter.anyTakes_of_not_stuck hothers
    have heq : other = verdict := by
      rw [Bool.eq_iff_iff, hdecides, hverdict]
      simp only [hsame]
    exact heq ▸ hother
  · rintro ⟨verdict, -, hstable⟩ f hmem hstuck
    obtain ⟨others, fault, hperm, hfault⟩ := hfails f hmem hstuck
    have hverdict := hstable others fun g => hperm.mem_iff
    rw [hfault] at hverdict
    cases hverdict

/-- A filter for a pattern. -/
def scriptPattern : DocumentFilter := ⟨none, none, some "*.ts"⟩

/-- A filter for a language. -/
def scriptLanguage : DocumentFilter := ⟨some "typescript", none, none⟩

/-- A URI whose bracket is never closed is no URI to the filter with the pattern. Of the
two orders of the filters one takes the document and the other fails. -/
theorem openBracket_depends_on_order :
    scriptPattern.Stuck "file://[/a.ts" (some "typescript") ∧
      (⟨some [scriptLanguage, scriptPattern], none⟩ : FoldingRegistrationOptions).takes
        "file://[/a.ts" (some "typescript") = .ok true ∧
      (⟨some [scriptPattern, scriptLanguage], none⟩ : FoldingRegistrationOptions).takes
        "file://[/a.ts" (some "typescript") = .error .unbalanced := by
  have hfault : Uri.Reference.ofText "file://[/a.ts".toList = .error .unbalanced := rfl
  have hstuck : scriptPattern.Stuck "file://[/a.ts" (some "typescript") :=
    ⟨rfl, rfl, nofun, .unbalanced, hfault⟩
  have hpattern : scriptPattern.takes "file://[/a.ts" (some "typescript") = .error .unbalanced :=
    DocumentFilter.takes_eq_error.mpr ⟨rfl, rfl, nofun, hfault⟩
  have hlanguage : scriptLanguage.takes "file://[/a.ts" (some "typescript") = .ok true := rfl
  obtain ⟨-, -, -, hfirst, -⟩ := verdict_is_orderless_iff [scriptLanguage, scriptPattern] none
    "file://[/a.ts" (some "typescript")
  obtain ⟨-, -, -, hfirst', -⟩ := verdict_is_orderless_iff [scriptPattern, scriptLanguage] none
    "file://[/a.ts" (some "typescript")
  refine ⟨hstuck, (hfirst (.ok true) nofun).mpr ?_, (hfirst' (.error .unbalanced) nofun).mpr ?_⟩
  · exact ⟨[], scriptLanguage, [scriptPattern], rfl, by simp, hlanguage⟩
  · exact ⟨[], scriptPattern, [scriptLanguage], rfl, by simp, hpattern⟩

end FoldingRegistrationOptions

end FoldingProtocol
