import FoldingProtocol.Proofs.FilteredFiles

/-!
# Patterns for any directory

Two stars and a slash in front of a pattern are meant to say "in any directory". A star
stands for slashes, too, so the second star adds nothing, and as a plain pattern the three
characters ask for a slash somewhere: what is in no directory would not fit. This is why
such a pattern is compared twice, the second time without the three characters.

Both comparisons together say what was meant. The first one cuts the text after one of its
slashes, at any of them, and compares what follows; the second one compares the whole text.
So the pattern behind the three characters has to fit a rest of the text that starts where
a name starts, and nothing else is asked of it: it may have stars, sets and slashes of its
own.
-/

namespace FoldingProtocol

open FilePath

/-- A path, and a rest of it that starts with a name: all of it, or what follows one of its
slashes. -/
inductive StartsName : List Char → List Char → Prop where
  | whole (path : List Char) : StartsName path path
  | slash (before rest : List Char) : StartsName (before ++ '/' :: rest) rest

/-! ## Two stars and a slash -/

theorem Glob.fits_anyDirectory_iff {text : List Char} :
    Glob.Fits ['*', '*', '/'] text ↔ ∃ before, text = before ++ ['/'] := by
  have hslash : (Glob.Part.exactly '/') ≠ .run := nofun
  show Glob.StandFor [.run, .run, .exactly '/'] text ↔ _
  simp only [Glob.standFor_run_iff, Glob.standFor_part_iff hslash]
  constructor
  · rintro ⟨first, _, rfl, second, _, rfl, c, rest, rfl, hc, hrest⟩
    cases hrest
    have hc : c = '/' := by simpa [Glob.Part.accepts] using hc
    exact ⟨first ++ second, by simp [hc]⟩
  · -- What one star can skip two stars can, the second of them skipping nothing.
    rintro ⟨before, rfl⟩
    exact ⟨before, ['/'], rfl, [], ['/'], rfl, '/', [], rfl, by simp [Glob.Part.accepts], .nil⟩

theorem Glob.fits_below_iff {pattern text : List Char} :
    Glob.Fits ('*' :: '*' :: '/' :: pattern) text ↔
      ∃ before rest, text = before ++ '/' :: rest ∧ Glob.Fits pattern rest := by
  have hbracket : '[' ∉ ['*', '*', '/'] := by decide
  rw [show '*' :: '*' :: '/' :: pattern = ['*', '*', '/'] ++ pattern from rfl,
    Glob.fits_append_iff hbracket]
  simp only [Glob.fits_anyDirectory_iff]
  constructor
  · rintro ⟨_, rest, rfl, ⟨before, rfl⟩, hrest⟩
    exact ⟨before, rest, by simp, hrest⟩
  · rintro ⟨before, rest, rfl, hrest⟩
    exact ⟨before ++ ['/'], rest, by simp, ⟨before, rfl⟩, hrest⟩

theorem PatternTakes.below_iff {pattern path : List Char} :
    PatternTakes ('*' :: '*' :: '/' :: pattern) path ↔
      ∃ rest, StartsName path rest ∧ Glob.Fits pattern rest := by
  rw [PatternTakes, Glob.fits_below_iff]
  constructor
  · rintro (⟨before, rest, rfl, hfits⟩ | ⟨rest, heq, hfits⟩)
    · exact ⟨rest, .slash before rest, hfits⟩
    · cases heq
      exact ⟨path, .whole path, hfits⟩
  · rintro ⟨rest, hstarts, hfits⟩
    cases hstarts with
    | whole => exact .inr ⟨pattern, rfl, hfits⟩
    | slash before => exact .inl ⟨before, rest, rfl, hfits⟩

/-- A pattern that starts with two stars and a slash takes a path exactly if what follows
them fits the path, or fits what comes after one of its slashes: it takes what is in any
number of directories, and what is in none. -/
theorem patternTakes_any_directory (pattern path : List Char) :
    patternTakes ('*' :: '*' :: '/' :: pattern) path = true ↔
      ∃ rest, StartsName path rest ∧ Glob.fits pattern rest = true := by
  have hbare : ('*' :: '*' :: '/' :: pattern).head? ≠ some '/' := by simp
  rw [patternTakes_iff, withoutLeadingSlashes_of_head hbare, PatternTakes.below_iff]
  simp only [Glob.fits_iff]

/-- A file in two directories is taken by a pattern for its name, for its name and the
directory around it, or for all of its path; a part of a name is not enough. -/
example :
    patternTakes "**/c.ts".toList "a/b/c.ts".toList = true ∧
      patternTakes "**/b/[!x].ts".toList "a/b/c.ts".toList = true ∧
      patternTakes "**/**/c.ts".toList "a/b/c.ts".toList = true ∧
      patternTakes "**/c.ts".toList "c.ts".toList = true ∧
      patternTakes "**/c.ts".toList "a/bc.ts".toList = false := by decide

/-! ## Paths made of names

Where no name has a slash in it, the slashes of a path are those between its names, so the
rests that start with a name are what is left without the first few directories. -/

theorem startsName_of_append {name tail before rest : List Char} (hname : '/' ∉ name)
    (h : name ++ '/' :: tail = before ++ '/' :: rest) : StartsName tail rest := by
  induction name generalizing before with
  | nil =>
      cases before with
      | nil =>
          cases h
          exact .whole tail
      | cons c before =>
          cases h
          exact .slash before rest
  | cons d name ih =>
      cases before with
      | nil =>
          have hd : d = '/' := (List.cons.inj h).1
          exact absurd (hd ▸ List.mem_cons_self) hname
      | cons c before =>
          exact ih (fun hmem => hname (List.mem_cons_of_mem _ hmem)) (List.cons.inj h).2

theorem startsName_append_iff {name tail rest : List Char} (hname : '/' ∉ name) :
    StartsName (name ++ '/' :: tail) rest ↔
      rest = name ++ '/' :: tail ∨ StartsName tail rest := by
  constructor
  · generalize hpath : name ++ '/' :: tail = path
    intro h
    cases h with
    | whole => exact .inl rfl
    | slash before => exact .inr (startsName_of_append hname hpath)
  · rintro (rfl | h)
    · exact .whole _
    · cases h with
      | whole => exact .slash name tail
      | slash before =>
          rw [show name ++ '/' :: (before ++ '/' :: rest) = (name ++ '/' :: before) ++ '/' :: rest
            by simp]
          exact .slash _ _

theorem startsName_name_iff {name rest : List Char} (hname : '/' ∉ name) :
    StartsName name rest ↔ rest = name := by
  constructor
  · intro h
    cases h with
    | whole => rfl
    | slash before => exact absurd (by simp) hname
  · rintro rfl
    exact .whole rest

theorem startsName_intercalate_iff {names : List (List Char)} (h : ∀ name ∈ names, '/' ∉ name)
    {rest : List Char} :
    StartsName (['/'].intercalate names) rest ↔
      ∃ inside, inside <:+ names ∧ (inside = [] → names = []) ∧
        rest = ['/'].intercalate inside := by
  induction names with
  | nil =>
      rw [List.intercalate_nil, startsName_name_iff List.not_mem_nil]
      constructor
      · rintro rfl
        exact ⟨[], List.suffix_rfl, fun _ => rfl, rfl⟩
      · rintro ⟨inside, hsuffix, -, rfl⟩
        rw [List.suffix_nil.mp hsuffix, List.intercalate_nil]
  | cons name names ih =>
      obtain ⟨hname, hnames⟩ := List.forall_mem_cons.mp h
      cases names with
      | nil =>
          rw [List.intercalate_singleton, startsName_name_iff hname]
          constructor
          · rintro rfl
            exact ⟨[rest], List.suffix_rfl, nofun, (List.intercalate_singleton).symm⟩
          · rintro ⟨inside, hsuffix, hinside, rfl⟩
            rcases List.suffix_cons_iff.mp hsuffix with rfl | hnil
            · exact List.intercalate_singleton
            · exact nomatch hinside (List.suffix_nil.mp hnil)
      | cons next more =>
          rw [List.intercalate_cons_cons, List.append_assoc, List.singleton_append,
            startsName_append_iff hname, ih hnames]
          constructor
          · rintro (rfl | ⟨inside, hsuffix, hinside, rfl⟩)
            · exact ⟨_, List.suffix_rfl, nofun, by simp [List.intercalate_cons_cons]⟩
            · refine ⟨inside, List.suffix_cons_iff.mpr (.inr hsuffix), ?_, rfl⟩
              exact fun hnil => nomatch hinside hnil
          · rintro ⟨inside, hsuffix, hinside, rfl⟩
            rcases List.suffix_cons_iff.mp hsuffix with rfl | hsuffix
            · exact .inl (by simp [List.intercalate_cons_cons])
            · exact .inr ⟨inside, hsuffix, fun hnil => (nomatch hinside hnil), rfl⟩

namespace DocumentFilter

/-- A filter for any directory takes the URI of a file exactly if its pattern fits the
names of the file's normal form, or those that are left without the first few. -/
theorem takes_ofNames_any_directory {path : List Char} {names : List (List Char)}
    (h : NormalForm path names) (pattern : String) (language : Option String) :
    ∃ verdict, (⟨none, none, some ("**/" ++ pattern)⟩ : DocumentFilter).takes
        (.ofList (Uri.ofNames names)) language = .ok verdict ∧
      (verdict = true ↔ ∃ inside, inside <:+ names ∧ (inside = [] → names = []) ∧
        Glob.fits pattern.toList (['/'].intercalate inside) = true) := by
  refine ⟨_, takes_ofNames_pattern h _ language, ?_⟩
  have hspelled : ("**/" ++ pattern).toList = '*' :: '*' :: '/' :: pattern.toList := by simp
  have hbare : ('*' :: '*' :: '/' :: pattern.toList).head? ≠ some '/' := by simp
  rw [hspelled, patternTakes_iff, withoutLeadingSlashes_of_head hbare, PatternTakes.below_iff]
  simp only [startsName_intercalate_iff h.not_mem, Glob.fits_iff]
  constructor
  · rintro ⟨_, ⟨inside, hsuffix, hinside, rfl⟩, hfits⟩
    exact ⟨inside, hsuffix, hinside, hfits⟩
  · rintro ⟨inside, hsuffix, hinside, hfits⟩
    exact ⟨_, ⟨inside, hsuffix, hinside, rfl⟩, hfits⟩

end DocumentFilter

end FoldingProtocol
