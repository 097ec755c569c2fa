import FoldingProtocol.Proofs.FileUriRoundTrip
import FoldingProtocol.Proofs.GlobMatching
import FoldingProtocol.Selector

/-!
# Filters on files

A pattern in a filter is written for paths, and what it is compared with comes out of a
URI. Between the two stand the escapes of the URI, the splitting that cuts it at some
characters, and slashes in front that do not count. For the URI of a file all of this
cancels out: the pattern is compared with the names of the file's normal form, whatever
characters they are made of.

A pattern that starts with two stars and a slash is compared twice, since it takes files
that are in no directory, too.
-/

namespace FoldingProtocol

open FilePath Uri

/-! ## Patterns -/

/-- A pattern, and what is left of it without the slashes in front. -/
structure BareForm (pattern bare : List Char) : Prop where
  spelled : ∃ slashes, pattern = List.replicate slashes '/' ++ bare
  head : bare.head? ≠ some '/'

/-- What a pattern without leading slashes takes: the texts that fit it, and, if it
starts with two stars and a slash, those that fit what follows. -/
def PatternTakes (bare path : List Char) : Prop :=
  Glob.Fits bare path ∨ ∃ rest, bare = '*' :: '*' :: '/' :: rest ∧ Glob.Fits rest path

theorem withoutLeadingSlashes_slash (cs : List Char) :
    withoutLeadingSlashes ('/' :: cs) = withoutLeadingSlashes cs := rfl

theorem withoutLeadingSlashes_of_head {cs : List Char} (h : cs.head? ≠ some '/') :
    withoutLeadingSlashes cs = cs := by
  cases cs with
  | nil => rfl
  | cons c rest => exact List.dropWhile_cons_of_neg (by simpa using h)

theorem bareForm_withoutLeadingSlashes (cs : List Char) :
    BareForm cs (withoutLeadingSlashes cs) := by
  induction cs with
  | nil => exact ⟨⟨0, rfl⟩, nofun⟩
  | cons c rest ih =>
      by_cases hc : c = '/'
      · subst hc
        obtain ⟨slashes, hrest⟩ := ih.spelled
        rw [withoutLeadingSlashes_slash]
        exact ⟨⟨slashes + 1, congrArg ('/' :: ·) hrest⟩, ih.head⟩
      · have hhead : (c :: rest).head? ≠ some '/' := fun h => hc (Option.some.inj h)
        rw [withoutLeadingSlashes_of_head hhead]
        exact ⟨⟨0, rfl⟩, hhead⟩

theorem BareForm.eq {pattern bare : List Char} (h : BareForm pattern bare) :
    withoutLeadingSlashes pattern = bare := by
  obtain ⟨slashes, rfl⟩ := h.spelled
  induction slashes with
  | zero => exact withoutLeadingSlashes_of_head h.head
  | succ slashes ih => exact ih ⟨⟨slashes, rfl⟩, h.head⟩

theorem patternTakes_iff {pattern path : List Char} :
    patternTakes pattern path = true ↔ PatternTakes (withoutLeadingSlashes pattern) path := by
  rw [patternTakes, patternCandidates, PatternTakes]
  split
  · next rest heq => simp [Glob.fits_iff, heq]
  · next hno =>
      have hrest : ¬ ∃ rest, withoutLeadingSlashes pattern = '*' :: '*' :: '/' :: rest ∧
          Glob.Fits rest path := fun ⟨rest, heq, _⟩ => hno rest heq
      simp [Glob.fits_iff, hrest]

/-! ## The path in the URI of a file -/

variable {path : List Char} {names : List (List Char)}

/-- The URI of a file is split into the scheme of files and its escaped path. -/
theorem Uri.ofText_ofNames (names : List (List Char)) :
    Reference.ofText (ofNames names) =
      .ok ⟨['f', 'i', 'l', 'e'], Percent.escape ('/' :: ['/'].intercalate names)⟩ := by
  rw [ofNames_eq]
  exact ofText_file (head?_escape _) (Percent.escaped_escape _).bounds

/-- Behind the escapes, and without the slash in front, stand the names. -/
theorem FilePath.NormalForm.path_ofNames (h : NormalForm path names) :
    withoutLeadingSlashes (Percent.unescape (Reference.plainPath
      ⟨['f', 'i', 'l', 'e'], Percent.escape ('/' :: ['/'].intercalate names)⟩)) =
        ['/'].intercalate names := by
  rw [plainPath_file, Percent.unescape_escape, withoutLeadingSlashes_slash]
  exact withoutLeadingSlashes_of_head (head?_intercalate_ne h.proper h.not_mem)

namespace DocumentFilter

theorem takes_ofNames_pattern (h : NormalForm path names) (pattern : String)
    (language : Option String) :
    (⟨none, none, some pattern⟩ : DocumentFilter).takes (.ofList (ofNames names)) language =
      .ok (patternTakes pattern.toList (['/'].intercalate names)) := by
  show takesPath ⟨none, none, some pattern⟩ (String.ofList (ofNames names)).toList = _
  rw [String.toList_ofList, takesPath]
  show (Reference.ofText (ofNames names) >>= _) = _
  rw [ofText_ofNames]
  exact congrArg (fun path => Except.ok (patternTakes pattern.toList path)) h.path_ofNames

theorem takes_ofNames_scheme (names : List (List Char)) (language : Option String) :
    (⟨none, some "file", none⟩ : DocumentFilter).takes (.ofList (ofNames names)) language =
      .ok true := by
  have hscheme : takesScheme ⟨none, some "file", none⟩ (String.ofList (ofNames names)).toList =
      true := by
    rw [String.toList_ofList, ofNames_eq]
    rfl
  rw [takes, hscheme]
  rfl

/-- Whether a filter with a pattern takes the URI of a path from the root is told by the
normal form of the path: its names, without the slash in front, fit the pattern without
its leading slashes, or what follows two stars and a slash in it. Which characters the
path has, and how they are escaped, does not matter. A filter for the scheme of files
takes the URI in any case. -/
theorem takes_uri_of_file (habsolute : path.head? = some '/') (hnull : '\x00' ∉ path)
    (directory : List (List Char)) :
    ∃ names uri, NormalForm path names ∧ ofPath? directory path = some uri ∧
      (∀ (pattern : String) (language : Option String),
        ∃ bare verdict, BareForm pattern.toList bare ∧
          (⟨none, none, some pattern⟩ : DocumentFilter).takes (.ofList uri) language =
            .ok verdict ∧
          (verdict = true ↔ PatternTakes bare (['/'].intercalate names))) ∧
      ∀ language, (⟨none, some "file", none⟩ : DocumentFilter).takes (.ofList uri) language =
        .ok true := by
  obtain ⟨names, h⟩ := exists_normalForm path
  refine ⟨names, ofNames names, h, ofPath?_of_absolute habsolute hnull directory h, ?_,
    takes_ofNames_scheme names⟩
  intro pattern language
  exact ⟨_, _, bareForm_withoutLeadingSlashes _, takes_ofNames_pattern h pattern language,
    patternTakes_iff⟩

/-- A path whose last name has a percent sign, a question mark and a letter that is not
ASCII is taken by a pattern for it, which starts with slashes and stars; and it is not
taken by a pattern for the file that the percent sign and the digits would stand for. -/
theorem awkwardPath_is_taken :
    awkwardPath.head? = some '/' ∧ '\x00' ∉ awkwardPath ∧
      ∃ uri, ofPath? [] awkwardPath = some uri ∧
        (⟨none, none, some "//**/a/%41[?]*"⟩ : DocumentFilter).takes (.ofList uri) none =
          .ok true ∧
        (⟨none, none, some "a/A*"⟩ : DocumentFilter).takes (.ofList uri) none = .ok false ∧
        (⟨none, some "file", none⟩ : DocumentFilter).takes (.ofList uri) none = .ok true := by
  have habsolute : awkwardPath.head? = some '/' := rfl
  have hnull : '\x00' ∉ awkwardPath := by decide
  obtain ⟨names, uri, hform, huri, hpattern, hscheme⟩ := takes_uri_of_file habsolute hnull []
  have hnames : names = [['a'], ['%', '4', '1', '?', 'é']] := normalForm_iff.mp hform
  subst hnames
  refine ⟨habsolute, hnull, uri, huri, ?_, ?_, hscheme none⟩
  · obtain ⟨bare, verdict, hbare, htakes, hverdict⟩ := hpattern "//**/a/%41[?]*" none
    have hrest : Glob.Fits ['a', '/', '%', '4', '1', '[', '?', ']', '*']
        ['a', '/', '%', '4', '1', '?', 'é'] := Glob.fits_iff.mp (by decide)
    rw [htakes, hverdict.mpr (.inr ⟨_, hbare.eq.symm, hrest⟩)]
  · obtain ⟨bare, verdict, hbare, htakes, hverdict⟩ := hpattern "a/A*" none
    have hno : ¬ PatternTakes ['a', '/', 'A', '*'] ['a', '/', '%', '4', '1', '?', 'é'] := by
      rintro (hfits | ⟨rest, ⟨⟩, -⟩)
      exact absurd (Glob.fits_iff.mpr hfits) (by decide)
    have hbareEq : ['a', '/', 'A', '*'] = bare := hbare.eq
    subst hbareEq
    rw [htakes, Bool.eq_false_iff.mpr fun htrue => hno (hverdict.mp htrue)]

end DocumentFilter

end FoldingProtocol
