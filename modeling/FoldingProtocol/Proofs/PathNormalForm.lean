import FoldingProtocol.Uri.FilePath
import Mathlib.Logic.Relation

/-!
# The normal form of a path

A path from the root is made simpler piece by piece: empty pieces and single dots
go, a name goes with the two dots behind it, and two dots at the root go, since
nothing is above it. The normal form is what cannot be made simpler, which is to
say that every piece left is a proper name. `Simplifies` allows these steps in any
order and at any place, and says nothing about how a path is resolved; that
resolving finds the normal form, and that there is no other, is what is proved.

Resolving goes through the pieces from left to right and holds the names so far,
which are proper. So it is itself an order in which to simplify, and that the
order does not matter follows from the other side: no step changes what resolving
finds, and nothing changes proper names.
-/

namespace FoldingProtocol

/-! ## Pieces between marks -/

namespace Text

theorem splitAt_ne_nil (mark : Char) (cs : List Char) : splitAt mark cs ≠ [] := by
  induction cs with
  | nil => exact nofun
  | cons c rest ih =>
      rw [splitAt]
      split
      · split <;> exact nofun
      · next h => exact absurd h ih

theorem splitAt_mark (mark : Char) (rest : List Char) :
    splitAt mark (mark :: rest) = [] :: splitAt mark rest := by
  rw [splitAt]
  split
  · next h => rw [if_pos rfl, h]
  · next h => exact absurd h (splitAt_ne_nil mark rest)

theorem splitAt_cons_of_ne {mark c : Char} (hc : c ≠ mark) {rest part : List Char}
    {parts : List (List Char)} (h : splitAt mark rest = part :: parts) :
    splitAt mark (c :: rest) = (c :: part) :: parts := by
  rw [splitAt, h]
  exact if_neg hc

theorem splitAt_append {mark : Char} {part : List Char} (hpart : mark ∉ part)
    {rest first : List Char} {parts : List (List Char)}
    (h : splitAt mark rest = first :: parts) :
    splitAt mark (part ++ rest) = (part ++ first) :: parts := by
  induction part with
  | nil => exact h
  | cons c part ih =>
      rw [List.mem_cons, not_or] at hpart
      exact splitAt_cons_of_ne (Ne.symm hpart.1) (ih hpart.2)

/-- A part before a mark is the first one. -/
theorem splitAt_append_mark {mark : Char} {part : List Char} (hpart : mark ∉ part)
    (rest : List Char) : splitAt mark (part ++ mark :: rest) = part :: splitAt mark rest := by
  rw [splitAt_append hpart (splitAt_mark mark rest), List.append_nil]

theorem splitAt_of_not_mem {mark : Char} {part : List Char} (hpart : mark ∉ part) :
    splitAt mark part = [part] := by
  have hnil : splitAt mark [] = [[]] := rfl
  have h := splitAt_append hpart hnil
  rwa [List.append_nil] at h

theorem not_mem_of_mem_splitAt {mark : Char} {cs part : List Char}
    (h : part ∈ splitAt mark cs) : mark ∉ part := by
  induction cs generalizing part with
  | nil => rw [List.mem_singleton.mp h]; exact nofun
  | cons c rest ih =>
      by_cases hc : c = mark
      · subst hc
        rw [splitAt_mark] at h
        rcases List.mem_cons.mp h with rfl | h
        · exact nofun
        · exact ih h
      · obtain ⟨first, parts, hsplit⟩ := List.exists_cons_of_ne_nil (splitAt_ne_nil mark rest)
        rw [splitAt_cons_of_ne hc hsplit] at h
        rw [hsplit] at ih
        rcases List.mem_cons.mp h with rfl | h
        · rw [List.mem_cons, not_or]
          exact ⟨Ne.symm hc, ih List.mem_cons_self⟩
        · exact ih (List.mem_cons_of_mem _ h)

theorem splitAt_intercalate {mark : Char} {parts : List (List Char)} (hne : parts ≠ [])
    (hparts : ∀ part ∈ parts, mark ∉ part) :
    splitAt mark ([mark].intercalate parts) = parts := by
  induction parts with
  | nil => exact absurd rfl hne
  | cons part rest ih =>
      have hpart := hparts part List.mem_cons_self
      cases rest with
      | nil =>
          rw [List.intercalate_singleton]
          exact splitAt_of_not_mem hpart
      | cons next rest =>
          rw [List.intercalate_cons_cons, List.append_assoc]
          show splitAt mark (part ++ mark :: [mark].intercalate (next :: rest)) = _
          rw [splitAt_append_mark hpart,
            ih nofun fun p hp => hparts p (List.mem_cons_of_mem _ hp)]

end Text

namespace FilePath

/-! ## Simplifying -/

/-- A name that leads somewhere: not empty, and not dots that mean here or up. -/
def IsProper (name : List Char) : Prop := name ≠ [] ∧ name ≠ ['.'] ∧ name ≠ ['.', '.']

/-- One step towards the normal form of a path from the root. -/
inductive Simplifies : List (List Char) → List (List Char) → Prop where
  | empty (before after : List (List Char)) : Simplifies (before ++ [] :: after) (before ++ after)
  | here (before after : List (List Char)) :
      Simplifies (before ++ ['.'] :: after) (before ++ after)
  | up {name : List Char} (h : IsProper name) (before after : List (List Char)) :
      Simplifies (before ++ name :: ['.', '.'] :: after) (before ++ after)
  | top (after : List (List Char)) : Simplifies (['.', '.'] :: after) after

/-- The names that are left of a path when nothing is left to simplify. -/
structure NormalForm (path : List Char) (names : List (List Char)) : Prop where
  reached : Relation.ReflTransGen Simplifies (Text.splitAt '/' path) names
  proper : ∀ name ∈ names, IsProper name

/-! ## Resolving -/

/-- Goes on from a directory by all pieces. -/
def enterAll (names pieces : List (List Char)) : List (List Char) :=
  (pieces.filter isName).foldl enter names

theorem resolve_of_absolute {path : List Char} (h : path.head? = some '/')
    (directory : List (List Char)) :
    (ofText path).resolve directory = enterAll [] (Text.splitAt '/' path) := by
  have hroot : rootOf path ≠ .relative := by
    rw [List.head?_eq_some_iff] at h
    obtain ⟨rest, rfl⟩ := h
    unfold rootOf
    split
    · exact nofun
    · exact nofun
    · exact nofun
    · next hno => exact absurd rfl (hno rest)
  rw [resolve, ofText]
  simp only [if_neg hroot]
  rfl

theorem isName_iff {piece : List Char} : isName piece = true ↔ piece ≠ [] ∧ piece ≠ ['.'] := by
  simp [isName]

theorem IsProper.isName {name : List Char} (h : IsProper name) : isName name = true :=
  isName_iff.mpr ⟨h.1, h.2.1⟩

theorem IsProper.enter {name : List Char} (h : IsProper name) (names : List (List Char)) :
    enter names name = names ++ [name] := if_neg h.2.2

theorem enterAll_append (names first second : List (List Char)) :
    enterAll names (first ++ second) = enterAll (enterAll names first) second := by
  rw [enterAll, List.filter_append, List.foldl_append]
  rfl

theorem enterAll_cons_name {piece : List Char} (h : isName piece = true)
    (names rest : List (List Char)) :
    enterAll names (piece :: rest) = enterAll (enter names piece) rest := by
  rw [enterAll, List.filter_cons_of_pos h]
  rfl

theorem enterAll_cons_other {piece : List Char} (h : isName piece = false)
    (names rest : List (List Char)) : enterAll names (piece :: rest) = enterAll names rest := by
  rw [enterAll, List.filter_cons_of_neg (by simp [h])]
  rfl

theorem enterAll_cons_proper {name : List Char} (h : IsProper name)
    (names rest : List (List Char)) :
    enterAll names (name :: rest) = enterAll (names ++ [name]) rest := by
  rw [enterAll_cons_name h.isName, h.enter]

/-- Two dots after at least one name take it away. -/
theorem enterAll_cons_up (names : List (List Char)) (last : List Char)
    (rest : List (List Char)) :
    enterAll (names ++ [last]) (['.', '.'] :: rest) = enterAll names rest := by
  rw [enterAll_cons_name rfl, enter, if_pos rfl, List.dropLast_concat]

theorem enterAll_of_proper {proper : List (List Char)} (h : ∀ name ∈ proper, IsProper name)
    (names : List (List Char)) : enterAll names proper = names ++ proper := by
  induction proper generalizing names with
  | nil => exact (List.append_nil names).symm
  | cons name rest ih =>
      rw [enterAll_cons_proper (h name List.mem_cons_self),
        ih (fun other hmem => h other (List.mem_cons_of_mem _ hmem)), List.append_assoc]
      rfl

/-- No step changes what resolving finds. -/
theorem enterAll_of_simplifies {pieces simpler : List (List Char)}
    (h : Simplifies pieces simpler) : enterAll [] pieces = enterAll [] simpler := by
  cases h with
  | empty before after =>
      rw [enterAll_append, enterAll_append, enterAll_cons_other rfl]
  | here before after =>
      rw [enterAll_append, enterAll_append, enterAll_cons_other rfl]
  | up hname before after =>
      rw [enterAll_append, enterAll_append, enterAll_cons_proper hname, enterAll_cons_up]
  | top =>
      have hname : isName ['.', '.'] = true := rfl
      exact enterAll_cons_name hname [] simpler

theorem enterAll_of_reached {pieces simpler : List (List Char)}
    (h : Relation.ReflTransGen Simplifies pieces simpler) :
    enterAll [] pieces = enterAll [] simpler := by
  induction h with
  | refl => rfl
  | tail _ hstep ih => exact ih.trans (enterAll_of_simplifies hstep)

/-- Resolving is a way to simplify: what is done so far stands in front, in
proper names, and the next piece either joins it or meets a step. -/
theorem reached_enterAll {names : List (List Char)} (hnames : ∀ name ∈ names, IsProper name)
    (pieces : List (List Char)) :
    Relation.ReflTransGen Simplifies (names ++ pieces) (enterAll names pieces) ∧
      ∀ name ∈ enterAll names pieces, IsProper name := by
  induction pieces generalizing names with
  | nil =>
      rw [List.append_nil]
      exact ⟨.refl, hnames⟩
  | cons piece rest ih =>
      by_cases hempty : piece = []
      · subst hempty
        rw [enterAll_cons_other rfl]
        exact ⟨.head (.empty names rest) (ih hnames).1, (ih hnames).2⟩
      by_cases hhere : piece = ['.']
      · subst hhere
        rw [enterAll_cons_other rfl]
        exact ⟨.head (.here names rest) (ih hnames).1, (ih hnames).2⟩
      by_cases hup : piece = ['.', '.']
      · subst hup
        rcases List.eq_nil_or_concat names with rfl | ⟨before, last, rfl⟩
        · exact ⟨.head (.top rest) (ih hnames).1, (ih hnames).2⟩
        · rw [List.concat_eq_append] at hnames ⊢
          have hlast : IsProper last := hnames last (List.mem_append_right _ List.mem_cons_self)
          have hbefore : ∀ name ∈ before, IsProper name :=
            fun name hmem => hnames name (List.mem_append_left _ hmem)
          rw [enterAll_cons_up, List.append_assoc]
          exact ⟨.head (.up hlast before rest) (ih hbefore).1, (ih hbefore).2⟩
      · have hproper : IsProper piece := ⟨hempty, hhere, hup⟩
        have hmore : ∀ name ∈ names ++ [piece], IsProper name := by
          intro name hmem
          rcases List.mem_append.mp hmem with hmem | hmem
          · exact hnames name hmem
          · rw [List.mem_singleton.mp hmem]
            exact hproper
        rw [enterAll_cons_proper hproper]
        have hrest := ih hmore
        rw [List.append_assoc] at hrest
        exact hrest

/-- There is one normal form, and resolving finds it. -/
theorem normalForm_iff {path : List Char} {names : List (List Char)} :
    NormalForm path names ↔ names = enterAll [] (Text.splitAt '/' path) := by
  constructor
  · intro h
    rw [enterAll_of_reached h.reached, enterAll_of_proper h.proper]
    rfl
  · rintro rfl
    have hnone : ∀ name ∈ ([] : List (List Char)), IsProper name := nofun
    obtain ⟨hreached, hproper⟩ := reached_enterAll hnone (Text.splitAt '/' path)
    exact ⟨hreached, hproper⟩

theorem exists_normalForm (path : List Char) : ∃ names, NormalForm path names :=
  ⟨_, normalForm_iff.mpr rfl⟩

theorem mem_of_mem_enterAll {names pieces : List (List Char)} {name : List Char}
    (h : name ∈ enterAll names pieces) : name ∈ names ∨ name ∈ pieces := by
  induction pieces generalizing names with
  | nil => exact .inl h
  | cons piece rest ih =>
      by_cases hpiece : isName piece = true
      · rw [enterAll_cons_name hpiece] at h
        rcases ih h with hmem | hmem
        · rw [enter] at hmem
          split at hmem
          · exact .inl (List.dropLast_subset _ hmem)
          · rcases List.mem_append.mp hmem with hmem | hmem
            · exact .inl hmem
            · exact .inr (List.mem_singleton.mp hmem ▸ List.mem_cons_self)
        · exact .inr (List.mem_cons_of_mem _ hmem)
      · rw [enterAll_cons_other (Bool.eq_false_iff.mpr hpiece)] at h
        exact (ih h).imp id (List.mem_cons_of_mem _)

theorem NormalForm.not_mem {path : List Char} {names : List (List Char)}
    (h : NormalForm path names) : ∀ name ∈ names, '/' ∉ name := by
  rw [normalForm_iff.mp h]
  intro name hmem
  rcases mem_of_mem_enterAll hmem with hmem | hmem
  · cases hmem
  · exact Text.not_mem_of_mem_splitAt hmem

/-! ## Reading a path from the root -/

theorem text_single (names : List (List Char)) :
    (⟨.single, names⟩ : FilePath).text = '/' :: ['/'].intercalate names := rfl

/-- The names of a normal form do not start with a slash: that would need a first name
that is empty or starts with one. -/
theorem head?_intercalate_ne {names : List (List Char)} (hproper : ∀ name ∈ names, IsProper name)
    (hslash : ∀ name ∈ names, '/' ∉ name) : (['/'].intercalate names).head? ≠ some '/' := by
  cases names with
  | nil => simp
  | cons name rest =>
      have hmem : name ∈ name :: rest := List.mem_cons_self
      obtain ⟨c, tail, rfl⟩ := List.exists_cons_of_ne_nil (hproper name hmem).1
      have hc : c ≠ '/' := fun h => hslash _ hmem (h ▸ List.mem_cons_self)
      cases rest with
      | nil => simpa [List.intercalate_singleton] using hc
      | cons next rest => simpa [List.intercalate_cons_cons] using hc

theorem rootOf_single {names : List (List Char)} (hproper : ∀ name ∈ names, IsProper name)
    (hslash : ∀ name ∈ names, '/' ∉ name) :
    rootOf ('/' :: ['/'].intercalate names) = .single := by
  have hhead := head?_intercalate_ne hproper hslash
  generalize ['/'].intercalate names = cs at hhead
  unfold rootOf
  split
  · rfl
  · next heq => cases heq; exact absurd rfl hhead
  · rfl
  · next hno => exact absurd rfl (hno cs)

theorem namesOf_single {names : List (List Char)} (hproper : ∀ name ∈ names, IsProper name)
    (hslash : ∀ name ∈ names, '/' ∉ name) :
    namesOf ('/' :: ['/'].intercalate names) = names := by
  rw [namesOf, Text.splitAt_mark, List.filter_cons_of_neg (by simp [isName])]
  by_cases hne : names = []
  · subst hne; rfl
  · rw [Text.splitAt_intercalate hne hslash]
    exact List.filter_eq_self.mpr fun name hmem => (hproper name hmem).isName

/-- The normal form of a path is read back from its text. -/
theorem NormalForm.ofText_text {path : List Char} {names : List (List Char)}
    (h : NormalForm path names) :
    ofText (⟨.single, names⟩ : FilePath).text = ⟨.single, names⟩ := by
  rw [text_single, ofText, rootOf_single h.proper h.not_mem, namesOf_single h.proper h.not_mem]

end FilePath

end FoldingProtocol
