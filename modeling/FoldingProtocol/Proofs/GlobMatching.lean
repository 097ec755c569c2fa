import FoldingProtocol.Glob

/-!
# What a pattern stands for

A pattern is compared with a text by a table: for each of its parts, from the last one to
the first, the verdicts on all rests of the text at once. `StandFor` says the same without
a table. A run stands for any characters, any other part for one character that it
accepts, and the parts stand for a text if they stand for its pieces in their order.

The step from one to the other is that a row of the table is made of verdicts on shorter
and shorter texts: its head is the verdict on the text, and its tail is the row of the text
without its first character. With this a verdict is told by one equation for each kind of
part, and the table is gone.
-/

namespace FoldingProtocol.Glob

/-- Parts that stand for a text. -/
inductive StandFor : List Part → List Char → Prop where
  | nil : StandFor [] []
  | run {parts : List Part} {cs : List Char} (skipped : List Char) (h : StandFor parts cs) :
      StandFor (.run :: parts) (skipped ++ cs)
  | char {part : Part} {parts : List Part} {c : Char} {cs : List Char} (hpart : part ≠ .run)
      (hc : part.accepts c = true) (h : StandFor parts cs) : StandFor (part :: parts) (c :: cs)

/-- A text that a pattern stands for. -/
def Fits (pattern text : List Char) : Prop := StandFor (parse pattern) text

/-! ## Rows of verdicts -/

theorem verdicts_part {part : Part} (h : part ≠ .run) (parts : List Part) (cs : List Char) :
    verdicts (part :: parts) cs =
      cs.zipWith (fun c later => part.accepts c && later) (verdicts parts cs).tail ++ [false] := by
  cases part with
  | run => exact absurd rfl h
  | one | exactly | oneOf => rfl

theorem verdicts_empty (parts : List Part) : verdicts parts [] = [accepts parts []] := by
  induction parts with
  | nil => rfl
  | cons part parts ih =>
      by_cases hrun : part = .run
      · subst hrun
        rw [accepts, verdicts, ih]
        rfl
      · rw [accepts, verdicts_part hrun]
        rfl

/-- The rest of a row is the row of the rest. -/
theorem verdicts_cons (parts : List Part) (c : Char) (cs : List Char) :
    verdicts parts (c :: cs) = accepts parts (c :: cs) :: verdicts parts cs := by
  induction parts generalizing c cs with
  | nil => rfl
  | cons part parts ih =>
      by_cases hrun : part = .run
      · subst hrun
        rw [accepts, verdicts, verdicts, ih]
        rfl
      · rw [accepts, verdicts_part hrun, verdicts_part hrun, ih, List.tail_cons]
        cases cs with
        | nil => rw [verdicts_empty]; rfl
        | cons next rest => rw [ih]; rfl

/-! ## One equation for each kind of part -/

section

variable (parts : List Part) (c : Char) (cs : List Char)

theorem accepts_run_empty : accepts (.run :: parts) [] = accepts parts [] := by
  rw [accepts, verdicts, verdicts_empty]
  exact Bool.or_false _

theorem accepts_run_cons :
    accepts (.run :: parts) (c :: cs) = (accepts parts (c :: cs) || accepts (.run :: parts) cs) := by
  rw [accepts, verdicts, verdicts_cons]
  rfl

variable {part : Part} (hpart : part ≠ .run)

include hpart

theorem accepts_part_empty : accepts (part :: parts) [] = false := by
  rw [accepts, verdicts_part hpart]
  rfl

theorem accepts_part_cons :
    accepts (part :: parts) (c :: cs) = (part.accepts c && accepts parts cs) := by
  rw [accepts, verdicts_part hpart, verdicts_cons, List.tail_cons, accepts]
  cases cs with
  | nil => rw [verdicts_empty]; rfl
  | cons next rest => rw [verdicts_cons]; rfl

end

/-! ## Verdicts and what parts stand for -/

/-- A run takes any number of characters. -/
theorem accepts_run_iff {parts : List Part} {cs : List Char} :
    accepts (.run :: parts) cs = true ↔
      ∃ skipped rest, cs = skipped ++ rest ∧ accepts parts rest = true := by
  induction cs with
  | nil =>
      rw [accepts_run_empty]
      refine ⟨fun h => ⟨[], [], rfl, h⟩, fun ⟨skipped, rest, heq, h⟩ => ?_⟩
      obtain ⟨rfl, rfl⟩ := List.append_eq_nil_iff.mp heq.symm
      exact h
  | cons c cs ih =>
      rw [accepts_run_cons, Bool.or_eq_true, ih]
      constructor
      · rintro (h | ⟨skipped, rest, rfl, h⟩)
        · exact ⟨[], c :: cs, rfl, h⟩
        · exact ⟨c :: skipped, rest, rfl, h⟩
      · rintro ⟨skipped, rest, heq, h⟩
        cases skipped with
        | nil =>
            rw [List.nil_append] at heq
            exact .inl (heq ▸ h)
        | cons first skipped =>
            injection heq with _ hrest
            exact .inr ⟨skipped, rest, hrest, h⟩

/-- Any other part takes one character. -/
theorem accepts_part_iff {part : Part} (hpart : part ≠ .run) {parts : List Part}
    {cs : List Char} :
    accepts (part :: parts) cs = true ↔
      ∃ c rest, cs = c :: rest ∧ part.accepts c = true ∧ accepts parts rest = true := by
  cases cs with
  | nil =>
      rw [accepts_part_empty parts hpart]
      exact ⟨nofun, nofun⟩
  | cons c cs =>
      rw [accepts_part_cons parts c cs hpart, Bool.and_eq_true]
      refine ⟨fun ⟨hc, h⟩ => ⟨c, cs, rfl, hc, h⟩, ?_⟩
      rintro ⟨_, _, ⟨⟩, hc, h⟩
      exact ⟨hc, h⟩

theorem standFor_run_iff {parts : List Part} {cs : List Char} :
    StandFor (.run :: parts) cs ↔ ∃ skipped rest, cs = skipped ++ rest ∧ StandFor parts rest := by
  constructor
  · intro h
    cases h with
    | run skipped h => exact ⟨skipped, _, rfl, h⟩
    | char hpart => exact absurd rfl hpart
  · rintro ⟨skipped, rest, rfl, h⟩
    exact .run skipped h

theorem standFor_part_iff {part : Part} (hpart : part ≠ .run) {parts : List Part}
    {cs : List Char} :
    StandFor (part :: parts) cs ↔
      ∃ c rest, cs = c :: rest ∧ part.accepts c = true ∧ StandFor parts rest := by
  constructor
  · intro h
    cases h with
    | run => exact absurd rfl hpart
    | char _ hc h => exact ⟨_, _, rfl, hc, h⟩
  · rintro ⟨c, rest, rfl, hc, h⟩
    exact .char hpart hc h

theorem accepts_iff_standFor {parts : List Part} {cs : List Char} :
    accepts parts cs = true ↔ StandFor parts cs := by
  induction parts generalizing cs with
  | nil =>
      cases cs with
      | nil => exact ⟨fun _ => .nil, fun _ => rfl⟩
      | cons c cs => exact ⟨nofun, nofun⟩
  | cons part parts ih =>
      by_cases hrun : part = .run
      · subst hrun
        rw [accepts_run_iff, standFor_run_iff]
        simp only [ih]
      · rw [accepts_part_iff hrun, standFor_part_iff hrun]
        simp only [ih]

/-- A text fits a pattern exactly if the parts of the pattern stand for it. -/
theorem fits_iff {pattern text : List Char} : fits pattern text = true ↔ Fits pattern text :=
  accepts_iff_standFor

/-! ## One pattern after another

Parts stand for a text one after the other, so a pattern can be cut anywhere between two of
its parts. Only a bracket reaches further than one character, and it reaches forward: what
stands before the first bracket is read in the same way whatever follows. -/

theorem standFor_append_iff {front back : List Part} {cs : List Char} :
    StandFor (front ++ back) cs ↔
      ∃ before after, cs = before ++ after ∧ StandFor front before ∧ StandFor back after := by
  induction front generalizing cs with
  | nil =>
      constructor
      · intro h
        exact ⟨[], cs, rfl, .nil, h⟩
      · rintro ⟨before, after, rfl, hfront, hback⟩
        cases hfront
        exact hback
  | cons part parts ih =>
      by_cases hrun : part = .run
      · subst hrun
        simp only [List.cons_append, standFor_run_iff, ih]
        constructor
        · rintro ⟨skipped, rest, rfl, before, after, rfl, hfront, hback⟩
          exact ⟨skipped ++ before, after, by simp, ⟨skipped, before, rfl, hfront⟩, hback⟩
        · rintro ⟨before, after, rfl, ⟨skipped, rest, rfl, hfront⟩, hback⟩
          exact ⟨skipped, rest ++ after, by simp, rest, after, rfl, hfront, hback⟩
      · simp only [List.cons_append, standFor_part_iff hrun, ih]
        constructor
        · rintro ⟨c, rest, rfl, hc, before, after, rfl, hfront, hback⟩
          exact ⟨c :: before, after, rfl, ⟨c, before, rfl, hc, hfront⟩, hback⟩
        · rintro ⟨before, after, rfl, ⟨c, rest, rfl, hc, hfront⟩, hback⟩
          exact ⟨c, rest ++ after, rfl, hc, rest, after, rfl, hfront, hback⟩

theorem parse_append {front : List Char} (h : '[' ∉ front) (rest : List Char) :
    parse (front ++ rest) = parse front ++ parse rest := by
  induction front with
  | nil => rfl
  | cons c front ih =>
      have hc : c ≠ '[' := fun heq => h (heq ▸ List.mem_cons_self)
      have hparse := ih fun hmem => h (List.mem_cons_of_mem _ hmem)
      simp only [parse, List.cons_append, List.length_cons, partsFrom, if_neg hc] at hparse ⊢
      split
      · rw [hparse, List.cons_append]
      · split
        · rw [hparse, List.cons_append]
        · rw [hparse, List.cons_append]

/-- A text fits two patterns in a row if it can be cut in two that fit one each. -/
theorem fits_append_iff {front : List Char} (h : '[' ∉ front) {pattern text : List Char} :
    Fits (front ++ pattern) text ↔
      ∃ before after, text = before ++ after ∧ Fits front before ∧ Fits pattern after := by
  rw [Fits, parse_append h]
  exact standFor_append_iff

end FoldingProtocol.Glob
