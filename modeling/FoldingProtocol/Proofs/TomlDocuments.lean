import FoldingProtocol.Proofs.TomlScalars

/-!
# Lines of a document

A document is read line by line, each line under fuel for those after it. What a
line comes to is told by its statement, and lines one after the other are told by
`Run`, which keeps the fuel out of sight: a text has fewer lines than characters, so
what is left of the fuel is always enough for what is left of the text.
-/

namespace FoldingProtocol.Toml

section

variable {fuel : Nat} {d e : Document} {cs more rest : List Char} {path : Path} {v : Value}

theorem statements_line (hline : statement d (skipBlanks cs) = .ok (e, rest))
    (hend : skipComment false (skipBlanks rest) = .ok ('\n' :: more)) :
    statements (fuel + 1) d cs = statements fuel e more := by
  rw [statements, hline]
  simp only [bind, Except.bind, hend]

theorem statements_atEnd (fuel : Nat) (d : Document) : statements (fuel + 1) d [] = .ok d.root := rfl

theorem statements_lastLine (hline : statement d (skipBlanks cs) = .ok (e, ['\n'])) :
    statements (fuel + 2) d cs = .ok e.root :=
  (statements_line hline rfl).trans (statements_atEnd fuel e)

theorem pair_of_value (hkey : key cs = .ok (path, '=' :: more))
    (hvalue : value (2 * (skipBlanks more).length + 2) (skipBlanks more) = .ok (v, rest))
    (hbind : d.bind path v rest = .ok e) : pair d cs = .ok (e, rest) := by
  rw [pair, hkey]
  simp only [bind, Except.bind, hvalue, hbind]

theorem statement_pair {c : Char} (hc : startsKey c = true) (d : Document) (cs : List Char) :
    statement d (c :: cs) = pair d (c :: cs) := by
  rw [statement, if_pos hc]

end

theorem joinLineEnds_of_not_mem {cs : List Char} (h : '\r' ∉ cs) : joinLineEnds cs = cs := by
  induction cs with
  | nil => rfl
  | cons c cs ih =>
      rw [List.mem_cons, not_or] at h
      rw [joinLineEnds, ih h.2]
      rintro _ rfl
      exact absurd rfl h.1

/-! ## Lines after one another -/

/-- Lines that lead from one document to another, whatever comes after them. -/
def Run (d : Document) (text : List Char) (e : Document) : Prop :=
  ∀ (fuel : Nat) (rest : List Char), (text ++ rest).length < fuel →
    ∃ left, rest.length < left ∧ statements fuel d (text ++ rest) = statements left e rest

section

variable {d e f : Document} {text more : List Char}

theorem run_nil (d : Document) : Run d [] d := fun fuel _ hfuel => ⟨fuel, hfuel, rfl⟩

theorem Run.trans (h : Run d text e) (hmore : Run e more f) : Run d (text ++ more) f := by
  intro fuel rest hfuel
  rw [List.append_assoc] at hfuel ⊢
  obtain ⟨left, hleft, hrun⟩ := h _ _ hfuel
  obtain ⟨last, hlast, hnext⟩ := hmore _ _ hleft
  exact ⟨last, hlast, hrun.trans hnext⟩

theorem run_line
    (h : ∀ rest, statement d (skipBlanks (text ++ '\n' :: rest)) = .ok (e, '\n' :: rest)) :
    Run d (text ++ ['\n']) e := by
  intro fuel rest hfuel
  rw [List.append_assoc, List.singleton_append] at hfuel ⊢
  cases fuel with
  | zero => exact absurd hfuel (Nat.not_lt_zero _)
  | succ fuel =>
      rw [List.length_append, List.length_cons] at hfuel
      exact ⟨fuel, by omega, statements_line (h rest) rfl⟩

/-- Lines up to the end of a text spell a document. -/
theorem Run.read (h : Run .empty text e) : read text = .ok e.root := by
  obtain ⟨left, hleft, hrun⟩ := h (text.length + 1) []
    (by rw [List.append_nil]; exact Nat.lt_succ_self _)
  rw [List.append_nil] at hrun
  rw [Toml.read, hrun]
  cases left with
  | zero => exact absurd hleft (Nat.not_lt_zero _)
  | succ left => exact statements_atEnd left e

end

end FoldingProtocol.Toml
