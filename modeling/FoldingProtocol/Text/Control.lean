/-!
# Control sequences

A terminal takes an escape character with an opening bracket for the start of
an order to itself: parameters, then intermediate characters, then one final
character, all of them from ASCII. Text that does not go to a terminal is
printed without such orders. A start that no final character completes is
ordinary text.
-/

namespace FoldingProtocol.Text

/-- A parameter of a control sequence: a digit, or one of `:;<=>?`. -/
def isParameter (c : Char) : Bool := '0' ≤ c && c ≤ '?'

/-- An intermediate character of a control sequence. -/
def isIntermediate (c : Char) : Bool := ' ' ≤ c && c ≤ '/'

/-- A character that completes a control sequence. -/
def isFinal (c : Char) : Bool := '@' ≤ c && c ≤ '~'

/-- What follows a control sequence, given what follows its opening bracket;
`none` if it is not completed. -/
def afterControl? (cs : List Char) : Option (List Char) :=
  match (cs.dropWhile isParameter).dropWhile isIntermediate with
  | c :: rest => if isFinal c then some rest else none
  | [] => none

theorem length_lt_of_afterControl {cs rest : List Char} (h : afterControl? cs = some rest) :
    rest.length < cs.length := by
  have hdrop : ((cs.dropWhile isParameter).dropWhile isIntermediate).length ≤ cs.length :=
    Nat.le_trans (List.dropWhile_suffix _).length_le (List.dropWhile_suffix _).length_le
  unfold afterControl? at h
  split at h
  · rename_i c tail heq
    rw [heq, List.length_cons] at hdrop
    split at h
    · cases h; exact hdrop
    · cases h
  · cases h

/-- A text without its control sequences. -/
def withoutControls : List Char → List Char
  | '\x1b' :: '[' :: inside =>
    match _h : afterControl? inside with
    | some after => withoutControls after
    | none => '\x1b' :: '[' :: withoutControls inside
  | c :: rest => c :: withoutControls rest
  | [] => []
termination_by cs => cs.length
decreasing_by
  · have := length_lt_of_afterControl _h
    simp only [List.length_cons]
    omega
  · simp only [List.length_cons]; omega
  · exact Nat.lt_succ_self _

end FoldingProtocol.Text
