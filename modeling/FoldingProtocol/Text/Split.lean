/-!
# Splitting a text

The parts of a text between the places of a mark. There is always one part more
than there are marks, so joining the parts again loses nothing.
-/

namespace FoldingProtocol.Text

/-- The parts of a text between the places of a mark. -/
def splitAt (mark : Char) : List Char → List (List Char)
  | [] => [[]]
  | c :: rest =>
    match splitAt mark rest with
    | part :: parts => if c = mark then [] :: part :: parts else (c :: part) :: parts
    | [] => []

end FoldingProtocol.Text
