import SolMachine.Text.Blank
import SolMachine.Text.Line

/-!
# Fields of a line

`fields` : the parts of a line that stand between blanks, with their places.
-/

namespace SolMachine.Assembly
open SolMachine.Text

/-- A part of a line without blanks. -/
structure Field where
  start : Nat
  chars : List Char
  deriving Repr, Inhabited

namespace Field

def span (f : Field) : Span := Span.ofChars f.start f.chars

def text (f : Field) : String := String.ofList f.chars

end Field

/-- The fields of the characters that start at byte `pos`. -/
def splitFields (pos : Nat) (cs : List Char) : List Field :=
  match _h : cs.dropWhile isBlank with
  | [] => []
  | c :: rest =>
    let start := pos + byteLength (cs.takeWhile isBlank)
    let word := c :: rest.takeWhile fun d => !isBlank d
    ⟨start, word⟩ :: splitFields (start + byteLength word) (rest.dropWhile fun d => !isBlank d)
termination_by cs.length
decreasing_by
  have hs := congrArg List.length (List.takeWhile_append_dropWhile (p := isBlank) (l := cs))
  have hr := congrArg List.length
    (List.takeWhile_append_dropWhile (p := fun d => !isBlank d) (l := rest))
  simp only [_h, List.length_append, List.length_cons] at hs hr
  omega

def fields (l : Line) : List Field := splitFields l.start l.chars

end SolMachine.Assembly
