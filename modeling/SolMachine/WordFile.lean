import SolMachine.Decimal
import SolMachine.Limits
import SolMachine.Text.Blank

/-!
# Word files

A word file holds the words of a program as decimal numbers, one on each line.

* `WordFile.write` : the text of a list of words, without a line feed at its end;
* `WordFile.read` : the words of a text; blanks around a line and at the end of the text do not
  count, but a blank line within it is an error.
-/

namespace SolMachine.WordFile
open SolMachine.Text

/-- Why a text is no word file that fits in memory. -/
inductive ReadError where
  /-- The line with that number, from 0, names no word. -/
  | badLine (line : Nat) (why : Decimal.ReadError)
  | tooLarge (words : Nat)
  deriving DecidableEq, Repr, Inhabited

namespace ReadError

def message : ReadError → String
  | badLine line why => "invalid word on line " ++ Nat.repr (line + 1) ++ ": " ++ why.message
  | tooLarge words => "object file has " ++ Nat.repr words ++ " words, which does not fit in memory"

def help : ReadError → String
  | badLine .. => "every line of an object file is one decimal word"
  | tooLarge _ => "memory holds at most " ++ Nat.repr maxWords ++ " words"

/-- The error of a single number that lies behind it, if one does. -/
def cause : ReadError → Option String
  | badLine _ why => some why.message
  | tooLarge _ => none

end ReadError

def write (words : List Word) : String :=
  "\n".intercalate (words.map fun w => Decimal.write w.toInt)

/-- Reads lines as words, where the first one has the given number; the first bad line counts. -/
def readLines (number : Nat) : List (List Char) → Except ReadError (List Word)
  | [] => .ok []
  | l :: ls =>
    match Decimal.read (trim l) with
    | .error why => .error (.badLine number why)
    | .ok w => (readLines (number + 1) ls).map (w :: ·)

def read (text : String) : Except ReadError (List Word) :=
  match trimEnd text.toList with
  | [] => .ok []
  | cs =>
    match readLines 0 (cs.splitOn '\n') with
    | .error e => .error e
    | .ok words => if maxWords < words.length then .error (.tooLarge words.length) else .ok words

end SolMachine.WordFile
