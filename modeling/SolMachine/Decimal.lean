import SolMachine.Word

/-!
# Decimal text of words

* `Decimal.read` : the word that a decimal text names, read from the left up to the first problem;
* `Decimal.write` : the decimal text of an integer;
* `Decimal.readCount` : an unsigned 64-bit number.
-/

namespace SolMachine.Decimal

inductive ReadError where
  | empty
  | badDigit
  | tooLarge
  | tooSmall
  deriving DecidableEq, Repr, Inhabited

def ReadError.message : ReadError → String
  | .empty => "cannot parse integer from empty string"
  | .badDigit => "invalid digit found in string"
  | .tooLarge => "number too large to fit in target type"
  | .tooSmall => "number too small to fit in target type"

def digitValue (c : Char) : Nat := c.toNat - '0'.toNat

/-- Reads digits after the value `acc`, away from zero on the side of `negative`. Each character is
first checked to be a digit, then the value to be in range. -/
def readDigits (negative : Bool) (acc : Int) : List Char → Except ReadError Int
  | [] => .ok acc
  | c :: cs =>
    if c.isDigit then
      let next := if negative then acc * 10 - digitValue c else acc * 10 + digitValue c
      if next < Word.least then .error .tooSmall
      else if Word.greatest < next then .error .tooLarge
      else readDigits negative next cs
    else .error .badDigit

/-- Reads an optional sign and one or more digits. -/
def readInt : List Char → Except ReadError Int
  | [] => .error .empty
  | ['+'] => .error .badDigit
  | ['-'] => .error .badDigit
  | '+' :: cs => readDigits false 0 cs
  | '-' :: cs => readDigits true 0 cs
  | cs => readDigits false 0 cs

def read (cs : List Char) : Except ReadError Word :=
  (readInt cs).map (BitVec.ofInt 32)

/-- The decimal text of an integer: no leading zero, and a sign only on negative numbers. -/
def write (n : Int) : String :=
  if n < 0 then "-" ++ Nat.repr n.natAbs else Nat.repr n.natAbs

/-- Reads an unsigned 64-bit number: digits, after a plus sign or none. -/
def readCount (cs : List Char) : Option UInt64 :=
  let digits := match cs with
    | '+' :: rest => rest
    | _ => cs
  let value := digits.foldl (fun acc c => acc * 10 + digitValue c) 0
  if digits.isEmpty || !digits.all Char.isDigit then none
  else if h : value < UInt64.size then some (UInt64.ofNatLT value h)
  else none

end SolMachine.Decimal
