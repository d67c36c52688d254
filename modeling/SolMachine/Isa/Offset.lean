import SolMachine.Decimal

/-!
# Signed offsets of a given width

* `Offset n` : a signed number of `n` bits, as it stands in an instruction;
* `Offset.value` : its value as a word, by sign extension;
* `Offset.wrap` : the low bits of a word as an offset, and `Offset.fit?` : the same, if no bit of
  the value is lost (`Offset.ofInt?` from an integer);
* `Offset.bits` : the field itself as a word.
-/

namespace SolMachine

/-- A signed number of `n` bits. -/
structure Offset (n : Nat) where
  field : BitVec n
  deriving DecidableEq, Repr, Inhabited

abbrev Displacement := Offset 15

namespace Offset

variable {n : Nat}

def value (o : Offset n) : Word := o.field.signExtend 32

/-- The bits of the field, with zeros above them. -/
def bits (o : Offset n) : Word := o.field.setWidth 32

/-- The low `n` bits of a word, read as a signed number. -/
def wrap (n : Nat) (w : Word) : Offset n := ⟨w.setWidth n⟩

/-- The offset whose value is the word, if `n` bits can hold it. -/
def fit? (n : Nat) (w : Word) : Option (Offset n) :=
  if (wrap n w).value = w then some (wrap n w) else none

/-- The offset of the given value, if `n` bits can hold it. -/
def ofInt? (n : Nat) (i : Int) : Option (Offset n) :=
  let w := BitVec.ofInt 32 i
  if w.toInt = i then fit? n w else none

def tooWide (n : Nat) : String :=
  "value is too big for signed " ++ Nat.repr n ++ "-bit integer"

/-- The values that `n` bits can hold reach from minus this number to one less than it. -/
def bound (n : Nat) : Int := (1 <<< (n - 1) : Nat)

def range (n : Nat) : String :=
  "the range for a signed " ++ Nat.repr n ++ "-bit integer is [" ++
    Decimal.write (-bound n) ++ ", " ++ Decimal.write (bound n - 1) ++ "]"

/-- An offset has at least one bit and at most those of a word. -/
def checkWidth (n : Nat) : Except String Unit :=
  if 1 ≤ n ∧ n ≤ 32 then .ok ()
  else .error ("bit size " ++ Nat.repr n ++ " exceeds size of backing (32)")

end Offset

end SolMachine
