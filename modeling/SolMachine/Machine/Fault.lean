import SolMachine.Decimal
import SolMachine.Limits

/-!
# Faults

`Fault` : why the machine cannot go on, with its wording and advice.
-/

namespace SolMachine

/-- Why the machine cannot go on. -/
inductive Fault where
  | illegalOpcode (code : Nat)
  | divideByZero
  | accessViolation (address : Word)
  | stackOverflow
  | stackUnderflow
  | pcOutOfBounds (pc : Int)
  | programTooLarge (words : Nat)
  deriving DecidableEq, Repr, Inhabited

namespace Fault

def message : Fault → String
  | illegalOpcode code => "simulator executed illegal opcode " ++ Nat.repr code
  | divideByZero => "division by zero"
  | accessViolation address => "access violation at address " ++ Decimal.write address.toInt
  | stackOverflow => "stack overflow"
  | stackUnderflow => "stack underflow"
  | pcOutOfBounds pc => "program counter " ++ Decimal.write pc ++ " is outside of memory"
  | programTooLarge words => "program of " ++ Nat.repr words ++ " words does not fit in memory"

def help : Fault → Option String
  | illegalOpcode _ => some "the program may have run into a data word (.fill) without halting"
  | divideByZero => none
  | accessViolation _ => some ("memory addresses range from 0 to " ++ Nat.repr (maxWords - 1))
  | stackOverflow => some ("the stack holds at most " ++ Nat.repr stackCapacity ++ " words by default")
  | stackUnderflow => some "every pop must be preceded by a matching push"
  | pcOutOfBounds _ => some "programs must end with a halt instruction"
  | programTooLarge _ => some ("memory holds at most " ++ Nat.repr maxWords ++ " words")

end Fault

end SolMachine
