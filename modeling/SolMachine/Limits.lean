/-!
# Limits

The sizes that assembler and machine share.
-/

namespace SolMachine

/-- The number of addressable words, and so of the statements of a program. -/
def maxWords : Nat := 16384

/-- The number of words that the stack holds unless configured otherwise. -/
def stackCapacity : Nat := 32

end SolMachine
