import SolMachine.Assembly.Token
import SolMachine.Isa.Offset
import SolMachine.Limits

/-!
# Diagnostics

* `Problem` : what can be wrong with a source text, with its wording and advice;
* `Diagnostic` : a problem and the place it concerns;
* `Diagnostics` : the problems of a text in the order of their places (`Diagnostics.ofList`).
-/

namespace SolMachine.Assembly
open SolMachine.Text

inductive Problem where
  /-- An operand is no token. -/
  | lexical (e : LexError)
  | invalidLabel
  | missingMnemonic
  | unknownMnemonic
  | missingOperands (mnemonic : String) (expected found : Nat)
  | expectedRegister
  | registerOutOfRange
  | expectedAddress
  | invalidAddressSymbol
  | duplicateLabel
  | tooManyLabels
  | programTooLarge
  | stackOverflow
  | stackUnderflow
  | undefinedLabel
  /-- A value does not fit an offset of that many bits. -/
  | offsetTooWide (bits : Nat)
  | branchOutOfRange
  deriving DecidableEq, Repr, Inhabited

namespace Problem

def message : Problem → String
  | lexical e => e.message
  | invalidLabel => "invalid label"
  | missingMnemonic => "label is missing an instruction"
  | unknownMnemonic => "unrecognized instruction"
  | missingOperands mnemonic expected found =>
    mnemonic ++ " requires " ++ Nat.repr expected ++ " operand(s), but found " ++ Nat.repr found
  | expectedRegister => "expected register"
  | registerOutOfRange => "register out of range"
  | expectedAddress => "expected integer or label"
  | invalidAddressSymbol => "invalid symbol in address operand"
  | duplicateLabel => "label was defined multiple times"
  | tooManyLabels => "too many labels"
  | programTooLarge => "program is too large"
  | stackOverflow => "push exceeds stack capacity"
  | stackUnderflow => "pop from empty stack"
  | undefinedLabel => "label could not be found"
  | offsetTooWide bits => Offset.tooWide bits
  | branchOutOfRange => "branch target is outside of memory"

def help : Problem → Option String
  | lexical e => e.help
  | invalidLabel => some "labels start with a letter and only contain letters and digits"
  | missingMnemonic => some "indent this line if it is not meant to have a label"
  | unknownMnemonic =>
    some "instructions are lowercase (e.g., add, lw, beq), and the only directive is .fill"
  | missingOperands .. => none
  | expectedRegister => some "registers are written as a number from 0 to 15"
  | registerOutOfRange => some "there are only 16 registers, numbered 0 to 15"
  | expectedAddress => some "this operand should be an integer or a label"
  | invalidAddressSymbol => some "labels used as operands may only contain letters"
  | duplicateLabel => some "labels must be unique within a file, try renaming one of the labels"
  | tooManyLabels => some ("a program can define at most " ++ Nat.repr maxWords ++ " labels")
  | programTooLarge => some ("a program can hold at most " ++ Nat.repr maxWords ++ " instructions")
  | stackOverflow => some ("the stack holds at most " ++ Nat.repr stackCapacity ++
      " words; add a pop before this push")
  | stackUnderflow => some "every pop must have a matching push before it"
  | undefinedLabel => some "try adding this label before an instruction or directive"
  | offsetTooWide bits => some (Offset.range bits)
  | branchOutOfRange =>
    some ("branch targets must be between 0 and " ++ Nat.repr (maxWords - 1))

/-- The error of a single value that lies behind the problem, if one does. -/
def cause : Problem → Option String
  | lexical e => some e.message
  | offsetTooWide bits => some (Offset.tooWide bits)
  | _ => none

end Problem

structure Diagnostic where
  problem : Problem
  place : Place
  deriving DecidableEq, Repr, Inhabited

namespace Diagnostic

def of (p : Problem) (s : Span) : Diagnostic := ⟨p, .single s⟩

/-- The byte at which the first span starts; diagnostics are ordered by it. -/
def start (d : Diagnostic) : Nat := d.place.first.start

end Diagnostic

/-- The problems of a text, by their place. -/
structure Diagnostics where
  toList : List Diagnostic
  deriving DecidableEq, Repr, Inhabited

namespace Diagnostics

/-- Orders diagnostics by the start of their first span; those that start together stay in order. -/
def sort (ds : List Diagnostic) : List Diagnostic :=
  ds.mergeSort fun d e => d.start ≤ e.start

def ofList (ds : List Diagnostic) : Diagnostics := ⟨sort ds⟩

/-- The first problem, and how many follow it. -/
def message (ds : Diagnostics) : String :=
  match ds.toList with
  | [] => "assembly failed"
  | [d] => d.problem.message
  | d :: rest => d.problem.message ++ " (and " ++ Nat.repr rest.length ++ " more error(s))"

def cause (ds : Diagnostics) : Option String :=
  ds.toList.head?.map fun d => d.problem.message

end Diagnostics

end SolMachine.Assembly
