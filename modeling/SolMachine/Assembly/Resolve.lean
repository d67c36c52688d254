import SolMachine.Assembly.SymbolTable
import SolMachine.Isa.Encoding

/-!
# From source operands to words

* `absolute` : the displacement of `lw` and `sw`: a label is its address, an integer is itself;
* `relative` : the displacement of a branch: a label is its distance from the next instruction, an
  integer is itself, and the target must lie in memory;
* `machineInstruction`, `wordAt` : the machine instruction and the word of a statement.

A fault of an integer lies at the statement, one of a label at the label.
-/

namespace SolMachine.Assembly
open SolMachine.Text

namespace SymbolTable

def find (t : SymbolTable) (l : Label) : Except Diagnostic Nat :=
  match t.addressOf? l.name with
  | some address => .ok address
  | none => .error (.of .undefinedLabel l.span)

end SymbolTable

/-- The value of an operand and the span that its faults point at, where `f` is the value of a label
at an address. -/
def operandValue (t : SymbolTable) (span : Span) (f : Nat → Int) :
    AddressOperand → Except Diagnostic (Int × Span)
  | .int w => .ok (w.toInt, span)
  | .label l => (t.find l).map fun address => (f address, l.span)

def displacementOf (value : Int) (span : Span) : Except Diagnostic Displacement :=
  match Offset.ofInt? 15 value with
  | some d => .ok d
  | none => .error (.of (.offsetTooWide 15) span)

def absolute (t : SymbolTable) (span : Span) (operand : AddressOperand) :
    Except Diagnostic Displacement :=
  match operandValue t span (fun address => address) operand with
  | .error d => .error d
  | .ok (value, spot) => displacementOf value spot

/-- The displacement of a branch at address `base`. -/
def relative (t : SymbolTable) (base : Nat) (span : Span) (operand : AddressOperand) :
    Except Diagnostic Displacement :=
  match operandValue t span (fun address => address - base - 1) operand with
  | .error d => .error d
  | .ok (value, spot) =>
    match displacementOf value spot with
    | .error d => .error d
    | .ok d =>
      let target := base + value + 1
      if 0 ≤ target ∧ target < maxWords then .ok d else .error (.of .branchOutOfRange spot)

def machineInstruction (t : SymbolTable) (address : Nat) (span : Span)
    (i : Instruction AddressOperand) : Except Diagnostic (Instruction Displacement) :=
  i.resolve fun operand =>
    if i.opcode.isRelative then relative t address span operand else absolute t span operand

def wordAt (t : SymbolTable) (address : Nat) (s : Statement) : Except Diagnostic Word :=
  match s.body with
  | .instruction i => (machineInstruction t address s.span i).map Instruction.encode
  | .fill (.int w) => .ok w
  | .fill (.label l) => (t.find l).map fun target => BitVec.ofNat 32 target

end SolMachine.Assembly
