/-!
# Operations

* `Opcode` : the 21 operations, grouped by what they do with their operands;
* `Opcode.all` : all of them, in the order of their codes (`Opcode.code`, `Opcode.ofCode?`);
* `Opcode.name`, `Opcode.ofName?` : the mnemonics;
* `Opcode.operands`, `Opcode.required` : what stands after the mnemonic in a source line.
-/

namespace SolMachine

/-- Operations that compute register C from registers A and B. -/
inductive Alu where
  | add | nand | mul | div | imul | xidiv | and | xor | cmpge
  deriving DecidableEq, Repr, Inhabited

/-- Operations that move a word between register B and memory. -/
inductive Transfer where
  | lw | sw
  deriving DecidableEq, Repr, Inhabited

/-- Jumps that compare registers A and B. -/
inductive Branch where
  | beq | jmae | jmnae
  deriving DecidableEq, Repr, Inhabited

/-- Searches for a set bit of register A. -/
inductive Scan where
  | bsr | bsf
  deriving DecidableEq, Repr, Inhabited

inductive Opcode where
  | alu (op : Alu)
  | transfer (op : Transfer)
  | branch (op : Branch)
  | jarl
  | halt
  | scan (op : Scan)
  | jne
  | pop
  | push
  deriving DecidableEq, Repr, Inhabited

/-- What can stand in an operand position of a source line. -/
inductive OperandKind where
  | register
  | address
  deriving DecidableEq, Repr, Inhabited

namespace Alu

def name : Alu → String
  | add => "add" | nand => "nand" | mul => "mul" | div => "div" | imul => "imul"
  | xidiv => "xidiv" | and => "and" | xor => "xor" | cmpge => "cmpge"

end Alu

namespace Transfer

def name : Transfer → String
  | lw => "lw" | sw => "sw"

end Transfer

namespace Branch

def name : Branch → String
  | beq => "beq" | jmae => "jmae" | jmnae => "jmnae"

end Branch

namespace Scan

def name : Scan → String
  | bsr => "bsr" | bsf => "bsf"

end Scan

namespace Opcode

/-- The operations in the order of their codes. -/
def all : List Opcode := [
  alu .add, alu .nand, transfer .lw, transfer .sw, branch .beq, jarl, halt, alu .mul, alu .div,
  alu .imul, alu .xidiv, alu .and, alu .xor, alu .cmpge, branch .jmae, branch .jmnae, scan .bsr,
  scan .bsf, jne, pop, push]

/-- The code of an operation: its place in `all`. -/
def code (op : Opcode) : Nat := all.idxOf op

def ofCode? (n : Nat) : Option Opcode := all[n]?

def name : Opcode → String
  | alu op => op.name
  | transfer op => op.name
  | branch op => op.name
  | jarl => "jarl"
  | halt => "halt"
  | scan op => op.name
  | jne => "jne"
  | pop => "pop"
  | push => "push"

/-- The operation with the given mnemonic; case counts. -/
def ofName? (s : String) : Option Opcode := all.find? fun op => op.name == s

/-- The operand positions after the mnemonic. -/
def operands : Opcode → List OperandKind
  | alu _ => [.register, .register, .register]
  | transfer _ | branch _ => [.register, .register, .address]
  | jarl | scan _ => [.register, .register]
  | jne => [.address]
  | pop | push => [.register]
  | halt => []

/-- How many of the operands must be present: all of them, but `push` and `pop` need none. -/
def required : Opcode → Nat
  | pop | push => 0
  | op => op.operands.length

/-- Whether the address operand is a distance from the next instruction. -/
def isRelative : Opcode → Bool
  | branch _ | jne => true
  | _ => false

theorem mem_all (op : Opcode) : op ∈ all := by
  rcases op with op | op | op | _ | _ | op | _ | _ | _ <;> (try cases op) <;> decide

theorem ofCode?_code (op : Opcode) : ofCode? op.code = some op := by
  rcases op with op | op | op | _ | _ | op | _ | _ | _ <;> (try cases op) <;> rfl

theorem code_lt (op : Opcode) : op.code < 21 :=
  List.idxOf_lt_length_iff.2 (mem_all op)

theorem ofName?_name (op : Opcode) : ofName? op.name = some op := by
  rcases op with op | op | op | _ | _ | op | _ | _ | _ <;> (try cases op) <;> rfl

end Opcode

end SolMachine
