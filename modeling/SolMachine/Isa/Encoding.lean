import SolMachine.Isa.Instruction

/-!
# Instruction words

From the top of the word: four zero bits, five bits of code, register A, register B, and fifteen
bits that hold register C in their low end or a displacement.

* `Instruction.encode` : the word of an instruction;
* `Instruction.decode` : the instruction of a word, or the code that belongs to no operation.

Bits that the operation does not use are written as zeros and not looked at when read.
-/

namespace SolMachine.Instruction

def pack (code : BitVec 5) (a b : Register) (low : BitVec 15) : Word :=
  0#4 ++ code ++ BitVec.ofFin (w := 4) a ++ BitVec.ofFin (w := 4) b ++ low

/-- The register C field, in the low end of the fifteen bits. -/
def packC (c : Register) : BitVec 15 := 0#11 ++ BitVec.ofFin (w := 4) c

def codeOf (w : Word) : BitVec 5 := w.extractLsb' 23 5

def registerA (w : Word) : Register := (w.extractLsb' 19 4).toFin

def registerB (w : Word) : Register := (w.extractLsb' 15 4).toFin

def registerC (w : Word) : Register := (w.extractLsb' 0 4).toFin

def displacement (w : Word) : Displacement := ⟨w.extractLsb' 0 15⟩

def encode (i : Instruction Displacement) : Word :=
  let code := BitVec.ofNat 5 i.opcode.code
  match i with
  | alu _ a b c => pack code a b (packC c)
  | transfer _ a b d | branch _ a b d => pack code a b d.field
  | jarl a b | scan _ a b => pack code a b 0#15
  | halt => pack code .zero .zero 0#15
  | jne d => pack code .zero .zero d.field
  | pop r | push r => pack code r .zero 0#15

/-- The instruction of a word; a code without an operation is the error. -/
def decode (w : Word) : Except Nat (Instruction Displacement) :=
  match Opcode.ofCode? (codeOf w).toNat with
  | none => .error (codeOf w).toNat
  | some op => .ok (ofParts op (registerA w) (registerB w) (registerC w) (displacement w))

end SolMachine.Instruction
