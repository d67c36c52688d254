import SolMachine.Isa.Register
import SolMachine.Isa.Offset
import SolMachine.Isa.Opcode

/-!
# Instructions

* `Instruction α` : an instruction whose address operand, if it has one, is an `α`: a label or an
  integer in a source line, a displacement in memory;
* `Instruction.fields` : the operands in the order in which they are written;
* `Instruction.ofParts` : the instruction of an operation, from operands for every position;
* `Instruction.resolve` : replaces the address operand;
* `Instruction.ofNumbers` : a machine instruction from the numbers of its operands.
-/

namespace SolMachine

/-- An instruction whose address operand is an `α`. -/
inductive Instruction (α : Type) where
  | alu (op : Alu) (a b c : Register)
  | transfer (op : Transfer) (a b : Register) (address : α)
  | branch (op : Branch) (a b : Register) (address : α)
  | jarl (a b : Register)
  | halt
  | scan (op : Scan) (a b : Register)
  | jne (address : α)
  | pop (r : Register)
  | push (r : Register)
  deriving DecidableEq, Repr, Inhabited

namespace Instruction

variable {α β ε : Type}

def opcode : Instruction α → Opcode
  | alu op .. => .alu op
  | transfer op .. => .transfer op
  | branch op .. => .branch op
  | jarl .. => .jarl
  | halt => .halt
  | scan op .. => .scan op
  | jne _ => .jne
  | pop _ => .pop
  | push _ => .push

/-- The operands in the order in which they are written. -/
def fields : Instruction α → List (Register ⊕ α)
  | alu _ a b c => [.inl a, .inl b, .inl c]
  | transfer _ a b t | branch _ a b t => [.inl a, .inl b, .inr t]
  | jarl a b | scan _ a b => [.inl a, .inl b]
  | halt => []
  | jne t => [.inr t]
  | pop r | push r => [.inl r]

/-- The instruction of an operation; it takes of the registers and the address what it needs. -/
def ofParts (op : Opcode) (a b c : Register) (address : α) : Instruction α :=
  match op with
  | .alu op => alu op a b c
  | .transfer op => transfer op a b address
  | .branch op => branch op a b address
  | .jarl => jarl a b
  | .halt => halt
  | .scan op => scan op a b
  | .jne => jne address
  | .pop => pop a
  | .push => push a

/-- Replaces the address operand by what `f` makes of it. -/
def resolve (f : α → Except ε β) : Instruction α → Except ε (Instruction β)
  | alu op a b c => .ok (alu op a b c)
  | transfer op a b t => (f t).map (transfer op a b)
  | branch op a b t => (f t).map (branch op a b)
  | jarl a b => .ok (jarl a b)
  | halt => .ok halt
  | scan op a b => .ok (scan op a b)
  | jne t => (f t).map jne
  | pop r => .ok (pop r)
  | push r => .ok (push r)

/-- The instruction as it is written, where `f` writes the address operand. -/
def render (f : α → String) (i : Instruction α) : String :=
  " ".intercalate (i.opcode.name :: i.fields.map fun
    | .inl r => Nat.repr r.val
    | .inr t => f t)

@[simp] theorem opcode_ofParts (op : Opcode) (a b c : Register) (t : α) :
    (ofParts op a b c t).opcode = op := by
  cases op <;> rfl

theorem opcode_resolve {f : α → Except ε β} {i : Instruction α} {j : Instruction β}
    (h : i.resolve f = .ok j) : j.opcode = i.opcode := by
  cases i <;> simp only [resolve, Except.ok.injEq] at h
  case transfer t => cases hf : f t <;> simp_all [Except.map]; subst h; rfl
  case branch t => cases hf : f t <;> simp_all [Except.map]; subst h; rfl
  case jne t => cases hf : f t <;> simp_all [Except.map]; subst h; rfl
  all_goals subst h; rfl

inductive NumberError where
  | register (n : Int)
  | displacement
  deriving DecidableEq, Repr, Inhabited

/-- Reads one number for each operand position, from the left. -/
def readNumbers : List OperandKind → List Word → Except NumberError (List Register × Displacement)
  | .register :: kinds, n :: numbers =>
    match Register.ofInt? n.toInt with
    | none => .error (.register n.toInt)
    | some r => (readNumbers kinds numbers).map fun (rs, d) => (r :: rs, d)
  | .address :: kinds, n :: numbers =>
    match Offset.fit? 15 n with
    | none => .error .displacement
    | some d => (readNumbers kinds numbers).map fun (rs, _) => (rs, d)
  | _, _ => .ok ([], Offset.wrap 15 0)

/-- The machine instruction of an operation with the given numbers as its operands. -/
def ofNumbers (op : Opcode) (numbers : List Word) :
    Except NumberError (Instruction Displacement) :=
  (readNumbers op.operands numbers).map fun (rs, d) =>
    let register (i : Nat) := rs[i]?.getD .zero
    ofParts op (register 0) (register 1) (register 2) d

/-- The numbers of the operands of a machine instruction. -/
def numbers (i : Instruction Displacement) : List Int :=
  i.fields.map fun
    | .inl r => r.val
    | .inr d => d.value.toInt

end Instruction

end SolMachine
