import SolMachine.Isa.Encoding
import SolMachine.Machine.State

/-!
# One instruction

* `Alu.value?`, `Scan.index?`, `Branch.taken` : what the operations compute;
* `Machine.advance` : goes to the next instruction to execute, if its address is in memory's range;
* `Machine.execute` : carries out an instruction;
* `Machine.step` : fetches, decodes and executes the instruction at the program counter.

An instruction that faults leaves the program counter and the count as they were. An effect that
comes before the fault stays: at the last address, an instruction that is no jump does its work and
then faults, because no instruction can follow it.
-/

namespace SolMachine

inductive Outcome where
  | ran
  | halted
  | fault (f : Fault)
  deriving DecidableEq, Repr, Inhabited

/-- The word that an operation computes; a division by zero has none. -/
def Alu.value? (op : Alu) (x y : Word) : Option Word :=
  match op with
  | .add => some (x + y)
  | .nand => some (~~~(x &&& y))
  | .mul => some (BitVec.ofNat 32 (x.toNat * y.toNat))
  | .div => if y = 0 then none else some (x.udiv y)
  | .imul => some (BitVec.ofInt 32 (x.toInt * y.toInt))
  | .xidiv => if y = 0 then none else some (x.sdiv y)
  | .and => some (x &&& y)
  | .xor => some (x ^^^ y)
  | .cmpge => some (if y.toInt ≤ x.toInt then 1 else 0)

/-- How many zero bits come before the first set bit: from the high end for `bsr`, from the low end
for `bsf`. Zero has no set bit. -/
def Scan.index? (op : Scan) (w : Word) : Option Nat :=
  match op with
  | .bsr => (List.range 32).find? fun i => w.getMsbD i
  | .bsf => (List.range 32).find? fun i => w.getLsbD i

def Branch.taken (op : Branch) (x y : Word) : Bool :=
  match op with
  | .beq => x == y
  | .jmae => decide (y.toInt ≤ x.toInt)
  | .jmnae => decide (x.toInt < y.toInt)

namespace Machine

/-- Goes to an address and counts the instruction, if the address can hold an instruction. -/
def advance (m : Machine) (target : Int) : Machine × Outcome :=
  if 0 ≤ target ∧ target < maxWords then
    ({ m with pc := target.toNat, executed := m.executed + 1 }, .ran)
  else (m, .fault (.pcOutOfBounds target))

def next (m : Machine) : Machine × Outcome := m.advance (m.pc + 1)

/-- Goes to the next instruction, or to the one at a displacement from it. -/
def jump (m : Machine) (taken : Bool) (d : Displacement) : Machine × Outcome :=
  if taken then m.advance (m.pc + 1 + d.value.toInt) else m.next

def effective (m : Machine) (a : Register) (d : Displacement) : Word := m.register a + d.value

/-- Computes register C. The signed division then exchanges what registers A and B hold. -/
def compute (m : Machine) (op : Alu) (a b c : Register) : Machine × Outcome :=
  match op.value? (m.register a) (m.register b) with
  | none => (m, .fault .divideByZero)
  | some w =>
    let done := m.setRegister c w
    match op with
    | .xidiv =>
      let x := done.register a
      let y := done.register b
      ((done.setRegister a y).setRegister b x).next
    | _ => done.next

def transfer (m : Machine) (op : Transfer) (a b : Register) (d : Displacement) :
    Machine × Outcome :=
  match op with
  | .lw =>
    match m.memory.read (m.effective a d) with
    | .error f => (m, .fault f)
    | .ok (w, memory) => ({ m with memory := memory }.setRegister b w).next
  | .sw =>
    match m.memory.write (m.effective a d) (m.register b) with
    | .error f => (m, .fault f)
    | .ok memory => { m with memory := memory }.next

/-- Jumps to the address in register A and keeps the next address in register B; where both hold the
same word, there is no jump and register A gets the next address. -/
def jumpAndLink (m : Machine) (a b : Register) : Machine × Outcome :=
  let link := m.pc + 1
  let (kept, target) : Register × Int :=
    if m.register a = m.register b then (a, link) else (b, (m.register a).toInt)
  match m.advance target with
  | (after, .ran) => (after.setRegister kept (BitVec.ofNat 32 link), .ran)
  | failed => failed

/-- Puts the place of the first set bit of register A into register B, or -1. -/
def scan (m : Machine) (op : Scan) (a b : Register) : Machine × Outcome :=
  match op.index? (m.register a) with
  | some i => ({ m with flag := true }.setRegister b (BitVec.ofNat 32 i)).next
  | none => ({ m with flag := false }.setRegister b (-1)).next

def execute (m : Machine) : Instruction Displacement → Machine × Outcome
  | .alu op a b c => m.compute op a b c
  | .transfer op a b d => m.transfer op a b d
  | .branch op a b d => m.jump (op.taken (m.register a) (m.register b)) d
  | .jarl a b => m.jumpAndLink a b
  | .halt => ({ m with executed := m.executed + 1 }, .halted)
  | .scan op a b => m.scan op a b
  | .jne d => m.jump m.flag d
  | .pop r =>
    match m.stack.pop with
    | .error f => (m, .fault f)
    | .ok (w, stack) => ({ m with stack := stack }.setRegister r w).next
  | .push r =>
    match m.stack.push (m.register r) with
    | .error f => (m, .fault f)
    | .ok stack => { m with stack := stack }.next

def step (m : Machine) : Machine × Outcome :=
  match m.memory.get? m.pc with
  | none => (m, .fault (.pcOutOfBounds m.pc))
  | some w =>
    match Instruction.decode w with
    | .error code => (m, .fault (.illegalOpcode code))
    | .ok i => m.execute i

/-- Executes one instruction and notes whether it was a `halt`. -/
def stepIn (m : Machine) : Machine × Outcome :=
  let (after, outcome) := { m with halted := false }.step
  ({ after with halted := outcome = .halted }, outcome)

end Machine

end SolMachine
