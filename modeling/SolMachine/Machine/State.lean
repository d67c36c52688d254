import SolMachine.Isa.Register
import SolMachine.Machine.Memory
import SolMachine.Machine.Seed
import SolMachine.Machine.Stack

/-!
# Machine states

* `Config` : what a new machine starts from;
* `Machine` : the state of a machine; `Machine.new`, `Machine.reset` and `Machine.load` prepare it.

Sixteen words are drawn for every new machine, and only an unseeded start makes use of them. Nothing is
said of how they are drawn; zeros stand for them where no start is unseeded.
-/

namespace SolMachine

/-- The values that the registers start from. -/
inductive Start where
  | known (w : Word)
  | seeded (seed : UInt64)
  /-- Words that nobody can predict, drawn anew at every start. -/
  | unseeded
  deriving DecidableEq, Repr, Inhabited

structure Config where
  start : Start
  stackCapacity : Nat
  deriving DecidableEq, Repr, Inhabited

namespace Config

/-- All registers zero, and the usual stack. -/
def standard : Config := ⟨.known 0, SolMachine.stackCapacity⟩

end Config

abbrev Registers := Vector Word 16

/-- The registers at a start for which the given words are drawn. -/
def Start.registers (drawn : Registers) : Start → Registers
  | known w => Vector.replicate 16 w
  | seeded seed => Seed.words seed
  | unseeded => drawn

structure Machine where
  memory : Memory
  registers : Registers
  /-- The address of the next instruction. -/
  pc : Nat
  stack : Stack
  /-- Whether the last bit scan found a bit. -/
  flag : Bool
  /-- The number of instructions executed, modulo 2^64. -/
  executed : UInt64
  /-- Whether the last run ended at a `halt`. -/
  halted : Bool
  /-- What the next reset starts from. -/
  config : Config
  deriving DecidableEq, Repr

namespace Machine

def new (config : Config) (drawn : Registers := Vector.replicate 16 0) : Machine where
  memory := .empty
  registers := config.start.registers drawn
  pc := 0
  stack := .empty config.stackCapacity
  flag := false
  executed := 0
  halted := false
  config := config

def reset (m : Machine) (drawn : Registers := Vector.replicate 16 0) : Machine := new m.config drawn

/-- Replaces memory by a program and goes to its start; all else stays. -/
def load (m : Machine) (words : List Word) : Except Fault Machine :=
  if maxWords < words.length then .error (.programTooLarge words.length)
  else .ok { m with memory := .ofList words, pc := 0 }

def register (m : Machine) (r : Register) : Word := m.registers.get r

def setRegister (m : Machine) (r : Register) (w : Word) : Machine :=
  { m with registers := m.registers.set r.val w r.isLt }

theorem register_setRegister (m : Machine) (r s : Register) (w : Word) :
    (m.setRegister r w).register s = if r = s then w else m.register s := by
  have h := s.isLt
  show (m.registers.set r.val w r.isLt)[s.val] = if r = s then w else m.registers[s.val]
  simp [Vector.getElem_set, Fin.ext_iff]

end Machine

end SolMachine
