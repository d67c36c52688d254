import SolMachine.Machine.Fault

/-!
# Memory

* `Memory` : the words that are in memory; it starts as the program and grows with zeros up to every
  address that is accessed;
* `Memory.get?` : the word at an address, without growth;
* `Memory.read`, `Memory.write` : the accesses of a program, at addresses from 0 to 16383.
-/

namespace SolMachine

structure Memory where
  words : Array Word
  deriving DecidableEq, Repr, Inhabited

namespace Memory

def empty : Memory := ⟨#[]⟩

def ofList (words : List Word) : Memory := ⟨words.toArray⟩

def size (m : Memory) : Nat := m.words.size

def get? (m : Memory) (i : Nat) : Option Word := m.words[i]?

/-- The index of an address that a program may access. -/
def index? (address : Word) : Option Nat :=
  if 0 ≤ address.toInt ∧ address.toInt < maxWords then some address.toInt.toNat else none

/-- Grows memory with zeros so that it holds index `i`. -/
def cover (m : Memory) (i : Nat) : Memory :=
  if i < m.size then m else ⟨m.words ++ Array.replicate (i + 1 - m.size) 0⟩

def read (m : Memory) (address : Word) : Except Fault (Word × Memory) :=
  match index? address with
  | none => .error (.accessViolation address)
  | some i =>
    let grown := m.cover i
    .ok ((grown.get? i).getD 0, grown)

def write (m : Memory) (address value : Word) : Except Fault Memory :=
  match index? address with
  | none => .error (.accessViolation address)
  | some i => .ok ⟨(m.cover i).words.setIfInBounds i value⟩

theorem size_cover (m : Memory) (i : Nat) : (m.cover i).size = max m.size (i + 1) := by
  unfold cover size
  split
  · omega
  · simp only [Array.size_append, Array.size_replicate]; omega

theorem get?_cover (m : Memory) (i j : Nat) :
    (m.cover i).get? j = if j < m.size then m.get? j else if j ≤ i then some 0 else none := by
  unfold cover get? size
  split
  · split
    · rfl
    · rw [if_neg (by omega), Array.getElem?_eq_none (by omega)]
  · simp only [Array.getElem?_append]
    split
    · rfl
    · rw [Array.getElem?_replicate]
      simp only [show j - m.words.size < i + 1 - m.words.size ↔ j ≤ i by omega]

end Memory

end SolMachine
