/-!
# Registers

The machine has sixteen general registers, numbered from 0; `push` and `pop` use register 1 unless
told otherwise.
-/

namespace SolMachine

abbrev Register := Fin 16

namespace Register

def ofInt? (n : Int) : Option Register :=
  if h : 0 ≤ n ∧ n < 16 then some ⟨n.toNat, by omega⟩ else none

def rangeError (n : Int) : String :=
  if n < 0 then "number too small to fit in target type"
  else "number too large to fit in target type"

/-- The register that stands where an instruction has none. -/
def zero : Register := ⟨0, by decide⟩

/-- The register that `push` and `pop` use if they name none. -/
def stackDefault : Register := ⟨1, by decide⟩

/-- The name of a register, such as `r7`. -/
def name (r : Register) : String := "r" ++ Nat.repr r.val

@[simp] theorem ofInt?_val (r : Register) : ofInt? (r.val : Int) = some r := by
  have h := r.isLt
  simp [ofInt?, show (r.val : Int) < 16 by omega]

end Register

end SolMachine
