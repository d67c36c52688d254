import SolMachine.Machine.Step

/-!
# What operations compute, as numbers

* `Word.signed`, `Word.unsigned` : the two numbers that the 32 low bits of a number stand for;
* `Alu.result?`, `Scan.result`, `Branch.Holds` : the results of operations on signed numbers;
* `toInt_value?`, `result_eq_of_index?`, `taken_eq_true_iff` : the words that the machine computes
  hold these results.
-/

namespace SolMachine

namespace Word

/-- What a word holds after a number was written to it, read as signed. -/
def signed (n : Int) : Int := n.bmod 4294967296

/-- What a word holds after a number was written to it, read as unsigned. -/
def unsigned (n : Int) : Nat := (n % 4294967296).toNat

theorem toInt_ofInt (n : Int) : (BitVec.ofInt 32 n).toInt = signed n := BitVec.toInt_ofInt n

theorem toInt_ofNat (n : Nat) : (BitVec.ofNat 32 n).toInt = signed n := by
  rw [← BitVec.ofInt_natCast, toInt_ofInt]

theorem toInt_eq_signed (w : Word) : w.toInt = signed w.toNat := BitVec.toInt_eq_toNat_bmod w

theorem signed_toInt (w : Word) : signed w.toInt = w.toInt := by
  rw [← toInt_ofInt, BitVec.ofInt_toInt]

theorem signed_of_mem {n : Int} (hlo : -2147483648 ≤ n) (hhi : n ≤ 2147483647) : signed n = n := by
  unfold signed
  rw [Int.bmod_def]
  omega

theorem unsigned_toInt (w : Word) : unsigned w.toInt = w.toNat := by
  have hw := w.isLt
  unfold unsigned
  rw [BitVec.toInt_eq_toNat_cond]
  split <;> omega

theorem toInt_eq_zero_iff (w : Word) : w.toInt = 0 ↔ w = 0 := by
  rw [← BitVec.toInt_inj]
  rfl

end Word

/-! ## The operations of the table -/

open Word in
/-- The number that an operation stores for two signed numbers, before it is cut to a word; there is
none for a division by zero. -/
def Alu.result? (op : Alu) (x y : Int) : Option Int :=
  match op with
  | .add => some (x + y)
  | .nand => some (4294967295 - (unsigned x &&& unsigned y : Nat))
  | .mul => some ((unsigned x * unsigned y : Nat) : Int)
  | .div => if y = 0 then none else some ((unsigned x / unsigned y : Nat) : Int)
  | .imul => some (x * y)
  | .xidiv => if y = 0 then none else some (x.tdiv y)
  | .and => some ((unsigned x &&& unsigned y : Nat) : Int)
  | .xor => some ((unsigned x ^^^ unsigned y : Nat) : Int)
  | .cmpge => some (if y ≤ x then 1 else 0)

/-- How many zero bits come before the first set bit of a number other than zero: above it for `bsr`,
and below it, up to the greatest power of two that divides the number, for `bsf`. -/
def Scan.result (op : Scan) (x : Int) : Int :=
  match op with
  | .bsr => 31 - (Nat.log2 (Word.unsigned x) : Int)
  | .bsf => Nat.log2 (Nat.gcd (Word.unsigned x) 4294967296)

/-- Whether a branch on two signed numbers is taken. -/
def Branch.Holds (op : Branch) (x y : Int) : Prop :=
  match op with
  | .beq => x = y
  | .jmae => y ≤ x
  | .jmnae => x < y

/-! ## The machine computes them -/

theorem toInt_value? (op : Alu) (x y : Word) :
    (op.value? x y).map BitVec.toInt = (op.result? x.toInt y.toInt).map Word.signed := by
  cases op <;> simp only [Alu.value?, Alu.result?, Word.unsigned_toInt, Word.toInt_eq_zero_iff]
  case add => exact congrArg some (BitVec.toInt_add x y)
  case imul => exact congrArg some (Word.toInt_ofInt _)
  case mul => exact congrArg some (Word.toInt_ofNat _)
  case nand =>
    have hle : (x &&& y).toNat < 4294967296 := (x &&& y).isLt
    rw [Option.map_some, Option.map_some, Word.toInt_eq_signed, BitVec.toNat_not, ← BitVec.toNat_and]
    congr 2
    omega
  case and => rw [Option.map_some, Option.map_some, Word.toInt_eq_signed, BitVec.toNat_and]
  case xor => rw [Option.map_some, Option.map_some, Word.toInt_eq_signed, BitVec.toNat_xor]
  case div =>
    by_cases hy : y = 0
    · rw [if_pos hy, if_pos hy]
      rfl
    · rw [if_neg hy, if_neg hy, Option.map_some, Option.map_some, Word.toInt_eq_signed]
      rfl
  case xidiv =>
    by_cases hy : y = 0
    · rw [if_pos hy, if_pos hy]
      rfl
    · rw [if_neg hy, if_neg hy, Option.map_some, Option.map_some]
      exact congrArg some (BitVec.toInt_sdiv x y)
  case cmpge => split <;> rfl

/-- The signed and the unsigned product leave the same word. -/
theorem value?_mul_eq_imul (x y : Word) : Alu.mul.value? x y = Alu.imul.value? x y := by
  unfold Alu.value?
  rw [BitVec.ofNat_mul, BitVec.ofNat_toNat, BitVec.ofNat_toNat, BitVec.ofInt_mul, BitVec.ofInt_toInt,
    BitVec.ofInt_toInt, BitVec.setWidth_eq, BitVec.setWidth_eq]

theorem taken_eq_true_iff (op : Branch) (x y : Word) :
    op.taken x y = true ↔ op.Holds x.toInt y.toInt := by
  cases op <;> simp only [Branch.taken, Branch.Holds, decide_eq_true_eq, beq_iff_eq, BitVec.toInt_inj]

/-! ## Scans -/

section Scan
variable {op : Scan} {w : Word} {n : Nat}

theorem testBit_toNat_of_le (w : Word) {k : Nat} (hk : 32 ≤ k) : w.toNat.testBit k = false :=
  BitVec.getLsbD_of_ge w k hk

theorem index?_eq_none_iff : op.index? w = none ↔ w = 0 := by
  constructor
  · intro h
    apply BitVec.eq_of_getLsbD_eq
    intro k hk
    rw [show (0 : Word) = 0#32 from rfl, BitVec.getLsbD_zero]
    cases op with
    | bsr =>
      have := List.find?_range_eq_none.1 h (31 - k) (by omega)
      simpa [BitVec.getMsbD, show 31 - k < 32 by omega, show 31 - (31 - k) = k by omega] using this
    | bsf => simpa using List.find?_range_eq_none.1 h k hk
  · rintro rfl
    cases op <;> rfl

theorem result_bsr_eq (h : Scan.bsr.index? w = some n) : Scan.bsr.result w.toInt = n := by
  obtain ⟨hbit, hn, hbefore⟩ := List.find?_range_eq_some.1 h
  rw [List.mem_range] at hn
  have hset : w.toNat.testBit (31 - n) = true := by
    simpa [BitVec.getMsbD, hn, BitVec.testBit_toNat] using hbit
  have hlow := Nat.ge_two_pow_of_testBit hset
  have hhigh : w.toNat < 2 ^ (31 - n + 1) := by
    apply Nat.lt_pow_two_of_testBit
    intro k hk
    by_cases hk32 : k < 32
    · have hclear := hbefore (31 - k) (by omega)
      simpa [BitVec.getMsbD, show 31 - k < 32 by omega, show 31 - (31 - k) = k by omega,
        BitVec.testBit_toNat] using hclear
    · exact testBit_toNat_of_le w (Nat.le_of_not_lt hk32)
  have hpos : w.toNat ≠ 0 := fun h0 => by rw [h0, Nat.zero_testBit] at hset; cases hset
  have hlog : w.toNat.log2 = 31 - n := (Nat.log2_eq_iff hpos).2 ⟨hlow, hhigh⟩
  unfold Scan.result
  simp only [Word.unsigned_toInt, hlog]
  omega

theorem result_bsf_eq (h : Scan.bsf.index? w = some n) : Scan.bsf.result w.toInt = n := by
  obtain ⟨hbit, hn, hbefore⟩ := List.find?_range_eq_some.1 h
  rw [List.mem_range] at hn
  have hmod : w.toNat % 2 ^ n = 0 := by
    apply Nat.eq_of_testBit_eq
    intro k
    rw [Nat.testBit_mod_two_pow, Nat.zero_testBit]
    by_cases hk : k < n
    · have hclear : w.toNat.testBit k = false := by
        simpa [BitVec.testBit_toNat] using hbefore k hk
      rw [hclear, Bool.and_false]
    · rw [decide_eq_false hk, Bool.false_and]
  have hodd : w.toNat / 2 ^ n % 2 = 1 := by
    have hset : w.toNat.testBit n = true := hbit
    rwa [Nat.testBit_eq_decide_div_mod_eq, decide_eq_true_eq] at hset
  have hcoprime : Nat.Coprime (w.toNat / 2 ^ n) 2 := by
    rw [Nat.coprime_comm, Nat.Coprime, Nat.gcd_rec, hodd, Nat.gcd_one_left]
  -- The number is an odd multiple of the power of two, and only that factor divides 2 ^ 32.
  have hgcd : Nat.gcd w.toNat 4294967296 = 2 ^ n := by
    have hsplit : 4294967296 = 2 ^ n * 2 ^ (32 - n) := by
      rw [← Nat.pow_add, show n + (32 - n) = 32 by omega]
    rw [← Nat.mul_div_cancel' (Nat.dvd_of_mod_eq_zero hmod), hsplit, Nat.gcd_mul_left,
      Nat.Coprime.gcd_eq_one (hcoprime.pow_right _), Nat.mul_one]
  unfold Scan.result
  simp only [Word.unsigned_toInt, hgcd, Nat.log2_two_pow]

theorem result_eq_of_index? (h : op.index? w = some n) : op.result w.toInt = n := by
  cases op with
  | bsr => exact result_bsr_eq h
  | bsf => exact result_bsf_eq h

end Scan

end SolMachine
