import SolMachine.Isa.Encoding

/-!
# Reading an instruction word back

* `toNat_pack` : a word of four fields as a number, each field in its place; from it
  `codeOf_pack`, `registerA_pack`, `registerB_pack`, `registerC_pack`, `displacement_pack`;
* `decode_encode` : the word of an instruction is read as that instruction.

Bits that an operation does not use are lost the other way round, so only this direction holds of
every operand.
-/

namespace SolMachine.Instruction

/-! ## Fields of a word -/

section Fields
variable (code : BitVec 5) (a b c : Register) (low : BitVec 15)

theorem toNat_pack :
    (pack code a b low).toNat =
      code.toNat * 8388608 + a.val * 524288 + b.val * 32768 + low.toNat := by
  have hlow := low.isLt
  unfold pack
  simp only [BitVec.toNat_append, BitVec.toNat_ofFin, BitVec.toNat_zero, Nat.zero_shiftLeft,
    Nat.zero_or]
  rw [← Nat.shiftLeft_add_eq_or_of_lt hlow, ← Nat.shiftLeft_add_eq_or_of_lt b.isLt,
    ← Nat.shiftLeft_add_eq_or_of_lt a.isLt]
  simp only [Nat.shiftLeft_eq]
  omega

theorem codeOf_pack : codeOf (pack code a b low) = code := by
  have hcode := code.isLt
  have hlow := low.isLt
  apply BitVec.eq_of_toNat_eq
  rw [codeOf, BitVec.extractLsb'_toNat, toNat_pack, Nat.shiftRight_eq_div_pow]
  omega

theorem registerA_pack : registerA (pack code a b low) = a := by
  have hlow := low.isLt
  apply Fin.ext
  show ((pack code a b low).extractLsb' 19 4).toNat = a.val
  rw [BitVec.extractLsb'_toNat, toNat_pack, Nat.shiftRight_eq_div_pow]
  omega

theorem registerB_pack : registerB (pack code a b low) = b := by
  have hlow := low.isLt
  apply Fin.ext
  show ((pack code a b low).extractLsb' 15 4).toNat = b.val
  rw [BitVec.extractLsb'_toNat, toNat_pack, Nat.shiftRight_eq_div_pow]
  omega

theorem displacement_pack : displacement (pack code a b low) = ⟨low⟩ := by
  have hlow := low.isLt
  unfold displacement
  congr 1
  apply BitVec.eq_of_toNat_eq
  rw [BitVec.extractLsb'_toNat, toNat_pack, Nat.shiftRight_eq_div_pow]
  omega

theorem toNat_packC : (packC c).toNat = c.val := by
  unfold packC
  rw [BitVec.toNat_append, BitVec.toNat_zero, Nat.zero_shiftLeft, Nat.zero_or, BitVec.toNat_ofFin]

theorem registerC_pack : registerC (pack code a b (packC c)) = c := by
  apply Fin.ext
  show ((pack code a b (packC c)).extractLsb' 0 4).toNat = c.val
  rw [BitVec.extractLsb'_toNat, toNat_pack, toNat_packC, Nat.shiftRight_eq_div_pow]
  omega

end Fields

/-! ## The whole word -/

theorem toNat_codeOf_encode (i : Instruction Displacement) :
    (codeOf i.encode).toNat = i.opcode.code := by
  have hlt := i.opcode.code_lt
  have hcode : (BitVec.ofNat 5 i.opcode.code).toNat = i.opcode.code := by
    rw [BitVec.toNat_ofNat]
    omega
  rw [← hcode]
  cases i <;> simp only [encode, codeOf_pack]

/-- The word of an instruction is read as that instruction. -/
theorem decode_encode (i : Instruction Displacement) : decode i.encode = .ok i := by
  unfold decode
  rw [toNat_codeOf_encode, Opcode.ofCode?_code]
  cases i <;>
    simp only [opcode, ofParts, encode, registerA_pack, registerB_pack, registerC_pack,
      displacement_pack]

end SolMachine.Instruction
