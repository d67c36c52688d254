import Mathlib.Data.List.Nodup
import SolMachine.Proofs.Encoding

/-!
# The bits of a word that count

* `Opcode.usesA`, `Opcode.usesB`, `Opcode.lowBits` : the fields that an operation uses;
  `Opcode.uses` : the bits of a word that it uses, those of the code among them;
* `Instruction.Canonical` : a word with the code of an operation and no other bit set than those that
  the operation uses;
* `decode_eq_error_iff` : the words that are no instruction;
* `getLsbD_encode_of_decode` : a word is written back with the bits that count and zeros elsewhere;
  from it `decode_eq_ok_iff` and `exists_encode_eq_iff`;
* `encode_bijective_onto_canonical` : all of it.
-/

namespace SolMachine

/-! ## Fields of an operation -/

namespace Opcode

/-- Whether the operation has a register A. -/
def usesA : Opcode → Bool
  | halt | jne => false
  | _ => true

/-- Whether the operation has a register B. -/
def usesB : Opcode → Bool
  | alu _ | transfer _ | branch _ | jarl | scan _ => true
  | halt | jne | pop | push => false

/-- How many bits the operation uses from the low end: those of register C, those of a displacement,
or none. -/
def lowBits : Opcode → Nat
  | alu _ => 4
  | transfer _ | branch _ | jne => 15
  | jarl | halt | scan _ | pop | push => 0

/-- Whether the operation uses bit `j` of its word: for its code, for register A, for register B, or
for register C or a displacement. -/
def uses (op : Opcode) (j : Nat) : Prop :=
  (23 ≤ j ∧ j < 28) ∨ (op.usesA ∧ 19 ≤ j ∧ j < 23) ∨ (op.usesB ∧ 15 ≤ j ∧ j < 19) ∨ j < op.lowBits

instance (op : Opcode) (j : Nat) : Decidable (op.uses j) :=
  inferInstanceAs (Decidable (_ ∨ _ ∨ _ ∨ _))

theorem nodup_all : all.Nodup := by decide

theorem ofCode?_eq_none_iff (n : Nat) : ofCode? n = none ↔ 21 ≤ n := List.getElem?_eq_none_iff

theorem code_of_ofCode? {n : Nat} {op : Opcode} (h : ofCode? n = some op) : op.code = n := by
  obtain ⟨hn, rfl⟩ := List.getElem?_eq_some_iff.1 h
  exact nodup_all.idxOf_getElem n hn

theorem lowBits_le (op : Opcode) : op.lowBits ≤ 15 := by
  cases op <;> simp [lowBits]

section Uses
variable {op : Opcode} {j : Nat}

theorem uses_low_iff (h : j < 15) : op.uses j ↔ j < op.lowBits := by
  unfold uses
  grind

theorem uses_registerB_iff (h15 : 15 ≤ j) (h19 : j < 19) : op.uses j ↔ op.usesB := by
  have hlow := op.lowBits_le
  unfold uses
  grind

theorem uses_registerA_iff (h19 : 19 ≤ j) (h23 : j < 23) : op.uses j ↔ op.usesA := by
  have hlow := op.lowBits_le
  unfold uses
  grind

theorem uses_code_iff (h23 : 23 ≤ j) : op.uses j ↔ j < 28 := by
  have hlow := op.lowBits_le
  unfold uses
  grind

end Uses

end Opcode

namespace Instruction

/-! ## Bits of a packed word -/

section Fields
variable (code : BitVec 5) (a b c : Register) (low : BitVec 15) (w : Word)

theorem getLsbD_pack (j : Nat) :
    (pack code a b low).getLsbD j =
      if j < 15 then low.getLsbD j
      else if j < 19 then b.val.testBit (j - 15)
      else if j < 23 then a.val.testBit (j - 19)
      else code.getLsbD (j - 23) := by
  unfold pack
  rw [BitVec.getLsbD_append, BitVec.getLsbD_append, BitVec.getLsbD_append, BitVec.getLsbD_append]
  by_cases h15 : j < 15
  · rw [if_pos h15, if_pos h15]
  by_cases h19 : j < 19
  · rw [if_neg h15, if_neg h15, if_pos h19, if_pos (by omega)]
    rfl
  by_cases h23 : j < 23
  · rw [if_neg h15, if_neg h15, if_neg h19, if_pos h23, if_neg (by omega), if_pos (by omega)]
    show a.val.testBit (j - 15 - 4) = _
    rw [show j - 15 - 4 = j - 19 by omega]
  · have hj : j - 15 - 4 - 4 = j - 23 := by omega
    rw [if_neg h15, if_neg h15, if_neg h19, if_neg h23, if_neg (by omega), if_neg (by omega), hj]
    split
    · rfl
    · rw [BitVec.getLsbD_zero, BitVec.getLsbD_of_ge _ _ (by omega)]

theorem getLsbD_packC (j : Nat) : (packC c).getLsbD j = (decide (j < 4) && c.val.testBit j) := by
  unfold packC
  rw [BitVec.getLsbD_append, BitVec.getLsbD_zero]
  by_cases h : j < 4
  · rw [if_pos h, decide_eq_true h, Bool.true_and]
    rfl
  · rw [if_neg h, decide_eq_false h, Bool.false_and]

/-- Bits that are taken out of a word stay what they are. -/
theorem getLsbD_extract {start len j : Nat} (h : start ≤ j) (hj : j < start + len) :
    (w.extractLsb' start len).getLsbD (j - start) = w.getLsbD j := by
  have hlen : j - start < len := by omega
  rw [BitVec.getLsbD_extractLsb', decide_eq_true hlen, Bool.true_and, Nat.add_sub_cancel' h]

theorem testBit_registerA {j : Nat} (h19 : 19 ≤ j) (h23 : j < 23) :
    (registerA w).val.testBit (j - 19) = w.getLsbD j := getLsbD_extract w h19 h23

theorem testBit_registerB {j : Nat} (h15 : 15 ≤ j) (h19 : j < 19) :
    (registerB w).val.testBit (j - 15) = w.getLsbD j := getLsbD_extract w h15 h19

theorem testBit_registerC (j : Nat) :
    (registerC w).val.testBit j = (decide (j < 4) && w.getLsbD j) := by
  have h := BitVec.getLsbD_extractLsb' 0 4 w j
  rwa [Nat.zero_add] at h

theorem getLsbD_field_displacement (j : Nat) :
    (displacement w).field.getLsbD j = (decide (j < 15) && w.getLsbD j) := by
  have h := BitVec.getLsbD_extractLsb' 0 15 w j
  rwa [Nat.zero_add] at h

theorem getLsbD_codeOf {j : Nat} (h23 : 23 ≤ j) :
    (codeOf w).getLsbD (j - 23) = (decide (j < 28) && w.getLsbD j) := by
  by_cases h28 : j < 28
  · rw [decide_eq_true h28, Bool.true_and]
    exact getLsbD_extract w h23 h28
  · rw [decide_eq_false h28, Bool.false_and]
    exact BitVec.getLsbD_of_ge _ _ (by omega)

end Fields

/-- What the operation has in the fifteen low bits. -/
def low (op : Opcode) (c : Register) (d : Displacement) : BitVec 15 :=
  match op with
  | .alu _ => packC c
  | .transfer _ | .branch _ | .jne => d.field
  | .jarl | .halt | .scan _ | .pop | .push => 0#15

/-- The fields that an operation does not use are written as zeros. -/
theorem encode_ofParts (op : Opcode) (a b c : Register) (d : Displacement) :
    (ofParts op a b c d).encode = pack (BitVec.ofNat 5 op.code) (if op.usesA then a else .zero)
      (if op.usesB then b else .zero) (low op c d) := by
  cases op <;> rfl

theorem getLsbD_low (op : Opcode) (w : Word) (j : Nat) :
    (low op (registerC w) (displacement w)).getLsbD j = (decide (j < op.lowBits) && w.getLsbD j) := by
  cases op with
  | alu =>
    show (packC (registerC w)).getLsbD j = (decide (j < 4) && w.getLsbD j)
    rw [getLsbD_packC, testBit_registerC, ← Bool.and_assoc, Bool.and_self]
  | transfer | branch | jne => exact getLsbD_field_displacement w j
  | jarl | halt | scan | pop | push => exact BitVec.getLsbD_zero

/-! ## Reading a word -/

section Decode
variable {w : Word} {i : Instruction Displacement}

theorem toNat_codeOf (w : Word) : (codeOf w).toNat = w.toNat / 8388608 % 32 := by
  rw [codeOf, BitVec.extractLsb'_toNat, Nat.shiftRight_eq_div_pow]

/-- The words that are no instruction are those whose code is above that of every operation. -/
theorem decode_eq_error_iff (w : Word) (k : Nat) :
    decode w = .error k ↔ k = w.toNat / 8388608 % 32 ∧ 21 ≤ k := by
  rw [← toNat_codeOf]
  unfold decode
  cases hop : Opcode.ofCode? (codeOf w).toNat with
  | none =>
    have hcode := (Opcode.ofCode?_eq_none_iff _).1 hop
    simp only [Except.error.injEq]
    constructor
    · rintro rfl
      exact ⟨rfl, hcode⟩
    · rintro ⟨rfl, -⟩
      rfl
  | some op =>
    simp only [reduceCtorEq, false_iff]
    rintro ⟨rfl, hk⟩
    rw [(Opcode.ofCode?_eq_none_iff _).2 hk] at hop
    cases hop

/-- The parts of the instruction of a word. -/
theorem parts_of_decode (h : decode w = .ok i) :
    Opcode.ofCode? (codeOf w).toNat = some i.opcode ∧
      i = ofParts i.opcode (registerA w) (registerB w) (registerC w) (displacement w) := by
  unfold decode at h
  cases hop : Opcode.ofCode? (codeOf w).toNat with
  | none => rw [hop] at h; cases h
  | some op =>
    rw [hop] at h
    obtain rfl := Except.ok.inj h
    rw [opcode_ofParts]
    exact ⟨rfl, rfl⟩

theorem code_of_decode (h : decode w = .ok i) : i.opcode.code = w.toNat / 8388608 % 32 := by
  rw [← toNat_codeOf]
  exact Opcode.code_of_ofCode? (parts_of_decode h).1

theorem ofNat_code_of_decode (h : decode w = .ok i) : BitVec.ofNat 5 i.opcode.code = codeOf w := by
  apply BitVec.eq_of_toNat_eq
  rw [code_of_decode h, ← toNat_codeOf, BitVec.toNat_ofNat, Nat.mod_eq_of_lt (codeOf w).isLt]

/-- A word is written back with the bits that count and zeros elsewhere. -/
theorem getLsbD_encode_of_decode (h : decode w = .ok i) (j : Nat) :
    i.encode.getLsbD j = (decide (i.opcode.uses j) && w.getLsbD j) := by
  have hzero : ∀ k, Register.zero.val.testBit k = false := Nat.zero_testBit
  conv_lhs => rw [(parts_of_decode h).2]
  rw [encode_ofParts, getLsbD_pack, ofNat_code_of_decode h, getLsbD_low]
  generalize i.opcode = op
  by_cases h15 : j < 15
  · simp only [if_pos h15, Opcode.uses_low_iff h15]
  rw [if_neg h15]
  rw [Nat.not_lt] at h15
  by_cases h19 : j < 19
  · simp only [if_pos h19, Opcode.uses_registerB_iff h15 h19]
    cases op.usesB with
    | true => exact testBit_registerB w h15 h19
    | false => exact hzero _
  rw [if_neg h19]
  rw [Nat.not_lt] at h19
  by_cases h23 : j < 23
  · simp only [if_pos h23, Opcode.uses_registerA_iff h19 h23]
    cases op.usesA with
    | true => exact testBit_registerA w h19 h23
    | false => exact hzero _
  rw [if_neg h23]
  rw [Nat.not_lt] at h23
  simp only [Opcode.uses_code_iff h23]
  exact getLsbD_codeOf w h23

/-- The words of one instruction are those that agree on the bits that count. -/
theorem decode_eq_ok_iff (h : decode w = .ok i) (v : Word) :
    decode v = .ok i ↔ ∀ j, i.opcode.uses j → v.getLsbD j = w.getLsbD j := by
  constructor
  · intro hv j hj
    have hbits := (getLsbD_encode_of_decode hv j).symm.trans (getLsbD_encode_of_decode h j)
    rwa [decide_eq_true hj, Bool.true_and, Bool.true_and] at hbits
  · intro hagree
    -- The code counts for every operation, so the two words have the same one,
    have hcode : codeOf v = codeOf w := by
      apply BitVec.eq_of_getLsbD_eq
      intro k hk
      have hbit := hagree (23 + k) ((Opcode.uses_code_iff (by omega)).2 (by omega))
      rw [codeOf, codeOf, BitVec.getLsbD_extractLsb', BitVec.getLsbD_extractLsb', hbit]
    obtain ⟨i', hv, hop⟩ : ∃ i', decode v = .ok i' ∧ i'.opcode = i.opcode := by
      unfold decode
      rw [hcode, (parts_of_decode h).1]
      exact ⟨_, rfl, opcode_ofParts ..⟩
    -- and what they are written back as has the same bits.
    have hencode : i'.encode = i.encode := by
      apply BitVec.eq_of_getLsbD_eq
      intro j _
      rw [getLsbD_encode_of_decode hv, getLsbD_encode_of_decode h, hop]
      by_cases hj : i.opcode.uses j
      · rw [hagree j hj]
      · rw [decide_eq_false hj, Bool.false_and, Bool.false_and]
    rw [hv, ← decode_encode i', hencode, decode_encode]

end Decode

/-! ## Words that are written -/

theorem encode_eq_pack (i : Instruction Displacement) :
    ∃ a b low, i.encode = pack (BitVec.ofNat 5 i.opcode.code) a b low := by
  cases i <;> exact ⟨_, _, _, rfl⟩

/-- The words of instructions are nonnegative, and the code is all that stands above their fields. -/
theorem toNat_encode_lt (i : Instruction Displacement) : i.encode.toNat < 21 * 8388608 := by
  obtain ⟨a, b, low, h⟩ := encode_eq_pack i
  have hcode := i.opcode.code_lt
  have hlow := low.isLt
  rw [h, toNat_pack, BitVec.toNat_ofNat]
  omega

theorem toInt_encode (i : Instruction Displacement) : i.encode.toInt = i.encode.toNat := by
  have hlt := toNat_encode_lt i
  rw [BitVec.toInt_eq_toNat_cond, if_pos (by omega)]

/-- A word with the code of an operation, and with no other bit set than those that the operation
uses. -/
def Canonical (w : Word) : Prop :=
  ∃ op : Opcode, op.code = w.toNat / 8388608 % 32 ∧ ∀ j, w.getLsbD j → op.uses j

theorem canonical_encode (i : Instruction Displacement) : Canonical i.encode := by
  refine ⟨i.opcode, code_of_decode (decode_encode i), fun j hj => ?_⟩
  have hbit := getLsbD_encode_of_decode (decode_encode i) j
  rw [hj, Bool.and_true] at hbit
  exact of_decide_eq_true hbit.symm

/-- The words of instructions are the canonical ones. -/
theorem exists_encode_eq_iff (w : Word) :
    (∃ i : Instruction Displacement, i.encode = w) ↔ Canonical w := by
  constructor
  · rintro ⟨i, rfl⟩
    exact canonical_encode i
  · rintro ⟨op, hcode, hbits⟩
    have hof : Opcode.ofCode? (codeOf w).toNat = some op := by
      rw [toNat_codeOf, ← hcode, Opcode.ofCode?_code]
    obtain ⟨i, hi, hop⟩ : ∃ i, decode w = .ok i ∧ i.opcode = op := by
      unfold decode
      rw [hof]
      exact ⟨_, rfl, opcode_ofParts ..⟩
    refine ⟨i, BitVec.eq_of_getLsbD_eq fun j _ => ?_⟩
    rw [getLsbD_encode_of_decode hi, hop]
    cases hj : w.getLsbD j with
    | false => rw [Bool.and_false]
    | true => rw [decide_eq_true (hbits j hj), Bool.true_and]

/-- Every instruction is read back from its word, and the words of instructions are the canonical
ones. A word with the code of no operation is none; any other is written back with the bits that its
operation uses and zeros elsewhere, so two words are the same instruction if they agree on those bits,
and writing back once more changes nothing. -/
theorem encode_bijective_onto_canonical :
    (∀ i : Instruction Displacement, decode i.encode = .ok i ∧
      0 ≤ i.encode.toInt ∧ i.encode.toInt < 21 * 8388608) ∧
    (∀ w, (∃ i : Instruction Displacement, i.encode = w) ↔ Canonical w) ∧
    (∀ w k, decode w = .error k ↔ k = w.toNat / 8388608 % 32 ∧ 21 ≤ k) ∧
    ∀ w i, decode w = .ok i →
      (∀ j, i.encode.getLsbD j = (decide (i.opcode.uses j) && w.getLsbD j)) ∧
      (∀ v, decode v = .ok i ↔ ∀ j, i.opcode.uses j → v.getLsbD j = w.getLsbD j) ∧
      (decode i.encode).map encode = .ok i.encode := by
  refine ⟨fun i => ?_, exists_encode_eq_iff, decode_eq_error_iff, fun w i h => ?_⟩
  · have hlt := toNat_encode_lt i
    rw [toInt_encode]
    exact ⟨decode_encode i, by omega, by omega⟩
  · refine ⟨getLsbD_encode_of_decode h, decode_eq_ok_iff h, ?_⟩
    rw [decode_encode]
    rfl

/-- A negative word with bits set in fields that `halt` does not use is a `halt` all the same. -/
theorem encode_bijective_onto_canonical_halt :
    decode (-218103801) = .ok .halt ∧
      (∀ v, decode v = .ok .halt ↔
        ∀ j, Opcode.halt.uses j → v.getLsbD j = (-218103801 : Word).getLsbD j) ∧
      (decode (encode .halt)).map encode = .ok 50331648 := by
  have hread : decode (-218103801) = .ok .halt := by decide +kernel
  obtain ⟨-, hsame, hagain⟩ := encode_bijective_onto_canonical.2.2.2 _ _ hread
  exact ⟨hread, hsame, hagain⟩

end Instruction

end SolMachine
