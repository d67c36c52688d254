import Mathlib.Data.Int.ModEq
import SolMachine.Proofs.Offset

/-!
# Offsets in two's complement

* `InRange` : the integers that `n` bits can hold; `inRange_value` : the value of an offset is one;
* `wrap_eq_ofInt`, `ofInt_eq_iff` : the low bits of a word are those of its number, and integers have the
  same low bits exactly if they are congruent modulo `2 ^ n`;
* `toInt_value_wrap_iff`, `toInt_bits_wrap_iff` : so the low bits stand for one integer of each range,
  the signed one and the one from 0 on;
* `exists_fit?_iff` : the words that fit are those in range;
* `value_wrap_eq_shifts`, `bits_eq_mask` : value and bits by operations on whole words;
* `TwosComplement`, `twosComplement` : all this holds of every width from 1 to 32.
-/

namespace SolMachine.Offset

variable {n : Nat} {i j : Int} {w : Word} {o : Offset n}

/-! ## Ranges -/

/-- The integer is one that `n` bits can hold. -/
def InRange (n : Nat) (i : Int) : Prop := -2 ^ (n - 1) ≤ i ∧ i ≤ 2 ^ (n - 1) - 1

instance (n : Nat) (i : Int) : Decidable (InRange n i) := inferInstanceAs (Decidable (_ ∧ _))

theorem bound_eq (n : Nat) : bound n = 2 ^ (n - 1) := by
  unfold bound
  rw [Nat.shiftLeft_eq, Nat.one_mul, Nat.cast_pow]
  rfl

theorem inRange_iff : InRange n i ↔ -bound n ≤ i ∧ i < bound n := by
  unfold InRange
  rw [bound_eq, Int.le_sub_one_iff]

theorem inRange_value (hn : n ≤ 32) (o : Offset n) : InRange n o.value.toInt :=
  inRange_iff.2 (toInt_value_mem hn o)

theorem toInt_value_ofInt_of_inRange (h0 : 1 ≤ n) (hn : n ≤ 32) (h : InRange n i) :
    (ofInt n i).value.toInt = i := by
  obtain ⟨hlo, hhi⟩ := inRange_iff.1 h
  exact toInt_value_ofInt h0 hn hlo hhi

/-! ## Low bits -/

/-- The low bits of a word are those of its number. -/
theorem wrap_eq_ofInt (hn : n ≤ 32) (w : Word) : wrap n w = ofInt n w.toInt := by
  unfold wrap ofInt
  rw [← BitVec.signExtend_eq_setWidth_of_le w hn, BitVec.signExtend]

theorem toNat_field_ofInt (n : Nat) (i : Int) : ((ofInt n i).field.toNat : Int) = i % 2 ^ n := by
  have hpos : (0 : Int) < 2 ^ n := Int.pow_pos (by decide)
  have hcast : ((2 ^ n : Nat) : Int) = 2 ^ n := Nat.cast_pow 2 n
  unfold ofInt
  rw [BitVec.toNat_ofInt, hcast]
  exact Int.toNat_of_nonneg (Int.emod_nonneg i hpos.ne')

/-- Integers have the same low bits exactly if they are congruent. -/
theorem ofInt_eq_iff : ofInt n i = ofInt n j ↔ i ≡ j [ZMOD 2 ^ n] := by
  unfold Int.ModEq
  rw [← toNat_field_ofInt, ← toNat_field_ofInt]
  constructor
  · intro h
    rw [h]
  · intro h
    apply congrArg Offset.mk
    apply BitVec.eq_of_toNat_eq
    exact Int.ofNat_inj.1 h

/-- As a signed number the low bits are the integer of the range that is congruent to the word. -/
theorem toInt_value_wrap_iff (h0 : 1 ≤ n) (hn : n ≤ 32) :
    (wrap n w).value.toInt = i ↔ InRange n i ∧ i ≡ w.toInt [ZMOD 2 ^ n] := by
  rw [wrap_eq_ofInt hn]
  constructor
  · rintro rfl
    exact ⟨inRange_value hn _, ofInt_eq_iff.1 (ofInt_toInt_value hn _)⟩
  · rintro ⟨hrange, hcongruent⟩
    rw [← ofInt_eq_iff.2 hcongruent]
    exact toInt_value_ofInt_of_inRange h0 hn hrange

/-- Below 32 bits a zero stands above the field, so as a word it is not negative. -/
theorem toInt_bits (hn : n < 32) (o : Offset n) : o.bits.toInt = o.field.toNat := by
  have hbits : o.bits.toNat = o.field.toNat := BitVec.toNat_setWidth_of_le (by omega)
  have hlt := o.field.isLt
  have hle : 2 ^ n ≤ 2 ^ 31 := Nat.pow_le_pow_right (by decide) (by omega)
  rw [BitVec.toInt_eq_toNat_of_lt (by omega), hbits]

/-- As they stand the low bits are the integer from 0 on that is congruent to the word. -/
theorem toInt_bits_wrap_iff (hn : n < 32) :
    (wrap n w).bits.toInt = i ↔ (0 ≤ i ∧ i < 2 ^ n) ∧ i ≡ w.toInt [ZMOD 2 ^ n] := by
  have hpos : (0 : Int) < 2 ^ n := Int.pow_pos (by decide)
  rw [toInt_bits hn, wrap_eq_ofInt (by omega), toNat_field_ofInt]
  constructor
  · rintro rfl
    exact ⟨⟨Int.emod_nonneg _ hpos.ne', Int.emod_lt_of_pos _ hpos⟩, Int.mod_modEq _ _⟩
  · rintro ⟨⟨hlo, hhi⟩, hcongruent⟩
    rw [← hcongruent, Int.emod_eq_of_lt hlo hhi]

/-- The bits of an offset are read back as that offset. -/
theorem wrap_bits (hn : n ≤ 32) (o : Offset n) : wrap n o.bits = o := by
  unfold wrap bits
  rw [BitVec.setWidth_setWidth_of_le _ hn, BitVec.setWidth_eq]

/-! ## Words that fit -/

theorem fit?_eq_some_iff (hn : n ≤ 32) : fit? n w = some o ↔ o.value = w := by
  constructor
  · exact value_of_fit?
  · rintro rfl
    exact fit?_value hn o

/-- A word fits exactly if its number is in range. -/
theorem exists_fit?_iff (h0 : 1 ≤ n) (hn : n ≤ 32) :
    (∃ o, fit? n w = some o) ↔ InRange n w.toInt := by
  constructor
  · rintro ⟨o, h⟩
    rw [← value_of_fit? h]
    exact inRange_value hn o
  · intro h
    refine ⟨ofInt n w.toInt, (fit?_eq_some_iff hn).2 ?_⟩
    apply BitVec.eq_of_toInt_eq
    exact toInt_value_ofInt_of_inRange h0 hn h

/-! ## Operations on whole words -/

/-- The low bits are moved to the top of the word, and back with copies of the highest of them. -/
theorem value_wrap_eq_shifts (h0 : 1 ≤ n) (hn : n ≤ 32) (w : Word) :
    (wrap n w).value = (w <<< (32 - n)).sshiftRight (32 - n) := by
  apply BitVec.eq_of_getLsbD_eq
  intro k hk
  unfold value wrap
  rw [BitVec.getLsbD_signExtend, BitVec.getLsbD_sshiftRight]
  by_cases hin : k < n
  · -- Bit `k` is at `32 - n + k` in between.
    have hback : 32 - n + k - (32 - n) = k := by omega
    rw [if_pos hin, if_pos (by omega), BitVec.getLsbD_setWidth, BitVec.getLsbD_shiftLeft, hback]
    simp [hk, hin, show ¬ 32 ≤ k by omega, show 32 - n + k < 32 by omega,
      show ¬ 32 - n + k < 32 - n by omega]
  · -- The highest of the low bits is at the top in between.
    have htop : 32 - 1 - (32 - n) = n - 1 := by omega
    rw [if_neg hin, if_neg (by omega), BitVec.msb_setWidth, BitVec.msb_eq_getLsbD_last,
      BitVec.getLsbD_shiftLeft, htop]
    simp [hk, show ¬ 32 ≤ k by omega, show 0 < n by omega, show ¬ 31 < 32 - n by omega]

/-- A mask of `n` ones keeps the bits of the field. -/
theorem bits_eq_mask (hn : n < 32) (o : Offset n) : o.bits = o.value &&& (1#32 <<< n - 1#32) := by
  have hpow : 2 ^ n ≤ 2 ^ 31 := Nat.pow_le_pow_right (by decide) (by omega)
  have hpos : 0 < 2 ^ n := Nat.two_pow_pos n
  have hone : (1#32 <<< n).toNat = 2 ^ n := by
    rw [BitVec.toNat_shiftLeft, BitVec.toNat_ofNat, Nat.shiftLeft_eq]
    omega
  have hmask : (1#32 <<< n - 1#32).toNat = 2 ^ n - 1 := by
    rw [BitVec.toNat_sub_of_le (BitVec.le_def.2 (by rw [hone]; exact hpos)), hone]
    rfl
  have hfield : o.value.setWidth n = o.field := congrArg field (wrap_value (by omega) o)
  apply BitVec.eq_of_toNat_eq
  rw [BitVec.toNat_and, hmask, Nat.and_two_pow_sub_one_eq_mod, ← BitVec.toNat_setWidth, hfield]
  exact BitVec.toNat_setWidth_of_le (by omega)

/-! ## All widths -/

theorem checkWidth_eq_ok_iff : checkWidth n = .ok () ↔ 1 ≤ n ∧ n ≤ 32 := by
  unfold checkWidth
  split
  · next h => exact ⟨fun _ => h, fun _ => rfl⟩
  · next h => exact ⟨nofun, fun hn => absurd hn h⟩

/-- What words become as offsets of `n` bits, and which numbers these have. -/
structure TwosComplement (n : Nat) : Prop where
  allowed : checkWidth n = .ok ()
  /-- The words in range fit, and no other. -/
  fits : ∀ w, (∃ o, fit? n w = some o) ↔ InRange n w.toInt
  /-- Nothing of a word that fits is lost, and its low bits are the same offset. -/
  kept : ∀ w o, fit? n w = some o → o.value = w ∧ wrap n w = o
  /-- The low bits of any word have as their value the one integer in range that is congruent to it. -/
  signed : ∀ w i, (wrap n w).value.toInt = i ↔ InRange n i ∧ i ≡ w.toInt [ZMOD 2 ^ n]
  /-- As they stand in a field they are the one below `2 ^ n`, from 0 on. -/
  unsigned : n < 32 → ∀ w i,
    (wrap n w).bits.toInt = i ↔ (0 ≤ i ∧ i < 2 ^ n) ∧ i ≡ w.toInt [ZMOD 2 ^ n]
  whole : n = 32 → ∀ w, (wrap n w).bits = w
  reread : ∀ o : Offset n, wrap n o.bits = o
  shifted : ∀ w : Word, (wrap n w).value = (w <<< (32 - n)).sshiftRight (32 - n)
  masked : n < 32 → ∀ o : Offset n, o.bits = o.value &&& (1#32 <<< n - 1#32)

/-- Offsets of every width are in two's complement. -/
theorem twosComplement (h0 : 1 ≤ n) (hn : n ≤ 32) : TwosComplement n where
  allowed := checkWidth_eq_ok_iff.2 ⟨h0, hn⟩
  fits w := exists_fit?_iff h0 hn
  kept w o h := by
    obtain rfl := value_of_fit? h
    exact ⟨rfl, wrap_value hn o⟩
  signed w i := toInt_value_wrap_iff h0 hn
  unsigned hlt w i := toInt_bits_wrap_iff hlt
  whole hfull w := by
    subst hfull
    unfold bits wrap
    rw [BitVec.setWidth_eq, BitVec.setWidth_eq]
  reread := wrap_bits hn
  shifted := value_wrap_eq_shifts h0 hn
  masked hlt o := bits_eq_mask hlt o

/-- At 15 bits: the first word that does not fit, which becomes the least number; a longer word, of
which the low bits count; and the field of a negative number. -/
theorem twosComplement_fifteen :
    (¬ ∃ o, fit? 15 16384 = some o) ∧ (wrap 15 16384).value.toInt = -16384 ∧
      (wrap 15 0x18005).value.toInt = 5 ∧ (wrap 15 (-3)).bits.toInt = 0x7FFD := by
  have h : TwosComplement 15 := twosComplement (by decide) (by decide)
  refine ⟨fun hfits => ?_, (h.signed _ _).2 ?_, (h.signed _ _).2 ?_, (h.unsigned (by decide) _ _).2 ?_⟩
  · exact absurd ((h.fits 16384).1 hfits) (by decide)
  · decide
  · decide
  · decide

end SolMachine.Offset
