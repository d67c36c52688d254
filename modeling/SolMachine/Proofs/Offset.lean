import SolMachine.Isa.Offset

/-!
# The values of an offset

* `ofInt` : the offset whose field holds the low bits of an integer;
* `toInt_value_ofInt` : it has that integer as its value, if `n` bits can hold it;
* `ofInt?_eq` : `ofInt?` succeeds on the integers from `-bound n` up to `bound n`, and nowhere else.
-/

namespace SolMachine.Offset

variable {n : Nat}

/-- The offset whose field holds the low `n` bits of an integer. -/
def ofInt (n : Nat) (i : Int) : Offset n := ⟨BitVec.ofInt n i⟩

theorem toInt_value (hn : n ≤ 32) (o : Offset n) : o.value.toInt = o.field.toInt := by
  unfold value
  exact BitVec.toInt_signExtend_of_le hn

theorem bound_le_toInt (x : BitVec n) : -bound n ≤ x.toInt ∧ x.toInt < bound n := by
  have hlo := BitVec.le_toInt x
  have hhi := BitVec.toInt_lt (x := x)
  unfold bound
  rw [Nat.shiftLeft_eq, Nat.one_mul, Int.natCast_pow]
  exact ⟨hlo, hhi⟩

theorem toInt_ofInt_of_bound (h0 : 0 < n) {i : Int} (hlo : -bound n ≤ i) (hhi : i < bound n) :
    (BitVec.ofInt n i).toInt = i := by
  unfold bound at hlo hhi
  rw [Nat.shiftLeft_eq, Nat.one_mul, Int.natCast_pow] at hlo hhi
  exact BitVec.toInt_ofInt_eq_self h0 hlo hhi

theorem toInt_value_mem (hn : n ≤ 32) (o : Offset n) :
    -bound n ≤ o.value.toInt ∧ o.value.toInt < bound n := by
  rw [toInt_value hn]
  exact bound_le_toInt o.field

/-- Nothing is lost of an integer that `n` bits can hold. -/
theorem toInt_value_ofInt (h0 : 0 < n) (hn : n ≤ 32) {i : Int} (hlo : -bound n ≤ i)
    (hhi : i < bound n) : (ofInt n i).value.toInt = i := by
  rw [toInt_value hn]
  exact toInt_ofInt_of_bound h0 hlo hhi

theorem value_ofInt (h0 : 0 < n) (hn : n ≤ 32) {i : Int} (hlo : -bound n ≤ i)
    (hhi : i < bound n) : (ofInt n i).value = BitVec.ofInt 32 i := by
  rw [← BitVec.ofInt_toInt (x := (ofInt n i).value), toInt_value_ofInt h0 hn hlo hhi]

theorem wrap_value (hn : n ≤ 32) (o : Offset n) : wrap n o.value = o := by
  have hfield : o.value.setWidth n = o.field := by
    apply BitVec.eq_of_getLsbD_eq
    intro i hi
    have hi32 : i < 32 := by omega
    unfold value
    rw [BitVec.getLsbD_setWidth, BitVec.getLsbD_signExtend]
    simp only [hi, hi32, decide_true, Bool.true_and, if_true]
  unfold wrap
  rw [hfield]

theorem ofInt_toInt_value (hn : n ≤ 32) (o : Offset n) : ofInt n o.value.toInt = o := by
  rw [toInt_value hn, ofInt, BitVec.ofInt_toInt]

theorem fit?_value (hn : n ≤ 32) (o : Offset n) : fit? n o.value = some o := by
  unfold fit?
  rw [wrap_value hn, if_pos rfl]

theorem value_of_fit? {w : Word} {o : Offset n} (h : fit? n w = some o) : o.value = w := by
  unfold fit? at h
  split at h
  · next hw => exact Option.some.inj h ▸ hw
  · cases h

/-- `ofInt?` succeeds on the integers that `n` bits can hold, and nowhere else. -/
theorem ofInt?_eq (h0 : 0 < n) (hn : n ≤ 32) (i : Int) :
    ofInt? n i = if -bound n ≤ i ∧ i < bound n then some (ofInt n i) else none := by
  unfold ofInt?
  split
  · next h =>
    obtain ⟨hlo, hhi⟩ := h
    rw [← value_ofInt h0 hn hlo hhi]
    simp only [toInt_value_ofInt h0 hn hlo hhi, if_true, fit?_value hn]
  · next h =>
    by_cases hw : (BitVec.ofInt 32 i).toInt = i
    · simp only [hw, if_true]
      cases hf : fit? n (BitVec.ofInt 32 i) with
      | none => rfl
      | some o =>
        have hrange := toInt_value_mem hn o
        rw [value_of_fit? hf, hw] at hrange
        exact absurd hrange h
    · simp only [hw, if_false]

end SolMachine.Offset
