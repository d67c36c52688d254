import Mathlib.Data.List.TakeWhile
import SolMachine.Decimal

/-!
# Decimal text of words

* `Decimal.onSide` : a number at a distance from zero;
* `Decimal.readDigits_onSide` : digits are read as the number that they name, if it is in range;
* `Decimal.Numeral`, `Decimal.read_eq_ok_iff` : the texts that name an integer, which are those that are
  read;
* `Decimal.readInt_eq_error` : what is wrong with any other text is told by its sign and its first
  digits, whose number is `Decimal.leadingValue`; so it is `Decimal.fault` (`Decimal.read_eq_fault`);
* `Decimal.write_eq_toString`, `Decimal.toList_write` : the text of a number, and its characters: a sign if it
  is negative, and digits;
* `Decimal.read_write` : the text of a word is read as that word; so different words have different
  texts (`Decimal.write_inj`).
-/

namespace SolMachine.Decimal

/-- The number at distance `n` from zero, on the side of `negative`. -/
def onSide : (negative : Bool) → (n : Nat) → Int
  | true, n => -n
  | false, n => n

/-- A number that a word can hold as a signed number. -/
def InRange (n : Int) : Prop := Word.least ≤ n ∧ n ≤ Word.greatest

instance (n : Int) : Decidable (InRange n) := inferInstanceAs (Decidable (_ ∧ _))

theorem InRange.of_le {negative : Bool} {m n : Nat} (hmn : m ≤ n) (h : InRange (onSide negative n)) :
    InRange (onSide negative m) := by
  have hleast : Word.least = -2147483648 := rfl
  have hgreatest : Word.greatest = 2147483647 := rfl
  cases negative <;> simp only [InRange, onSide] at * <;> omega

theorem inRange_toInt (w : Word) : InRange w.toInt := by
  have hleast : Word.least = -2147483648 := rfl
  have hgreatest : Word.greatest = 2147483647 := rfl
  have hlo := w.le_toInt
  have hhi := w.toInt_lt
  exact ⟨by omega, by omega⟩

theorem toInt_ofInt_of_inRange {n : Int} (h : InRange n) : (BitVec.ofInt 32 n).toInt = n := by
  have hleast : Word.least = -2147483648 := rfl
  have hgreatest : Word.greatest = 2147483647 := rfl
  obtain ⟨hlo, hhi⟩ := h
  exact BitVec.toInt_ofInt_eq_self (by decide) (by omega) (by omega)

/-! ## Reading digits -/

theorem le_ofDigitChars (cs : List Char) (n : Nat) : n ≤ Nat.ofDigitChars 10 cs n := by
  induction cs generalizing n with
  | nil => exact Nat.le_refl n
  | cons c cs ih =>
    rw [Nat.ofDigitChars_cons]
    have hstep := ih (10 * n + (c.toNat - '0'.toNat))
    omega

/-- One more digit. -/
theorem next_onSide (negative : Bool) (n : Nat) (c : Char) :
    (if negative then onSide negative n * 10 - digitValue c
      else onSide negative n * 10 + digitValue c) =
      onSide negative (10 * n + (c.toNat - '0'.toNat)) := by
  unfold digitValue
  cases negative with
  | false => simp only [onSide, Bool.false_eq_true, if_false]; omega
  | true => simp only [onSide, if_true]; omega

theorem readDigits_cons {negative : Bool} {n : Nat} {c : Char} {cs : List Char} (hc : c.isDigit)
    (h : InRange (onSide negative (10 * n + (c.toNat - '0'.toNat)))) :
    readDigits negative (onSide negative n) (c :: cs) =
      readDigits negative (onSide negative (10 * n + (c.toNat - '0'.toNat))) cs := by
  obtain ⟨hlo, hhi⟩ := h
  rw [readDigits, if_pos hc, next_onSide, if_neg (Int.not_lt.2 hlo), if_neg (Int.not_lt.2 hhi)]

/-- Digits are read as the number that they name. -/
theorem readDigits_onSide {negative : Bool} {n : Nat} {cs : List Char} (hcs : ∀ c ∈ cs, c.isDigit)
    (h : InRange (onSide negative (Nat.ofDigitChars 10 cs n))) :
    readDigits negative (onSide negative n) cs =
      .ok (onSide negative (Nat.ofDigitChars 10 cs n)) := by
  induction cs generalizing n with
  | nil => rfl
  | cons c cs ih =>
    obtain ⟨hc, hrest⟩ := List.forall_mem_cons.1 hcs
    rw [Nat.ofDigitChars_cons] at *
    rw [readDigits_cons hc (h.of_le (le_ofDigitChars cs _))]
    exact ih hrest h

/-- Where digits are read, they name the number, and it is in range. -/
theorem readDigits_eq_ok {negative : Bool} {n : Nat} {cs : List Char} {k : Int}
    (hn : InRange (onSide negative n)) (h : readDigits negative (onSide negative n) cs = .ok k) :
    (∀ c ∈ cs, c.isDigit) ∧ k = onSide negative (Nat.ofDigitChars 10 cs n) ∧ InRange k := by
  induction cs generalizing n with
  | nil =>
    obtain rfl := Except.ok.inj h
    exact ⟨List.forall_mem_nil _, rfl, hn⟩
  | cons c cs ih =>
    rw [readDigits, next_onSide] at h
    split at h
    · next hc =>
      dsimp only at h
      split at h
      · cases h
      · next hlo =>
        split at h
        · cases h
        · next hhi =>
          obtain ⟨hdigits, hk, hrange⟩ := ih ⟨Int.not_lt.1 hlo, Int.not_lt.1 hhi⟩ h
          rw [Nat.ofDigitChars_cons]
          exact ⟨List.forall_mem_cons.2 ⟨hc, hdigits⟩, hk, hrange⟩
    · cases h

/-! ## Texts of numbers -/

theorem isDigit_of_mem_repr {n : Nat} : ∀ c ∈ (Nat.repr n).toList, c.isDigit := by
  intro c hc
  rw [Nat.toList_repr] at hc
  exact Nat.isDigit_of_mem_toDigits (by decide) (by decide) hc

theorem toList_repr_ne_nil (n : Nat) : (Nat.repr n).toList ≠ [] := by
  rw [Nat.toList_repr]
  exact Nat.toDigits_ne_nil

theorem ofDigitChars_repr (n : Nat) : Nat.ofDigitChars 10 (Nat.repr n).toList 0 = n := by
  rw [Nat.toList_repr]
  exact Nat.ofDigitChars_ten_toDigits

theorem repr_inj {m n : Nat} (h : Nat.repr m = Nat.repr n) : m = n := by
  rw [← ofDigitChars_repr m, h, ofDigitChars_repr]

/-- An integer is written as usual. -/
theorem write_eq_toString (n : Int) : write n = toString n := by
  unfold write
  cases n with
  | ofNat n => rfl
  | negSucc n =>
    rw [if_pos (Int.negSucc_lt_zero n)]
    rfl

/-- The text of a number is a sign if it is negative, and digits. -/
theorem toList_write (n : Int) :
    (write n).toList = (if n < 0 then ['-'] else []) ++ (Nat.repr n.natAbs).toList := by
  unfold write
  split
  · rw [String.toList_append]
    rfl
  · rfl

theorem toList_write_ne_nil (n : Int) : (write n).toList ≠ [] := by
  rw [toList_write]
  exact fun h => toList_repr_ne_nil _ (List.append_eq_nil_iff.1 h).2

/-- The characters of the text of a number. -/
theorem mem_write {n : Int} {c : Char} (h : c ∈ (write n).toList) : c = '-' ∨ c.isDigit := by
  rw [toList_write, List.mem_append] at h
  rcases h with hsign | hdigit
  · split at hsign
    · exact .inl (List.mem_singleton.1 hsign)
    · cases hsign
  · exact .inr (isDigit_of_mem_repr c hdigit)

theorem readInt_minus {cs : List Char} (h : cs ≠ []) : readInt ('-' :: cs) = readDigits true 0 cs := by
  cases cs with
  | nil => exact absurd rfl h
  | cons c cs => rfl

theorem readInt_digit {c : Char} (hc : c.isDigit) (cs : List Char) :
    readInt (c :: cs) = readDigits false 0 (c :: cs) := by
  unfold readInt
  split
  · next h => cases h
  iterate 4 · next h => cases h; cases hc
  · rfl

theorem readInt_plus {cs : List Char} (h : cs ≠ []) : readInt ('+' :: cs) = readDigits false 0 cs := by
  cases cs with
  | nil => exact absurd rfl h
  | cons c cs => rfl

theorem readInt_write {n : Int} (h : InRange n) : readInt (write n).toList = .ok n := by
  have hvalue := ofDigitChars_repr n.natAbs
  have hside : onSide (decide (n < 0)) n.natAbs = n := by
    by_cases hn : n < 0
    · rw [decide_eq_true hn, onSide]
      omega
    · rw [decide_eq_false hn, onSide]
      omega
  have hread : readDigits (decide (n < 0)) (onSide (decide (n < 0)) 0) _ = _ :=
    readDigits_onSide (isDigit_of_mem_repr (n := n.natAbs)) (by rw [hvalue, hside]; exact h)
  rw [hvalue, hside] at hread
  rw [toList_write]
  by_cases hn : n < 0
  · rw [if_pos hn, List.singleton_append, readInt_minus (toList_repr_ne_nil _)]
    rwa [decide_eq_true hn] at hread
  · rw [decide_eq_false hn] at hread
    rw [if_neg hn, List.nil_append]
    cases hcs : (Nat.repr n.natAbs).toList with
    | nil => exact absurd hcs (toList_repr_ne_nil _)
    | cons c cs =>
      have hc := isDigit_of_mem_repr c (hcs ▸ List.mem_cons_self)
      rw [readInt_digit hc, ← hcs]
      exact hread

/-- The text of a word is read as that word. -/
theorem read_write (w : Word) : read (write w.toInt).toList = .ok w := by
  unfold read
  rw [readInt_write (inRange_toInt w)]
  exact congrArg Except.ok BitVec.ofInt_toInt

/-- Different words have different texts. -/
theorem write_inj {v w : Word} (h : write v.toInt = write w.toInt) : v = w := by
  have hread := read_write v
  rw [h, read_write] at hread
  exact (Except.ok.inj hread).symm

/-! ## Numerals -/

/-- One or more decimal digits. -/
structure Digits (cs : List Char) : Prop where
  ne_nil : cs ≠ []
  isDigit : ∀ c ∈ cs, c.isDigit

/-- The text names an integer: digits, with a sign before them or without one. -/
inductive Numeral : List Char → Int → Prop
  | plain {ds : List Char} : Digits ds → Numeral ds (Nat.ofDigitChars 10 ds 0)
  | plus {ds : List Char} : Digits ds → Numeral ('+' :: ds) (Nat.ofDigitChars 10 ds 0)
  | minus {ds : List Char} : Digits ds → Numeral ('-' :: ds) (-Nat.ofDigitChars 10 ds 0)

theorem inRange_zero (negative : Bool) : InRange (onSide negative 0) := by
  cases negative <;> exact ⟨by decide, by decide⟩

theorem readDigits_eq_ok_iff {cs : List Char} (hne : cs ≠ []) (negative : Bool) {n : Int} :
    readDigits negative 0 cs = .ok n ↔
      Digits cs ∧ n = onSide negative (Nat.ofDigitChars 10 cs 0) ∧ InRange n := by
  have hzero : (0 : Int) = onSide negative 0 := by cases negative <;> rfl
  rw [hzero]
  constructor
  · intro h
    obtain ⟨hdigits, hn, hrange⟩ := readDigits_eq_ok (inRange_zero negative) h
    exact ⟨⟨hne, hdigits⟩, hn, hrange⟩
  · rintro ⟨hdigits, rfl, hrange⟩
    exact readDigits_onSide hdigits.isDigit hrange

/-- The texts that are read are the numerals of integers in range. -/
theorem readInt_eq_ok_iff {cs : List Char} {n : Int} :
    readInt cs = .ok n ↔ Numeral cs n ∧ InRange n := by
  constructor
  · intro h
    unfold readInt at h
    split at h
    · cases h
    · cases h
    · cases h
    · next ds hne =>
      obtain ⟨hdigits, rfl, hrange⟩ := (readDigits_eq_ok_iff hne false).1 h
      exact ⟨.plus hdigits, hrange⟩
    · next ds hne =>
      obtain ⟨hdigits, rfl, hrange⟩ := (readDigits_eq_ok_iff hne true).1 h
      exact ⟨.minus hdigits, hrange⟩
    · next hne _ _ _ _ =>
      obtain ⟨hdigits, rfl, hrange⟩ := (readDigits_eq_ok_iff hne false).1 h
      exact ⟨.plain hdigits, hrange⟩
  · rintro ⟨hnumeral, hrange⟩
    cases hnumeral with
    | plus hdigits =>
      rw [readInt_plus hdigits.ne_nil]
      exact (readDigits_eq_ok_iff hdigits.ne_nil false).2 ⟨hdigits, rfl, hrange⟩
    | minus hdigits =>
      rw [readInt_minus hdigits.ne_nil]
      exact (readDigits_eq_ok_iff hdigits.ne_nil true).2 ⟨hdigits, rfl, hrange⟩
    | plain hdigits =>
      have hread := (readDigits_eq_ok_iff hdigits.ne_nil false).2 ⟨hdigits, rfl, hrange⟩
      cases cs with
      | nil => exact absurd rfl hdigits.ne_nil
      | cons c cs => rwa [readInt_digit (hdigits.isDigit c List.mem_cons_self)]

/-- A word is read from the numerals of its value. -/
theorem read_eq_ok_iff {cs : List Char} {w : Word} : read cs = .ok w ↔ Numeral cs w.toInt := by
  unfold read
  constructor
  · intro h
    cases hn : readInt cs with
    | error e => rw [hn] at h; cases h
    | ok n =>
      rw [hn] at h
      obtain rfl := Except.ok.inj h
      obtain ⟨hnumeral, hrange⟩ := readInt_eq_ok_iff.1 hn
      rwa [toInt_ofInt_of_inRange hrange]
  · intro h
    rw [readInt_eq_ok_iff.2 ⟨h, inRange_toInt w⟩]
    exact congrArg Except.ok BitVec.ofInt_toInt

theorem numeral_write (w : Word) : Numeral (write w.toInt).toList w.toInt :=
  read_eq_ok_iff.1 (read_write w)

/-! ## Texts that are no words -/

/-- Whether the text begins with a minus sign, and what follows its sign, if it has one. -/
def splitSign : List Char → Bool × List Char
  | '-' :: cs => (true, cs)
  | '+' :: cs => (false, cs)
  | cs => (false, cs)

/-- The number that the sign and the digits at the start of the text name. -/
def leadingValue (cs : List Char) : Int :=
  onSide (splitSign cs).1 (Nat.ofDigitChars 10 ((splitSign cs).2.takeWhile Char.isDigit) 0)

/-- What reading one more digit gives where the number leaves the range. -/
def overflow (negative : Bool) : ReadError := if negative then .tooSmall else .tooLarge

theorem readDigits_cons_of_not_inRange {negative : Bool} {n : Nat} {c : Char} {cs : List Char}
    (hc : c.isDigit) (h : ¬ InRange (onSide negative (10 * n + (c.toNat - '0'.toNat)))) :
    readDigits negative (onSide negative n) (c :: cs) = .error (overflow negative) := by
  have hleast : Word.least = -2147483648 := rfl
  have hgreatest : Word.greatest = 2147483647 := rfl
  rw [readDigits, if_pos hc, next_onSide]
  cases negative with
  | false =>
    have hlo : ¬ onSide false (10 * n + (c.toNat - '0'.toNat)) < Word.least := by
      simp only [onSide]
      omega
    have hhi : Word.greatest < onSide false (10 * n + (c.toNat - '0'.toNat)) := by
      simp only [InRange, onSide] at *
      omega
    exact (if_neg hlo).trans (if_pos hhi)
  | true =>
    have hlo : onSide true (10 * n + (c.toNat - '0'.toNat)) < Word.least := by
      simp only [InRange, onSide] at *
      omega
    exact if_pos hlo

/-- Digits whose number is out of range are reported as such, whatever follows them. -/
theorem readDigits_overflow {negative : Bool} {n : Nat} {cs : List Char}
    (hn : InRange (onSide negative n))
    (h : ¬ InRange (onSide negative (Nat.ofDigitChars 10 (cs.takeWhile Char.isDigit) n))) :
    readDigits negative (onSide negative n) cs = .error (overflow negative) := by
  induction cs generalizing n with
  | nil => exact absurd hn h
  | cons c cs ih =>
    by_cases hc : c.isDigit
    · rw [List.takeWhile_cons_of_pos hc, Nat.ofDigitChars_cons] at h
      by_cases hnext : InRange (onSide negative (10 * n + (c.toNat - '0'.toNat)))
      · rw [readDigits_cons hc hnext]
        exact ih hnext h
      · exact readDigits_cons_of_not_inRange hc hnext
    · rw [List.takeWhile_cons_of_neg hc] at h
      exact absurd hn h

/-- Digits whose number is in range are read, and then the first other character is reported. -/
theorem readDigits_badDigit {negative : Bool} {n : Nat} {cs : List Char}
    (h : InRange (onSide negative (Nat.ofDigitChars 10 (cs.takeWhile Char.isDigit) n)))
    (hcs : ¬ ∀ c ∈ cs, c.isDigit) :
    readDigits negative (onSide negative n) cs = .error .badDigit := by
  induction cs generalizing n with
  | nil => exact absurd (List.forall_mem_nil _) hcs
  | cons c cs ih =>
    by_cases hc : c.isDigit
    · rw [List.takeWhile_cons_of_pos hc, Nat.ofDigitChars_cons] at h
      rw [readDigits_cons hc (h.of_le (le_ofDigitChars _ _))]
      exact ih h fun hrest => hcs (List.forall_mem_cons.2 ⟨hc, hrest⟩)
    · rw [readDigits, if_neg hc]

theorem readInt_eq_readDigits {cs : List Char} (h : (splitSign cs).2 ≠ []) :
    readInt cs = readDigits (splitSign cs).1 0 (splitSign cs).2 := by
  unfold splitSign at h ⊢
  split at h
  · exact readInt_minus h
  · exact readInt_plus h
  · next hminus hplus =>
    unfold readInt
    split
    · exact absurd rfl h
    · exact absurd rfl (hplus [])
    · exact absurd rfl (hminus [])
    · next ds _ => exact absurd rfl (hplus ds)
    · next ds _ => exact absurd rfl (hminus ds)
    · rfl

/-- The texts that name integers, by what follows the sign. -/
theorem numeral_iff {cs : List Char} {n : Int} : Numeral cs n ↔
    Digits (splitSign cs).2 ∧ n = onSide (splitSign cs).1 (Nat.ofDigitChars 10 (splitSign cs).2 0) := by
  constructor
  · intro h
    cases h with
    | plus hdigits | minus hdigits => exact ⟨hdigits, rfl⟩
    | plain hdigits =>
      have hsplit : splitSign cs = (false, cs) := by
        unfold splitSign
        split
        · exact absurd (hdigits.isDigit '-' List.mem_cons_self) (by decide)
        · exact absurd (hdigits.isDigit '+' List.mem_cons_self) (by decide)
        · rfl
      rw [hsplit]
      exact ⟨hdigits, rfl⟩
  · rintro ⟨hdigits, rfl⟩
    unfold splitSign at hdigits ⊢
    split
    · exact .minus hdigits
    · exact .plus hdigits
    · next hminus hplus =>
      split at hdigits
      · next ds => exact absurd rfl (hminus ds)
      · next ds => exact absurd rfl (hplus ds)
      · exact .plain hdigits

theorem leadingValue_of_numeral {cs : List Char} {n : Int} (h : Numeral cs n) :
    leadingValue cs = n := by
  obtain ⟨hdigits, rfl⟩ := numeral_iff.1 h
  rw [leadingValue, List.takeWhile_eq_self_iff.2 hdigits.isDigit]

/-- What is wrong with a text that names no number in range: the number of its first digits is out of
range already, or a character that is no digit follows them. -/
theorem readInt_eq_error {cs : List Char} (hne : (splitSign cs).2 ≠ [])
    (h : ¬ ∃ n, Numeral cs n ∧ InRange n) :
    readInt cs = .error (if InRange (leadingValue cs) then .badDigit
      else overflow (splitSign cs).1) := by
  have hzero : (0 : Int) = onSide (splitSign cs).1 0 := by cases (splitSign cs).1 <;> rfl
  rw [readInt_eq_readDigits hne, hzero]
  by_cases hrange : InRange (leadingValue cs)
  · rw [if_pos hrange]
    refine readDigits_badDigit hrange fun hdigits => h ⟨leadingValue cs, ?_, hrange⟩
    refine numeral_iff.2 ⟨⟨hne, hdigits⟩, ?_⟩
    rw [leadingValue, List.takeWhile_eq_self_iff.2 hdigits]
  · rw [if_neg hrange]
    exact readDigits_overflow (inRange_zero _) hrange

/-- What is wrong with a text that names no number in range. -/
def fault (cs : List Char) : ReadError :=
  if cs = [] then .empty
  else if InRange (leadingValue cs) then .badDigit
  else overflow (splitSign cs).1

theorem readInt_eq_fault {cs : List Char} (h : ¬ ∃ n, Numeral cs n ∧ InRange n) :
    readInt cs = .error (fault cs) := by
  unfold fault
  by_cases hnil : (splitSign cs).2 = []
  · unfold splitSign at hnil
    split at hnil
    · subst hnil; rfl
    · subst hnil; rfl
    · subst hnil; rfl
  · have hne : cs ≠ [] := fun hcs => hnil (by rw [hcs]; rfl)
    rw [if_neg hne]
    exact readInt_eq_error hnil h

/-- No word is read from any other text than the numerals of words. -/
theorem read_eq_fault {cs : List Char} (h : ¬ ∃ n, Numeral cs n ∧ InRange n) :
    read cs = .error (fault cs) := by
  unfold read
  rw [readInt_eq_fault h]
  rfl

end SolMachine.Decimal
