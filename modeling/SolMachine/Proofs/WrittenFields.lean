import Mathlib.Data.List.TakeWhile
import SolMachine.Assembly.Field
import SolMachine.Text.WordChar
import SolMachine.Proofs.Decimals

/-!
# Fields that are written

* `Text.isVisible` : the characters that words are written with; none of them separates;
* `spaced`, `chars_splitFields_spaced` : words that follow spaces are read as fields;
* `isWord_write` : the text of a number is such a word.
-/

namespace SolMachine.Text

/-- Whether the character is an ASCII character that is neither blank nor a control character. -/
def isVisible (c : Char) : Bool := decide (33 ≤ c.toNat ∧ c.toNat < 127)

section Visible
variable {c : Char}

theorem isAlpha_iff_toNat :
    c.isAlpha ↔ 65 ≤ c.toNat ∧ c.toNat ≤ 90 ∨ 97 ≤ c.toNat ∧ c.toNat ≤ 122 := by
  show (decide ('A'.val ≤ c.val ∧ c.val ≤ 'Z'.val) ||
    decide ('a'.val ≤ c.val) && decide (c.val ≤ 'z'.val)) = true ↔ _
  simp only [Bool.or_eq_true, Bool.and_eq_true, decide_eq_true_eq, UInt32.le_iff_toNat_le]
  exact Iff.rfl

theorem isDigit_iff_toNat : c.isDigit ↔ 48 ≤ c.toNat ∧ c.toNat ≤ 57 := Char.isDigit_iff_toNat

theorem isVisible_of_isAlpha (h : c.isAlpha) : isVisible c := by
  rw [isAlpha_iff_toNat] at h
  exact decide_eq_true (by omega)

theorem isVisible_of_isDigit (h : c.isDigit) : isVisible c := by
  rw [isDigit_iff_toNat] at h
  exact decide_eq_true (by omega)

theorem isVisible_of_isAlphanum (h : c.isAlphanum) : isVisible c := by
  rcases Bool.or_eq_true_iff.1 h with halpha | hdigit
  · exact isVisible_of_isAlpha halpha
  · exact isVisible_of_isDigit hdigit

theorem isBlank_of_isVisible (h : isVisible c) : isBlank c = false := by
  have hrange := of_decide_eq_true h
  unfold isBlank
  simp only [Bool.or_eq_false_iff, Bool.and_eq_false_iff, decide_eq_false_iff_not, beq_eq_false_iff_ne]
  omega

theorem isDecimalDigit_of_isDigit (h : c.isDigit) : isDecimalDigit c := by
  have hrange := isDigit_iff_toNat.1 h
  rw [isDecimalDigit_ascii (by omega)]
  exact h

theorem isWordChar_of_isAlphanum (h : c.isAlphanum) : isWordChar c := by
  have hrange := of_decide_eq_true (isVisible_of_isAlphanum h)
  rw [isWordChar_ascii (by omega), h]
  rfl

theorem isDecimalDigit_of_isAlpha (h : c.isAlpha) : isDecimalDigit c = false := by
  have hrange := isAlpha_iff_toNat.1 h
  rw [isDecimalDigit_ascii (by omega), ← Bool.not_eq_true, isDigit_iff_toNat]
  omega

end Visible

end SolMachine.Text

namespace SolMachine.Assembly
open SolMachine.Text

/-! ## Fields -/

section Fields
variable {pos : Nat} {w cs : List Char} {ws : List (List Char)}

theorem splitFields_eq (pos : Nat) (cs : List Char) : splitFields pos cs =
    match cs.dropWhile isBlank with
    | [] => []
    | c :: rest =>
      let start := pos + byteLength (cs.takeWhile isBlank)
      let word := c :: rest.takeWhile fun d => !isBlank d
      ⟨start, word⟩ :: splitFields (start + byteLength word) (rest.dropWhile fun d => !isBlank d) := by
  rw [splitFields]
  split <;> simp only [*]

theorem splitFields_blank {c : Char} (hc : isBlank c) (pos : Nat) (cs : List Char) :
    splitFields pos (c :: cs) = splitFields (pos + c.utf8Size) cs := by
  have hstart : pos + byteLength (c :: cs.takeWhile isBlank) =
      pos + c.utf8Size + byteLength (cs.takeWhile isBlank) := by
    rw [byteLength_cons, ← Nat.add_assoc]
  rw [splitFields_eq, splitFields_eq (pos + c.utf8Size), List.dropWhile_cons_of_pos hc,
    List.takeWhile_cons_of_pos hc, hstart]

theorem splitFields_space (pos : Nat) (cs : List Char) :
    splitFields pos (' ' :: cs) = splitFields (pos + 1) cs := splitFields_blank isBlank_space pos cs

/-- A word of visible characters. -/
structure IsWord (w : List Char) : Prop where
  ne_nil : w ≠ []
  visible : ∀ c ∈ w, isVisible c

theorem splitFields_word (pos : Nat) (hw : IsWord w) (hcs : ∀ c ∈ cs.head?, isBlank c) :
    splitFields pos (w ++ cs) = ⟨pos, w⟩ :: splitFields (pos + byteLength w) cs := by
  obtain ⟨hne, hvisible⟩ := hw
  cases w with
  | nil => exact absurd rfl hne
  | cons c w =>
    obtain ⟨hc, hw⟩ := List.forall_mem_cons.1 hvisible
    have hhead : ¬ isBlank c := by rw [isBlank_of_isVisible hc]; exact Bool.false_ne_true
    have hword : ∀ d ∈ w, !isBlank d := fun d hd => by
      rw [isBlank_of_isVisible (hw d hd)]
      rfl
    have hrest : cs.takeWhile (fun d => !isBlank d) = [] ∧ cs.dropWhile (fun d => !isBlank d) = cs := by
      cases cs with
      | nil => exact ⟨rfl, rfl⟩
      | cons d cs =>
        have hd : ¬ (fun d => !isBlank d) d := by
          show ¬ (!isBlank d)
          rw [hcs d rfl]
          exact Bool.false_ne_true
        exact ⟨List.takeWhile_cons_of_neg hd, List.dropWhile_cons_of_neg hd⟩
    rw [splitFields_eq, List.cons_append, List.dropWhile_cons_of_neg hhead,
      List.takeWhile_cons_of_neg hhead]
    simp only [List.takeWhile_append_of_pos hword, List.dropWhile_append_of_pos hword, hrest,
      List.append_nil, byteLength_nil, Nat.add_zero]

/-- Words, with a space before each. -/
def spaced (ws : List (List Char)) : List Char := ws.flatMap fun w => ' ' :: w

theorem isBlank_of_mem_head?_spaced (ws : List (List Char)) : ∀ c ∈ (spaced ws).head?, isBlank c := by
  cases ws with
  | nil => exact fun c hc => by cases hc
  | cons w ws =>
    intro c hc
    obtain rfl := Option.some.inj hc
    rfl

/-- Words that follow spaces are the fields of the line. -/
theorem chars_splitFields_spaced (pos : Nat) (hws : ∀ w ∈ ws, IsWord w) :
    (splitFields pos (spaced ws)).map Field.chars = ws := by
  induction ws generalizing pos with
  | nil => rw [spaced, List.flatMap_nil, splitFields_eq]; rfl
  | cons w ws ih =>
    obtain ⟨hw, hrest⟩ := List.forall_mem_cons.1 hws
    have hsplit : spaced (w :: ws) = ' ' :: (w ++ spaced ws) := List.flatMap_cons
    rw [hsplit, splitFields_space, splitFields_word _ hw (isBlank_of_mem_head?_spaced ws),
      List.map_cons, ih _ hrest]

end Fields

/-! ## Numbers -/

/-- The characters of the text of a number. -/
theorem isVisible_of_mem_write {n : Int} : ∀ c ∈ (Decimal.write n).toList, isVisible c := by
  intro c hc
  rcases Decimal.mem_write hc with rfl | hdigit
  · decide
  · exact isVisible_of_isDigit hdigit

/-- The text of a number is a word. -/
theorem isWord_write (n : Int) : IsWord (Decimal.write n).toList :=
  ⟨Decimal.toList_write_ne_nil n, isVisible_of_mem_write⟩

end SolMachine.Assembly
