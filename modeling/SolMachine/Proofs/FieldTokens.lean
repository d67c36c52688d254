import SolMachine.Assembly.LineReader
import SolMachine.Proofs.MaximalMunch

/-!
# The tokens that fields are

* `Unbroken` : characters without a blank; those of fields are so (`unbroken_of_mem_fields`);
* `Pattern.exists_carries_iff` : the texts that stand for a token: numerals of words, names that could
  be labels, and directives;
* `readField_eq_ok_iff` : such characters are a token if the longest token at their start is all of
  them;
* `readField_eq_int_iff` : the fields that are integers are the numerals of words;
* `readField_eq_ident_iff`, `readField_eq_directive_iff` : the fields that are identifiers are those
  that could be labels, and those that are directives begin with a dot and a letter.
-/

namespace SolMachine.Assembly
open SolMachine.Text SolMachine.Decimal

/-! ## Fields -/

/-- Characters, at least one, of which none is blank. -/
structure Unbroken (cs : List Char) : Prop where
  ne_nil : cs ≠ []
  isBlank : ∀ c ∈ cs, isBlank c = false

theorem unbroken_of_mem_splitFields (pos : Nat) (cs : List Char) :
    ∀ f ∈ splitFields pos cs, Unbroken f.chars := by
  induction pos, cs using splitFields.induct with
  | case1 pos cs h =>
    rw [splitFields_eq, h]
    exact List.forall_mem_nil _
  | case2 pos cs c rest h start word ih =>
    have hc : isBlank c = false := by
      have hnot := List.head?_dropWhile_not isBlank cs
      rwa [h] at hnot
    rw [splitFields_eq, h]
    refine List.forall_mem_cons.2 ⟨⟨List.cons_ne_nil _ _, List.forall_mem_cons.2 ⟨hc, ?_⟩⟩, ih⟩
    intro d hd
    simpa using List.mem_takeWhile_imp hd

theorem unbroken_of_mem_fields {l : Line} : ∀ f ∈ fields l, Unbroken f.chars :=
  unbroken_of_mem_splitFields l.start l.chars

/-- Whether the characters are a dot, a letter, and characters of words. -/
def isDirective : List Char → Bool
  | '.' :: c :: cs => c.isAlpha && cs.all isWordChar
  | _ => false

/-- A name of letters can be a label. -/
theorem isLabel_of_isAlpha {cs : List Char} (hne : cs ≠ []) (h : ∀ c ∈ cs, c.isAlpha) : isLabel cs := by
  obtain ⟨c, cs, rfl⟩ := List.exists_cons_of_ne_nil hne
  obtain ⟨hc, hcs⟩ := List.forall_mem_cons.1 h
  have halphanum : ∀ d ∈ cs, d.isAlphanum := fun d hd => by
    rw [Char.isAlphanum, hcs d hd, Bool.true_or]
  rw [isLabel, hc, Bool.true_and, List.all_eq_true]
  exact halphanum

/-! ## Shapes -/

namespace Pattern
variable {cs : List Char}

theorem fits_numeral {n : Int} (h : Numeral cs n) : numeral.Fits cs := by
  have hword : ∀ {ds}, Digits ds → ∀ d ∈ ds, isWordChar d := fun hdigits d hd =>
    isWordChar_of_isAlphanum (by rw [Char.isAlphanum, hdigits.isDigit d hd, Bool.or_true])
  have hsigned : ∀ {sign ds}, sign = '+' ∨ sign = '-' → Digits ds → numeral.Fits (sign :: ds) := by
    intro sign ds hsign hdigits
    obtain ⟨d, ds, rfl⟩ := List.exists_cons_of_ne_nil hdigits.ne_nil
    exact ⟨[sign, d], ds, rfl,
      .signed hsign (isDecimalDigit_of_isDigit (hdigits.isDigit d (List.mem_cons_self ..))),
      (List.forall_mem_cons.1 (hword hdigits)).2⟩
  cases h with
  | plus hdigits => exact hsigned (.inl rfl) hdigits
  | minus hdigits => exact hsigned (.inr rfl) hdigits
  | plain hdigits =>
    obtain ⟨d, ds, rfl⟩ := List.exists_cons_of_ne_nil hdigits.ne_nil
    exact ⟨[d], ds, rfl,
      .digit (isDecimalDigit_of_isDigit (hdigits.isDigit d (List.mem_cons_self ..))),
      (List.forall_mem_cons.1 (hword hdigits)).2⟩

theorem fits_ident_iff : ident.Fits cs ↔ isLabel cs := by
  constructor
  · rintro ⟨head, tail, rfl, hhead, htail⟩
    cases hhead with
    | letter hc => simpa [isLabel, hc, goesOn] using htail
  · intro h
    cases cs with
    | nil => cases h
    | cons c cs =>
      obtain ⟨hc, hcs⟩ := Bool.and_eq_true_iff.1 h
      exact ⟨[c], cs, rfl, .letter hc, List.all_eq_true.1 hcs⟩

theorem fits_directive_iff : directive.Fits cs ↔ isDirective cs := by
  constructor
  · rintro ⟨head, tail, rfl, hhead, htail⟩
    cases hhead with
    | dotted hc => simpa [isDirective, hc, goesOn] using htail
  · intro h
    unfold isDirective at h
    split at h
    · next c cs =>
      obtain ⟨hc, hcs⟩ := Bool.and_eq_true_iff.1 h
      exact ⟨['.', c], cs, rfl, .dotted hc, List.all_eq_true.1 hcs⟩
    · cases h

/-- The texts that stand for a token. -/
theorem exists_carries_iff {t : Token} : (∃ p : Pattern, p.Fits cs ∧ p.Carries cs (.ok t)) ↔
    (∃ w : Word, t = .int w ∧ Numeral cs w.toInt) ∨ (t = .ident (String.ofList cs) ∧ isLabel cs) ∨
      (t = .directive (String.ofList (cs.drop 1)) ∧ isDirective cs) := by
  constructor
  · rintro ⟨p, hfits, hcarries⟩
    cases hcarries with
    | int hw => exact .inl ⟨_, rfl, hw⟩
    | ident => exact .inr (.inl ⟨rfl, fits_ident_iff.1 hfits⟩)
    | directive => exact .inr (.inr ⟨rfl, fits_directive_iff.1 hfits⟩)
  · rintro (⟨w, rfl, hw⟩ | ⟨rfl, hlabel⟩ | ⟨rfl, hdirective⟩)
    · exact ⟨numeral, fits_numeral hw, .int hw⟩
    · exact ⟨ident, fits_ident_iff.2 hlabel, .ident⟩
    · have hfits := fits_directive_iff.2 hdirective
      refine ⟨directive, hfits, ?_⟩
      obtain ⟨head, tail, rfl, hhead, -⟩ := hfits
      cases hhead
      exact .directive

end Pattern

/-! ## One token -/

section Munch
variable {c : Char} {cs : List Char}

theorem isSeparator_of_isBlank (h : isBlank c = false) : isSeparator c = false := by
  unfold isSeparator
  simp only [Bool.or_eq_false_iff, beq_eq_false_iff_ne]
  refine ⟨⟨?_, ?_⟩, ?_⟩ <;> (rintro rfl; cases h)

/-- The first token of a text that begins with no blank. -/
theorem next?_cons (hc : isBlank c = false) (pos : Nat) (cs : List Char) :
    next? pos (c :: cs) =
      some (⟨(munch c cs).item, Span.ofChars pos (munch c cs).text⟩, (munch c cs).rest) := by
  have hhead : ¬ isSeparator c := by rw [isSeparator_of_isBlank hc]; exact Bool.false_ne_true
  unfold next?
  rw [List.dropWhile_cons_of_neg hhead, List.takeWhile_cons_of_neg hhead]
  rfl

/-- A field that is one token. -/
theorem readField_of_munch {t : Token} (hc : isBlank c = false)
    (h : munch c cs = ⟨.ok t, c :: cs, []⟩) : readField (c :: cs) = .ok t := by
  unfold readField
  simp only [next?_cons hc, h]
  rfl

/-- Characters without a blank are a token if the longest token at their start is all of them. -/
theorem readField_eq_ok_iff (h : Unbroken (c :: cs)) {t : Token} :
    readField (c :: cs) = .ok t ↔ munch c cs = ⟨.ok t, c :: cs, []⟩ := by
  have hc : isBlank c = false := h.isBlank c List.mem_cons_self
  refine ⟨fun hread => ?_, readField_of_munch hc⟩
  obtain ⟨hall, -⟩ := munch_text_rest c cs
  unfold readField at hread
  simp only [next?_cons hc] at hread
  generalize munch c cs = m at hread hall ⊢
  obtain ⟨item, text, rest⟩ := m
  cases item with
  | error e => cases hread
  | ok u =>
    cases rest with
    | nil =>
      obtain rfl := Except.ok.inj hread
      rw [List.append_nil] at hall
      exact congrArg (Munch.mk (.ok u) · []) hall
    | cons d ds =>
      -- A second token would begin with `d`, so there is one, or an error.
      have hd : isBlank d = false :=
        h.isBlank d (hall ▸ List.mem_append_right text List.mem_cons_self)
      simp only [next?_cons hd] at hread
      split at hread <;> cases hread

/-- The shape of the characters, if they are all of a token, and what the token then is. -/
theorem munch_eq_ok_iff {t : Token} : munch c cs = ⟨.ok t, c :: cs, []⟩ ↔
    ∃ p : Pattern, p.Fits (c :: cs) ∧ p.Carries (c :: cs) (.ok t) := by
  have hmunched := munched_munch c cs
  constructor
  · intro h
    rw [h] at hmunched
    obtain ⟨p, hlongest, hcarries⟩ := hmunched.exists_carries
    exact ⟨p, hlongest.fits, hcarries⟩
  · rintro ⟨p, hfits, hcarries⟩
    obtain ⟨htext, hitem⟩ := hmunched.of_longest hfits.longest
    obtain ⟨hall, -⟩ := munch_text_rest c cs
    rw [htext, List.append_right_eq_self] at hall
    generalize munch c cs = m at hall htext hitem
    obtain ⟨item, text, rest⟩ := m
    obtain rfl := hitem.unique hcarries
    obtain rfl : text = c :: cs := htext
    obtain rfl : rest = [] := hall
    rfl

end Munch

/-! ## Fields by their tokens -/

section Readings
variable {cs : List Char} (h : Unbroken cs)
include h

/-- The tokens that fields are. -/
theorem readField_ok_iff {t : Token} : readField cs = .ok t ↔
    (∃ w : Word, t = .int w ∧ Numeral cs w.toInt) ∨ (t = .ident (String.ofList cs) ∧ isLabel cs) ∨
      (t = .directive (String.ofList (cs.drop 1)) ∧ isDirective cs) := by
  obtain ⟨c, ds, rfl⟩ := List.exists_cons_of_ne_nil h.ne_nil
  rw [readField_eq_ok_iff h, munch_eq_ok_iff, Pattern.exists_carries_iff]

/-- A field is an integer if it is the numeral of one that fits a word. -/
theorem readField_eq_int_iff {w : Word} : readField cs = .ok (.int w) ↔ Numeral cs w.toInt := by
  simp [readField_ok_iff h]

theorem readField_eq_ident_iff {name : String} :
    readField cs = .ok (.ident name) ↔ name = String.ofList cs ∧ isLabel cs := by
  simp [readField_ok_iff h]

theorem readField_eq_directive_iff {name : String} :
    readField cs = .ok (.directive name) ↔
      name = String.ofList (cs.drop 1) ∧ isDirective cs := by
  simp [readField_ok_iff h]

end Readings

end SolMachine.Assembly
