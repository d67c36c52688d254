import SolMachine.Proofs.FieldTokens
import SolMachine.Proofs.Marks

/-!
# What fields are read as

* `readField_eq_error` : what is wrong with a text lies in it, and is never unknown;
* `readField_of_longest` : a field whose first token is a numeral of no word;
* `Classified`, `readField_classifies` : every field is an integer, an identifier or a directive, or
  has an error.
-/

namespace SolMachine.Assembly
open SolMachine.Text SolMachine.Decimal

/-! ## Errors -/

section Errors
variable {cs text : List Char} {e : LexError} {s : Span}

/-- What is wrong with a text is known, and lies in it. -/
theorem readField_eq_error (h : readField cs = .error (e, s)) :
    e ≠ .unreadable ∧ ∃ part, s.Marks 0 cs part ∧ (part = [] → cs = []) := by
  unfold readField at h
  cases hfirst : next? 0 cs with
  | none =>
    rw [hfirst] at h
    obtain ⟨rfl, rfl⟩ := Prod.mk.inj (Except.error.inj h)
    exact ⟨by decide, cs, ⟨[], [], by simp, rfl⟩, id⟩
  | some first =>
    obtain ⟨l, rest⟩ := first
    obtain ⟨gap, word, hcs, -, hne, hspan, hmunched⟩ := next?_eq_some hfirst
    have hstop : l.span.stop = byteLength (gap ++ word) := by
      rw [hspan, byteLength_append]
      exact Nat.zero_add _ ▸ rfl
    rw [hfirst] at h
    dsimp only at h
    split at h
    · next hitem =>
      obtain ⟨rfl, rfl⟩ := Prod.mk.inj (Except.error.inj h)
      exact ⟨fun he => hmunched.ne_unreadable (hitem.trans (congrArg _ he)), word,
        ⟨gap, rest, by simp [hcs], hspan⟩, fun hnil => absurd hnil hne⟩
    · split at h
      · cases h
      · next k after hsecond =>
        obtain ⟨gap', word', rfl, -, hne', hspan', hmunched'⟩ := next?_eq_some hsecond
        rw [hstop, ← byteLength_append] at hspan'
        have hmarks : k.span.Marks 0 cs word' :=
          ⟨gap ++ word ++ gap', after, by simp [hcs], by rw [hspan', Nat.zero_add]⟩
        split at h
        all_goals obtain ⟨rfl, rfl⟩ := Prod.mk.inj (Except.error.inj h)
        · exact ⟨by decide, word', hmarks, fun hnil => absurd hnil hne'⟩
        · exact ⟨by decide, word', hmarks, fun hnil => absurd hnil hne'⟩
        · refine ⟨by decide, word' ++ after, ⟨gap ++ word ++ gap', [], by simp [hcs], ?_⟩, ?_⟩
          · rw [hspan', hcs]
            simp only [Span.ofChars, byteLength_append, Span.mk.injEq]
            omega
          · exact fun hnil => absurd (List.append_eq_nil_iff.1 hnil).1 hne'

/-- A field whose first token is a numeral of no word has the error of that numeral. -/
theorem readField_of_longest (h : ∀ c ∈ cs, isBlank c = false)
    (hlongest : Pattern.numeral.Longest text cs) (hword : ¬ ∃ w : Word, Numeral text w.toInt) :
    readField cs = .error (if InRange (leadingValue text) then .badNumeral else .outOfRange,
      .ofChars 0 text) := by
  obtain ⟨c, ds, rfl⟩ : ∃ c ds, cs = c :: ds := by
    obtain ⟨after, rfl⟩ := hlongest.begins
    exact List.exists_cons_of_ne_nil (List.append_ne_nil_of_left_ne_nil hlongest.fits.ne_nil _)
  obtain ⟨htext, hcarries⟩ := (munched_munch c ds).of_longest hlongest
  unfold readField
  rw [next?_cons (h c List.mem_cons_self), htext]
  cases hitem : (munch c ds).item with
  | ok token =>
    rw [hitem] at hcarries
    cases hcarries with
    | int hw => exact absurd ⟨_, hw⟩ hword
  | error e =>
    rw [hitem] at hcarries
    cases hcarries with
    | outOfRange hrange => rw [if_neg hrange]
    | badNumeral hrange _ => rw [if_pos hrange]

end Errors

/-! ## All fields -/

/-- What a field without blanks is read as. -/
structure Classified (cs : List Char) (result : Except (LexError × Span) Token) : Prop where
  /-- An integer: a sign or none and ASCII digits, of a value that a word can hold. -/
  int (n : Int) : (∃ w : Word, result = .ok (.int w) ∧ w.toInt = n) ↔ Numeral cs n ∧ InRange n
  /-- An identifier: an ASCII letter and ASCII letters and digits. -/
  ident (name : String) : result = .ok (.ident name) ↔
    Pattern.ident.Fits cs ∧ cs = name.toList
  /-- A directive: a dot, an ASCII letter and characters of words. -/
  directive (name : String) : result = .ok (.directive name) ↔
    Pattern.directive.Fits cs ∧ cs = '.' :: name.toList
  /-- Any other has an error. -/
  other : (¬ ∃ n, Numeral cs n ∧ InRange n) → ¬ Pattern.ident.Fits cs →
    ¬ Pattern.directive.Fits cs → ∃ e s, result = .error (e, s)
  /-- The error is known, and lies in the field. -/
  error (e : LexError) (s : Span) : result = .error (e, s) →
    e ≠ .unreadable ∧ ∃ part, s.Marks 0 cs part
  /-- The error of a numeral at the start is told by its sign and its first digits. -/
  numeral (text : List Char) : Pattern.numeral.Longest text cs →
    (¬ ∃ n, Numeral text n ∧ InRange n) → result =
      .error (if InRange (leadingValue text) then .badNumeral else .outOfRange, .ofChars 0 text)

theorem isDirective_iff {cs : List Char} {name : String} :
    name = String.ofList (cs.drop 1) ∧ isDirective cs ↔ isDirective cs ∧ cs = '.' :: name.toList := by
  refine and_comm.trans (and_congr_right fun h => ?_)
  obtain ⟨ds, rfl⟩ : ∃ ds, cs = '.' :: ds := by
    unfold isDirective at h
    split at h
    · exact ⟨_, rfl⟩
    · cases h
  rw [List.drop_one, List.tail_cons, List.cons.injEq]
  constructor
  · rintro rfl
    exact ⟨rfl, String.toList_ofList.symm⟩
  · rintro ⟨-, rfl⟩
    exact String.ofList_toList.symm

section Classified
variable {cs : List Char} (h : ∀ c ∈ cs, isBlank c = false)
include h

/-- The tokens that texts without blanks are, the empty text among them. -/
theorem readField_token_iff {t : Token} : readField cs = .ok t ↔
    (∃ w : Word, t = .int w ∧ Numeral cs w.toInt) ∨ (t = .ident (String.ofList cs) ∧ isLabel cs) ∨
      (t = .directive (String.ofList (cs.drop 1)) ∧ isDirective cs) := by
  cases cs with
  | nil =>
    constructor
    · rintro ⟨⟩
    · rintro (⟨w, -, hw⟩ | ⟨-, hlabel⟩ | ⟨-, hdirective⟩)
      · exact absurd rfl (Pattern.fits_numeral hw).ne_nil
      · cases hlabel
      · cases hdirective
  | cons c ds => exact readField_ok_iff ⟨List.cons_ne_nil _ _, h⟩

/-- A field without blanks is an integer, an identifier or a directive as its characters say, and
any other has an error that lies in it. -/
theorem readField_classifies : Classified cs (readField cs) where
  int n := by
    simp only [readField_token_iff h, Token.int.injEq, reduceCtorEq, false_and, or_false]
    constructor
    · rintro ⟨w, ⟨v, rfl, hnumeral⟩, rfl⟩
      exact ⟨hnumeral, inRange_toInt w⟩
    · rintro ⟨hnumeral, hrange⟩
      have hn := toInt_ofInt_of_inRange hrange
      exact ⟨BitVec.ofInt 32 n, ⟨_, rfl, hn.symm ▸ hnumeral⟩, hn⟩
  ident name := by
    have hname : name = String.ofList cs ↔ cs = name.toList :=
      ⟨fun heq => heq ▸ String.toList_ofList.symm, fun heq => heq ▸ String.ofList_toList.symm⟩
    rw [readField_token_iff h, Pattern.fits_ident_iff]
    simp [hname, and_comm]
  directive name := by
    rw [readField_token_iff h, Pattern.fits_directive_iff]
    simp only [reduceCtorEq, Token.directive.injEq, false_and, exists_false, false_or]
    exact isDirective_iff
  other hint hident hdirective := by
    cases hread : readField cs with
    | error e => exact ⟨e.1, e.2, rfl⟩
    | ok t =>
      rcases (readField_token_iff h).1 hread with ⟨w, -, hw⟩ | ⟨-, hlabel⟩ | ⟨-, hname⟩
      · exact absurd ⟨w.toInt, hw, inRange_toInt w⟩ hint
      · exact absurd (Pattern.fits_ident_iff.2 hlabel) hident
      · exact absurd (Pattern.fits_directive_iff.2 hname) hdirective
  error e s hread := by
    obtain ⟨hknown, part, hmarks, -⟩ := readField_eq_error hread
    exact ⟨hknown, part, hmarks⟩
  numeral text hlongest hnot :=
    readField_of_longest h hlongest fun ⟨w, hw⟩ => hnot ⟨w.toInt, hw, inRange_toInt w⟩

end Classified

/-- The first number below those of words, and a letter behind it. -/
theorem readField_below_range : (∀ c ∈ "-2147483649x".toList, isBlank c = false) ∧
    readField "-2147483649x".toList = .error (.outOfRange, ⟨0, 12⟩) := by
  have hvisible : "-2147483649x".toList.all fun c => !isBlank c := by decide
  have hword : "147483649x".toList.all isWordChar := by decide
  have hblank : ∀ c ∈ "-2147483649x".toList, isBlank c = false := fun c hc => by
    simpa using List.all_eq_true.1 hvisible c hc
  have hlongest : Pattern.numeral.Longest "-2147483649x".toList "-2147483649x".toList :=
    Pattern.Fits.longest ⟨['-', '2'], "147483649x".toList, rfl, .signed (.inr rfl) (by decide),
      List.all_eq_true.1 hword⟩
  have hread : readInt "-2147483649x".toList = .error .tooSmall := by decide
  refine ⟨hblank, (readField_classifies hblank).numeral _ hlongest ?_⟩
  exact fun ⟨n, hn⟩ => by cases hread.symm.trans (readInt_eq_ok_iff.2 hn)

end SolMachine.Assembly
