import SolMachine.Assembly.Token
import SolMachine.Proofs.WrittenFields

/-!
# Tokens are longest matches

* `Pattern`, `Pattern.Fits` : the shapes of tokens, and the texts that have them;
* `Pattern.Longest` : the longest text of a shape at the start of a text; the three readers of shapes
  find it (`Pattern.split?_eq_some_iff`);
* `Pattern.Carries` : the token or the error that a text of a shape stands for; it is one thing
  (`Pattern.Carries.unique`);
* `Munched`, `munched_munch` : what stands at the start of a text;
* `next?_eq_some`, `next?_eq_none_iff` : the first token of a text;
* `Tokenized` : tokens and errors that cover a text; `Tokenized.cons` is the step, and
  `lexemes_cover_text` the whole text.
-/

namespace SolMachine.Assembly
open SolMachine.Text SolMachine.Decimal

/-! ## The shapes of tokens -/

inductive Pattern where
  | numeral
  | ident
  | directive
  deriving DecidableEq, Repr

namespace Pattern

/-- How a text of the shape begins: a numeral with a decimal digit, after a sign or none, an
identifier with a letter, a directive with a dot and a letter. Letters are ASCII. -/
inductive Heads : Pattern → List Char → Prop
  | digit {d : Char} : isDecimalDigit d → Heads numeral [d]
  | signed {sign d : Char} : sign = '+' ∨ sign = '-' → isDecimalDigit d → Heads numeral [sign, d]
  | letter {c : Char} : c.isAlpha → Heads ident [c]
  | dotted {c : Char} : c.isAlpha → Heads directive ['.', c]

/-- The characters that go on: those of words, and in identifiers only ASCII letters and digits. -/
def goesOn : Pattern → Char → Bool
  | ident => Char.isAlphanum
  | numeral | directive => isWordChar

/-- The text has the shape. -/
def Fits (p : Pattern) (text : List Char) : Prop :=
  ∃ head tail, text = head ++ tail ∧ p.Heads head ∧ ∀ c ∈ tail, p.goesOn c

/-- The text has the shape, and none that begins `cs` and has a shape is longer. -/
structure Longest (p : Pattern) (text cs : List Char) : Prop where
  begins : text <+: cs
  fits : p.Fits text
  length_le : ∀ (q : Pattern) t, t <+: cs → q.Fits t → t.length ≤ text.length

/-- The token or the error that a text of the shape stands for. A numeral of a word is that word; any
other is out of range if its sign and its first ASCII digits name such a number, and else it has a
character that is no digit. -/
inductive Carries : Pattern → List Char → Except LexError Token → Prop
  | int {text : List Char} {w : Word} : Numeral text w.toInt → Carries numeral text (.ok (.int w))
  | outOfRange {text : List Char} : ¬ InRange (leadingValue text) →
      Carries numeral text (.error .outOfRange)
  | badNumeral {text : List Char} : InRange (leadingValue text) →
      (¬ ∃ w : Word, Numeral text w.toInt) → Carries numeral text (.error .badNumeral)
  | ident {text : List Char} : Carries ident text (.ok (.ident (String.ofList text)))
  | directive {name : List Char} : Carries directive ('.' :: name)
      (.ok (.directive (String.ofList name)))

/-- Splits off the longest text of the shape. -/
def split? : Pattern → List Char → Option (List Char × List Char)
  | numeral => numeral?
  | ident => ident?
  | directive => directive?

/-! ## How texts begin -/

/-- The shape of texts that begin with the character, and the length of what decides that they do. -/
def ofFirst (c : Char) : Pattern × Nat :=
  if isDecimalDigit c then (numeral, 1)
  else if c = '+' ∨ c = '-' then (numeral, 2)
  else if c.isAlpha then (ident, 1)
  else (directive, 2)

section Heads
variable {p q : Pattern} {a b text rest cs : List Char} {c : Char}

theorem not_isDecimalDigit_of_sign (h : c = '+' ∨ c = '-') : isDecimalDigit c = false := by
  rcases h with rfl | rfl <;> decide

theorem Heads.ne_nil (h : p.Heads a) : a ≠ [] := by cases h <;> exact List.cons_ne_nil _ _

theorem Heads.ofFirst_eq (h : p.Heads (c :: a)) : ofFirst c = (p, a.length + 1) := by
  unfold ofFirst
  cases h with
  | digit hc => rw [if_pos hc]; rfl
  | signed hsign _ => simp [not_isDecimalDigit_of_sign hsign, hsign]
  | letter hc =>
    have hsign : ¬ (c = '+' ∨ c = '-') := by rintro (rfl | rfl) <;> cases hc
    simp [isDecimalDigit_of_isAlpha hc, hsign, hc]
  | dotted _ =>
    have hdigit : isDecimalDigit '.' = false := by decide
    have halpha : '.'.isAlpha = false := by decide
    simp [hdigit, halpha]

/-- The first character decides the shape, and with it how the text begins. -/
theorem Heads.unique (ha : p.Heads a) (hb : q.Heads b) (hacs : a <+: cs) (hbcs : b <+: cs) :
    p = q ∧ a = b := by
  obtain ⟨c, a, rfl⟩ := List.exists_cons_of_ne_nil ha.ne_nil
  obtain ⟨d, b, rfl⟩ := List.exists_cons_of_ne_nil hb.ne_nil
  obtain ⟨after, rfl⟩ := hacs
  obtain ⟨rfl, hb'⟩ := List.cons_prefix_cons.1 hbcs
  obtain ⟨rfl, hlength⟩ := Prod.mk.inj (ha.ofFirst_eq.symm.trans hb.ofFirst_eq)
  have hba : b = a := (List.prefix_of_prefix_length_le hb' (List.prefix_append a after)
    (by omega)).eq_of_length (by omega)
  exact ⟨rfl, congrArg (d :: ·) hba.symm⟩

theorem Fits.ne_nil (h : p.Fits text) : text ≠ [] := by
  obtain ⟨head, tail, rfl, hhead, -⟩ := h
  exact List.append_ne_nil_of_left_ne_nil hhead.ne_nil tail

/-- A text of a shape is the longest one if it is all there is. -/
theorem Fits.longest (h : p.Fits text) : p.Longest text text :=
  ⟨List.prefix_refl text, h, fun _ _ hbegins _ => hbegins.length_le⟩

/-- What is taken after the beginning is all that goes on. -/
theorem longest_of_heads (ha : p.Heads a) : p.Longest (a ++ rest.takeWhile p.goesOn) (a ++ rest) := by
  refine ⟨?_, ⟨a, _, rfl, ha, fun c hc => List.mem_takeWhile_imp hc⟩, ?_⟩
  · exact (List.prefix_append_right_inj a).2 (List.takeWhile_prefix _)
  · rintro q t hbegins ⟨b, tail, rfl, hb, htail⟩
    obtain ⟨rfl, rfl⟩ := hb.unique ha ((List.prefix_append b tail).trans hbegins)
      (List.prefix_append a rest)
    obtain ⟨after, rfl⟩ := (List.prefix_append_right_inj b).1 hbegins
    rw [List.takeWhile_append_of_pos htail]
    simp

/-- Texts of shapes at one start are equal if both are the longest. -/
theorem Longest.unique (ha : p.Longest a cs) (hb : q.Longest b cs) : p = q ∧ a = b := by
  have hab : a = b := (List.prefix_of_prefix_length_le ha.begins hb.begins
    (hb.length_le p a ha.begins ha.fits)).eq_of_length
      (Nat.le_antisymm (hb.length_le p a ha.begins ha.fits) (ha.length_le q b hb.begins hb.fits))
  subst hab
  obtain ⟨head, tail, htext, hhead, -⟩ := ha.fits
  obtain ⟨head', tail', htext', hhead', -⟩ := hb.fits
  exact ⟨(hhead.unique hhead' ⟨tail, htext.symm⟩ ⟨tail', htext'.symm⟩).1, rfl⟩

end Heads

/-! ## Splitting off -/

section Split
variable {p : Pattern} {text rest cs : List Char}

theorem split?_eq_some_iff : p.split? cs = some (text, rest) ↔ ∃ head tail, p.Heads head ∧
    cs = head ++ tail ∧ text = head ++ tail.takeWhile p.goesOn ∧ rest = tail.dropWhile p.goesOn := by
  constructor
  · intro h
    cases p with
    | numeral =>
      change numeral? cs = _ at h
      unfold numeral? at h
      split at h
      · cases h
      · next c cs =>
        split at h
        · next hc =>
          obtain ⟨rfl, rfl⟩ := Prod.mk.inj (Option.some.inj h)
          exact ⟨[c], cs, .digit hc, rfl, rfl, rfl⟩
        · split at h
          · next hsign =>
            split at h
            · cases h
            · next d ds =>
              obtain ⟨hd, h⟩ := Option.ite_none_right_eq_some.1 h
              obtain ⟨rfl, rfl⟩ := Prod.mk.inj (Option.some.inj h)
              exact ⟨[c, d], ds, .signed (by simpa using hsign) hd, rfl, rfl, rfl⟩
          · cases h
    | ident =>
      change ident? cs = _ at h
      unfold ident? at h
      split at h
      · cases h
      · next c cs =>
        obtain ⟨hc, h⟩ := Option.ite_none_right_eq_some.1 h
        obtain ⟨rfl, rfl⟩ := Prod.mk.inj (Option.some.inj h)
        exact ⟨[c], cs, .letter hc, rfl, rfl, rfl⟩
    | directive =>
      change directive? cs = _ at h
      unfold directive? at h
      split at h
      · next c cs =>
        obtain ⟨hc, h⟩ := Option.ite_none_right_eq_some.1 h
        obtain ⟨rfl, rfl⟩ := Prod.mk.inj (Option.some.inj h)
        exact ⟨['.', c], cs, .dotted hc, rfl, rfl, rfl⟩
      · cases h
  · rintro ⟨head, tail, hhead, rfl, rfl, rfl⟩
    cases hhead with
    | digit hd => exact if_pos hd
    | signed hsign hd =>
      unfold split? numeral?
      simp [not_isDecimalDigit_of_sign hsign, hsign, hd, goesOn]
    | letter hc => exact if_pos hc
    | dotted hc => exact if_pos hc

theorem split?_eq_none_iff : p.split? cs = none ↔ ∀ head, p.Heads head → ¬ head <+: cs := by
  constructor
  · rintro h head hhead ⟨tail, rfl⟩
    have hsome := split?_eq_some_iff.2 ⟨head, tail, hhead, rfl, rfl, rfl⟩
    rw [h] at hsome
    cases hsome
  · intro h
    refine Option.eq_none_iff_forall_not_mem.2 fun (text, rest) hsome => ?_
    obtain ⟨head, tail, hhead, rfl, -, -⟩ := split?_eq_some_iff.1 hsome
    exact h head hhead (List.prefix_append head tail)

end Split

/-! ## What texts of shapes stand for -/

theorem readNumeral_eq_ok_iff {cs : List Char} {t : Token} :
    readNumeral cs = .ok t ↔ ∃ w : Word, t = .int w ∧ Numeral cs w.toInt := by
  unfold readNumeral
  constructor
  · intro h
    split at h
    · next w hread => exact ⟨w, (Except.ok.inj h).symm, read_eq_ok_iff.1 hread⟩
    all_goals cases h
  · rintro ⟨w, rfl, hnumeral⟩
    rw [read_eq_ok_iff.2 hnumeral]

theorem splitSign_ne_nil {text : List Char} (h : numeral.Fits text) : (splitSign text).2 ≠ [] := by
  obtain ⟨head, tail, rfl, hhead, -⟩ := h
  cases hhead with
  | @digit d hd =>
    have hsign : d ≠ '-' ∧ d ≠ '+' := by
      constructor <;> (rintro rfl; exact absurd hd (by decide))
    simp [splitSign, hsign]
  | signed hsign _ => rcases hsign with rfl | rfl <;> exact List.cons_ne_nil _ _

/-- A numeral is read as the word that it names, or as what is wrong with it. -/
theorem carries_readNumeral {text : List Char} (h : numeral.Fits text) :
    numeral.Carries text (readNumeral text) := by
  by_cases hword : ∃ w : Word, Numeral text w.toInt
  · obtain ⟨w, hw⟩ := hword
    rw [readNumeral_eq_ok_iff.2 ⟨w, rfl, hw⟩]
    exact .int hw
  · have hread := readInt_eq_error (splitSign_ne_nil h) fun ⟨n, hn, hrange⟩ =>
      hword ⟨BitVec.ofInt 32 n, by rwa [toInt_ofInt_of_inRange hrange]⟩
    unfold readNumeral Decimal.read
    rw [hread]
    by_cases hrange : InRange (leadingValue text)
    · rw [if_pos hrange]
      exact .badNumeral hrange hword
    · rw [if_neg hrange]
      cases (splitSign text).1 <;> exact .outOfRange hrange

/-- A text of a shape stands for one thing. -/
theorem Carries.unique {p : Pattern} {text : List Char} {a b : Except LexError Token}
    (ha : p.Carries text a) (hb : p.Carries text b) : a = b := by
  have hinRange : ∀ {w : Word}, Numeral text w.toInt → InRange (leadingValue text) :=
    fun hw => leadingValue_of_numeral hw ▸ inRange_toInt _
  cases ha with
  | int hw =>
    cases hb with
    | int hv =>
      have hvalue := (leadingValue_of_numeral hw).symm.trans (leadingValue_of_numeral hv)
      rw [BitVec.toInt_inj.1 hvalue]
    | outOfRange hrange => exact absurd (hinRange hw) hrange
    | badNumeral _ hnot => exact absurd ⟨_, hw⟩ hnot
  | outOfRange hrange =>
    cases hb with
    | int hv => exact absurd (hinRange hv) hrange
    | outOfRange => rfl
    | badNumeral hrange' => exact absurd hrange' hrange
  | badNumeral hrange hnot =>
    cases hb with
    | int hv => exact absurd ⟨_, hv⟩ hnot
    | outOfRange hrange' => exact absurd hrange hrange'
    | badNumeral => rfl
  | ident | directive => cases hb; rfl

theorem Carries.ne_unknownSymbol {p : Pattern} {text : List Char} {item : Except LexError Token}
    (h : p.Carries text item) : item ≠ .error .unknownSymbol := by
  cases h <;> exact fun h => by cases h

end Pattern

/-! ## One token -/

/-- What stands at the start of a text, and its characters: the longest text of a shape, or one
character where no shape begins. -/
inductive Munched (cs : List Char) : Except LexError Token → List Char → Prop
  | token {p : Pattern} {text : List Char} {item : Except LexError Token} : p.Longest text cs →
      p.Carries text item → Munched cs item text
  | symbol {c : Char} : (∀ (p : Pattern) t, t <+: cs → ¬ p.Fits t) →
      Munched cs (.error .unknownSymbol) [c]

theorem Munched.ne_unreadable {cs text : List Char} {item : Except LexError Token}
    (h : Munched cs item text) : item ≠ .error .unreadable := by
  rintro rfl
  cases h with
  | token _ hcarries => cases hcarries

theorem Munched.exists_carries {cs text : List Char} {t : Token} (h : Munched cs (.ok t) text) :
    ∃ p : Pattern, p.Longest text cs ∧ p.Carries text (.ok t) := by
  cases h with
  | token hlongest hcarries => exact ⟨_, hlongest, hcarries⟩

/-- What stands at the start of a text where the longest text of a shape is known. -/
theorem Munched.of_longest {cs text word : List Char} {p : Pattern}
    {item : Except LexError Token} (h : Munched cs item word) (hlongest : p.Longest text cs) :
    word = text ∧ p.Carries text item := by
  cases h with
  | token hlongest' hcarries =>
    obtain ⟨rfl, rfl⟩ := hlongest.unique hlongest'
    exact ⟨rfl, hcarries⟩
  | symbol hnone => exact absurd hlongest.fits (hnone _ _ hlongest.begins)

theorem munched_munch (c : Char) (cs : List Char) :
    Munched (c :: cs) (munch c cs).item (munch c cs).text := by
  have hlongest : ∀ {p : Pattern} {text rest}, p.split? (c :: cs) = some (text, rest) →
      p.Longest text (c :: cs) := fun h => by
    obtain ⟨head, tail, hhead, hcs, rfl, -⟩ := Pattern.split?_eq_some_iff.1 h
    rw [hcs]
    exact Pattern.longest_of_heads hhead
  unfold munch
  split
  · next text rest h =>
    have hnumeral := hlongest (p := .numeral) h
    exact .token hnumeral (Pattern.carries_readNumeral hnumeral.fits)
  · next hnumeral =>
    split
    · next text rest h => exact .token (hlongest (p := .ident) h) .ident
    · next hident =>
      split
      · next text rest h =>
        have hdirective := hlongest (p := .directive) h
        obtain ⟨head, tail, rfl, hhead, -⟩ := hdirective.fits
        cases hhead
        exact .token hdirective .directive
      · next hdirective =>
        refine .symbol fun p t hbegins hfits => ?_
        obtain ⟨head, tail, rfl, hhead, -⟩ := hfits
        have hnone : p.split? (c :: cs) = none := by
          cases p with
          | numeral => exact hnumeral
          | ident => exact hident
          | directive => exact hdirective
        exact Pattern.split?_eq_none_iff.1 hnone head hhead
          ((List.prefix_append head tail).trans hbegins)

theorem next?_eq_none_iff {pos : Nat} {cs : List Char} :
    next? pos cs = none ↔ ∀ c ∈ cs, isSeparator c := by
  rw [← List.dropWhile_eq_nil_iff]
  unfold next?
  split
  · next h => simp [h]
  · next h => simp [h]

/-- The first token of a text, behind characters that are skipped. -/
theorem next?_eq_some {pos : Nat} {cs rest : List Char} {l : Lexeme}
    (h : next? pos cs = some (l, rest)) : ∃ gap text, cs = gap ++ (text ++ rest) ∧
      (∀ c ∈ gap, isSeparator c) ∧ text ≠ [] ∧
      l.span = .ofChars (pos + byteLength gap) text ∧ Munched (text ++ rest) l.item text := by
  unfold next? at h
  split at h
  · cases h
  · next c ds hds =>
    obtain ⟨rfl, rfl⟩ := Prod.mk.inj (Option.some.inj h)
    obtain ⟨hall, hne⟩ := munch_text_rest c ds
    refine ⟨cs.takeWhile isSeparator, (munch c ds).text, ?_, fun c hc => List.mem_takeWhile_imp hc,
      hne, rfl, ?_⟩
    · rw [hall, ← hds, List.takeWhile_append_dropWhile]
    · rw [hall]
      exact munched_munch c ds

/-! ## All tokens -/

/-- A token or an error stands for the characters `text` of a text, which begins at byte `pos`. A token
stands for the longest text of a shape; so does an error, but for a character where no shape begins. -/
structure Lexeme.StandsFor (l : Lexeme) (pos : Nat) (before text after : List Char) : Prop where
  span : l.span = .ofChars (pos + byteLength before) text
  ne_nil : text ≠ []
  token : l.item ≠ .error .unknownSymbol →
    ∃ p : Pattern, p.Longest text (text ++ after) ∧ p.Carries text l.item
  symbol : l.item = .error .unknownSymbol →
    (∃ c, text = [c]) ∧ ∀ (p : Pattern) t, t <+: text ++ after → ¬ p.Fits t

/-- The tokens and errors of a text that begins at byte `pos`. -/
structure Tokenized (pos : Nat) (cs : List Char) (ls : List Lexeme) : Prop where
  length_le : ls.length ≤ cs.length
  /-- Each stands for characters of the text. -/
  standsFor : ∀ l ∈ ls, ∃ before text after, cs = before ++ text ++ after ∧
    l.StandsFor pos before text after
  /-- None begins before the one before it ends. -/
  ordered : ls.Pairwise fun k l => k.span.stop ≤ l.span.start
  /-- Only spaces, tabs and carriage returns lie in none of them. -/
  covers : ∀ before c after, cs = before ++ c :: after → c = ' ' ∨ c = '\t' ∨ c = '\r' ∨
    ∃ l ∈ ls, l.span.start ≤ pos + byteLength before ∧
      pos + byteLength before + c.utf8Size ≤ l.span.stop

theorem append_eq_append_cons {α : Type} {xs ys before after : List α} {c : α}
    (h : xs ++ ys = before ++ c :: after) :
    (∃ mid, xs = before ++ c :: mid ∧ after = mid ++ ys) ∨
      ∃ mid, before = xs ++ mid ∧ ys = mid ++ c :: after := by
  rcases List.append_eq_append_iff.1 h with ⟨mid, rfl, hys⟩ | ⟨mid, rfl, hmid⟩
  · exact .inr ⟨mid, rfl, hys⟩
  · cases mid with
    | nil => exact .inr ⟨[], by simp, hmid.symm⟩
    | cons d mid =>
      obtain ⟨rfl, rfl⟩ := List.cons.inj hmid
      exact .inl ⟨mid, rfl, rfl⟩

theorem lexemes_of_none {pos : Nat} {cs : List Char} (h : next? pos cs = none) :
    lexemes pos cs = [] := by
  rw [lexemes]
  split
  · rfl
  · next h' => cases h.symm.trans h'

theorem lexemes_of_some {pos : Nat} {cs rest : List Char} {l : Lexeme}
    (h : next? pos cs = some (l, rest)) : lexemes pos cs = l :: lexemes l.span.stop rest := by
  rw [lexemes]
  split
  · next h' => cases h.symm.trans h'
  · next h' =>
    obtain ⟨rfl, rfl⟩ := Prod.mk.inj (Option.some.inj (h.symm.trans h'))
    rfl

section Tokenized
variable {pos : Nat} {cs text rest after : List Char} {l : Lexeme} {ls : List Lexeme}

theorem eq_of_isSeparator {c : Char} (h : isSeparator c) : c = ' ' ∨ c = '\t' ∨ c = '\r' := by
  simpa [isSeparator, or_assoc] using h

theorem Munched.standsFor {before : List Char} (h : Munched (text ++ rest) l.item text)
    (hspan : l.span = .ofChars (pos + byteLength before) text) (hne : text ≠ []) :
    l.StandsFor pos before text rest := by
  refine ⟨hspan, hne, fun hitem => ?_, fun hitem => ?_⟩
  · generalize hi : l.item = item at h
    cases h with
    | token hlongest hcarries => exact ⟨_, hlongest, hi ▸ hcarries⟩
    | symbol => exact absurd hi hitem
  · generalize hi : l.item = item at h
    cases h with
    | token _ hcarries => exact absurd (hi.symm.trans hitem) hcarries.ne_unknownSymbol
    | symbol hnone => exact ⟨⟨_, rfl⟩, hnone⟩

/-- The first token, and behind it those of the rest. -/
theorem Tokenized.cons (h : next? pos cs = some (l, rest)) (hrest : Tokenized l.span.stop rest ls) :
    Tokenized pos cs (l :: ls) := by
  obtain ⟨gap, text, rfl, hgap, hne, hspan, hmunched⟩ := next?_eq_some h
  have hstop : l.span.stop = pos + byteLength (gap ++ text) := by
    rw [hspan, byteLength_append, ← Nat.add_assoc]
    rfl
  refine ⟨?_, ?_, ?_, ?_⟩
  · have hpos := List.length_pos_iff.2 hne
    have hlength := hrest.length_le
    simp only [List.length_cons, List.length_append]
    omega
  · refine List.forall_mem_cons.2 ⟨⟨gap, text, rest, by simp, hmunched.standsFor hspan hne⟩, ?_⟩
    intro k hk
    obtain ⟨before, word, after, rfl, hstands⟩ := hrest.standsFor k hk
    refine ⟨gap ++ text ++ before, word, after, by simp, { hstands with span := ?_ }⟩
    rw [hstands.span, hstop, Nat.add_assoc, ← byteLength_append]
  · refine List.pairwise_cons.2 ⟨fun k hk => ?_, hrest.ordered⟩
    obtain ⟨before, word, after, -, hstands⟩ := hrest.standsFor k hk
    rw [hstands.span]
    exact Nat.le_add_right _ _
  · intro before c after hcs
    rcases append_eq_append_cons hcs with ⟨skipped, rfl, -⟩ | ⟨inner, rfl, hinner⟩
    · rcases eq_of_isSeparator (hgap c (by simp)) with hc | hc | hc <;> simp [hc]
    · rcases append_eq_append_cons hinner with ⟨behind, rfl, -⟩ | ⟨outer, rfl, rfl⟩
      · refine .inr (.inr (.inr ⟨l, List.mem_cons_self .., ?_, ?_⟩))
        · rw [hspan, byteLength_append, ← Nat.add_assoc]
          exact Nat.le_add_right _ _
        · rw [hstop]
          simp only [byteLength_append, byteLength_cons]
          omega
      · have hcovers := hrest.covers outer c after rfl
        rw [hstop, Nat.add_assoc pos, ← byteLength_append, List.append_assoc] at hcovers
        refine hcovers.imp_right (Or.imp_right (Or.imp_right ?_))
        exact fun ⟨k, hk, hin⟩ => ⟨k, List.mem_cons_of_mem _ hk, hin⟩

end Tokenized

/-- The tokens of a text are found by the longest match. There are at most as many of them as
characters; each stands for characters of the text, one behind the other, and is the token or the
error that the longest text of a shape stands for, or a character where no shape begins; and what
lies in none of them is a space, a tab or a carriage return. -/
theorem lexemes_cover_text (cs : List Char) : Tokenized 0 cs (lexemes 0 cs) := by
  generalize 0 = pos
  induction pos, cs using lexemes.induct with
  | case1 pos cs h =>
    rw [lexemes_of_none h]
    refine ⟨Nat.zero_le _, List.forall_mem_nil _, .nil, fun before c after hcs => ?_⟩
    have hc := eq_of_isSeparator (next?_eq_none_iff.1 h c (by simp [hcs]))
    simpa [or_assoc] using hc
  | case2 pos cs l rest h ih =>
    rw [lexemes_of_some h]
    exact ih.cons h

end SolMachine.Assembly
