import SolMachine.Decimal
import SolMachine.Text.Span
import SolMachine.Text.WordChar

/-!
# Tokens of operand fields

* `Token` : an integer, an identifier or a directive;
* `munch` : the longest token at the start of a text, or the one character that starts none;
* `next?`, `lexemes` : the first token of a text, and all of them, with their spans;
* `readField` : the one token that a field consists of.

A space, a tab or a carriage return separates tokens and is skipped.
-/

namespace SolMachine.Assembly
open SolMachine.Text

inductive LexError where
  /-- A numeral outside the range of a word. -/
  | outOfRange
  /-- A numeral with a character that is no decimal digit. -/
  | badNumeral
  | unreadable
  | trailing
  /-- A character that starts no token. -/
  | unknownSymbol
  deriving DecidableEq, Repr, Inhabited

namespace LexError

def message : LexError → String
  | outOfRange => "numeric token does not fit 32-bit signed integer"
  | badNumeral => "invalid decimal literal"
  | unreadable => "could not parse integer"
  | trailing => "unexpected characters in operand"
  | unknownSymbol => "unrecognized symbol"

def help : LexError → Option String
  | outOfRange => some ("the range for a 32-bit signed integer is [" ++ Decimal.write Word.least ++
      ", " ++ Decimal.write Word.greatest ++ "]")
  | badNumeral => some "a decimal literal only consists of digits 0-9"
  | unreadable => none
  | trailing => some "an operand is a single integer or a label made of letters and digits"
  | unknownSymbol => some "this char does not occur in any token in SOL assembly"

end LexError

inductive Token where
  | int (value : Word)
  | ident (name : String)
  /-- A directive, without the dot in front of it. -/
  | directive (name : String)
  deriving DecidableEq, Repr, Inhabited

def Token.isInt : Token → Bool
  | int _ => true
  | _ => false

/-! ## The shapes of tokens

Each splits off the longest text of its shape from the start of the characters. -/

/-- An optional sign, a decimal digit, and word characters. -/
def numeral? : List Char → Option (List Char × List Char)
  | [] => none
  | c :: cs =>
    if isDecimalDigit c then some (c :: cs.takeWhile isWordChar, cs.dropWhile isWordChar)
    else if c == '+' || c == '-' then
      match cs with
      | [] => none
      | d :: ds =>
        if isDecimalDigit d then some (c :: d :: ds.takeWhile isWordChar, ds.dropWhile isWordChar)
        else none
    else none

/-- A letter, and letters and digits; all of them ASCII. -/
def ident? : List Char → Option (List Char × List Char)
  | [] => none
  | c :: cs =>
    if c.isAlpha then some (c :: cs.takeWhile Char.isAlphanum, cs.dropWhile Char.isAlphanum)
    else none

/-- A dot, an ASCII letter, and word characters. -/
def directive? : List Char → Option (List Char × List Char)
  | '.' :: c :: cs =>
    if c.isAlpha then some ('.' :: c :: cs.takeWhile isWordChar, cs.dropWhile isWordChar)
    else none
  | _ => none

/-! ## One token -/

/-- What stands at the start of a text: a token or an error, its characters, and the rest. -/
structure Munch where
  item : Except LexError Token
  text : List Char
  rest : List Char

def readNumeral (cs : List Char) : Except LexError Token :=
  match Decimal.read cs with
  | .ok w => .ok (.int w)
  | .error .badDigit => .error .badNumeral
  | .error .tooLarge | .error .tooSmall => .error .outOfRange
  | .error .empty => .error .unreadable

/-- The longest token at the start of the text, or its first character as an error. No two of the
shapes have a first character in common. -/
def munch (c : Char) (cs : List Char) : Munch :=
  match numeral? (c :: cs) with
  | some (text, rest) => ⟨readNumeral text, text, rest⟩
  | none =>
    match ident? (c :: cs) with
    | some (text, rest) => ⟨.ok (.ident (String.ofList text)), text, rest⟩
    | none =>
      match directive? (c :: cs) with
      | some (text, rest) => ⟨.ok (.directive (String.ofList (text.drop 1))), text, rest⟩
      | none => ⟨.error .unknownSymbol, [c], cs⟩

theorem numeral?_length {cs text rest : List Char} (h : numeral? cs = some (text, rest)) :
    text ++ rest = cs ∧ text ≠ [] := by
  unfold numeral? at h
  repeat' split at h
  all_goals first | contradiction | skip
  all_goals
    obtain ⟨rfl, rfl⟩ := Prod.mk.inj (Option.some.inj h)
    simp [List.takeWhile_append_dropWhile]

theorem ident?_length {cs text rest : List Char} (h : ident? cs = some (text, rest)) :
    text ++ rest = cs ∧ text ≠ [] := by
  unfold ident? at h
  repeat' split at h
  all_goals first | contradiction | skip
  all_goals
    obtain ⟨rfl, rfl⟩ := Prod.mk.inj (Option.some.inj h)
    simp [List.takeWhile_append_dropWhile]

theorem directive?_length {cs text rest : List Char} (h : directive? cs = some (text, rest)) :
    text ++ rest = cs ∧ text ≠ [] := by
  unfold directive? at h
  repeat' split at h
  all_goals first | contradiction | skip
  all_goals
    obtain ⟨rfl, rfl⟩ := Prod.mk.inj (Option.some.inj h)
    simp [List.takeWhile_append_dropWhile]

/-- Nothing is lost, and at least one character is taken. -/
theorem munch_text_rest (c : Char) (cs : List Char) :
    (munch c cs).text ++ (munch c cs).rest = c :: cs ∧ (munch c cs).text ≠ [] := by
  unfold munch
  split
  · exact numeral?_length ‹_›
  · split
    · exact ident?_length ‹_›
    · split
      · exact directive?_length ‹_›
      · simp

/-! ## The tokens of a text -/

/-- A token or an error, with its place in the text. -/
structure Lexeme where
  item : Except LexError Token
  span : Span

/-- The characters that separate tokens. -/
def isSeparator (c : Char) : Bool := c == ' ' || c == '\t' || c == '\r'

/-- The first token of a text that starts at byte `pos`, and the rest after it. -/
def next? (pos : Nat) (cs : List Char) : Option (Lexeme × List Char) :=
  match cs.dropWhile isSeparator with
  | [] => none
  | c :: rest =>
    let m := munch c rest
    some (⟨m.item, Span.ofChars (pos + byteLength (cs.takeWhile isSeparator)) m.text⟩, m.rest)

theorem next?_length_lt {pos : Nat} {cs rest : List Char} {l : Lexeme}
    (h : next? pos cs = some (l, rest)) : rest.length < cs.length := by
  unfold next? at h
  split at h
  · contradiction
  · rename_i c ds hc
    obtain ⟨-, rfl⟩ := Prod.mk.inj (Option.some.inj h)
    have hm := munch_text_rest c ds
    have hl := congrArg List.length hm.1
    have hp := List.length_pos_iff.2 hm.2
    have hs := congrArg List.length (List.takeWhile_append_dropWhile (p := isSeparator) (l := cs))
    simp only [hc, List.length_append, List.length_cons] at hl hs
    omega

/-- All tokens of a text that starts at byte `pos`. -/
def lexemes (pos : Nat) (cs : List Char) : List Lexeme :=
  match _h : next? pos cs with
  | none => []
  | some (l, rest) => l :: lexemes l.span.stop rest
termination_by cs.length
decreasing_by exact next?_length_lt _h

/-- The token that the field consists of, or an error with its place in the field. A second token
that is a wrong numeral is reported as such, and any other as trailing characters. -/
def readField (cs : List Char) : Except (LexError × Span) Token :=
  match next? 0 cs with
  | none => .error (.unknownSymbol, Span.ofChars 0 cs)
  | some (first, rest) =>
    match first.item with
    | .error e => .error (e, first.span)
    | .ok token =>
      match next? first.span.stop rest with
      | none => .ok token
      | some (second, _) =>
        match second.item with
        | .error .outOfRange => .error (.outOfRange, second.span)
        | .error .badNumeral => .error (.badNumeral, second.span)
        | _ => .error (.trailing, ⟨second.span.start, byteLength cs⟩)

end SolMachine.Assembly
