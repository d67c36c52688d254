import SolMachine.Text.Span

/-!
# Lines with their places

* `Line` : the characters of a line and the byte at which it starts;
* `lines` : the lines of a text, which a line feed ends; the feed belongs to no line.
-/

namespace SolMachine.Text

/-- A line of a text, without the line feed that ends it. -/
structure Line where
  start : Nat
  chars : List Char
  deriving Repr, Inhabited

namespace Line

/-- The byte after the last character of the line. -/
def stop (l : Line) : Nat := l.start + byteLength l.chars

end Line

/-- Gives each line its start, where the first one starts at `base` and one byte ends each line. -/
def locate (base : Nat) : List (List Char) → List Line
  | [] => []
  | cs :: rest => ⟨base, cs⟩ :: locate (base + byteLength cs + 1) rest

/-- The number of bytes of lines, with one more for the end of each. -/
def byteLengthOfLines (ls : List (List Char)) : Nat :=
  ls.foldr (fun cs n => byteLength cs + 1 + n) 0

/-- The lines of a text; there is always one, and one more for every line feed. -/
def lines (cs : List Char) : List Line :=
  locate 0 (cs.splitOn '\n')

@[simp] theorem length_locate (base : Nat) (ls : List (List Char)) :
    (locate base ls).length = ls.length := by
  induction ls generalizing base with
  | nil => rfl
  | cons cs rest ih => simp [locate, ih]

theorem locate_append (base : Nat) (ks ls : List (List Char)) :
    locate base (ks ++ ls) =
      locate base ks ++ locate (base + byteLengthOfLines ks) ls := by
  induction ks generalizing base with
  | nil => rfl
  | cons cs rest ih => simp [locate, ih, byteLengthOfLines, Nat.add_assoc]

end SolMachine.Text
