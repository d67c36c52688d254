/-!
# Byte spans

Positions in a text are byte offsets of its UTF-8 form.

* `byteLength` : the number of bytes of a list of characters (`byteLength_append`);
* `Span` : a half-open range of bytes;
* `Place` : the one or two spans that a message points at, the earlier one first.
-/

namespace SolMachine.Text

/-- The number of bytes of the UTF-8 form of the characters. -/
def byteLength (cs : List Char) : Nat :=
  cs.foldr (fun c n => c.utf8Size + n) 0

@[simp] theorem byteLength_nil : byteLength [] = 0 := rfl

@[simp] theorem byteLength_cons (c : Char) (cs : List Char) :
    byteLength (c :: cs) = c.utf8Size + byteLength cs := rfl

@[simp] theorem byteLength_append (cs ds : List Char) :
    byteLength (cs ++ ds) = byteLength cs + byteLength ds := by
  induction cs with
  | nil => simp
  | cons c cs ih => simp [ih, Nat.add_assoc]

/-- The bytes from `start` up to, and not including, `stop`. -/
structure Span where
  start : Nat
  stop : Nat
  deriving DecidableEq, Repr, Inhabited

namespace Span

/-- The span moved by `n` bytes towards the end of the text. -/
def shift (n : Nat) (s : Span) : Span := ⟨n + s.start, n + s.stop⟩

/-- The span of the characters `cs` that begin at byte `start`. -/
def ofChars (start : Nat) (cs : List Char) : Span := ⟨start, start + byteLength cs⟩

end Span

/-- What a message points at: one span, or two in the order of their starts. -/
structure Place where
  first : Span
  second : Option Span
  deriving DecidableEq, Repr, Inhabited

namespace Place

def single (s : Span) : Place := ⟨s, none⟩

/-- A place of two spans, the earlier start first; with equal starts the given order stays. -/
def pair (s t : Span) : Place :=
  if s.start ≤ t.start then ⟨s, some t⟩ else ⟨t, some s⟩

def spans (p : Place) : List Span := p.first :: p.second.toList

theorem pair_first_le (s t : Span) : ∀ r ∈ (pair s t).spans, (pair s t).first.start ≤ r.start := by
  by_cases h : s.start ≤ t.start
  · simp [pair, spans, h]
  · simp [pair, spans, h, Nat.le_of_not_le h]

end Place

end SolMachine.Text
