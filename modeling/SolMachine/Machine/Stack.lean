import SolMachine.Machine.Fault

/-!
# The stack

`Stack` : words, the top first, and the number of words that it can hold; `Stack.push` and
`Stack.pop` fault where it is full or empty.
-/

namespace SolMachine

/-- A stack; the first word is the top. -/
structure Stack where
  words : List Word
  capacity : Nat
  deriving DecidableEq, Repr, Inhabited

namespace Stack

def empty (capacity : Nat) : Stack := ⟨[], capacity⟩

def size (s : Stack) : Nat := s.words.length

def push (s : Stack) (w : Word) : Except Fault Stack :=
  if s.capacity ≤ s.size then .error .stackOverflow else .ok { s with words := w :: s.words }

def pop (s : Stack) : Except Fault (Word × Stack) :=
  match s.words with
  | [] => .error .stackUnderflow
  | w :: ws => .ok (w, { s with words := ws })

theorem push_eq_ok_iff {s t : Stack} {w : Word} :
    s.push w = .ok t ↔ s.size < s.capacity ∧ t = { s with words := w :: s.words } := by
  unfold push
  split <;> simp <;> first | omega | grind

theorem pop_push {s t : Stack} {w : Word} (h : s.push w = .ok t) : t.pop = .ok (w, s) := by
  obtain ⟨-, rfl⟩ := push_eq_ok_iff.1 h
  rfl

end Stack

end SolMachine
