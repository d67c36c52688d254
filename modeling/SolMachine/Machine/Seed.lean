import SolMachine.Word

/-!
# Seeded words

* `Seed.key` : stretches a 64-bit seed to a key of eight words, by a linear congruential generator
  with permuted output;
* `Seed.block` : the first block of the ChaCha stream cipher with 12 rounds under that key, with
  counter and nonce zero;
* `Seed.words` : the sixteen words of that block.
-/

namespace SolMachine.Seed

/-- Rotates a word towards its high end, by less than its width and more than 0. -/
def rotateLeft (w k : UInt32) : UInt32 := (w <<< k) ||| (w >>> (32 - k))

/-- Rotates a word towards its low end; by 0 it stays as it is. -/
def rotateRight (w k : UInt32) : UInt32 := (w >>> k) ||| (w <<< ((32 - k) % 32))

/-! ## The key -/

def nextState (s : UInt64) : UInt64 := s * 6364136223846793005 + 11634580027462260723

def output (s : UInt64) : UInt32 :=
  rotateRight (((s >>> 18) ^^^ s) >>> 27).toUInt32 (s >>> 59).toUInt32

def outputs : Nat → UInt64 → List UInt32
  | 0, _ => []
  | n + 1, s => output (nextState s) :: outputs n (nextState s)

/-- The key of a seed: eight words. -/
def key (seed : UInt64) : List UInt32 := outputs 8 seed

/-! ## The block -/

structure Row where
  w0 : UInt32
  w1 : UInt32
  w2 : UInt32
  w3 : UInt32
  deriving DecidableEq, Repr, Inhabited

namespace Row

def ofList : List UInt32 → Row
  | [w0, w1, w2, w3] => ⟨w0, w1, w2, w3⟩
  | _ => ⟨0, 0, 0, 0⟩

def toList (r : Row) : List UInt32 := [r.w0, r.w1, r.w2, r.w3]

def zip (f : UInt32 → UInt32 → UInt32) (r s : Row) : Row :=
  ⟨f r.w0 s.w0, f r.w1 s.w1, f r.w2 s.w2, f r.w3 s.w3⟩

def add : Row → Row → Row := zip (· + ·)

/-- The differences of the words in exclusive or, rotated by `k` bits. -/
def mix (k : UInt32) : Row → Row → Row := zip fun x y => rotateLeft (x ^^^ y) k

/-- Moves every word one place to the left, and the first one to the end. -/
def turn (r : Row) : Row := ⟨r.w1, r.w2, r.w3, r.w0⟩

end Row

/-- The sixteen words that the cipher works on. -/
structure Block where
  a : Row
  b : Row
  c : Row
  d : Row
  deriving DecidableEq, Repr, Inhabited

namespace Block

def toList (x : Block) : List UInt32 := x.a.toList ++ x.b.toList ++ x.c.toList ++ x.d.toList

def add (x y : Block) : Block := ⟨x.a.add y.a, x.b.add y.b, x.c.add y.c, x.d.add y.d⟩

def columnRound (x : Block) : Block :=
  let a := x.a.add x.b
  let d := x.d.mix 16 a
  let c := x.c.add d
  let b := x.b.mix 12 c
  let a := a.add b
  let d := d.mix 8 a
  let c := c.add d
  let b := b.mix 7 c
  ⟨a, b, c, d⟩

/-- Turns the diagonals into columns. -/
def slant (x : Block) : Block := ⟨x.a, x.b.turn, x.c.turn.turn, x.d.turn.turn.turn⟩

/-- Turns the columns back into diagonals. -/
def unslant (x : Block) : Block := ⟨x.a, x.b.turn.turn.turn, x.c.turn.turn, x.d.turn⟩

theorem unslant_slant (x : Block) : x.slant.unslant = x := rfl

/-- A round on the columns and a round on the diagonals. -/
def doubleRound (x : Block) : Block := x.columnRound.slant.columnRound.unslant

def doubleRounds : Nat → Block → Block
  | 0, x => x
  | n + 1, x => doubleRounds n x.doubleRound

/-- The words that the rounds start from: the constant, the key, and zeros for counter and nonce. -/
def start (key : List UInt32) : Block where
  a := ⟨0x61707865, 0x3320646E, 0x79622D32, 0x6B206574⟩
  b := .ofList (key.take 4)
  c := .ofList (key.drop 4)
  d := ⟨0, 0, 0, 0⟩

end Block

/-- The first block of the cipher's stream. -/
def block (key : List UInt32) : Block :=
  ((Block.start key).doubleRounds 6).add (.start key)

def words (seed : UInt64) : Vector Word 16 :=
  Vector.ofFn fun i => ((block (key seed)).toList[i.val]?.map UInt32.toBitVec).getD 0#32

end SolMachine.Seed
