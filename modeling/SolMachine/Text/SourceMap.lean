import SolMachine.Text.Blank
import SolMachine.Text.Line

/-!
# Lines and columns of a text

* `SourceMap` : the lines of a text, to turn byte positions into line and column;
* `SourceMap.lineOf`, `SourceMap.position` : the line and column of a byte;
* `SourceMap.lineSpan?`, `SourceMap.readLine?` : a line without the blanks around it.

All numbers count from 0, and columns count bytes.
-/

namespace SolMachine.Text

/-- The lines of a text and its length in bytes. -/
structure SourceMap where
  lines : Array Line
  size : Nat
  deriving Inhabited

/-- The first index in `[lo, hi)` at which `p` fails, or `hi`, where `p` holds of an initial part
of the range only. -/
def partitionPoint (p : Nat → Bool) (lo hi : Nat) : Nat :=
  if lo < hi then
    let mid := (lo + hi) / 2
    if p mid then partitionPoint p (mid + 1) hi else partitionPoint p lo mid
  else lo
termination_by hi - lo

namespace SourceMap

def ofText (cs : List Char) : SourceMap := ⟨(Text.lines cs).toArray, byteLength cs⟩

def countLines (m : SourceMap) : Nat := m.lines.size

def feeds (m : SourceMap) : List Nat := (m.lines.toList.drop 1).map fun l => l.start - 1

/-- The line that the byte at `index` belongs to: as many lines end before it. A line feed belongs
to the line that it ends, and a position past the end of the text to the last line. -/
def lineOf (m : SourceMap) (index : Nat) : Nat :=
  partitionPoint (fun i => (m.lines[i]?.map fun l => decide (l.start ≤ index)).getD false)
    1 m.lines.size - 1

/-- Line and column of the byte at `index`. -/
def position (m : SourceMap) (index : Nat) : Nat × Nat :=
  let line := m.lineOf index
  (line, index - (m.lines[line]?.map Line.start).getD 0)

/-- The span of a line without the blanks around it; a blank line has an empty span at its start. -/
def lineSpan? (m : SourceMap) (line : Nat) : Option Span :=
  m.lines[line]?.map fun l =>
    let kept := trimEnd l.chars
    let skipped := kept.takeWhile isBlank
    ⟨l.start + byteLength skipped, l.start + byteLength kept⟩

/-- A line without the blanks around it. -/
def readLine? (m : SourceMap) (line : Nat) : Option String :=
  m.lines[line]?.map fun l => String.ofList (trim l.chars)

end SourceMap

end SolMachine.Text
