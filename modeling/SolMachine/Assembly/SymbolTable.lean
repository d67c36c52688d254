import Std.Data.HashMap
import SolMachine.Assembly.Diagnostic
import SolMachine.Assembly.Statement
import SolMachine.Text.SourceMap

/-!
# Symbol tables

* `Survey` : what one pass over the statements finds: the labels, the depth of the stack, and the
  faults; `survey` is that pass;
* `SymbolTable` : the labels of a program, and on request its lines;
* `SymbolTable.build` : the table of a program without such faults;
* `addressOf?`, `labelAt?`, `definitionSpan?`, `addressOfLine?`, `lineOf?` : the ways to look at it.

The address of a statement is its number.
-/

namespace SolMachine.Assembly
open SolMachine.Text

/-- Where a label is defined: the address of its statement, and the byte at which its name starts. -/
structure Definition where
  address : Nat
  start : Nat
  deriving DecidableEq, Repr, Inhabited

/-- The span of a label of the given name that is defined there. -/
def Definition.span (d : Definition) (name : String) : Span := ⟨d.start, d.start + name.utf8ByteSize⟩

/-! ## The pass -/

/-- What a pass over statements has found: the first definition of each label, the start of the last
label that was new, the depth of the stack, and the faults in order. -/
structure Survey where
  labels : Std.HashMap String Definition
  lastStart : Nat
  depth : Nat
  faults : Array Diagnostic

namespace Survey

def initial : Survey := ⟨∅, 0, 0, #[]⟩

def fault (s : Survey) (d : Diagnostic) : Survey := { s with faults := s.faults.push d }

/-- Defines a label, unless it is defined already. -/
def define (s : Survey) (address : Nat) (l : Label) : Survey :=
  match s.labels[l.name]? with
  | some d => s.fault ⟨.duplicateLabel, .pair (d.span l.name) l.span⟩
  | none =>
    { s with labels := s.labels.insert l.name ⟨address, l.span.start⟩, lastStart := l.span.start }

/-- Follows the depth of the stack through a body; one that fails leaves it as it was. -/
def follow (s : Survey) (body : Body) (span : Span) : Survey :=
  match body with
  | .instruction (.push _) =>
    if stackCapacity ≤ s.depth then s.fault (.of .stackOverflow span)
    else { s with depth := s.depth + 1 }
  | .instruction (.pop _) =>
    if s.depth = 0 then s.fault (.of .stackUnderflow span) else { s with depth := s.depth - 1 }
  | _ => s

def visit (s : Survey) (address : Nat) (statement : Statement) : Survey :=
  let s := match statement.label with
    | some l => s.define address l
    | none => s
  s.follow statement.body statement.span

end Survey

def survey (statements : List Statement) : Survey :=
  statements.zipIdx.foldl (fun s (statement, address) => s.visit address statement) .initial

/-- The faults of a program as a whole: its size, then what the survey found, then the number of its
labels. -/
def surveyFaults (statements : List Statement) (s : Survey) : List Diagnostic :=
  let size := (statements[maxWords]?.map fun st => Diagnostic.of .programTooLarge st.span).toList
  let count := if maxWords < s.labels.size then
      [Diagnostic.of .tooManyLabels ⟨s.lastStart, s.lastStart⟩] else []
  size ++ s.faults.toList ++ count

/-! ## The table -/

/-- The lines of a program: that of each statement, in order, and the source text. -/
structure LineTable where
  lines : Array Nat
  source : SourceMap

/-- The labels of a program by name and by address, and its lines if they were asked for. -/
structure SymbolTable where
  labels : Std.HashMap String Definition
  names : Array (Option String)
  lineTable : Option LineTable

namespace SymbolTable

/-- The table of a program. Given the source, it holds the lines too. -/
def build (statements : List Statement) (source : Option SourceMap) :
    Except Diagnostics SymbolTable :=
  let s := survey statements
  match surveyFaults statements s with
  | [] => .ok {
      labels := s.labels
      names := (statements.map fun st => st.label.map Label.name).toArray
      lineTable := source.map fun m =>
        ⟨(statements.map fun st => m.lineOf st.span.start).toArray, m⟩ }
  | faults => .error (.ofList faults)

/-- The address of a label; case counts. -/
def addressOf? (t : SymbolTable) (name : String) : Option Nat :=
  t.labels[name]?.map Definition.address

def labelAt? (t : SymbolTable) (address : Nat) : Option String := t.names[address]?.join

def definitionSpan? (t : SymbolTable) (name : String) : Option Span :=
  t.labels[name]?.map fun d => d.span name

def lineOf? (t : SymbolTable) (address : Nat) : Option Nat :=
  t.lineTable.bind fun l => l.lines[address]?

/-- The address of the statement on a line. The lines of statements increase, so the one place at
which the line can stand is the first that is not before it. -/
def addressOfLine? (t : SymbolTable) (line : Nat) : Option Nat :=
  t.lineTable.bind fun l =>
    let i := partitionPoint (fun i => (l.lines[i]?.map fun k => decide (k < line)).getD false)
      0 l.lines.size
    if l.lines[i]? = some line then some i else none

/-- The labels in the order of their addresses, with address and place. -/
def definitions (t : SymbolTable) : List (String × Nat × Span) :=
  t.names.toList.zipIdx.filterMap fun (name?, address) =>
    name?.bind fun name => (t.definitionSpan? name).map fun s => (name, address, s)

end SymbolTable

end SolMachine.Assembly
