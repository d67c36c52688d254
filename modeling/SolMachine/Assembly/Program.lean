import SolMachine.Assembly.LineReader
import SolMachine.Assembly.Resolve

/-!
# Assembled programs

* `Program` : the words of a program, and its symbols if they were asked for;
* `assemble` : the program of a source text, or its faults;
* `Diagnostics.report` : the faults as they are shown to the author of the text.

Faults of the lines and of the program as a whole are reported together. Only a text without them is
encoded, and then the faults of its operands are reported.
-/

namespace SolMachine.Assembly
open SolMachine.Text

/-- The words of a program from address 0 on. -/
structure Program where
  words : List Word
  symbols : Option SymbolTable

/-- The values, if there is no error among the results; else the errors. -/
def collect {ε α : Type} (results : List (Except ε α)) : Except (List ε) (List α) :=
  let errors := results.filterMap fun
    | .ok _ => none
    | .error e => some e
  if errors.isEmpty then .ok (results.filterMap Except.toOption) else .error errors

def encodeStatements (t : SymbolTable) (statements : List Statement) :
    Except (List Diagnostic) (List Word) :=
  collect (statements.zipIdx.map fun (s, address) => wordAt t address s)

/-- Assembles a source text; `debug` keeps its symbols. -/
def assemble (source : String) (debug : Bool) : Except Diagnostics Program :=
  let cs := source.toList
  let read := readSource cs
  match SymbolTable.build read.statements (if debug then some (.ofText cs) else none) with
  | .error found => .error (.ofList (read.faults ++ found.toList))
  | .ok t =>
    if read.faults.isEmpty then
      match encodeStatements t read.statements with
      | .ok words => .ok ⟨words, if debug then some t else none⟩
      | .error faults => .error (.ofList faults)
    else .error (.ofList read.faults)

/-! ## The report -/

/-- A fault with the line that it lies on; numbers count from 1 and columns count bytes. -/
def Diagnostic.report (file : String) (m : SourceMap) (d : Diagnostic) : String :=
  let (line, column) := m.position d.start
  let excerpt := match m.readLine? line with
    | some text => "  | " ++ text ++ "\n"
    | none => ""
  let help := match d.problem.help with
    | some text => "  = help: " ++ text ++ "\n"
    | none => ""
  "error: " ++ file ++ ":" ++ Nat.repr (line + 1) ++ ":" ++ Nat.repr (column + 1) ++ ": " ++
    d.problem.message ++ "\n" ++ excerpt ++ help

/-- All faults of a source text that was read from `file`. -/
def Diagnostics.report (ds : Diagnostics) (file source : String) : String :=
  let m := SourceMap.ofText source.toList
  String.join (ds.toList.map fun d => d.report file m)

end SolMachine.Assembly
