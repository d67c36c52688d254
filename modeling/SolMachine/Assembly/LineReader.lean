import SolMachine.Assembly.Diagnostic
import SolMachine.Assembly.Field
import SolMachine.Assembly.Statement

/-!
# Reading lines

* `Mnemonic` : what can stand behind the label: an operation or `.fill`;
* `readLine` : the statement and the diagnostics of a line;
* `readSource` : those of all lines of a text;
* `statements?` : the statements of a text without a fault.

Every line that is not blank yields a statement, also a faulty one: it keeps its label, if that is
valid, and its operation, so that addresses, labels and the depth of the stack stay those of the
text. Such a statement is never encoded.
-/

namespace SolMachine.Assembly
open SolMachine.Text

/-! ## Mnemonics -/

inductive Mnemonic where
  | operation (op : Opcode)
  | fill
  deriving DecidableEq, Repr, Inhabited

namespace Mnemonic

def name : Mnemonic → String
  | operation op => op.name
  | fill => fillName

def ofName? (s : String) : Option Mnemonic :=
  if s = fillName then some fill else (Opcode.ofName? s).map operation

def operands : Mnemonic → List OperandKind
  | operation op => op.operands
  | fill => [.address]

def required : Mnemonic → Nat
  | operation op => op.required
  | fill => 1

/-- Register A, where the line does not give it. -/
def defaultA : Mnemonic → Register
  | operation .push | operation .pop => .stackDefault
  | _ => .zero

/-- The body with the given operands; it takes of them what it needs. -/
def body (m : Mnemonic) (a b c : Register) (address : AddressOperand) : Body :=
  match m with
  | operation op => .instruction (.ofParts op a b c address)
  | fill => .fill address

end Mnemonic

/-! ## Labels and operands -/

/-- Whether the characters make a label: a letter, and letters and digits; all of them ASCII. -/
def isLabel : List Char → Bool
  | [] => false
  | c :: cs => c.isAlpha && cs.all Char.isAlphanum

def readLabel (f : Field) : Except Diagnostic Label :=
  if isLabel f.chars then .ok ⟨f.text, f.span⟩ else .error (.of .invalidLabel f.span)

def readToken (f : Field) : Except Diagnostic Token :=
  (readField f.chars).mapError fun (e, s) => .of (.lexical e) (s.shift f.start)

def readRegister (f : Field) : Token → Except Diagnostic Register
  | .int w =>
    match Register.ofInt? w.toInt with
    | some r => .ok r
    | none => .error (.of .registerOutOfRange f.span)
  | _ => .error (.of .expectedRegister f.span)

/-- The address operand that a token of a field is: an integer, or a label of letters only. -/
def readAddress (f : Field) : Token → Except Diagnostic AddressOperand
  | .int w => .ok (.int w)
  | .ident s =>
    if s.toList.all Char.isAlpha then .ok (.label ⟨s, f.span⟩)
    else .error (.of .invalidAddressSymbol f.span)
  | .directive _ => .error (.of .expectedAddress f.span)

/-- The operands read so far, the end of the last one, and what was wrong with them. -/
structure Operands where
  a : Register
  b : Register
  c : Register
  address : AddressOperand
  stop : Nat
  faults : List Diagnostic
  deriving Repr

namespace Operands

def initial (m : Mnemonic) (stop : Nat) : Operands := ⟨m.defaultA, .zero, .zero, .int 0, stop, []⟩

def fault (o : Operands) (d : Diagnostic) : Operands := { o with faults := o.faults ++ [d] }

def setRegister (o : Operands) (i : Nat) (r : Register) : Operands :=
  match i with
  | 0 => { o with a := r }
  | 1 => { o with b := r }
  | _ => { o with c := r }

def through (o : Operands) (f : Field) : Operands := { o with stop := f.span.stop }

/-- Takes a token as the operand in position `i`. -/
def take (o : Operands) (i : Nat) (kind : OperandKind) (f : Field) (t : Token) : Operands :=
  let o := match kind with
    | .register =>
      match readRegister f t with
      | .ok r => o.setRegister i r
      | .error d => o.fault d
    | .address =>
      match readAddress f t with
      | .ok v => { o with address := v }
      | .error d => o.fault d
  o.through f

end Operands

/-- Reads operand fields into their positions, from position `i` on. A field in a position that need
not be filled is a comment if it is no integer, and ends the operands. -/
def readOperands (required : Nat) (i : Nat) :
    List Field → List OperandKind → Operands → Operands
  | f :: fs, kind :: kinds, o =>
    match readToken f with
    | .error d =>
      if required ≤ i then o else readOperands required (i + 1) fs kinds (o.fault d)
    | .ok t =>
      if required ≤ i && !t.isInt then o
      else readOperands required (i + 1) fs kinds (o.take i kind f t)
  | _, _, o => o

/-! ## Lines -/

structure LineResult where
  statement : Option Statement
  faults : List Diagnostic
  deriving Repr

/-- Whether the line starts with a label: its first character is no blank. -/
def hasLabel (l : Line) : Bool :=
  match l.chars with
  | [] => false
  | c :: _ => !isBlank c

/-- The statement that stands for a line without an operation. -/
def placeholder (label : Option Label) (s : Span) : Statement := ⟨label, .fill (.int 0), s⟩

/-- Reads the mnemonic in field `f` and the operands in the fields after it. Only as many fields are
looked at as there are operand positions, and none of them if too few are present. -/
def readBody (label : Option Label) (f : Field) (rest : List Field) : Statement × List Diagnostic :=
  match Mnemonic.ofName? f.text with
  | none => (placeholder label f.span, [.of .unknownMnemonic f.span])
  | some m =>
    let operands := rest.take m.operands.length
    let initial := Operands.initial m f.span.stop
    let read :=
      if operands.length < m.required then
        let last := (operands.getLast?.map Field.span).getD f.span
        initial.fault (.of (.missingOperands m.name m.required operands.length) last)
      else readOperands m.required 0 operands m.operands initial
    (⟨label, m.body read.a read.b read.c read.address, f.span.start, read.stop⟩, read.faults)

def readRest (first : Field) (label : Option Label) (faults : List Diagnostic) :
    List Field → LineResult
  | [] => ⟨some (placeholder label first.span), faults ++ [.of .missingMnemonic first.span]⟩
  | f :: rest =>
    let (statement, found) := readBody label f rest
    ⟨some statement, faults ++ found⟩

def readLine (l : Line) : LineResult :=
  match fields l with
  | [] => ⟨none, []⟩
  | first :: rest =>
    if hasLabel l then
      match readLabel first with
      | .ok label => readRest first (some label) [] rest
      | .error d => readRest first none [d] rest
    else readRest first none [] (first :: rest)

/-- The statements of a text in order, and the faults of its lines in order. -/
structure SourceResult where
  statements : List Statement
  faults : List Diagnostic
  deriving Repr

def readSource (cs : List Char) : SourceResult :=
  let results := (lines cs).map readLine
  ⟨results.filterMap LineResult.statement, results.flatMap LineResult.faults⟩

/-- The statements of a text, if none of its lines has a fault. -/
def statements? (cs : List Char) : Except Diagnostics (List Statement) :=
  let source := readSource cs
  if source.faults.isEmpty then .ok source.statements else .error (.ofList source.faults)

end SolMachine.Assembly
