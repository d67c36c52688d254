import SolMachine.Isa.Instruction
import SolMachine.Text.Span

/-!
# Statements

* `Statement` : a line of a program: a label or none, and what the line puts into memory;
* `Statement.render` : its text, from which it can be read again.
-/

namespace SolMachine.Assembly
open SolMachine.Text

/-- A label, where it is defined or used. -/
structure Label where
  name : String
  span : Span
  deriving DecidableEq, Repr, Inhabited

/-- An address operand as it is written. -/
inductive AddressOperand where
  | int (value : Word)
  | label (l : Label)
  deriving DecidableEq, Repr, Inhabited

def AddressOperand.render : AddressOperand → String
  | int w => Decimal.write w.toInt
  | label l => l.name

/-- The directive that puts a word of data into memory. -/
def fillName : String := ".fill"

inductive Body where
  | instruction (i : Instruction AddressOperand)
  | fill (value : AddressOperand)
  deriving DecidableEq, Repr, Inhabited

namespace Body

def name : Body → String
  | instruction i => i.opcode.name
  | fill _ => fillName

/-- The operands in the order in which they are written. -/
def fields : Body → List (Register ⊕ AddressOperand)
  | instruction i => i.fields
  | fill v => [.inr v]

def render : Body → String
  | instruction i => i.render AddressOperand.render
  | fill v => fillName ++ " " ++ v.render

end Body

/-- A statement; the span is that of the body. -/
structure Statement where
  label : Option Label
  body : Body
  span : Span
  deriving DecidableEq, Repr, Inhabited

namespace Statement

/-- The text of the statement: the label if there is one, a space, and the body. -/
def render (s : Statement) : String :=
  (s.label.map Label.name).getD "" ++ " " ++ s.body.render

end Statement

end SolMachine.Assembly
