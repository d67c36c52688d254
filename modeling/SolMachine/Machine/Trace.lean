import SolMachine.Machine.Run

/-!
# Traces

* `Sink` : the text written so far, and how much more can be written;
* `Machine.memoryText`, `Machine.stateText`, `Machine.haltText` : the parts of a trace;
* `Machine.trace` : runs a machine and writes its memory, its state at the start and after every
  instruction, and its state at the `halt`; `Machine.traceWith` : in a number of rounds that is given.
-/

namespace SolMachine

/-! ## The parts of a trace -/

namespace Machine

/-- One line for each word, with its number. -/
def numbered (before between : String) (words : List Word) : String :=
  String.join (words.zipIdx.map fun (w, i) =>
    before ++ "[ " ++ Nat.repr i ++ " ]" ++ between ++ Decimal.write w.toInt ++ "\n")

/-- The words in memory and two empty lines. -/
def memoryText (m : Machine) : String :=
  numbered "memory" " = " m.memory.words.toList ++ "\n\n"

/-- The state of the machine, with the given program counter; the last line is left open. -/
def block (m : Machine) (pc : Nat) : String :=
  "@@@\nstate:\n\tpc " ++ Nat.repr pc ++
    "\n\tmemory:\n" ++ numbered "\t\tmem" " " m.memory.words.toList ++
    "\tregisters:\n" ++ numbered "\t\treg" " " m.registers.toList ++
    "\tstack:\n" ++ numbered "\t\tst" " " m.stack.words ++
    "\tflag: " ++ (if m.flag then "true" else "false") ++ "\nend state"

def stateText (m : Machine) : String := m.block m.pc ++ "\n\n"

/-- The state of a halted machine, the number of instructions, and the state after the `halt`. -/
def haltText (m : Machine) : String :=
  m.block m.pc ++ "\nmachine halted\ntotal of " ++ Nat.repr m.executed.toNat ++
    " instructions executed\nfinal state of machine:\n\n" ++ m.block (m.pc + 1) ++ "\n\n"

end Machine

/-! ## Writing it -/

/-- The pieces of text written so far, the last one first, and how many more bytes can be written, if
there is an end to them. -/
structure Sink where
  pieces : List String
  room : Option Nat
  deriving Repr, Inhabited

namespace Sink

def empty (room : Option Nat) : Sink := ⟨[], room⟩

def text (s : Sink) : String := String.join s.pieces.reverse

/-- Writes a text of ASCII characters, as far as there is room, and tells whether there was. -/
def put (s : Sink) (piece : String) : Sink × Bool :=
  match s.room with
  | none => ({ s with pieces := piece :: s.pieces }, true)
  | some room =>
    if piece.utf8ByteSize ≤ room then
      (⟨piece :: s.pieces, some (room - piece.utf8ByteSize)⟩, true)
    else (⟨String.ofList (piece.toList.take room) :: s.pieces, some 0⟩, false)

end Sink

inductive TraceError where
  | fault (f : Fault)
  /-- That many instructions were executed without a `halt`. -/
  | stepLimit (limit : UInt64)
  | output (why : String)
  deriving DecidableEq, Repr, Inhabited

namespace TraceError

def message : TraceError → String
  | fault f => f.message
  | stepLimit limit => "program did not halt within " ++ Nat.repr limit.toNat ++ " steps"
  | output why => "could not write trace: " ++ why

def help : TraceError → Option String
  | fault f => f.help
  | stepLimit _ =>
    some "the program may be stuck in a loop; raise the step limit if it is not"
  | output _ => none

/-- The error that lies behind it, if one does. -/
def cause : TraceError → Option String
  | fault f => some f.message
  | stepLimit _ => none
  | output why => some why

def full : TraceError := output "disk full"

end TraceError

/-- What a traced run leaves: the machine, what was written, and the count of executed instructions
or why the run failed. -/
structure TraceResult where
  machine : Machine
  sink : Sink
  result : Except TraceError UInt64

instance : Nonempty TraceResult := ⟨⟨Machine.new .standard, .empty none, .error .full⟩⟩

namespace Machine

/-- Whether a run that began at count `start` has used up its limit. -/
def atLimit (m : Machine) (start : UInt64) : Option UInt64 → Option UInt64
  | some limit => if limit ≤ m.executed - start then some limit else none
  | none => none

/-- One round of a traced run: an instruction and what is written after it. The run goes on with a
machine and a text, or it ends there. -/
def traceRound (start : UInt64) (limit : Option UInt64) (m : Machine) (sink : Sink) :
    (Machine × Sink) ⊕ TraceResult :=
  match m.atLimit start limit with
  | some n => .inr ⟨m, sink, .error (.stepLimit n)⟩
  | none =>
    match m.stepIn with
    | (m, .fault f) => .inr ⟨m, sink, .error (.fault f)⟩
    | (m, .halted) =>
      match sink.put m.haltText with
      | (sink, true) => .inr ⟨m, sink, .ok m.executed⟩
      | (sink, false) => .inr ⟨m, sink, .error .full⟩
    | (m, .ran) =>
      match sink.put m.stateText with
      | (sink, true) => .inl (m, sink)
      | (sink, false) => .inr ⟨m, sink, .error .full⟩

/-- Executes instructions and writes the state after each, until a `halt`, an error or the limit, in at
most so many rounds. -/
def traceLoop (start : UInt64) (limit : Option UInt64) :
    Nat → Machine → Sink → Option TraceResult
  | 0, _, _ => none
  | fuel + 1, m, sink =>
    match traceRound start limit m sink with
    | .inl (m, sink) => traceLoop start limit fuel m sink
    | .inr r => some r

/-- The same in as many rounds as it takes. Nothing is said of a run that goes on for ever. -/
def traceOn (start : UInt64) (limit : Option UInt64) (m : Machine) (sink : Sink) :
    Option TraceResult :=
  repeatM (fun (m, sink) => some (traceRound start limit m sink)) (m, sink)

/-- Begins a traced run: writes memory and the state at the start, and goes on in the given way. Of the
text, `room` bytes can be written. -/
def traceFrom (m : Machine) (room : Option Nat) (run : Machine → Sink → Option TraceResult) :
    Option TraceResult :=
  match (Sink.empty room).put m.memoryText with
  | (sink, false) => some ⟨m, sink, .error .full⟩
  | (sink, true) =>
    match sink.put m.stateText with
    | (sink, false) => some ⟨m, sink, .error .full⟩
    | (sink, true) => run m sink

/-- Runs the machine with a trace, in at most so many rounds. -/
def traceWith (m : Machine) (limit : Option UInt64) (room : Option Nat) (fuel : Nat) :
    Option TraceResult :=
  m.traceFrom room (traceLoop m.executed limit fuel)

/-- Runs the machine with a trace, to a limit if there is one. -/
def trace (m : Machine) (limit : Option UInt64) (room : Option Nat) : Option TraceResult :=
  m.traceFrom room (traceOn m.executed limit)

end Machine

end SolMachine
