import SolMachine.Assembly.Program
import SolMachine.Machine.Trace
import SolMachine.Tool.Arguments
import SolMachine.Tool.Host
import SolMachine.WordFile

/-!
# The tools at work

* `Tool.assembleFile` : assembles a source file into a word file;
* `Tool.simulateFile` : runs a word file and writes the trace;
* `Tool.run` : a tool with the arguments of its command line.

The assembler creates its output once it has all of it. The simulator creates its output before the
run and removes it if the run fails. So a file that a tool leaves is complete.
-/

namespace SolMachine
open SolMachine.Assembly

inductive Exit where
  | success
  | failure
  /-- The command line was refused. -/
  | usage
  deriving DecidableEq, Repr, Inhabited

def Exit.code : Exit → UInt32
  | success => 0
  | failure | usage => 1

namespace Tool

variable {m : Type → Type} [Monad m] [Host m]

/-- Ends in failure, with a chain of messages from the outermost to the innermost, and advice. -/
def failWith (chain : List String) (help : Option String) : m Exit := do
  Host.complain ("error: " ++ ": ".intercalate chain ++ "\n")
  match help with
  | some text => Host.complain ("  = help: " ++ text ++ "\n")
  | none => pure ()
  return .failure

/-- Writes the text of an output that was created, or removes the output. -/
def finishOutput (output text : String) : m Exit := do
  match ← Host.writeText output text with
  | .ok () => return .success
  | .error e =>
    Host.remove output
    failWith ["could not write " ++ output, e.message] none

def assembleFile (input output : String) : m Exit := do
  match ← Host.readText input with
  | .error e => failWith ["could not read " ++ input, e.message] none
  | .ok source =>
    match assemble source false with
    | .error ds =>
      Host.complain (ds.report input source)
      failWith ["could not assemble " ++ input ++ " due to " ++ Nat.repr ds.toList.length ++
        " error(s)"] none
    | .ok program =>
      match ← Host.create output with
      | .error e => failWith ["could not create " ++ output, e.message] none
      | .ok () => finishOutput output (WordFile.write program.words)

/-- What the simulator starts a machine from. -/
def configOf (options : Options) : Config :=
  match options.seed, options.randomInit with
  | some seed, _ => ⟨.seeded seed, stackCapacity⟩
  | none, true => ⟨.unseeded, stackCapacity⟩
  | none, false => .standard

/-- Runs a machine that holds a program and writes the trace. -/
def traceFile (machine : Machine) (output : String) (limit : Option UInt64) : m Exit := do
  match ← Host.create output with
  | .error e => failWith ["could not create " ++ output, e.message] none
  | .ok () =>
    match machine.trace limit none with
    | some ⟨_, sink, .ok _⟩ => finishOutput output sink.text
    | some ⟨after, _, .error e⟩ =>
      Host.remove output
      failWith (("simulation failed at pc " ++ Nat.repr after.pc) :: e.message :: e.cause.toList)
        e.help
    | none =>
      Host.remove output
      failWith ["simulation does not end"] none

def simulateFile (input output : String) (options : Options) : m Exit := do
  match ← Host.readText input with
  | .error e => failWith ["could not read " ++ input, e.message] none
  | .ok text =>
    match WordFile.read text with
    | .error e => failWith (("could not load " ++ input) :: e.message :: e.cause.toList) none
    | .ok words =>
      match (Machine.new (configOf options) (← Host.draw)).load words with
      | .error f => failWith [f.message] none
      | .ok machine => traceFile machine output options.maxSteps

/-- Runs a tool with the arguments of its command line. -/
def run (t : Tool) (args : List String) : m Exit := do
  match t.parse args with
  | .error e =>
    Host.complain ("error: " ++ e.message ++ "\n\n" ++ t.usage)
    return .usage
  | .ok .version =>
    Host.print t.version
    return .success
  | .ok .help =>
    Host.print t.usage
    return .success
  | .ok (.run input output options) =>
    match t with
    | .assembler => assembleFile input output
    | .simulator => simulateFile input output options

end Tool

end SolMachine
