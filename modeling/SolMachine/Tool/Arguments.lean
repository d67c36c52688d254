import SolMachine.Decimal
import SolMachine.Tool.Path

/-!
# Command lines

* `Tool` : the two tools, with the extensions of their files and their options;
* `Options` : what a command line sets; `Options.level` is how much is logged;
* `Tool.parse` : the request of a command line, or why it is refused.

Arguments are read from the left, and the first one that is refused or asks for help or the version
decides. Only then the line as a whole is checked: both files must be there, and of options that
exclude each other at most one.
-/

namespace SolMachine

inductive Tool where
  | assembler
  | simulator
  deriving DecidableEq, Repr, Inhabited

/-- What a command line sets. -/
structure Options where
  files : List String
  verbose : Nat
  quiet : Bool
  maxSteps : Option UInt64
  seed : Option UInt64
  randomInit : Bool
  deriving DecidableEq, Repr, Inhabited

namespace Options

def initial : Options := ⟨[], 0, false, none, none, false⟩

def level (o : Options) : String :=
  if o.quiet then "error"
  else match o.verbose with
    | 0 => "info"
    | 1 => "debug"
    | _ => "trace"

end Options

/-- What a command line asks for. -/
inductive Request where
  | run (input output : String) (options : Options)
  | version
  | help
  deriving DecidableEq, Repr, Inhabited

inductive UsageError where
  | unknown (argument : String)
  | repeated (option : String)
  | unexpectedValue (option : String)
  | missingValue (option : String)
  | badValue (value why : String)
  | missingFile (name : String)
  | conflict (option other : String)
  deriving DecidableEq, Repr, Inhabited

namespace UsageError

def message : UsageError → String
  | unknown argument => "unexpected argument " ++ argument
  | repeated option => option ++ " was given more than once"
  | unexpectedValue option => option ++ " takes no value"
  | missingValue option => option ++ " needs a value"
  | badValue value why => "bad value " ++ value ++ ": " ++ why
  | missingFile name => "missing file " ++ name
  | conflict option other => option ++ " cannot be used with " ++ other

end UsageError

namespace Tool

def name : Tool → String
  | assembler => "asol"
  | simulator => "ssol"

/-- The line that tells the version of the tool. -/
def version (t : Tool) : String := t.name ++ " 0.1.0\n"

def inputExtension : Tool → String
  | assembler => "as"
  | simulator => "mc"

def outputExtension : Tool → String
  | assembler => "mc"
  | simulator => "txt"

def usage (t : Tool) : String :=
  let extra := match t with
    | assembler => ""
    | simulator => " [--max-steps N] [--seed S | --random-init]"
  "Usage: " ++ t.name ++ " [-v... | -q]" ++ extra ++ " INPUT." ++ t.inputExtension ++
    " OUTPUT." ++ t.outputExtension ++ "\n"

inductive Action where
  | set (f : Options → Except UsageError Options)
  /-- It takes a number and changes the options with it. -/
  | take (f : UInt64 → Options → Except UsageError Options)
  | answer (r : Request)

def quietAction : Action :=
  .set fun o => if o.quiet then .error (.repeated "--quiet") else .ok { o with quiet := true }

def verboseAction : Action := .set fun o => .ok { o with verbose := o.verbose + 1 }

def simulatorAction? : String → Option Action
  | "max-steps" => some (.take fun n o =>
      if o.maxSteps.isSome then .error (.repeated "--max-steps")
      else .ok { o with maxSteps := some n })
  | "seed" => some (.take fun n o =>
      if o.seed.isSome then .error (.repeated "--seed") else .ok { o with seed := some n })
  | "random-init" => some (.set fun o =>
      if o.randomInit then .error (.repeated "--random-init") else .ok { o with randomInit := true })
  | _ => none

def longAction? (t : Tool) : String → Option Action
  | "quiet" => some quietAction
  | "verbose" => some verboseAction
  | "version" => some (.answer .version)
  | "help" => some (.answer .help)
  | name => if t = simulator then simulatorAction? name else none

def shortAction? : Char → Option Action
  | 'q' => some quietAction
  | 'v' => some verboseAction
  | 'V' => some (.answer .version)
  | 'h' => some (.answer .help)
  | _ => none

/-- Adds a file: first the input, then the output. -/
def addFile (t : Tool) (o : Options) (path : String) : Except UsageError Options :=
  let ext? := match o.files with
    | [] => some t.inputExtension
    | [_] => some t.outputExtension
    | _ => none
  match ext? with
  | none => .error (.unknown path)
  | some ext =>
    match Path.requireExtension ext path with
    | .ok path => .ok { o with files := o.files ++ [path] }
    | .error why => .error (.badValue path why)

def takeValue (f : UInt64 → Options → Except UsageError Options) (value : String) (o : Options) :
    Except UsageError Options :=
  match Decimal.readCount value.toList with
  | some n => f n o
  | none => .error (.badValue value "expected a number")

/-- Reads a cluster of short options; one of them may answer. -/
def readShort (o : Options) : List Char → Except UsageError (Options ⊕ Request)
  | [] => .ok (.inl o)
  | c :: cs =>
    match shortAction? c with
    | some (.set f) =>
      match f o with
      | .ok o => readShort o cs
      | .error e => .error e
    | some (.answer r) => .ok (.inr r)
    | _ => .error (.unknown (String.ofList ['-', c]))

def finish (t : Tool) (o : Options) : Except UsageError Request :=
  match o.files with
  | [input, output] =>
    if o.quiet ∧ o.verbose ≠ 0 then .error (.conflict "--quiet" "--verbose")
    else if o.seed.isSome ∧ o.randomInit then .error (.conflict "--seed" "--random-init")
    else .ok (.run input output o)
  | [_] => .error (.missingFile ("OUTPUT." ++ t.outputExtension))
  | _ => .error (.missingFile ("INPUT." ++ t.inputExtension))

/-- Reads arguments of which none is an option. -/
def readFiles (t : Tool) (o : Options) : List String → Except UsageError Request
  | [] => t.finish o
  | path :: rest =>
    match t.addFile o path with
    | .ok o => readFiles t o rest
    | .error e => .error e

inductive Argument where
  | separator
  | long (name : String) (value : Option String)
  | short (cluster : List Char)
  | file (path : String)

/-- The kind of an argument. A single dash is a file. -/
def Argument.ofString (s : String) : Argument :=
  match s.toList with
  | ['-', '-'] => .separator
  | '-' :: '-' :: cs =>
    let name := String.ofList (cs.takeWhile fun c => c != '=')
    match cs.dropWhile fun c => c != '=' with
    | [] => .long name none
    | _ :: value => .long name (some (String.ofList value))
  | '-' :: c :: cs => .short (c :: cs)
  | _ => .file s

def read (t : Tool) (o : Options) : List String → Except UsageError Request
  | [] => t.finish o
  | arg :: rest =>
    match Argument.ofString arg with
    | .separator => t.readFiles o rest
    | .file path =>
      match t.addFile o path with
      | .ok o => read t o rest
      | .error e => .error e
    | .short cluster =>
      match readShort o cluster with
      | .ok (.inl o) => read t o rest
      | .ok (.inr r) => .ok r
      | .error e => .error e
    | .long name value =>
      match t.longAction? name, value with
      | none, _ => .error (.unknown arg)
      | some (.answer r), none => .ok r
      | some (.set f), none =>
        match f o with
        | .ok o => read t o rest
        | .error e => .error e
      | some (.take f), some v =>
        match takeValue f v o with
        | .ok o => read t o rest
        | .error e => .error e
      | some (.take f), none =>
        match rest with
        | [] => .error (.missingValue arg)
        | v :: rest =>
          match Argument.ofString v with
          | .file _ =>
            match takeValue f v o with
            | .ok o => read t o rest
            | .error e => .error e
          | _ => .error (.missingValue arg)
      | some _, some _ => .error (.unexpectedValue arg)

def parse (t : Tool) (args : List String) : Except UsageError Request := t.read .initial args

end Tool

end SolMachine
