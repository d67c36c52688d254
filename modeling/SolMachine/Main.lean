import SolMachine.Tool.Run

/-!
# The command line

The first argument is the tool, `asol` or `ssol`; the others are the arguments of the tool.
-/

namespace SolMachine

/-- A file error in the words of the system. -/
def fileError : IO.Error → FileError
  | .noFileOrDirectory .. => .notFound
  | .inappropriateType _ 20 _ => .notDirectory
  | .inappropriateType _ 21 _ => .isDirectory
  | .invalidArgument _ 36 _ => .nameTooLong
  | e => .other e.toString

/-- An action with its error as a value. -/
def attempt {α : Type} (action : IO α) : IO (Except FileError α) := do
  try return .ok (← action)
  catch e => return .error (fileError e)

instance : Host IO where
  readText path := do
    match ← attempt (IO.FS.readBinFile path) with
    | .error e => return .error e
    | .ok content =>
      match String.fromUTF8? content with
      | some text => return .ok text
      | none => return .error .notText
  create path := attempt (IO.FS.writeFile path "")
  writeText path text := attempt (IO.FS.writeFile path text)
  remove path := do let _ ← attempt (IO.FS.removeFile path)
  print text := IO.print text
  complain text := IO.eprint text
  draw := Vector.ofFnM fun _ => return BitVec.ofNat 32 (← IO.rand 0 (UInt32.size - 1))

end SolMachine

open SolMachine in
def main : List String → IO UInt32
  | "asol" :: args => return (← Tool.run .assembler args).code
  | "ssol" :: args => return (← Tool.run .simulator args).code
  | _ => do
    IO.eprint (Tool.usage .assembler ++ Tool.usage .simulator)
    return 1
