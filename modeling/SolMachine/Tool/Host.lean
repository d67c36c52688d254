import SolMachine.Machine.State

/-!
# What the tools need of their surroundings

* `FileError` : why a file cannot be used, in the words of the system;
* `Host` : reading, creating, writing and removing files, the two output streams, and words by chance. The
  tools are written for every host.
-/

namespace SolMachine

inductive FileError where
  | notFound
  | notDirectory
  | isDirectory
  | nameTooLong
  /-- The content is no UTF-8 text. -/
  | notText
  | other (text : String)
  deriving DecidableEq, Repr, Inhabited

namespace FileError

def message : FileError → String
  | notFound => "No such file or directory (os error 2)"
  | notDirectory => "Not a directory (os error 20)"
  | isDirectory => "Is a directory (os error 21)"
  | nameTooLong => "File name too long (os error 36)"
  | notText => "stream did not contain valid UTF-8"
  | other text => text

end FileError

/-- The surroundings of a tool. -/
class Host (m : Type → Type) where
  readText : String → m (Except FileError String)
  /-- Makes an empty file, or empties one. -/
  create : String → m (Except FileError Unit)
  /-- Replaces the content of a file that was created. -/
  writeText : String → String → m (Except FileError Unit)
  remove : String → m Unit
  print : String → m Unit
  complain : String → m Unit
  /-- A word for each register, which nobody can predict. -/
  draw : m Registers

end SolMachine
