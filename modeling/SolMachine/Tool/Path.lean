/-!
# Paths

* `Path.components` : the parts of a path between slashes;
* `Path.cut?` : the way to the last part of a path, and that part;
* `Path.extension?` : the extension of the last part that names something;
* `Path.requireExtension` : accepts a path with the given extension.
-/

namespace SolMachine.Path

def split (path : String) : List String := (path.toList.splitOn '/').map String.ofList

/-- The parts of a path that name something: all but empty ones and single dots. -/
def components (path : String) : List String :=
  (split path).filter fun c => c != "" && c != "."

/-- The last part of a path: single or double dots, or a name, after which a slash may stand. -/
inductive Last where
  | dots (part : String)
  | name (part : String) (slashed : Bool)
  deriving DecidableEq, Repr, Inhabited

def isAbsolute (path : String) : Bool := path.toList.head? == some '/'

/-- The parts before the last one of a path, and that one. Slashes alone stand for the directory in
which they start, and the empty path for nothing. -/
def cut? (path : String) : Option (List String × Last) :=
  let reversed := (split path).reverse
  match reversed.dropWhile fun c => c == "" with
  | [] => if isAbsolute path then some ([], .dots ".") else none
  | part :: way =>
    some (way.reverse,
      if part = "." ∨ part = ".." then .dots part else .name part (reversed.head? == some ""))

/-- The part of a name after its last dot, unless that dot is the first character of the name. -/
def extensionOfName? (name : String) : Option String :=
  let reversed := name.toList.reverse
  let after := reversed.takeWhile fun c => c != '.'
  match reversed.dropWhile fun c => c != '.' with
  | [] | [_] => none
  | _ :: _ :: _ => some (String.ofList after.reverse)

/-- The extension of what the path names; a path that ends in `..` has none. -/
def extension? (path : String) : Option String :=
  match (components path).getLast? with
  | none | some ".." => none
  | some name => extensionOfName? name

/-- The path, if it has the extension, and else what is said of it. -/
def requireExtension (ext path : String) : Except String String :=
  if extension? path = some ext then .ok path
  else .error ("expected a file ending with ." ++ ext)

end SolMachine.Path
