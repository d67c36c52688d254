import SolMachine.Tool.Host
import SolMachine.Tool.Path

/-!
# A host in memory

* `FileTree` : files and directories by the parts of their paths;
* `FileTree.walk`, `FileTree.arrive` : the way of a path through directories, and its last part;
* `World` : a file tree, the directory in which paths start, and what was written to the output
  streams; the tools run on it in `StateM World`.
-/

namespace SolMachine

/-- A file with its content, or a directory. -/
inductive Entry where
  | file (content : ByteArray)
  | directory

/-- Files and directories by the parts of their paths from the root, which is a directory. -/
structure FileTree where
  entries : List (List String × Entry)

namespace FileTree

def find? (t : FileTree) (place : List String) : Option Entry :=
  if place = [] then some .directory else t.entries.lookup place

def insert (t : FileTree) (place : List String) (e : Entry) : FileTree :=
  ⟨(place, e) :: t.entries.filter fun p => p.1 != place⟩

def erase (t : FileTree) (place : List String) : FileTree :=
  ⟨t.entries.filter fun p => p.1 != place⟩

/-- Adds a file or directory, and the directories that it lies in. -/
def add (t : FileTree) (place : List String) (e : Entry) : FileTree :=
  let parents := (List.range place.length).drop 1 |>.map fun n => place.take n
  let t := parents.foldl (fun t p => if (t.find? p).isSome then t else t.insert p .directory) t
  t.insert place e

def maxNameBytes : Nat := 255

def maxPathBytes : Nat := 4095

def look (t : FileTree) (place : List String) (name : String) : Except FileError (Option Entry) :=
  if maxNameBytes < name.utf8ByteSize then .error .nameTooLong else .ok (t.find? (place ++ [name]))

/-- The directory that the parts of a way lead to from the one at `place`. Every part is one step, so
a name must be that of a directory even if the next part leads back. The root lies in itself. -/
def walk (t : FileTree) (place : List String) : List String → Except FileError (List String)
  | [] => .ok place
  | c :: rest =>
    if c = "" ∨ c = "." then walk t place rest
    else if c = ".." then walk t place.dropLast rest
    else
      match t.look place c with
      | .error e => .error e
      | .ok none => .error .notFound
      | .ok (some (.file _)) => .error .notDirectory
      | .ok (some .directory) => walk t (place ++ [c]) rest

/-- The directory in which the last part of a path is looked up, and that part. A path that begins
with a slash starts at the root, and any other but the empty one in the directory at `base`. -/
def approach (t : FileTree) (base : List String) (path : String) :
    Except FileError (List String × Path.Last) :=
  if maxPathBytes < path.utf8ByteSize then .error .nameTooLong
  else
    match Path.cut? path with
    | none => .error .notFound
    | some (way, last) =>
      (t.walk (if Path.isAbsolute path then [] else base) way).map fun place => (place, last)

/-- Where a path leads: to something that exists, or to a free place in a directory. -/
inductive Target where
  | existing (place : List String) (e : Entry)
  | free (place : List String)

/-- Where the last part of a path leads from the directory at `place`. -/
def arrive (t : FileTree) (place : List String) : Path.Last → Except FileError Target
  | .dots part => (t.walk place [part]).map fun place => .existing place .directory
  | .name part slashed =>
    match t.look place part with
    | .error e => .error e
    | .ok none => if slashed then .error .notFound else .ok (.free (place ++ [part]))
    | .ok (some .directory) => .ok (.existing (place ++ [part]) .directory)
    | .ok (some (.file content)) =>
      if slashed then .error .notDirectory else .ok (.existing (place ++ [part]) (.file content))

def target (t : FileTree) (base : List String) (path : String) : Except FileError Target :=
  match t.approach base path with
  | .error e => .error e
  | .ok (place, last) => t.arrive place last

def readText (t : FileTree) (base : List String) (path : String) : Except FileError String :=
  match t.target base path with
  | .error e => .error e
  | .ok (.free _) => .error .notFound
  | .ok (.existing _ .directory) => .error .isDirectory
  | .ok (.existing _ (.file content)) =>
    match String.fromUTF8? content with
    | some text => .ok text
    | none => .error .notText

/-- The place at which a file can be created. A name with a slash after it is that of a directory,
whatever stands there. -/
def creatable (t : FileTree) (base : List String) (path : String) :
    Except FileError (List String) :=
  match t.approach base path with
  | .error e => .error e
  | .ok (_, .name _ true) => .error .isDirectory
  | .ok (place, last) =>
    match t.arrive place last with
    | .error e => .error e
    | .ok (.free place) => .ok place
    | .ok (.existing _ .directory) => .error .isDirectory
    | .ok (.existing place (.file _)) => .ok place

def writeText (t : FileTree) (base : List String) (path text : String) :
    Except FileError FileTree :=
  (t.creatable base path).map fun place => t.insert place (.file text.toUTF8)

def remove (t : FileTree) (base : List String) (path : String) : FileTree :=
  match t.target base path with
  | .ok (.existing place (.file _)) => t.erase place
  | _ => t

end FileTree

/-- A file tree, the directory in which relative paths start, the two output streams, and the words that
`draw` gives. -/
structure World where
  files : FileTree
  base : List String
  stdout : String
  stderr : String
  drawn : Registers

namespace World

def ofTree (files : FileTree) (base : List String) : World := ⟨files, base, "", "", Vector.replicate 16 0⟩

def write (path text : String) : StateM World (Except FileError Unit) := fun w =>
  match w.files.writeText w.base path text with
  | .error e => (.error e, w)
  | .ok files => (.ok (), { w with files := files })

end World

instance : Host (StateM World) where
  readText path := fun w => (w.files.readText w.base path, w)
  create path := World.write path ""
  writeText path text := World.write path text
  remove path := fun w => ((), { w with files := w.files.remove w.base path })
  print text := fun w => ((), { w with stdout := w.stdout ++ text })
  complain text := fun w => ((), { w with stderr := w.stderr ++ text })
  draw := fun w => (w.drawn, w)

end SolMachine
