import Sequencer.OrderedMap

/-!
# Trees of files

A file tree holds files and directories, and one of the directories is the working directory, where
relative paths start. Reading, writing and creating directories fail the way a file system does: a
missing file, a file where a directory is needed, a directory where a file is needed, a path that is
too long, and so on.

## Main definitions

* `FilePath.join`, `FilePath.parts` — paths
* `FileError`, `FileError.message` — failures
* `FileNode`, `FileTree` — files and directories
* `FileTree.Trail`, `FileTree.locate` — the way along a path
* `FileTree.read`, `FileTree.write`, `FileTree.makeDirectories` — what can be done with a tree
-/

namespace Sequencer

namespace FilePath

/-- A path below another one. An absolute path stands for itself. -/
def join (base path : String) : String :=
  if base = "" ∨ path.toList.head? = some '/' then path
  else if base.toList.getLast? = some '/' then base ++ path
  else base ++ "/" ++ path

/-- The parts of a path between its slashes, given the part read so far in reverse. -/
def partsFrom (part : List Char) : List Char → List String
  | [] => [String.ofList part.reverse]
  | c :: rest =>
    if c = '/' then String.ofList part.reverse :: partsFrom [] rest else partsFrom (c :: part) rest

/-- The parts of a path between its slashes. -/
def parts (path : String) : List String := partsFrom [] path.toList

end FilePath

/-- Why a file operation fails. -/
inductive FileError where
  | notFound
  | alreadyExists
  | notDirectory
  | isDirectory
  | nameTooLong
  | nulInName
deriving DecidableEq

/-- The wording of a failure. -/
def FileError.message : FileError → String
  | .notFound => "No such file or directory (os error 2)"
  | .alreadyExists => "File exists (os error 17)"
  | .notDirectory => "Not a directory (os error 20)"
  | .isDirectory => "Is a directory (os error 21)"
  | .nameTooLong => "File name too long (os error 36)"
  | .nulInName => "file name contained an unexpected NUL byte"

/-- A file with its text, or a directory with its entries by name. -/
inductive FileNode where
  | file (text : String)
  | directory (entries : List (String × FileNode))

/-- The entries of the root, and the names that lead from there to the working directory. -/
structure FileTree where
  entries : List (String × FileNode)
  working : List String

namespace FileTree

/-- Put a node at the end of a list of names. Directories on the way have to be there. -/
def putIn (node : FileNode) : List String → List (String × FileNode) → List (String × FileNode)
  | [], entries => entries
  | [name], entries => insertEntry entries name node
  | name :: rest, entries =>
    match entries.lookup name with
    | some (.directory inner) => insertEntry entries name (.directory (putIn node rest inner))
    | _ => entries

/-- An empty working directory, given by the names that lead to it, and the directories it lies
in. -/
def start (working : List String) : FileTree :=
  ⟨working.foldr (fun name inner => [(name, .directory inner)]) [], working⟩

/-! ## Paths -/

/-- The way from the root to a place, the last step first. Every step has a name and leads to a
node, except that the last step may lead to nothing. -/
abbrev Trail := List (String × Option FileNode)

/-- What a trail leads to. -/
def node? (t : FileTree) : Trail → Option FileNode
  | [] => some (.directory t.entries)
  | (_, node) :: _ => node

/-- One step along a path, from a directory. -/
def descend (t : FileTree) (trail : Trail) (part : String) : Except FileError Trail :=
  match t.node? trail with
  | none => .error .notFound
  | some (.file _) => .error .notDirectory
  | some (.directory entries) =>
    if part = "" ∨ part = "." then .ok trail
    else if part = ".." then .ok trail.tail
    else if 255 < part.utf8ByteSize then .error .nameTooLong
    else .ok ((part, entries.lookup part) :: trail)

/-- The trail of a list of parts, from the root. Its last part need not be there. -/
def locate (t : FileTree) (parts : List String) : Except FileError Trail :=
  parts.foldlM t.descend []

/-- Put a node where a trail ends. -/
def put (t : FileTree) (trail : Trail) (node : FileNode) : FileTree :=
  { t with entries := putIn node (trail.map Prod.fst).reverse t.entries }

/-- The length in bytes from which on a path is refused. -/
def pathLimit : Nat := 4096

/-- The parts of a path from the root. A path has to be acceptable to begin with: it contains no
zero character, and it is not too long. -/
def resolve (t : FileTree) (path : String) : Except FileError (List String) :=
  if path.toList.any (·.toNat = 0) then .error .nulInName
  else if pathLimit ≤ path.utf8ByteSize then .error .nameTooLong
  else if path.toList.head? = some '/' then .ok (FilePath.parts path)
  else .ok (t.working ++ FilePath.parts path)

/-! ## Files and directories -/

/-- The text of a file. -/
def read (t : FileTree) (path : String) : Except FileError String := do
  let trail ← t.locate (← t.resolve path)
  match t.node? trail with
  | some (.file text) => .ok text
  | some (.directory _) => .error .isDirectory
  | none => .error .notFound

/-- Write a text to a file, creating or replacing it. -/
def write (t : FileTree) (path text : String) : Except FileError FileTree := do
  let trail ← t.locate (← t.resolve path)
  match t.node? trail with
  | some (.directory _) => .error .isDirectory
  | _ => .ok (t.put trail (.file text))

/-- Create a directory in a directory that is there. -/
def makeDirectory (t : FileTree) (parts : List String) : Except FileError FileTree := do
  let trail ← t.locate parts
  match t.node? trail with
  | none => .ok (t.put trail (.directory []))
  | some _ => .error .alreadyExists

/-- Whether a list of parts leads to a directory. -/
def isDirectory (t : FileTree) (parts : List String) : Bool :=
  match t.locate parts with
  | .error _ => false
  | .ok trail =>
    match t.node? trail with
    | some (.directory _) => true
    | _ => false

/-- A list of parts without the dots at its end, which name nothing of their own. -/
def dropDots (parts : List String) : List String := (parts.reverse.dropWhile (· == ".")).reverse

/-- The directory that a path lies in: the last part that names something is dropped. -/
def parent (parts : List String) : List String := dropDots (dropDots parts).dropLast

/-- Create a directory and, where they are missing, the directories it lies in. A directory that is
there already is left as it is. -/
def makeAll : Nat → FileTree → List String → Except FileError FileTree
  | _, t, [] => .ok t
  | fuel, t, parts =>
    match t.makeDirectory parts with
    | .ok t => .ok t
    | .error .notFound =>
      match fuel with
      | 0 => .error .notFound
      | fuel + 1 => do
        let t ← makeAll fuel t (parent parts)
        match t.makeDirectory parts with
        | .ok t => .ok t
        | .error e => if t.isDirectory parts then .ok t else .error e
    | .error e => if t.isDirectory parts then .ok t else .error e

/-- Create a directory with all directories it lies in. -/
def makeDirectories (t : FileTree) (path : String) : Except FileError FileTree := do
  let parts := (← t.resolve path).filter (· != "")
  makeAll parts.length t parts

mutual

/-- The files at or below a node, by the names that lead there from the root of the search. The
names that lead to the node itself are given in reverse. -/
def filesAt (way : List String) : FileNode → List (List String × String)
  | .file text => [(way.reverse, text)]
  | .directory entries => filesIn way entries

/-- The files at or below the entries of a directory. -/
def filesIn (way : List String) : List (String × FileNode) → List (List String × String)
  | [] => []
  | (name, node) :: rest => filesAt (name :: way) node ++ filesIn way rest

end

/-- The files below the working directory with their texts, by the names that lead to them. -/
def files (t : FileTree) : List (List String × String) :=
  match t.locate t.working with
  | .error _ => []
  | .ok trail =>
    match t.node? trail with
    | some node => filesAt [] node
    | none => []

end FileTree

end Sequencer
