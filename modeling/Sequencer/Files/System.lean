import Sequencer.Files.Tree

/-!
# File systems

What a command does with files, in any monad: a tree held in memory, or the files of a machine.
Failures are given in words, since what can go wrong on a machine is not known in advance.

## Main definitions

* `FileSystem` — the operations
* `FileSystem.tree` — those of a tree in memory
-/

namespace Sequencer

/-- The file operations of a command. -/
structure FileSystem (m : Type → Type) where
  /-- The text of a file. -/
  read : String → m (Except String String)
  /-- Create a directory with all directories it lies in. -/
  makeDirectories : String → m (Except String Unit)
  /-- Write a text to a file, creating or replacing it. -/
  write : String → String → m (Except String Unit)

/-- Change a tree, unless the change fails. -/
def FileTree.change (f : FileTree → Except FileError FileTree) :
    StateM FileTree (Except String Unit) :=
  fun t =>
    match f t with
    | .ok t => (.ok (), t)
    | .error e => (.error e.message, t)

/-- The file operations of a tree in memory. -/
def FileSystem.tree : FileSystem (StateM FileTree) where
  read := fun path t => ((t.read path).mapError FileError.message, t)
  makeDirectories := fun path => FileTree.change fun t => t.makeDirectories path
  write := fun path text => FileTree.change fun t => t.write path text

end Sequencer
