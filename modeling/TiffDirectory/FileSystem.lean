import TiffDirectory.FileSystem.Path
import TiffDirectory.Word

/-!
# FileSystem — directories, pipes and files whose bytes outlive their names

A tree of names, in which each name is a directory, a **link to the contents** of a file, or
something that has no bytes of its own.  Contents are kept apart from names and never go away, so
that a file that was opened stays readable when its name is removed or given to another file, and
shows what is written into it in place.
-/

namespace TiffDirectory

/-- A place in the tree: the names that lead there, the innermost first. -/
abbrev Place := List String

/-- The places from a place up to the root. -/
def Place.upward : Place → List Place
  | [] => [[]]
  | name :: parent => (name :: parent) :: upward parent

/-- What a place holds. -/
inductive Node where
  | directory
  /-- a file, by the number of its contents -/
  | file (contents : Nat)
  | pipe
  /-- something that is there but that nobody may open -/
  | sealed
  deriving DecidableEq, Repr

/-- A tree of places, the contents of its files by number, and the place where relative paths
start. -/
structure FileSystem where
  nodes : List (Place × Node)
  contents : Array Bytes
  workingDirectory : Place

namespace FileSystem

/-- The file system that has nothing but the directories from the root to the working directory,
which is `/tmp/work` unless another one is named. -/
def empty (workingDirectory : Place := ["work", "tmp"]) : FileSystem where
  nodes := (Place.upward workingDirectory).map (·, .directory)
  contents := #[]
  workingDirectory

/-! ## Following paths -/

/-- What is at a place. -/
def node? (fs : FileSystem) (place : Place) : Option Node := fs.nodes.lookup place

/-- The place that a path starts from. -/
def start (fs : FileSystem) (path : Path) : Place :=
  if path.absolute then [] else fs.workingDirectory

/-- The place that a name leads to from another place: from a directory only, and only to what
exists.  The root is its own parent. -/
def step? (fs : FileSystem) (place : Place) (name : String) : Option Place :=
  match fs.node? place with
  | some .directory =>
    if name = "." then some place
    else if name = ".." then some place.tail
    else if (fs.node? (name :: place)).isSome then some (name :: place)
    else none
  | _ => none

/-- The place that a list of names leads to, one step for each. -/
def follow? (fs : FileSystem) : Place → List String → Option Place
  | place, [] => some place
  | place, name :: rest =>
    match fs.step? place name with
    | some next => fs.follow? next rest
    | none => none

/-- The existing place that a path text leads to. -/
def resolve? (fs : FileSystem) (text : String) : Option Place :=
  match Path.parse? text with
  | some path => fs.follow? (fs.start path) path.names
  | none => none

/-- What a path text leads to. -/
def find? (fs : FileSystem) (text : String) : Option Node :=
  (fs.resolve? text).bind fs.node?

/-- The place that a path text leaves free for a new name: nothing is there, but its parent is a
directory. -/
def vacancy? (fs : FileSystem) (text : String) : Option Place :=
  match Path.parse? text with
  | none => none
  | some path =>
    match fs.follow? (fs.start path) path.names.dropLast, path.names.getLast? with
    | some parent, some name =>
      if fs.node? parent = some .directory ∧ name ≠ "." ∧ name ≠ ".." ∧
          fs.node? (name :: parent) = none
      then some (name :: parent)
      else none
    | _, _ => none

/-! ## Contents -/

/-- The bytes of the contents of a given number. -/
def bytes (fs : FileSystem) (contents : Nat) : Bytes := fs.contents.getD contents #[]

/-! ## Changes

A change that the system refuses leaves everything as it is. -/

/-- Puts a node at a place that had none. -/
def link (fs : FileSystem) (place : Place) (node : Node) : FileSystem :=
  { fs with nodes := (place, node) :: fs.nodes }

/-- Takes a place out of the tree. -/
def unlink (fs : FileSystem) (place : Place) : FileSystem :=
  { fs with nodes := fs.nodes.filter (·.1 != place) }

/-- Writes a whole file: in place if the path leads to a file, into a new file if the path leaves
its last name free. -/
def writeFile (fs : FileSystem) (text : String) (bytes : Bytes) : FileSystem :=
  match fs.find? text with
  | some (.file contents) => { fs with contents := fs.contents.setIfInBounds contents bytes }
  | some _ => fs
  | none =>
    match fs.vacancy? text with
    | some place =>
      { fs.link place (.file fs.contents.size) with contents := fs.contents.push bytes }
    | none => fs

/-- Removes the name of a file or a pipe; the contents stay. -/
def removeFile (fs : FileSystem) (text : String) : FileSystem :=
  match fs.resolve? text with
  | some place => if fs.node? place = some .directory then fs else fs.unlink place
  | none => fs

/-- Creates a pipe where the path leaves its last name free. -/
def makePipe (fs : FileSystem) (text : String) : FileSystem :=
  match fs.vacancy? text with
  | some place => fs.link place .pipe
  | none => fs

/-- Goes one name further, into a new directory if there is nothing of that name. -/
def enter (fs : FileSystem) (place : Place) (name : String) : FileSystem × Place :=
  match fs.step? place name with
  | some next => (fs, next)
  | none =>
    if fs.node? place = some .directory then (fs.link (name :: place) .directory, name :: place)
    else (fs, place)

/-- Creates the directories that a path runs through, as far as they are missing. -/
def makeDirectories (fs : FileSystem) (text : String) : FileSystem :=
  match Path.parse? text with
  | some path =>
    (path.names.foldl (fun (fs, place) name => fs.enter place name) (fs, fs.start path)).1
  | none => fs

/-! ## What the changes keep -/

@[simp] theorem bytes_link (fs : FileSystem) (place : Place) (node : Node) :
    (fs.link place node).bytes = fs.bytes := rfl

@[simp] theorem bytes_unlink (fs : FileSystem) (place : Place) :
    (fs.unlink place).bytes = fs.bytes := rfl

/-- **Removing a name leaves all contents readable.** -/
@[simp] theorem bytes_removeFile (fs : FileSystem) (text : String) :
    (fs.removeFile text).bytes = fs.bytes := by
  unfold removeFile
  split
  · split <;> rfl
  · rfl

theorem bytes_setIfInBounds (fs : FileSystem) (n contents : Nat) (new : Bytes) :
    ({ fs with contents := fs.contents.setIfInBounds n new } : FileSystem).bytes contents =
      if n = contents ∧ contents < fs.contents.size then new else fs.bytes contents := by
  simp only [bytes, Array.getD_eq_getD_getElem?, Array.getElem?_setIfInBounds]
  by_cases h : n = contents
  · subst h
    by_cases hn : n < fs.contents.size <;> simp [hn]
  · simp [h]

end FileSystem

end TiffDirectory
