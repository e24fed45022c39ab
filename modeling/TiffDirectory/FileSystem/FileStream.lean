import TiffDirectory.FileSystem

/-!
# FileSystem/FileStream — a file opened for reading

An open stream reads on from its position, and remembers two things about its past: that it met the
end of the file, and that an operation failed.  **A stream that remembers either reads nothing**
until it is cleared.
-/

namespace TiffDirectory

/-- What a stream reads from. -/
inductive StreamSource where
  /-- the contents of a file, by their number -/
  | file (contents : Nat)
  | pipe
  deriving DecidableEq, Repr

/-- An open stream. -/
structure FileStream where
  source : StreamSource
  position : Nat := 0
  /-- a read met the end of the file -/
  atEnd : Bool := false
  /-- an operation could not be done -/
  failed : Bool := false
  deriving DecidableEq, Repr

namespace FileStream

/-- Opens what a path leads to, at its first byte. -/
def openPath? (fs : FileSystem) (path : String) : Option FileStream :=
  match fs.find? path with
  | some (.file contents) => some { source := .file contents }
  | some .pipe => some { source := .pipe }
  | some .directory => none
  | some .sealed => none
  | none => none

/-- The bytes of the file as they are now. -/
def bytes (fs : FileSystem) (stream : FileStream) : Bytes :=
  match stream.source with
  | .file contents => fs.bytes contents
  | .pipe => #[]

/-- Forgets the past. -/
def clear (stream : FileStream) : FileStream := { stream with atEnd := false, failed := false }

/-- Moves to a position, which only a file allows. -/
def seek (stream : FileStream) (position : Nat) : FileStream :=
  if stream.failed then { stream with atEnd := false }
  else match stream.source with
    | .file _ => { stream with position, atEnd := false }
    | .pipe => { stream with atEnd := false, failed := true }

/-- Moves to the end of the file as it is now. -/
def seekEnd (fs : FileSystem) (stream : FileStream) : FileStream :=
  stream.seek (stream.bytes fs).size

/-- The number that no position of a file reaches. -/
def positionLimit : Nat := 1 <<< 63

/-- The position, unless an operation failed or the position is none that a file can have. -/
def tell? (stream : FileStream) : Option UInt64 :=
  if stream.failed || positionLimit ≤ stream.position then none else some (.ofNat stream.position)

/-- The next bytes, up to `size` of them, and the stream after them.  Fewer than asked for are a
failure, at the end of the file. -/
def read (fs : FileSystem) (size : Nat) (stream : FileStream) : Bytes × FileStream :=
  if stream.atEnd || stream.failed then (#[], { stream with failed := true })
  else
    let found := (stream.bytes fs).extract stream.position (stream.position + size)
    let position := stream.position + found.size
    if found.size < size then (found, { stream with position, atEnd := true, failed := true })
    else (found, { stream with position })

/-- **A position that is told is the position**: no number of a file is cut. -/
theorem toNat_of_tell?_eq_some {stream : FileStream} {position : UInt64}
    (h : stream.tell? = some position) : position.toNat = stream.position := by
  unfold tell? positionLimit at h
  split at h
  · cases h
  next hlt =>
    cases h
    simp only [Bool.or_eq_true, decide_eq_true_eq, not_or, Nat.not_le] at hlt
    exact UInt64.toNat_ofNat_of_lt' (Nat.lt_trans hlt.2 (by decide))

/-! ## A cleared stream -/

@[simp] theorem source_clear (stream : FileStream) : stream.clear.source = stream.source := rfl

@[simp] theorem source_seek (stream : FileStream) (position : Nat) :
    (stream.seek position).source = stream.source := by
  unfold seek
  split
  · rfl
  · split <;> rfl

@[simp] theorem source_read (fs : FileSystem) (size : Nat) (stream : FileStream) :
    (stream.read fs size).2.source = stream.source := by
  unfold read
  split
  · rfl
  · dsimp only
    split <;> rfl

/-- **Clearing and seeking make the past of a file's stream irrelevant**: only the file and the new
position are left. -/
theorem seek_clear_of_file {stream : FileStream} {contents : Nat}
    (h : stream.source = .file contents) (position : Nat) :
    stream.clear.seek position = { source := .file contents, position } := by
  cases stream
  cases h
  rfl

/-- What a stream without a past reads: the bytes of the file from its position on. -/
theorem read_fst_of_fresh (fs : FileSystem) (size contents position : Nat) :
    (read fs size { source := .file contents, position }).1 =
      (fs.bytes contents).extract position (position + size) := by
  unfold read
  dsimp only [bytes]
  rw [if_neg (by simp)]
  split <;> rfl

/-- What it then remembers: whether the file ended before it had all. -/
theorem read_snd_of_fresh (fs : FileSystem) (size contents position : Nat) :
    let found := (fs.bytes contents).extract position (position + size)
    (read fs size { source := .file contents, position }).2 =
      { source := .file contents, position := position + found.size,
        atEnd := decide (found.size < size), failed := decide (found.size < size) } := by
  unfold read
  dsimp only [bytes]
  rw [if_neg (by simp)]
  split
  next h => rw [decide_eq_true h]
  next h => rw [decide_eq_false h]

end FileStream

end TiffDirectory
