import TiffDirectory.FileSystem.FileStream
import TiffDirectory.Reader

/-!
# Reader/File — readers of open files

A file reader opens a file, **fixes the size of the file at that moment** and answers positioned
reads by seeking and reading in the one stream that it holds.  It stays usable after every failure:
each read first clears what earlier ones left in the stream.

Readers can be moved: the stream, the size and the path go to another reader, and the first one is
closed.
-/

namespace TiffDirectory

/-- A reader of a file: its stream while it is open, the size that the file had when it was opened,
and the last path asked for. -/
structure FileReader where
  stream : Option FileStream := none
  size : UInt64 := 0
  path : String := ""
  deriving DecidableEq, Repr

namespace FileReader

/-! ## Opening and closing -/

/-- Whether the reader holds a file. -/
def isOpen (reader : FileReader) : Bool := reader.stream.isSome

/-- Lets go of the file; the path stays. -/
def close (reader : FileReader) : FileReader :=
  if reader.isOpen then { reader with stream := none, size := 0 } else reader

/-- Opens the file that a path leads to, in the place of any file opened before.  After a failure
the reader is closed. -/
def openPath (fs : FileSystem) (path : String) : ReadM FileReader Unit := do
  modify fun reader => { reader.close with path }
  if fs.find? path = some .directory then throw (.notRegularFile path)
  else match FileStream.openPath? fs path with
    | none => throw (.cannotOpen path)
    | some stream =>
      let stream := stream.seekEnd fs
      match stream.tell? with
      | none => throw (.fileSizeUnknown path)
      | some length =>
        modify fun reader => { reader with stream := stream.seek 0, size := length }

/-- A reader on which a path was opened, with or without success. -/
def ofPath (fs : FileSystem) (path : String) : FileReader := (openPath fs path {}).2

/-! ## Moving -/

/-- What is left of a reader after its file was moved to another one. -/
def movedFrom : FileReader := { stream := none, size := 0, path := "" }

/-! ## Reading -/

/-- The stream at an offset within the size of the file, with its past forgotten. -/
def streamAt (offset : UInt64) : ReadM FileReader FileStream := do
  let reader ← get
  match reader.stream with
  | none => throw .fileNotOpen
  | some stream =>
    if reader.size ≤ offset then
      throw (.offsetBeyondEnd .file offset.toNat reader.size.toNat)
    else return stream.clear.seek offset.toNat

/-- Reads on from where the stream stands, which a failed seek does not allow; the reader keeps the
stream that is left. -/
def readOn (fs : FileSystem) (offset : UInt64) (size : Nat) (stream : FileStream) :
    ReadM FileReader (Bytes × FileStream) := do
  if stream.failed then
    modify fun reader => { reader with stream }
    throw (.cannotSeek offset.toNat)
  else
    let (bytes, left) := stream.read fs size
    modify fun reader => { reader with stream := left }
    return (bytes, left)

/-- The bytes at an offset, as far as they lie within the size that the file had when it was opened
and exist in the file now.  A file that ends early is no failure. -/
def read (fs : FileSystem) (offset : UInt64) (size : Nat) : ReadM FileReader Bytes := do
  let stream ← streamAt offset
  let reader ← get
  let (bytes, left) ← readOn fs offset (min size (reader.size - offset).toNat) stream
  if left.failed && !left.atEnd then throw (.cannotRead reader.path) else return bytes

/-- The bytes at an offset, all of them; they have to lie within the size that the file had when it
was opened, and to exist in the file now. -/
def readFull (fs : FileSystem) (offset : UInt64) (size : Nat) : ReadM FileReader Bytes := do
  let stream ← streamAt offset
  let reader ← get
  if (reader.size - offset).toNat < size then throw (.incompleteRead offset.toNat)
  else
    let (bytes, left) ← readOn fs offset size stream
    if left.failed then throw (.cannotRead reader.path) else return bytes

/-- Positioned reads of the file; the size is the one of the moment of opening. -/
def reader (fs : FileSystem) : Reader FileReader where
  read := read fs
  readFull := readFull fs
  size := do
    let reader ← get
    if reader.isOpen then return reader.size else throw .fileNotOpen

/-! ## Closed readers -/

@[simp] theorem isOpen_close (reader : FileReader) : reader.close.isOpen = false := by
  unfold close
  split
  next => rfl
  next h => exact eq_false_of_ne_true h

@[simp] theorem path_close (reader : FileReader) : reader.close.path = reader.path := by
  unfold close
  split <;> rfl

@[simp] theorem isOpen_movedFrom : movedFrom.isOpen = false := rfl

theorem isOpen_eq_false_iff {reader : FileReader} :
    reader.isOpen = false ↔ reader.stream = none := by
  simp [isOpen]

theorem streamAt_of_closed {reader : FileReader} (h : reader.isOpen = false) (offset : UInt64) :
    streamAt offset reader = (.error .fileNotOpen, reader) := by
  rw [isOpen_eq_false_iff] at h
  simp [streamAt, ReadM.bind_apply, ReadM.get_apply, h, ReadM.throw_apply]

/-- **A closed reader refuses every read**, even one of no bytes, and stays as it is. -/
theorem read_of_closed {reader : FileReader} (h : reader.isOpen = false) (fs : FileSystem)
    (offset : UInt64) (size : Nat) : read fs offset size reader = (.error .fileNotOpen, reader) :=
  ReadM.bind_error (streamAt_of_closed h offset)

theorem readFull_of_closed {reader : FileReader} (h : reader.isOpen = false) (fs : FileSystem)
    (offset : UInt64) (size : Nat) :
    readFull fs offset size reader = (.error .fileNotOpen, reader) :=
  ReadM.bind_error (streamAt_of_closed h offset)

/-! ## Open files

What a reader of an open file answers depends on the size that it took, on the bytes that the file
has now and on nothing that earlier reads left in the stream. -/

section Open

variable {reader : FileReader} {stream : FileStream} {contents : Nat} {offset : UInt64}

theorem streamAt_of_size_le (hs : reader.stream = some stream) (h : reader.size ≤ offset) :
    streamAt offset reader =
      (.error (.offsetBeyondEnd .file offset.toNat reader.size.toNat), reader) := by
  simp [streamAt, ReadM.bind_apply, hs, h]

theorem streamAt_of_lt_size (hs : reader.stream = some stream)
    (hf : stream.source = .file contents) (h : offset < reader.size) :
    streamAt offset reader =
      (.ok { source := .file contents, position := offset.toNat }, reader) := by
  have hle : ¬reader.size ≤ offset := UInt64.not_le.2 h
  simp [streamAt, ReadM.bind_apply, hs, hle, FileStream.seek_clear_of_file hf]

theorem readOn_of_fresh (fs : FileSystem) (reader : FileReader) (offset : UInt64)
    (size contents position : Nat) :
    readOn fs offset size { source := .file contents, position } reader =
      let done := FileStream.read fs size { source := .file contents, position }
      (.ok done, { reader with stream := some done.2 }) := rfl

/-- A fresh stream that falls short has met the end of the file. -/
theorem failed_and_not_atEnd_read (fs : FileSystem) (size contents position : Nat) :
    let left := (FileStream.read fs size { source := .file contents, position }).2
    (left.failed && !left.atEnd) = false := by
  rw [FileStream.read_snd_of_fresh]
  exact Bool.and_not_self _

/-- **A read within the size gives the bytes that are there now**, and it never fails. -/
theorem read_of_lt_size (hs : reader.stream = some stream)
    (hf : stream.source = .file contents) (h : offset < reader.size) (fs : FileSystem)
    (size : Nat) :
    (read fs offset size reader).1 =
      .ok ((fs.bytes contents).extract offset.toNat
        (offset.toNat + min size (reader.size - offset).toNat)) := by
  rw [read, ReadM.bind_ok (streamAt_of_lt_size hs hf h), ReadM.bind_ok (ReadM.get_apply reader),
    ReadM.bind_ok (readOn_of_fresh ..)]
  simp only [failed_and_not_atEnd_read, Bool.false_eq_true, if_false, ReadM.pure_apply,
    FileStream.read_fst_of_fresh]

end Open

end FileReader

end TiffDirectory
