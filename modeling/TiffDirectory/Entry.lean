import TiffDirectory.Format
import TiffDirectory.Word.Swap

/-!
# Entry — one record of a directory, and its stored form

An entry keeps its value bytes as they are stored: they are the value itself or the offset of the
value, which only the type and the count tell.  `encode` is the record that stores an entry.
-/

namespace TiffDirectory

/-- An entry of a directory of the given format. -/
structure Entry (f : Format) where
  tag : Word .u16
  type : Word .u16
  count : Word f.countWidth
  value : Vector UInt8 f.valueSize
  deriving DecidableEq, Repr

namespace Entry

variable {f : Format}

/-- The record that stores an entry: its integers in the given byte order, then its value bytes. -/
def encode (order : ByteOrder) (entry : Entry f) : Bytes :=
  (entry.tag.toBytes order).toArray ++ (entry.type.toBytes order).toArray ++
    (entry.count.toBytes order).toArray ++ entry.value.toArray

/-- **Every entry of a format is stored in as many bytes.** -/
theorem size_encode (order : ByteOrder) (entry : Entry f) :
    (entry.encode order).size = f.entrySize := by
  cases f <;> simp [encode, Format.entrySize] <;> rfl

end Entry

/-- The entries stored one after the other. -/
def encodeEntries {f : Format} (order : ByteOrder) (entries : List (Entry f)) : Bytes :=
  entries.foldl (fun bytes entry => bytes ++ entry.encode order) #[]

end TiffDirectory
