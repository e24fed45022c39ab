import TiffDirectory.Word

/-!
# Format — the two layouts of a directory entry

An entry is four fields in a row: tag, type, count and value.  The classic format has 32-bit counts
and four value bytes, the big format 64-bit counts and eight value bytes.
-/

namespace TiffDirectory

/-- The formats of a directory. -/
inductive Format where
  | classic | big
  deriving DecidableEq, Repr

/-- A field to be read: a stored integer, or a number of bytes that are kept as they are. -/
inductive EntryField where
  | word (w : Width)
  | bytes (n : Nat)
  deriving DecidableEq, Repr

/-- The number of bytes of a field. -/
def EntryField.size : EntryField → Nat
  | .word w => w.bytes
  | .bytes n => n

/-- The number of bytes of fields in a row. -/
def EntryField.totalSize (fields : List EntryField) : Nat :=
  fields.foldr (fun field rest => field.size + rest) 0

namespace Format

/-- The number that stands for a format. -/
def code : Format → UInt16
  | .classic => 0
  | .big => 1

/-- The width of the count of an entry. -/
@[reducible] def countWidth : Format → Width
  | .classic => .u32
  | .big => .u64

/-- The number of value bytes of an entry. -/
@[reducible] def valueSize : Format → Nat
  | .classic => 4
  | .big => 8

/-- The number of bytes of an entry. -/
def entrySize : Format → Nat
  | .classic => 12
  | .big => 20

/-- The fields of an entry, in the order in which they are stored. -/
def fields (f : Format) : List EntryField :=
  [.word .u16, .word .u16, .word f.countWidth, .bytes f.valueSize]

/-- **The fields of an entry lie without gaps**: their sizes add up to the size of the entry. -/
theorem totalSize_fields (f : Format) : EntryField.totalSize f.fields = f.entrySize := by
  cases f <;> rfl

theorem entrySize_eq (f : Format) : f.entrySize = 4 + f.countWidth.bytes + f.valueSize := by
  cases f <;> rfl

theorem entrySize_pos (f : Format) : 0 < f.entrySize := by cases f <;> decide

end Format

end TiffDirectory
