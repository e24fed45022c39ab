import TiffDirectory.Cursor
import TiffDirectory.Reader.Mark
import TiffDirectory.Session.Value

/-!
# Session/Operation — the operations on a reader, and those on a cursor

Everything that can be asked of a reader directly (`Query`) and of a cursor that walks through it
(`CursorOp`), as data, so that a run of operations is a list.
-/

namespace TiffDirectory

variable {σ : Type}

/-- An operation on a reader. -/
inductive Query where
  | read (offset : UInt64) (size : Nat)
  | readFull (offset : UInt64) (size : Nat)
  | size
  | mark
  deriving DecidableEq, Repr

/-- Puts a query to a reader. -/
def Query.run (R : Reader σ) : Query → ReadM σ Value
  | .read offset count => .bytes <$> R.read offset count
  | .readFull offset count => .bytes <$> R.readFull offset count
  | .size => (.number ·.toNat) <$> R.size
  | .mark => .order <$> R.readMark

/-- An operation on a cursor.  A run of entries is one that can keep them all. -/
inductive CursorOp where
  | readWord (w : Width)
  | readBytes (n : Nat)
  | seek (target : UInt64)
  | remaining
  | byteOrder
  | readEntry (f : Format)
  | readEntries (f : Format) (n : Nat)
  deriving DecidableEq, Repr

/-- Runs an operation on a cursor and the source that it walks through. -/
def CursorOp.run (R : Reader σ) : CursorOp → ReadM (Cursor × σ) Value
  | .readWord w => (.number ·.toNat) <$> Cursor.readWord R w
  | .readBytes n => (.bytes ·.toArray) <$> Cursor.readBytes R n
  | .seek target => (fun _ => .unit) <$> Cursor.seek R target
  | .remaining => (.number ·.toNat) <$> Cursor.remaining R
  | .byteOrder => (.order ·.1.order) <$> get
  | .readEntry f => .entry f <$> (Cursor.entryReader R).readEntry f
  | .readEntries f n => .entries f <$> (Cursor.entryReader R).readEntries f n

end TiffDirectory
