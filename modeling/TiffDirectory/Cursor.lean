import TiffDirectory.EntryReader
import TiffDirectory.Reader

/-!
# Cursor — walking through a reader field by field

A cursor is a byte order and a position; several cursors may walk through one reader.  A field is
**consumed whole or not at all** (`takeExact`): its bytes come from one read at the position, and
the position moves only when all of them are there.
-/

namespace TiffDirectory

/-- A byte order and a position in the data of a reader. -/
structure Cursor where
  order : ByteOrder := .native
  position : UInt64 := 0
  deriving DecidableEq, Repr

namespace Cursor

variable {σ α : Type}

/-- The cursor `n` bytes further on. -/
def advance (n : Nat) (cursor : Cursor) : Cursor :=
  { cursor with position := cursor.position + .ofNat n }

@[simp] theorem order_advance (n : Nat) (cursor : Cursor) :
    (cursor.advance n).order = cursor.order := rfl

/-- A step on the reader alone, which moves no cursor. -/
def ask (step : ReadM σ α) : ReadM (Cursor × σ) α := fun (cursor, s) =>
  let (result, s) := step s
  (result, (cursor, s))

@[simp] theorem ask_apply (step : ReadM σ α) (cursor : Cursor) (s : σ) :
    ask step (cursor, s) = ((step s).1, (cursor, (step s).2)) := rfl

/-! ## Fields -/

/-- The next `n` bytes, by one read of the reader. -/
def takeExact (R : Reader σ) (n : Nat) : ReadM (Cursor × σ) (Vector UInt8 n) := do
  let (cursor, _) ← get
  let view ← ask (R.read cursor.position n)
  match view.first? n with
  | some bytes =>
    modify fun (cursor, s) => (cursor.advance n, s)
    return bytes
  | none => throw (.truncatedField cursor.position.toNat n view.size)

/-- The next integer, stored in the byte order of the cursor. -/
def readWord (R : Reader σ) (w : Width) : ReadM (Cursor × σ) (Word w) := do
  let (cursor, _) ← get
  let bytes ← takeExact R w.bytes
  return .ofBytes cursor.order bytes

/-- The next `n` bytes as they are.  **No bytes need no reader.** -/
def readBytes (R : Reader σ) : (n : Nat) → ReadM (Cursor × σ) (Vector UInt8 n)
  | 0 => return #v[]
  | n + 1 => takeExact R (n + 1)

/-- A cursor is an entry reader. -/
def entryReader (R : Reader σ) : EntryReader (Cursor × σ) where
  readWord := readWord R
  readBytes := readBytes R

/-! ## Positions -/

/-- Moves to a position that is not past the end of the data. -/
def seek (R : Reader σ) (target : UInt64) : ReadM (Cursor × σ) Unit := do
  let size ← ask (R.size.mapError .sizeUnknownForSeek)
  if size < target then throw (.seekBeyondEnd target.toNat size.toNat)
  else modify fun (cursor, s) => ({ cursor with position := target }, s)

/-- The number of bytes from the position to the end of the data. -/
def remaining (R : Reader σ) : ReadM (Cursor × σ) UInt64 := do
  let (cursor, _) ← get
  let size ← ask (R.size.mapError .sizeUnknown)
  return if cursor.position < size then size - cursor.position else 0

/-! ## The replies that a field can meet

An error, a view that is too short, and a view of at least the bytes asked for. -/

section TakeExact

variable {R : Reader σ} {n : Nat} {cursor : Cursor} {s t : σ}

theorem takeExact_of_error {e : Error} (h : R.read cursor.position n s = (.error e, t)) :
    takeExact R n (cursor, s) = (.error e, (cursor, t)) := by
  simp [takeExact, ReadM.bind_apply, ReadM.get_apply, h]

theorem takeExact_of_short {view : Bytes} (h : R.read cursor.position n s = (.ok view, t))
    (hn : view.size < n) :
    takeExact R n (cursor, s) =
      (.error (.truncatedField cursor.position.toNat n view.size), (cursor, t)) := by
  simp [takeExact, ReadM.bind_apply, ReadM.get_apply, h, Bytes.first?_eq_none_iff.2 hn,
    ReadM.throw_apply]

theorem takeExact_of_ok {view : Bytes} {bytes : Vector UInt8 n}
    (h : R.read cursor.position n s = (.ok view, t)) (hn : view.first? n = some bytes) :
    takeExact R n (cursor, s) = (.ok bytes, (cursor.advance n, t)) := by
  simp [takeExact, ReadM.bind_apply, ReadM.get_apply, h, hn, ReadM.map_apply,
    ReadM.modify_apply, Except.map]

end TakeExact

@[simp] theorem readBytes_zero (R : Reader σ) : readBytes R 0 = pure #v[] := rfl

theorem readBytes_of_pos (R : Reader σ) {n : Nat} (h : 0 < n) : readBytes R n = takeExact R n := by
  obtain ⟨m, rfl⟩ := Nat.exists_eq_succ_of_ne_zero (Nat.ne_of_gt h)
  rfl

end Cursor

end TiffDirectory
