import TiffDirectory.ReadM
import TiffDirectory.Word

/-!
# Reader — positioned reads

A reader gives the bytes at an offset, and the size of its data.  What it gives may depend on all
the calls made before: short views, views longer than asked and failures at any time are all
replies that users of a reader have to expect.
-/

namespace TiffDirectory

/-- A source of state `σ` that is read by offset and size. -/
structure Reader (σ : Type) where
  /-- The bytes from an offset on, about as many as asked for. -/
  read : (offset : UInt64) → (size : Nat) → ReadM σ Bytes
  /-- The bytes from an offset on, exactly as many as asked for. -/
  readFull : (offset : UInt64) → (size : Nat) → ReadM σ Bytes
  /-- The number of bytes of the data. -/
  size : ReadM σ UInt64

/-- A read call: the offset and the size asked for. -/
structure ReadCall where
  offset : UInt64
  size : Nat
  deriving DecidableEq, Repr

namespace Reader

variable {σ : Type}

/-- The same reader with a record of its calls of `read`. -/
def recorded (R : Reader σ) : Reader (Recorded ReadCall σ) where
  read offset size := (R.read offset size).record ⟨offset, size⟩
  readFull offset size := (R.readFull offset size).unrecorded
  size := R.size.unrecorded

end Reader

end TiffDirectory
