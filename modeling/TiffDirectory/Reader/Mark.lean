import TiffDirectory.ByteOrder
import TiffDirectory.Reader

/-!
# Reader/Mark — the byte order of a file, told by its first two bytes

`readMark` reads the byte order mark with one read of its own and says of every other outcome that
it is about the mark.
-/

namespace TiffDirectory

variable {σ : Type}

/-- The byte order that the first two bytes of the data name. -/
def Reader.readMark (R : Reader σ) : ReadM σ ByteOrder := do
  let view ← (R.read 0 2).mapError .markUnreadable
  match view.first? 2 with
  | none => throw .markTruncated
  | some bytes =>
    match ByteOrder.ofMark? bytes with
    | some order => return order
    | none => throw .markUnknown

end TiffDirectory
