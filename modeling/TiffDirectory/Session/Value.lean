import TiffDirectory.Entry
import TiffDirectory.Reader

/-!
# Session/Value — what the operations of a session answer with

One type for the answers of all operations, so that a whole session has a list of answers.
-/

namespace TiffDirectory

/-- The answer of an operation that succeeded. -/
inductive Value where
  | unit
  | flag (holds : Bool)
  | number (n : Nat)
  | text (text : String)
  | bytes (bytes : Bytes)
  | order (order : ByteOrder)
  | entry (f : Format) (entry : Entry f)
  | entries (f : Format) (entries : Array (Entry f))
  | calls (calls : Array ReadCall)
  /-- whether a source can be read, and whether its reads allocate their bytes -/
  | status (valid mustAllocate : Bool)
  deriving DecidableEq, Repr

end TiffDirectory
