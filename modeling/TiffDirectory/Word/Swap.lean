import TiffDirectory.Word

/-!
# Word/Swap — exchanging the two byte orders

`swap` turns a word stored in one order into the word stored in the other, by masks and shifts, one
formula for each width.  `convert` swaps where two orders differ and `ofBytes` reads a word stored
in a given order through it; `toBytes` says how a word is stored in an order **without any swap**.
-/

namespace TiffDirectory

namespace Word

/-- **The word with its bytes in the opposite order**; a single byte is its own swap. -/
def swap : {w : Width} → Word w → Word w
  | .u8, v => v
  | .u16, v => (v >>> 8) ||| (v <<< 8)
  | .u32, v =>
    ((v &&& 0xFF000000) >>> 24) |||
    ((v &&& 0x00FF0000) >>> 8) |||
    ((v &&& 0x0000FF00) <<< 8) |||
    ((v &&& 0x000000FF) <<< 24)
  | .u64, v =>
    ((v &&& 0xFF00000000000000) >>> 56) |||
    ((v &&& 0x00FF000000000000) >>> 40) |||
    ((v &&& 0x0000FF0000000000) >>> 24) |||
    ((v &&& 0x000000FF00000000) >>> 8) |||
    ((v &&& 0x00000000FF000000) <<< 8) |||
    ((v &&& 0x0000000000FF0000) <<< 24) |||
    ((v &&& 0x000000000000FF00) <<< 40) |||
    ((v &&& 0x00000000000000FF) <<< 56)

variable {w : Width}

/-- A word stored in order `source`, as the word stored in order `target`. -/
def convert (source target : ByteOrder) (v : Word w) : Word w :=
  if source = target then v else swap v

@[simp] theorem convert_self (order : ByteOrder) (v : Word w) : convert order order v = v :=
  if_pos rfl

theorem convert_of_ne {source target : ByteOrder} (h : source ≠ target) (v : Word w) :
    convert source target v = swap v :=
  if_neg h

/-- The word that the given bytes store in a byte order. -/
def ofBytes (order : ByteOrder) (bytes : Vector UInt8 w.bytes) : Word w :=
  convert order .native (load bytes)

/-- The bytes that store a word in a byte order, its lowest byte at the end that the order names. -/
def toBytes : ByteOrder → Word w → Vector UInt8 w.bytes
  | .little, v => store v
  | .big, v => (store v).reverse

theorem toBytes_native (v : Word w) : toBytes .native v = store v := rfl

end Word

end TiffDirectory
