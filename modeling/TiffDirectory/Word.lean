import TiffDirectory.ByteOrder

/-!
# Word — integers of the four stored widths, and the bytes that store them

A stored integer is a word of one, two, four or eight bytes.  Two views of such bytes are kept
apart: `ByteOrder.value` is their **positional value** in either order, a plain number, and
`Word.load` / `Word.store` are how a word lies in memory, always in the native order.
-/

namespace TiffDirectory

/-- A string of bytes. -/
abbrev Bytes := Array UInt8

/-- The first `n` bytes of a byte string, if it is that long. -/
def Bytes.first? (bytes : Bytes) (n : Nat) : Option (Vector UInt8 n) :=
  if h : n ≤ bytes.size then some ⟨bytes.extract 0 n, by simp [Nat.min_eq_left h]⟩ else none

theorem Bytes.first?_eq_none_iff {bytes : Bytes} {n : Nat} :
    bytes.first? n = none ↔ bytes.size < n := by
  simp [first?]

/-- **Bytes after the first `n` never matter.** -/
theorem Bytes.first?_eq_some_iff {bytes : Bytes} {n : Nat} {first : Vector UInt8 n} :
    bytes.first? n = some first ↔ first.toArray = bytes.extract 0 n ∧ n ≤ bytes.size := by
  unfold first?
  split
  next h =>
    rw [Option.some_inj]
    exact ⟨fun heq => ⟨heq ▸ rfl, h⟩, fun ⟨heq, _⟩ => Vector.toArray_inj.1 heq.symm⟩
  next h => simp [h]

/-- The widths of a stored integer. -/
inductive Width where
  | u8 | u16 | u32 | u64
  deriving DecidableEq, Repr

/-- The number of bytes of an integer of this width. -/
@[reducible] def Width.bytes : Width → Nat
  | .u8 => 1
  | .u16 => 2
  | .u32 => 4
  | .u64 => 8

/-- The number of bits of an integer of this width. -/
abbrev Width.bits (w : Width) : Nat := 8 * w.bytes

theorem Width.bytes_pos (w : Width) : 0 < w.bytes := by cases w <;> decide

/-- An integer of a stored width, as a bit pattern. -/
abbrev Word (w : Width) := BitVec w.bits

/-! ## Positional value

The value of a byte string read as digits to base 256, the lowest digit at the end that the order
names. -/

/-- The number whose digits to base 256 are the bytes of the list, the lowest first. -/
def littleValue : List UInt8 → Nat
  | [] => 0
  | b :: rest => b.toNat + 256 * littleValue rest

/-- The positional value of a byte string in a byte order. -/
def ByteOrder.value : ByteOrder → List UInt8 → Nat
  | .little, bytes => littleValue bytes
  | .big, bytes => littleValue bytes.reverse

/-! ## Words in memory -/

namespace Word

variable {w : Width}

/-- The word that lies in memory as the given bytes. -/
def load (bytes : Vector UInt8 w.bytes) : Word w :=
  BitVec.ofNat w.bits (ByteOrder.native.value bytes.toList)

/-- The bytes as which a word lies in memory: byte `i` holds the bits from `8 * i` on. -/
def store (v : Word w) : Vector UInt8 w.bytes :=
  Vector.ofFn fun i => UInt8.ofNat (v.toNat >>> (8 * i.val))

@[simp] theorem getElem_store (v : Word w) (i : Nat) (h : i < w.bytes) :
    (store v)[i] = UInt8.ofNat (v.toNat >>> (8 * i)) := by
  simp [store]

end Word

end TiffDirectory
