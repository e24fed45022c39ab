import Mathlib.Tactic.Ring
import TiffDirectory.Word

/-!
# Word/Lemmas — the positional value in powers of 256

How the value of a byte string grows: by appending (`littleValue_append`, and
`ByteOrder.value_append` for the halves of an integer), and at most to the power of 256 of its length
(`ByteOrder.value_lt`).  Hence **no load loses anything** (`toNat_load`).
-/

namespace TiffDirectory

theorem littleValue_append (xs ys : List UInt8) :
    littleValue (xs ++ ys) = littleValue xs + 256 ^ xs.length * littleValue ys := by
  induction xs with
  | nil => simp [littleValue]
  | cons b rest ih =>
    simp only [List.cons_append, littleValue, ih, List.length_cons]
    ring

theorem littleValue_lt (bytes : List UInt8) : littleValue bytes < 256 ^ bytes.length := by
  induction bytes with
  | nil => simp [littleValue]
  | cons b rest ih =>
    have hb := b.toNat_lt
    simp only [littleValue, List.length_cons, pow_succ]
    omega

/-- **A byte string is smaller than the power of 256 of its length**, in either order. -/
theorem ByteOrder.value_lt (order : ByteOrder) (bytes : List UInt8) :
    order.value bytes < 256 ^ bytes.length := by
  cases order with
  | little => exact littleValue_lt bytes
  | big => simpa [value] using littleValue_lt bytes.reverse

/-- The number that two numbers of `n` bytes make which are stored one after the other. -/
def ByteOrder.join (n first second : ℕ) : ByteOrder → ℕ
  | .little => first + 256 ^ n * second
  | .big => second + 256 ^ n * first

/-- **The value of a byte string is made of the values of its halves**, in either order. -/
theorem ByteOrder.value_append (order : ByteOrder) {n : ℕ} {xs ys : List UInt8}
    (hx : xs.length = n) (hy : ys.length = n) :
    order.value (xs ++ ys) = order.join n (order.value xs) (order.value ys) := by
  cases order with
  | little =>
    rw [value, littleValue_append, hx]
    rfl
  | big =>
    rw [value, List.reverse_append, littleValue_append, List.length_reverse, hy]
    rfl

namespace Word

variable {w : Width}

theorem two_pow_bits (w : Width) : 2 ^ w.bits = 256 ^ w.bytes := by
  rw [Width.bits, pow_mul]
  norm_num

/-- **Loading loses nothing**: the number of the word is the value of the bytes. -/
theorem toNat_load (bytes : Vector UInt8 w.bytes) :
    (load bytes).toNat = ByteOrder.native.value bytes.toList := by
  have h := ByteOrder.native.value_lt bytes.toList
  rw [Vector.length_toList, ← two_pow_bits] at h
  rw [load, BitVec.toNat_ofNat, Nat.mod_eq_of_lt h]

end Word

end TiffDirectory
