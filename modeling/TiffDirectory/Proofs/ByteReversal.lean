import Mathlib
import TiffDirectory.Word.Swap
import TiffDirectory.Word.Lemmas

/-!
# Proofs/ByteReversal — a swap is a reversal of bytes, and a stored word its digits to base 256

Two facts about words, from which every integer of a directory gets its meaning.

* `store_swap` — the masks and shifts of `Word.swap` **reverse the bytes in memory**, at every
  width.  It is read off the bits (`getLsbD_swap`): a bit keeps its place within its byte, and the
  byte goes to the other end.
* `toNat_ofBytes` / `value_toBytes` — a word read in a byte order *is* the positional value of its
  bytes in that order, and the bytes that store it have it as their value.
-/

namespace TiffDirectory

/-! ## Bytes are digits

As many bytes as there are digits leave no choice: the value of a byte string of known length
determines it. -/

theorem littleValue_injective : ∀ {xs ys : List UInt8}, xs.length = ys.length →
    littleValue xs = littleValue ys → xs = ys
  | [], [], _, _ => rfl
  | x :: xs, y :: ys, hlen, h => by
    have hx := x.toNat_lt
    have hy := y.toNat_lt
    simp only [littleValue] at h
    have hhead : x = y := UInt8.toNat_inj.1 (by omega)
    have htail : xs = ys := littleValue_injective (Nat.succ_inj.1 hlen) (by omega)
    rw [hhead, htail]

/-- **Byte strings of one length with one value are equal**, in either order. -/
theorem ByteOrder.value_injective (order : ByteOrder) {xs ys : List UInt8}
    (hlen : xs.length = ys.length) (h : order.value xs = order.value ys) : xs = ys := by
  cases order with
  | little => exact littleValue_injective hlen h
  | big => exact List.reverse_injective (littleValue_injective (by simpa using hlen) h)

/-- The lowest `n` digits of a number have its value, as far as it lies below `256 ^ n`. -/
theorem littleValue_ofFn_shiftRight (n x : ℕ) :
    littleValue (List.ofFn fun i : Fin n => UInt8.ofNat (x >>> (8 * i.val))) = x % 256 ^ n := by
  induction n generalizing x with
  | zero => simp [littleValue, Nat.mod_one]
  | succ n ih =>
    have hrest : (fun i : Fin n => UInt8.ofNat (x >>> (8 * i.succ.val)))
        = fun i : Fin n => UInt8.ofNat ((x / 256) >>> (8 * i.val)) := by
      funext i
      rw [Fin.val_succ, Nat.mul_succ, Nat.add_comm, Nat.shiftRight_add,
        Nat.shiftRight_eq_div_pow x 8]
    rw [List.ofFn_succ, hrest, littleValue, ih, pow_succ', Nat.mod_mul]
    simp

namespace Word

variable {w : Width}

theorem littleValue_store (v : Word w) : littleValue (store v).toList = v.toNat := by
  have hv := v.isLt
  rw [two_pow_bits] at hv
  rw [store, Vector.toList_ofFn, littleValue_ofFn_shiftRight, Nat.mod_eq_of_lt hv]

theorem load_store (v : Word w) : load (store v) = v := by
  refine BitVec.eq_of_toNat_eq ?_
  rw [toNat_load]
  exact littleValue_store v

theorem store_load (bytes : Vector UInt8 w.bytes) : store (load bytes) = bytes := by
  refine Vector.toList_inj.1 (littleValue_injective (by simp) ?_)
  rw [littleValue_store, toNat_load]
  rfl

/-! ## The swap, bit by bit

A bit has a place in its byte and a byte that it lies in.  One formula for each width says where a
bit of the swapped word comes from; the masks are literals, so the bits are gone through one by
one. -/

private theorem getLsbD_swap_u16 (v : BitVec 16) {i : ℕ} (hi : i < 16) :
    ((v >>> 8) ||| (v <<< 8)).getLsbD i = v.getLsbD (8 * (1 - i / 8) + i % 8) := by
  interval_cases i <;> simp

private theorem getLsbD_swap_u32 (v : BitVec 32) {i : ℕ} (hi : i < 32) :
    (((v &&& 0xFF000000) >>> 24) |||
      ((v &&& 0x00FF0000) >>> 8) |||
      ((v &&& 0x0000FF00) <<< 8) |||
      ((v &&& 0x000000FF) <<< 24)).getLsbD i = v.getLsbD (8 * (3 - i / 8) + i % 8) := by
  interval_cases i <;> simp

private theorem getLsbD_swap_u64 (v : BitVec 64) {i : ℕ} (hi : i < 64) :
    (((v &&& 0xFF00000000000000) >>> 56) |||
      ((v &&& 0x00FF000000000000) >>> 40) |||
      ((v &&& 0x0000FF0000000000) >>> 24) |||
      ((v &&& 0x000000FF00000000) >>> 8) |||
      ((v &&& 0x00000000FF000000) <<< 8) |||
      ((v &&& 0x0000000000FF0000) <<< 24) |||
      ((v &&& 0x000000000000FF00) <<< 40) |||
      ((v &&& 0x00000000000000FF) <<< 56)).getLsbD i = v.getLsbD (8 * (7 - i / 8) + i % 8) := by
  interval_cases i <;> simp

/-- **A bit of a swapped word comes from the same place of the opposite byte.** -/
theorem getLsbD_swap (v : Word w) {i : ℕ} (hi : i < w.bits) :
    (swap v).getLsbD i = v.getLsbD (8 * (w.bytes - 1 - i / 8) + i % 8) := by
  cases w with
  | u8 =>
    have hbyte : i / 8 = 0 := Nat.div_eq_of_lt hi
    have hplace : i % 8 = i := Nat.mod_eq_of_lt hi
    rw [hbyte, hplace]
    exact congrArg v.getLsbD (Nat.zero_add i).symm
  | u16 => exact getLsbD_swap_u16 v hi
  | u32 => exact getLsbD_swap_u32 v hi
  | u64 => exact getLsbD_swap_u64 v hi

theorem getElem_store_swap (v : Word w) {i : ℕ} (h : i < w.bytes) :
    (store (swap v))[i] = (store v)[w.bytes - 1 - i] := by
  rw [getElem_store, getElem_store, ← UInt8.toBitVec_inj]
  refine BitVec.eq_of_getLsbD_eq fun k hk => ?_
  have hbit : 8 * i + k < w.bits := by
    rw [Width.bits]
    omega
  have hbyte : (8 * i + k) / 8 = i := by omega
  have hplace : (8 * i + k) % 8 = k := by omega
  simp only [UInt8.toBitVec_ofNat', BitVec.getLsbD_ofNat, Nat.testBit_shiftRight,
    BitVec.testBit_toNat, getLsbD_swap v hbit, hbyte, hplace]

/-- **Swapping reverses the bytes of a word in memory.** -/
theorem store_swap (v : Word w) : store (swap v) = (store v).reverse := by
  refine Vector.ext fun i hi => ?_
  rw [getElem_store_swap v hi, Vector.getElem_reverse]

/-- …and loading the reversed bytes gives the swapped word. -/
theorem swap_load (bytes : Vector UInt8 w.bytes) : swap (load bytes) = load bytes.reverse := by
  rw [← load_store (swap (load bytes)), store_swap, store_load]

theorem swap_swap (v : Word w) : swap (swap v) = v := by
  rw [← load_store (swap (swap v)), store_swap, store_swap, Vector.reverse_reverse, load_store]

/-! ## Words in a byte order -/

theorem ofBytes_big (bytes : Vector UInt8 w.bytes) : ofBytes .big bytes = load bytes.reverse := by
  rw [ofBytes, convert_of_ne (by decide), swap_load]

/-- **A word read in a byte order is the positional value of its bytes in that order.** -/
theorem toNat_ofBytes (order : ByteOrder) (bytes : Vector UInt8 w.bytes) :
    (ofBytes order bytes).toNat = order.value bytes.toList := by
  cases order with
  | little => exact toNat_load bytes
  | big =>
    rw [ofBytes_big, toNat_load, Vector.toList_reverse]
    rfl

/-- …and the bytes that store a word in a byte order have the word as their value. -/
theorem value_toBytes (order : ByteOrder) (v : Word w) :
    order.value (toBytes order v).toList = v.toNat := by
  cases order with
  | little => exact littleValue_store v
  | big =>
    rw [toBytes, ByteOrder.value, Vector.toList_reverse, List.reverse_reverse, littleValue_store]

/-- A word is stored as the bytes whose value it is, and as no others. -/
theorem toList_toBytes_eq_iff {order : ByteOrder} {v : Word w} {bytes : List UInt8} :
    (toBytes order v).toList = bytes ↔ bytes.length = w.bytes ∧ v.toNat = order.value bytes := by
  constructor
  · rintro rfl
    exact ⟨Vector.length_toList, (value_toBytes order v).symm⟩
  · rintro ⟨hlen, hvalue⟩
    refine order.value_injective (by rw [Vector.length_toList, hlen]) ?_
    rw [value_toBytes, hvalue]

theorem toBytes_ofBytes (order : ByteOrder) (bytes : Vector UInt8 w.bytes) :
    toBytes order (ofBytes order bytes) = bytes :=
  Vector.toList_inj.1 (toList_toBytes_eq_iff.2 ⟨Vector.length_toList, toNat_ofBytes order bytes⟩)

/-- **A word stored in one order and read in another is converted.** -/
theorem ofBytes_toBytes (source target : ByteOrder) (v : Word w) :
    ofBytes target (toBytes source v) = convert source target v := by
  have hswap : load (store v).reverse = swap v := by rw [← swap_load, load_store]
  cases source <;> cases target
  · exact load_store v
  · rw [ofBytes_big, toBytes, hswap, convert_of_ne (by decide)]
  · rw [convert_of_ne (by decide), ← hswap]
    rfl
  · rw [ofBytes_big, toBytes, Vector.reverse_reverse, load_store, convert_self]

/-- **Conversions compose**: the order in between leaves no trace. -/
theorem convert_convert (a b c : ByteOrder) (v : Word w) :
    convert b c (convert a b v) = convert a c v := by
  rw [← ofBytes_toBytes, ← ofBytes_toBytes a b, toBytes_ofBytes, ofBytes_toBytes]

/-- Bytes store the number that is their value. -/
theorem toBytes_ofNat_value (order : ByteOrder) (bytes : Vector UInt8 w.bytes) :
    toBytes order (BitVec.ofNat w.bits (order.value bytes.toList)) = bytes := by
  have hlt := order.value_lt bytes.toList
  rw [Vector.length_toList, ← two_pow_bits] at hlt
  refine Vector.toList_inj.1 (toList_toBytes_eq_iff.2 ⟨Vector.length_toList, ?_⟩)
  rw [BitVec.toNat_ofNat, Nat.mod_eq_of_lt hlt]

end Word

end TiffDirectory
