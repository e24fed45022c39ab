import Mathlib
import TiffDirectory.Proofs.ByteReversal
import TiffDirectory.Word.IntType

/-!
# Proofs/TwosComplement — swaps and conversions of integers, negative ones included

An integer type acts through bit patterns, and what a pattern is to an integer are its **digits to
base 256**: `twosComplement` takes them from an integer of either sign, and `IntType.assembled` puts
them together again by their places, the top bit counting as the type says.  Neither mentions words.
In these terms a swap turns the digits around, and a conversion is what becomes of an integer that
is stored in one byte order and read in another (`IntType.bytes_of_swap_and_convert`).
-/

namespace TiffDirectory

/-! ## Digits of integers -/

/-- The lowest `n` digits of an integer to base 256, the lowest first.  Those of a negative integer
go on with 255 for ever. -/
def twosComplement : ℕ → ℤ → List UInt8
  | 0, _ => []
  | n + 1, z => .ofInt z :: twosComplement n (z / 256)

theorem length_twosComplement (n : ℕ) (z : ℤ) : (twosComplement n z).length = n := by
  induction n generalizing z with
  | zero => rfl
  | succ n ih => rw [twosComplement, List.length_cons, ih]

/-- **The digits have the value of the integer**, as far as they can tell it. -/
theorem littleValue_twosComplement (n : ℕ) (z : ℤ) :
    (littleValue (twosComplement n z) : ℤ) = z % 256 ^ n := by
  induction n generalizing z with
  | zero => simp [twosComplement, littleValue]
  | succ n ih =>
    have hdigit : ((UInt8.ofInt z).toNat : ℤ) = z % 256 := by
      rw [UInt8.ofInt, UInt8.toNat_ofNat']
      omega
    have hsplit : z % (256 * 256 ^ n) = z % 256 + 256 * (z / 256 % 256 ^ n) := by
      rw [Int.emod_def, Int.emod_def (z / 256), Int.emod_def z 256,
        Int.ediv_ediv_of_nonneg (by norm_num)]
      ring
    rw [twosComplement, littleValue, Nat.cast_add, Nat.cast_mul, ih, hdigit, pow_succ', hsplit]
    rfl

namespace IntType

variable {t : IntType} {z : ℤ}

/-! ## Integers and their patterns -/

theorem two_mul_half (t : IntType) : 2 * t.half = 2 ^ t.width.bits := by
  have hpos : 0 < t.width.bits := Nat.mul_pos (by decide) t.width.bytes_pos
  rw [half, Nat.one_shiftLeft, ← pow_succ', Nat.sub_add_cancel hpos]

/-- The integer of the type whose pattern is this number. -/
def ofNumber (t : IntType) (n : ℕ) : ℤ := if t.signed ∧ t.half ≤ n then n - 2 * t.half else n

theorem toInt_eq_ofNumber (t : IntType) (v : Word t.width) : t.toInt v = t.ofNumber v.toNat := by
  rw [toInt, ofNumber, BitVec.toInt_eq_toNat_cond, ← t.two_mul_half]
  by_cases hsigned : t.signed
  · simp only [hsigned, if_true, true_and]
    split <;> split <;> omega
  · simp only [hsigned, Bool.false_eq_true, if_false, false_and]

theorem toNat_ofInt (t : IntType) (z : ℤ) : ((t.ofInt z).toNat : ℤ) = z % (2 * t.half) := by
  have hpos : (0 : ℤ) < 2 ^ t.width.bits := by positivity
  have hhalf : (2 * t.half : ℤ) = 2 ^ t.width.bits := by exact_mod_cast t.two_mul_half
  rw [hhalf, ofInt, BitVec.toNat_ofInt, Nat.cast_pow, Nat.cast_ofNat,
    Int.toNat_of_nonneg (Int.emod_nonneg z hpos.ne')]

/-- Every pattern stands for an integer of the type. -/
theorem contains_toInt (t : IntType) (v : Word t.width) : t.Contains (t.toInt v) := by
  have hv := v.isLt
  rw [← t.two_mul_half] at hv
  rw [toInt_eq_ofNumber, ofNumber, Contains, least, greatest]
  by_cases hsigned : t.signed
  · simp only [hsigned, if_true, true_and]
    split <;> omega
  · simp only [hsigned, Bool.false_eq_true, if_false, false_and]
    omega

/-- **An integer of the type is the one that its pattern stands for.** -/
theorem toInt_ofInt (h : t.Contains z) : t.toInt (t.ofInt z) = z := by
  have hnumber := t.toNat_ofInt z
  rw [Contains, least, greatest] at h
  rw [toInt_eq_ofNumber, ofNumber]
  by_cases hsigned : t.signed
  · simp only [hsigned, if_true, true_and] at h ⊢
    -- The pattern of a negative integer is the number that lies above it by all the patterns.
    rcases lt_or_ge z 0 with hneg | hpos
    · rw [← Int.add_emod_right, Int.emod_eq_of_lt (by omega) (by omega)] at hnumber
      rw [if_pos (by omega)]
      omega
    · rw [Int.emod_eq_of_lt hpos (by omega)] at hnumber
      rw [if_neg (by omega), hnumber]
  · simp only [hsigned, Bool.false_eq_true, if_false, false_and] at h ⊢
    rw [hnumber, Int.emod_eq_of_lt h.1 (by omega)]

/-- The same integers, with a top bit that does not count negatively. -/
def unsigned (t : IntType) : IntType := { t with signed := false }

/-! ## Stored integers -/

/-- The bytes that store an integer of the type in a byte order. -/
def stored (t : IntType) : ByteOrder → ℤ → List UInt8
  | .little, z => twosComplement t.width.bytes z
  | .big, z => (twosComplement t.width.bytes z).reverse

/-- The integer that bytes make by their places. -/
def assembled (t : IntType) (order : ByteOrder) (bytes : List UInt8) : ℤ :=
  t.ofNumber (order.value bytes)

/-- **An integer is stored as its pattern.** -/
theorem stored_eq (t : IntType) (order : ByteOrder) (z : ℤ) :
    t.stored order z = ((t.ofInt z).toBytes order).toList := by
  have hpow : (2 * t.half : ℤ) = 256 ^ t.width.bytes := by
    exact_mod_cast t.two_mul_half.trans (Word.two_pow_bits t.width)
  have hlittle : twosComplement t.width.bytes z = (Word.store (t.ofInt z)).toList := by
    refine littleValue_injective ?_ ?_
    · rw [length_twosComplement, Vector.length_toList]
    · rw [Word.littleValue_store, ← Nat.cast_inj (R := ℤ), littleValue_twosComplement,
        toNat_ofInt, hpow]
  cases order with
  | little => exact hlittle
  | big => rw [stored, hlittle, Word.toBytes, Vector.toList_reverse]

theorem assembled_toList (t : IntType) (order : ByteOrder) (bytes : Vector UInt8 t.width.bytes) :
    t.assembled order bytes.toList = t.toInt (Word.ofBytes order bytes) := by
  rw [assembled, toInt_eq_ofNumber, Word.toNat_ofBytes]

theorem ofInt_swap (t : IntType) (z : ℤ) : t.ofInt (t.swap z) = (t.ofInt z).swap :=
  t.ofInt_toInt _

theorem ofInt_convert (t : IntType) (a b : ByteOrder) (z : ℤ) :
    t.ofInt (t.convert a b z) = (t.ofInt z).convert a b :=
  t.ofInt_toInt _

/-- **A swap reverses the digits.** -/
theorem stored_swap (t : IntType) (z : ℤ) :
    t.stored .little (t.swap z) = (t.stored .little z).reverse := by
  rw [stored_eq, stored_eq, ofInt_swap, Word.toBytes, Word.store_swap, Vector.toList_reverse]
  rfl

/-- A number and an integer that differ by a multiple of the number of patterns have one pattern. -/
theorem ofInt_unsigned_emod (t : IntType) (z : ℤ) :
    t.unsigned.ofInt (z % (2 * t.half)) = t.ofInt z := by
  refine BitVec.eq_of_toNat_eq (Nat.cast_injective (R := ℤ) ?_)
  have hhalf : t.unsigned.half = t.half := rfl
  rw [toNat_ofInt, hhalf, Int.emod_emod_of_dvd z dvd_rfl]
  exact (t.toNat_ofInt z).symm

/-- **What swaps and conversions do to the bytes of integers**, signed or not.  Swapping an integer
reverses its bytes, and its pattern becomes the one that swapping the unsigned integer of the same
pattern gives; so a second swap undoes the first.  Conversions compose, and the one back undoes the
one there.  Storing an integer in one order and putting its bytes together in another converts it. -/
theorem bytes_of_swap_and_convert (t : IntType) {z : ℤ} (h : t.Contains z) :
    t.Contains (t.swap z) ∧ t.stored .little (t.swap z) = (t.stored .little z).reverse ∧
      t.ofInt (t.swap z) = t.unsigned.ofInt (t.unsigned.swap (z % 2 ^ t.width.bits)) ∧
      t.swap (t.swap z) = z ∧
      (∀ a b c, t.convert b c (t.convert a b z) = t.convert a c z) ∧
      (∀ a b, t.convert b a (t.convert a b z) = z) ∧
      ∀ a b, t.assembled b (t.stored a z) = t.convert a b z := by
  have hhalf : (2 ^ t.width.bits : ℤ) = 2 * t.half := by exact_mod_cast t.two_mul_half.symm
  refine ⟨t.contains_toInt _, t.stored_swap z, ?_, ?_, fun a b c => ?_, fun a b => ?_,
    fun a b => ?_⟩
  · rw [ofInt_swap, ofInt_swap, hhalf, ofInt_unsigned_emod]
    rfl
  · rw [swap, ofInt_swap, Word.swap_swap, toInt_ofInt h]
  · rw [convert, ofInt_convert, Word.convert_convert]
    rfl
  · rw [convert, ofInt_convert, Word.convert_convert, Word.convert_self, toInt_ofInt h]
  · rw [stored_eq, assembled_toList, Word.ofBytes_toBytes]
    rfl

/-- A negative integer of 32 bits, its swap, which is negative too, and its bytes put together from
the other end. -/
theorem bytes_of_swap_and_convert_neg :
    let t : IntType := ⟨.u32, true⟩
    let z : ℤ := -0x01020304
    t.Contains z ∧ t.stored .little z = [0xFC, 0xFC, 0xFD, 0xFE] ∧
      t.stored .little (t.swap z) = [0xFE, 0xFD, 0xFC, 0xFC] ∧ t.swap z = -0x03030202 ∧
      t.swap (t.swap z) = z ∧ t.assembled .big (t.stored .little z) = t.convert .little .big z := by
  intro t z
  have hz : t.Contains z := by decide
  have hbytes : t.stored .little z = [0xFC, 0xFC, 0xFD, 0xFE] := by decide
  obtain ⟨-, hreverse, -, hback, -, -, hassembled⟩ := t.bytes_of_swap_and_convert hz
  rw [hbytes] at hreverse
  exact ⟨hz, hbytes, hreverse, by decide, hback, hassembled .little .big⟩

end IntType

end TiffDirectory
