import TiffDirectory.Word.Swap

/-!
# Word/IntType — signed and unsigned integers of the stored widths

A word is a bit pattern; an **integer type** says how wide it is and whether its top bit counts
negatively.  Both byte-order operations act on the pattern and are carried to the integers that the
patterns stand for.
-/

namespace TiffDirectory

/-- A width together with the reading of the top bit. -/
structure IntType where
  width : Width
  signed : Bool
  deriving DecidableEq, Repr

namespace IntType

/-- The integer that a bit pattern stands for. -/
def toInt (t : IntType) (v : Word t.width) : Int :=
  if t.signed then v.toInt else v.toNat

/-- The bit pattern of an integer: its two's complement, cut to the width. -/
def ofInt (t : IntType) (z : Int) : Word t.width := BitVec.ofInt _ z

/-- The number of different patterns whose top bit is clear. -/
def half (t : IntType) : Nat := 1 <<< (t.width.bits - 1)

/-- The smallest integer of the type. -/
def least (t : IntType) : Int := if t.signed then -t.half else 0

/-- The largest integer of the type. -/
def greatest (t : IntType) : Int := if t.signed then t.half - 1 else 2 * t.half - 1

/-- The integers that the type can hold. -/
def Contains (t : IntType) (z : Int) : Prop := t.least ≤ z ∧ z ≤ t.greatest

instance (t : IntType) (z : Int) : Decidable (t.Contains z) :=
  inferInstanceAs (Decidable (_ ∧ _))

/-- An integer with the bytes of its pattern in the opposite order. -/
def swap (t : IntType) (z : Int) : Int := t.toInt (t.ofInt z).swap

/-- An integer whose pattern is stored in order `source`, as the one stored in order `target`. -/
def convert (t : IntType) (source target : ByteOrder) (z : Int) : Int :=
  t.toInt ((t.ofInt z).convert source target)

/-- Every pattern is the pattern of the integer that it stands for. -/
@[simp] theorem ofInt_toInt (t : IntType) (v : Word t.width) : t.ofInt (t.toInt v) = v := by
  unfold ofInt toInt
  split <;> simp

end IntType

end TiffDirectory
