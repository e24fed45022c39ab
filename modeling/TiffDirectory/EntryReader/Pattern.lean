import TiffDirectory.EntryReader

/-!
# EntryReader/Pattern — an entry reader that counts

Fields without any data behind them: call number `c` is answered from the **seed**
`start + step * c`, an integer with the lowest bits of the seed, a byte string with the seed and its
successors.  One chosen call may fail.
-/

namespace TiffDirectory

/-- The rule of the fields, and how far it was followed. -/
structure Pattern where
  start : UInt64
  step : UInt64
  /-- the number of the call that fails, and its failure -/
  failure : Option (Nat × Error) := none
  callCount : Nat := 0
  /-- the number of bytes handed out by the calls that did not fail -/
  consumed : Nat := 0
  deriving Repr

namespace Pattern

/-- The number from which the next call is answered. -/
def seed (pattern : Pattern) : UInt64 :=
  pattern.start + pattern.step * .ofNat pattern.callCount

/-- Answers a call for a field from the seed, unless it is the call that fails. -/
def answer {α : Type} (field : EntryField) (value : UInt64 → α) : ReadM Pattern α := fun pattern =>
  let next := { pattern with callCount := pattern.callCount + 1 }
  let success := (.ok (value pattern.seed), { next with consumed := next.consumed + field.size })
  match pattern.failure with
  | some (call, failure) => if call = pattern.callCount then (.error failure, next) else success
  | none => success

/-- The fields of the pattern. -/
def reader : EntryReader Pattern where
  readWord w := answer (.word w) fun seed => .ofNat _ seed.toNat
  readBytes n := answer (.bytes n) fun seed => .ofFn fun i => (seed + .ofNat i).toUInt8

end Pattern

end TiffDirectory
