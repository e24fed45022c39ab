import TiffDirectory.Reader

/-!
# Reader/Faulty — a reader that keeps less of its word

Bytes in memory behind a reader that may **fail at one chosen call**, give shorter or longer views
than asked for, and refuse to tell its size.  A read past the end gives nothing, and is no failure.
-/

namespace TiffDirectory

/-- The bytes, the faults, and the number of read calls made so far. -/
structure FaultyReader where
  bytes : Bytes
  /-- the failure of every size query -/
  sizeFailure : Option Error := none
  /-- the number of the read call that fails, and its failure -/
  readFailure : Option (Nat × Error) := none
  /-- the largest number of bytes of a view -/
  longestView : UInt64 := 0xFFFFFFFFFFFFFFFF
  /-- the number of bytes given beyond those asked for -/
  surplus : UInt64 := 0
  callCount : Nat := 0
  deriving Repr

namespace FaultyReader

/-- The view of a read call that does not fail. -/
def view (reader : FaultyReader) (offset : UInt64) (size : Nat) : Bytes :=
  let wanted := (UInt64.ofNat size + reader.surplus).toNat
  reader.bytes.extract offset.toNat (offset.toNat + min wanted reader.longestView.toNat)

/-- The reply to the next read call. -/
def reply (reader : FaultyReader) (offset : UInt64) (size : Nat) : Result Bytes :=
  match reader.readFailure with
  | some (call, failure) =>
    if call = reader.callCount then .error failure else .ok (reader.view offset size)
  | none => .ok (reader.view offset size)

/-- One read call: the reply, and the count that it raises. -/
def read (offset : UInt64) (size : Nat) : ReadM FaultyReader Bytes := fun reader =>
  (reader.reply offset size, { reader with callCount := reader.callCount + 1 })

/-- A read that has to be filled is a read whose view is long enough. -/
def readFull (offset : UInt64) (size : Nat) : ReadM FaultyReader Bytes := do
  let view ← read offset size
  if view.size < size then throw (.incompleteRead offset.toNat) else return view.extract 0 size

/-- Positioned reads with the faults. -/
def reader : Reader FaultyReader where
  read := read
  readFull := readFull
  size := do
    let reader ← get
    match reader.sizeFailure with
    | some failure => throw failure
    | none => return .ofNat reader.bytes.size

end FaultyReader

end TiffDirectory
