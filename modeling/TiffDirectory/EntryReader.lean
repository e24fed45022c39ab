import TiffDirectory.Entry
import TiffDirectory.ReadM

/-!
# EntryReader — directory entries, field by field

An entry reader hands out one field after the other; the byte order of the integers is its own
affair.  `readEntry` asks it for the fields of one entry, `readEntriesWithin` for a run of entries,
and both **stop at the first failure**, which they pass on as it is.

The entries of a run are kept in storage, and how many it has room for is up to the memory of the
process: it is a parameter of the run, which **reports a failure of its own when the room ends**.
`readEntries` is the run that can keep all its entries.
-/

namespace TiffDirectory

/-- A source of state `σ` that is read field by field. -/
structure EntryReader (σ : Type) where
  readWord : (w : Width) → ReadM σ (Word w)
  readBytes : (n : Nat) → ReadM σ (Vector UInt8 n)

namespace EntryReader

variable {σ : Type}

/-- One entry. -/
def readEntry (E : EntryReader σ) (f : Format) : ReadM σ (Entry f) := do
  let tag ← E.readWord .u16
  let type ← E.readWord .u16
  let count ← E.readWord f.countWidth
  let value ← E.readBytes f.valueSize
  return { tag, type, count, value }

/-- The largest number of entries for which a run takes storage before it reads any. -/
def reserveLimit : Nat := 4096

/-- `n` more entries after those already read, kept in storage that has room for `room` in all.  An
entry that finds no room **has been read by then**. -/
def readMoreWithin (E : EntryReader σ) (room : Nat) {f : Format} :
    (n : Nat) → (done : Array (Entry f)) → ReadM σ (Array (Entry f))
  | 0, done => return done
  | n + 1, done => do
    let entry ← E.readEntry f
    if done.size < room then E.readMoreWithin room n (done.push entry)
    else throw (.entriesUnstorable (done.size + 1))

/-- A run of `n` entries in storage that has room for `room`.  The entries before a failure are
given up. -/
def readEntriesWithin (E : EntryReader σ) (room : Nat) (f : Format) (n : Nat) :
    ReadM σ (Array (Entry f)) :=
  if room < min n reserveLimit then throw (.entriesUnstorable 1) else E.readMoreWithin room n #[]

/-- A run of `n` entries, all of which can be kept. -/
def readEntries (E : EntryReader σ) (f : Format) (n : Nat) : ReadM σ (Array (Entry f)) :=
  E.readEntriesWithin n f n

/-- The same entry reader with a record of the fields asked for. -/
def recorded (E : EntryReader σ) : EntryReader (Recorded EntryField σ) where
  readWord w := (E.readWord w).record (.word w)
  readBytes n := (E.readBytes n).record (.bytes n)

@[simp] theorem readMoreWithin_zero (E : EntryReader σ) (room : Nat) {f : Format}
    (done : Array (Entry f)) : E.readMoreWithin room 0 done = pure done := rfl

theorem readMoreWithin_succ (E : EntryReader σ) (room : Nat) {f : Format} (n : Nat)
    (done : Array (Entry f)) :
    E.readMoreWithin room (n + 1) done = E.readEntry f >>= fun entry =>
      if done.size < room then E.readMoreWithin room n (done.push entry)
      else throw (.entriesUnstorable (done.size + 1)) := rfl

end EntryReader

end TiffDirectory
