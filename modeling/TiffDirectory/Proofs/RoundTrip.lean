import Mathlib
import TiffDirectory.Proofs.MemoryRuns

/-!
# Proofs/RoundTrip — reading a run of entries and storing it are inverse to each other

Stored entries are read back from anywhere in memory (`Source.readEntries_encodeEntries`): a run
over bytes that are long enough cannot fail, and **a run is known from its bytes**.  Conversely the
entries of a run that succeeds (`MemoryRun`) are stored as the bytes that they were read from.
-/

namespace TiffDirectory

/-- A piece of bytes is where the bytes before it end. -/
theorem Bytes.extract_append_append (before piece rest : Bytes) :
    (before ++ piece ++ rest).extract before.size (before.size + piece.size) = piece := by
  rw [Array.append_assoc, Array.extract_append_right, Array.extract_append, Nat.zero_sub,
    Nat.sub_self, Array.extract_size, Array.extract_empty_of_stop_le_start (Nat.le_refl 0),
    Array.append_empty]

theorem Cursor.ext_toNat {a b : Cursor} (horder : a.order = b.order)
    (hposition : a.position.toNat = b.position.toNat) : a = b := by
  obtain ⟨order, position⟩ := a
  obtain ⟨_, _⟩ := b
  obtain rfl := UInt64.toNat_inj.1 hposition
  exact congrArg (Cursor.mk · position) horder

namespace Source

variable {source : Source} {f : Format} {order : ByteOrder}

/-- **Stored entries are read back**, whatever bytes lie around them, and the cursor stops at the
first byte after them. -/
theorem readEntries_encodeEntries (fs : FileSystem) {before rest : Bytes}
    {entries : List (Entry f)}
    (hsource : source.memory? = some (before ++ encodeEntries order entries ++ rest))
    (hdata : (before ++ encodeEntries order entries ++ rest).size < 2 ^ 64) :
    (Cursor.entryReader (reader fs)).readEntries f entries.length
        ({ order, position := .ofNat before.size }, source) =
      (.ok entries.toArray,
        ({ order, position := .ofNat (before ++ encodeEntries order entries).size }, source)) := by
  have hshows : (reader fs).Shows source .buffer _ := shows_of_memory? hsource
  have hstored : (encodeEntries order entries).size = _ := size_encodeEntries entries
  have hsize : before.size + entries.length * f.entrySize + rest.size < 2 ^ 64 := by
    rwa [Array.size_append, Array.size_append, hstored] at hdata
  have hstart : (UInt64.ofNat before.size).toNat = before.size :=
    UInt64.toNat_ofNat_of_lt' (show before.size < 2 ^ 64 by omega)
  rcases hrun : (Cursor.entryReader (reader fs)).readEntries f entries.length
    ({ order, position := .ofNat before.size }, source) with ⟨e | found, after, left⟩
  · obtain ⟨-, hlt, -⟩ := hshows.find?_eq_of_error hdata hrun
    rw [hstart, Array.size_append, Array.size_append, hstored] at hlt
    omega
  · obtain ⟨hfound, horder, hposition, -, hencode⟩ := hshows.encodeEntries_eq hdata hrun
    have hleft := eq_of_after_of_memory? hsource
      (Cursor.after_of_readEntries hdata hshows.viewsWithin hrun)
    rw [hstart] at hposition hencode
    rw [← hstored, Bytes.extract_append_append] at hencode
    have hentries : found.toList = entries :=
      encodeEntries_injective (by rwa [Array.length_toList]) hencode
    have hstop : (UInt64.ofNat (before ++ encodeEntries order entries).size).toNat =
        before.size + entries.length * f.entrySize := by
      rw [Array.size_append, hstored]
      exact UInt64.toNat_ofNat_of_lt' (show _ < 2 ^ 64 by omega)
    have hafter : after = { order, position := .ofNat (before ++ encodeEntries order entries).size } :=
      Cursor.ext_toNat horder (hposition.trans hstop.symm)
    rw [hleft, hafter, ← hentries, Array.toArray_toList]

end Source

/-! ## Runs that succeed -/

/-- A run of `n` entries over bytes in memory that succeeds. -/
structure MemoryRun (fs : FileSystem) (order : ByteOrder) (f : Format) (n : ℕ) where
  source : Source
  bytes : Bytes
  in_memory : source.memory? = some bytes
  size_lt : bytes.size < 2 ^ 64
  position : UInt64
  entries : Array (Entry f)
  after : Cursor
  left : Source
  succeeds : (Cursor.entryReader (Source.reader fs)).readEntries f n ({ order, position }, source) =
    (.ok entries, (after, left))

namespace MemoryRun

variable {fs : FileSystem} {order : ByteOrder} {f : Format} {n : ℕ}

/-- The bytes of the records that a run has read. -/
def window (run : MemoryRun fs order f n) : Bytes :=
  run.bytes.extract run.position.toNat (run.position.toNat + n * f.entrySize)

theorem size_entries (run : MemoryRun fs order f n) : run.entries.size = n :=
  (EntryReader.readEntries_eq_ok_iff.1 run.succeeds).1

/-- **Entries that were read are stored as the bytes that they were read from.** -/
theorem encodeEntries_entries (run : MemoryRun fs order f n) :
    encodeEntries order run.entries.toList = run.window := by
  obtain ⟨-, -, -, -, hencode⟩ :=
    (Source.shows_of_memory? run.in_memory).encodeEntries_eq run.size_lt run.succeeds
  exact hencode

/-- Runs over equal bytes give equal entries, and only those do. -/
theorem entries_eq_iff (a b : MemoryRun fs order f n) :
    a.entries = b.entries ↔ a.window = b.window := by
  rw [← encodeEntries_entries, ← encodeEntries_entries]
  constructor
  · exact fun h => by rw [h]
  · intro h
    refine Array.toList_inj.1 (encodeEntries_injective ?_ h)
    rw [Array.length_toList, Array.length_toList, size_entries, size_entries]

end MemoryRun

/-! ## The inverse laws -/

/-- **Reading and storing are inverse to each other**, for either format and either byte order.
Entries that are stored between any other bytes are read back, and the cursor stops where the bytes
after them start.  Conversely the entries of a run that succeeds are stored as the bytes that it
read, and so two such runs give equal entries exactly when their bytes are equal. -/
theorem readEntries_inverse_encodeEntries (fs : FileSystem) (order : ByteOrder) (f : Format) :
    (∀ (source : Source) (before rest : Bytes) (entries : List (Entry f)),
      source.memory? = some (before ++ encodeEntries order entries ++ rest) →
      (before ++ encodeEntries order entries ++ rest).size < 2 ^ 64 →
        (Cursor.entryReader (Source.reader fs)).readEntries f entries.length
            ({ order, position := .ofNat before.size }, source) =
          (.ok entries.toArray,
            ({ order, position := .ofNat (before ++ encodeEntries order entries).size },
              source))) ∧
      (∀ (n : ℕ) (run : MemoryRun fs order f n),
        encodeEntries order run.entries.toList = run.window) ∧
      ∀ (n : ℕ) (a b : MemoryRun fs order f n), a.entries = b.entries ↔ a.window = b.window := by
  refine ⟨?_, ?_, ?_⟩
  · intro source before rest entries hsource hdata
    exact Source.readEntries_encodeEntries fs hsource hdata
  · exact fun _ run => run.encodeEntries_entries
  · exact fun _ a b => a.entries_eq_iff b

/-- Two entries stored between three bytes and one byte, and the run that reads them back. -/
theorem readEntries_inverse_encodeEntries_two :
    let first : Entry .big := ⟨0x0100, 4, 1, #v[1, 2, 3, 4, 5, 6, 7, 8]⟩
    let second : Entry .big := ⟨0x0101, 16, 0x0102030405060708, #v[8, 7, 6, 5, 4, 3, 2, 1]⟩
    let stored := encodeEntries .little [first, second]
    let data : Bytes := #[0xFF, 0xFE, 0xFD] ++ stored ++ #[0xFC]
    let source : Source := .buffer ⟨data⟩
    (Cursor.entryReader (Source.reader .empty)).readEntries .big 2
        ({ order := .little, position := 3 }, source) =
      (.ok #[first, second], ({ order := .little, position := 43 }, source)) ∧
      stored = data.extract 3 43 := by
  intro first second stored data source
  obtain ⟨hback, hstored, -⟩ := readEntries_inverse_encodeEntries .empty .little .big
  have hsize : data.size < 2 ^ 64 := by decide +kernel
  have hrun := hback source #[0xFF, 0xFE, 0xFD] #[0xFC] [first, second] rfl hsize
  have hstart : UInt64.ofNat (#[0xFF, 0xFE, 0xFD] : Bytes).size = 3 := by decide
  have hstop : UInt64.ofNat (#[0xFF, 0xFE, 0xFD] ++ stored).size = 43 := by decide +kernel
  rw [hstart, hstop] at hrun
  exact ⟨hrun, hstored 2 ⟨source, data, rfl, hsize, 3, _, _, _, hrun⟩⟩

end TiffDirectory
