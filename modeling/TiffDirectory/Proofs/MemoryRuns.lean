import Mathlib
import TiffDirectory.Proofs.ShownBytes

/-!
# Proofs/MemoryRuns — every outcome of a run of entries over bytes in memory

Two lemmas settle a run over any reader that shows fixed bytes: where it succeeds the entries are
stored as the piece of the bytes that it covered (`Shows.encodeEntries_eq`), and where it fails it
fails at **the first span that does not lie within the bytes** (`Shows.find?_eq_of_error`).
`Source.readEntries_of_memory` puts them together, with the record and the field where the bytes end
in plain numbers.
-/

namespace TiffDirectory

variable {σ : Type}

namespace Reader

variable {R : Reader σ} {s t : σ} {medium : Medium} {data : Bytes} {cursor after : Cursor}
  {f : Format} {n : ℕ}

/-- **A run that succeeds lies within the bytes, and is stored as its piece of them.** -/
theorem Shows.encodeEntries_eq (h : R.Shows s medium data) (hdata : data.size < 2 ^ 64)
    {entries : Array (Entry f)}
    (hrun : (Cursor.entryReader R).readEntries f n (cursor, s) = (.ok entries, (after, t))) :
    entries.size = n ∧ after.order = cursor.order ∧
      after.position.toNat = cursor.position.toNat + n * f.entrySize ∧
      (0 < n → cursor.position.toNat + n * f.entrySize ≤ data.size) ∧
      encodeEntries cursor.order entries.toList =
        data.extract cursor.position.toNat (cursor.position.toNat + n * f.entrySize) := by
  obtain ⟨hsize, horder, hposition, views, hserves, hviews⟩ :=
    Cursor.serves_of_readEntries_eq_ok hdata h.viewsWithin hrun
  have hrow := map_field_filledRow entries.toList
  rw [Array.length_toList, hsize] at hrow
  refine ⟨hsize, horder, hposition, fun hn => ?_, ?_⟩
  · obtain ⟨span, hspan, hstop⟩ := f.exists_stop_eq_of_pos cursor.position.toNat hn
    exact hstop ▸ h.stop_le_of_serves hserves span hspan
  · rw [Format.schedule, ← hrow] at hserves
    rw [← storedRow_filledRow, h.storedRow_eq hserves hviews, hrow, Format.totalSize_rowFields]

/-- **A run that fails does so at the first span past the end of the bytes**, and stays there. -/
theorem Shows.find?_eq_of_error (h : R.Shows s medium data) (hdata : data.size < 2 ^ 64)
    {e : Error}
    (hrun : (Cursor.entryReader R).readEntries f n (cursor, s) = (.error e, (after, t))) :
    after.order = cursor.order ∧ data.size < cursor.position.toNat + n * f.entrySize ∧
      ∃ span, (f.schedule cursor.position.toNat n).find? (data.size < ·.stop) = some span ∧
        e = data.shortfall medium span ∧ after.position.toNat = span.start := by
  obtain ⟨horder, before, span, rest, views, u, hsplit, hserves, hrefuses, hstart⟩ :=
    Cursor.refuses_of_readEntries_eq_error hdata h.viewsWithin hrun
  have hmem : span ∈ f.schedule cursor.position.toNat n := by
    rw [hsplit]
    exact List.mem_append_right _ List.mem_cons_self
  obtain ⟨hlt, he⟩ := (h.after hserves.after).size_lt_stop_of_refuses
    (Format.width_pos_of_mem_schedule hmem) hrefuses
  have hbefore : before.find? (data.size < ·.stop) = none := by
    refine List.find?_eq_none.2 fun x hx => ?_
    have hstop := h.stop_le_of_serves hserves x hx
    simpa using hstop
  refine ⟨horder, ?_, span, ?_, he, hstart⟩
  · exact Nat.lt_of_lt_of_le hlt (Format.stop_le_of_mem_schedule hmem)
  · rw [hsplit, List.find?_append, hbefore, Option.none_or, List.find?_cons_of_pos]
    exact decide_eq_true hlt

end Reader

/-! ## Sources in memory -/

namespace Source

/-- **Every outcome of a run of entries over bytes in memory.**  No entries need no bytes.  Entries
that lie within the bytes are all read, field by field, and the cursor stops after the last of them.
Otherwise the first `k` records lie within the bytes, and the run stops at the field of the next one
that does not, with a report of where the bytes end. -/
theorem readEntries_of_memory (fs : FileSystem) {source : Source} {data : Bytes}
    (hsource : source.memory? = some data) (hdata : data.size < 2 ^ 64) (f : Format) (n : ℕ)
    (cursor : Cursor) :
    let p := cursor.position.toNat
    let (result, (after, left)) :=
      (Cursor.entryReader (reader fs)).readEntries f n (cursor, source)
    left = source ∧ after.order = cursor.order ∧
      (n = 0 → result = .ok #[] ∧ after.position = cursor.position) ∧
      (0 < n → p + n * f.entrySize ≤ data.size →
        ∃ entries : Array (Entry f), result = .ok entries ∧ entries.size = n ∧
          (∀ i (hi : i < entries.size),
            entries[i].ReadsFrom cursor.order data (p + i * f.entrySize)) ∧
          after.position.toNat = p + n * f.entrySize) ∧
      (0 < n → data.size < p + n * f.entrySize →
        let k := if data.size ≤ p then 0 else (data.size - p) / f.entrySize
        ∃ q w e,
          (layout (p + k * f.entrySize) f.fields).find? (data.size < ·.stop) = some ⟨q, w⟩ ∧
          result = .error e ∧ after.position.toNat = q ∧
          (data.size ≤ q → e.code = .outOfBounds ∧
            e.message = s!"Read offset {q} beyond buffer size {data.size}") ∧
          (q < data.size → e.code = .unexpectedEndOfFile ∧
            e.message =
              s!"Incomplete read at offset {q}: expected {w} bytes, got {data.size - q}")) := by
  intro p
  have hshows : (reader fs).Shows source .buffer data := shows_of_memory? hsource
  rcases hrun : (Cursor.entryReader (reader fs)).readEntries f n (cursor, source)
    with ⟨e | entries, after, left⟩
  · obtain ⟨horder, hlt, span, hfind, rfl, hstart⟩ := hshows.find?_eq_of_error hdata hrun
    have hn : n ≠ 0 := by
      rintro rfl
      simp [Format.schedule, Format.rowFields, layout] at hfind
    have hleft := eq_of_after_of_memory? hsource
      (Cursor.after_of_readEntries hdata hshows.viewsWithin hrun)
    refine ⟨hleft, horder, fun h => absurd h hn, fun _ hle => absurd hlt (Nat.not_lt.2 hle), ?_⟩
    intro hpos _ k
    -- Subtraction stops at zero, so no record at all fits when the cursor stands past the end.
    have hk : k = (data.size - p) / f.entrySize := by
      unfold k
      split
      next hle => rw [Nat.sub_eq_zero_of_le hle, Nat.zero_div]
      next => rfl
    rw [f.find?_schedule hpos hlt] at hfind
    exact ⟨_, _, _, hk ▸ hfind, rfl, hstart, data.code_and_message_shortfall span⟩
  · obtain ⟨hsize, horder, hposition, hfits, hstored⟩ := hshows.encodeEntries_eq hdata hrun
    have hleft := eq_of_after_of_memory? hsource
      (Cursor.after_of_readEntries hdata hshows.viewsWithin hrun)
    refine ⟨hleft, horder, ?_, fun hpos hle => ⟨entries, rfl, hsize, fun i hi => ?_, hposition⟩,
      fun hpos hlt => absurd (hfits hpos) (Nat.not_le.2 hlt)⟩
    · rintro rfl
      rw [Nat.zero_mul, Nat.add_zero] at hposition
      exact ⟨congrArg Except.ok (Array.eq_empty_of_size_eq_zero hsize),
        UInt64.toNat_inj.1 hposition⟩
    · rw [← hsize, ← Array.length_toList] at hle hstored
      have hentry := encode_eq_extract_of_encodeEntries hle hstored i (by simpa using hi)
      have hlast : (i + 1) * f.entrySize ≤ entries.toList.length * f.entrySize :=
        Nat.mul_le_mul_right _ (by simpa using hi)
      rw [Nat.succ_mul] at hlast
      exact Entry.readsFrom_of_encode_eq (by omega) hentry

/-- Thirty bytes in a window of forty hold two of three records from position 3 on, and of the third
one the tag but only one byte of the type. -/
theorem readEntries_of_memory_truncated :
    let source : Source := .view ⟨(Array.replicate 40 7).toSubarray 5 35⟩
    let data : Bytes := Array.replicate 30 7
    let run := (Cursor.entryReader (reader .empty)).readEntries .classic 3
      ({ order := .big, position := 3 }, source)
    source.memory? = some data ∧ data.size < 2 ^ 64 ∧ 0 < 3 ∧ data.size < 3 + 3 * 12 ∧
      ∃ e, run.1 = .error e ∧ run.2.1.position.toNat = 29 ∧ e.code = .unexpectedEndOfFile ∧
        e.message = "Incomplete read at offset 29: expected 2 bytes, got 1" := by
  intro source data run
  have hsource : source.memory? = some data := by decide +kernel
  have hdata : data.size < 2 ^ 64 := by decide
  obtain ⟨-, -, -, -, hcut⟩ := readEntries_of_memory .empty hsource hdata .classic 3
    { order := .big, position := 3 }
  obtain ⟨q, w, e, hspan, hresult, hposition, -, hshort⟩ := hcut (by decide) (by decide)
  have hfield : some (⟨29, 2⟩ : Span) = some ⟨q, w⟩ := Eq.trans (by decide) hspan
  obtain ⟨rfl, rfl⟩ := Span.mk.inj (Option.some.inj hfield)
  obtain ⟨hcode, hmessage⟩ := hshort (by decide)
  exact ⟨hsource, hdata, by decide, by decide, e, hresult, hposition, hcode,
    hmessage.trans (by decide +kernel)⟩

end Source

end TiffDirectory
