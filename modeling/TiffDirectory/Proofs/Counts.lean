import Mathlib
import TiffDirectory.Proofs.Splits
import TiffDirectory.Proofs.Traffic

/-!
# Proofs/Counts — the number of entries asked for may be any number

The number of entries comes out of the data, which may be hostile.  Data of `limit` bytes hold
`(limit - start) / entrySize` records from a position on, and a run that asks for more **fails
within the first record that is not there** (`Cursor.exists_error_of_held_lt`).  So a count beyond
that number buys nothing: as a longer run fails where a shorter one does, all such counts come to
the same, and the calls are bounded by the data and not by the count
(`Cursor.readEntries_of_any_count`).  So is the room: **storage for what the data hold is storage
enough** (`Cursor.readEntriesWithin_of_held_le`).
-/

namespace TiffDirectory

variable {σ : Type}

namespace Reader

variable {R : Reader σ} {s t : σ} {limit : ℕ}

/-- **A span that is served ends within the limit**, unless it is empty. -/
theorem ViewsWithin.stop_le_of_serves {spans : List Span} {views : List Bytes}
    (h : R.ViewsWithin s limit) (hserves : R.Serves s spans views t) :
    ∀ span ∈ spans, 0 < span.width → span.stop ≤ limit := by
  induction hserves with
  | nil => exact nofun
  | cons at_start head long _ ih =>
    refine List.forall_mem_cons.2 ⟨fun hpos => ?_, ih (h.after (.of_read head))⟩
    rw [Span.stop, ← at_start]
    exact h.le_of_read head long hpos

end Reader

namespace Cursor

variable {R : Reader σ} {s t : σ} {limit n : ℕ} {f : Format} {cursor after : Cursor}

/-- **A run that succeeds has read its bytes within the limit.** -/
theorem stop_le_of_readEntries_eq_ok (hlimit : limit < 2 ^ 64) (hviews : R.ViewsWithin s limit)
    (hn : 0 < n) {entries : Array (Entry f)}
    (h : (entryReader R).readEntries f n (cursor, s) = (.ok entries, (after, t))) :
    cursor.position.toNat + n * f.entrySize ≤ limit := by
  obtain ⟨-, -, -, views, hserves, -⟩ := serves_of_readEntries_eq_ok hlimit hviews h
  obtain ⟨span, hspan, hstop⟩ := f.exists_stop_eq_of_pos cursor.position.toNat hn
  rw [← hstop]
  exact hviews.stop_le_of_serves hserves span hspan (Format.width_pos_of_mem_schedule hspan)

/-- The number of records that data of `limit` bytes hold whole from a position on. -/
def held (limit : ℕ) (f : Format) (cursor : Cursor) : ℕ :=
  (limit - cursor.position.toNat) / f.entrySize

/-- **A run of more entries than the data hold fails.** -/
theorem exists_error_of_held_lt (hlimit : limit < 2 ^ 64) (hviews : R.ViewsWithin s limit)
    (h : held limit f cursor < n) :
    ∃ e left, (entryReader R).readEntries f n (cursor, s) = (.error e, left) := by
  rcases hrun : (entryReader R).readEntries f n (cursor, s) with ⟨e | entries, after, t⟩
  · exact ⟨e, (after, t), rfl⟩
  · have hfits := stop_le_of_readEntries_eq_ok hlimit hviews (Nat.zero_lt_of_lt h) hrun
    rw [held, Nat.div_lt_iff_lt_mul f.entrySize_pos] at h
    omega

/-- Two counts beyond what the data hold come to the same. -/
theorem readEntries_eq_of_held_lt (hlimit : limit < 2 ^ 64) (hviews : R.ViewsWithin s limit)
    (h : held limit f cursor < n) :
    (entryReader R).readEntries f n (cursor, s) =
      (entryReader R).readEntries f (held limit f cursor + 1) (cursor, s) := by
  obtain ⟨e, left, hrun⟩ := exists_error_of_held_lt hlimit hviews (Nat.lt_succ_self _)
  rw [hrun]
  exact EntryReader.readEntries_eq_error_of_le hrun h

/-- **A run needs no more room than for the entries that the data hold**, if it has the storage that
is taken beforehand. -/
theorem readEntriesWithin_of_held_le {room : ℕ} (hlimit : limit < 2 ^ 64)
    (hviews : R.ViewsWithin s limit) (hroom : held limit f cursor ≤ room)
    (reserved : min n EntryReader.reserveLimit ≤ room) :
    (entryReader R).readEntriesWithin room f n (cursor, s) =
      (entryReader R).readEntries f n (cursor, s) := by
  rcases Nat.lt_or_ge room n with hn | hn
  · have hreserved : EntryReader.reserveLimit ≤ room := by omega
    obtain ⟨e, left, hrun⟩ := exists_error_of_held_lt hlimit hviews (Nat.lt_succ_of_le hroom)
    rw [(entryReader R).readEntriesWithin_of_lt f hreserved hn, ReadM.bind_error hrun]
    exact (EntryReader.readEntries_eq_error_of_le hrun hn).symm
  · rw [(entryReader R).readEntriesWithin_of_le f hn]

/-- **The calls of a run are its schedule or the start of it.** -/
theorem calls_prefix_schedule (hlimit : limit < 2 ^ 64) (hviews : R.ViewsWithin s limit)
    (f : Format) (n : ℕ) (cursor : Cursor) :
    let run := (entryReader R.recorded).readEntries f n (cursor, { source := s })
    run.2.2.calls.toList.map ReadCall.span <+: f.schedule cursor.position.toNat n := by
  intro run
  have hrecorded := hviews.recorded #[]
  rcases h : run with ⟨e | entries, after, left⟩
  · obtain ⟨-, before, span, rest, views, t, hsplit, hserves, ⟨offset, hoffset, hreply⟩, -⟩ :=
      refuses_of_readEntries_eq_error hlimit hrecorded h
    obtain ⟨-, hbefore⟩ := hserves.of_recorded
    have hlast : left.calls = t.calls.push ⟨offset, span.width⟩ := by
      rcases hreply with hread | ⟨view, hread, -, -⟩
      · exact (Reader.read_of_recorded hread).2
      · exact (Reader.read_of_recorded hread).2
    refine ⟨rest, ?_⟩
    rw [hlast, Array.toList_push, List.map_append, hbefore, List.map_singleton, ReadCall.span,
      hoffset, hsplit, List.append_assoc]
    rfl
  · obtain ⟨-, -, -, views, hserves, -⟩ := serves_of_readEntries_eq_ok hlimit hrecorded h
    obtain ⟨-, hcalls⟩ := hserves.of_recorded
    rw [hcalls]
    exact List.prefix_rfl

theorem size_calls_le (hlimit : limit < 2 ^ 64) (hviews : R.ViewsWithin s limit) (f : Format)
    (n : ℕ) (cursor : Cursor) :
    ((entryReader R.recorded).readEntries f n (cursor, { source := s })).2.2.calls.size ≤
      4 * n := by
  have hlength := (calls_prefix_schedule hlimit hviews f n cursor).length_le
  rwa [List.length_map, Array.length_toList, f.length_schedule] at hlength

/-- **A count of entries does no harm, whatever it is.**  Let the views of a reader, which may fail
at any call and remember all of them, stay within `limit` bytes.  Then a run makes at most four
calls for each entry that the data hold and for one more, it does not succeed if more entries are
asked for than that, and all such counts have the same outcome: result, position, calls, and state
of the reader.  None of them needs room for more than the data hold, apart from the storage that is
taken beforehand. -/
theorem readEntries_of_any_count (R : Reader σ) (s : σ) {limit : ℕ} (hlimit : limit < 2 ^ 64)
    (hviews : R.ViewsWithin s limit) (f : Format) (cursor : Cursor) :
    let held := (limit - cursor.position.toNat) / f.entrySize
    let run (n : ℕ) := (entryReader R.recorded).readEntries f n (cursor, { source := s })
    (∀ n, (run n).2.2.calls.size ≤ 4 * min n (held + 1)) ∧
      (∀ n, held < n → ∃ e, (run n).1 = .error e) ∧
      (∀ m n, held < m → held < n → run m = run n) ∧
      ∀ n room, held ≤ room → min n EntryReader.reserveLimit ≤ room →
        (entryReader R.recorded).readEntriesWithin room f n (cursor, { source := s }) = run n := by
  intro held run
  have hrecorded := hviews.recorded #[]
  have hbeyond : ∀ n, held < n → run n = run (held + 1) := fun n hn =>
    readEntries_eq_of_held_lt hlimit hrecorded hn
  refine ⟨fun n => ?_, fun n hn => ?_, fun m n hm hn => (hbeyond m hm).trans (hbeyond n hn).symm,
    fun n room => readEntriesWithin_of_held_le hlimit hrecorded⟩
  · rcases Nat.lt_or_ge held n with hn | hn
    · rw [hbeyond n hn, Nat.min_eq_right hn]
      exact size_calls_le hlimit hviews f (held + 1) cursor
    · rw [Nat.min_eq_left (Nat.le_succ_of_le hn)]
      exact size_calls_le hlimit hviews f n cursor
  · obtain ⟨e, left, hrun⟩ := exists_error_of_held_lt hlimit hrecorded hn
    exact ⟨e, congrArg Prod.fst hrun⟩

/-- Thirty bytes hold two entries from position 3 on.  The largest count there is comes to the same
as a count of three: ten calls, the last of which meets the end, amid longer views.  Room for what
is taken beforehand is enough for it. -/
theorem readEntries_of_any_count_huge :
    let s : FaultyReader := { bytes := Array.replicate 30 7, surplus := 3 }
    let cursor : Cursor := { order := .little, position := 3 }
    let run (n : ℕ) := (entryReader FaultyReader.reader.recorded).readEntries .classic n
      (cursor, { source := s })
    s.bytes.size < 2 ^ 64 ∧ FaultyReader.reader.ViewsWithin s s.bytes.size ∧
      held s.bytes.size .classic cursor = 2 ∧
      (∀ n, (run n).2.2.calls.size ≤ 4 * min n (held s.bytes.size .classic cursor + 1)) ∧
      run (2 ^ 64 - 1) = run 3 ∧ (run 3).1 = .error (.truncatedField 29 2 1) ∧
      (run 3).2.2.calls.size = 10 ∧
      (entryReader FaultyReader.reader.recorded).readEntriesWithin EntryReader.reserveLimit .classic
        (2 ^ 64 - 1) (cursor, { source := s }) = run 3 := by
  intro s cursor run
  have hsize : s.bytes.size < 2 ^ 64 := by decide
  obtain ⟨hcalls, -, hsame, hroom⟩ :=
    readEntries_of_any_count FaultyReader.reader s hsize s.viewsWithin .classic cursor
  have hthree := hsame (2 ^ 64 - 1) 3 (by decide) (by decide)
  have hreserved := hroom (2 ^ 64 - 1) EntryReader.reserveLimit (by decide) (Nat.min_le_right _ _)
  exact ⟨hsize, s.viewsWithin, by decide, hcalls, hthree, by decide +kernel, by decide +kernel,
    hreserved.trans hthree⟩

end Cursor

end TiffDirectory
