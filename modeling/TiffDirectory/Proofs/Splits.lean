import Mathlib
import TiffDirectory.EntryReader.Pattern
import TiffDirectory.Proofs.Storage

/-!
# Proofs/Splits — a run of entries is read part by part

A run carries the entries read so far along, and nothing that it does depends on them
(`readMore_eq`).  So **a run may be split anywhere**: its first part leaves the entry reader where
the second one starts, and the entries of both stand in a row (`readEntries_add`).  A failure of a
part is the failure of every longer run (`readEntries_eq_error_of_le`): what lies behind it is never
asked for.  With limited room this goes on as long as there is room for all
(`readEntries_compose`).
-/

namespace TiffDirectory

namespace EntryReader

variable {σ : Type} {f : Format}

/-! ## Runs that go on -/

/-- **What was read before a run plays no part in it**; it stands before what the run reads. -/
theorem readMore_eq (E : EntryReader σ) (n : ℕ) (done : Array (Entry f)) :
    E.readMore n done = (done ++ ·) <$> E.readEntries f n := by
  induction n generalizing done with
  | zero =>
    rw [readEntries_eq_readMore, readMore_zero, readMore_zero, map_pure, Array.append_empty]
  | succ n ih =>
    rw [readEntries_eq_readMore, readMore_succ, readMore_succ, map_bind]
    congr 1
    funext entry
    -- Both runs have the entry to start with, and only one of them what was read before it.
    rw [ih, ih (#[].push entry), Functor.map_map]
    simp only [← Array.append_assoc, Array.append_push, Array.append_empty]

theorem readMore_add (E : EntryReader σ) (m n : ℕ) (done : Array (Entry f)) :
    E.readMore (m + n) done = E.readMore m done >>= E.readMore n := by
  induction m generalizing done with
  | zero => rw [Nat.zero_add, readMore_zero, pure_bind]
  | succ m ih =>
    rw [Nat.add_right_comm, readMore_succ, readMore_succ, bind_assoc]
    congr 1
    funext entry
    exact ih (done.push entry)

/-! ## Splitting a run -/

/-- **A run of `m + n` entries is a run of `m`, and one of `n` from where that ends.** -/
theorem readEntries_add (E : EntryReader σ) (f : Format) (m n : ℕ) :
    E.readEntries f (m + n) =
      E.readEntries f m >>= fun first => (first ++ ·) <$> E.readEntries f n := by
  rw [readEntries_eq_readMore, readMore_add, readEntries_eq_readMore E f m]
  congr 1
  funext first
  exact E.readMore_eq n first

/-- …and one more entry comes last. -/
theorem readEntries_succ (E : EntryReader σ) (f : Format) (n : ℕ) :
    E.readEntries f (n + 1) =
      E.readEntries f n >>= fun entries => entries.push <$> E.readEntry f := by
  -- A run of one adds its entry to those before it, and `map` is defined by such a step.
  rw [readEntries_eq_readMore, readMore_add, readEntries_eq_readMore]
  rfl

/-- **A longer run fails where a shorter one does.** -/
theorem readEntries_eq_error_of_le {E : EntryReader σ} {m n : ℕ} {s t : σ} {e : Error}
    (h : E.readEntries f m s = (.error e, t)) (hle : m ≤ n) :
    E.readEntries f n s = (.error e, t) := by
  obtain ⟨k, rfl⟩ := Nat.exists_eq_add_of_le hle
  rw [readEntries_add]
  exact ReadM.bind_error h

/-! ## Runs and their room -/

/-- **A run succeeds exactly when it has room for its entries and they can be read.** -/
theorem readEntriesWithin_eq_ok_iff {E : EntryReader σ} {room n : ℕ} {s t : σ}
    {entries : Array (Entry f)} :
    E.readEntriesWithin room f n s = (.ok entries, t) ↔
      n ≤ room ∧ E.readEntries f n s = (.ok entries, t) := by
  rcases Nat.lt_or_ge room n with hroom | hroom
  · refine iff_of_false (fun h => ?_) fun h => absurd h.1 (Nat.not_le.2 hroom)
    rcases Nat.lt_or_ge room reserveLimit with hreserved | hreserved
    · rw [E.readEntriesWithin_of_lt_reserve f hroom hreserved] at h
      cases h
    · rw [E.readEntriesWithin_of_lt f hreserved hroom] at h
      obtain ⟨_, _, -, hlast⟩ := ReadM.bind_eq_ok_iff.1 h
      cases hlast
  · rw [E.readEntriesWithin_of_le f hroom, and_iff_right hroom]

/-- A longer run fails where a shorter one does, **be it for want of room**, if it has the storage
that is taken beforehand. -/
theorem readEntriesWithin_eq_error_of_le {E : EntryReader σ} {room m n : ℕ} {s t : σ} {e : Error}
    (h : E.readEntriesWithin room f m s = (.error e, t)) (hle : m ≤ n)
    (reserved : min n reserveLimit ≤ room) :
    E.readEntriesWithin room f n s = (.error e, t) := by
  rcases Nat.lt_or_ge room m with hm | hm
  · have hreserved : reserveLimit ≤ room := by omega
    rw [E.readEntriesWithin_of_lt f hreserved hm] at h
    rw [E.readEntriesWithin_of_lt f hreserved (Nat.lt_of_lt_of_le hm hle), h]
  · rw [E.readEntriesWithin_of_le f hm] at h
    rcases Nat.lt_or_ge room n with hn | hn
    · have hreserved : reserveLimit ≤ room := by omega
      rw [E.readEntriesWithin_of_lt f hreserved hn]
      exact ReadM.bind_error (readEntries_eq_error_of_le h (Nat.le_succ_of_le hm))
    · rw [E.readEntriesWithin_of_le f hn]
      exact readEntries_eq_error_of_le h hle

/-- **Runs compose**, for every entry reader and whatever it answers.  If there is room for `m + n`
entries, a run of as many has the result of the two runs one after the other, the entries of both or
the first failure, and leaves the entry reader where they do.  With `n = 1` the second run is a
single entry.  And a run that fails says it all for every longer one that has the storage taken
beforehand.

A run beyond its room is one that fills the room, one entry more, and the report that there is no
storage for it; without the storage taken beforehand it is the report alone. -/
theorem readEntries_compose (E : EntryReader σ) (f : Format) (room : ℕ) :
    (∀ m n, m + n ≤ room → E.readEntriesWithin room f (m + n) = do
      let first ← E.readEntriesWithin room f m
      let second ← E.readEntriesWithin room f n
      return first ++ second) ∧
    (∀ n, n < room → E.readEntriesWithin room f (n + 1) = do
      let entries ← E.readEntriesWithin room f n
      let entry ← E.readEntry f
      return entries.push entry) ∧
    (∀ n s e t, E.readEntriesWithin room f n s = (.error e, t) →
      ∀ n', n ≤ n' → min n' reserveLimit ≤ room →
        E.readEntriesWithin room f n' s = (.error e, t)) ∧
    (∀ n, room < n → reserveLimit ≤ room → E.readEntriesWithin room f n = do
      let _ ← E.readEntriesWithin room f room
      let _ ← E.readEntry f
      throw (.entriesUnstorable (room + 1))) ∧
    ∀ n, room < n → room < reserveLimit →
      E.readEntriesWithin room f n = throw (.entriesUnstorable 1) := by
  refine ⟨fun m n h => ?_, fun n h => ?_, fun n s e t h n' hle hreserved => ?_,
    fun n h hreserved => ?_, fun n h hreserved => ?_⟩
  · rw [E.readEntriesWithin_of_le f h, E.readEntriesWithin_of_le f (Nat.le_of_add_right_le h),
      E.readEntriesWithin_of_le f (Nat.le_of_add_left_le h), readEntries_add]
    simp only [map_eq_pure_bind]
  · rw [E.readEntriesWithin_of_le f h, E.readEntriesWithin_of_le f h.le, readEntries_succ]
    simp only [map_eq_pure_bind]
  · exact readEntriesWithin_eq_error_of_le h hle hreserved
  · rw [E.readEntriesWithin_of_lt f hreserved h, E.readEntriesWithin_of_le f le_rfl,
      readEntries_succ, bind_assoc]
    simp only [bind_map_left]
  · exact E.readEntriesWithin_of_lt_reserve f h hreserved

/-- The sixth call fails, which is in the second entry: two entries cannot be read, and seven fail
with them, at the same call.  The storage for seven is taken beforehand, and two have the same
room. -/
theorem readEntries_compose_failing :
    let pattern : Pattern := {
      start := 7, step := 3, failure := some (5, .reported .readError "gone") }
    let left : Pattern := { pattern with callCount := 6, consumed := 14 }
    Pattern.reader.readEntriesWithin 7 .classic 2 pattern =
        (.error (.reported .readError "gone"), left) ∧
      2 ≤ 7 ∧ min 7 reserveLimit ≤ 7 ∧
      Pattern.reader.readEntriesWithin 7 .classic 7 pattern =
        (.error (.reported .readError "gone"), left) := by
  intro pattern left
  have hfails : Pattern.reader.readEntriesWithin 7 .classic 2 pattern =
      (.error (.reported .readError "gone"), left) := rfl
  obtain ⟨-, -, hlonger, -, -⟩ := readEntries_compose Pattern.reader .classic 7
  exact ⟨hfails, by decide, by decide,
    hlonger 2 pattern _ left hfails 7 (by decide) (by decide)⟩

end EntryReader

end TiffDirectory
