import Mathlib
import TiffDirectory.EntryReader

/-!
# Proofs/Storage — a run of entries, and the room for them

What a run reads has nothing to do with where it keeps it.  **A run that has room for its entries
is one entry after the other and no more** (`readMore`, `readEntriesWithin_of_le`); one that has not
reads **a single entry more than it can keep**, and reports that there is no storage for it, unless
reading failed before (`readEntriesWithin_of_lt`).  Only a run that cannot even have the storage
that is taken beforehand reads nothing (`readEntriesWithin_of_lt_reserve`).  So what is known of
runs that can keep their entries (`readEntries`) tells all about the others.
-/

namespace TiffDirectory

variable {σ α : Type}

/-! ## What is reported when there is no room -/

namespace Result

/-- The failure to find storage for so many entries. -/
def Unstorable (count : ℕ) (result : Result α) : Prop :=
  ∃ e, result = .error e ∧ e.code = .outOfBounds ∧
    e.message = s!"Cannot allocate {count} directory entries"

theorem unstorable_error (count : ℕ) :
    Unstorable count (.error (.entriesUnstorable count) : Result α) :=
  ⟨_, rfl, rfl, rfl⟩

/-- The result where there is room for `room` entries only, and `first` is what reading one more
than that comes to: the same failure if it is one, and else that entry is reported to have no
storage. -/
structure CutShort (room : ℕ) (result first : Result α) : Prop where
  fails : ∀ e, first = .error e → result = .error e
  unstorable : ∀ a, first = .ok a → result.Unstorable (room + 1)

end Result

namespace EntryReader

variable {f : Format} {room n : ℕ}

/-! ## Reading without a thought of storage -/

/-- `n` more entries after those already read, wherever they are kept. -/
def readMore (E : EntryReader σ) : (n : ℕ) → (done : Array (Entry f)) → ReadM σ (Array (Entry f))
  | 0, done => return done
  | n + 1, done => do
    let entry ← E.readEntry f
    E.readMore n (done.push entry)

@[simp] theorem readMore_zero (E : EntryReader σ) (done : Array (Entry f)) :
    E.readMore 0 done = pure done := rfl

@[simp] theorem readMore_succ (E : EntryReader σ) (n : ℕ) (done : Array (Entry f)) :
    E.readMore (n + 1) done = E.readEntry f >>= fun entry => E.readMore n (done.push entry) := rfl

/-! ## Enough room -/

theorem readMoreWithin_of_le (E : EntryReader σ) {done : Array (Entry f)}
    (h : done.size + n ≤ room) : E.readMoreWithin room n done = E.readMore n done := by
  induction n generalizing done with
  | zero => rw [readMoreWithin_zero, readMore_zero]
  | succ n ih =>
    rw [readMoreWithin_succ, readMore_succ]
    congr 1
    funext entry
    rw [if_pos (by omega), ih (by rw [Array.size_push]; omega)]

theorem readEntriesWithin_eq_readMore (E : EntryReader σ) (f : Format) (h : n ≤ room) :
    E.readEntriesWithin room f n = E.readMore n #[] := by
  rw [readEntriesWithin, if_neg (by omega)]
  exact E.readMoreWithin_of_le (by rwa [Array.size_empty, Nat.zero_add])

theorem readEntries_eq_readMore (E : EntryReader σ) (f : Format) (n : ℕ) :
    E.readEntries f n = E.readMore n #[] :=
  E.readEntriesWithin_eq_readMore f le_rfl

/-- **Room beyond the number of entries makes no difference.** -/
theorem readEntriesWithin_of_le (E : EntryReader σ) (f : Format) (h : n ≤ room) :
    E.readEntriesWithin room f n = E.readEntries f n := by
  rw [readEntriesWithin_eq_readMore E f h, readEntries_eq_readMore]

/-! ## Not enough room -/

/-- Where there is room for `k` more entries only, one is read after them and finds none. -/
theorem readMoreWithin_of_lt (E : EntryReader σ) {done : Array (Entry f)} {k : ℕ}
    (hk : done.size + k = room) (h : k < n) :
    E.readMoreWithin room n done =
      E.readMore (k + 1) done >>= fun _ => throw (.entriesUnstorable (room + 1)) := by
  obtain ⟨n, rfl⟩ := Nat.exists_eq_add_one_of_ne_zero (Nat.ne_zero_of_lt h)
  induction k generalizing done n with
  | zero =>
    obtain rfl : done.size = room := hk
    rw [readMoreWithin_succ, readMore_succ, bind_assoc]
    congr 1
    funext entry
    rw [if_neg (Nat.lt_irrefl _), readMore_zero, pure_bind]
  | succ k ih =>
    obtain ⟨n, rfl⟩ := Nat.exists_eq_add_one_of_ne_zero (n := n) (by omega)
    rw [readMoreWithin_succ, readMore_succ, bind_assoc]
    congr 1
    funext entry
    rw [if_pos (by omega), ih (by rw [Array.size_push]; omega) n (by omega)]

/-- **A run beyond its room reads one entry more than it can keep.** -/
theorem readEntriesWithin_of_lt (E : EntryReader σ) (f : Format) (reserved : reserveLimit ≤ room)
    (h : room < n) :
    E.readEntriesWithin room f n =
      E.readEntries f (room + 1) >>= fun _ => throw (.entriesUnstorable (room + 1)) := by
  rw [readEntriesWithin, if_neg (by omega), readEntries_eq_readMore]
  exact E.readMoreWithin_of_lt (by rw [Array.size_empty, Nat.zero_add]) h

/-- What such a run leaves is what those entries leave, whether they can be read or not. -/
theorem cutShort_of_lt (E : EntryReader σ) (f : Format) (reserved : reserveLimit ≤ room)
    (h : room < n) (s : σ) :
    (E.readEntriesWithin room f n s).1.CutShort room (E.readEntries f (room + 1) s).1 ∧
      (E.readEntriesWithin room f n s).2 = (E.readEntries f (room + 1) s).2 := by
  rw [E.readEntriesWithin_of_lt f reserved h]
  rcases hfirst : E.readEntries f (room + 1) s with ⟨e | entries, t⟩
  · rw [ReadM.bind_error hfirst]
    exact ⟨⟨fun _ => id, nofun⟩, rfl⟩
  · rw [ReadM.bind_ok hfirst]
    exact ⟨⟨nofun, fun _ _ => Result.unstorable_error _⟩, rfl⟩

/-- **Without the storage that is taken beforehand, nothing is read.** -/
theorem readEntriesWithin_of_lt_reserve (E : EntryReader σ) (f : Format) (h : room < n)
    (unreserved : room < reserveLimit) :
    E.readEntriesWithin room f n = throw (.entriesUnstorable 1) :=
  if_pos (lt_min h unreserved)

theorem unstorable_of_lt_reserve (E : EntryReader σ) (f : Format) (h : room < n)
    (unreserved : room < reserveLimit) (s : σ) :
    (E.readEntriesWithin room f n s).1.Unstorable 1 ∧ (E.readEntriesWithin room f n s).2 = s := by
  rw [E.readEntriesWithin_of_lt_reserve f h unreserved]
  exact ⟨Result.unstorable_error 1, rfl⟩

end EntryReader

end TiffDirectory
