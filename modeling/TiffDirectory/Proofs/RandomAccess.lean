import Mathlib
import TiffDirectory.Proofs.Counts
import TiffDirectory.Proofs.Matched
import TiffDirectory.Proofs.OpenFiles

/-!
# Proofs/RandomAccess — a run of entries, and each entry by itself

A reader is **steady** if no read changes a reply.  Over such a reader it does not matter how a
cursor came to a place: entry number `i` of a run is what a cursor of its own reads at the place
`start + i * entrySize` (`entryAt?`), and a run fails where the first of these does
(`getElem_of_readEntries`, `entryAt?_of_readEntries_eq_error`).  Over bytes in memory one may
therefore seek into the middle of a run and read the rest of it (`Source.seek_into_run`).
-/

namespace TiffDirectory

variable {σ : Type}

/-! ## Readers whose replies do not change -/

namespace Reader

/-- The reply to a read is told by the offset and the size alone, whatever was read before. -/
def Steady (R : Reader σ) (s : σ) : Prop :=
  ∀ t, R.After s t → ∀ offset size, (R.read offset size t).1 = (R.read offset size s).1

variable {R : Reader σ} {s t u : σ}

theorem Steady.read_matches (h : R.Steady s) (offset : UInt64) (size : ℕ) :
    (R.read offset size).Matches Eq (fun t u => R.After s t ∧ R.After s u)
      (R.read offset size) := by
  rintro t u ⟨ht, hu⟩
  refine ⟨.of_eq (fun _ => rfl) ?_, ht.read offset size, hu.read offset size⟩
  rw [h t ht, h u hu]

/-- **An entry is the same whatever was read before**, and so is the place where it ends. -/
theorem Steady.readEntry_eq (h : R.Steady s) (ht : R.After s t) (hu : R.After s u) (f : Format)
    (cursor : Cursor) :
    let E := Cursor.entryReader R
    (E.readEntry f (cursor, t)).1 = (E.readEntry f (cursor, u)).1 ∧
      (E.readEntry f (cursor, t)).2.1 = (E.readEntry f (cursor, u)).2.1 := by
  have hfields := Cursor.entryReader_matches (fun _ => rfl) h.read_matches
  obtain ⟨halike, hcursor, -⟩ :=
    EntryReader.readEntry_matches hfields f (cursor, t) (cursor, u) ⟨rfl, ht, hu⟩
  exact ⟨halike.eq, hcursor⟩

end Reader

namespace Cursor

variable {R : Reader σ} {s t : σ} {limit n : ℕ} {f : Format} {cursor after : Cursor}

/-! ## Entries by their places -/

/-- What a cursor of its own reads for the entry at a place, and where it ends.  There is no cursor
at a place that 64 bits cannot tell. -/
def entryAt? (R : Reader σ) (order : ByteOrder) (f : Format) (place : ℕ) (s : σ) :
    Option (Result (Entry f) × Cursor) :=
  if place < 2 ^ 64 then
    let (result, (after, _)) := (entryReader R).readEntry f ({ order, position := .ofNat place }, s)
    some (result, after)
  else none

theorem entryAt?_eq_some (R : Reader σ) {order : ByteOrder} {place : ℕ}
    (horder : cursor.order = order) (hplace : cursor.position.toNat = place) (s : σ) :
    entryAt? R order f place s =
      some (((entryReader R).readEntry f (cursor, s)).1,
        ((entryReader R).readEntry f (cursor, s)).2.1) := by
  subst horder hplace
  rw [entryAt?, if_pos cursor.position.toNat_lt, UInt64.ofNat_toNat]

variable {states : ℕ → σ}

/-- **Each entry of a run that succeeds is the one at its place**, also when it is read at another
time. -/
theorem getElem_of_readEntries (hlimit : limit < 2 ^ 64) (hviews : R.ViewsWithin s limit)
    (hsteady : R.Steady s) (hstates : ∀ i, R.After s (states i)) {entries : Array (Entry f)}
    (h : (entryReader R).readEntries f n (cursor, s) = (.ok entries, (after, t))) (i : ℕ)
    (hi : i < entries.size) :
    ∃ last, entryAt? R cursor.order f (cursor.position.toNat + i * f.entrySize) (states i) =
      some (.ok entries[i], last) := by
  induction n generalizing entries after t with
  | zero =>
    obtain ⟨hsize, -⟩ := EntryReader.readEntries_eq_ok_iff.1 h
    omega
  | succ n ih =>
    rw [EntryReader.readEntries_succ] at h
    obtain ⟨before, ⟨next, u⟩, hrun, hlast⟩ := ReadM.bind_eq_ok_iff.1 h
    obtain ⟨hsize, horder, hposition, -⟩ := serves_of_readEntries_eq_ok hlimit hviews hrun
    obtain ⟨entry, hentry, rfl⟩ := ReadM.map_eq_ok_iff.1 hlast
    rcases Nat.lt_or_ge i before.size with hlt | hge
    · rw [Array.getElem_push_lt hlt]
      exact ih hrun hlt
    · obtain rfl : i = n := by
        rw [Array.size_push] at hi
        omega
      have hnext := after_of_readEntries hlimit hviews hrun
      have hsame := hsteady.readEntry_eq (hstates i) hnext f next
      have hread : (before.push entry)[i] = entry := by
        simp only [← hsize, Array.getElem_push_eq]
      rw [entryAt?_eq_some R horder hposition, hsame.1, hsame.2, hentry, hread]
      exact ⟨after, rfl⟩

/-- **A run that fails does so in the first entry that cannot be read by itself**, with its error
and where its reading ends. -/
theorem entryAt?_of_readEntries_eq_error (hlimit : limit < 2 ^ 64) (hviews : R.ViewsWithin s limit)
    (hsteady : R.Steady s) (hstates : ∀ i, R.After s (states i)) {e : Error}
    (h : (entryReader R).readEntries f n (cursor, s) = (.error e, (after, t))) :
    let entryAt (i : ℕ) :=
      entryAt? R cursor.order f (cursor.position.toNat + i * f.entrySize) (states i)
    ∃ i < n, entryAt i = some (.error e, after) ∧
      ∀ j < i, ∃ entry last, entryAt j = some (.ok entry, last) := by
  intro entryAt
  induction n with
  | zero => cases h
  | succ n ih =>
    rw [EntryReader.readEntries_succ] at h
    rcases ReadM.bind_eq_error_iff.1 h with hrun | ⟨before, ⟨next, u⟩, hrun, hlast⟩
    · obtain ⟨i, hi, hfails⟩ := ih hrun
      exact ⟨i, Nat.lt_succ_of_lt hi, hfails⟩
    · obtain ⟨hsize, horder, hposition, -⟩ := serves_of_readEntries_eq_ok hlimit hviews hrun
      have hentry := ReadM.map_eq_error_iff.1 hlast
      have hnext := after_of_readEntries hlimit hviews hrun
      have hsame := hsteady.readEntry_eq (hstates n) hnext f next
      refine ⟨n, Nat.lt_succ_self n, ?_, fun j hj => ?_⟩
      · dsimp only [entryAt]
        rw [entryAt?_eq_some R horder hposition, hsame.1, hsame.2, hentry]
      · obtain ⟨last, hread⟩ := getElem_of_readEntries hlimit hviews hsteady hstates hrun j
          (hsize ▸ hj)
        exact ⟨_, last, hread⟩

/-- **A run goes as the entries at its places do**, each read by itself: it succeeds if all of them
can be read, and gives them, and else it fails as the first that cannot. -/
structure GoesSingly (entryAt : ℕ → Option (Result (Entry f) × Cursor)) (n : ℕ)
    (result : Result (Array (Entry f))) (after : Cursor) : Prop where
  succeeds_iff : (∃ entries, result = .ok entries) ↔
    ∀ i < n, ∃ entry last, entryAt i = some (.ok entry, last)
  entries : ∀ entries, result = .ok entries → entries.size = n ∧
    ∀ i (hi : i < entries.size), ∃ last, entryAt i = some (.ok entries[i], last)
  error : ∀ e, result = .error e → ∃ i < n, entryAt i = some (.error e, after) ∧
    ∀ j < i, ∃ entry last, entryAt j = some (.ok entry, last)

theorem goesSingly_of_steady (hlimit : limit < 2 ^ 64) (hviews : R.ViewsWithin s limit)
    (hsteady : R.Steady s) (hstates : ∀ i, R.After s (states i)) (f : Format) (n : ℕ)
    (cursor : Cursor) :
    let run := (entryReader R).readEntries f n (cursor, s)
    GoesSingly (fun i => entryAt? R cursor.order f (cursor.position.toNat + i * f.entrySize)
      (states i)) n run.1 run.2.1 := by
  intro run
  rcases hrun : run with ⟨e | all, after, left⟩
  · obtain ⟨i, hi, hfails, hbefore⟩ :=
      entryAt?_of_readEntries_eq_error hlimit hviews hsteady hstates hrun
    refine ⟨⟨nofun, fun h => ?_⟩, nofun, fun d hd => ?_⟩
    · obtain ⟨entry, last, hread⟩ := h i hi
      cases hfails.symm.trans hread
    · obtain rfl := Except.error.inj hd
      exact ⟨i, hi, hfails, hbefore⟩
  · have hsize := (EntryReader.readEntries_eq_ok_iff.1 hrun).1
    have hall := getElem_of_readEntries hlimit hviews hsteady hstates hrun
    refine ⟨⟨fun _ i hi => ?_, fun _ => ⟨all, rfl⟩⟩, fun entries h => ?_, nofun⟩
    · obtain ⟨last, hread⟩ := hall i (hsize ▸ hi)
      exact ⟨_, last, hread⟩
    · obtain rfl := Except.ok.inj h
      exact ⟨hsize, hall⟩

end Cursor

/-! ## Bytes in memory -/

namespace Source

variable {fs : FileSystem} {source left : Source} {data : Bytes} {f : Format} {k n : ℕ}
  {cursor other after : Cursor}

theorem size_of_memory? (h : source.memory? = some data) (hdata : data.size < 2 ^ 64) :
    (reader fs).size source = (.ok (.ofNat data.size), source) := by
  refine Prod.ext (Holds.memory h hdata : source.Holds fs _ _ _).size_fst ?_
  cases source with
  | view v => rfl
  | buffer b => rfl
  | file state => cases h
  | faulty state => cases h

theorem readEntries_left_of_memory? (h : source.memory? = some data) (hdata : data.size < 2 ^ 64)
    (fs : FileSystem) (f : Format) (n : ℕ) (cursor : Cursor) :
    ((Cursor.entryReader (reader fs)).readEntries f n (cursor, source)).2.2 = source := by
  rcases hrun : (Cursor.entryReader (reader fs)).readEntries f n (cursor, source)
    with ⟨result, after, left⟩
  exact eq_of_after_of_memory? h
    (Cursor.after_of_readEntries hdata (shows_of_memory? h).viewsWithin hrun)

/-- **One may seek into a run.**  Where a run of `k + n` entries can be read, any cursor of the same
byte order can be sent to entry number `k` of it, and reads the last `n` entries from there, up to
the end of the run. -/
theorem seek_into_run (hsource : source.memory? = some data) (hdata : data.size < 2 ^ 64)
    (hpos : 0 < k + n) (horder : other.order = cursor.order) {entries : Array (Entry f)}
    (h : (Cursor.entryReader (reader fs)).readEntries f (k + n) (cursor, source) =
      (.ok entries, (after, left))) :
    ∃ target moved, target.toNat = cursor.position.toNat + k * f.entrySize ∧
      Cursor.seek (reader fs) target (other, left) = (.ok (), (moved, left)) ∧
      (Cursor.entryReader (reader fs)).readEntries f n (moved, left) =
        (.ok (entries.extract k (k + n)), (after, left)) := by
  have hviews : (reader fs).ViewsWithin source data.size := (shows_of_memory? hsource).viewsWithin
  have hleft := readEntries_left_of_memory? hsource hdata fs f (k + n) cursor
  rw [h] at hleft
  have hfits := Cursor.stop_le_of_readEntries_eq_ok hdata hviews hpos h
  rw [EntryReader.readEntries_add] at h
  obtain ⟨first, ⟨next, t⟩, hfirst, hrest⟩ := ReadM.bind_eq_ok_iff.1 h
  have ht := readEntries_left_of_memory? hsource hdata fs f k cursor
  rw [hfirst] at ht
  dsimp only at hleft ht
  rw [ht] at hrest
  obtain ⟨hsize, hnext, hposition, -⟩ := Cursor.serves_of_readEntries_eq_ok hdata hviews hfirst
  rw [hleft] at hrest ⊢
  refine ⟨next.position, next, hposition, ?_, ?_⟩
  · have hinside : ¬UInt64.ofNat data.size < next.position := by
      rw [UInt64.lt_iff_toNat_lt, UInt64.toNat_ofNat_of_lt' hdata, hposition]
      rw [Nat.add_mul] at hfits
      omega
    have hmoved : { other with position := next.position } = next := by
      rw [horder, ← hnext]
    rw [Cursor.seek_of_size (size_of_memory? hsource hdata), if_neg hinside, hmoved]
  · obtain ⟨second, hsecond, rfl⟩ := ReadM.map_eq_ok_iff.1 hrest
    obtain ⟨hn, -⟩ := EntryReader.readEntries_eq_ok_iff.1 hsecond
    rw [hsecond, ← hsize, ← hn, Array.extract_append_right, Array.extract_size]

end Source

/-! ## A reader with faults

Only the call that is to fail tells one call from another. -/

namespace FaultyReader

theorem eq_of_after {s t : FaultyReader} (h : reader.After s t) :
    t = { s with callCount := t.callCount } := by
  induction h with
  | start => rfl
  | @read t _ _ _ ih =>
    change { t with callCount := t.callCount + 1 } = { s with callCount := t.callCount + 1 }
    rw [ih]

/-- **Without a call that fails, a faulty reader is steady**, however short its views are. -/
theorem steady {s : FaultyReader} (h : s.readFailure = none) : reader.Steady s := by
  intro t hafter offset size
  have hreply : ∀ u : FaultyReader, u.readFailure = none →
      (reader.read offset size u).1 = .ok (u.view offset size) := by
    intro u hu
    change u.reply offset size = _
    rw [reply, hu]
  rw [eq_of_after hafter, hreply s h]
  exact hreply _ h

end FaultyReader

/-! ## Both ways to an entry -/

/-- **Sequential and random access agree.**  Let the replies of a reader depend on the offset and
the size alone, be they short views or failures, and let no view reach past `limit` bytes.  Then a
run of `n` entries that can be kept succeeds exactly if each of them can be read by a cursor of its
own at its place, whenever that is done, and gives these entries; else it has the error and the
position of the first that cannot.  Where there is room for fewer, this is so for one entry more than
that, and if all of them can be read, the report is that there is no storage for the last; without
the storage that is taken beforehand nothing is read.

Over bytes in memory, any cursor can therefore be sent into a run that can be read, and reads the
rest of it. -/
theorem readEntries_agrees_with_entryAt :
    (∀ (σ : Type) (R : Reader σ) (s : σ) (limit : ℕ), limit < 2 ^ 64 → R.ViewsWithin s limit →
      R.Steady s → ∀ states : ℕ → σ, (∀ i, R.After s (states i)) →
      ∀ (f : Format) (n room : ℕ) (cursor : Cursor),
        let run := (Cursor.entryReader R).readEntriesWithin room f n (cursor, s)
        let entryAt (i : ℕ) := Cursor.entryAt? R cursor.order f
          (cursor.position.toNat + i * f.entrySize) (states i)
        (n ≤ room → Cursor.GoesSingly entryAt n run.1 run.2.1) ∧
        (room < n → EntryReader.reserveLimit ≤ room → ∃ first, run.1.CutShort room first ∧
          Cursor.GoesSingly entryAt (room + 1) first run.2.1) ∧
        (room < n → room < EntryReader.reserveLimit →
          run.1.Unstorable 1 ∧ run.2 = (cursor, s))) ∧
    ∀ (fs : FileSystem) (source : Source) (data : Bytes), source.memory? = some data →
      data.size < 2 ^ 64 → ∀ (f : Format) (k n room : ℕ), 0 < k + n → ∀ cursor other : Cursor,
      other.order = cursor.order → ∀ (entries : Array (Entry f)) (after : Cursor) (left : Source),
      (Cursor.entryReader (Source.reader fs)).readEntriesWithin room f (k + n) (cursor, source) =
          (.ok entries, (after, left)) →
        ∃ target moved, target.toNat = cursor.position.toNat + k * f.entrySize ∧
          Cursor.seek (Source.reader fs) target (other, left) = (.ok (), (moved, left)) ∧
          (Cursor.entryReader (Source.reader fs)).readEntriesWithin room f n (moved, left) =
            (.ok (entries.extract k (k + n)), (after, left)) := by
  constructor
  · intro σ R s limit hlimit hviews hsteady states hstates f n room cursor run entryAt
    have hsingly := fun m =>
      Cursor.goesSingly_of_steady hlimit hviews hsteady hstates f m cursor
    refine ⟨fun hroom => ?_, fun hroom hreserved => ?_, fun hroom hreserved =>
      (Cursor.entryReader R).unstorable_of_lt_reserve f hroom hreserved (cursor, s)⟩
    · have hrun : run = _ := congrFun ((Cursor.entryReader R).readEntriesWithin_of_le f hroom) _
      rw [hrun]
      exact hsingly n
    · obtain ⟨hcut, hleft⟩ :=
        (Cursor.entryReader R).cutShort_of_lt f hreserved hroom (cursor, s)
      refine ⟨_, hcut, ?_⟩
      rw [hleft]
      exact hsingly (room + 1)
  · intro fs source data hsource hdata f k n room hpos cursor other horder entries after left h
    obtain ⟨hroom, hall⟩ := EntryReader.readEntriesWithin_eq_ok_iff.1 h
    obtain ⟨target, moved, htarget, hmoved, hrest⟩ :=
      Source.seek_into_run hsource hdata hpos horder hall
    exact ⟨target, moved, htarget, hmoved, EntryReader.readEntriesWithin_eq_ok_iff.2
      ⟨Nat.le_of_add_left_le hroom, hrest⟩⟩

/-- Of thirty bytes the third entry from position 3 on is cut short, for a run and for a cursor at
its place.  The two before it can be read, and a cursor that stands past the end is sent to the
second. -/
theorem readEntries_agrees_with_entryAt_cut :
    let bytes : Bytes := Array.ofFn fun i : Fin 30 => .ofNat i
    let first : Entry .classic := ⟨0x0304, 0x0506, 0x0708090A, #v[11, 12, 13, 14]⟩
    let second : Entry .classic := ⟨0x0F10, 0x1112, 0x13141516, #v[23, 24, 25, 26]⟩
    let s : FaultyReader := { bytes, surplus := 3 }
    let cursor : Cursor := { order := .big, position := 3 }
    let run := (Cursor.entryReader FaultyReader.reader).readEntriesWithin 3 .classic 3 (cursor, s)
    let source : Source := .buffer ⟨bytes⟩
    let E := Cursor.entryReader (Source.reader .empty)
    s.bytes.size < 2 ^ 64 ∧ FaultyReader.reader.ViewsWithin s s.bytes.size ∧
      FaultyReader.reader.Steady s ∧ run.1 = .error (.truncatedField 29 2 1) ∧
      Cursor.GoesSingly (fun i => Cursor.entryAt? FaultyReader.reader cursor.order .classic
        (cursor.position.toNat + i * Format.classic.entrySize) s) 3 run.1 run.2.1 ∧
      E.readEntriesWithin 2 .classic 2 (cursor, source) =
        (.ok #[first, second], ({ cursor with position := 27 }, source)) ∧
      ∃ target moved, target.toNat = 15 ∧
        Cursor.seek (Source.reader .empty) target ({ cursor with position := 99 }, source) =
          (.ok (), (moved, source)) ∧
        E.readEntriesWithin 2 .classic 1 (moved, source) =
          (.ok #[second], ({ cursor with position := 27 }, source)) := by
  intro bytes first second s cursor run source E
  have hsize : s.bytes.size < 2 ^ 64 := by decide
  have hsteady : FaultyReader.reader.Steady s := FaultyReader.steady rfl
  have hsource : source.memory? = some bytes := rfl
  -- The run stays folded: a projection of it that is unified with another term would be evaluated.
  subst run E
  have hleft := Source.readEntries_left_of_memory? hsource hsize .empty .classic 2 cursor
  have hboth : (Cursor.entryReader (Source.reader .empty)).readEntries .classic 2 (cursor, source) =
      (.ok #[first, second], ({ cursor with position := 27 }, source)) :=
    Prod.ext (by decide +kernel) (Prod.ext (by decide +kernel) hleft)
  have hkept := EntryReader.readEntriesWithin_eq_ok_iff.2 ⟨le_refl 2, hboth⟩
  obtain ⟨hsingly, hseek⟩ := readEntries_agrees_with_entryAt
  obtain ⟨hrun, -, -⟩ := hsingly _ FaultyReader.reader s _ hsize s.viewsWithin hsteady (fun _ => s)
    (fun _ => .start) .classic 3 3 cursor
  obtain ⟨target, moved, htarget, hmoved, hrest⟩ := hseek .empty source bytes hsource hsize .classic
    1 1 2 (by decide) cursor { cursor with position := 99 } rfl _ _ _ hkept
  have hsecond : #[first, second].extract 1 (1 + 1) = #[second] := by decide
  rw [hsecond] at hrest
  exact ⟨hsize, s.viewsWithin, hsteady, by decide +kernel, hrun le_rfl, hkept, target, moved,
    htarget.trans (by decide), hmoved, hrest⟩

end TiffDirectory
