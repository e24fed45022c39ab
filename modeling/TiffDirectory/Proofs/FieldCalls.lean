import Mathlib
import TiffDirectory.Proofs.Layout

/-!
# Proofs/FieldCalls — the calls that a run of entries makes to its entry reader

An entry reader that is asked for the fields of entries over and over is a sequence of calls, each
in the state that the one before it left (`stateBefore`), and a sequence of replies (`reply`).
Neither mentions a decoder.  A run of entries **makes these calls in order and stops after the first
one that fails**: `readEntries_of_reply_error` and `readEntries_of_reply_ok` for its result and the
state, `readEntries_calls` with the record of the calls.
-/

namespace TiffDirectory

variable {σ : Type}

/-! ## The row of fields by number -/

namespace Format

/-- The field that call number `k` asks for: the four fields of an entry, over and over. -/
def fieldAt (f : Format) (k : ℕ) : EntryField :=
  match k % 4 with
  | 0 => .word .u16
  | 1 => .word .u16
  | 2 => .word f.countWidth
  | _ => .bytes f.valueSize

theorem fieldAt_add (f : Format) (n k : ℕ) : f.fieldAt (4 * n + k) = f.fieldAt k := by
  rw [fieldAt, fieldAt, Nat.mul_add_mod]

theorem rowFields_eq_map_range (f : Format) (n : ℕ) :
    f.rowFields n = (List.range (4 * n)).map f.fieldAt := by
  induction n with
  | zero => rfl
  | succ n ih =>
    have hfields : f.rowFields 1 = (List.range 4).map fun k => f.fieldAt (4 * n + k) := by
      simp only [fieldAt_add]
      rfl
    rw [rowFields_add, ih, hfields, Nat.mul_succ, List.range_add, List.map_append, List.map_map]
    rfl

end Format

/-- A row filled for the fields of `n` entries is what `n` entries hold. -/
theorem exists_filledRow_eq {f : Format} {n : ℕ} {row : List FilledField}
    (h : row.map FilledField.field = f.rowFields n) :
    ∃ entries : List (Entry f), entries.length = n ∧ row = filledRow entries := by
  induction n generalizing row with
  | zero =>
    obtain rfl := List.map_eq_nil_iff.1 h
    exact ⟨[], rfl, rfl⟩
  | succ n ih =>
    rw [Format.rowFields_succ] at h
    obtain ⟨first, rest, rfl, hfirst, hrest⟩ := List.map_eq_append_iff.1 h
    obtain ⟨entry, rfl⟩ := Entry.exists_filled_eq hfirst
    obtain ⟨entries, rfl, rfl⟩ := ih hrest
    exact ⟨entry :: entries, rfl, rfl⟩

/-- The fields of entry number `i` stand in the row from `4 * i` on. -/
theorem getElem?_filledRow {f : Format} (entries : List (Entry f)) (i : ℕ) {j : ℕ} (hj : j < 4) :
    (filledRow entries)[4 * i + j]? = entries[i]?.bind (·.filled[j]?) := by
  induction entries generalizing i with
  | nil => rfl
  | cons entry rest ih =>
    have hlength : entry.filled.length = 4 := rfl
    rw [filledRow, List.flatMap_cons]
    cases i with
    | zero =>
      rw [Nat.mul_zero, Nat.zero_add, List.getElem?_append_left (hlength ▸ hj)]
      rfl
    | succ i =>
      rw [List.getElem?_append_right (by omega), hlength]
      have hindex : 4 * (i + 1) + j - 4 = 4 * i + j := by omega
      rw [hindex]
      exact ih i

namespace EntryReader

/-! ## Calls in a row

Each call is made in the state that the one before it left, whether that one failed or not. -/

/-- Asks for a field, and keeps it with what is read. -/
def ask (E : EntryReader σ) (field : EntryField) : ReadM σ FilledField :=
  FilledField.mk field <$> E.readField field

/-- The state in which call number `k` is made. -/
def stateBefore (E : EntryReader σ) (fields : ℕ → EntryField) (s : σ) : ℕ → σ
  | 0 => s
  | k + 1 => (E.ask (fields k) (E.stateBefore fields s k)).2

/-- The reply to call number `k`. -/
def reply (E : EntryReader σ) (fields : ℕ → EntryField) (s : σ) (k : ℕ) : Result FilledField :=
  (E.ask (fields k) (E.stateBefore fields s k)).1

variable {E : EntryReader σ} {fields : ℕ → EntryField} {s : σ} {c m : ℕ} {e : Error}

theorem readField_of_reply_error (h : E.reply fields s c = .error e) :
    E.readField (fields c) (E.stateBefore fields s c) =
      (.error e, E.stateBefore fields s (c + 1)) := by
  rw [reply, ask, ReadM.map_apply] at h
  rw [stateBefore, ask, ReadM.map_apply]
  rcases hread : E.readField (fields c) (E.stateBefore fields s c) with ⟨d | content, t⟩
  · rw [hread] at h
    exact congrArg (Prod.mk · t) (congrArg Except.error (Except.error.inj h))
  · rw [hread] at h
    cases h

theorem gives_of_reply_ok {filled : FilledField} (h : E.reply fields s c = .ok filled) :
    filled.field = fields c ∧
      E.Gives (E.stateBefore fields s c) [filled] (E.stateBefore fields s (c + 1)) := by
  rw [reply, ask, ReadM.map_apply] at h
  rw [stateBefore, ask, ReadM.map_apply]
  rcases hread : E.readField (fields c) (E.stateBefore fields s c) with ⟨d | content, t⟩
  · rw [hread] at h
    cases h
  · rw [hread] at h
    obtain rfl := Except.ok.inj h
    exact ⟨rfl, .cons hread (.nil t)⟩

/-- **As long as no call fails, the replies fill the row of the fields.** -/
theorem exists_row_of_isOk (h : ∀ k < m, (E.reply fields s k).isOk) :
    ∃ row : List FilledField, row.map FilledField.field = (List.range m).map fields ∧
      (List.range m).map (E.reply fields s) = row.map .ok ∧
      E.Gives s row (E.stateBefore fields s m) := by
  induction m with
  | zero => exact ⟨[], rfl, rfl, .nil s⟩
  | succ m ih =>
    obtain ⟨row, hfields, hreplies, hgives⟩ := ih fun k hk => h k (Nat.lt_succ_of_lt hk)
    obtain ⟨filled, hreply⟩ : ∃ filled, E.reply fields s m = .ok filled := by
      have hok := h m (Nat.lt_succ_self m)
      rcases hreply : E.reply fields s m with d | filled
      · rw [hreply] at hok
        cases hok
      · exact ⟨filled, rfl⟩
    obtain ⟨hfield, hlast⟩ := gives_of_reply_ok hreply
    refine ⟨row ++ [filled], ?_, ?_, gives_append_iff.2 ⟨_, hgives, hlast⟩⟩
    · rw [List.range_succ, List.map_append, List.map_append, hfields, List.map_singleton,
        List.map_singleton, hfield]
    · rw [List.range_succ, List.map_append, List.map_append, hreplies, List.map_singleton,
        List.map_singleton, hreply]

/-! ## Runs of entries -/

variable {f : Format} {n : ℕ}

/-- **A run ends with the first call that fails**: its error, and the state that it left. -/
theorem readEntries_of_reply_error (hc : c < 4 * n)
    (hbefore : ∀ k < c, (E.reply f.fieldAt s k).isOk) (hfails : E.reply f.fieldAt s c = .error e) :
    E.readEntries f n s = (.error e, E.stateBefore f.fieldAt s (c + 1)) := by
  obtain ⟨row, hrow, -, hgives⟩ := exists_row_of_isOk hbefore
  have hsplit : f.rowFields n =
      (List.range c).map f.fieldAt ++ f.fieldAt c :: (f.rowFields n).drop (c + 1) := by
    have hlength : c < (f.rowFields n).length := by
      rwa [f.rowFields_eq_map_range, List.length_map, List.length_range]
    have hat : (f.rowFields n)[c] = f.fieldAt c := by
      simp only [f.rowFields_eq_map_range, List.getElem_map, List.getElem_range]
    have htake : (f.rowFields n).take c = (List.range c).map f.fieldAt := by
      rw [f.rowFields_eq_map_range, ← List.map_take, List.take_range, Nat.min_eq_left hc.le]
    rw [← htake, ← hat, ← List.drop_eq_getElem_cons hlength, List.take_append_drop]
  rw [readEntries_eq_error_iff, hsplit, fails_append_iff]
  exact Or.inr ⟨row, _, hrow, hgives, .here (readField_of_reply_error hfails)⟩

/-- **If no call fails, the run gives the entries that the replies fill**, four for each. -/
theorem readEntries_of_reply_ok (h : ∀ k < 4 * n, (E.reply f.fieldAt s k).isOk) :
    ∃ entries : Array (Entry f),
      E.readEntries f n s = (.ok entries, E.stateBefore f.fieldAt s (4 * n)) ∧ entries.size = n ∧
        ∀ i (hi : i < entries.size), ∀ j < 4,
          some (E.reply f.fieldAt s (4 * i + j)) = entries[i].filled[j]?.map .ok := by
  obtain ⟨row, hrow, hreplies, hgives⟩ := exists_row_of_isOk h
  rw [← f.rowFields_eq_map_range] at hrow
  obtain ⟨entries, rfl, rfl⟩ := exists_filledRow_eq hrow
  refine ⟨entries.toArray, readEntries_eq_ok_iff.2 ⟨List.size_toArray, hgives⟩,
    List.size_toArray, fun i hi j hj => ?_⟩
  rw [List.size_toArray] at hi
  have hreply := congrArg (·[4 * i + j]?) hreplies
  simp only [List.getElem?_map] at hreply
  rw [List.getElem?_range (by omega), getElem?_filledRow entries i hj,
    List.getElem?_eq_getElem hi] at hreply
  exact hreply

/-- One entry is a run of one, without the list. -/
theorem readEntries_one (E : EntryReader σ) (f : Format) :
    E.readEntries f 1 = (#[·]) <$> E.readEntry f := by
  rw [readEntries_eq_readMore]
  exact (map_eq_pure_bind _ _).symm

/-! ## The record of a run -/

theorem ask_recorded (E : EntryReader σ) (field : EntryField) (s : Recorded EntryField σ) :
    E.recorded.ask field s =
      ((E.ask field s.source).1, ⟨(E.ask field s.source).2, s.calls.push field⟩) := by
  rw [ask, ask, ReadM.map_apply, ReadM.map_apply]
  cases field <;> rfl

theorem stateBefore_recorded (E : EntryReader σ) (fields : ℕ → EntryField) (s : σ) (k : ℕ) :
    E.recorded.stateBefore fields { source := s } k =
      ⟨E.stateBefore fields s k, ((List.range k).map fields).toArray⟩ := by
  induction k with
  | zero => rfl
  | succ k ih =>
    rw [stateBefore, ask_recorded, ih, stateBefore, List.range_succ, List.map_append,
      List.map_singleton, List.push_toArray]

theorem reply_recorded (E : EntryReader σ) (fields : ℕ → EntryField) (s : σ) (k : ℕ) :
    E.recorded.reply fields { source := s } k = E.reply fields s k := by
  rw [reply, ask_recorded, stateBefore_recorded]
  rfl

/-- The failed call is the last one on the record. -/
theorem recorded_readEntries_of_reply_error (hc : c < 4 * n)
    (hbefore : ∀ k < c, (E.reply f.fieldAt s k).isOk) (hfails : E.reply f.fieldAt s c = .error e) :
    E.recorded.readEntries f n { source := s } =
      (.error e,
        ⟨E.stateBefore f.fieldAt s (c + 1), ((List.range (c + 1)).map f.fieldAt).toArray⟩) := by
  rw [← E.stateBefore_recorded f.fieldAt s (c + 1)]
  refine readEntries_of_reply_error hc (fun k hk => ?_) ?_
  · rw [reply_recorded]
    exact hbefore k hk
  · rw [reply_recorded]
    exact hfails

/-- If no call fails, all of them are on the record, and the replies to four make an entry. -/
theorem recorded_readEntries_of_reply_ok (h : ∀ k < 4 * n, (E.reply f.fieldAt s k).isOk) :
    ∃ entries : Array (Entry f),
      E.recorded.readEntries f n { source := s } = (.ok entries,
        ⟨E.stateBefore f.fieldAt s (4 * n), ((List.range (4 * n)).map f.fieldAt).toArray⟩) ∧
      entries.size = n ∧ ∀ i (hi : i < entries.size),
        E.reply f.fieldAt s (4 * i) = .ok ⟨.word .u16, entries[i].tag⟩ ∧
        E.reply f.fieldAt s (4 * i + 1) = .ok ⟨.word .u16, entries[i].type⟩ ∧
        E.reply f.fieldAt s (4 * i + 2) = .ok ⟨.word f.countWidth, entries[i].count⟩ ∧
        E.reply f.fieldAt s (4 * i + 3) = .ok ⟨.bytes f.valueSize, entries[i].value⟩ := by
  have hreply : E.recorded.reply f.fieldAt { source := s } = E.reply f.fieldAt s :=
    funext (E.reply_recorded f.fieldAt s)
  rw [← hreply] at h ⊢
  obtain ⟨entries, hrun, hsize, hentries⟩ := readEntries_of_reply_ok h
  rw [stateBefore_recorded] at hrun
  refine ⟨entries, hrun, hsize, fun i hi => ?_⟩
  have htold := fun j hj => hentries i hi j hj
  exact ⟨Option.some.inj (htold 0 (by decide)), Option.some.inj (htold 1 (by decide)),
    Option.some.inj (htold 2 (by decide)), Option.some.inj (htold 3 (by decide))⟩

/-- **The calls of a run, for every entry reader.**  They ask for the fields of an entry over and
over.  If one of the first `4 * n` fails, the first that does is the last one made; its error is the
result, and the reader stays as that call left it.  Otherwise these are all the calls, and the entries
hold what the replies told, four for each.  One entry is read like a run of one.

This is so if the entries can be kept.  Where there is room for fewer, the run goes on for one entry
more than that, and reports that it has no storage for it if none of the calls fails; and it makes no
call at all without the storage that is taken beforehand. -/
theorem readEntries_calls (E : EntryReader σ) (s : σ) (f : Format) (n room : ℕ) :
    let reply := E.reply f.fieldAt s
    let after (k : ℕ) : Recorded EntryField σ :=
      ⟨E.stateBefore f.fieldAt s k, ((List.range k).map f.fieldAt).toArray⟩
    let run := E.recorded.readEntriesWithin room f n { source := s }
    (n ≤ room →
      (∀ c < 4 * n, (∀ k < c, (reply k).isOk) → ∀ e, reply c = .error e →
        run = (.error e, after (c + 1))) ∧
      ((∀ k < 4 * n, (reply k).isOk) → ∃ entries : Array (Entry f),
        run = (.ok entries, after (4 * n)) ∧ entries.size = n ∧
          ∀ i (hi : i < entries.size),
            reply (4 * i) = .ok ⟨.word .u16, entries[i].tag⟩ ∧
            reply (4 * i + 1) = .ok ⟨.word .u16, entries[i].type⟩ ∧
            reply (4 * i + 2) = .ok ⟨.word f.countWidth, entries[i].count⟩ ∧
            reply (4 * i + 3) = .ok ⟨.bytes f.valueSize, entries[i].value⟩)) ∧
    (room < n → reserveLimit ≤ room →
      (∀ c < 4 * (room + 1), (∀ k < c, (reply k).isOk) → ∀ e, reply c = .error e →
        run = (.error e, after (c + 1))) ∧
      ((∀ k < 4 * (room + 1), (reply k).isOk) →
        run.1.Unstorable (room + 1) ∧ run.2 = after (4 * (room + 1)))) ∧
    (room < n → room < reserveLimit → run.1.Unstorable 1 ∧ run.2 = after 0) ∧
    (0 < room → E.recorded.readEntriesWithin room f 1 = (#[·]) <$> E.recorded.readEntry f) := by
  intro reply after run
  refine ⟨fun hroom => ⟨?_, fun h => ?_⟩, fun hroom hreserved => ?_,
    fun hroom hreserved => E.recorded.unstorable_of_lt_reserve f hroom hreserved _, fun hroom => ?_⟩
  · intro c hc hbefore e hfails
    have hrun : run = _ := congrFun (E.recorded.readEntriesWithin_of_le f hroom) _
    rw [hrun]
    exact recorded_readEntries_of_reply_error hc hbefore hfails
  · have hrun : run = _ := congrFun (E.recorded.readEntriesWithin_of_le f hroom) _
    rw [hrun]
    exact recorded_readEntries_of_reply_ok h
  · obtain ⟨hcut, hleft⟩ := E.recorded.cutShort_of_lt f hreserved hroom { source := s }
    refine ⟨fun c hc hbefore e hfails => ?_, fun h => ?_⟩
    · rw [recorded_readEntries_of_reply_error hc hbefore hfails] at hcut hleft
      exact Prod.ext (hcut.fails e rfl) hleft
    · obtain ⟨entries, hrun, -, -⟩ := recorded_readEntries_of_reply_ok h
      rw [hrun] at hcut hleft
      exact ⟨hcut.unstorable entries rfl, hleft⟩
  · rw [E.recorded.readEntriesWithin_of_le f hroom]
    exact E.recorded.readEntries_one f

end EntryReader

end TiffDirectory
