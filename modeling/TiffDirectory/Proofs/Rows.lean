import Mathlib
import TiffDirectory.Proofs.FieldCalls
import TiffDirectory.Proofs.Walks

/-!
# Proofs/Rows — fields of any kinds, read in a row

A row of fields is read one after the other, up to the first that fails (`EntryReader.readRow`).
Over a reader that shows fixed bytes this has **two outcomes** (`Bytes.ReadsRow`): the row lies
within the bytes and is stored as its piece of them, or it is cut at a field, and everything before
that field was read.

A field, an entry and a run of entries are rows too, up to what is made of the fields
(`CursorOp.forget_run`).
-/

namespace TiffDirectory

variable {σ : Type}

@[simp] theorem Result.isOk_map {α β : Type} (f : α → β) (result : Result α) :
    isOk (result.map f) = isOk result := by
  cases result <;> rfl

namespace EntryReader

variable {E : EntryReader σ} {s t : σ} {field : EntryField} {fields rest : List EntryField}
  {e : Error}

/-- The fields of a row, one after the other, up to the first that fails. -/
def readRow (E : EntryReader σ) (fields : List EntryField) : ReadM σ (List FilledField) :=
  fields.mapM E.ask

@[simp] theorem readRow_nil : E.readRow [] = pure [] := List.mapM_nil

theorem readRow_cons : E.readRow (field :: rest) = do
    let first ← E.ask field
    let more ← E.readRow rest
    return first :: more :=
  List.mapM_cons

theorem readRow_append {xs ys : List EntryField} : E.readRow (xs ++ ys) = do
    let first ← E.readRow xs
    let second ← E.readRow ys
    return first ++ second :=
  List.mapM_append

theorem ask_eq_ok_iff {filled : FilledField} :
    E.ask field s = (.ok filled, t) ↔
      ∃ content, E.readField field s = (.ok content, t) ∧ ⟨field, content⟩ = filled :=
  ReadM.map_eq_ok_iff

theorem ask_eq_error_iff : E.ask field s = (.error e, t) ↔ E.readField field s = (.error e, t) :=
  ReadM.map_eq_error_iff

theorem readRow_cons_ok {content : field.Content} (h : E.readField field s = (.ok content, t)) :
    E.readRow (field :: rest) s =
      ((E.readRow rest t).1.map (⟨field, content⟩ :: ·), (E.readRow rest t).2) := by
  rw [readRow_cons, ReadM.bind_ok (ask_eq_ok_iff.2 ⟨content, h, rfl⟩), bind_pure_comp,
    ReadM.map_apply]

theorem readRow_cons_error (h : E.readField field s = (.error e, t)) :
    E.readRow (field :: rest) s = (.error e, t) := by
  rw [readRow_cons, ReadM.bind_error (ask_eq_error_iff.2 h)]

/-- **Reading a row succeeds exactly when the row is given.** -/
theorem readRow_eq_ok_iff {row : List FilledField} :
    E.readRow fields s = (.ok row, t) ↔ row.map FilledField.field = fields ∧ E.Gives s row t := by
  induction fields generalizing s t row with
  | nil =>
    simp only [readRow_nil, ReadM.pure_apply, List.map_eq_nil_iff, Prod.mk.injEq, Except.ok.injEq]
    constructor
    · rintro ⟨rfl, rfl⟩
      exact ⟨rfl, .nil s⟩
    · rintro ⟨rfl, given⟩
      exact ⟨rfl, gives_nil_iff.1 given⟩
  | cons field rest ih =>
    simp only [readRow_cons, ReadM.bind_eq_ok_iff, ReadM.pure_apply, ask_eq_ok_iff, ih]
    constructor
    · rintro ⟨_, r, ⟨content, head, rfl⟩, more, _, ⟨rfl, tail⟩, h⟩
      cases h
      exact ⟨rfl, .cons head tail⟩
    · rintro ⟨hrow, given⟩
      cases given with
      | nil => cases hrow
      | cons head tail =>
        obtain ⟨rfl, hrest⟩ := List.cons.inj hrow
        exact ⟨_, _, ⟨_, head, rfl⟩, _, _, ⟨hrest, tail⟩, rfl⟩

/-! ## Fields and entries as rows

What is read is all that a field, an entry and a run do besides answering. -/

theorem forget_readField (E : EntryReader σ) (field : EntryField) :
    (fun _ => ()) <$> E.readField field = (fun _ => ()) <$> E.readRow [field] := by
  simp only [readRow, List.mapM_cons, List.mapM_nil, ask, Functor.map_map, map_pure,
    bind_pure_comp]

theorem forget_readEntry (E : EntryReader σ) (f : Format) :
    (fun _ => ()) <$> E.readEntry f = (fun _ => ()) <$> E.readRow f.fields := by
  simp only [readEntry, readRow, Format.fields, List.mapM_cons, List.mapM_nil, ask, readField,
    map_eq_pure_bind, bind_assoc, pure_bind]

theorem forget_readMore (E : EntryReader σ) {f : Format} (n : ℕ) (done : Array (Entry f)) :
    (fun _ => ()) <$> E.readMore n done = (fun _ => ()) <$> E.readRow (f.rowFields n) := by
  induction n generalizing done with
  | zero => rfl
  | succ n ih =>
    calc (fun _ => ()) <$> E.readMore (n + 1) done
        = E.readEntry f >>= fun entry => (fun _ => ()) <$> E.readMore n (done.push entry) := by
          rw [readMore_succ, map_bind]
      _ = (fun _ => ()) <$> E.readEntry f >>= fun _ =>
            (fun _ => ()) <$> E.readRow (f.rowFields n) := by
          simp only [ih, bind_map_left]
      _ = (fun _ => ()) <$> E.readRow (f.rowFields (n + 1)) := by
          rw [forget_readEntry, Format.rowFields_succ, readRow_append]
          simp only [bind_map_left, map_bind, bind_pure_comp, Functor.map_map]

end EntryReader

/-! ## Operations that read -/

namespace CursorOp

variable {op : CursorOp} {R : Reader σ} {placed left : Cursor × σ} {fields : List EntryField}

/-- **An operation whose parts are fields does what reading their row does**, up to what is made of
the fields. -/
theorem forget_run (R : Reader σ) (h : op.parts = fields.map .read) :
    (fun _ => ()) <$> op.run R = (fun _ => ()) <$> (Cursor.entryReader R).readRow fields := by
  have hinj := List.map_injective_iff.2 fun _ _ => Part.read.inj
  cases op with
  | readWord w =>
    obtain rfl : [.word w] = fields := hinj h
    rw [run, Functor.map_map]
    exact (Cursor.entryReader R).forget_readField (.word w)
  | readBytes n =>
    obtain rfl : [.bytes n] = fields := hinj h
    rw [run, Functor.map_map]
    exact (Cursor.entryReader R).forget_readField (.bytes n)
  | readEntry f =>
    obtain rfl : f.fields = fields := hinj h
    rw [run, Functor.map_map]
    exact (Cursor.entryReader R).forget_readEntry f
  | readEntries f n =>
    obtain rfl : f.rowFields n = fields := hinj h
    rw [run, Functor.map_map, EntryReader.readEntries_eq_readMore]
    exact (Cursor.entryReader R).forget_readMore n #[]
  | seek target => rcases fields with _ | ⟨field, rest⟩ <;> cases h
  | remaining => rcases fields with _ | ⟨field, rest⟩ <;> cases h
  | byteOrder => rcases fields with _ | ⟨field, rest⟩ <;> cases h

theorem exists_run_of_readRow_ok (h : op.parts = fields.map .read) {row : List FilledField}
    (hrow : (Cursor.entryReader R).readRow fields placed = (.ok row, left)) :
    ∃ value, op.run R placed = (.ok value, left) := by
  have hrun : ((fun _ => ()) <$> op.run R) placed = (.ok (), left) := by
    rw [forget_run R h]
    exact ReadM.map_eq_ok_iff.2 ⟨row, hrow, rfl⟩
  obtain ⟨value, hvalue, -⟩ := ReadM.map_eq_ok_iff.1 hrun
  exact ⟨value, hvalue⟩

theorem exists_readRow_of_run_ok (h : op.parts = fields.map .read) {value : Value}
    (hrun : op.run R placed = (.ok value, left)) :
    ∃ row, (Cursor.entryReader R).readRow fields placed = (.ok row, left) := by
  have hrow :
      ((fun _ => ()) <$> (Cursor.entryReader R).readRow fields) placed = (.ok (), left) := by
    rw [← forget_run R h]
    exact ReadM.map_eq_ok_iff.2 ⟨value, hrun, rfl⟩
  obtain ⟨row, hrow, -⟩ := ReadM.map_eq_ok_iff.1 hrow
  exact ⟨row, hrow⟩

theorem run_of_readRow_error (h : op.parts = fields.map .read) {e : Error}
    (hrow : (Cursor.entryReader R).readRow fields placed = (.error e, left)) :
    op.run R placed = (.error e, left) := by
  have hrun : ((fun _ => ()) <$> op.run R) placed = (.error e, left) := by
    rw [forget_run R h]
    exact ReadM.map_eq_error_iff.2 hrow
  exact ReadM.map_eq_error_iff.1 hrun

end CursorOp

/-! ## Rows of fixed bytes -/

/-- **What reading a row of fields comes to** from position `p` of fixed bytes, and the position
after it. -/
inductive Bytes.ReadsRow (medium : Medium) (data : Bytes) (order : ByteOrder) (p : ℕ)
    (fields : List EntryField) : Result (List FilledField) → ℕ → Prop
  | whole {row : List FilledField} {q : ℕ} (fits : EntryField.totalSize fields ≤ data.size - p)
      (filled : row.map FilledField.field = fields)
      (stored : storedRow order row = data.extract p (p + EntryField.totalSize fields))
      (position : q = p + EntryField.totalSize fields) :
      ReadsRow medium data order p fields (.ok row) q
  | cut {before rest : List EntryField} {field : EntryField} {e : Error} {q : ℕ}
      (parts : fields = before ++ field :: rest)
      (fits : EntryField.totalSize before ≤ data.size - p)
      (misses : data.size - p < EntryField.totalSize before + field.size)
      (report : e = data.shortfall medium ⟨q, field.size⟩)
      (position : q = p + EntryField.totalSize before) :
      ReadsRow medium data order p fields (.error e) q

namespace Bytes.ReadsRow

variable {medium : Medium} {data : Bytes} {order : ByteOrder} {p q : ℕ} {field : EntryField}
  {content : field.Content} {fields rest : List EntryField} {result : Result (List FilledField)}

/-- A row after a field that was read. -/
theorem cons (fits : field.size ≤ data.size - p)
    (stored : FilledField.stored order ⟨field, content⟩ = data.extract p (p + field.size))
    (tail : ReadsRow medium data order (p + field.size) rest result q) :
    ReadsRow medium data order p (field :: rest) (result.map (⟨field, content⟩ :: ·)) q := by
  cases tail with
  | whole fits' filled stored' position =>
    rw [Nat.add_assoc] at stored' position
    refine .whole ?_ (congrArg (field :: ·) filled) ?_ position
    · rw [EntryField.totalSize_cons]
      omega
    · rw [storedRow, stored, stored', EntryField.totalSize_cons,
        ← extract_append (Nat.le_add_right _ _) (by omega)]
  | @cut before _ _ _ _ parts fits' misses report position =>
    rw [Nat.add_assoc] at position
    have hparts : field :: rest = (field :: before) ++ _ := congrArg (field :: ·) parts
    refine .cut hparts ?_ ?_ report position
    · rw [EntryField.totalSize_cons]
      omega
    · rw [EntryField.totalSize_cons]
      omega

/-- **A row is read exactly when it lies within the bytes.** -/
theorem isOk_iff (h : ReadsRow medium data order p fields result q) :
    result.isOk ↔ EntryField.totalSize fields ≤ data.size - p := by
  cases h with
  | whole fits => exact ⟨fun _ => fits, fun _ => rfl⟩
  | cut parts fits misses =>
    rw [parts, EntryField.totalSize_append, EntryField.totalSize_cons]
    exact ⟨nofun, fun h => by omega⟩

end Bytes.ReadsRow

namespace Reader.Shows

variable {R : Reader σ} {s : σ} {medium : Medium} {data : Bytes} {cursor : Cursor}
  {field : EntryField}

/-- A field that lies within the bytes is read, and one of no bytes is read anywhere. -/
theorem readField_of_le (h : R.Shows s medium data) (hdata : data.size < 2 ^ 64)
    (fits : field.size ≤ data.size - cursor.position.toNat) :
    ∃ content after t, (Cursor.entryReader R).readField field (cursor, s) =
        (.ok content, (after, t)) ∧
      R.After s t ∧ after.order = cursor.order ∧
      after.position.toNat = cursor.position.toNat + field.size ∧
      FilledField.stored cursor.order ⟨field, content⟩ =
        data.extract cursor.position.toNat (cursor.position.toNat + field.size) := by
  rcases Nat.eq_zero_or_pos field.size with hzero | hpos
  · obtain rfl := EntryField.eq_bytes_zero hzero
    exact ⟨#v[], cursor, s, rfl, .start, rfl, rfl, by simp [FilledField.stored, EntryField.size]⟩
  rcases Cursor.view_or_refuses R cursor s field.size with ⟨view, t, hread, long⟩ | ⟨e, t, hrefuses⟩
  · obtain ⟨content, hfield, hview⟩ := Cursor.readField_of_view hpos hread long
    refine ⟨content, _, t, hfield, .of_read hread, rfl,
      Cursor.toNat_position_advance cursor (by omega), ?_⟩
    obtain ⟨-, rfl⟩ := Bytes.clip_eq_ok_iff.1 (h.reply hread)
    rw [FilledField.FromView, Array.extract_extract, Nat.add_zero, Nat.min_self] at hview
    exact hview
  · obtain ⟨hlt, -⟩ := h.size_lt_stop_of_refuses hpos hrefuses
    rw [Span.stop] at hlt
    dsimp only at hlt
    omega

/-- **A field that does not is not read**, and the cursor stays. -/
theorem readField_of_lt (h : R.Shows s medium data)
    (misses : data.size - cursor.position.toNat < field.size) :
    ∃ t, (Cursor.entryReader R).readField field (cursor, s) =
        (.error (data.shortfall medium ⟨cursor.position.toNat, field.size⟩), (cursor, t)) ∧
      R.After s t := by
  have hpos : 0 < field.size := by omega
  rcases Cursor.view_or_refuses R cursor s field.size with ⟨view, t, hread, long⟩ | ⟨e, t, hrefuses⟩
  · obtain ⟨-, rfl⟩ := Bytes.clip_eq_ok_iff.1 (h.reply hread)
    rw [Array.size_extract] at long
    omega
  · obtain ⟨-, rfl⟩ := h.size_lt_stop_of_refuses hpos hrefuses
    exact ⟨t, Cursor.readField_of_refuses hpos hrefuses, hrefuses.after⟩

/-- **Every outcome of reading a row** over fixed bytes. -/
theorem readsRow (h : R.Shows s medium data) (hdata : data.size < 2 ^ 64) (cursor : Cursor)
    (fields : List EntryField) :
    ∃ result after t, (Cursor.entryReader R).readRow fields (cursor, s) = (result, (after, t)) ∧
      R.After s t ∧ after.order = cursor.order ∧
      data.ReadsRow medium cursor.order cursor.position.toNat fields result
        after.position.toNat := by
  induction fields generalizing cursor s with
  | nil =>
    refine ⟨.ok [], cursor, s, rfl, .start, rfl, .whole (Nat.zero_le _) rfl ?_ rfl⟩
    simp [storedRow]
  | cons field rest ih =>
    rcases Nat.lt_or_ge (data.size - cursor.position.toNat) field.size with misses | fits
    · obtain ⟨t, hfield, hafter⟩ := h.readField_of_lt misses
      refine ⟨_, cursor, t, EntryReader.readRow_cons_error hfield, hafter, rfl,
        .cut (List.nil_append _).symm (Nat.zero_le _) ?_ rfl rfl⟩
      rw [EntryField.totalSize_nil]
      omega
    · obtain ⟨content, next, t, hfield, hafter, horder, hposition, hstored⟩ :=
        h.readField_of_le hdata fits
      obtain ⟨result, last, u, hrest, hafter', horder', htail⟩ := ih (h.after hafter) next
      rw [horder, hposition] at htail
      refine ⟨_, last, u, ?_, hafter.trans hafter', horder'.trans horder, htail.cons fits hstored⟩
      rw [EntryReader.readRow_cons_ok hfield, hrest]

/-- **A row is read exactly when it lies within the bytes.** -/
theorem isOk_readRow_iff (h : R.Shows s medium data) (hdata : data.size < 2 ^ 64)
    (cursor : Cursor) (fields : List EntryField) :
    ((Cursor.entryReader R).readRow fields (cursor, s)).1.isOk ↔
      EntryField.totalSize fields ≤ data.size - cursor.position.toNat := by
  obtain ⟨result, after, t, hrun, -, -, houtcome⟩ := h.readsRow hdata cursor fields
  rw [hrun]
  exact houtcome.isOk_iff

/-- …and then it is stored as its piece of them, and the cursor stops after it. -/
theorem storedRow_of_readRow (h : R.Shows s medium data) (hdata : data.size < 2 ^ 64)
    {fields : List EntryField} {row : List FilledField} {after : Cursor} {t : σ}
    (hrow : (Cursor.entryReader R).readRow fields (cursor, s) = (.ok row, (after, t))) :
    row.map FilledField.field = fields ∧
      storedRow cursor.order row = data.extract cursor.position.toNat
        (cursor.position.toNat + EntryField.totalSize fields) ∧
      after.order = cursor.order ∧
      after.position.toNat = cursor.position.toNat + EntryField.totalSize fields := by
  obtain ⟨result, last, u, hrun, -, horder, houtcome⟩ := h.readsRow hdata cursor fields
  obtain ⟨rfl, hlast⟩ := Prod.mk.inj (hrow.symm.trans hrun)
  obtain ⟨rfl, rfl⟩ := Prod.mk.inj hlast
  cases houtcome with
  | whole fits filled stored position => exact ⟨filled, stored, horder, position⟩

end Reader.Shows

end TiffDirectory
