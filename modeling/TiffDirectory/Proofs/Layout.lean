import Mathlib
import TiffDirectory.Proofs.FieldRuns

/-!
# Proofs/Layout — where the fields of a run lie

Fields that follow one another without gaps lie in spans of the data, each starting where the one
before it stops.  `schedule` lists the spans of a run of entries, four for each.  Starts are plain
numbers: that a position of 64 bits can hold them is something to prove, and not part of the layout.
-/

namespace TiffDirectory

/-- A stretch of data: where it starts, and its number of bytes. -/
structure Span where
  start : ℕ
  width : ℕ
  deriving DecidableEq, Repr

/-- Where a span ends: the position of the first byte after it. -/
def Span.stop (span : Span) : ℕ := span.start + span.width

/-- The spans of fields in a row, the first of which starts at the given position. -/
def layout : ℕ → List EntryField → List Span
  | _, [] => []
  | start, field :: rest => ⟨start, field.size⟩ :: layout (start + field.size) rest

/-- The spans of all the fields of `n` entries in a row. -/
def Format.schedule (f : Format) (start n : ℕ) : List Span := layout start (f.rowFields n)

/-! ## Sizes of rows -/

/-- Only an empty run of bytes has no bytes: every integer has some. -/
theorem EntryField.eq_bytes_zero {field : EntryField} (h : field.size = 0) : field = .bytes 0 := by
  cases field with
  | word w => exact absurd h w.bytes_pos.ne'
  | bytes n => exact congrArg EntryField.bytes h

@[simp] theorem EntryField.totalSize_nil : totalSize [] = 0 := rfl

@[simp] theorem EntryField.totalSize_cons (field : EntryField) (rest : List EntryField) :
    totalSize (field :: rest) = field.size + totalSize rest := rfl

theorem EntryField.totalSize_append (xs ys : List EntryField) :
    totalSize (xs ++ ys) = totalSize xs + totalSize ys := by
  induction xs with
  | nil => simp
  | cons x xs ih => rw [List.cons_append, totalSize_cons, totalSize_cons, ih, Nat.add_assoc]

theorem Format.totalSize_rowFields (f : Format) (n : ℕ) :
    EntryField.totalSize (f.rowFields n) = n * f.entrySize := by
  induction n with
  | zero => rw [Nat.zero_mul]; rfl
  | succ n ih =>
    rw [rowFields_succ, EntryField.totalSize_append, totalSize_fields, ih, Nat.succ_mul,
      Nat.add_comm]

theorem Format.length_rowFields (f : Format) (n : ℕ) : (f.rowFields n).length = 4 * n := by
  induction n with
  | zero => rfl
  | succ n ih =>
    rw [rowFields_succ, List.length_append, ih]
    exact Nat.add_comm 4 (4 * n)

theorem Format.rowFields_add (f : Format) (m n : ℕ) :
    f.rowFields (m + n) = f.rowFields m ++ f.rowFields n := by
  rw [rowFields, ← List.replicate_append_replicate, List.flatten_append]
  rfl

/-- No field of an entry is empty, so every one of them is read. -/
theorem Format.size_pos_of_mem_rowFields {f : Format} {n : ℕ} {field : EntryField}
    (h : field ∈ f.rowFields n) : 0 < field.size := by
  obtain ⟨row, hrow, hfield⟩ := List.mem_flatten.1 h
  obtain rfl := List.eq_of_mem_replicate hrow
  cases f <;> fin_cases hfield <;> decide

/-! ## Spans of rows -/

theorem length_layout (start : ℕ) (fields : List EntryField) :
    (layout start fields).length = fields.length := by
  induction fields generalizing start with
  | nil => rfl
  | cons field rest ih => rw [layout, List.length_cons, List.length_cons, ih]

theorem layout_append (start : ℕ) (xs ys : List EntryField) :
    layout start (xs ++ ys) = layout start xs ++ layout (start + EntryField.totalSize xs) ys := by
  induction xs generalizing start with
  | nil => rfl
  | cons x xs ih =>
    rw [List.cons_append, layout, layout, ih, List.cons_append, EntryField.totalSize_cons,
      Nat.add_assoc]

/-- **The spans of a row lie within the row.** -/
theorem start_le_and_stop_le_of_mem_layout {start : ℕ} {fields : List EntryField} {span : Span}
    (h : span ∈ layout start fields) :
    start ≤ span.start ∧ span.stop ≤ start + EntryField.totalSize fields := by
  induction fields generalizing start with
  | nil => simp [layout] at h
  | cons field rest ih =>
    rw [layout, List.mem_cons] at h
    rw [EntryField.totalSize_cons]
    rcases h with rfl | h
    · exact ⟨Nat.le_refl _, by simp only [Span.stop]; omega⟩
    · have hrest := ih h
      omega

theorem exists_size_eq_of_mem_layout {start : ℕ} {fields : List EntryField} {span : Span}
    (h : span ∈ layout start fields) : ∃ field ∈ fields, field.size = span.width := by
  induction fields generalizing start with
  | nil => simp [layout] at h
  | cons field rest ih =>
    rw [layout, List.mem_cons] at h
    rcases h with rfl | h
    · exact ⟨field, List.mem_cons_self, rfl⟩
    · obtain ⟨found, hfound, hwidth⟩ := ih h
      exact ⟨found, List.mem_cons_of_mem _ hfound, hwidth⟩

@[simp] theorem Format.length_schedule (f : Format) (start n : ℕ) :
    (f.schedule start n).length = 4 * n := by
  rw [schedule, length_layout, length_rowFields]

/-- A run after another one starts where that one stops. -/
theorem Format.schedule_add (f : Format) (start m n : ℕ) :
    f.schedule start (m + n) =
      f.schedule start m ++ f.schedule (start + m * f.entrySize) n := by
  rw [schedule, rowFields_add, layout_append, totalSize_rowFields]
  rfl

theorem Format.schedule_one (f : Format) (start : ℕ) :
    f.schedule start 1 = layout start f.fields := by
  rw [schedule, rowFields_succ]
  exact congrArg (layout start) (List.append_nil _)

theorem Format.stop_le_of_mem_schedule {f : Format} {start n : ℕ} {span : Span}
    (h : span ∈ f.schedule start n) : span.stop ≤ start + n * f.entrySize := by
  rw [← totalSize_rowFields]
  exact (start_le_and_stop_le_of_mem_layout h).2

theorem Format.width_pos_of_mem_schedule {f : Format} {start n : ℕ} {span : Span}
    (h : span ∈ f.schedule start n) : 0 < span.width := by
  obtain ⟨field, hfield, hwidth⟩ := exists_size_eq_of_mem_layout h
  exact hwidth ▸ size_pos_of_mem_rowFields hfield

/-! ## Where data end within a run

Data of `limit` bytes hold the first `(limit - start) / entrySize` records of a run whole, and the
next record up to a field: so **the first span of the run that is not held is one of that record**. -/

/-- The last field of a record ends where the record does. -/
theorem Format.exists_stop_eq (f : Format) (start : ℕ) :
    ∃ span ∈ layout start f.fields, span.stop = start + f.entrySize := by
  refine ⟨⟨start + 2 + 2 + f.countWidth.bytes, f.valueSize⟩, ?_, ?_⟩
  · simp [fields, layout, EntryField.size]
  · rw [Span.stop, entrySize_eq]
    dsimp only
    omega

/-- …and the last field of a run where the run does. -/
theorem Format.exists_stop_eq_of_pos (f : Format) (start : ℕ) {n : ℕ} (hn : 0 < n) :
    ∃ span ∈ f.schedule start n, span.stop = start + n * f.entrySize := by
  obtain ⟨m, rfl⟩ := Nat.exists_eq_add_one_of_ne_zero hn.ne'
  obtain ⟨span, hspan, hstop⟩ := f.exists_stop_eq (start + m * f.entrySize)
  rw [schedule_add, schedule_one]
  refine ⟨span, List.mem_append_right _ hspan, ?_⟩
  rw [hstop, Nat.succ_mul, Nat.add_assoc]

/-- All spans of as many records as fit are held. -/
theorem Format.find?_schedule_eq_none (f : Format) (limit start : ℕ) :
    (f.schedule start ((limit - start) / f.entrySize)).find? (limit < ·.stop) = none := by
  rcases Nat.lt_or_ge limit start with hlt | hle
  · rw [Nat.sub_eq_zero_of_le hlt.le, Nat.zero_div]
    rfl
  · refine List.find?_eq_none.2 fun span hspan hlimit => ?_
    have hstop := stop_le_of_mem_schedule hspan
    have hfits := Nat.div_mul_le_self (limit - start) f.entrySize
    simp only [decide_eq_true_eq] at hlimit
    omega

theorem Format.find?_schedule (f : Format) {limit start n : ℕ} (hn : 0 < n)
    (h : limit < start + n * f.entrySize) :
    (f.schedule start n).find? (limit < ·.stop) =
      (layout (start + (limit - start) / f.entrySize * f.entrySize) f.fields).find?
        (limit < ·.stop) := by
  have hbefore := f.find?_schedule_eq_none limit start
  have hnext := Nat.lt_mul_div_succ (limit - start) f.entrySize_pos
  have hlt : (limit - start) / f.entrySize < n := by
    have hrun := Nat.mul_pos hn f.entrySize_pos
    exact Nat.div_lt_of_lt_mul (by rw [Nat.mul_comm]; omega)
  generalize (limit - start) / f.entrySize = k at hbefore hnext hlt ⊢
  obtain ⟨m, rfl⟩ : ∃ m, n = k + 1 + m := Nat.exists_eq_add_of_le hlt
  have hrecord : ((layout (start + k * f.entrySize) f.fields).find? (limit < ·.stop)).isSome := by
    obtain ⟨span, hspan, hstop⟩ := f.exists_stop_eq (start + k * f.entrySize)
    rw [Nat.mul_comm, Nat.succ_mul] at hnext
    exact List.find?_isSome.2 ⟨span, hspan, by simp only [decide_eq_true_eq]; omega⟩
  rw [schedule_add, schedule_add, schedule_one, List.find?_append, List.find?_append, hbefore,
    Option.none_or, Option.or_of_isSome hrecord]

end TiffDirectory
