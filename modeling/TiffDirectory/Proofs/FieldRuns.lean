import Mathlib
import TiffDirectory.Proofs.Storage

/-!
# Proofs/FieldRuns — a run of entries is one flat row of fields

`readEntries` nests two loops, the entries and the fields of each, but what an entry reader sees is
a single row of fields (`Format.rowFields`).  Two relations describe how such a row is asked for:

* `Gives` — every field of the row is given, with the contents that it is filled with;
* `Fails` — some field of the row fails, all those before it having been given.

`readEntries_eq_ok_iff` and `readEntries_eq_error_iff` say that a run of entries succeeds exactly
along the first and fails exactly along the second, whatever the entry reader does.
-/

namespace TiffDirectory

/-! ## Fields and what fills them -/

/-- What can be read for a field. -/
abbrev EntryField.Content : EntryField → Type
  | .word w => Word w
  | .bytes n => Vector UInt8 n

/-- A field together with what was read for it. -/
structure FilledField where
  field : EntryField
  content : field.Content

/-- The fields of `n` entries in a row. -/
def Format.rowFields (f : Format) (n : ℕ) : List EntryField := (List.replicate n f.fields).flatten

theorem Format.rowFields_succ (f : Format) (n : ℕ) :
    f.rowFields (n + 1) = f.fields ++ f.rowFields n := by
  rw [rowFields, List.replicate_succ, List.flatten_cons]
  rfl

namespace Entry

variable {f : Format}

/-- The fields of an entry, filled with what the entry holds. -/
def filled (entry : Entry f) : List FilledField :=
  [⟨.word .u16, entry.tag⟩, ⟨.word .u16, entry.type⟩, ⟨.word f.countWidth, entry.count⟩,
    ⟨.bytes f.valueSize, entry.value⟩]

@[simp] theorem map_field_filled (entry : Entry f) :
    entry.filled.map FilledField.field = f.fields := rfl

/-- Whatever fills the fields of an entry is an entry. -/
theorem exists_filled_eq {row : List FilledField} (h : row.map FilledField.field = f.fields) :
    ∃ entry : Entry f, row = entry.filled := by
  match row, h with
  | [⟨_, tag⟩, ⟨_, type⟩, ⟨_, count⟩, ⟨_, value⟩], h =>
    simp only [List.map_cons, List.map_nil, Format.fields, List.cons.injEq, and_true] at h
    obtain ⟨rfl, rfl, rfl, rfl⟩ := h
    exact ⟨⟨tag, type, count, value⟩, rfl⟩

end Entry

/-- The fields of entries in a row, filled with what the entries hold. -/
def filledRow {f : Format} (entries : List (Entry f)) : List FilledField :=
  entries.flatMap Entry.filled

theorem map_field_filledRow {f : Format} (entries : List (Entry f)) :
    (filledRow entries).map FilledField.field = f.rowFields entries.length := by
  induction entries with
  | nil => rfl
  | cons entry rest ih =>
    rw [filledRow, List.flatMap_cons, List.map_append, Entry.map_field_filled, List.length_cons,
      Format.rowFields_succ]
    exact congrArg (f.fields ++ ·) ih

namespace EntryReader

variable {σ : Type}

/-- Asks for one field. -/
def readField (E : EntryReader σ) : (field : EntryField) → ReadM σ field.Content
  | .word w => E.readWord w
  | .bytes n => E.readBytes n

/-- The entry reader gives the fields of a row one after the other, with these contents. -/
inductive Gives (E : EntryReader σ) : σ → List FilledField → σ → Prop
  | nil (s : σ) : Gives E s [] s
  | cons {s t u : σ} {field : EntryField} {content : field.Content} {rest : List FilledField}
      (head : E.readField field s = (.ok content, t)) (tail : Gives E t rest u) :
      Gives E s (⟨field, content⟩ :: rest) u

/-- Asked for the fields of a row one after the other, the entry reader fails at one of them. -/
inductive Fails (E : EntryReader σ) : σ → List EntryField → Error → σ → Prop
  | here {s t : σ} {field : EntryField} {rest : List EntryField} {e : Error}
      (head : E.readField field s = (.error e, t)) : Fails E s (field :: rest) e t
  | later {s t u : σ} {field : EntryField} {content : field.Content} {rest : List EntryField}
      {e : Error} (head : E.readField field s = (.ok content, t)) (tail : Fails E t rest e u) :
      Fails E s (field :: rest) e u

variable {E : EntryReader σ} {s t u : σ} {e : Error}

/-! ## Rows part by part -/

@[simp] theorem gives_nil_iff : E.Gives s [] t ↔ s = t :=
  ⟨fun h => by cases h; rfl, fun h => h ▸ .nil s⟩

theorem gives_cons_iff {field : EntryField} {content : field.Content} {rest : List FilledField} :
    E.Gives s (⟨field, content⟩ :: rest) u ↔
      ∃ t, E.readField field s = (.ok content, t) ∧ E.Gives t rest u :=
  ⟨fun | .cons head tail => ⟨_, head, tail⟩, fun ⟨_, head, tail⟩ => .cons head tail⟩

theorem gives_append_iff {xs ys : List FilledField} :
    E.Gives s (xs ++ ys) u ↔ ∃ t, E.Gives s xs t ∧ E.Gives t ys u := by
  induction xs generalizing s with
  | nil => simp
  | cons x xs ih =>
    obtain ⟨field, content⟩ := x
    simp only [List.cons_append, gives_cons_iff, ih]
    constructor
    · rintro ⟨r, head, t, first, second⟩
      exact ⟨t, ⟨r, head, first⟩, second⟩
    · rintro ⟨t, ⟨r, head, first⟩, second⟩
      exact ⟨r, head, t, first, second⟩

@[simp] theorem not_fails_nil : ¬E.Fails s [] e u := nofun

theorem fails_cons_iff {field : EntryField} {rest : List EntryField} :
    E.Fails s (field :: rest) e u ↔
      E.readField field s = (.error e, u) ∨
        ∃ content t, E.readField field s = (.ok content, t) ∧ E.Fails t rest e u := by
  constructor
  · rintro (head | ⟨head, tail⟩)
    · exact Or.inl head
    · exact Or.inr ⟨_, _, head, tail⟩
  · rintro (head | ⟨content, t, head, tail⟩)
    · exact .here head
    · exact .later head tail

/-- **A failure in two rows in a row is one in the first, or one in the second after it.** -/
theorem fails_append_iff {xs ys : List EntryField} :
    E.Fails s (xs ++ ys) e u ↔
      E.Fails s xs e u ∨
        ∃ row t, row.map FilledField.field = xs ∧ E.Gives s row t ∧ E.Fails t ys e u := by
  induction xs generalizing s with
  | nil => simp
  | cons x xs ih =>
    simp only [List.cons_append, fails_cons_iff, ih]
    constructor
    · rintro (head | ⟨content, t, head, tail | ⟨row, r, rfl, given, tail⟩⟩)
      · exact Or.inl (Or.inl head)
      · exact Or.inl (Or.inr ⟨content, t, head, tail⟩)
      · exact Or.inr ⟨⟨x, content⟩ :: row, r, rfl, .cons head given, tail⟩
    · rintro ((head | ⟨content, t, head, tail⟩) | ⟨row, r, hrow, given, tail⟩)
      · exact Or.inl head
      · exact Or.inr ⟨content, t, head, Or.inl tail⟩
      · cases given with
        | nil => simp at hrow
        | cons head given =>
          simp only [List.map_cons, List.cons.injEq] at hrow
          obtain ⟨rfl, hrow⟩ := hrow
          exact Or.inr ⟨_, _, head, Or.inr ⟨_, r, hrow, given, tail⟩⟩

/-! ## One entry -/

variable {f : Format} {n : ℕ}

theorem readEntry_eq_ok_iff {entry : Entry f} :
    E.readEntry f s = (.ok entry, t) ↔ E.Gives s entry.filled t := by
  obtain ⟨tag, type, count, value⟩ := entry
  simp only [readEntry, ReadM.bind_eq_ok_iff, ReadM.pure_apply, Entry.filled, gives_cons_iff,
    gives_nil_iff, readField]
  constructor
  · rintro ⟨_, a, h₁, _, b, h₂, _, c, h₃, _, d, h₄, h⟩
    cases h
    exact ⟨a, h₁, b, h₂, c, h₃, _, h₄, rfl⟩
  · rintro ⟨a, h₁, b, h₂, c, h₃, _, h₄, rfl⟩
    exact ⟨_, a, h₁, _, b, h₂, _, c, h₃, _, _, h₄, rfl⟩

theorem readEntry_eq_error_iff :
    E.readEntry f s = (.error e, u) ↔ E.Fails s f.fields e u := by
  simp only [readEntry, ReadM.bind_eq_error_iff, ReadM.pure_apply, Format.fields, fails_cons_iff,
    readField, not_fails_nil, Prod.mk.injEq, reduceCtorEq, false_and, and_false, exists_false,
    or_false]

/-! ## Runs of entries -/

/-- The entries that a run adds to those already read are given by the row of their fields. -/
theorem readMore_eq_ok_iff {done all : Array (Entry f)} :
    E.readMore n done s = (.ok all, t) ↔
      ∃ more : List (Entry f), more.length = n ∧ all = done ++ more.toArray ∧
        E.Gives s (filledRow more) t := by
  induction n generalizing s done with
  | zero =>
    simp only [readMore_zero, ReadM.pure_apply, List.length_eq_zero_iff, Prod.mk.injEq,
      Except.ok.injEq]
    constructor
    · rintro ⟨rfl, rfl⟩
      exact ⟨[], rfl, by simp, .nil s⟩
    · rintro ⟨_, rfl, rfl, given⟩
      exact ⟨by simp, gives_nil_iff.1 given⟩
  | succ n ih =>
    simp only [readMore_succ, ReadM.bind_eq_ok_iff, readEntry_eq_ok_iff, ih]
    constructor
    · rintro ⟨entry, r, head, more, rfl, rfl, tail⟩
      exact ⟨entry :: more, rfl, by simp, gives_append_iff.2 ⟨r, head, tail⟩⟩
    · rintro ⟨_ | ⟨entry, more⟩, hlen, rfl, given⟩
      · simp at hlen
      · obtain ⟨r, head, tail⟩ := gives_append_iff.1 given
        exact ⟨entry, r, head, more, by simpa using hlen, by simp, tail⟩

/-- A run fails where the row of its fields does, whatever was read before. -/
theorem readMore_eq_error_iff {done : Array (Entry f)} :
    E.readMore n done s = (.error e, u) ↔ E.Fails s (f.rowFields n) e u := by
  induction n generalizing s done with
  | zero => simp [Format.rowFields]
  | succ n ih =>
    simp only [readMore_succ, ReadM.bind_eq_error_iff, readEntry_eq_error_iff,
      readEntry_eq_ok_iff, ih, Format.rowFields_succ, fails_append_iff]
    refine or_congr_right ⟨?_, ?_⟩
    · rintro ⟨entry, t, given, tail⟩
      exact ⟨entry.filled, t, rfl, given, tail⟩
    · rintro ⟨row, t, hrow, given, tail⟩
      obtain ⟨entry, rfl⟩ := Entry.exists_filled_eq hrow
      exact ⟨entry, t, given, tail⟩

/-- **A run of entries succeeds exactly when the row of their fields is given.** -/
theorem readEntries_eq_ok_iff {entries : Array (Entry f)} :
    E.readEntries f n s = (.ok entries, t) ↔
      entries.size = n ∧ E.Gives s (filledRow entries.toList) t := by
  rw [readEntries_eq_readMore, readMore_eq_ok_iff]
  constructor
  · rintro ⟨more, hlen, rfl, given⟩
    exact ⟨by simpa using hlen, by simpa using given⟩
  · rintro ⟨hsize, given⟩
    exact ⟨entries.toList, by simpa using hsize, by simp, given⟩

/-- **…and fails exactly where that row fails**, with the same error. -/
theorem readEntries_eq_error_iff :
    E.readEntries f n s = (.error e, u) ↔ E.Fails s (f.rowFields n) e u := by
  rw [readEntries_eq_readMore, readMore_eq_error_iff]

end EntryReader

end TiffDirectory
