import Mathlib
import TiffDirectory.Proofs.Traffic
import TiffDirectory.Session.Source

/-!
# Proofs/ShownBytes — readers that show fixed bytes

A reader **shows** some bytes when every reply is cut from them (`Bytes.clip`), whatever was read
before.  Then a span is served exactly when it lies within the bytes (`Shows.stop_le_of_serves`,
`Shows.size_lt_stop_of_refuses`), the views joined together are a piece of them, and a refusal tells
which end was missed (`Bytes.shortfall`).

Sources in memory are such readers, and no read changes them (`Source.shows_of_memory?`).
-/

namespace TiffDirectory

variable {σ : Type}

/-- The text about a read beyond the end.  The words around the medium are taken together with it, so
that they are one literal where the medium is known. -/
theorem Error.message_offsetBeyondEnd (medium : Medium) (offset size : ℕ) :
    (offsetBeyondEnd medium offset size).message =
      "Read offset " ++ toString offset ++ (" beyond " ++ medium.name ++ " size ") ++
        toString size := by
  change "Read offset " ++ toString offset ++ " beyond " ++ medium.name ++ " size " ++
    toString size = _
  simp only [String.append_assoc]

namespace Bytes

/-- The reply of a reader that shows these bytes: the bytes from the offset on, as far as they exist,
but not from their end on. -/
def clip (medium : Medium) (data : Bytes) (offset size : ℕ) : Result Bytes :=
  if data.size ≤ offset then .error (.offsetBeyondEnd medium offset data.size)
  else .ok (data.extract offset (offset + size))

/-- The report about a field that does not lie within these bytes. -/
def shortfall (medium : Medium) (data : Bytes) (span : Span) : Error :=
  if data.size ≤ span.start then .offsetBeyondEnd medium span.start data.size
  else .truncatedField span.start span.width (data.size - span.start)

theorem clip_eq_ok_iff {medium : Medium} {data view : Bytes} {offset size : ℕ} :
    data.clip medium offset size = .ok view ↔
      offset < data.size ∧ view = data.extract offset (offset + size) := by
  unfold clip
  split
  · simp only [reduceCtorEq, false_iff, not_and]
    omega
  · rw [Except.ok.injEq, eq_comm]
    exact ⟨fun h => ⟨by omega, h⟩, And.right⟩

theorem clip_eq_error_iff {medium : Medium} {data : Bytes} {offset size : ℕ} {e : Error} :
    data.clip medium offset size = .error e ↔
      data.size ≤ offset ∧ e = .offsetBeyondEnd medium offset data.size := by
  unfold clip
  split
  next h => rw [Except.error.injEq, eq_comm, and_iff_right h]
  next h => simp only [reduceCtorEq, h, false_and]

/-- The two reports, by their code and text, for bytes in memory. -/
theorem code_and_message_shortfall (data : Bytes) (span : Span) :
    let e := data.shortfall .buffer span
    let q := span.start
    (data.size ≤ q → e.code = .outOfBounds ∧
      e.message = s!"Read offset {q} beyond buffer size {data.size}") ∧
    (q < data.size → e.code = .unexpectedEndOfFile ∧
      e.message =
        s!"Incomplete read at offset {q}: expected {span.width} bytes, got {data.size - q}") := by
  intro e q
  constructor
  · intro h
    have he : e = .offsetBeyondEnd .buffer q data.size := if_pos h
    rw [he]
    exact ⟨rfl, Error.message_offsetBeyondEnd .buffer q data.size⟩
  · intro h
    have he : e = .truncatedField q span.width (data.size - q) := if_neg (Nat.not_le.2 h)
    rw [he]
    exact ⟨rfl, rfl⟩

end Bytes

namespace Reader

/-! ## Replies cut from fixed bytes -/

/-- Every reply, now and after any other reads, is cut from the same bytes. -/
def Shows (R : Reader σ) (s : σ) (medium : Medium) (data : Bytes) : Prop :=
  ∀ t, R.After s t → ∀ offset size,
    (R.read offset size t).1 = data.clip medium offset.toNat size

variable {R : Reader σ} {s t : σ} {medium : Medium} {data : Bytes}

theorem Shows.after (h : R.Shows s medium data) (hst : R.After s t) : R.Shows t medium data :=
  fun _ hafter => h _ (hst.trans hafter)

theorem Shows.reply (h : R.Shows s medium data) {offset : UInt64} {size : ℕ}
    {reply : Result Bytes} (hread : R.read offset size s = (reply, t)) :
    data.clip medium offset.toNat size = reply := by
  rw [← h s .start offset size, hread]

/-- **Nothing is shown past the end.** -/
theorem Shows.viewsWithin (h : R.Shows s medium data) : R.ViewsWithin s data.size := by
  intro t hafter offset size view u hread hne
  obtain ⟨-, rfl⟩ := Bytes.clip_eq_ok_iff.1 ((h.after hafter).reply hread)
  rw [Array.size_extract] at hne ⊢
  omega

/-- **A span that is served lies within the bytes.** -/
theorem Shows.stop_le_of_serves {spans : List Span} {views : List Bytes}
    (h : R.Shows s medium data) (hserves : R.Serves s spans views t) :
    ∀ span ∈ spans, span.stop ≤ data.size := by
  induction hserves with
  | nil => exact nofun
  | cons at_start head long _ ih =>
    obtain ⟨hlt, rfl⟩ := Bytes.clip_eq_ok_iff.1 (h.reply head)
    rw [Array.size_extract] at long
    refine List.forall_mem_cons.2 ⟨?_, ih (h.after (.of_read head))⟩
    rw [Span.stop]
    omega

/-- **A span that is refused does not**, and its report tells how. -/
theorem Shows.size_lt_stop_of_refuses {span : Span} {e : Error} (h : R.Shows s medium data)
    (hwidth : 0 < span.width) (hrefuses : R.Refuses s span e t) :
    data.size < span.stop ∧ e = data.shortfall medium span := by
  obtain ⟨offset, hoffset, hread | ⟨view, hread, hshort, rfl⟩⟩ := hrefuses
  · obtain ⟨hle, rfl⟩ := Bytes.clip_eq_error_iff.1 (h.reply hread)
    rw [hoffset] at hle
    refine ⟨by rw [Span.stop]; omega, ?_⟩
    rw [Bytes.shortfall, if_pos hle, hoffset]
  · obtain ⟨hlt, rfl⟩ := Bytes.clip_eq_ok_iff.1 (h.reply hread)
    rw [hoffset] at hlt hshort ⊢
    rw [Array.size_extract] at hshort ⊢
    refine ⟨by rw [Span.stop]; omega, ?_⟩
    rw [Bytes.shortfall, if_neg (by omega)]
    congr 1
    omega

/-- **Fields filled from views in a row are stored as the piece of the bytes that the row covers.** -/
theorem Shows.storedRow_eq {order : ByteOrder} {row : List FilledField} {views : List Bytes}
    {start : ℕ} (h : R.Shows s medium data)
    (hserves : R.Serves s (layout start (row.map FilledField.field)) views t)
    (hviews : List.Forall₂ (FilledField.FromView order) row views) :
    storedRow order row =
      data.extract start (start + EntryField.totalSize (row.map FilledField.field)) := by
  induction row generalizing s start views with
  | nil => simp [storedRow]
  | cons filled rest ih =>
    cases hserves with
    | cons at_start head long tail =>
      obtain ⟨hview, hrest⟩ := List.forall₂_cons.1 hviews
      obtain ⟨hlt, rfl⟩ := Bytes.clip_eq_ok_iff.1 (h.reply head)
      dsimp only at at_start
      rw [FilledField.FromView, Array.extract_extract, Nat.add_zero, Nat.min_self,
        at_start] at hview
      rw [storedRow, hview, ih (h.after (.of_read head)) tail hrest, List.map_cons,
        EntryField.totalSize_cons, ← Nat.add_assoc,
        ← Bytes.extract_append (Nat.le_add_right _ _) (Nat.le_add_right _ _)]

end Reader

/-! ## Sources in memory -/

namespace Source

/-- The bytes of a source in memory. -/
def memory? : Source → Option Bytes
  | .view v => some v.bytes
  | .buffer b => some b.bytes
  | .file _ => none
  | .faulty _ => none

variable {fs : FileSystem} {source left : Source} {data : Bytes}

theorem read_of_memory? (h : source.memory? = some data) (offset : UInt64) (size : ℕ) :
    (reader fs).read offset size source = (data.clip .buffer offset.toNat size, source) := by
  have hview : ∀ v : BufferView, v.bytes = data →
      slice v.window offset size = data.clip .buffer offset.toNat size := by
    rintro v rfl
    unfold Bytes.clip
    split
    next hle => exact congrArg Prod.fst (BufferView.read_of_size_le hle size)
    next hlt => exact congrArg Prod.fst (BufferView.read_of_lt_size (Nat.not_le.1 hlt) size)
  cases source with
  | view v => exact congrArg (·, _) (hview v (Option.some.inj h))
  | buffer b => exact congrArg (·, _) (hview b.view (b.bytes_view.trans (Option.some.inj h)))
  | file state => cases h
  | faulty state => cases h

/-- **No read changes a source in memory.** -/
theorem eq_of_after_of_memory? (h : source.memory? = some data)
    (hafter : (reader fs).After source left) : left = source := by
  induction hafter with
  | start => rfl
  | read _ offset size ih =>
    subst ih
    rw [read_of_memory? h]

/-- **A source in memory shows its bytes.** -/
theorem shows_of_memory? (h : source.memory? = some data) :
    (reader fs).Shows source .buffer data := by
  intro left hafter offset size
  obtain rfl := eq_of_after_of_memory? h hafter
  rw [read_of_memory? h]

end Source

end TiffDirectory
