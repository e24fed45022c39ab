import Mathlib
import TiffDirectory.Proofs.ByteReversal
import TiffDirectory.Proofs.FieldRuns

/-!
# Proofs/StoredForms — the bytes of fields, entries and runs of entries

The stored form of an entry is that of its fields in a row, and the stored form of a run that of its
entries.  Stored forms have a known size and lose nothing (`encodeEntries_injective`), so **a run is
known from its bytes**, and each entry from its part of them (`encode_eq_extract_of_encodeEntries`),
as it is for records of one size of any kind (`Bytes.joined`).  `Entry.ReadsFrom` says the same of
the single fields, by their positional value.
-/

namespace TiffDirectory

/-- Two pieces of data that meet are one piece. -/
theorem Bytes.extract_append {data : Bytes} {i j k : ℕ} (hij : i ≤ j) (hjk : j ≤ k) :
    data.extract i k = data.extract i j ++ data.extract j k := by
  rw [Array.extract_append_extract, Nat.min_eq_left hij, Nat.max_eq_right hjk]

/-! ## Records of one size -/

namespace Bytes

/-- The records of a list, one after the other. -/
def joined {α : Type} (record : α → Bytes) (xs : List α) : Bytes :=
  xs.foldl (fun bytes x => bytes ++ record x) #[]

variable {α : Type} {record : α → Bytes} {size : ℕ}

theorem joined_cons (x : α) (rest : List α) :
    joined record (x :: rest) = record x ++ joined record rest := by
  have hfrom : ∀ (xs : List α) (bytes : Bytes),
      xs.foldl (fun bytes x => bytes ++ record x) bytes = bytes ++ joined record xs := by
    intro xs
    induction xs with
    | nil => exact fun bytes => Array.append_empty.symm
    | cons next xs ih =>
      intro bytes
      rw [joined, List.foldl_cons, List.foldl_cons, ih, ih (#[] ++ record next),
        Array.empty_append, Array.append_assoc]
  rw [joined, List.foldl_cons, hfrom, Array.empty_append]

theorem size_joined (hsize : ∀ x, (record x).size = size) (xs : List α) :
    (joined record xs).size = xs.length * size := by
  induction xs with
  | nil => rw [List.length_nil, Nat.zero_mul]; rfl
  | cons x rest ih =>
    rw [joined_cons, Array.size_append, hsize, ih, List.length_cons, Nat.succ_mul, Nat.add_comm]

/-- **A list is known from its records and its length**, if each member is known from its own. -/
theorem eq_of_joined_eq (hsize : ∀ x, (record x).size = size) (hrecord : Function.Injective record)
    {xs ys : List α} (hlen : xs.length = ys.length) (h : joined record xs = joined record ys) :
    xs = ys := by
  induction xs generalizing ys with
  | nil => exact (List.length_eq_zero_iff.1 hlen.symm).symm
  | cons x xs ih =>
    cases ys with
    | nil => simp at hlen
    | cons y ys =>
      rw [joined_cons, joined_cons] at h
      obtain ⟨hhead, htail⟩ := Array.append_inj h (by rw [hsize, hsize])
      rw [hrecord hhead, ih (Nat.succ_inj.1 hlen) htail]

/-- Each record has its own part of the whole. -/
theorem record_eq_extract_of_joined (hsize : ∀ x, (record x).size = size) {data : Bytes}
    {start : ℕ} {xs : List α} (hfits : start + xs.length * size ≤ data.size)
    (h : joined record xs = data.extract start (start + xs.length * size)) (i : ℕ)
    (hi : i < xs.length) :
    record xs[i] = data.extract (start + i * size) (start + i * size + size) := by
  induction xs generalizing start i with
  | nil => simp at hi
  | cons x rest ih =>
    rw [List.length_cons, Nat.succ_mul] at hfits h
    rw [joined_cons, Nat.add_comm _ size, ← Nat.add_assoc,
      extract_append (Nat.le_add_right start size) (Nat.le_add_right _ _)] at h
    obtain ⟨hhead, htail⟩ := Array.append_inj h (by
      rw [hsize, Array.size_extract]
      omega)
    cases i with
    | zero =>
      rw [Nat.zero_mul, Nat.add_zero]
      exact hhead
    | succ i =>
      have hrest := ih (by omega) htail i (Nat.lt_of_succ_lt_succ hi)
      rw [List.getElem_cons_succ, hrest]
      congr 1 <;> rw [Nat.succ_mul] <;> omega

end Bytes

/-! ## Fields -/

namespace FilledField

/-- The bytes that store a filled field, its integer in the given byte order. -/
def stored (order : ByteOrder) : FilledField → Bytes
  | ⟨.word _, v⟩ => (Word.toBytes order v).toArray
  | ⟨.bytes _, v⟩ => v.toArray

end FilledField

/-- The stored form of fields in a row. -/
def storedRow (order : ByteOrder) : List FilledField → Bytes
  | [] => #[]
  | filled :: rest => filled.stored order ++ storedRow order rest

theorem storedRow_append (order : ByteOrder) (xs ys : List FilledField) :
    storedRow order (xs ++ ys) = storedRow order xs ++ storedRow order ys := by
  induction xs with
  | nil => exact Array.empty_append.symm
  | cons x xs ih => rw [List.cons_append, storedRow, storedRow, ih, Array.append_assoc]

/-! ## Entries -/

theorem Word.toBytes_injective {w : Width} (order : ByteOrder) :
    Function.Injective (toBytes order : Word w → Vector UInt8 w.bytes) := by
  intro u v h
  refine BitVec.eq_of_toNat_eq ?_
  rw [← value_toBytes order u, ← value_toBytes order v, h]

namespace Entry

variable {f : Format}

theorem storedRow_filled (order : ByteOrder) (entry : Entry f) :
    storedRow order entry.filled = entry.encode order := by
  simp only [filled, storedRow, FilledField.stored, encode, Array.append_empty, Array.append_assoc]

/-- **An entry is known from its stored form.** -/
theorem encode_injective (order : ByteOrder) :
    Function.Injective (encode order : Entry f → Bytes) := by
  rintro ⟨tag, type, count, value⟩ ⟨tag', type', count', value'⟩ h
  simp only [encode] at h
  obtain ⟨h, hvalue⟩ := Array.append_inj' h (by simp)
  obtain ⟨h, hcount⟩ := Array.append_inj' h (by simp)
  obtain ⟨htag, htype⟩ := Array.append_inj' h (by simp)
  rw [Word.toBytes_injective order (Vector.toArray_inj.1 htag),
    Word.toBytes_injective order (Vector.toArray_inj.1 htype),
    Word.toBytes_injective order (Vector.toArray_inj.1 hcount), Vector.toArray_inj.1 hvalue]

/-- The entry is what the record at a position of the data stores, field by field: the integers
have the value of their bytes, and the value bytes are there as they are. -/
structure ReadsFrom (order : ByteOrder) (data : Bytes) (start : ℕ) (entry : Entry f) : Prop where
  tag : entry.tag.toNat = order.value (data.extract start (start + 2)).toList
  type : entry.type.toNat = order.value (data.extract (start + 2) (start + 4)).toList
  count : entry.count.toNat =
    order.value (data.extract (start + 4) (start + 4 + f.countWidth.bytes)).toList
  value : entry.value.toArray =
    data.extract (start + 4 + f.countWidth.bytes) (start + f.entrySize)

/-- **The fields of an entry read from its record**: each is a part of the stored form. -/
theorem readsFrom_of_encode_eq {order : ByteOrder} {data : Bytes} {start : ℕ} {entry : Entry f}
    (hsize : start + f.entrySize ≤ data.size)
    (h : entry.encode order = data.extract start (start + f.entrySize)) :
    entry.ReadsFrom order data start := by
  have hlen := f.entrySize_eq
  have hrecord : data.extract start (start + f.entrySize) =
      data.extract start (start + 2) ++ data.extract (start + 2) (start + 4) ++
        data.extract (start + 4) (start + 4 + f.countWidth.bytes) ++
        data.extract (start + 4 + f.countWidth.bytes) (start + f.entrySize) := by
    rw [← Bytes.extract_append (by omega) (by omega), ← Bytes.extract_append (by omega) (by omega),
      ← Bytes.extract_append (by omega) (by omega)]
  have hcount : (data.extract (start + 4) (start + 4 + f.countWidth.bytes)).size =
      f.countWidth.bytes := by
    rw [Array.size_extract]
    omega
  have hvalue : (data.extract (start + 4 + f.countWidth.bytes) (start + f.entrySize)).size =
      f.valueSize := by
    rw [Array.size_extract]
    omega
  have htype : (data.extract (start + 2) (start + 4)).size = 2 := by
    rw [Array.size_extract]
    omega
  rw [hrecord, encode] at h
  obtain ⟨h, hvalue⟩ := Array.append_inj' h (by rw [hvalue, Vector.size_toArray])
  obtain ⟨h, hcount⟩ := Array.append_inj' h (by rw [hcount, Vector.size_toArray])
  obtain ⟨htag, htype⟩ := Array.append_inj' h (by rw [htype, Vector.size_toArray])
  refine ⟨?_, ?_, ?_, hvalue⟩
  · rw [← htag]
    exact (Word.value_toBytes order entry.tag).symm
  · rw [← htype]
    exact (Word.value_toBytes order entry.type).symm
  · rw [← hcount]
    exact (Word.value_toBytes order entry.count).symm

end Entry

/-! ## Runs of entries -/

section Runs

variable {f : Format} {order : ByteOrder}

@[simp] theorem encodeEntries_nil : encodeEntries order ([] : List (Entry f)) = #[] := rfl

theorem encodeEntries_cons (entry : Entry f) (rest : List (Entry f)) :
    encodeEntries order (entry :: rest) = entry.encode order ++ encodeEntries order rest :=
  Bytes.joined_cons entry rest

theorem size_encodeEntries (entries : List (Entry f)) :
    (encodeEntries order entries).size = entries.length * f.entrySize :=
  Bytes.size_joined (Entry.size_encode order) entries

theorem storedRow_filledRow (entries : List (Entry f)) :
    storedRow order (filledRow entries) = encodeEntries order entries := by
  induction entries with
  | nil => rfl
  | cons entry rest ih =>
    rw [encodeEntries_cons, ← ih, ← Entry.storedRow_filled, ← storedRow_append]
    rfl

/-- **A run is known from its stored form and the number of its entries.** -/
theorem encodeEntries_injective {xs ys : List (Entry f)} (hlen : xs.length = ys.length)
    (h : encodeEntries order xs = encodeEntries order ys) : xs = ys :=
  Bytes.eq_of_joined_eq (Entry.size_encode order) (Entry.encode_injective order) hlen h

/-- Each entry of a run has its own part of the stored form. -/
theorem encode_eq_extract_of_encodeEntries {data : Bytes} {start : ℕ} {entries : List (Entry f)}
    (hsize : start + entries.length * f.entrySize ≤ data.size)
    (h : encodeEntries order entries =
      data.extract start (start + entries.length * f.entrySize)) (i : ℕ)
    (hi : i < entries.length) :
    (entries[i]).encode order =
      data.extract (start + i * f.entrySize) (start + i * f.entrySize + f.entrySize) :=
  Bytes.record_eq_extract_of_joined (Entry.size_encode order) hsize h i hi

end Runs

end TiffDirectory
