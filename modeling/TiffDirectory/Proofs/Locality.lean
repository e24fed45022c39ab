import Mathlib
import TiffDirectory.Proofs.MemoryRuns

/-!
# Proofs/Locality — entries depend on the bytes of their records, and each field on its own

A run of entries over bytes in memory reads a window, the records that it covers, and nothing
around it (`Source.exists_entries_of_fits`).  **A byte of the window tells one field of one entry**:
two windows that differ in a single byte give entries that are equal but for that field
(`Source.readEntries_local`), and a value differs in that byte alone.
-/

namespace TiffDirectory

/-! ## Bytes that differ at one place -/

/-- Byte strings of one length that differ at one place and nowhere else. -/
structure Bytes.DifferAt (place : ℕ) (a b : Bytes) : Prop where
  size_eq : a.size = b.size
  lt_size : place < a.size
  getElem_eq_iff : ∀ i (ha : i < a.size) (hb : i < b.size), a[i] = b[i] ↔ i ≠ place

namespace Bytes.DifferAt

variable {place : ℕ} {a b : Bytes}

/-- **A piece is equal in both exactly when the place lies outside it.** -/
theorem extract_eq_iff (h : DifferAt place a b) {i j : ℕ} (hj : j ≤ a.size) :
    a.extract i j = b.extract i j ↔ ¬(i ≤ place ∧ place < j) := by
  have hsize := h.size_eq
  constructor
  · rintro heq ⟨hi, hlt⟩
    have ha : place - i < (a.extract i j).size := by rw [Array.size_extract]; omega
    have hb : place - i < (b.extract i j).size := heq ▸ ha
    have hbyte : (a.extract i j)[place - i] = (b.extract i j)[place - i] := by simp only [heq]
    simp only [Array.getElem_extract, Nat.add_sub_cancel' hi] at hbyte
    exact (h.getElem_eq_iff place h.lt_size (hsize ▸ h.lt_size)).1 hbyte rfl
  · intro hout
    refine Array.ext (by rw [Array.size_extract, Array.size_extract, hsize]) fun m ha hb => ?_
    rw [Array.size_extract] at ha
    rw [Array.getElem_extract, Array.getElem_extract]
    exact (h.getElem_eq_iff (i + m) (by omega) (by omega)).2 (by omega)

/-- …and so are the values of its bytes, in either order. -/
theorem value_eq_iff (h : DifferAt place a b) (order : ByteOrder) {i j : ℕ} (hj : j ≤ a.size) :
    order.value (a.extract i j).toList = order.value (b.extract i j).toList ↔
      ¬(i ≤ place ∧ place < j) := by
  have hlength : (a.extract i j).toList.length = (b.extract i j).toList.length := by
    rw [Array.length_toList, Array.length_toList, Array.size_extract, Array.size_extract, h.size_eq]
  rw [← h.extract_eq_iff hj]
  constructor
  · exact fun hvalue => Array.toList_inj.1 (order.value_injective hlength hvalue)
  · exact fun heq => by rw [heq]

end Bytes.DifferAt

/-! ## Entries that differ at one byte -/

namespace Entry

variable {f : Format} {order : ByteOrder} {a b : Bytes} {start : ℕ} {x y : Entry f}

/-- **Entries that differ at byte `j` of their records**: they differ in the field that the byte
belongs to and in no other one, and a value differs in that byte alone. -/
structure DiffersAt (j : ℕ) (x y : Entry f) : Prop where
  tag : x.tag = y.tag ↔ ¬j < 2
  type : x.type = y.type ↔ ¬(2 ≤ j ∧ j < 4)
  count : x.count = y.count ↔ ¬(4 ≤ j ∧ j < 4 + f.countWidth.bytes)
  value : ∀ i (hi : i < f.valueSize), x.value[i] = y.value[i] ↔ 4 + f.countWidth.bytes + i ≠ j

theorem ReadsFrom.getElem_value (h : x.ReadsFrom order a start) {i : ℕ} (hi : i < f.valueSize)
    (hbyte : start + 4 + f.countWidth.bytes + i < a.size) :
    x.value[i] = a[start + 4 + f.countWidth.bytes + i] := by
  have hvalue : i < x.value.toArray.size := by rwa [Vector.size_toArray]
  rw [← Vector.getElem_toArray hvalue]
  simp only [h.value, Array.getElem_extract]

theorem ReadsFrom.differsAt {j : ℕ} (hx : x.ReadsFrom order a start)
    (hy : y.ReadsFrom order b start) (h : a.DifferAt (start + j) b)
    (hsize : start + f.entrySize ≤ a.size) : x.DiffersAt j y := by
  have hlen := f.entrySize_eq
  refine ⟨?_, ?_, ?_, fun i hi => ?_⟩
  · rw [BitVec.toNat_eq, hx.tag, hy.tag, h.value_eq_iff order (by omega)]
    omega
  · rw [BitVec.toNat_eq, hx.type, hy.type, h.value_eq_iff order (by omega)]
    omega
  · rw [BitVec.toNat_eq, hx.count, hy.count, h.value_eq_iff order (by omega)]
    omega
  · have ha : start + 4 + f.countWidth.bytes + i < a.size := by omega
    have hb : start + 4 + f.countWidth.bytes + i < b.size := h.size_eq ▸ ha
    rw [hx.getElem_value hi ha, hy.getElem_value hi hb, h.getElem_eq_iff _ ha hb]
    omega

end Entry

/-! ## Runs over windows -/

section Runs

variable {f : Format} {order : ByteOrder} {n : ℕ}

/-- Records do not overlap: each stops before a later one starts. -/
theorem Format.stop_le_of_lt (f : Format) {i k : ℕ} (h : i < k) :
    i * f.entrySize + f.entrySize ≤ k * f.entrySize := by
  rw [← Nat.succ_mul]
  exact Nat.mul_le_mul_right f.entrySize h

/-- The record of each entry has its place in the stored form of a run. -/
theorem encode_eq_extract_of_vector (order : ByteOrder) (entries : Vector (Entry f) n) {i : ℕ}
    (hi : i < n) :
    let stored := encodeEntries order entries.toList
    i * f.entrySize + f.entrySize ≤ stored.size ∧
      entries[i].encode order =
        stored.extract (i * f.entrySize) (i * f.entrySize + f.entrySize) := by
  intro stored
  have hlength : entries.toList.length = n := Vector.length_toList
  have hsize : stored.size = 0 + entries.toList.length * f.entrySize := by
    rw [size_encodeEntries, Nat.zero_add]
  have hwhole : stored = stored.extract 0 (0 + entries.toList.length * f.entrySize) := by
    rw [← hsize, Array.extract_size]
  have hrecord := encode_eq_extract_of_encodeEntries hsize.ge hwhole i (by rwa [hlength])
  rw [Nat.zero_add] at hrecord
  refine ⟨?_, hrecord⟩
  rw [hsize, hlength, Nat.zero_add]
  exact f.stop_le_of_lt hi

/-- **Runs whose stored forms differ at one byte** differ in the entry that it belongs to. -/
theorem differsAt_of_encodeEntries {xs ys : Vector (Entry f) n} {k j : ℕ} (hk : k < n)
    (hj : j < f.entrySize)
    (h : (encodeEntries order xs.toList).DifferAt (k * f.entrySize + j)
      (encodeEntries order ys.toList)) :
    (∀ i (hi : i < n), i ≠ k → xs[i] = ys[i]) ∧ xs[k].DiffersAt j ys[k] := by
  refine ⟨fun i hi hne => Entry.encode_injective order ?_, ?_⟩
  · obtain ⟨hsize, hx⟩ := encode_eq_extract_of_vector order xs hi
    obtain ⟨-, hy⟩ := encode_eq_extract_of_vector order ys hi
    rw [hx, hy, h.extract_eq_iff hsize]
    rcases Nat.lt_or_gt_of_ne hne with hlt | hgt
    · have hstop := f.stop_le_of_lt hlt
      omega
    · have hstop := f.stop_le_of_lt hgt
      omega
  · obtain ⟨hsize, hx⟩ := encode_eq_extract_of_vector order xs hk
    obtain ⟨hsize', hy⟩ := encode_eq_extract_of_vector order ys hk
    exact (Entry.readsFrom_of_encode_eq hsize hx).differsAt
      (Entry.readsFrom_of_encode_eq hsize' hy) h hsize

end Runs

namespace Source

variable {f : Format} {n : ℕ}

/-- **A run that fits cannot fail**, and its entries are stored as its window. -/
theorem exists_entries_of_fits (fs : FileSystem) {source : Source} {data : Bytes}
    (hsource : source.memory? = some data) (hdata : data.size < 2 ^ 64) (order : ByteOrder)
    {position : UInt64} (hfits : n * f.entrySize ≤ data.size - position.toNat) :
    ∃ entries : Vector (Entry f) n,
      ((Cursor.entryReader (reader fs)).readEntries f n ({ order, position }, source)).1 =
          .ok entries.toArray ∧
        encodeEntries order entries.toList =
          data.extract position.toNat (position.toNat + n * f.entrySize) := by
  have hshows : (reader fs).Shows source .buffer data := shows_of_memory? hsource
  rcases hrun : (Cursor.entryReader (reader fs)).readEntries f n ({ order, position }, source)
    with ⟨e | entries, after, left⟩
  · obtain ⟨-, hlt, span, hspan, -⟩ := hshows.find?_eq_of_error hdata hrun
    rcases Nat.eq_zero_or_pos n with rfl | hn
    · cases hspan
    · have hwidth := Nat.mul_pos hn f.entrySize_pos
      dsimp only at hlt
      omega
  · obtain ⟨rfl, -, -, -, hstored⟩ := hshows.encodeEntries_eq hdata hrun
    exact ⟨⟨entries, rfl⟩, rfl, hstored⟩

/-- **What a run reads is local**, for either format and either byte order.  Take the windows of two
runs of `n` entries, each of them anywhere in its bytes.  If the windows are equal then so are the
entries, whatever lies around them.  If they differ at byte `j` of record `k` alone, then all other
entries are equal, and entry `k` differs in the field of that byte alone. -/
theorem readEntries_local (fs : FileSystem) {source source' : Source} {data data' : Bytes}
    (hsource : source.memory? = some data) (hsource' : source'.memory? = some data')
    (hdata : data.size < 2 ^ 64) (hdata' : data'.size < 2 ^ 64) (order : ByteOrder) (f : Format)
    (n : ℕ) {p q : UInt64} (hp : n * f.entrySize ≤ data.size - p.toNat)
    (hq : n * f.entrySize ≤ data'.size - q.toNat) :
    let E := Cursor.entryReader (reader fs)
    let window : Bytes := data.extract p.toNat (p.toNat + n * f.entrySize)
    let window' : Bytes := data'.extract q.toNat (q.toNat + n * f.entrySize)
    ∃ xs ys : Vector (Entry f) n,
      (E.readEntries f n ({ order, position := p }, source)).1 = .ok xs.toArray ∧
        (E.readEntries f n ({ order, position := q }, source')).1 = .ok ys.toArray ∧
        (window = window' → xs = ys) ∧
        ∀ k (hk : k < n) j, j < f.entrySize →
          window.DifferAt (k * f.entrySize + j) window' →
            (∀ i (hi : i < n), i ≠ k → xs[i] = ys[i]) ∧ xs[k].DiffersAt j ys[k] := by
  intro E window window'
  obtain ⟨xs, hxs, hwindow⟩ := exists_entries_of_fits fs hsource hdata order hp
  obtain ⟨ys, hys, hwindow'⟩ := exists_entries_of_fits fs hsource' hdata' order hq
  refine ⟨xs, ys, hxs, hys, fun heq => ?_, fun k hk j hj hdiffer => ?_⟩
  · have hstored : encodeEntries order xs.toList = encodeEntries order ys.toList := by
      rw [hwindow, hwindow']
      exact heq
    refine Vector.toList_inj.1 (encodeEntries_injective ?_ hstored)
    rw [Vector.length_toList, Vector.length_toList]
  · have hstored : (encodeEntries order xs.toList).DifferAt (k * f.entrySize + j)
        (encodeEntries order ys.toList) := by
      rwa [hwindow, hwindow']
    exact differsAt_of_encodeEntries hk hj hstored

/-- Two classic records behind one byte and the same two behind three, but for the last byte of the
second count: the first entries are equal, and of the second ones all but the counts. -/
theorem readEntries_local_count :
    let first : Bytes := #[1, 0, 0, 3, 0, 0, 0, 1, 9, 8, 7, 6]
    let second : Bytes := #[1, 1, 0, 4, 0, 0, 0, 2, 5, 4, 3, 2]
    let second' : Bytes := #[1, 1, 0, 4, 0, 0, 0, 3, 5, 4, 3, 2]
    let source : Source := .buffer ⟨#[0xFF] ++ first ++ second⟩
    let source' : Source := .view ⟨(#[0xFE, 0xFD, 0xFC] ++ first ++ second' ++ #[0xFB]).toSubarray⟩
    let E := Cursor.entryReader (reader .empty)
    ∃ xs ys : Vector (Entry .classic) 2,
      (E.readEntries .classic 2 ({ order := .big, position := 1 }, source)).1 = .ok xs.toArray ∧
        (E.readEntries .classic 2 ({ order := .big, position := 3 }, source')).1 =
          .ok ys.toArray ∧
        xs[0] = ys[0] ∧ xs[1].tag = ys[1].tag ∧ xs[1].type = ys[1].type ∧
        xs[1].count ≠ ys[1].count ∧ xs[1].value[3] = ys[1].value[3] := by
  intro first second second' source source' E
  let data : Bytes := #[0xFF] ++ first ++ second
  let data' : Bytes := #[0xFE, 0xFD, 0xFC] ++ first ++ second' ++ #[0xFB]
  have hsource : source.memory? = some data := rfl
  have hsource' : source'.memory? = some data' := by decide +kernel
  have hdiffer : Bytes.DifferAt (1 * 12 + 7) (data.extract 1 25) (data'.extract 3 27) :=
    ⟨by decide +kernel, by decide +kernel, by decide +kernel⟩
  obtain ⟨xs, ys, hxs, hys, -, hfields⟩ := readEntries_local .empty hsource hsource'
    (by decide +kernel) (by decide +kernel) .big .classic 2 (p := 1) (q := 3)
    (by decide +kernel) (by decide +kernel)
  obtain ⟨hothers, hsecond⟩ := hfields 1 (by decide) 7 (by decide) hdiffer
  exact ⟨xs, ys, hxs, hys, hothers 0 (by decide) (by decide), hsecond.tag.2 (by decide),
    hsecond.type.2 (by decide), fun hcount => hsecond.count.1 hcount (by decide),
    (hsecond.value 3 (by decide)).2 (by decide)⟩

end Source

end TiffDirectory
