import Mathlib
import TiffDirectory.Proofs.FieldCalls
import TiffDirectory.Proofs.HeldBytes
import TiffDirectory.Proofs.MemoryRuns

/-!
# Proofs/SharedFields — the same bytes in both formats

A record of either format opens with a tag and a type; then a big one has a count of eight bytes
where a classic one has a count of four bytes and four value bytes.  So **every big entry hides a
classic one** (`Entry.Halves`), and data that end within a classic record end within the big one no
later (`Source.Holds.readEntry_halves`).
-/

namespace TiffDirectory

variable {σ : Type}

/-! ## Halves of a count -/

/-- The classic entry has the tag and the type of the big one, and its count and its value are the
first and the second stored half of the count of the big one. -/
structure Entry.Halves (order : ByteOrder) (large : Entry .big) (small : Entry .classic) :
    Prop where
  tag : small.tag = large.tag
  type : small.type = large.type
  little (stored : order = .little) : small.count.toNat = large.count.toNat % 2 ^ 32 ∧
    small.value = Word.toBytes .little (.ofNat Width.u32.bits (large.count.toNat / 2 ^ 32))
  big (stored : order = .big) : small.count.toNat = large.count.toNat / 2 ^ 32 ∧
    small.value = Word.toBytes .big (.ofNat Width.u32.bits (large.count.toNat % 2 ^ 32))

/-- **Two entries read at one place share its bytes.** -/
theorem Entry.ReadsFrom.halves {order : ByteOrder} {data : Bytes} {p : ℕ} {large : Entry .big}
    {small : Entry .classic} (fits : p + 20 ≤ data.size) (hlarge : large.ReadsFrom order data p)
    (hsmall : small.ReadsFrom order data p) : Halves order large small := by
  have hfirst : (data.extract (p + 4) (p + 8)).toList.length = 4 := by
    rw [Array.length_toList, Array.size_extract]
    omega
  have hsecond : (data.extract (p + 8) (p + 12)).toList.length = 4 := by
    rw [Array.length_toList, Array.size_extract]
    omega
  have hcount : small.count.toNat = order.value (data.extract (p + 4) (p + 8)).toList :=
    hsmall.count
  have hvalue : small.value.toList = (data.extract (p + 8) (p + 12)).toList :=
    congrArg Array.toList hsmall.value
  -- The count of the big entry, cut where the count of the classic one ends.
  have hlong : large.count.toNat =
      order.value (data.extract (p + 4) (p + 12)).toList := hlarge.count
  rw [Bytes.extract_append (Nat.le_add_right (p + 4) 4) (Nat.le_add_right (p + 8) 4),
    Array.toList_append, order.value_append hfirst hsecond, ← hvalue, ← hcount] at hlong
  have hstored := Word.toBytes_ofNat_value (w := .u32) order small.value
  have hlt := order.value_lt small.value.toList
  rw [hvalue, hsecond, ← hvalue] at hlt
  have hlt' : small.count.toNat < 2 ^ 32 := small.count.isLt
  refine ⟨?_, ?_, ?_, ?_⟩
  · exact BitVec.eq_of_toNat_eq (hsmall.tag.trans hlarge.tag.symm)
  · exact BitVec.eq_of_toNat_eq (hsmall.type.trans hlarge.type.symm)
  · rintro rfl
    rw [ByteOrder.join] at hlong
    have hhigh : large.count.toNat / 2 ^ 32 = ByteOrder.value .little small.value.toList := by omega
    rw [hhigh, hstored]
    exact ⟨by omega, rfl⟩
  · rintro rfl
    rw [ByteOrder.join] at hlong
    have hlow : large.count.toNat % 2 ^ 32 = ByteOrder.value .big small.value.toList := by omega
    rw [hlow, hstored]
    exact ⟨by omega, rfl⟩

/-! ## Single entries -/

namespace Reader.Shows

variable {R : Reader σ} {s t : σ} {medium : Medium} {data : Bytes} {cursor after : Cursor}
  {f : Format}

/-- **An entry that is read lies within the bytes**, field by field. -/
theorem readsFrom_of_readEntry (h : R.Shows s medium data) (hdata : data.size < 2 ^ 64)
    {entry : Entry f}
    (hrun : (Cursor.entryReader R).readEntry f (cursor, s) = (.ok entry, (after, t))) :
    cursor.position.toNat + f.entrySize ≤ data.size ∧
      entry.ReadsFrom cursor.order data cursor.position.toNat := by
  have hone : (Cursor.entryReader R).readEntries f 1 (cursor, s) = (.ok #[entry], (after, t)) := by
    rw [EntryReader.readEntries_one]
    exact ReadM.map_eq_ok_iff.2 ⟨entry, hrun, rfl⟩
  obtain ⟨-, -, -, hfits, hstored⟩ := h.encodeEntries_eq hdata hone
  have hfits := hfits Nat.one_pos
  rw [Nat.one_mul] at hfits hstored
  refine ⟨hfits, Entry.readsFrom_of_encode_eq hfits ?_⟩
  rw [← hstored, encodeEntries_cons, encodeEntries_nil, Array.append_empty]

/-- **An entry that is not read is cut at its first field past the end of the bytes.** -/
theorem find?_eq_of_readEntry_error (h : R.Shows s medium data) (hdata : data.size < 2 ^ 64)
    {e : Error} (hrun : (Cursor.entryReader R).readEntry f (cursor, s) = (.error e, (after, t))) :
    data.size < cursor.position.toNat + f.entrySize ∧
      ∃ span, (layout cursor.position.toNat f.fields).find? (data.size < ·.stop) = some span ∧
        e = data.shortfall medium span ∧ after.position.toNat = span.start := by
  have hone : (Cursor.entryReader R).readEntries f 1 (cursor, s) = (.error e, (after, t)) := by
    rw [EntryReader.readEntries_one]
    exact ReadM.map_eq_error_iff.2 hrun
  obtain ⟨-, hlt, hcut⟩ := h.find?_eq_of_error hdata hone
  rw [Nat.one_mul] at hlt
  rw [Format.schedule_one] at hcut
  exact ⟨hlt, hcut⟩

end Reader.Shows

/-! ## Cuts -/

/-- **Data that end within a classic record end within the big one at the same place**, at the same
field if it is one of the first two, and no later. -/
theorem Format.find?_big_of_find?_classic {limit p : ℕ} {small large : Span}
    (hsmall : (layout p classic.fields).find? (limit < ·.stop) = some small)
    (hlarge : (layout p big.fields).find? (limit < ·.stop) = some large) :
    large.start ≤ small.start ∧ (small.start < p + 4 → large = small) := by
  have hshared (f : Format) : layout p f.fields =
      layout p [.word .u16, .word .u16] ++
        layout (p + 4) [.word f.countWidth, .bytes f.valueSize] :=
    layout_append p [.word .u16, .word .u16] [.word f.countWidth, .bytes f.valueSize]
  rw [hshared, List.find?_append] at hsmall hlarge
  cases hhead : (layout p [.word .u16, .word .u16]).find? (limit < ·.stop) with
  | some span =>
    rw [hhead, Option.some_or] at hsmall hlarge
    obtain rfl := Option.some.inj hsmall
    obtain rfl := Option.some.inj hlarge
    exact ⟨Nat.le_refl _, fun _ => rfl⟩
  | none =>
    rw [hhead, Option.none_or] at hsmall hlarge
    obtain ⟨hstart, hstop⟩ := start_le_and_stop_le_of_mem_layout (List.mem_of_find?_eq_some hsmall)
    have hlimit := List.find?_some hsmall
    simp only [decide_eq_true_eq] at hlimit
    -- The count of the big record covers all that is left of the classic one.
    have hwide : limit < Span.stop ⟨p + 4, 8⟩ := Nat.lt_of_lt_of_le hlimit hstop
    have hcut : (layout (p + 4) [.word .u64, .bytes 8]).find? (limit < ·.stop) =
        some ⟨p + 4, 8⟩ := List.find?_cons_of_pos (decide_eq_true hwide)
    obtain rfl := Option.some.inj (hcut.symm.trans hlarge)
    exact ⟨hstart, fun h => absurd hstart (Nat.not_le.2 h)⟩

/-! ## Both formats at one place -/

/-- **Both formats read the bytes they share alike.**  Where a big entry can be read, so can a
classic one, and that is made of its tag, its type and the halves of its count.  Where no classic
entry can be read, no big one can, and the cursor stays at the same place or before it; if what is
missing is one of the first four bytes, those of the tag and the type, the failure is the same. -/
theorem Source.Holds.readEntry_halves {files : FileSystem} {source : Source} {medium : Medium}
    {data : Bytes} (h : source.Holds files medium data.size data) (cursor : Cursor) :
    let small := (Cursor.entryReader (reader files)).readEntry .classic (cursor, source)
    let large := (Cursor.entryReader (reader files)).readEntry .big (cursor, source)
    (∀ big, large.1 = .ok big → ∃ classic, small.1 = .ok classic ∧
        big.Halves cursor.order classic) ∧
      ∀ e, small.1 = .error e → ∃ d, large.1 = .error d ∧
        large.2.1.position ≤ small.2.1.position ∧
        (small.2.1.position.toNat < cursor.position.toNat + 4 →
          d = e ∧ large.2.1.position = small.2.1.position) := by
  intro small large
  rcases hsmall : small with ⟨e | classic, afterSmall, t⟩ <;>
  rcases hlarge : large with ⟨d | big, afterLarge, u⟩
  · obtain ⟨-, _, hcut, rfl, hposition⟩ := h.shows.find?_eq_of_readEntry_error h.length_lt hsmall
    obtain ⟨-, _, hcut', rfl, hposition'⟩ := h.shows.find?_eq_of_readEntry_error h.length_lt hlarge
    obtain ⟨hle, hsame⟩ := Format.find?_big_of_find?_classic hcut hcut'
    refine ⟨nofun, fun e he => ?_⟩
    obtain rfl := Except.error.inj he
    refine ⟨_, rfl, ?_, fun hhead => ?_⟩
    · rw [UInt64.le_iff_toNat_le, hposition, hposition']
      exact hle
    · obtain rfl := hsame (hposition ▸ hhead)
      exact ⟨rfl, UInt64.toNat_inj.1 (hposition'.trans hposition.symm)⟩
  · obtain ⟨hlt, -⟩ := h.shows.find?_eq_of_readEntry_error h.length_lt hsmall
    obtain ⟨hfits, -⟩ := h.shows.readsFrom_of_readEntry h.length_lt hlarge
    exact absurd hlt (Nat.not_lt.2 (Nat.le_trans (Nat.add_le_add_left (by decide) _) hfits))
  · exact ⟨nofun, nofun⟩
  · obtain ⟨-, hfrom⟩ := h.shows.readsFrom_of_readEntry h.length_lt hsmall
    obtain ⟨hfits, hfrom'⟩ := h.shows.readsFrom_of_readEntry h.length_lt hlarge
    refine ⟨fun _ hbig => ?_, nofun⟩
    obtain rfl := Except.ok.inj hbig
    exact ⟨classic, rfl, hfrom'.halves hfits hfrom⟩

/-- The bytes 0 to 20, highest byte first.  From position 1 on both entries are read; from position
18 on both lack a byte of their type. -/
theorem Source.Holds.readEntry_halves_ascending :
    let data : Bytes := Array.ofFn fun i : Fin 21 => .ofNat i
    let source : Source := .view ⟨data.toSubarray⟩
    let read (f : Format) (position : UInt64) :=
      (Cursor.entryReader (reader .empty)).readEntry f ({ order := .big, position }, source)
    source.Holds .empty .buffer data.size data ∧
      (∃ big classic, (read .big 1).1 = .ok big ∧ (read .classic 1).1 = .ok classic ∧
        big.count = 0x05060708090A0B0C ∧ big.Halves .big classic) ∧
      (read .classic 18).1 = .error (.truncatedField 20 2 1) ∧
      (read .big 18).1 = .error (.truncatedField 20 2 1) := by
  intro data source read
  have hholds : source.Holds .empty .buffer data.size data := .memory rfl (by decide)
  obtain ⟨hread, -⟩ := hholds.readEntry_halves { order := .big, position := 1 }
  obtain ⟨-, hcut⟩ := hholds.readEntry_halves { order := .big, position := 18 }
  have hbig : (read .big 1).1 = .ok ⟨0x0102, 0x0304, 0x05060708090A0B0C,
      #v[13, 14, 15, 16, 17, 18, 19, 20]⟩ := by decide +kernel
  have hshort : (read .classic 18).1 = .error (.truncatedField 20 2 1) := by decide +kernel
  obtain ⟨classic, hclassic, hhalves⟩ := hread _ hbig
  obtain ⟨d, hd, -, hsame⟩ := hcut _ hshort
  obtain ⟨rfl, -⟩ := hsame (by decide +kernel)
  exact ⟨hholds, ⟨_, classic, hbig, hclassic, rfl, hhalves⟩, hshort, hd⟩

end TiffDirectory
