import Mathlib
import TiffDirectory.Proofs.Matched
import TiffDirectory.Proofs.RoundTrip

/-!
# Proofs/OppositeOrders — a directory read in the wrong byte order

Two cursors at one position, a little-endian and a big-endian one, make the same calls and meet the
same replies; **what they make of the integers are words with their bytes swapped**, and value bytes
are the same.  So a run of one is the run of the other over swapped fields (`EntryReader.swapped`),
whatever the reader replies.

Over bytes in memory the swap can be made beforehand: `Bytes.turnFields` reverses the integers of
the records in place, and the other cursor then reads what the first one did.
-/

namespace TiffDirectory

variable {σ : Type} {f : Format}

/-! ## Entries with swapped integers -/

/-- The entry with the bytes of its integers in the opposite order, and its value as it is. -/
def Entry.swap (entry : Entry f) : Entry f :=
  { entry with tag := entry.tag.swap, type := entry.type.swap, count := entry.count.swap }

@[simp] theorem Entry.swap_swap (entry : Entry f) : entry.swap.swap = entry := by
  simp only [swap, Word.swap_swap]

/-- A big-endian word is the swapped little-endian one. -/
theorem Word.ofBytes_big_eq_swap {w : Width} :
    (ofBytes .big : Vector UInt8 w.bytes → Word w) = swap ∘ ofBytes .little := rfl

namespace EntryReader

/-- The same entry reader with every word swapped. -/
def swapped (E : EntryReader σ) : EntryReader σ where
  readWord w := Word.swap <$> E.readWord w
  readBytes := E.readBytes

theorem readEntry_swapped (E : EntryReader σ) (f : Format) :
    E.swapped.readEntry f = Entry.swap <$> E.readEntry f := by
  simp only [readEntry, swapped, bind_map_left, map_bind, map_pure]
  rfl

theorem readMore_swapped (E : EntryReader σ) (n : ℕ) (done : Array (Entry f)) :
    E.swapped.readMore n (done.map Entry.swap) = Array.map Entry.swap <$> E.readMore n done := by
  induction n generalizing done with
  | zero => rw [readMore_zero, readMore_zero, map_pure]
  | succ n ih =>
    rw [readMore_succ, readMore_succ, readEntry_swapped, bind_map_left, map_bind]
    congr 1
    funext entry
    rw [← ih, Array.map_push]

/-- **Swapping the words of a run swaps its entries**, and changes nothing else. -/
theorem readEntries_swapped (E : EntryReader σ) (f : Format) (n : ℕ) :
    E.swapped.readEntries f n = Array.map Entry.swap <$> E.readEntries f n := by
  rw [readEntries_eq_readMore, readEntries_eq_readMore, ← readMore_swapped, Array.map_empty]

end EntryReader

/-! ## Two cursors -/

namespace Cursor

/-- A little-endian and a big-endian cursor at one position of one reader. -/
structure Opposed (x y : Cursor × σ) : Prop where
  little : x.1.order = .little
  big : y.1.order = .big
  position_eq : x.1.position = y.1.position
  source_eq : x.2 = y.2

variable {R : Reader σ}

/-- Both read the same bytes, or fail in the same way. -/
theorem takeExact_opposed (R : Reader σ) (n : ℕ) :
    (takeExact R n).Matches Eq Opposed (takeExact R n) := by
  rintro ⟨⟨_, position⟩, s⟩ ⟨⟨_, _⟩, _⟩ ⟨rfl, rfl, rfl, rfl⟩
  rcases hread : R.read position n s with ⟨e | view, t⟩
  · rw [takeExact_of_error hread, takeExact_of_error hread]
    exact ⟨.error rfl, rfl, rfl, rfl, rfl⟩
  · rcases hfirst : view.first? n with _ | bytes
    · have hshort := Bytes.first?_eq_none_iff.1 hfirst
      rw [takeExact_of_short hread hshort, takeExact_of_short hread hshort]
      exact ⟨.error rfl, rfl, rfl, rfl, rfl⟩
    · rw [takeExact_of_ok hread hfirst, takeExact_of_ok hread hfirst]
      exact ⟨.ok bytes, rfl, rfl, rfl, rfl⟩

theorem readWord_opposed (R : Reader σ) (w : Width) :
    (Word.swap <$> readWord R w).Matches Eq Opposed (readWord R w) := by
  intro x y h
  have hlittle : (Word.swap <$> readWord R w) x =
      (Word.ofBytes .big <$> takeExact R w.bytes) x := by
    rw [Word.ofBytes_big_eq_swap, LawfulFunctor.comp_map, ReadM.map_apply,
      readWord_of_order h.little, ← ReadM.map_apply]
  rw [hlittle, readWord_of_order h.big]
  exact (takeExact_opposed R w.bytes).map (Word.ofBytes .big) x y h

/-- **The fields that a big-endian cursor reads are those of the little-endian one, swapped.** -/
theorem entryReader_opposed (R : Reader σ) :
    (entryReader R).swapped.Matches Eq Opposed (entryReader R) where
  readWord := readWord_opposed R
  readBytes n := by
    cases n with
    | zero => exact ReadM.matches_pure _
    | succ n => exact takeExact_opposed R (n + 1)

/-- **A big-endian run is the little-endian one with its entries swapped**: it makes the same calls,
ends at the same position and fails with the same error. -/
theorem readEntries_opposed (R : Reader σ) (f : Format) (n : ℕ) (position : UInt64) (s : σ) :
    let little := (entryReader R).readEntries f n ({ order := .little, position }, s)
    let big := (entryReader R).readEntries f n ({ order := .big, position }, s)
    big.1 = little.1.map (Array.map Entry.swap) ∧
      Opposed little.2 big.2 := by
  intro little big
  have hmatches := EntryReader.readEntriesWithin_matches (fun _ => rfl) (entryReader_opposed R) n f n
    ({ order := .little, position }, s) ({ order := .big, position }, s) ⟨rfl, rfl, rfl, rfl⟩
  rw [← EntryReader.readEntries, EntryReader.readEntries_swapped, ReadM.map_apply] at hmatches
  exact ⟨hmatches.1.eq.symm, hmatches.2⟩

end Cursor

/-! ## Bytes turned in place -/

/-- The bytes with those of a span in reverse, if the span lies within them. -/
def Bytes.reverseSpan (data : Bytes) (span : Span) : Bytes :=
  if span.stop ≤ data.size then
    data.extract 0 span.start ++ (data.extract span.start span.stop).reverse ++
      data.extract span.stop
  else data

/-- The bytes with those of a field in reverse, if it is an integer and lies within them. -/
def EntryField.turn (start : ℕ) (data : Bytes) : EntryField → Bytes
  | .word w => data.reverseSpan ⟨start, w.bytes⟩
  | .bytes _ => data

/-- The bytes with each integer of a row of fields turned; the row starts at the given position. -/
def Bytes.turnFields : ℕ → Bytes → List EntryField → Bytes
  | _, data, [] => data
  | start, data, field :: rest => turnFields (start + field.size) (field.turn start data) rest

section Turning

variable {data : Bytes} {span : Span} {i j start : ℕ}

/-- A span within the bytes parts them in three, and the middle part is reversed. -/
theorem Bytes.reverseSpan_of_fits (h : span.stop ≤ data.size) :
    ∃ before piece after : Bytes, data = before ++ piece ++ after ∧
      data.reverseSpan span = before ++ piece.reverse ++ after ∧
      before.size = span.start ∧ before.size + piece.size = span.stop := by
  have hstart : span.start ≤ span.stop := Nat.le_add_right _ _
  refine ⟨data.extract 0 span.start, data.extract span.start span.stop, data.extract span.stop,
    ?_, if_pos h, ?_, ?_⟩
  · rw [← extract_append (Nat.zero_le _) hstart, ← extract_append (Nat.zero_le _) h,
      Array.extract_size]
  · rw [Array.size_extract]
    omega
  · rw [Array.size_extract, Array.size_extract]
    omega

/-- **A span is reversed…** -/
theorem Bytes.extract_reverseSpan (h : span.stop ≤ data.size) :
    (data.reverseSpan span).extract span.start span.stop =
      (data.extract span.start span.stop).reverse := by
  obtain ⟨before, piece, after, hdata, hreverse, hbefore, hpiece⟩ := reverseSpan_of_fits h
  have hpiece' := extract_append_append before piece.reverse after
  rw [Array.size_reverse] at hpiece'
  rw [hreverse, hdata, ← hpiece, ← hbefore, extract_append_append, hpiece']

/-- …and everything before it and behind it stays. -/
theorem Bytes.extract_reverseSpan_of_disjoint (h : j ≤ span.start ∨ span.stop ≤ i) :
    (data.reverseSpan span).extract i j = data.extract i j := by
  rcases Nat.lt_or_ge data.size span.stop with hlt | hle
  · rw [reverseSpan, if_neg (Nat.not_le.2 hlt)]
  · obtain ⟨before, piece, after, hdata, hreverse, hbefore, hpiece⟩ := reverseSpan_of_fits hle
    have hnone : ∀ middle : Bytes, middle.size = piece.size →
        middle.extract (i - before.size) (j - before.size) = #[] := by
      intro middle hmiddle
      refine Array.extract_eq_empty_iff.2 ?_
      omega
    rw [hreverse, hdata]
    simp only [Array.extract_append, Array.size_append, Array.size_reverse]
    rw [hnone piece.reverse Array.size_reverse, hnone piece rfl]

@[simp] theorem Bytes.size_reverseSpan (data : Bytes) (span : Span) :
    (data.reverseSpan span).size = data.size := by
  rcases Nat.lt_or_ge data.size span.stop with hlt | hle
  · rw [reverseSpan, if_neg (Nat.not_le.2 hlt)]
  · obtain ⟨before, piece, after, hdata, hreverse, -⟩ := reverseSpan_of_fits hle
    rw [hreverse, hdata]
    simp only [Array.size_append, Array.size_reverse]

@[simp] theorem EntryField.size_turn (start : ℕ) (data : Bytes) (field : EntryField) :
    (field.turn start data).size = data.size := by
  cases field with
  | word w => exact Bytes.size_reverseSpan data _
  | bytes n => rfl

/-- Turning a field leaves all other bytes as they are. -/
theorem EntryField.extract_turn_of_disjoint {field : EntryField}
    (h : j ≤ start ∨ start + field.size ≤ i) :
    (field.turn start data).extract i j = data.extract i j := by
  cases field with
  | word w => exact Bytes.extract_reverseSpan_of_disjoint h
  | bytes n => rfl

@[simp] theorem Bytes.size_turnFields (start : ℕ) (data : Bytes) (fields : List EntryField) :
    (data.turnFields start fields).size = data.size := by
  induction fields generalizing start data with
  | nil => rfl
  | cons field rest ih => rw [turnFields, ih, EntryField.size_turn]

/-- Fields in a row are turned from their start on. -/
theorem Bytes.extract_turnFields_of_le {fields : List EntryField} (h : j ≤ start) :
    (data.turnFields start fields).extract i j = data.extract i j := by
  induction fields generalizing start data with
  | nil => rfl
  | cons field rest ih =>
    rw [turnFields, ih (Nat.le_add_right_of_le h), EntryField.extract_turn_of_disjoint (.inl h)]

theorem FilledField.size_stored (order : ByteOrder) (filled : FilledField) :
    (filled.stored order).size = filled.field.size := by
  cases filled with
  | mk field content =>
    cases field with
    | word w => exact Vector.size_toArray _
    | bytes n => exact Vector.size_toArray _

/-- **What is stored in little-endian order is stored in big-endian order once it is turned.** -/
theorem FilledField.stored_turn {filled : FilledField}
    (hsize : start + filled.field.size ≤ data.size)
    (h : filled.stored .little = data.extract start (start + filled.field.size)) :
    filled.stored .big =
      (filled.field.turn start data).extract start (start + filled.field.size) := by
  obtain ⟨field, content⟩ := filled
  cases field with
  | word w =>
    have hspan : (data.reverseSpan ⟨start, w.bytes⟩).extract start (start + w.bytes) = _ :=
      Bytes.extract_reverseSpan hsize
    rw [EntryField.turn, EntryField.size, hspan]
    exact (Vector.toArray_reverse _).symm.trans (congrArg Array.reverse h)
  | bytes n => exact h

/-- …and so is a row of fields. -/
theorem storedRow_turnFields {row : List FilledField}
    (hsize : start + EntryField.totalSize (row.map FilledField.field) ≤ data.size)
    (h : storedRow .little row =
      data.extract start (start + EntryField.totalSize (row.map FilledField.field))) :
    storedRow .big row = (data.turnFields start (row.map FilledField.field)).extract start
      (start + EntryField.totalSize (row.map FilledField.field)) := by
  induction row generalizing start data with
  | nil => simp [storedRow]
  | cons filled rest ih =>
    rw [List.map_cons, EntryField.totalSize_cons, ← Nat.add_assoc] at hsize h ⊢
    rw [storedRow, Bytes.extract_append (Nat.le_add_right _ _) (Nat.le_add_right _ _)] at h
    obtain ⟨hhead, htail⟩ := Array.append_inj h (by
      rw [FilledField.size_stored, Array.size_extract]
      omega)
    rw [storedRow, Bytes.turnFields,
      Bytes.extract_append (Nat.le_add_right _ _) (Nat.le_add_right _ _),
      Bytes.extract_turnFields_of_le (Nat.le_refl _),
      ← FilledField.stored_turn (by omega) hhead]
    -- The head is done with, and turning it has left the bytes of the rest as they were.
    congr 1
    refine ih ?_ ?_
    · rwa [EntryField.size_turn]
    · rw [htail, EntryField.extract_turn_of_disjoint (.inr (Nat.le_refl _))]

end Turning

/-! ## Turning the data instead of the words -/

/-- The spans of a run that succeeds all lie within the bytes. -/
theorem Reader.Shows.find?_eq_none_of_ok {R : Reader σ} {s t : σ} {medium : Medium} {data : Bytes}
    {cursor after : Cursor} {n : ℕ} {entries : Array (Entry f)} (h : R.Shows s medium data)
    (hdata : data.size < 2 ^ 64)
    (hrun : (Cursor.entryReader R).readEntries f n (cursor, s) = (.ok entries, (after, t))) :
    (f.schedule cursor.position.toNat n).find? (data.size < ·.stop) = none := by
  obtain ⟨-, -, -, hfits, -⟩ := h.encodeEntries_eq hdata hrun
  rcases Nat.eq_zero_or_pos n with rfl | hn
  · rfl
  · refine List.find?_eq_none.2 fun span hspan => ?_
    have hstop := (Format.stop_le_of_mem_schedule hspan).trans (hfits hn)
    simpa using hstop

/-- A run is stored in the opposite order once its window is turned. -/
theorem encodeEntries_turnFields {data : Bytes} {start : ℕ} {entries : List (Entry f)}
    (hsize : start + entries.length * f.entrySize ≤ data.size)
    (h : encodeEntries .little entries =
      data.extract start (start + entries.length * f.entrySize)) :
    encodeEntries .big entries =
      (data.turnFields start (f.rowFields entries.length)).extract start
        (start + entries.length * f.entrySize) := by
  have hrow := map_field_filledRow entries
  rw [← storedRow_filledRow, ← f.totalSize_rowFields, ← hrow] at h
  rw [← f.totalSize_rowFields, ← hrow] at hsize
  rw [← storedRow_filledRow, ← f.totalSize_rowFields, ← hrow]
  exact storedRow_turnFields hsize h

namespace Source

/-- **Turned data read as the data did**, in the opposite order: with the same entries or the same
error, and up to the same position. -/
theorem readEntries_turnFields (fs : FileSystem) {source source' : Source} {data : Bytes}
    {n : ℕ} {position : UInt64} (hsource : source.memory? = some data)
    (hsource' : source'.memory? =
      some (data.turnFields position.toNat (f.rowFields n))) (hdata : data.size < 2 ^ 64) :
    let E := Cursor.entryReader (reader fs)
    let little := E.readEntries f n ({ order := .little, position }, source)
    let big := E.readEntries f n ({ order := .big, position }, source')
    big.1 = little.1 ∧ big.2.1.position = little.2.1.position := by
  intro E little big
  have hshows : (reader fs).Shows source .buffer data := shows_of_memory? hsource
  have hshows' : (reader fs).Shows source' .buffer _ := shows_of_memory? hsource'
  have hsize := data.size_turnFields position.toNat (f.rowFields n)
  have hdata' := hsize ▸ hdata
  -- Where a run ends is told by the number of bytes alone, and turning keeps it.
  rcases hlittle : little with ⟨e | xs, after, left⟩ <;>
    rcases hbig : big with ⟨e' | ys, after', left'⟩
  · obtain ⟨-, -, span, hspan, rfl, hstart⟩ := hshows.find?_eq_of_error hdata hlittle
    obtain ⟨-, -, span', hspan', rfl, hstart'⟩ := hshows'.find?_eq_of_error hdata' hbig
    rw [hsize, hspan] at hspan'
    obtain rfl := Option.some.inj hspan'
    refine ⟨?_, UInt64.toNat_inj.1 (hstart'.trans hstart.symm)⟩
    rw [Bytes.shortfall, Bytes.shortfall, hsize]
  · obtain ⟨-, -, span, hspan, -⟩ := hshows.find?_eq_of_error hdata hlittle
    have hspan' := hshows'.find?_eq_none_of_ok hdata' hbig
    rw [hsize, hspan] at hspan'
    cases hspan'
  · obtain ⟨-, -, span', hspan', -⟩ := hshows'.find?_eq_of_error hdata' hbig
    rw [hsize, hshows.find?_eq_none_of_ok hdata hlittle] at hspan'
    cases hspan'
  · obtain ⟨hxs, -, hafter, hfits, hstored⟩ := hshows.encodeEntries_eq hdata hlittle
    obtain ⟨hys, -, hafter', -, hstored'⟩ := hshows'.encodeEntries_eq hdata' hbig
    refine ⟨congrArg Except.ok ?_, UInt64.toNat_inj.1 (hafter'.trans hafter.symm)⟩
    rcases Nat.eq_zero_or_pos n with rfl | hn
    · rw [Array.eq_empty_of_size_eq_zero hxs, Array.eq_empty_of_size_eq_zero hys]
    · rw [← Array.length_toList] at hxs
      have hfits' := hfits hn
      subst hxs
      refine Array.toList_inj.1 (encodeEntries_injective (by rw [Array.length_toList, hys])
        (hstored'.trans (encodeEntries_turnFields hfits' hstored).symm))

end Source

/-- **The byte orders differ by a swap of the integers**, for either format and whatever a reader
replies, also if its replies depend on the calls before.  Two cursors of opposite orders at one
position make the same calls, end at the same position and fail with the same error, and the entries
of one are those of the other with their tags, types and counts swapped.  So bytes in memory read in
one order as they do in the other, once the integers of the records that lie within them are turned
in place. -/
theorem readEntries_of_opposite_orders (f : Format) (n : ℕ) (position : UInt64) :
    (∀ {σ : Type} (R : Reader σ) (s : σ),
      let E := Cursor.entryReader R.recorded
      let little := E.readEntries f n ({ order := .little, position }, { source := s })
      let big := E.readEntries f n ({ order := .big, position }, { source := s })
      big.1 = little.1.map (Array.map Entry.swap) ∧
        little.1 = big.1.map (Array.map Entry.swap) ∧
        big.2.1.position = little.2.1.position ∧ big.2.2 = little.2.2) ∧
      ∀ (fs : FileSystem) (source source' : Source) (data : Bytes),
        source.memory? = some data → data.size < 2 ^ 64 →
          source'.memory? = some (data.turnFields position.toNat (f.rowFields n)) →
            let E := Cursor.entryReader (Source.reader fs)
            let little := E.readEntries f n ({ order := .little, position }, source)
            let big := E.readEntries f n ({ order := .big, position }, source')
            big.1 = little.1 ∧ big.2.1.position = little.2.1.position := by
  refine ⟨fun R s => ?_, fun fs source source' data hsource hdata hsource' =>
    Source.readEntries_turnFields fs hsource hsource' hdata⟩
  intro E little big
  obtain ⟨hresult, hopposed⟩ := Cursor.readEntries_opposed R.recorded f n position { source := s }
  have hback : little.1 = big.1.map (Array.map Entry.swap) := by
    rw [hresult]
    rcases little.1 with e | entries
    · rfl
    · simp [Except.map, Function.comp_def]
  exact ⟨hresult, hback, hopposed.position_eq.symm, hopposed.source_eq.symm⟩

/-- A record, and of the next one the tag and half of the type.  Turned in place, all but the byte
of the type, they read in big-endian order as before: one entry, and no second one. -/
theorem readEntries_of_opposite_orders_truncated :
    let data : Bytes := #[0xFF, 1, 2, 3, 0, 5, 0, 0, 1, 9, 8, 7, 6, 4, 2, 3]
    let turned : Bytes := #[0xFF, 2, 1, 0, 3, 1, 0, 0, 5, 9, 8, 7, 6, 2, 4, 3]
    let E := Cursor.entryReader (Source.reader .empty)
    let big := E.readEntries .classic 2 ({ order := .big, position := 1 }, .buffer ⟨turned⟩)
    data.size < 2 ^ 64 ∧ turned = data.turnFields 1 (Format.classic.rowFields 2) ∧
      (E.readEntries .classic 2 ({ order := .little, position := 1 }, .buffer ⟨data⟩)).1 =
        .error (.truncatedField 15 2 1) ∧
      big.1 = .error (.truncatedField 15 2 1) ∧ big.2.1.position = 15 := by
  intro data turned E big
  have hsize : data.size < 2 ^ 64 := by decide
  have hturned : turned = data.turnFields 1 (Format.classic.rowFields 2) := by decide +kernel
  have hlittle : (E.readEntries .classic 2 ({ order := .little, position := 1 },
      .buffer ⟨data⟩)).1 = .error (.truncatedField 15 2 1) := by
    decide +kernel
  have hposition : (E.readEntries .classic 2 ({ order := .little, position := 1 },
      .buffer ⟨data⟩)).2.1.position = 15 := by
    decide +kernel
  obtain ⟨hresult, hend⟩ := (readEntries_of_opposite_orders .classic 2 1).2 .empty
    (.buffer ⟨data⟩) (.buffer ⟨turned⟩) data rfl hsize (congrArg some hturned)
  exact ⟨hsize, hturned, hlittle, hresult.trans hlittle, hend.trans hposition⟩

end TiffDirectory
