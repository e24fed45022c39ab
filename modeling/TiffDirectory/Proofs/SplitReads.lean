import Mathlib
import TiffDirectory.Proofs.RoundTrip
import TiffDirectory.Proofs.Rows

/-!
# Proofs/SplitReads — one read, or many

What is read of fixed bytes depends on how many are read and not on how they are parted: **rows of
one size agree** (`Reader.Shows.readRow_agree`) in whether they are read, in the bytes that they
deliver and in where they leave the cursor.  So any parts read what one read of all their bytes
reads, and an integer is made of integers of half its width (`Source.Holds.readRow_split`).

They differ in how they fail: parts up to the end of the bytes are consumed.
-/

namespace TiffDirectory

variable {σ : Type}

namespace EntryReader

/-- A row of one field. -/
theorem readRow_singleton (E : EntryReader σ) (field : EntryField) :
    E.readRow [field] = (fun content => [⟨field, content⟩]) <$> E.readField field := by
  simp only [readRow, List.mapM_cons, List.mapM_nil, ask, Functor.map_map, map_pure,
    bind_pure_comp]

/-- Two integers of one width, one after the other. -/
def readPair (E : EntryReader σ) (w : Width) : ReadM σ (Word w × Word w) := do
  let first ← E.readWord w
  let second ← E.readWord w
  return (first, second)

theorem readRow_pair (E : EntryReader σ) (w : Width) :
    E.readRow [.word w, .word w] =
      (fun pair => [⟨.word w, pair.1⟩, ⟨.word w, pair.2⟩]) <$> E.readPair w := by
  simp only [readRow, readPair, List.mapM_cons, List.mapM_nil, ask, readField, bind_map_left,
    map_bind, Functor.map_map, map_pure, bind_pure_comp]

end EntryReader

namespace Cursor

/-- **Two reads agree**: both succeed or neither does, and if they succeed, they leave the cursor at
one place, and what they read is so related. -/
structure Agree {α β : Type} (P : α → β → Prop) (one : Result α × (Cursor × σ))
    (other : Result β × (Cursor × σ)) : Prop where
  isOk_iff : one.1.isOk ↔ other.1.isOk
  ok {a : α} {b : β} (hone : one.1 = .ok a) (hother : other.1 = .ok b) :
    P a b ∧ one.2.1 = other.2.1

variable {α β γ δ : Type} {P Q : α → β → Prop} {one : Result α × (Cursor × σ)}
  {other : Result β × (Cursor × σ)}

theorem Agree.imp (h : Agree P one other)
    (hPQ : ∀ a b, one.1 = .ok a → other.1 = .ok b → P a b → Q a b) : Agree Q one other where
  isOk_iff := h.isOk_iff
  ok hone hother := ⟨hPQ _ _ hone hother (h.ok hone hother).1, (h.ok hone hother).2⟩

/-- Reads agree if what is made of them does. -/
theorem Agree.of_map {P : γ → δ → Prop} {x : ReadM (Cursor × σ) α} {y : ReadM (Cursor × σ) β}
    {f : α → γ} {g : β → δ} {placed : Cursor × σ}
    (h : Agree P ((f <$> x) placed) ((g <$> y) placed)) :
    Agree (fun a b => P (f a) (g b)) (x placed) (y placed) := by
  rw [ReadM.map_apply, ReadM.map_apply] at h
  refine ⟨?_, fun {a b} hx hy => h.ok (congrArg (Except.map f) hx) (congrArg (Except.map g) hy)⟩
  have hok := h.isOk_iff
  rwa [Result.isOk_map, Result.isOk_map] at hok

end Cursor

namespace Reader.Shows

variable {R : Reader σ} {s : σ} {medium : Medium} {data : Bytes}

/-- **Rows of one size agree**, however they are parted. -/
theorem readRow_agree (h : R.Shows s medium data) (hdata : data.size < 2 ^ 64) (cursor : Cursor)
    {xs ys : List EntryField} (hsize : EntryField.totalSize xs = EntryField.totalSize ys) :
    Cursor.Agree (fun row row' => storedRow cursor.order row = storedRow cursor.order row')
      ((Cursor.entryReader R).readRow xs (cursor, s))
      ((Cursor.entryReader R).readRow ys (cursor, s)) := by
  have hok := h.isOk_readRow_iff hdata cursor xs
  have hok' := h.isOk_readRow_iff hdata cursor ys
  rw [← hsize] at hok'
  refine ⟨hok.trans hok'.symm, fun {row row'} hxs hys => ?_⟩
  obtain ⟨-, hstored, horder, hposition⟩ := h.storedRow_of_readRow hdata (Prod.ext hxs rfl)
  obtain ⟨-, hstored', horder', hposition'⟩ := h.storedRow_of_readRow hdata (Prod.ext hys rfl)
  rw [← hsize] at hstored' hposition'
  exact ⟨hstored.trans hstored'.symm,
    Cursor.ext_toNat (horder.trans horder'.symm) (hposition.trans hposition'.symm)⟩

/-- Any parts agree with one read of all their bytes. -/
theorem readRow_readBytes (h : R.Shows s medium data) (hdata : data.size < 2 ^ 64)
    (cursor : Cursor) (parts : List EntryField) :
    Cursor.Agree (fun row bytes => row.map FilledField.field = parts ∧
        storedRow cursor.order row = bytes.toArray)
      ((Cursor.entryReader R).readRow parts (cursor, s))
      ((Cursor.entryReader R).readBytes (EntryField.totalSize parts) (cursor, s)) := by
  have hsize : EntryField.totalSize parts =
      EntryField.totalSize [.bytes (EntryField.totalSize parts)] := rfl
  have hagree := h.readRow_agree hdata cursor hsize
  rw [EntryReader.readRow_singleton, ← id_map ((Cursor.entryReader R).readRow parts)] at hagree
  refine hagree.of_map.imp fun row bytes hrow _ hstored => ⟨?_, hstored.trans Array.append_empty⟩
  exact (h.storedRow_of_readRow hdata (Prod.ext hrow rfl)).1

/-- **An integer is made of two of half its width.** -/
theorem readWord_readPair (h : R.Shows s medium data) (hdata : data.size < 2 ^ 64) (cursor : Cursor)
    {wide narrow : Width} (hhalf : wide.bytes = 2 * narrow.bytes) :
    Cursor.Agree (fun v pair =>
        v.toNat = cursor.order.join narrow.bytes pair.1.toNat pair.2.toNat)
      ((Cursor.entryReader R).readWord wide (cursor, s))
      ((Cursor.entryReader R).readPair narrow (cursor, s)) := by
  have hsize : EntryField.totalSize [.word wide] =
      EntryField.totalSize [.word narrow, .word narrow] := by
    simp only [EntryField.totalSize_cons, EntryField.totalSize_nil, EntryField.size]
    omega
  have hagree := h.readRow_agree hdata cursor hsize
  rw [EntryReader.readRow_singleton, EntryReader.readRow_pair] at hagree
  refine hagree.of_map.imp fun v pair _ _ hstored => ?_
  simp only [storedRow, FilledField.stored, Array.append_empty] at hstored
  calc v.toNat = cursor.order.value (Word.toBytes cursor.order v).toList :=
        (Word.value_toBytes cursor.order v).symm
    _ = cursor.order.value ((Word.toBytes cursor.order pair.1).toList ++
          (Word.toBytes cursor.order pair.2).toList) := by
        rw [Vector.toList, hstored, Array.toList_append]
        rfl
    _ = cursor.order.join narrow.bytes pair.1.toNat pair.2.toNat := by
        rw [ByteOrder.value_append _ Vector.length_toList Vector.length_toList,
          Word.value_toBytes, Word.value_toBytes]

/-- **Where parts fail**: at the first one with any bytes that reaches past the end. -/
theorem readRow_cut (h : R.Shows s medium data) (hdata : data.size < 2 ^ 64) {cursor after : Cursor}
    {parts : List EntryField} {e : Error} {t : σ}
    (hrow : (Cursor.entryReader R).readRow parts (cursor, s) = (.error e, (after, t))) :
    ∃ before field rest, parts = before ++ field :: rest ∧
      (∀ span ∈ layout cursor.position.toNat before, 0 < span.width → span.stop ≤ data.size) ∧
      let span : Span := ⟨cursor.position.toNat + EntryField.totalSize before, field.size⟩
      0 < span.width ∧ data.size < span.stop ∧ e = data.shortfall medium span ∧
        after.position.toNat = span.start ∧
        ∃ row left,
          (Cursor.entryReader R).readRow before (cursor, s) = (.ok row, (after, left)) := by
  obtain ⟨result, last, u, hrun, -, horder, houtcome⟩ := h.readsRow hdata cursor parts
  obtain ⟨rfl, hlast⟩ := Prod.mk.inj (hrow.symm.trans hrun)
  obtain ⟨rfl, rfl⟩ := Prod.mk.inj hlast
  cases houtcome with
  | @cut before rest field _ _ hparts fits misses report position =>
    have hwide : 0 < field.size := by omega
    have hbeyond :
        data.size < cursor.position.toNat + EntryField.totalSize before + field.size := by omega
    refine ⟨before, field, rest, hparts, fun span hspan _ => ?_, hwide, hbeyond,
      position ▸ report, position, ?_⟩
    · obtain ⟨hstart, hstop⟩ := start_le_and_stop_le_of_mem_layout hspan
      rw [Span.stop] at hstop ⊢
      omega
    · obtain ⟨row, ⟨stop, left⟩, hbefore⟩ : ∃ row stop,
          (Cursor.entryReader R).readRow before (cursor, s) = (.ok row, stop) := by
        have hok := (h.isOk_readRow_iff hdata cursor before).2 fits
        rcases hbefore : (Cursor.entryReader R).readRow before (cursor, s) with ⟨d | row, stop⟩
        · rw [hbefore] at hok
          cases hok
        · exact ⟨row, stop, rfl⟩
      obtain ⟨-, -, horder', hstop⟩ := h.storedRow_of_readRow hdata hbefore
      obtain rfl : stop = after :=
        Cursor.ext_toNat (horder'.trans horder.symm) (hstop.trans position.symm)
      exact ⟨row, left, hbefore⟩

end Reader.Shows

/-! ## Parts of a read -/

namespace Source

/-- **Splitting a read does not change what is read.**  Any parts, read up to the first that fails,
are all read exactly when one read of all their bytes succeeds; what they deliver is then stored as
the bytes of that read, and the cursor stops at the same place.  Otherwise they fail at the first
part with any bytes that reaches past the end, with its own report, and the cursor stands where
reading the parts before it leaves it.

An integer is made of two of half its width, in the byte order of the cursor. -/
theorem Holds.readRow_split {files : FileSystem} {source : Source} {medium : Medium} {data : Bytes}
    (h : source.Holds files medium data.size data) (cursor : Cursor) (parts : List EntryField) :
    let E := Cursor.entryReader (reader files)
    let split := E.readRow parts (cursor, source)
    let whole := E.readBytes (EntryField.totalSize parts) (cursor, source)
    Cursor.Agree (fun row bytes => row.map FilledField.field = parts ∧
      storedRow cursor.order row = bytes.toArray) split whole ∧
    (∀ e, whole.1 = .error e → ∃ before field rest, parts = before ++ field :: rest ∧
      (∀ span ∈ layout cursor.position.toNat before, 0 < span.width → span.stop ≤ data.size) ∧
      let span : Span := ⟨cursor.position.toNat + EntryField.totalSize before, field.size⟩
      0 < span.width ∧ data.size < span.stop ∧ split.1 = .error (data.shortfall medium span) ∧
        split.2.1.position.toNat = span.start ∧
        ∃ row left, E.readRow before (cursor, source) = (.ok row, (split.2.1, left))) ∧
    ∀ wide narrow : Width, wide.bytes = 2 * narrow.bytes →
      Cursor.Agree (fun v pair =>
          v.toNat = cursor.order.join narrow.bytes pair.1.toNat pair.2.toNat)
        (E.readWord wide (cursor, source)) (E.readPair narrow (cursor, source)) := by
  intro E split whole
  have hagree := h.shows.readRow_readBytes h.length_lt cursor parts
  refine ⟨hagree, fun e he => ?_,
    fun wide narrow hhalf => h.shows.readWord_readPair h.length_lt cursor hhalf⟩
  rcases hrow : split with ⟨d | row, after, left⟩
  · obtain ⟨before, field, rest, hparts, hbefore, hwide, hbeyond, rfl, hcut⟩ :=
      h.shows.readRow_cut h.length_lt hrow
    exact ⟨before, field, rest, hparts, hbefore, hwide, hbeyond, rfl, hcut⟩
  · have hok : whole.1.isOk := hagree.isOk_iff.1 (congrArg (·.1.isOk) hrow)
    rw [he] at hok
    cases hok

/-- Of seven bytes, two, none and four from position 1 on are the last six.  Two, none and eight are
not there: the run stops at position 3, after parts of two bytes. -/
theorem Holds.readRow_split_seven :
    let data : Bytes := #[1, 2, 3, 4, 5, 6, 7]
    let source : Source := .view ⟨data.toSubarray⟩
    let cursor : Cursor := { order := .big, position := 1 }
    let read parts := (Cursor.entryReader (reader .empty)).readRow parts (cursor, source)
    source.Holds .empty .buffer data.size data ∧
      (∃ row, (read [.word .u16, .bytes 0, .word .u32]).1 = .ok row ∧
        storedRow .big row = #[2, 3, 4, 5, 6, 7]) ∧
      (read [.word .u16, .bytes 0, .word .u64]).2.1.position = 3 ∧
      ∃ before field rest, [.word .u16, .bytes 0, .word .u64] = before ++ field :: rest ∧
        EntryField.totalSize before = 2 ∧ 0 < field.size := by
  intro data source cursor read
  have hholds : source.Holds .empty .buffer data.size data := .memory rfl (by decide)
  have hstop : (read [.word .u16, .bytes 0, .word .u64]).2.1.position = 3 := by decide +kernel
  obtain ⟨hagree, -, -⟩ := hholds.readRow_split cursor [.word .u16, .bytes 0, .word .u32]
  obtain ⟨-, hcut, -⟩ := hholds.readRow_split cursor [.word .u16, .bytes 0, .word .u64]
  have hwhole : ((Cursor.entryReader (reader .empty)).readBytes
      (EntryField.totalSize [.word .u16, .bytes 0, .word .u32]) (cursor, source)).1 =
        .ok #v[2, 3, 4, 5, 6, 7] := by decide +kernel
  have hshort : ((Cursor.entryReader (reader .empty)).readBytes
      (EntryField.totalSize [.word .u16, .bytes 0, .word .u64]) (cursor, source)).1 =
        .error (.truncatedField 1 10 6) := by decide +kernel
  refine ⟨hholds, ?_, hstop, ?_⟩
  · have hread := hagree.isOk_iff.2 (congrArg (·.isOk) hwhole)
    rcases hrow : (read [.word .u16, .bytes 0, .word .u32]).1 with e | row
    · rw [hrow] at hread
      cases hread
    · exact ⟨row, rfl, (hagree.ok hrow hwhole).1.2⟩
  · obtain ⟨before, field, rest, hparts, -, hwide, -, -, hposition, -⟩ := hcut _ hshort
    have hbefore : 3 = 1 + EntryField.totalSize before :=
      (congrArg UInt64.toNat hstop).symm.trans hposition
    exact ⟨before, field, rest, hparts, by omega, hwide⟩

end Source

end TiffDirectory
