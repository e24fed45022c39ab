import Mathlib
import TiffDirectory.Proofs.RandomAccess
import TiffDirectory.Proofs.RoundTrip
import TiffDirectory.Proofs.Rows

/-!
# Proofs/StoredWords — a list of words in memory, read back word by word

Words lie in memory in the native order, one after the other.  A cursor that stands at one of them
and is asked for words of their width over and over (`ReadM.attempts`) gives that one and all that
follow, as they are if its order is the native one and swapped if not; then it **stays at the end and
fails there, however often it is asked** (`Source.attempts_readWord`).
-/

namespace TiffDirectory

variable {σ α : Type}

/-! ## Steps that are done over and over -/

namespace ReadM

/-- The results of a step that is done `n` times, **each time whether it succeeded before or not**,
and what the last time leaves. -/
def attempts (step : ReadM σ α) : ℕ → σ → List (Result α) × σ
  | 0, s => ([], s)
  | n + 1, s =>
    let (result, t) := step s
    let (more, left) := attempts step n t
    (result :: more, left)

variable {step : ReadM σ α} {s t : σ} {result : Result α}

theorem attempts_succ (h : step s = (result, t)) (n : ℕ) :
    step.attempts (n + 1) s = (result :: (step.attempts n t).1, (step.attempts n t).2) := by
  rw [attempts, h]

/-- A step that leaves all as it was has one result for ever. -/
theorem attempts_of_same (h : step s = (result, s)) (n : ℕ) :
    step.attempts n s = (List.replicate n result, s) := by
  induction n with
  | zero => rfl
  | succ n ih => rw [attempts_succ h, ih, List.replicate_succ]

end ReadM

/-! ## Words in memory -/

namespace Bytes

variable {w : Width} {words : List (Word w)}

theorem size_ofWords (words : List (Word w)) : (ofWords words).size = words.length * w.bytes :=
  size_joined (fun v => v.store.size_toArray) words

/-- Each word has its own part of the bytes. -/
theorem extract_ofWords {i : ℕ} (hi : i < words.length) :
    (ofWords words).extract (i * w.bytes) (i * w.bytes + w.bytes) = words[i].store.toArray := by
  have hsize := size_ofWords words
  have hwhole : joined (fun v : Word w => v.store.toArray) words =
      (ofWords words).extract 0 (0 + words.length * w.bytes) := by
    rw [Nat.zero_add, ← hsize, Array.extract_size]
    rfl
  have hrecord := record_eq_extract_of_joined (fun v => v.store.size_toArray) (by omega) hwhole i hi
  rw [hrecord, Nat.zero_add]

end Bytes

namespace Source

variable {w : Width} {words : List (Word w)} {source : Source} {order : ByteOrder} {i : ℕ}

/-- The source was made of the words as they lie in memory, which it shows or has copied. -/
inductive OfWords (words : List (Word w)) : Source → Prop
  | view : OfWords words (.view (.ofWords words))
  | buffer : OfWords words (.buffer (.ofWords words))

theorem OfWords.memory?_eq (h : source.OfWords words) :
    source.memory? = some (.ofWords words) := by
  cases h with
  | view => exact congrArg some (BufferView.bytes_ofBytes _)
  | buffer => rfl

/-- The cursor of a byte order at word number `i`. -/
def cursorAt (order : ByteOrder) (w : Width) (i : ℕ) : Cursor :=
  { order, position := .ofNat (i * w.bytes) }

theorem toNat_position_cursorAt (order : ByteOrder) (small : words.length * w.bytes < 2 ^ 64)
    (hi : i ≤ words.length) : (cursorAt order w i).position.toNat = i * w.bytes :=
  UInt64.toNat_ofNat_of_lt' (Nat.lt_of_le_of_lt (Nat.mul_le_mul_right w.bytes hi) small)

/-- **A cursor at a word reads it and goes to the next**; it shows the word as converted from the
native order to its own. -/
theorem readWord_of_lt (fs : FileSystem) (h : source.OfWords words)
    (small : words.length * w.bytes < 2 ^ 64) (order : ByteOrder) (hi : i < words.length) :
    Cursor.readWord (reader fs) w (cursorAt order w i, source) =
      (.ok (words[i].convert .native order), (cursorAt order w (i + 1), source)) := by
  have hsize := Bytes.size_ofWords words
  have hstart := toNat_position_cursorAt order small hi.le
  have hstop := toNat_position_cursorAt order small hi
  have hlast : (i + 1) * w.bytes ≤ words.length * w.bytes := Nat.mul_le_mul_right w.bytes hi
  rw [Nat.succ_mul] at hlast hstop
  have hshows : (reader fs).Shows source .buffer _ := shows_of_memory? h.memory?_eq
  have hfits : (EntryField.word w).size ≤
      (Bytes.ofWords words).size - (cursorAt order w i).position.toNat := by
    rw [hstart, hsize, EntryField.size]
    omega
  obtain ⟨v, after, t, hread, hafter, horder, hposition, hstored⟩ :=
    hshows.readField_of_le (hsize ▸ small) hfits
  rw [hstart] at hposition hstored
  obtain rfl := eq_of_after_of_memory? h.memory?_eq hafter
  obtain rfl : after = cursorAt order w (i + 1) :=
    Cursor.ext_toNat horder (hposition.trans hstop.symm)
  have hbytes : Word.toBytes order v = words[i].store :=
    Vector.toArray_inj.1 (hstored.trans (Bytes.extract_ofWords hi))
  rw [← Word.ofBytes_toBytes, Word.toBytes_native, ← hbytes, Word.ofBytes_toBytes,
    Word.convert_self]
  exact hread

/-- **A cursor after the last word fails and stays.** -/
theorem readWord_of_end (fs : FileSystem) (h : source.OfWords words)
    (small : words.length * w.bytes < 2 ^ 64) (order : ByteOrder) :
    let total := words.length * w.bytes
    Cursor.readWord (reader fs) w (cursorAt order w words.length, source) =
      (.error (.offsetBeyondEnd .buffer total total), (cursorAt order w words.length, source)) := by
  intro total
  have hsize := Bytes.size_ofWords words
  have hstart := toNat_position_cursorAt order small le_rfl
  have hpos := w.bytes_pos
  have hshows : (reader fs).Shows source .buffer _ := shows_of_memory? h.memory?_eq
  have hmisses : (Bytes.ofWords words).size - (cursorAt order w words.length).position.toNat <
      (EntryField.word w).size := by
    rw [hstart, hsize, EntryField.size]
    omega
  obtain ⟨t, hread, hafter⟩ := hshows.readField_of_lt hmisses
  obtain rfl := eq_of_after_of_memory? h.memory?_eq hafter
  rw [Bytes.shortfall, if_pos (by rw [hstart, hsize]), hstart, hsize] at hread
  exact hread

/-- **Words are read back one by one**, and after the last one the end is reported for ever. -/
theorem attempts_readWord (fs : FileSystem) (h : source.OfWords words)
    (small : words.length * w.bytes < 2 ^ 64) (order : ByteOrder) (hi : i ≤ words.length) (n : ℕ) :
    let total := words.length * w.bytes
    (Cursor.readWord (reader fs) w).attempts n (cursorAt order w i, source) =
      (((words.drop i).take n).map (fun v => .ok (v.convert .native order)) ++
          List.replicate (n - (words.length - i)) (.error (.offsetBeyondEnd .buffer total total)),
        (cursorAt order w (min (i + n) words.length), source)) := by
  intro total
  induction n generalizing i with
  | zero => simp [ReadM.attempts, hi]
  | succ n ih =>
    rcases Nat.lt_or_eq_of_le hi with hlt | rfl
    · have hcount : n + 1 - (words.length - i) = n - (words.length - (i + 1)) := by omega
      have hplace : i + (n + 1) = i + 1 + n := by omega
      rw [ReadM.attempts_succ (readWord_of_lt fs h small order hlt), ih hlt,
        List.drop_eq_getElem_cons hlt, List.take_succ_cons, List.map_cons, List.cons_append,
        hcount, hplace]
    · have hplace : min (words.length + (n + 1)) words.length = words.length := by omega
      rw [ReadM.attempts_of_same (readWord_of_end fs h small order), List.drop_length,
        List.take_nil, List.map_nil, List.nil_append, Nat.sub_self, Nat.sub_zero, hplace]

/-- **Words in memory are read back**, whether a source shows them or has copied them.  It has as
many bytes as they have.  A cursor that stands at one of them and is asked for words of their width
over and over gives the ones from there on, in order: as they are if its order is the native one,
and with their bytes swapped if not.  After the last one it fails as often as it is asked, and stays
at the end. -/
theorem readWord_of_words (fs : FileSystem) (words : List (Word w))
    (small : words.length * w.bytes < 2 ^ 64) (h : source.OfWords words) :
    let total := words.length * w.bytes
    (∃ size, (reader fs).size source = (.ok size, source) ∧ size.toNat = total) ∧
      ∀ (order : ByteOrder) (i n : ℕ), i ≤ words.length →
        let shown := if order = .native then words.drop i else (words.drop i).map Word.swap
        let run := (Cursor.readWord (reader fs) w).attempts n
          ({ order, position := .ofNat (i * w.bytes) }, source)
        (∃ e, run.1 = (shown.take n).map .ok ++ List.replicate (n - shown.length) (.error e) ∧
          e.code = .outOfBounds ∧
          e.message = s!"Read offset {total} beyond buffer size {total}") ∧
        run.2.1.order = order ∧
        run.2.1.position.toNat = min (i + n) words.length * w.bytes ∧ run.2.2 = source := by
  intro total
  have hsize := Bytes.size_ofWords words
  refine ⟨⟨_, size_of_memory? h.memory?_eq (hsize ▸ small), ?_⟩, fun order i n hi => ?_⟩
  · rw [hsize]
    exact UInt64.toNat_ofNat_of_lt' small
  intro shown run
  have hshown : shown = (words.drop i).map (Word.convert .native order) := by
    dsimp only [shown]
    split
    next hnative =>
      rw [hnative, List.map_congr_left fun v _ => Word.convert_self .native v, List.map_id']
    next hother =>
      exact List.map_congr_left fun v _ => (Word.convert_of_ne (Ne.symm hother) v).symm
  have hlength : shown.length = words.length - i := by
    rw [hshown, List.length_map, List.length_drop]
  have hrun : run = _ := attempts_readWord fs h small order hi n
  have hplace := toNat_position_cursorAt order small (Nat.min_le_right (i + n) _)
  rw [hrun, hlength, hshown, ← List.map_take, List.map_map]
  exact ⟨⟨_, rfl, rfl, Error.message_offsetBeyondEnd .buffer total total⟩, rfl, hplace, rfl⟩

/-- Of three words, highest byte first, the last two are read back swapped from number 1 on, and two
more calls fail at position 12. -/
theorem readWord_of_words_swapped :
    let words : List (Word .u32) := [0x01020304, 0x0A0B0C0D, 7]
    let source : Source := .buffer (.ofWords words)
    let run := (Cursor.readWord (reader .empty) .u32).attempts 4
      ({ order := .big, position := 4 }, source)
    words.length * Width.u32.bytes < 2 ^ 64 ∧ source.OfWords words ∧
      (∃ size, (reader .empty).size source = (.ok size, source) ∧ size.toNat = 12) ∧
      (∃ e, run.1 = [.ok 0x0D0C0B0A, .ok 0x07000000, .error e, .error e] ∧
        e.code = .outOfBounds) ∧ run.2.1.position.toNat = 12 := by
  intro words source run
  have small : words.length * Width.u32.bytes < 2 ^ 64 := by decide
  have hsource : source.OfWords words := .buffer
  have hshown : (words.drop 1).map Word.swap = [0x0D0C0B0A, 0x07000000] := by decide
  obtain ⟨hsize, hread⟩ := readWord_of_words .empty words small hsource
  obtain ⟨⟨e, hresults, hcode, -⟩, -, hposition, -⟩ := hread .big 1 4 (by decide)
  rw [if_neg (by decide), hshown] at hresults
  exact ⟨small, hsource, hsize, ⟨e, hresults, hcode⟩, hposition⟩

end Source

end TiffDirectory
