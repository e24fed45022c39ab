import Mathlib
import TiffDirectory.Proofs.FileLives
import TiffDirectory.Proofs.ShownBytes

/-!
# Proofs/HeldBytes — the bytes that a source holds, and its replies

A source **holds** a length and some bytes (`Source.Holds`): a source in memory its bytes and their
number, an open file reader the length that it took when the file was opened and the bytes that the
file has now.  Its replies are told by these alone (`Holds.read_fst`, `Holds.size_fst`), and a read
that has to be filled goes by the same read that need not be (`Holds.readFull_fst_eq_filled`); where
a stream stands and what it remembers play no part.

Reads leave a source what it holds, whatever files they are done on (`Source.reader_keeps_same`,
`Holds.of_same`).
-/

namespace TiffDirectory

namespace Bytes

/-- The reply of a reader that took the length of its data at another time: the bytes from the
offset on, as far as they exist and lie within the length. -/
def clipTo (medium : Medium) (length : ℕ) (data : Bytes) (offset size : ℕ) : Result Bytes :=
  if length ≤ offset then .error (.offsetBeyondEnd medium offset length)
  else .ok (data.extract offset (offset + min size (length - offset)))

/-- The reply to a read that has to be filled. -/
def fill (medium : Medium) (data : Bytes) (offset size : ℕ) : Result Bytes :=
  if data.size ≤ offset then .error (.offsetBeyondEnd medium offset data.size)
  else if data.size - offset < size then .error (.incompleteRead offset)
  else .ok (data.extract offset (offset + size))

variable {medium : Medium} {data : Bytes} {length offset size : ℕ}

theorem clipTo_of_le (h : length ≤ offset) :
    data.clipTo medium length offset size = .error (.offsetBeyondEnd medium offset length) :=
  if_pos h

theorem clipTo_of_lt (h : offset < length) :
    data.clipTo medium length offset size =
      .ok (data.extract offset (offset + min size (length - offset))) :=
  if_neg (Nat.not_le.2 h)

/-- A read that starts within the length gives what the length and the data both allow. -/
theorem exists_clipTo_eq_ok (h : offset < length) (medium : Medium) (data : Bytes) (size : ℕ) :
    ∃ view, data.clipTo medium length offset size = .ok view ∧
      view.size = min (min size (length - offset)) (data.size - offset) ∧
      view = data.extract offset (offset + view.size) := by
  refine ⟨_, clipTo_of_lt h, ?_, ?_⟩
  · rw [Array.size_extract]
    omega
  · rw [Array.size_extract]
    exact Array.extract_eq_extract_right.2 (by omega)

/-- A length that is taken now clips nothing that the end of the data does not. -/
theorem clipTo_size : data.clipTo medium data.size offset size = data.clip medium offset size := by
  have hstop : data.extract offset (offset + min size (data.size - offset)) =
      data.extract offset (offset + size) := Array.extract_eq_extract_right.2 (by omega)
  rw [clipTo, hstop, clip]

/-- A read that has to be filled gives the whole clip or nothing. -/
theorem fill_eq : data.fill medium offset size =
    match data.clip medium offset size with
    | .error e => .error e
    | .ok view => if view.size < size then .error (.incompleteRead offset) else .ok view := by
  rw [fill, clip]
  split
  next => rfl
  next h =>
    have hshort : (data.extract offset (offset + size)).size < size ↔ data.size - offset < size := by
      rw [Array.size_extract]
      omega
    simp only [hshort]

end Bytes

/-! ## Reads that have to be filled -/

/-- **The reply to a read that has to be filled**, made out of the reply to the same read that need
not be.  A view that is too short is reported by what cut it: the length, or else a file that has
become shorter. -/
def Result.filled (path : String) (length offset size : ℕ) : Result Bytes → Result Bytes
  | .error e => .error e
  | .ok view =>
    if size ≤ view.size then .ok view
    else if length < offset + size then .error (.incompleteRead offset)
    else .error (.cannotRead path)

/-- Nothing but the end of the data cuts a view if the length is theirs. -/
theorem Bytes.filled_clip (medium : Medium) (data : Bytes) (path : String) (offset size : ℕ) :
    (data.clip medium offset size).filled path data.size offset size =
      data.fill medium offset size := by
  have hsize : (data.extract offset (offset + size)).size = min (offset + size) data.size - offset :=
    Array.size_extract
  rw [clip, fill]
  by_cases hle : data.size ≤ offset
  · rw [if_pos hle, if_pos hle, Result.filled]
  · rw [if_neg hle, if_neg hle, Result.filled]
    by_cases hshort : data.size - offset < size
    · rw [if_pos hshort, if_neg (by omega), if_pos (by omega)]
    · rw [if_neg hshort, if_pos (by omega)]

/-! ## Open files -/

namespace FileReader

variable {reader : FileReader} {contents : ℕ} {offset : UInt64}

/-- **What an open reader gives** is told by the length that it took and by the bytes that the file
has now. -/
theorem read_fst (h : reader.stream.map FileStream.source = some (.file contents))
    (fs : FileSystem) (offset : UInt64) (size : ℕ) :
    (read fs offset size reader).1 =
      (fs.bytes contents).clipTo .file reader.size.toNat offset.toNat size := by
  obtain ⟨stream, hstream, hsource⟩ := Option.map_eq_some_iff.1 h
  by_cases hle : reader.size ≤ offset
  · rw [read, ReadM.bind_error (streamAt_of_size_le hstream hle),
      Bytes.clipTo_of_le (UInt64.le_iff_toNat_le.1 hle)]
  · have hlt := UInt64.not_le.1 hle
    rw [read_of_lt_size hstream hsource hlt, Bytes.clipTo_of_lt (UInt64.lt_iff_toNat_lt.1 hlt),
      UInt64.toNat_sub_of_le _ _ (UInt64.le_of_lt hlt)]

/-- **What an open reader fills** is what it gives, if that is as much as asked for. -/
theorem readFull_fst (h : reader.stream.map FileStream.source = some (.file contents))
    (fs : FileSystem) (offset : UInt64) (size : ℕ) :
    (readFull fs offset size reader).1 = (read fs offset size reader).1.filled reader.path
      reader.size.toNat offset.toNat size := by
  rw [read_fst h]
  obtain ⟨stream, hstream, hsource⟩ := Option.map_eq_some_iff.1 h
  by_cases hle : reader.size ≤ offset
  · rw [readFull, ReadM.bind_error (streamAt_of_size_le hstream hle),
      Bytes.clipTo_of_le (UInt64.le_iff_toNat_le.1 hle), Result.filled]
  · have hlt := UInt64.not_le.1 hle
    obtain ⟨view, hclip, hsize, hview⟩ :=
      Bytes.exists_clipTo_eq_ok (UInt64.lt_iff_toNat_lt.1 hlt) .file (fs.bytes contents) size
    have hlt' := UInt64.lt_iff_toNat_lt.1 hlt
    rw [readFull, ReadM.bind_ok (streamAt_of_lt_size hstream hsource hlt),
      ReadM.bind_ok (ReadM.get_apply reader), UInt64.toNat_sub_of_le _ _ (UInt64.le_of_lt hlt),
      hclip, Result.filled]
    split
    next hcut =>
      rw [if_neg (by omega), if_pos (by omega)]
      rfl
    next hfits =>
      have hfound : (fs.bytes contents).extract offset.toNat (offset.toNat + size) = view := by
        rw [hview]
        exact Array.extract_eq_extract_right.2 (by omega)
      rw [ReadM.bind_ok (readOn_of_fresh ..)]
      simp only [FileStream.read_fst_of_fresh, FileStream.read_snd_of_fresh, hfound]
      by_cases hshort : view.size < size
      · rw [if_pos (decide_eq_true hshort), if_neg (by omega), if_neg (by omega)]
        rfl
      · rw [decide_eq_false hshort, if_neg Bool.false_ne_true, if_pos (by omega)]
        rfl

theorem isOpen_of_openPath_eq_ok {fs : FileSystem} {path : String} {old reader : FileReader}
    (h : openPath fs path old = (.ok (), reader)) : (openPath fs path old).2.isOpen = true := by
  have hopens := opens_openPath fs path old
  rw [h] at hopens ⊢
  cases hopens with
  | opened _ isOpen _ => exact isOpen

/-- A reader that opening a path leaves open has open the file that the path led to, and took its
length. -/
theorem exists_contents_of_isOpen {fs : FileSystem} {path : String} {old : FileReader}
    (h : (openPath fs path old).2.isOpen = true) :
    ∃ contents, fs.find? path = some (.file contents) ∧
      (openPath fs path old).2.stream.map FileStream.source = some (.file contents) ∧
      (openPath fs path old).2.size.toNat = (fs.bytes contents).size := by
  have hopens := opens_openPath fs path old
  generalize (openPath fs path old).1.map (fun _ => Value.unit) = result at hopens
  generalize hafter : (openPath fs path old).2 = after at h hopens
  cases hopens with
  | directory _ _ _ closed => exact absurd (h.symm.trans closed) nofun
  | refused _ _ _ _ closed => exact absurd (h.symm.trans closed) nofun
  | unmeasured _ _ _ _ _ closed => exact absurd (h.symm.trans closed) nofun
  | opened known _ size =>
    obtain ⟨contents, hfound, hlength, hopen⟩ := openPath_of_length? known old
    refine ⟨contents, hfound, ?_, size.trans hlength.symm⟩
    rw [← hafter, hopen]
    rfl

end FileReader

/-! ## Sources of any kind -/

namespace Source

/-- The second source has what the first one has, up to where a stream stands and what it
remembers.  Of a faulty reader nothing is asked. -/
inductive Same : Source → Source → Prop
  | view (v : BufferView) : Same (.view v) (.view v)
  | buffer (b : Buffer) : Same (.buffer b) (.buffer b)
  | file {reader other : FileReader} (same : reader.SameFile other) :
      Same (.file reader) (.file other)
  | faulty (s t : Recorded ReadCall FaultyReader) : Same (.faulty s) (.faulty t)

/-- The source holds data of this length, of which these are the bytes now. -/
inductive Holds (files : FileSystem) : Source → Medium → ℕ → Bytes → Prop
  | memory {source : Source} {data : Bytes} (shown : source.memory? = some data)
      (small : data.size < 2 ^ 64) : Holds files source .buffer data.size data
  | file {reader : FileReader} {contents : ℕ}
      (stream : reader.stream.map FileStream.source = some (.file contents)) :
      Holds files (.file reader) .file reader.size.toNat (files.bytes contents)

variable {files : FileSystem} {source other : Source} {medium : Medium} {length : ℕ} {data : Bytes}

theorem Same.refl (source : Source) : source.Same source := by
  cases source with
  | view v => exact .view v
  | buffer b => exact .buffer b
  | file reader => exact .file (.refl reader)
  | faulty s => exact .faulty s s

theorem Same.trans {left : Source} (first : source.Same other) (second : other.Same left) :
    source.Same left := by
  cases first with
  | view v => exact second
  | buffer b => exact second
  | file same =>
    cases second with
    | file same' =>
      exact .file ⟨same'.source.trans same.source, same'.size.trans same.size,
        same'.path.trans same.path⟩
  | faulty s t =>
    cases second with
    | faulty _ u => exact .faulty s u

theorem dispatch_keeps_same {α : Type} {step : {σ : Type} → Reader σ → ReadM σ α}
    (hview : ∀ v, (step BufferView.reader v).2 = v) (hbuffer : ∀ b, (step Buffer.reader b).2 = b)
    (hfile : ∀ reader, (step (FileReader.reader files)).Keeps (FileReader.SameFile reader)) :
    (dispatch files step).Keeps source.Same := by
  intro state h
  cases h with
  | view v =>
    have hstep : (dispatch files step (.view v)).2 = .view (step BufferView.reader v).2 := rfl
    rw [hstep, hview]
    exact .view v
  | buffer b =>
    have hstep : (dispatch files step (.buffer b)).2 = .buffer (step Buffer.reader b).2 := rfl
    rw [hstep, hbuffer]
    exact .buffer b
  | file same => exact .file (hfile _ _ same)
  | faulty s t => exact .faulty s _

/-- **No read changes what a source has.** -/
theorem reader_keeps_same (files : FileSystem) (source : Source) :
    (reader files).Keeps source.Same where
  read offset size := dispatch_keeps_same (fun _ => rfl) (fun _ => rfl) fun original =>
    (FileReader.reader_keeps_sameFile files original).read offset size
  readFull offset size := dispatch_keeps_same (fun _ => rfl) (fun _ => rfl) fun original =>
    (FileReader.reader_keeps_sameFile files original).readFull offset size
  size := dispatch_keeps_same (fun _ => rfl) (fun _ => rfl) fun original =>
    (FileReader.reader_keeps_sameFile files original).size

/-- …and so it holds what it held before. -/
theorem Holds.of_same (h : source.Holds files medium length data) (hsame : source.Same other) :
    other.Holds files medium length data := by
  cases h with
  | memory shown small =>
    cases hsame with
    | view v => exact .memory shown small
    | buffer b => exact .memory shown small
    | file same => cases shown
    | faulty s t => cases shown
  | file stream =>
    cases hsame with
    | file same =>
      rw [← same.size]
      exact .file (same.source.trans stream)

theorem same_of_after {left : Source} (h : (reader files).After source left) :
    source.Same left := by
  induction h with
  | start => exact .refl source
  | read _ offset size ih => exact (reader_keeps_same files source).read offset size _ ih

/-! ### What they answer -/

theorem Holds.read_fst (h : source.Holds files medium length data) (offset : UInt64) (size : ℕ) :
    ((reader files).read offset size source).1 = data.clipTo medium length offset.toNat size := by
  cases h with
  | memory shown small => rw [read_of_memory? shown, Bytes.clipTo_size]
  | file stream => rw [read_file, FileReader.read_fst stream]

theorem Holds.size_fst (h : source.Holds files medium length data) :
    ((reader files).size source).1 = .ok (.ofNat length) := by
  cases h with
  | memory shown small =>
    cases source with
    | view v =>
      obtain rfl := Option.some.inj shown
      exact congrArg (Except.ok ∘ UInt64.ofNat) v.size_window
    | buffer b =>
      obtain rfl := Option.some.inj shown
      rfl
    | file state => cases shown
    | faulty state => cases shown
  | @file state contents stream =>
    have hopen : state.isOpen = true := by
      rw [FileReader.isOpen, ← Option.isSome_map (f := FileStream.source), stream]
      rfl
    rw [size_file, if_pos hopen, UInt64.ofNat_toNat]

/-- **Data that are as long as they were are shown**, whatever is read. -/
theorem Holds.shows (h : source.Holds files medium data.size data) :
    (reader files).Shows source medium data := by
  intro left hafter offset size
  rw [(h.of_same (same_of_after hafter)).read_fst, Bytes.clipTo_size]

/-- The length that a source holds is a number that a size can hold. -/
theorem Holds.length_lt (h : source.Holds files medium length data) : length < 2 ^ 64 := by
  cases h with
  | memory shown small => exact small
  | @file state contents stream => exact state.size.toNat_lt

/-- The last path that the reader of a file was asked to open. -/
def path : Source → String
  | .file state => state.path
  | .view _ => ""
  | .buffer _ => ""
  | .faulty _ => ""

/-- **A source fills a read with what it gives for it**, if that is as much as asked for. -/
theorem Holds.readFull_fst_eq_filled (h : source.Holds files medium length data) (offset : UInt64)
    (size : ℕ) :
    ((reader files).readFull offset size source).1 =
      ((reader files).read offset size source).1.filled source.path length offset.toNat size := by
  cases h with
  | memory shown small =>
    have hslice : ((reader files).read offset size source).1 = data.clip .buffer offset.toNat size :=
      congrArg Prod.fst (read_of_memory? shown offset size)
    rw [hslice, Bytes.filled_clip, Bytes.fill_eq, ← hslice]
    cases source with
    | view v => rfl
    | buffer b => rfl
    | file state => cases shown
    | faulty state => cases shown
  | file stream => exact FileReader.readFull_fst stream files offset size

/-- Of data that are as long as they were, every read within them is filled. -/
theorem Holds.readFull_fst (h : source.Holds files medium data.size data) (offset : UInt64)
    (size : ℕ) :
    ((reader files).readFull offset size source).1 = data.fill medium offset.toNat size := by
  rw [h.readFull_fst_eq_filled, h.read_fst, Bytes.clipTo_size, Bytes.filled_clip]

end Source

end TiffDirectory
