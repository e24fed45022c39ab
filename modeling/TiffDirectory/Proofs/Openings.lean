import Mathlib
import TiffDirectory.Proofs.Kept
import TiffDirectory.Reader.File

/-!
# Proofs/Openings — what a file reader has open, and since when

An **opening** is a path and the files of a moment at which the path led to a file of known length.
A reader agrees with an opening while it has open what was opened then, and with none while it is
closed (`FileReader.Agrees`); a closed reader has no size.  Opening a path makes the reader agree
with that opening or with none (`openPath_agrees`), and reads change nothing of it
(`reader_keeps_agrees`).
-/

namespace TiffDirectory

/-- The length of the file that a path leads to, if the system can tell it: only files have a
length, and no position of a file reaches the limit. -/
def FileSystem.length? (fs : FileSystem) (path : String) : Option ℕ :=
  match fs.find? path with
  | some (.file contents) =>
    let length := (fs.bytes contents).size
    if length < FileStream.positionLimit then some length else none
  | _ => none

theorem FileSystem.length?_eq_some_iff {fs : FileSystem} {path : String} {length : ℕ} :
    fs.length? path = some length ↔
      ∃ contents, fs.find? path = some (.file contents) ∧ (fs.bytes contents).size = length ∧
        length < FileStream.positionLimit := by
  rw [length?]
  split
  next contents h =>
    constructor
    · intro hlength
      obtain ⟨hlt, heq⟩ := Option.ite_none_right_eq_some.1 hlength
      obtain rfl := Option.some.inj heq
      exact ⟨contents, h, rfl, hlt⟩
    · rintro ⟨found, hfound, rfl, hlt⟩
      obtain rfl := Node.file.inj (Option.some.inj (h.symm.trans hfound))
      exact if_pos hlt
  next h =>
    refine ⟨nofun, ?_⟩
    rintro ⟨contents, hfound, -⟩
    exact absurd hfound (h contents)

namespace FileReader

variable {fs : FileSystem} {path : String}

/-! ## How opening a path goes -/

/-- The end of what was opened is told exactly if it has a length. -/
theorem tell?_seekEnd_of_openPath? {stream : FileStream}
    (h : FileStream.openPath? fs path = some stream) :
    (stream.seekEnd fs).tell? = (fs.length? path).map UInt64.ofNat := by
  rw [FileStream.openPath?] at h
  rw [FileSystem.length?]
  split at h
  next contents hfound =>
    obtain rfl := Option.some.inj h
    rw [hfound]
    simp only [FileStream.tell?, FileStream.seekEnd, FileStream.seek, FileStream.bytes,
      Bool.false_eq_true, if_false, Bool.false_or, decide_eq_true_eq]
    split
    next hle => rw [if_neg (Nat.not_lt.2 hle), Option.map_none]
    next hlt => rw [if_pos (Nat.not_le.1 hlt), Option.map_some]
  next hfound =>
    -- A pipe refuses to be sent to its end, and so it tells no position.
    obtain rfl := Option.some.inj h
    rw [hfound]
    rfl
  all_goals exact absurd h nofun

theorem openPath_of_directory (h : fs.find? path = some .directory) (reader : FileReader) :
    openPath fs path reader = (.error (.notRegularFile path), { reader.close with path }) := by
  rw [openPath, ReadM.bind_ok (ReadM.modify_apply _ _), if_pos h]
  rfl

theorem openPath_of_refused (hdirectory : fs.find? path ≠ some .directory)
    (h : FileStream.openPath? fs path = none) (reader : FileReader) :
    openPath fs path reader = (.error (.cannotOpen path), { reader.close with path }) := by
  rw [openPath, ReadM.bind_ok (ReadM.modify_apply _ _), if_neg hdirectory, h]
  rfl

/-- What was opened is kept open if it tells its length. -/
theorem openPath_of_openPath? (hdirectory : fs.find? path ≠ some .directory)
    {stream : FileStream} (h : FileStream.openPath? fs path = some stream) (reader : FileReader) :
    openPath fs path reader =
      match fs.length? path with
      | none => (.error (.fileSizeUnknown path), { reader.close with path })
      | some length =>
        (.ok (), { stream := (stream.seekEnd fs).seek 0, size := .ofNat length, path }) := by
  rw [openPath, ReadM.bind_ok (ReadM.modify_apply _ _), if_neg hdirectory, h]
  dsimp only
  rw [tell?_seekEnd_of_openPath? h]
  cases fs.length? path with
  | none => rfl
  | some length => rfl

theorem openPath_of_length?_eq_none (hdirectory : fs.find? path ≠ some .directory)
    {stream : FileStream} (h : FileStream.openPath? fs path = some stream)
    (hlength : fs.length? path = none) (reader : FileReader) :
    openPath fs path reader = (.error (.fileSizeUnknown path), { reader.close with path }) := by
  rw [openPath_of_openPath? hdirectory h, hlength]

/-- **Only what has a length is opened**, and the reader then stands at its first byte. -/
theorem openPath_of_length? {length : ℕ} (hlength : fs.length? path = some length)
    (reader : FileReader) :
    ∃ contents, fs.find? path = some (.file contents) ∧ (fs.bytes contents).size = length ∧
      openPath fs path reader =
        (.ok (), { stream := some { source := .file contents }, size := .ofNat length, path }) := by
  obtain ⟨contents, hfound, hsize, -⟩ := FileSystem.length?_eq_some_iff.1 hlength
  refine ⟨contents, hfound, hsize, ?_⟩
  have hopen : FileStream.openPath? fs path = some { source := .file contents } := by
    rw [FileStream.openPath?, hfound]
  have hdirectory : fs.find? path ≠ some .directory := by
    rw [hfound]
    exact nofun
  rw [openPath_of_openPath? hdirectory hopen, hlength]
  rfl

end FileReader

/-! ## Openings -/

/-- A path, and the files of a moment at which it led to a file of known length. -/
structure Opening where
  files : FileSystem
  path : String
  length : ℕ
  known : files.length? path = some length

/-- What opening a path comes to: nothing, unless it leads to a file of known length. -/
def Opening.of? (files : FileSystem) (path : String) : Option Opening :=
  match known : files.length? path with
  | some length => some { files, path, length, known }
  | none => none

theorem Opening.of?_eq_none {files : FileSystem} {path : String}
    (h : files.length? path = none) : of? files path = none := by
  rw [of?]
  split
  next hknown => exact absurd (hknown.symm.trans h) nofun
  next => rfl

theorem Opening.of?_eq_some {files : FileSystem} {path : String} {length : ℕ}
    (h : files.length? path = some length) :
    of? files path = some { files, path, length, known := h } := by
  rw [of?]
  split
  next hknown =>
    obtain rfl := Option.some.inj (hknown.symm.trans h)
    rfl
  next hknown => exact absurd (h.symm.trans hknown) nofun

theorem Opening.eq_of_of?_eq_some {files : FileSystem} {path : String} {opening : Opening}
    (h : of? files path = some opening) : opening.files = files ∧ opening.path = path := by
  rw [of?] at h
  split at h
  next =>
    obtain rfl := Option.some.inj h
    exact ⟨rfl, rfl⟩
  next => exact absurd h nofun

/-- The length of an opening is a number that a size can hold. -/
theorem Opening.toNat_ofNat_length (o : Opening) : (UInt64.ofNat o.length).toNat = o.length := by
  obtain ⟨-, -, -, hlt⟩ := FileSystem.length?_eq_some_iff.1 o.known
  exact UInt64.toNat_ofNat_of_lt' (Nat.lt_trans hlt (by decide))

namespace FileReader

/-- A closed reader agrees with no opening and has **no size**.  An open one agrees with the opening
of the file that it reads from, and has the length and the path of that moment. -/
inductive Agrees (reader : FileReader) : Option Opening → Prop
  | closed (stream : reader.stream = none) (size : reader.size = 0) : Agrees reader none
  | opened {o : Opening} {contents : ℕ} (found : o.files.find? o.path = some (.file contents))
      (source : reader.stream.map FileStream.source = some (.file contents))
      (size : reader.size = .ofNat o.length) (path : reader.path = o.path) :
      Agrees reader (some o)

variable {reader other : FileReader} {fs : FileSystem} {path : String} {o : Option Opening}

theorem Agrees.isOpen_eq (h : reader.Agrees o) : reader.isOpen = o.isSome := by
  cases h with
  | closed stream _ => rw [isOpen, stream]; rfl
  | opened _ source _ _ =>
    rw [isOpen, ← Option.isSome_map, source]
    rfl

/-- **A closed reader has no size.** -/
theorem Agrees.size_of_closed (h : reader.Agrees o) (hclosed : reader.isOpen = false) :
    reader.size = 0 := by
  have hopen := h.isOpen_eq
  rw [hclosed] at hopen
  cases h with
  | closed _ size => exact size
  | opened _ _ _ _ => exact absurd hopen nofun

/-- **An open reader has the length that its file had when it was opened.** -/
theorem Agrees.exists_opening (h : reader.Agrees o) (hopen : reader.isOpen = true) :
    ∃ opening, o = some opening ∧ reader.size.toNat = opening.length := by
  have hisOpen := h.isOpen_eq
  rw [hopen] at hisOpen
  cases h with
  | closed _ _ => exact absurd hisOpen nofun
  | @opened opening _ _ _ size _ =>
    exact ⟨opening, rfl, size ▸ opening.toNat_ofNat_length⟩

/-! ## What becomes of an opening -/

theorem agrees_new : ({} : FileReader).Agrees none := .closed rfl rfl

theorem agrees_movedFrom : movedFrom.Agrees none := .closed rfl rfl

/-- A reader that is closed already is left as it is, and has no size before. -/
theorem Agrees.close (h : reader.Agrees o) : reader.close.Agrees none := by
  rw [FileReader.close]
  split
  next => exact .closed rfl rfl
  next hclosed =>
    have hclosed := eq_false_of_ne_true hclosed
    exact .closed (isOpen_eq_false_iff.1 hclosed) (h.size_of_closed hclosed)

theorem Agrees.with_path (h : reader.Agrees none) (path : String) :
    Agrees { reader with path } none := by
  cases h with
  | closed stream size => exact .closed stream size

/-- **Opening a path ends in that opening, or in none**, whatever was open before. -/
theorem Agrees.openPath (h : reader.Agrees o) (fs : FileSystem) (path : String) :
    (openPath fs path reader).2.Agrees (Opening.of? fs path) := by
  have hclosed := h.close.with_path path
  rcases hlength : fs.length? path with _ | length
  · rw [Opening.of?_eq_none hlength]
    by_cases hdirectory : fs.find? path = some .directory
    · rwa [openPath_of_directory hdirectory]
    · rcases hstream : FileStream.openPath? fs path with _ | stream
      · rwa [openPath_of_refused hdirectory hstream]
      · rwa [openPath_of_length?_eq_none hdirectory hstream hlength]
  · obtain ⟨contents, hfound, -, hopen⟩ := openPath_of_length? hlength reader
    rw [Opening.of?_eq_some hlength, hopen]
    exact .opened hfound rfl rfl rfl

/-! ## What reads leave alone -/

/-- The second reader has what the first one has, up to where the stream stands and what it
remembers. -/
structure SameFile (reader other : FileReader) : Prop where
  source : other.stream.map FileStream.source = reader.stream.map FileStream.source
  size : other.size = reader.size
  path : other.path = reader.path

theorem SameFile.refl (reader : FileReader) : reader.SameFile reader := ⟨rfl, rfl, rfl⟩

theorem Agrees.of_sameFile (h : reader.Agrees o) (hsame : reader.SameFile other) :
    other.Agrees o := by
  cases h with
  | closed stream size =>
    refine .closed ?_ (hsame.size.trans size)
    have hsource := hsame.source
    rwa [stream, Option.map_none, Option.map_eq_none_iff] at hsource
  | opened found source size path =>
    exact .opened found (hsame.source.trans source) (hsame.size.trans size)
      (hsame.path.trans path)

variable {α : Type} {original : FileReader} {stream : FileStream}

/-- The stream that a read is done on is the one that the reader holds, moved. -/
theorem streamAt_apply (offset : UInt64) (reader : FileReader) :
    (streamAt offset reader).2 = reader ∧
      ∀ stream, (streamAt offset reader).1 = .ok stream →
        reader.stream.map FileStream.source = some stream.source := by
  rcases hheld : reader.stream with _ | held
  · rw [streamAt_of_closed (isOpen_eq_false_iff.2 hheld)]
    exact ⟨rfl, nofun⟩
  · by_cases hle : reader.size ≤ offset
    · rw [streamAt_of_size_le hheld hle]
      exact ⟨rfl, nofun⟩
    · simp [streamAt, ReadM.bind_apply, hheld, hle]

theorem streamAt_bind_keeps {next : FileStream → ReadM FileReader α}
    (hnext : ∀ stream, original.stream.map FileStream.source = some stream.source →
      (next stream).Keeps original.SameFile) (offset : UInt64) :
    (streamAt offset >>= next).Keeps original.SameFile := by
  intro reader hsame
  obtain ⟨hreader, hsource⟩ := streamAt_apply offset reader
  rcases hat : streamAt offset reader with ⟨e | stream, after⟩
  · rw [hat] at hreader
    obtain rfl : after = reader := hreader
    rw [ReadM.bind_error hat]
    exact hsame
  · rw [hat] at hreader hsource
    obtain rfl : after = reader := hreader
    rw [ReadM.bind_ok hat]
    exact hnext stream (hsame.source.symm.trans (hsource stream rfl)) after hsame

theorem readOn_keeps_sameFile
    (hsource : original.stream.map FileStream.source = some stream.source) (fs : FileSystem)
    (offset : UInt64) (size : ℕ) : (readOn fs offset size stream).Keeps original.SameFile := by
  have hkeeps : ∀ left : FileStream, left.source = stream.source →
      (modify fun reader => { reader with stream := left } :
        ReadM FileReader PUnit).Keeps original.SameFile := by
    intro left hleft
    refine ReadM.keeps_modify fun reader hsame => ⟨?_, hsame.size, hsame.path⟩
    rw [hsource, Option.map_some, hleft]
  rw [readOn]
  split
  · exact (hkeeps stream rfl).bind fun _ => ReadM.keeps_throw _
  · exact (hkeeps _ (FileStream.source_read fs size stream)).bind fun _ => ReadM.keeps_pure _

/-- **Reads leave a reader its file, its size and its path**, whatever becomes of the file. -/
theorem reader_keeps_sameFile (fs : FileSystem) (original : FileReader) :
    (FileReader.reader fs).Keeps original.SameFile where
  read offset size := by
    refine streamAt_bind_keeps (fun stream hsource => ?_) offset
    refine ReadM.keeps_get.bind fun reader => ?_
    refine (readOn_keeps_sameFile hsource fs offset _).bind fun (_, left) => ?_
    dsimp only
    split
    · exact ReadM.keeps_throw _
    · exact ReadM.keeps_pure _
  readFull offset size := by
    refine streamAt_bind_keeps (fun stream hsource => ?_) offset
    refine ReadM.keeps_get.bind fun reader => ?_
    split
    · exact ReadM.keeps_throw _
    · refine (readOn_keeps_sameFile hsource fs offset _).bind fun (_, left) => ?_
      dsimp only
      split
      · exact ReadM.keeps_throw _
      · exact ReadM.keeps_pure _
  size := by
    refine ReadM.keeps_get.bind fun reader => ?_
    split
    · exact ReadM.keeps_pure _
    · exact ReadM.keeps_throw _

/-- …and so an opening lasts through them. -/
theorem reader_keeps_agrees (fs : FileSystem) (o : Option Opening) :
    (FileReader.reader fs).Keeps (Agrees · o) where
  read offset size reader h :=
    h.of_sameFile ((reader_keeps_sameFile fs reader).read offset size reader (.refl reader))
  readFull offset size reader h :=
    h.of_sameFile ((reader_keeps_sameFile fs reader).readFull offset size reader (.refl reader))
  size reader h :=
    h.of_sameFile ((reader_keeps_sameFile fs reader).size reader (.refl reader))

end FileReader

end TiffDirectory
