import Mathlib
import TiffDirectory.Proofs.Ledger

/-!
# Proofs/FileLives — what file readers answer while they are opened, moved and closed

The actions on the file readers of a session, with what each answers and leaves.  After any history
(`Session.fileReader_of_live`) a closed reader has no size and refuses every read, an open one tells
the length that its file had when it was opened, however often it was moved since, and opening a
path or moving a reader goes the same way, whatever came before.
-/

namespace TiffDirectory

/-- **What opening a path comes to**: its answer, and the reader after it. -/
inductive FileReader.Opens (files : FileSystem) (path : String) :
    Result Value → FileReader → Prop
  /-- a directory is no regular file -/
  | directory {e : Error} {after : FileReader} (found : files.find? path = some .directory)
      (code : e.code = .readError) (message : e.message = "Not a regular file: " ++ path)
      (closed : after.isOpen = false) : Opens files path (.error e) after
  /-- nothing is there, or nothing that can be opened -/
  | refused {e : Error} {after : FileReader} (found : files.find? path ≠ some .directory)
      (refused : FileStream.openPath? files path = none)
      (code : e.code = .fileNotFound) (message : e.message = "Failed to open file: " ++ path)
      (closed : after.isOpen = false) : Opens files path (.error e) after
  /-- what was opened does not tell its length -/
  | unmeasured {e : Error} {after : FileReader} {stream : FileStream}
      (found : files.find? path ≠ some .directory)
      (opens : FileStream.openPath? files path = some stream) (unknown : files.length? path = none)
      (code : e.code = .readError)
      (message : e.message = "Failed to query size of file: " ++ path)
      (closed : after.isOpen = false) : Opens files path (.error e) after
  | opened {after : FileReader} {length : ℕ} (known : files.length? path = some length)
      (isOpen : after.isOpen = true) (size : after.size.toNat = length) :
      Opens files path (.ok .unit) after

/-- The action fails with this code and this text, and `next` is what it leaves. -/
def Session.FailsWith (session : Session) (action : Action) (code : ErrorCode) (message : String)
    (next : Session) : Prop :=
  ∃ e, session.perform action = some (.error e, next) ∧ e.code = code ∧ e.message = message

/-- What a move of the reader numbered `source` into `target` makes of a session: the target is that
reader as it was, nothing is open at the source any more, and other sources are as they were. -/
structure Session.Moved (session : Session) (source target : ℕ) (reader : FileReader)
    (next : Session) : Prop where
  target_eq : next.file? target = some reader
  source_closed : ∃ left, next.file? source = some left ∧ left.isOpen = false ∧ left.size = 0
  others {j : ℕ} (hsource : j ≠ source) (htarget : j ≠ target) :
    next.sources[j]? = session.sources[j]?

/-! ## Single readers -/

theorem FileReader.opens_openPath (files : FileSystem) (path : String) (reader : FileReader) :
    Opens files path ((openPath files path reader).1.map fun _ => .unit)
      (openPath files path reader).2 := by
  have hclosed : ({ reader.close with path } : FileReader).isOpen = false :=
    isOpen_close reader
  rcases hlength : files.length? path with _ | length
  · by_cases hdirectory : files.find? path = some .directory
    · rw [openPath_of_directory hdirectory]
      exact .directory hdirectory rfl rfl hclosed
    · rcases hstream : FileStream.openPath? files path with _ | stream
      · rw [openPath_of_refused hdirectory hstream]
        exact .refused hdirectory hstream rfl rfl hclosed
      · rw [openPath_of_length?_eq_none hdirectory hstream hlength]
        exact .unmeasured hdirectory hstream hlength rfl rfl hclosed
  · obtain ⟨contents, -, -, hopen⟩ := openPath_of_length? hlength reader
    rw [hopen]
    exact .opened hlength rfl
      (Opening.toNat_ofNat_length { files, path, length, known := hlength })

theorem FileReader.size_apply (fs : FileSystem) (state : FileReader) :
    (reader fs).size state =
      (if state.isOpen then .ok state.size else .error .fileNotOpen, state) := by
  rw [reader]
  dsimp only
  rw [ReadM.bind_ok (ReadM.get_apply state)]
  split <;> rfl

theorem Source.read_file (fs : FileSystem) (offset : UInt64) (size : ℕ) (state : FileReader) :
    (reader fs).read offset size (.file state) =
      ((FileReader.read fs offset size state).1, .file (FileReader.read fs offset size state).2) :=
  rfl

theorem Source.readFull_file (fs : FileSystem) (offset : UInt64) (size : ℕ) (state : FileReader) :
    (reader fs).readFull offset size (.file state) =
      ((FileReader.readFull fs offset size state).1,
        .file (FileReader.readFull fs offset size state).2) :=
  rfl

theorem Source.size_file (fs : FileSystem) (state : FileReader) :
    (reader fs).size (.file state) =
      (if state.isOpen then .ok state.size else .error .fileNotOpen, .file state) := by
  have hsize : (reader fs).size (.file state) =
    (((FileReader.reader fs).size state).1, .file ((FileReader.reader fs).size state).2) := rfl
  rw [hsize, FileReader.size_apply]

namespace Session

variable {session : Session} {i j : ℕ} {state : FileReader} {source : Source}

/-! ## Sources by number -/

theorem setSource_self (h : session.sources[i]? = some source) :
    session.setSource i source = session := by
  obtain ⟨hi, rfl⟩ := Array.getElem?_eq_some_iff.1 h
  rw [setSource, Array.setIfInBounds, dif_pos hi, Array.set_getElem_self]

theorem size_sources_setSource (session : Session) (i : ℕ) (source : Source) :
    (session.setSource i source).sources.size = session.sources.size :=
  Array.size_setIfInBounds ..

theorem sources_setSource_of_ne (h : i ≠ j) :
    (session.setSource i source).sources[j]? = session.sources[j]? :=
  Array.getElem?_setIfInBounds_ne h

theorem lt_size_of_file? (h : session.file? i = some state) : i < session.sources.size :=
  (Array.getElem?_eq_some_iff.1 (file?_eq_some_iff.1 h)).1

theorem file?_setSource (h : i < session.sources.size) :
    (session.setSource i (.file state)).file? i = some state := by
  rw [file?_eq_some_iff, setSource, Array.getElem?_setIfInBounds_self_of_lt h]

/-! ## What actions answer -/

/-- A question that leaves a file reader as it is leaves the session as it is. -/
theorem onSource_of_unchanged (hfile : session.file? i = some state) {α : Type}
    {step : ReadM Source α} {answer : α → Value} {result : Result α}
    (hstep : step (.file state) = (result, .file state)) :
    session.onSource i (answer <$> step) = some (result.map answer, session) := by
  have hsource := file?_eq_some_iff.1 hfile
  rw [onSource, hsource]
  dsimp only
  rw [ReadM.map_apply, hstep, setSource_self hsource]

/-- **A closed reader refuses every read, and tells no size.** -/
theorem query_failsWith_of_closed (hfile : session.file? i = some state)
    (hclosed : state.isOpen = false) {query : Query} (hquery : query ≠ .mark) :
    session.FailsWith (.onSource i query) .readError "File not open" session := by
  refine ⟨.fileNotOpen, ?_, rfl, rfl⟩
  rw [perform]
  cases query with
  | read offset size =>
    have hread := Source.read_file session.files offset size state
    rw [FileReader.read_of_closed hclosed] at hread
    exact onSource_of_unchanged hfile hread
  | readFull offset size =>
    have hread := Source.readFull_file session.files offset size state
    rw [FileReader.readFull_of_closed hclosed] at hread
    exact onSource_of_unchanged hfile hread
  | size =>
    have hsize := Source.size_file session.files state
    rw [hclosed] at hsize
    exact onSource_of_unchanged hfile hsize
  | mark => exact absurd rfl hquery

theorem perform_size_of_open (hfile : session.file? i = some state) (hopen : state.isOpen = true) :
    session.perform (.onSource i .size) = some (.ok (.number state.size.toNat), session) := by
  have hsize := Source.size_file session.files state
  rw [hopen] at hsize
  rw [perform]
  exact onSource_of_unchanged hfile hsize

theorem perform_openPath_eq (hfile : session.file? i = some state) (path : String) :
    session.perform (.openPath i path) =
      some ((FileReader.openPath session.files path state).1.map fun _ => .unit,
        session.setSource i (.file (FileReader.openPath session.files path state).2)) := by
  rw [perform, onFile, hfile]
  dsimp only
  rw [ReadM.map_apply]

/-- Opening a path goes as it does on the reader alone. -/
theorem perform_openPath (hfile : session.file? i = some state) (path : String) :
    ∃ result next after, session.perform (.openPath i path) = some (result, next) ∧
      next.file? i = some after ∧ FileReader.Opens session.files path result after :=
  ⟨_, _, _, perform_openPath_eq hfile path, file?_setSource (lt_size_of_file? hfile),
    FileReader.opens_openPath session.files path state⟩

theorem perform_createFrom (hfile : session.file? i = some state) :
    ∃ next, session.perform (.createFrom i) = some (.ok (.status state.isOpen true), next) ∧
      session.Moved i session.sources.size state next := by
  have hi := lt_size_of_file? hfile
  let left := session.setSource i (.file .movedFrom)
  have hsize : left.sources.size = session.sources.size := size_sources_setSource ..
  have hpush : ∀ j, (left.addSource (.file state)).2.sources[j]? =
      if j = session.sources.size then some (.file state) else left.sources[j]? := by
    intro j
    rw [addSource, Array.getElem?_push, hsize]
  refine ⟨(left.addSource (.file state)).2, ?_, ?_, ⟨.movedFrom, ?_, rfl, rfl⟩, ?_⟩
  · rw [perform, hfile]
    rfl
  · rw [file?_eq_some_iff, hpush, if_pos rfl]
  · rw [file?_eq_some_iff, hpush, if_neg hi.ne, ← file?_eq_some_iff]
    exact file?_setSource hi
  · intro j hsource htarget
    rw [hpush, if_neg htarget]
    exact sources_setSource_of_ne hsource.symm

theorem perform_moveInto {target : ℕ} {old : FileReader} (hfile : session.file? i = some state)
    (hold : session.file? target = some old) (hne : target ≠ i) :
    ∃ next, session.perform (.moveInto target i) = some (.ok (.status state.isOpen true), next) ∧
      session.Moved i target state next := by
  have hi := lt_size_of_file? hfile
  have htarget := lt_size_of_file? hold
  let moved := session.setSource target (.file state)
  have hsize : moved.sources.size = session.sources.size := size_sources_setSource ..
  refine ⟨moved.setSource i (.file .movedFrom), ?_, ?_, ⟨.movedFrom, ?_, rfl, rfl⟩, ?_⟩
  · rw [perform, moveInto, hold, hfile]
    dsimp only
    rw [if_neg hne]
    rfl
  · rw [file?_eq_some_iff, sources_setSource_of_ne hne.symm, ← file?_eq_some_iff]
    exact file?_setSource htarget
  · exact file?_setSource (hsize ▸ hi)
  · intro j hsource htarget
    rw [sources_setSource_of_ne hsource.symm, sources_setSource_of_ne htarget.symm]

/-- A reader that is moved into itself stays as it is. -/
theorem perform_moveInto_self (hfile : session.file? i = some state) :
    session.perform (.moveInto i i) = some (.ok (.status state.isOpen true), session) := by
  rw [perform, moveInto, hfile]
  dsimp only
  rw [if_pos rfl]
  rfl

/-! ## File readers after any history -/

/-- **The life of a file reader**, after any history of openings, moves, reads and closings.  A
closed reader has no size and refuses every read.  An open one tells the length that its file had
at the opening that the ledger names, through all moves since.  A path is opened, or refused for
one of three reasons, and then nothing is open any more.  A move gives everything to the target and
leaves the source closed; a move into itself changes nothing. -/
theorem fileReader_of_live {history : List Moment} (hlive : live {} history = some session)
    (hfile : session.file? i = some state) :
    (state.isOpen = false → state.size = 0 ∧ ∀ files query, query ≠ .mark →
      (session.withFiles files).FailsWith (.onSource i query) .readError "File not open"
        (session.withFiles files)) ∧
    (state.isOpen = true → ∃ opening, (Ledger.ofHistory history).opening? i = some opening ∧
      (∃ moment ∈ history, moment.Opens opening) ∧
      ∀ files, (session.withFiles files).perform (.onSource i .size) =
        some (.ok (.number opening.length), session.withFiles files)) ∧
    (∀ files path, ∃ result next after,
      (session.withFiles files).perform (.openPath i path) = some (result, next) ∧
        next.file? i = some after ∧ FileReader.Opens files path result after) ∧
    ∀ files,
      let moved : Result Value := .ok (.status state.isOpen true)
      (∃ next, (session.withFiles files).perform (.createFrom i) = some (moved, next) ∧
        session.Moved i session.sources.size state next) ∧
      (∀ target old, session.file? target = some old → target ≠ i →
        ∃ next, (session.withFiles files).perform (.moveInto target i) = some (moved, next) ∧
          session.Moved i target state next) ∧
      (session.withFiles files).perform (.moveInto i i) =
        some (moved, session.withFiles files) := by
  have hagrees := (agrees_of_live hlive).of_file? hfile
  have hnow : ∀ files, (session.withFiles files).file? i = some state := fun _ => hfile
  refine ⟨?_, ?_, ?_, ?_⟩
  · intro hclosed
    refine ⟨hagrees.size_of_closed hclosed, fun files query hquery => ?_⟩
    exact query_failsWith_of_closed (hnow files) hclosed hquery
  · intro hopen
    obtain ⟨opening, hopening, hlength⟩ := hagrees.exists_opening hopen
    refine ⟨opening, hopening, Ledger.exists_moment_of_opening? hopening, fun files => ?_⟩
    rw [perform_size_of_open (hnow files) hopen, hlength]
  · intro files path
    exact perform_openPath (hnow files) path
  · intro files moved
    refine ⟨?_, ?_, perform_moveInto_self (hnow files)⟩
    · obtain ⟨next, hdone, hmoved⟩ := perform_createFrom (hnow files)
      exact ⟨next, hdone, hmoved.target_eq, hmoved.source_closed, hmoved.others⟩
    · intro target old hold hne
      have holdnow : (session.withFiles files).file? target = some old := hold
      obtain ⟨next, hdone, hmoved⟩ := perform_moveInto (hnow files) holdnow hne
      exact ⟨next, hdone, hmoved.target_eq, hmoved.source_closed, hmoved.others⟩

/-- A file of three bytes is opened and then emptied, its reader is moved, and the reader left behind
is sent to a path that leads nowhere: the new reader tells the three bytes, the old one is closed. -/
theorem fileReader_of_live_moved :
    let files := FileSystem.empty.writeFile "a.tif" #[1, 2, 3]
    let emptied := files.writeFile "a.tif" #[]
    let history : List Moment := [{ files, action := .createFile "a.tif" },
      { files := emptied, action := .createFrom 0 },
      { files := emptied, action := .openPath 0 "b.tif" }]
    ∃ session, live {} history = some session ∧
      (session.withFiles emptied).perform (.onSource 1 .size) =
        some (.ok (.number 3), session.withFiles emptied) ∧
      (session.withFiles emptied).FailsWith (.onSource 0 .size) .readError "File not open"
        (session.withFiles emptied) := by
  intro files emptied history
  obtain ⟨session, hlive⟩ : ∃ session, live {} history = some session :=
    Option.isSome_iff_exists.1 (by decide +kernel)
  have hnew : (live {} history).bind (·.file? 1) =
      some { stream := some { source := .file 0 }, size := 3, path := "a.tif" } := by
    decide +kernel
  have hold : (live {} history).bind (·.file? 0) = some { path := "b.tif" } := by decide +kernel
  have hheld : ((Ledger.ofHistory history).opening? 1).map (·.length) = some 3 := by
    decide +kernel
  rw [hlive] at hnew hold
  obtain ⟨-, hopen, -⟩ := fileReader_of_live hlive hnew
  obtain ⟨hclosed, -⟩ := fileReader_of_live hlive hold
  obtain ⟨opening, hopening, -, hsize⟩ := hopen rfl
  rw [hopening] at hheld
  have hlength : opening.length = 3 := Option.some.inj hheld
  refine ⟨session, hlive, hlength ▸ hsize emptied, (hclosed rfl).2 emptied .size nofun⟩

end Session

end TiffDirectory
