import Mathlib
import TiffDirectory.Proofs.Alone
import TiffDirectory.Proofs.FileLives
import TiffDirectory.Proofs.OpenFiles
import TiffDirectory.Proofs.Rows

/-!
# Proofs/ClosedReaders — cursors on a reader that is closed

A closed reader refuses every read and tells no size, so a cursor on it is **frozen**
(`Cursor.Frozen`): it fails at whatever it is asked, except for what needs no reader, and never
moves.  It stays so for as long as the reader is closed, whatever else is done in between
(`Session.cursors_frozen_of_live`).

Only a path that is opened, or an open reader that is moved into it, opens a closed reader
(`Session.ClosedAt.perform`).  Then its cursors stand where they stood, and see the new file.
-/

namespace TiffDirectory

variable {σ : Type}

/-! ## Frozen cursors -/

/-- The error has this code and this text. -/
structure Error.Tells (e : Error) (code : ErrorCode) (message : String) : Prop where
  code_eq : e.code = code
  message_eq : e.message = message

/-- **What the operations of a cursor come to on a reader that is closed.** -/
inductive Cursor.Frozen (order : ByteOrder) : CursorOp → Result Value → Prop
  | word (w : Width) {e : Error} (told : e.Tells .readError "File not open") :
      Frozen order (.readWord w) (.error e)
  | bytes {n : ℕ} (positive : 0 < n) {e : Error} (told : e.Tells .readError "File not open") :
      Frozen order (.readBytes n) (.error e)
  | noBytes : Frozen order (.readBytes 0) (.ok (.bytes #[]))
  | entry (f : Format) {e : Error} (told : e.Tells .readError "File not open") :
      Frozen order (.readEntry f) (.error e)
  | entries (f : Format) {n : ℕ} (positive : 0 < n) {e : Error}
      (told : e.Tells .readError "File not open") : Frozen order (.readEntries f n) (.error e)
  | noEntries (f : Format) : Frozen order (.readEntries f 0) (.ok (.entries f #[]))
  | seek (target : UInt64) {e : Error}
      (told : e.Tells .readError "Failed to query size for seek: File not open") :
      Frozen order (.seek target) (.error e)
  | remaining {e : Error} (told : e.Tells .readError "Failed to query size: File not open") :
      Frozen order .remaining (.error e)
  | byteOrder : Frozen order .byteOrder (.ok (.order order))

namespace Cursor

variable {R : Reader σ} {s : σ}

/-- An operation that starts with a field fails there, if every read fails. -/
theorem run_of_read_error {e : Error}
    (hread : ∀ offset size, R.read offset size s = (.error e, s)) (cursor : Cursor)
    (field : EntryField) (rest : List EntryField) {op : CursorOp}
    (hparts : op.parts = (field :: rest).map .read) (hpos : 0 < field.size) :
    op.run R (cursor, s) = (.error e, (cursor, s)) := by
  refine CursorOp.run_of_readRow_error hparts (EntryReader.readRow_cons_error ?_)
  exact readField_of_refuses hpos ⟨cursor.position, rfl, .inl (hread _ _)⟩

/-- **A cursor on a reader that answers nothing is frozen**, and stays where it is. -/
theorem frozen_run (hread : ∀ offset size, R.read offset size s = (.error .fileNotOpen, s))
    (hsize : R.size s = (.error .fileNotOpen, s)) (cursor : Cursor) (op : CursorOp) :
    ∃ result, op.run R (cursor, s) = (result, (cursor, s)) ∧ Frozen cursor.order op result := by
  cases op with
  | readWord w =>
    exact ⟨_, run_of_read_error hread cursor (.word w) [] rfl w.bytes_pos, .word w ⟨rfl, rfl⟩⟩
  | readBytes n =>
    rcases Nat.eq_zero_or_pos n with rfl | hn
    · exact ⟨_, rfl, .noBytes⟩
    · exact ⟨_, run_of_read_error hread cursor (.bytes n) [] rfl hn, .bytes hn ⟨rfl, rfl⟩⟩
  | readEntry f =>
    exact ⟨_, run_of_read_error hread cursor (.word .u16) _ rfl Width.u16.bytes_pos,
      .entry f ⟨rfl, rfl⟩⟩
  | readEntries f n =>
    cases n with
    | zero => exact ⟨_, rfl, .noEntries f⟩
    | succ n =>
      have hparts : (CursorOp.readEntries f (n + 1)).parts = (.word .u16 ::
          ([.word .u16, .word f.countWidth, .bytes f.valueSize] ++ f.rowFields n)).map .read :=
        congrArg (List.map CursorOp.Part.read) (f.rowFields_succ n)
      exact ⟨_, run_of_read_error hread cursor _ _ hparts Width.u16.bytes_pos,
        .entries f n.succ_pos ⟨rfl, rfl⟩⟩
  | seek target =>
    exact ⟨_, ReadM.map_eq_error_iff.2 (seek_of_size_error hsize target), .seek target ⟨rfl, rfl⟩⟩
  | remaining =>
    exact ⟨_, ReadM.map_eq_error_iff.2 (remaining_of_size_error hsize), .remaining ⟨rfl, rfl⟩⟩
  | byteOrder => exact ⟨_, rfl, .byteOrder⟩

end Cursor

theorem FileReader.frozen_run {reader : FileReader} (hclosed : reader.isOpen = false)
    (files : FileSystem) (cursor : Cursor) (op : CursorOp) :
    ∃ result, op.run (Source.reader files) (cursor, .file reader) =
      (result, (cursor, .file reader)) ∧ Cursor.Frozen cursor.order op result := by
  refine Cursor.frozen_run (fun offset size => ?_) ?_ cursor op
  · rw [Source.read_file, read_of_closed hclosed]
  · rw [Source.size_file, hclosed]
    rfl

/-! ## Closed readers in a session -/

/-- The source of this number is a file reader that is closed. -/
def Session.ClosedAt (session : Session) (i : ℕ) : Prop :=
  (session.file? i).map FileReader.isOpen = some false

instance (session : Session) (i : ℕ) : Decidable (session.ClosedAt i) :=
  inferInstanceAs (Decidable (_ = _))

/-- The source of number `i` has the file of these contents open, which was as long as this at the
opening, and every cursor of the session stands where it stood.  So cursors on the source see that
file from there. -/
structure Session.Reopened (session next : Session) (i length contents : ℕ) : Prop where
  cursors : next.cursors = session.cursors
  holds (now : FileSystem) : ∃ source, next.sources[i]? = some source ∧
    source.Holds now .file length (now.bytes contents)
  sees (now : FileSystem) : (next.withFiles now).SeesFile i length (now.bytes contents)

namespace Session

variable {session next last : Session} {i j : ℕ} {action : Action} {result : Result Value}

theorem closedAt_iff :
    session.ClosedAt i ↔ ∃ reader, session.file? i = some reader ∧ reader.isOpen = false :=
  Option.map_eq_some_iff

theorem cursors_of_leavesCursors (hdone : session.perform action = some (result, next))
    (hleaves : action.LeavesCursors) : next.cursors = session.cursors := by
  have hstep := cursorStep_of_perform hdone
  generalize next.cursors = cursors at hstep
  cases hstep with
  | placed => exact hleaves.elim
  | copied => exact hleaves.elim
  | moved => exact hleaves.elim
  | aside => rfl

theorem ClosedAt.of_sameAt (h : session.ClosedAt i) (hsame : SameAt i session next) :
    next.ClosedAt i := by
  obtain ⟨reader, hfile, hclosed⟩ := closedAt_iff.1 h
  obtain ⟨other, hother, hkept⟩ := hsame _ (file?_eq_some_iff.1 hfile)
  cases hkept with
  | @file _ kept same =>
    refine closedAt_iff.2 ⟨kept, file?_eq_some_iff.2 hother, ?_⟩
    have hstream := congrArg Option.isSome same.source
    rw [Option.isSome_map, Option.isSome_map] at hstream
    exact hstream.trans hclosed

/-- **What becomes of a closed reader**: an action leaves it closed, or opens a path in it, or moves
an open reader into it. -/
theorem ClosedAt.perform (h : session.ClosedAt i)
    (hdone : session.perform action = some (result, next)) :
    next.ClosedAt i ∨ (∃ path, action = .openPath i path ∧ result = .ok .unit) ∨
      ∃ j reader, action = .moveInto i j ∧ j ≠ i ∧ session.file? j = some reader ∧
        reader.isOpen = true := by
  by_cases hspares : action.Spares i
  · exact .inl (h.of_sameAt (sameAt_of_perform hspares hdone))
  obtain ⟨state, hfile, hclosed⟩ := closedAt_iff.1 h
  cases action with
  | createFrom source =>
    obtain rfl : source = i := not_not.1 hspares
    obtain ⟨_, hmove, hmoved⟩ := perform_createFrom hfile
    obtain ⟨-, rfl⟩ := Prod.mk.inj (Option.some.inj (hmove.symm.trans hdone))
    obtain ⟨left, hleft, hshut, -⟩ := hmoved.source_closed
    exact .inl (closedAt_iff.2 ⟨left, hleft, hshut⟩)
  | moveInto target source =>
    rw [Session.perform] at hdone
    obtain ⟨reader, hreader, hnext⟩ := moveInto_eq_some hdone
    by_cases hsame : target = source
    · rw [if_pos hsame] at hnext
      exact .inl (hnext ▸ h)
    rw [if_neg hsame] at hnext
    by_cases hsource : source = i
    · subst hsource
      have hsize := size_sources_setSource session target (.file reader)
      rw [hnext]
      refine .inl (closedAt_iff.2 ⟨.movedFrom, file?_setSource ?_, rfl⟩)
      exact hsize ▸ lt_size_of_file? hfile
    · obtain rfl : target = i := by_contra fun htarget => hspares ⟨htarget, hsource⟩
      cases hopen : reader.isOpen with
      | true => exact .inr (.inr ⟨source, reader, rfl, hsource, hreader, hopen⟩)
      | false =>
        refine .inl (closedAt_iff.2 ⟨reader, ?_, hopen⟩)
        rw [hnext, file?_eq_some_iff, sources_setSource_of_ne hsource, ← file?_eq_some_iff]
        exact file?_setSource (lt_size_of_file? hfile)
  | openPath source path =>
    obtain rfl : source = i := not_not.1 hspares
    obtain ⟨_, _, after, hopen, hafter, hopens⟩ := perform_openPath hfile path
    obtain ⟨rfl, rfl⟩ := Prod.mk.inj (Option.some.inj (hopen.symm.trans hdone))
    cases hopens with
    | directory _ _ _ closed => exact .inl (closedAt_iff.2 ⟨after, hafter, closed⟩)
    | refused _ _ _ _ closed => exact .inl (closedAt_iff.2 ⟨after, hafter, closed⟩)
    | unmeasured _ _ _ _ _ closed => exact .inl (closedAt_iff.2 ⟨after, hafter, closed⟩)
    | opened _ _ _ => exact .inr (.inl ⟨path, rfl, rfl⟩)
  | close source =>
    obtain rfl : source = i := not_not.1 hspares
    rw [Session.perform] at hdone
    obtain ⟨reader, -, rfl⟩ := onFile_eq_some hdone
    exact .inl (closedAt_iff.2 ⟨_, file?_setSource (lt_size_of_file? hfile),
      FileReader.isOpen_close reader⟩)
  | _ => exact absurd trivial hspares

/-! ## Readers that are open again -/

theorem reopened_of_file? {reader : FileReader} {contents : ℕ} (hfile : next.file? i = some reader)
    (hstream : reader.stream.map FileStream.source = some (.file contents))
    (hcursors : next.cursors = session.cursors) :
    session.Reopened next i reader.size.toNat contents := by
  have hsource := file?_eq_some_iff.1 hfile
  refine ⟨hcursors, fun now => ⟨_, hsource, .file hstream⟩, fun now => ?_⟩
  have hnow : (next.withFiles now).sources[i]? = some (.file reader) := hsource
  exact seesFile_of_holds hnow (.file hstream)

/-- **A path that is opened is seen by the cursors that were there.** -/
theorem ClosedAt.reopened_of_openPath (h : session.ClosedAt i) {path : String} {value : Value}
    (hdone : session.perform (.openPath i path) = some (.ok value, next)) :
    ∃ contents, session.files.find? path = some (.file contents) ∧
      session.Reopened next i (session.files.bytes contents).size contents := by
  obtain ⟨state, hfile, -⟩ := closedAt_iff.1 h
  have hcursors := cursors_of_leavesCursors hdone trivial
  rw [perform_openPath_eq hfile, Option.some.injEq, Prod.mk.injEq] at hdone
  obtain ⟨hresult, rfl⟩ := hdone
  obtain ⟨reader, hopens⟩ : ∃ reader,
      FileReader.openPath session.files path state = (.ok (), reader) := by
    rcases hopens : FileReader.openPath session.files path state with ⟨e | _, reader⟩
    · rw [hopens] at hresult
      cases hresult
    · exact ⟨reader, rfl⟩
  obtain ⟨contents, hfound, hstream, hsize⟩ :=
    FileReader.exists_contents_of_isOpen (FileReader.isOpen_of_openPath_eq_ok hopens)
  refine ⟨contents, hfound, ?_⟩
  rw [← hsize]
  exact reopened_of_file? (file?_setSource (lt_size_of_file? hfile)) hstream hcursors

/-- **An open reader that is moved into a closed one takes its file along.** -/
theorem ClosedAt.reopened_of_moveInto (h : session.ClosedAt i) {reader : FileReader}
    {opening : Opening} (hne : i ≠ j) (hfile : session.file? j = some reader)
    (hagrees : reader.Agrees (some opening)) :
    ∃ contents next, opening.files.find? opening.path = some (.file contents) ∧
      session.perform (.moveInto i j) = some (.ok (.status true true), next) ∧
      session.Reopened next i opening.length contents := by
  obtain ⟨state, hold, -⟩ := closedAt_iff.1 h
  obtain ⟨next, hmove, hmoved⟩ := perform_moveInto hfile hold hne
  have hopen := hagrees.isOpen_eq
  cases hagrees with
  | @opened _ contents found source size path =>
    have hreopened := reopened_of_file? hmoved.target_eq source
      (cursors_of_leavesCursors hmove trivial)
    rw [size, opening.toNat_ofNat_length] at hreopened
    rw [hopen] at hmove
    exact ⟨contents, next, found, hmove, hreopened⟩

end Session

/-! ## Diaries on a closed reader -/

namespace Diary

/-- The diary is about a cursor that stands here, and if that is a cursor on the source of number
`i`, it has been frozen since the diary starts. -/
structure Rests (i : ℕ) (diary : Diary) (placed : PlacedCursor) : Prop where
  source_eq : diary.source = placed.source
  now_eq : diary.now = placed.cursor
  frozen : diary.source = i → diary.now = diary.start ∧
    List.Forall₂ (fun op seen => Cursor.Frozen diary.start.order op seen.1 ∧ seen.2 = diary.start)
      diary.ops diary.seen

theorem follows_rests (i : ℕ) : Follows (Rests i) where
  source_eq h := h.source_eq
  now_eq h := h.now_eq
  new _ := ⟨rfl, rfl, fun _ => ⟨rfl, .nil⟩⟩

/-- One more operation on a closed reader. -/
theorem Rests.add {i : ℕ} {diary : Diary} {placed : PlacedCursor} {files : FileSystem}
    {state left : Source} {op : CursorOp} {result : Result Value} {after : Cursor}
    (h : diary.Rests i placed)
    (hstate : placed.source = i → ∃ reader, state = .file reader ∧ reader.isOpen = false)
    (hrun : op.run (Source.reader files) (placed.cursor, state) = (result, (after, left))) :
    (diary.add op result after).Rests i { placed with cursor := after } := by
  refine ⟨h.source_eq, rfl, fun hi => ?_⟩
  obtain ⟨reader, rfl, hclosed⟩ := hstate (h.source_eq.symm.trans hi)
  obtain ⟨hnow, hseen⟩ := h.frozen hi
  obtain ⟨found, hfrozen, hanswer⟩ := FileReader.frozen_run hclosed files placed.cursor op
  obtain ⟨rfl, hplaced⟩ := Prod.mk.inj (hrun.symm.trans hfrozen)
  obtain ⟨rfl, rfl⟩ := Prod.mk.inj hplaced
  have hstart : placed.cursor = diary.start := h.now_eq.symm.trans hnow
  rw [hstart] at hanswer
  exact ⟨hstart, List.rel_append hseen (.cons ⟨hanswer, hstart⟩ .nil)⟩

end Diary

namespace Session

variable {session last : Session} {i : ℕ}

/-- **As long as a reader is closed, the cursors on it rest.** -/
theorem alongside_rests {diaries : Array Diary} {history : List Moment}
    (h : Alongside (Diary.Rests i) diaries session.cursors) (hclosed : session.ClosedAt i)
    (hstays : ∀ step ∈ session.trace history, step.after.ClosedAt i)
    (hlive : session.live history = some last) :
    Alongside (Diary.Rests i) ((session.trace history).foldl Diary.note diaries) last.cursors := by
  induction history generalizing session diaries with
  | nil =>
    obtain rfl := Option.some.inj hlive
    exact h
  | cons moment rest ih =>
    rw [live] at hlive
    rw [trace] at hstays ⊢
    cases hdone : (session.withFiles moment.files).perform moment.action with
    | none =>
      rw [hdone] at hlive
      cases hlive
    | some done =>
      obtain ⟨result, after⟩ := done
      rw [hdone] at hlive hstays
      obtain ⟨hnow, hlater⟩ := List.forall_mem_cons.1 hstays
      have hplaced : Alongside (Diary.Rests i) diaries
          (session.withFiles moment.files).cursors := h
      refine ih (alongside_note (Diary.follows_rests i) hplaced ?_ hdone) hnow hlater hlive
      intro diary placed state left op result after hrests hstate hrun
      refine hrests.add (fun hi => ?_) hrun
      obtain ⟨reader, hfile, hshut⟩ := closedAt_iff.1 hclosed
      obtain rfl := Option.some.inj
        ((file?_eq_some_iff.1 hfile).symm.trans ((hi ▸ hstate : session.sources[i]? = some state)))
      exact ⟨reader, rfl, hshut⟩

theorem closedAt_of_live {history : List Moment} (hclosed : session.ClosedAt i)
    (hstays : ∀ step ∈ session.trace history, step.after.ClosedAt i)
    (hlive : session.live history = some last) : last.ClosedAt i := by
  induction history generalizing session with
  | nil =>
    obtain rfl := Option.some.inj hlive
    exact hclosed
  | cons moment rest ih =>
    rw [live] at hlive
    rw [trace] at hstays
    split at hlive
    next result after hdone =>
      rw [hdone] at hstays
      obtain ⟨hnow, hlater⟩ := List.forall_mem_cons.1 hstays
      exact ih hnow hlater hlive
    next => cases hlive

/-- **A closed reader freezes its cursors.**  Let a file reader be closed after some history,
whatever closed it, and stay closed through another one, in which anything may be done, also with
this reader.  Then each of its cursors is where it was when the second history started, or where it
was placed since: every operation was refused with its own text, or needed no bytes, and none moved
it.

What comes next leaves the reader closed, or opens a path in it, or moves an open reader into it;
and then its cursors see the new file from where they stand. -/
theorem cursors_frozen_of_live {before history : List Moment}
    (hbefore : live {} before = some session) (hclosed : session.ClosedAt i)
    (hlive : session.live history = some last)
    (hstays : ∀ step ∈ session.trace history, step.after.ClosedAt i) :
    (session.diaries history).size = last.cursors.size ∧
    (∀ (c : ℕ) (diary : Diary), (session.diaries history)[c]? = some diary → diary.source = i →
      last.cursors[c]? = some ⟨diary.start, i⟩ ∧
        List.Forall₂
          (fun op seen => Cursor.Frozen diary.start.order op seen.1 ∧ seen.2 = diary.start)
          diary.ops diary.seen) ∧
    ∀ files,
      (∀ action result next, (last.withFiles files).perform action = some (result, next) →
        next.ClosedAt i ∨ (∃ path, action = .openPath i path ∧ result = .ok .unit) ∨
          ∃ j reader, action = .moveInto i j ∧ j ≠ i ∧ last.file? j = some reader ∧
            reader.isOpen = true) ∧
      (∀ path value next,
        (last.withFiles files).perform (.openPath i path) = some (.ok value, next) →
          ∃ contents, files.find? path = some (.file contents) ∧
            last.Reopened next i (files.bytes contents).size contents) ∧
      ∀ j reader, last.file? j = some reader → reader.isOpen = true →
        ∃ opening contents next, (Ledger.ofHistory (before ++ history)).opening? j = some opening ∧
          opening.files.find? opening.path = some (.file contents) ∧
          (last.withFiles files).perform (.moveInto i j) = some (.ok (.status true true), next) ∧
          last.Reopened next i opening.length contents := by
  have hrests :=
    alongside_rests (alongside_new (Diary.follows_rests i) session) hclosed hstays hlive
  have hshut : last.ClosedAt i := closedAt_of_live hclosed hstays hlive
  have hagrees : last.Agrees (Ledger.ofHistory (before ++ history)) := by
    rw [Ledger.ofHistory, List.foldl_append]
    exact (agrees_of_live hbefore).live hlive
  refine ⟨hrests.size_eq, fun c diary hdiary hi => ?_, fun files => ⟨?_, ?_, ?_⟩⟩
  · obtain ⟨placed, hplaced, hrest⟩ := hrests.exists_right hdiary
    obtain ⟨hnow, hseen⟩ := hrest.frozen hi
    have hwhere : placed = ⟨diary.start, i⟩ := by
      rw [← hnow, ← hi, hrest.source_eq, hrest.now_eq]
    exact ⟨hwhere ▸ hplaced, hseen⟩
  · intro action result next hdone
    have hnow : (last.withFiles files).ClosedAt i := hshut
    exact hnow.perform hdone
  · intro path value next hdone
    have hnow : (last.withFiles files).ClosedAt i := hshut
    obtain ⟨contents, hfound, hreopened⟩ := hnow.reopened_of_openPath hdone
    exact ⟨contents, hfound, hreopened.cursors, hreopened.holds, hreopened.sees⟩
  · intro j reader hfile hopen
    have hheld := hagrees.of_file? hfile
    have hne : i ≠ j := by
      rintro rfl
      obtain ⟨other, hother, hclosed⟩ := closedAt_iff.1 hshut
      obtain rfl := Option.some.inj (hfile.symm.trans hother)
      exact absurd (hopen.symm.trans hclosed) nofun
    obtain ⟨opening, hopening, -⟩ := hheld.exists_opening hopen
    rw [hopening] at hheld
    have hnow : (last.withFiles files).ClosedAt i := hshut
    have hfile' : (last.withFiles files).file? j = some reader := hfile
    obtain ⟨contents, next, hfound, hmove, hreopened⟩ :=
      hnow.reopened_of_moveInto hne hfile' hheld
    exact ⟨opening, contents, next, hopening, hfound, hmove, hreopened.cursors, hreopened.holds,
      hreopened.sees⟩

/-- A reader is closed, refuses a path that leads nowhere, one to a directory and one to a pipe, and
is moved from.  Its cursor stays at position 1 all the while, and reads on there when a reader that
was opened in the meantime is moved into it. -/
theorem cursors_frozen_of_live_refused :
    let files := (FileSystem.empty.writeFile "a.tif" #[1, 2, 3, 4]).makePipe "p"
    let moments (actions : List Action) : List Moment := actions.map fun action => { files, action }
    let before := moments [.createFile "a.tif", .placeCursor { order := .big, position := 1 } 0,
      .close 0]
    let history := moments [.onCursor 0 (.readWord .u16), .openPath 0 "b.tif",
      .onCursor 0 (.seek 0), .openPath 0 ".", .onCursor 0 (.readBytes 0), .openPath 0 "p",
      .onCursor 0 .remaining, .createFrom 0, .onCursor 0 (.readEntries .big 2),
      .createFile "a.tif"]
    ∃ session last, live {} before = some session ∧ session.ClosedAt 0 ∧
      session.live history = some last ∧ (∀ step ∈ session.trace history, step.after.ClosedAt 0) ∧
      last.cursors[0]? = some ⟨{ order := .big, position := 1 }, 0⟩ ∧
      ∃ next, (last.withFiles files).perform (.moveInto 0 2) =
        some (.ok (.status true true), next) ∧
        last.Reopened next 0 4 0 := by
  intro files moments before history
  obtain ⟨session, hbefore⟩ : ∃ session, live {} before = some session :=
    Option.isSome_iff_exists.1 (by decide +kernel)
  have hclosed : (live {} before).map (fun session => decide (session.ClosedAt 0 ∧
      ∀ step ∈ session.trace history, step.after.ClosedAt 0)) = some true := by decide +kernel
  have hdiary : (live {} before).map (fun session => (session.diaries history)[0]?.map fun diary =>
      (diary.source, diary.start)) = some (some (0, { order := .big, position := 1 })) := by
    decide +kernel
  have hlast : ((live {} before).bind (·.live history)).bind (·.file? 2) =
      some { stream := some { source := .file 0 }, size := 4, path := "a.tif" } := by
    decide +kernel
  rw [hbefore] at hclosed hdiary hlast
  obtain ⟨hshut, hstays⟩ := of_decide_eq_true (Option.some.inj hclosed)
  obtain ⟨last, hlive, hfile⟩ := Option.bind_eq_some_iff.1 hlast
  obtain ⟨-, hfrozen, hnext⟩ := cursors_frozen_of_live hbefore hshut hlive hstays
  obtain ⟨diary, hnoted, hplace⟩ := Option.map_eq_some_iff.1 (Option.some.inj hdiary)
  obtain ⟨hsource, hstart⟩ := Prod.mk.inj hplace
  have hheld : ((Ledger.ofHistory (before ++ history)).opening? 2).map
      (fun o => (o.length, o.files.find? o.path)) = some (4, some (.file 0)) := by
    decide +kernel
  obtain ⟨opening, contents, next, hopening, hfound, hmove, hreopened⟩ :=
    (hnext files).2.2 2 _ hfile rfl
  rw [hopening] at hheld
  obtain ⟨hlength, hfind⟩ := Prod.mk.inj (Option.some.inj hheld)
  obtain rfl := Node.file.inj (Option.some.inj (hfound.symm.trans hfind))
  exact ⟨session, last, hbefore, hshut, hlive, hstays,
    hstart ▸ (hfrozen 0 diary hnoted hsource).1, next, hmove, hlength ▸ hreopened⟩

end Session

end TiffDirectory
