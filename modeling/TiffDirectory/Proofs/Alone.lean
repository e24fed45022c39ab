import Mathlib
import TiffDirectory.Proofs.Interchange

/-!
# Proofs/Alone — cursors that share a source do not notice each other

The **diary** of a cursor lists its own operations and what it saw of them, each result with the
place that the cursor was left at; a copy starts a diary of its own where its original stands.  The
diaries of a history are read off its trace (`Session.diaries`).

`CursorOp.alone` is a cursor by itself on a source of its own.  As long as the bytes of a source stay
what they are, the diary of every cursor on it is that of the cursor alone
(`Session.seen_eq_alone`): what others asked in between, and where that left the stream, is not seen.
-/

namespace TiffDirectory

variable {σ : Type}

/-! ## A cursor by itself -/

/-- What a cursor sees of a list of its operations, each result with the cursor after it, and the
cursor and the source that they leave. -/
def CursorOp.alone (R : Reader σ) :
    List CursorOp → Cursor × σ → List (Result Value × Cursor) × (Cursor × σ)
  | [], placed => ([], placed)
  | op :: rest, placed =>
    let done := op.run R placed
    let later := alone R rest done.2
    ((done.1, done.2.1) :: later.1, later.2)

theorem CursorOp.alone_concat (R : Reader σ) (ops : List CursorOp) (op : CursorOp)
    (placed : Cursor × σ) :
    alone R (ops ++ [op]) placed =
      let earlier := alone R ops placed
      let done := op.run R earlier.2
      (earlier.1 ++ [(done.1, done.2.1)], done.2) := by
  induction ops generalizing placed with
  | nil => rfl
  | cons first rest ih =>
    dsimp only [List.cons_append, alone]
    rw [ih]

/-! ## Diaries -/

/-- What became of a cursor: its source, the places where it started and where it stands now, its
operations, and what it saw of them. -/
structure Diary where
  source : ℕ
  start : Cursor
  now : Cursor := start
  ops : List CursorOp := []
  seen : List (Result Value × Cursor) := []

namespace Diary

/-- The diary after one more operation, which left the cursor at the given place. -/
def add (diary : Diary) (op : CursorOp) (result : Result Value) (now : Cursor) : Diary :=
  { diary with now, ops := diary.ops ++ [op], seen := diary.seen ++ [(result, now)] }

/-- The diaries after one more step: a new cursor starts one where it is placed, a copy where its
original stands, and an operation is noted by the cursor that did it. -/
def note (diaries : Array Diary) (step : Step) : Array Diary :=
  match step.action with
  | .placeCursor start source => diaries.push { source, start }
  | .copyCursor c =>
    match diaries[c]? with
    | some original => diaries.push { source := original.source, start := original.now }
    | none => diaries
  | .onCursor c op =>
    match diaries[c]?, step.after.cursors[c]? with
    | some diary, some placed =>
      diaries.setIfInBounds c (diary.add op step.result placed.cursor)
    | _, _ => diaries
  | _ => diaries

theorem note_of_leavesCursors {step : Step} (h : step.action.LeavesCursors)
    (diaries : Array Diary) : note diaries step = diaries := by
  obtain ⟨action, result, after⟩ := step
  cases action with
  | placeCursor _ _ => exact h.elim
  | copyCursor _ => exact h.elim
  | onCursor _ _ => exact h.elim
  | _ => rfl

end Diary

/-- A relation between diaries and cursors that says where the cursor of a diary stands, and that
every cursor has with a new diary. -/
structure Diary.Follows (P : Diary → PlacedCursor → Prop) : Prop where
  source_eq {diary : Diary} {placed : PlacedCursor} (h : P diary placed) :
    diary.source = placed.source
  now_eq {diary : Diary} {placed : PlacedCursor} (h : P diary placed) : diary.now = placed.cursor
  new (placed : PlacedCursor) : P { source := placed.source, start := placed.cursor } placed

/-- The session after the steps of a history. -/
def Session.after (session : Session) (history : List Moment) : Session :=
  (session.trace history).foldl (fun _ step => step.after) session

/-- The diaries of the cursors of a session after a history, by the numbers of the cursors. -/
def Session.diaries (session : Session) (history : List Moment) : Array Diary :=
  (session.trace history).foldl Diary.note
    (session.cursors.map fun placed => { source := placed.source, start := placed.cursor })

namespace Diary

/-- The diary is about a cursor that stands here, and if that is a cursor on the source of number
`i`, it is the diary of the cursor alone, on a source that still has what `fresh` has. -/
structure Tells (files : FileSystem) (fresh : Source) (i : ℕ) (diary : Diary)
    (placed : PlacedCursor) : Prop where
  source_eq : diary.source = placed.source
  now_eq : diary.now = placed.cursor
  alone : diary.source = i → ∃ left, fresh.Same left ∧
    CursorOp.alone (Source.reader files) diary.ops (diary.start, fresh) =
      (diary.seen, (diary.now, left))

variable {files files' : FileSystem} {fresh source state : Source} {i : ℕ} {diary : Diary}
  {placed : PlacedCursor} {medium : Medium} {length : ℕ} {data : Bytes}

theorem follows_tells (files : FileSystem) (fresh : Source) (i : ℕ) :
    Follows (Tells files fresh i) where
  source_eq h := h.source_eq
  now_eq h := h.now_eq
  new _ := ⟨rfl, rfl, fun _ => ⟨fresh, .refl fresh, rfl⟩⟩

/-- **An operation on the shared source is seen as it is alone.** -/
theorem Tells.add (h : diary.Tells files fresh i placed)
    (hfresh : fresh.Holds files medium length data)
    (hstate : placed.source = i → state.Holds files' medium length data) {op : CursorOp}
    {result : Result Value} {after : Cursor} {left : Source}
    (hrun : op.run (Source.reader files') (placed.cursor, state) = (result, (after, left))) :
    (diary.add op result after).Tells files fresh i { placed with cursor := after } := by
  refine ⟨h.source_eq, rfl, fun hi => ?_⟩
  obtain ⟨own, hown, halone⟩ := h.alone hi
  have hmatch := Source.matches_of_holds hfresh (hstate (h.source_eq.symm.trans hi))
  obtain ⟨halike, hcursor, hown', -⟩ := op.run_matches .same hmatch (diary.now, own)
    (placed.cursor, state) ⟨h.now_eq, hown, .refl state⟩
  rw [hrun] at halike hcursor
  refine ⟨_, hown', ?_⟩
  change CursorOp.alone _ (diary.ops ++ [op]) (diary.start, fresh) = _
  rw [CursorOp.alone_concat, halone]
  dsimp only
  rw [(halike.imp Error.Twins.eq).eq, hcursor]
  exact Prod.ext rfl (Prod.ext hcursor rfl)

end Diary

namespace Session

variable {session next : Session} {diaries : Array Diary} {files : FileSystem}
  {fresh source : Source} {i : ℕ} {medium : Medium} {length : ℕ} {data : Bytes}

/-- **Each step keeps the diaries true**, if an operation does. -/
theorem alongside_note {P : Diary → PlacedCursor → Prop} (hP : Diary.Follows P)
    (h : Alongside P diaries session.cursors)
    (hadd : ∀ {diary : Diary} {placed : PlacedCursor} {state left : Source} {op : CursorOp}
      {result : Result Value} {after : Cursor}, P diary placed →
        session.sources[placed.source]? = some state →
        op.run (Source.reader session.files) (placed.cursor, state) = (result, (after, left)) →
        P (diary.add op result after) { placed with cursor := after })
    {action : Action} {result : Result Value}
    (hdone : session.perform action = some (result, next)) :
    Alongside P (Diary.note diaries { action, result, after := next }) next.cursors := by
  have hstep := cursorStep_of_perform hdone
  generalize hcursors : next.cursors = cursors at hstep
  cases hstep with
  | placed cursor source => exact h.push (hP.new ⟨cursor, source⟩)
  | @copied _ c placed found =>
    obtain ⟨original, hdiary, horiginal⟩ := h.exists_related found
    rw [Diary.note]
    dsimp only
    rw [hdiary]
    dsimp only
    rw [hP.source_eq horiginal, hP.now_eq horiginal]
    exact h.push (hP.new placed)
  | @moved c op placed state left result after found source run =>
    obtain ⟨diary, hdiary, hrelated⟩ := h.exists_related found
    have hafter : (session.cursors.setIfInBounds c { placed with cursor := after })[c]? =
        some { placed with cursor := after } :=
      Array.getElem?_setIfInBounds_self_of_lt (Array.getElem?_eq_some_iff.1 found).1
    rw [Diary.note]
    dsimp only
    rw [hcursors, hafter, hdiary]
    exact h.setIfInBounds (hadd hrelated source run) c
  | aside leaves =>
    rw [Diary.note_of_leavesCursors leaves]
    exact h

/-- The diaries that a history starts with are those of the cursors that are there. -/
theorem alongside_new {P : Diary → PlacedCursor → Prop} (hP : Diary.Follows P)
    (session : Session) :
    Alongside P
      (session.cursors.map fun placed => { source := placed.source, start := placed.cursor })
      session.cursors := by
  refine ⟨Array.size_map, fun {c} diary placed hdiary hplaced => ?_⟩
  rw [Array.getElem?_map, hplaced] at hdiary
  obtain rfl := Option.some.inj hdiary
  exact hP.new placed

theorem alongside_trace (h : Alongside (Diary.Tells files fresh i) diaries session.cursors)
    (hfresh : fresh.Holds files medium length data) {history : List Moment}
    (hsource : session.sources[i]? = some source)
    (hholds : ∀ moment ∈ history, source.Holds moment.files medium length data)
    (hspares : ∀ moment ∈ history, moment.action.Spares i) :
    Alongside (Diary.Tells files fresh i) ((session.trace history).foldl Diary.note diaries)
      (session.after history).cursors := by
  induction history generalizing session source diaries with
  | nil => exact h
  | cons moment rest ih =>
    rw [after, trace]
    cases hdone : (session.withFiles moment.files).perform moment.action with
    | none => exact h
    | some done =>
      obtain ⟨result, after⟩ := done
      have hnow : ∀ state, (session.withFiles moment.files).sources[i]? = some state →
          state.Holds moment.files medium length data := by
        intro state hstate
        obtain rfl := Option.some.inj (hsource.symm.trans hstate)
        exact hholds moment List.mem_cons_self
      obtain ⟨left, hleft, hsame⟩ :=
        sameAt_of_perform (hspares moment List.mem_cons_self) hdone source hsource
      have hplaced : Alongside (Diary.Tells files fresh i) diaries
          (session.withFiles moment.files).cursors := h
      refine ih (alongside_note (Diary.follows_tells files fresh i) hplaced ?_ hdone) hleft
        (fun m hm => (hholds m (List.mem_cons_of_mem _ hm)).of_same hsame)
        (fun m hm => hspares m (List.mem_cons_of_mem _ hm))
      intro diary placed state left op result after htells hstate hrun
      exact htells.add hfresh (fun hi => hnow state (hi ▸ hstate)) hrun

/-- **Cursors that share a source are alone with it.**  Let nobody open, close or move the source of
number `i`, and let it hold the same bytes at every moment of a history, in which anything else may
be done in any order, on other cursors, on the source itself and on other sources.  Then every cursor
has its diary, and what a cursor on the source saw, every result and every place that it came to, is
what the cursor sees that does its operations by itself, from the same start, on any fresh source
that holds these bytes. -/
theorem seen_eq_alone {history : List Moment} (hsource : session.sources[i]? = some source)
    (hholds : ∀ moment ∈ history, source.Holds moment.files medium length data)
    (hspares : ∀ moment ∈ history, moment.action.Spares i)
    (hfresh : fresh.Holds files medium length data) :
    (session.diaries history).size = (session.after history).cursors.size ∧
      ∀ (c : ℕ) (diary : Diary), (session.diaries history)[c]? = some diary → diary.source = i →
        diary.seen = (CursorOp.alone (Source.reader files) diary.ops (diary.start, fresh)).1 := by
  have htells := alongside_trace (alongside_new (Diary.follows_tells files fresh i) session) hfresh
    hsource hholds hspares
  refine ⟨htells.size_eq, fun c diary hdiary hi => ?_⟩
  obtain ⟨placed, -, htold⟩ := htells.exists_right hdiary
  obtain ⟨left, -, halone⟩ := htold.alone hi
  rw [halone]

/-- Two cursors and a copy of the first one take turns on an open file.  In between, a field and a
read meet the end of the file, which the stream remembers. -/
theorem seen_eq_alone_turns :
    let files := FileSystem.empty.writeFile "a.tif" #[1, 2, 3, 4, 5]
    let reader := FileReader.ofPath files "a.tif"
    let session : Session := { files, sources := #[.file reader] }
    let history : List Moment := [
      { files, action := .placeCursor { order := .little, position := 0 } 0 },
      { files, action := .placeCursor { order := .big, position := 1 } 0 },
      { files, action := .onCursor 0 (.readWord .u16) },
      { files, action := .onCursor 1 (.readWord .u64) },
      { files, action := .copyCursor 0 },
      { files, action := .onSource 0 (.read 4 100) },
      { files, action := .onCursor 2 (.readBytes 2) },
      { files, action := .onCursor 0 (.readWord .u16) },
      { files, action := .onCursor 1 (.seek 9) }]
    (session.diaries history).map (fun diary => (diary.start.position, diary.ops.length)) =
        #[(0, 2), (1, 2), (2, 1)] ∧
      (session.diaries history).size = (session.after history).cursors.size ∧
      ∀ (c : ℕ) (diary : Diary), (session.diaries history)[c]? = some diary → diary.source = 0 →
        diary.seen =
          (CursorOp.alone (Source.reader files) diary.ops (diary.start, .file reader)).1 := by
  intro files reader session history
  have hsource : session.sources[0]? = some (.file reader) := rfl
  have hholds : (Source.file reader).Holds files .file reader.size.toNat (files.bytes 0) :=
    .file (by decide +kernel)
  have hnow : ∀ moment ∈ history,
      (Source.file reader).Holds moment.files .file reader.size.toNat (files.bytes 0) := by
    simp only [history, List.forall_mem_cons, hholds, true_and, List.not_mem_nil, false_imp_iff,
      implies_true]
  have hspares : ∀ moment ∈ history, moment.action.Spares 0 := by
    simp only [history, List.forall_mem_cons, Action.Spares, true_and, List.not_mem_nil,
      false_imp_iff, implies_true]
  exact ⟨by decide +kernel, seen_eq_alone hsource hnow hspares hholds⟩

end Session

end TiffDirectory
