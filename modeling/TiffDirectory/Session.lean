import TiffDirectory.Session.Operation
import TiffDirectory.Session.Source

/-!
# Session — readers and cursors used together

A session holds files, sources and cursors.  Sources and cursors are known by number, in the order
of their creation; **a cursor stays with its source**, whatever happens to the file that the source
has open.  `perform` does one action and `run` a list of them.
-/

namespace TiffDirectory

/-- A cursor together with the number of the source that it walks through. -/
structure PlacedCursor where
  cursor : Cursor
  source : Nat
  deriving DecidableEq, Repr

/-- Files, the sources that were created, and the cursors that were placed on them. -/
structure Session where
  files : FileSystem := .empty
  sources : Array Source := #[]
  cursors : Array PlacedCursor := #[]

/-- What can be done in a session.  Sources and cursors are named by their numbers. -/
inductive Action where
  | createView (view : BufferView)
  | createBuffer (buffer : Buffer)
  /-- a new faulty reader, with no call on its record -/
  | createFaulty (reader : FaultyReader)
  /-- a new file reader without a file -/
  | createClosed
  /-- a new file reader on a path, with or without success -/
  | createFile (path : String)
  /-- a new file reader that takes over what another one has open -/
  | createFrom (source : Nat)
  /-- lets a file reader take over what another one has open -/
  | moveInto (target source : Nat)
  | openPath (source : Nat) (path : String)
  | close (source : Nat)
  /-- the last path that a file reader was asked to open -/
  | path (source : Nat)
  | isValid (source : Nat)
  /-- the read calls that a faulty reader was asked for -/
  | calls (source : Nat)
  | onSource (source : Nat) (query : Query)
  | writeFile (path : String) (bytes : Bytes)
  | removeFile (path : String)
  /-- a new cursor on a source -/
  | placeCursor (cursor : Cursor) (source : Nat)
  | copyCursor (cursor : Nat)
  /-- whether two cursors walk through one source -/
  | sameSource (a b : Nat)
  | onCursor (cursor : Nat) (op : CursorOp)

namespace Session

/-! ## Parts of a session -/

/-- The file reader of a given number. -/
def file? (session : Session) (source : Nat) : Option FileReader :=
  match session.sources[source]? with
  | some (.file reader) => some reader
  | _ => none

/-- Puts a source in the place of another one. -/
def setSource (session : Session) (source : Nat) (new : Source) : Session :=
  { session with sources := session.sources.setIfInBounds source new }

/-- A new source, with its status for an answer. -/
def addSource (session : Session) (source : Source) : Result Value × Session :=
  (.ok (.status source.isValid source.mustAllocate),
    { session with sources := session.sources.push source })

/-- A new cursor. -/
def addCursor (session : Session) (placed : PlacedCursor) : Result Value × Session :=
  (.ok .unit, { session with cursors := session.cursors.push placed })

/-- Does a step on a source. -/
def onSource (session : Session) (source : Nat) (step : ReadM Source Value) :
    Option (Result Value × Session) :=
  match session.sources[source]? with
  | some state =>
    let (result, state) := step state
    some (result, session.setSource source state)
  | none => none

/-- Does a step on a file reader. -/
def onFile (session : Session) (source : Nat) (step : ReadM FileReader Value) :
    Option (Result Value × Session) :=
  match session.file? source with
  | some reader =>
    let (result, reader) := step reader
    some (result, session.setSource source (.file reader))
  | none => none

/-- Does a step on a cursor and its source. -/
def onCursor (session : Session) (cursor : Nat) (step : ReadM (Cursor × Source) Value) :
    Option (Result Value × Session) :=
  match session.cursors[cursor]? with
  | none => none
  | some placed =>
    match session.sources[placed.source]? with
    | none => none
    | some state =>
      let (result, (moved, state)) := step (placed.cursor, state)
      some (result, { session.setSource placed.source state with
        cursors := session.cursors.setIfInBounds cursor { placed with cursor := moved } })

/-- Moves what the file reader `source` has open into the file reader `target`.  Moving a reader
into itself changes nothing. -/
def moveInto (session : Session) (target source : Nat) : Option (Result Value × Session) :=
  match session.file? target, session.file? source with
  | some _, some reader =>
    let moved :=
      if target = source then session
      else (session.setSource target (.file reader)).setSource source (.file .movedFrom)
    some (.ok (.status (Source.file reader).isValid (Source.file reader).mustAllocate), moved)
  | _, _ => none

/-! ## Actions -/

/-- Does one action: its result and the session after it, or nothing where a number names no source
or cursor of the kind that the action needs. -/
def perform (session : Session) : Action → Option (Result Value × Session)
  | .createView view => session.addSource (.view view)
  | .createBuffer buffer => session.addSource (.buffer buffer)
  | .createFaulty reader => session.addSource (.faulty { source := reader })
  | .createClosed => session.addSource (.file {})
  | .createFile path => session.addSource (.file (.ofPath session.files path))
  | .createFrom source =>
    (session.file? source).map fun reader =>
      (session.setSource source (.file .movedFrom)).addSource (.file reader)
  | .moveInto target source => session.moveInto target source
  | .openPath source path =>
    session.onFile source ((fun _ => .unit) <$> FileReader.openPath session.files path)
  | .close source =>
    session.onFile source ((fun _ => .unit) <$> modify FileReader.close)
  | .path source => session.onFile source ((.text ·.path) <$> get)
  | .isValid source => session.onSource source ((.flag ·.isValid) <$> get)
  | .calls source =>
    match session.sources[source]? with
    | some (.faulty reader) => some (.ok (.calls reader.calls), session)
    | _ => none
  | .onSource source query => session.onSource source (query.run (Source.reader session.files))
  | .writeFile path bytes =>
    some (.ok .unit, { session with files := session.files.writeFile path bytes })
  | .removeFile path =>
    some (.ok .unit, { session with files := session.files.removeFile path })
  | .placeCursor cursor source =>
    if source < session.sources.size then session.addCursor ⟨cursor, source⟩ else none
  | .copyCursor cursor => session.cursors[cursor]?.map session.addCursor
  | .sameSource a b =>
    match session.cursors[a]?, session.cursors[b]? with
    | some a, some b => some (.ok (.flag (a.source = b.source)), session)
    | _, _ => none
  | .onCursor cursor op => session.onCursor cursor (op.run (Source.reader session.files))

/-- Does a list of actions: their results and the session after the last one. -/
def run (session : Session) : List Action → Option (List (Result Value) × Session)
  | [] => some ([], session)
  | action :: rest =>
    match session.perform action with
    | none => none
    | some (result, next) =>
      (next.run rest).map fun (results, last) => (result :: results, last)

/-- **A list of actions is done part by part.** -/
theorem run_append (session : Session) (xs ys : List Action) :
    session.run (xs ++ ys) =
      (session.run xs).bind fun (results, next) =>
        (next.run ys).map fun (more, last) => (results ++ more, last) := by
  induction xs generalizing session with
  | nil => simp [run]
  | cons action rest ih =>
    rw [List.cons_append, run, run]
    cases session.perform action with
    | none => rfl
    | some done =>
      obtain ⟨result, next⟩ := done
      simp only [ih]
      cases next.run rest with
      | none => rfl
      | some done => simp [Function.comp_def]

end Session

end TiffDirectory
