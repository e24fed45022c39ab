import Mathlib
import TiffDirectory.Proofs.Openings
import TiffDirectory.Session

/-!
# Proofs/Ledger — which opening each source of a session still holds

A history is a list of actions, each at a moment with files of its own.  The **ledger** of a history
tells what its sources hold, from the actions alone: opening a path starts an opening, closing ends
it, and a move takes it along.  The sources of a session agree with the ledger of its history
(`Session.agrees_of_live`), because each action keeps them in agreement (`Session.Agrees.perform`).
-/

namespace TiffDirectory

/-! ## Histories and their ledgers -/

/-- An action, and the files at the moment at which it is done. -/
structure Moment where
  files : FileSystem
  action : Action

/-- The moment starts the opening: its action opens the path, in a new reader or in an old one, on
the files of the opening. -/
structure Moment.Opens (moment : Moment) (opening : Opening) : Prop where
  files_eq : moment.files = opening.files
  action_eq : moment.action = .createFile opening.path ∨
    ∃ source, moment.action = .openPath source opening.path

/-- The openings that sources hold, by the numbers of the sources. -/
abbrev Ledger := Array (Option Opening)

namespace Ledger

/-- The opening that a source holds. -/
def opening? (ledger : Ledger) (source : ℕ) : Option Opening := ledger[source]?.join

/-- The ledger after one more action.  **Every attempt to open a path ends the opening before it**;
a reader that is moved into itself keeps its own. -/
def note (ledger : Ledger) (moment : Moment) : Ledger :=
  match moment.action with
  | .createView _ => ledger.push none
  | .createBuffer _ => ledger.push none
  | .createFaulty _ => ledger.push none
  | .createClosed => ledger.push none
  | .createFile path => ledger.push (Opening.of? moment.files path)
  | .createFrom source => (ledger.setIfInBounds source none).push (ledger.opening? source)
  | .moveInto target source =>
    if target = source then ledger
    else (ledger.setIfInBounds target (ledger.opening? source)).setIfInBounds source none
  | .openPath source path => ledger.setIfInBounds source (Opening.of? moment.files path)
  | .close source => ledger.setIfInBounds source none
  | _ => ledger

theorem setIfInBounds_opening? (ledger : Ledger) (i : ℕ) :
    ledger.setIfInBounds i (ledger.opening? i) = ledger := by
  refine Array.ext_getElem? fun j => ?_
  rw [Array.getElem?_setIfInBounds, opening?]
  split
  next hj =>
    subst hj
    split
    next hi => rw [Array.getElem?_eq_getElem hi, Option.join_some]
    next hi => exact (Array.getElem?_eq_none (Nat.not_lt.1 hi)).symm
  next => rfl

/-- The openings that are held after a history. -/
def ofHistory (history : List Moment) : Ledger := history.foldl note #[]

/-! The ledger makes nothing up: what it names was opened at a moment of the history. -/

theorem mem_of_opening? {ledger : Ledger} {i : ℕ} {opening : Opening}
    (h : ledger.opening? i = some opening) : some opening ∈ ledger :=
  Array.mem_of_getElem? (Option.join_eq_some_iff.1 h)

/-- An opening that a moment adds to the ledger is one that the moment starts; a move adds none. -/
theorem mem_or_opens_of_mem_note {ledger : Ledger} {moment : Moment} {opening : Opening}
    (h : some opening ∈ ledger.note moment) :
    some opening ∈ ledger ∨ moment.Opens opening := by
  have hpush : ∀ {held : Ledger}, some opening ∈ held.push none → some opening ∈ held := by
    intro held hmem
    exact (Array.mem_push.1 hmem).resolve_right nofun
  have hset : ∀ {held : Ledger} {i : ℕ} {o : Option Opening},
      some opening ∈ held.setIfInBounds i o → some opening ∈ held ∨ some opening = o :=
    Array.mem_or_eq_of_mem_setIfInBounds
  rw [note] at h
  split at h
  next => exact Or.inl (hpush h)
  next => exact Or.inl (hpush h)
  next => exact Or.inl (hpush h)
  next => exact Or.inl (hpush h)
  next path haction =>
    refine (Array.mem_push.1 h).imp_right fun hof => ?_
    obtain ⟨hfiles, rfl⟩ := Opening.eq_of_of?_eq_some hof.symm
    exact ⟨hfiles.symm, Or.inl haction⟩
  next source _ =>
    rcases Array.mem_push.1 h with hleft | hmoved
    · exact Or.inl ((hset hleft).resolve_right nofun)
    · exact Or.inl (mem_of_opening? hmoved.symm)
  next target source _ =>
    split at h
    next => exact Or.inl h
    next =>
      rcases hset ((hset h).resolve_right nofun) with hheld | hmoved
      · exact Or.inl hheld
      · exact Or.inl (mem_of_opening? hmoved.symm)
  next source path haction =>
    refine (hset h).imp_right fun hof => ?_
    obtain ⟨hfiles, rfl⟩ := Opening.eq_of_of?_eq_some hof.symm
    exact ⟨hfiles.symm, Or.inr ⟨source, haction⟩⟩
  next => exact Or.inl ((hset h).resolve_right nofun)
  next => exact Or.inl h

theorem exists_moment_of_mem_foldl {ledger : Ledger} {history : List Moment} {opening : Opening}
    (h : some opening ∈ history.foldl note ledger) :
    some opening ∈ ledger ∨ ∃ moment ∈ history, moment.Opens opening := by
  induction history generalizing ledger with
  | nil => exact Or.inl h
  | cons moment rest ih =>
    rcases ih h with hnote | ⟨later, hlater, hopens⟩
    · refine (mem_or_opens_of_mem_note hnote).imp_right fun hopens => ?_
      exact ⟨moment, List.mem_cons_self, hopens⟩
    · exact Or.inr ⟨later, List.mem_cons_of_mem _ hlater, hopens⟩

/-- **An opening that is held was started at a moment of the history.** -/
theorem exists_moment_of_opening? {history : List Moment} {i : ℕ} {opening : Opening}
    (h : (ofHistory history).opening? i = some opening) :
    ∃ moment ∈ history, moment.Opens opening :=
  (exists_moment_of_mem_foldl (mem_of_opening? h)).resolve_left (Array.not_mem_empty _)

end Ledger

/-- The session on the files of another moment. -/
def Session.withFiles (session : Session) (files : FileSystem) : Session := { session with files }

/-- The session after a history, if every action of it could be done. -/
def Session.live (session : Session) : List Moment → Option Session
  | [] => some session
  | moment :: rest =>
    match (session.withFiles moment.files).perform moment.action with
    | some (_, next) => next.live rest
    | none => none

/-! ## Agreement -/

/-- A file reader has open what it is said to hold.  Other sources hold nothing of this kind. -/
def Source.Agrees : Source → Option Opening → Prop
  | .file reader, o => reader.Agrees o
  | .view _, _ => True
  | .buffer _, _ => True
  | .faulty _, _ => True

/-- All sources of a session agree with a ledger. -/
structure Session.Agrees (session : Session) (ledger : Ledger) : Prop where
  size_eq : ledger.size = session.sources.size
  source {i : ℕ} {source : Source} :
    session.sources[i]? = some source → source.Agrees (ledger.opening? i)

theorem Source.dispatch_keeps_agrees {α : Type} {fs : FileSystem} {o : Option Opening}
    {step : {σ : Type} → Reader σ → ReadM σ α}
    (h : (step (FileReader.reader fs)).Keeps (FileReader.Agrees · o)) :
    (dispatch fs step).Keeps (Source.Agrees · o) := by
  intro source hsource
  cases source with
  | file reader => exact h reader hsource
  | view v => trivial
  | buffer b => trivial
  | faulty state => trivial

theorem Source.reader_keeps_agrees (fs : FileSystem) (o : Option Opening) :
    (reader fs).Keeps (Source.Agrees · o) where
  read offset size := dispatch_keeps_agrees ((FileReader.reader_keeps_agrees fs o).read offset size)
  readFull offset size :=
    dispatch_keeps_agrees ((FileReader.reader_keeps_agrees fs o).readFull offset size)
  size := dispatch_keeps_agrees (FileReader.reader_keeps_agrees fs o).size

namespace Session

variable {session next : Session} {ledger : Ledger} {i : ℕ} {o : Option Opening}
  {reader : FileReader} {result : Result Value}

theorem file?_eq_some_iff : session.file? i = some reader ↔
    session.sources[i]? = some (.file reader) := by
  rw [file?]
  split
  next held h => rw [h, Option.some.injEq, Option.some.injEq, Source.file.injEq]
  next h =>
    refine ⟨nofun, fun hfile => ?_⟩
    exact absurd hfile (h reader)

theorem Agrees.of_file? (h : session.Agrees ledger) (hfile : session.file? i = some reader) :
    reader.Agrees (ledger.opening? i) :=
  h.source (file?_eq_some_iff.1 hfile)

/-- Only the sources count. -/
theorem Agrees.of_sources_eq (h : session.Agrees ledger) (hnext : next.sources = session.sources) :
    next.Agrees ledger :=
  ⟨hnext ▸ h.size_eq, fun hsource => h.source (hnext ▸ hsource)⟩

theorem Agrees.addSource (h : session.Agrees ledger) (source : Source) (hsource : source.Agrees o) :
    (session.addSource source).2.Agrees (ledger.push o) := by
  refine ⟨?_, ?_⟩
  · rw [Array.size_push, h.size_eq]
    exact (Array.size_push ..).symm
  · intro j found hfound
    rw [Session.addSource, Array.getElem?_push] at hfound
    rw [Ledger.opening?, Array.getElem?_push, h.size_eq]
    split at hfound
    next hj =>
      obtain rfl := Option.some.inj hfound
      rwa [if_pos hj]
    next hj =>
      rw [if_neg hj]
      exact h.source hfound

theorem Agrees.setSource (h : session.Agrees ledger) (i : ℕ) (source : Source)
    (hsource : source.Agrees o) :
    (session.setSource i source).Agrees (ledger.setIfInBounds i o) := by
  refine ⟨?_, ?_⟩
  · rw [Array.size_setIfInBounds, h.size_eq]
    exact (Array.size_setIfInBounds ..).symm
  · intro j found hfound
    rw [Session.setSource, Array.getElem?_setIfInBounds] at hfound
    rw [Ledger.opening?, Array.getElem?_setIfInBounds, h.size_eq]
    split at hfound
    next hj =>
      split at hfound
      next hi =>
        obtain rfl := Option.some.inj hfound
        rwa [if_pos hj, if_pos hi]
      next => exact absurd hfound nofun
    next hj =>
      rw [if_neg hj]
      exact h.source hfound

/-- A source may change as long as it agrees with what it holds. -/
theorem Agrees.setSource_of_agrees (h : session.Agrees ledger) {source : Source}
    (hsource : source.Agrees (ledger.opening? i)) : (session.setSource i source).Agrees ledger := by
  have hset := h.setSource i source hsource
  rwa [Ledger.setIfInBounds_opening?] at hset

/-! ## Parts of actions -/

variable {cursor : ℕ}

theorem onSource_eq_some {step : ReadM Source Value}
    (h : session.onSource i step = some (result, next)) :
    ∃ source, session.sources[i]? = some source ∧
      next = session.setSource i (step source).2 := by
  rw [onSource] at h
  split at h
  next source hsource =>
    exact ⟨source, hsource, (congrArg Prod.snd (Option.some.inj h)).symm⟩
  next => exact absurd h nofun

theorem onFile_eq_some {step : ReadM FileReader Value}
    (h : session.onFile i step = some (result, next)) :
    ∃ reader, session.file? i = some reader ∧
      next = session.setSource i (.file (step reader).2) := by
  rw [onFile] at h
  split at h
  next reader hreader =>
    exact ⟨reader, hreader, (congrArg Prod.snd (Option.some.inj h)).symm⟩
  next => exact absurd h nofun

theorem onCursor_eq_some {step : ReadM (Cursor × Source) Value}
    (h : session.onCursor cursor step = some (result, next)) :
    ∃ (placed : PlacedCursor) (source : Source), session.sources[placed.source]? = some source ∧
      next.sources =
        (session.setSource placed.source (step (placed.cursor, source)).2.2).sources := by
  rw [onCursor] at h
  split at h
  next => exact absurd h nofun
  next placed hplaced =>
    split at h
    next => exact absurd h nofun
    next source hsource =>
      obtain rfl := congrArg Prod.snd (Option.some.inj h)
      exact ⟨placed, source, hsource, rfl⟩

theorem Agrees.onSource (h : session.Agrees ledger) {step : ReadM Source Value}
    (hdone : session.onSource i step = some (result, next))
    (hstep : ∀ o, step.Keeps (Source.Agrees · o)) : next.Agrees ledger := by
  obtain ⟨source, hsource, rfl⟩ := onSource_eq_some hdone
  exact h.setSource_of_agrees (hstep _ source (h.source hsource))

theorem Agrees.onFile (h : session.Agrees ledger) {α : Type} {step : ReadM FileReader α}
    {answer : α → Value} (hdone : session.onFile i (answer <$> step) = some (result, next))
    (hstep : ∀ reader, reader.Agrees (ledger.opening? i) → (step reader).2.Agrees o) :
    next.Agrees (ledger.setIfInBounds i o) := by
  obtain ⟨reader, hreader, rfl⟩ := onFile_eq_some hdone
  refine h.setSource i (.file _) ?_
  rw [ReadM.map_apply]
  exact hstep reader (h.of_file? hreader)

theorem Agrees.onCursor (h : session.Agrees ledger) {step : ReadM (Cursor × Source) Value}
    (hdone : session.onCursor cursor step = some (result, next))
    (hstep : ∀ o, step.Keeps fun placed => placed.2.Agrees o) : next.Agrees ledger := by
  obtain ⟨placed, source, hsource, hnext⟩ := onCursor_eq_some hdone
  have hset := h.setSource_of_agrees (hstep _ (placed.cursor, source) (h.source hsource))
  exact hset.of_sources_eq hnext

theorem moveInto_eq_some {target source : ℕ}
    (h : session.moveInto target source = some (result, next)) :
    ∃ reader, session.file? source = some reader ∧
      next = if target = source then session
        else (session.setSource target (.file reader)).setSource source (.file .movedFrom) := by
  rw [moveInto] at h
  split at h
  next old reader hold hreader =>
    exact ⟨reader, hreader, (congrArg Prod.snd (Option.some.inj h)).symm⟩
  next => exact absurd h nofun

/-- A new source enters the ledger with what it holds. -/
theorem Agrees.of_addSource (h : session.Agrees ledger) {source : Source}
    (hdone : some (session.addSource source) = some (result, next)) (hsource : source.Agrees o) :
    next.Agrees (ledger.push o) := by
  have hadd := h.addSource source hsource
  rwa [Option.some.inj hdone] at hadd

/-- An action that leaves all sources alone leaves the ledger as it is. -/
theorem Agrees.of_done (h : session.Agrees ledger) {done : Result Value × Session}
    (hdone : some done = some (result, next)) (hsources : done.2.sources = session.sources) :
    next.Agrees ledger := by
  refine h.of_sources_eq ?_
  rw [← hsources, Option.some.inj hdone]

/-! ## Whole actions, and histories -/

/-- **Each action keeps the sources in agreement with the ledger.** -/
theorem Agrees.perform (h : session.Agrees ledger) {action : Action}
    (hdone : session.perform action = some (result, next)) :
    next.Agrees (ledger.note { files := session.files, action }) := by
  have hreader := Source.reader_keeps_agrees session.files
  cases action with
  | createView v => exact h.of_addSource hdone trivial
  | createBuffer b => exact h.of_addSource hdone trivial
  | createFaulty state => exact h.of_addSource hdone trivial
  | createClosed => exact h.of_addSource hdone FileReader.agrees_new
  | createFile path =>
    exact h.of_addSource hdone (FileReader.agrees_new.openPath session.files path)
  | createFrom source =>
    obtain ⟨reader, hfile, hadd⟩ := Option.map_eq_some_iff.1 hdone
    have hleft := h.setSource source (.file .movedFrom) FileReader.agrees_movedFrom
    exact hleft.of_addSource (congrArg some hadd) (h.of_file? hfile)
  | moveInto target source =>
    obtain ⟨reader, hfile, rfl⟩ := moveInto_eq_some hdone
    rw [Ledger.note]
    dsimp only
    split
    next => exact h
    next =>
      have htarget := h.setSource target (.file reader) (h.of_file? hfile)
      exact htarget.setSource source (.file .movedFrom) FileReader.agrees_movedFrom
  | openPath source path =>
    rw [Session.perform] at hdone
    exact h.onFile hdone fun _ hfile => hfile.openPath session.files path
  | close source =>
    rw [Session.perform] at hdone
    exact h.onFile hdone fun _ hfile => hfile.close
  | path source =>
    rw [Session.perform] at hdone
    have hkept := h.onFile hdone fun _ hfile => hfile
    rwa [Ledger.setIfInBounds_opening?] at hkept
  | isValid source =>
    rw [Session.perform] at hdone
    exact h.onSource hdone fun o => ReadM.keeps_get.map _
  | calls source =>
    rw [Session.perform] at hdone
    split at hdone
    next => exact h.of_done hdone rfl
    next => exact absurd hdone nofun
  | onSource source query =>
    rw [Session.perform] at hdone
    exact h.onSource hdone fun o => query.run_keeps (hreader o)
  | writeFile path bytes => exact h.of_done hdone rfl
  | removeFile path => exact h.of_done hdone rfl
  | placeCursor cursor source =>
    obtain ⟨-, hadd⟩ := Option.ite_none_right_eq_some.1 hdone
    exact h.of_done hadd rfl
  | copyCursor cursor =>
    obtain ⟨placed, -, hadd⟩ := Option.map_eq_some_iff.1 hdone
    exact h.of_done (congrArg some hadd) rfl
  | sameSource a b =>
    rw [Session.perform] at hdone
    split at hdone
    next => exact h.of_done hdone rfl
    next => exact absurd hdone nofun
  | onCursor cursor op =>
    rw [Session.perform] at hdone
    exact h.onCursor hdone fun o => op.run_keeps (hreader o)

theorem Agrees.live (h : session.Agrees ledger) {history : List Moment}
    (hlive : session.live history = some next) : next.Agrees (history.foldl Ledger.note ledger) := by
  induction history generalizing session ledger with
  | nil =>
    obtain rfl := Option.some.inj hlive
    exact h
  | cons moment rest ih =>
    rw [Session.live] at hlive
    split at hlive
    next result done hdone =>
      have hfiles : (session.withFiles moment.files).Agrees ledger := h.of_sources_eq rfl
      exact ih (hfiles.perform hdone) hlive
    next => exact absurd hlive nofun

/-- **After any history the sources hold what its ledger says.** -/
theorem agrees_of_live {history : List Moment} (h : live {} history = some session) :
    session.Agrees (Ledger.ofHistory history) := by
  have hnew : ({} : Session).Agrees #[] :=
    ⟨rfl, fun hsource => absurd (Array.getElem?_empty.symm.trans hsource) nofun⟩
  exact hnew.live h

end Session

end TiffDirectory
