import Mathlib
import TiffDirectory.Proofs.HeldBytes

/-!
# Proofs/Traces — a history step by step

The **trace** of a history lists its steps, each with its result and the session after it
(`Session.trace`).  Of a single action two things are told here.  What it does to the cursors: it
places one, copies one, moves one, or leaves them all alone (`Session.cursorStep_of_perform`).  And
what it leaves of a source that it **spares**, that is, does not open, close or move: everything, up
to where a stream stands (`Session.sameAt_of_perform`).
-/

namespace TiffDirectory

/-! ## Arrays side by side -/

/-- The arrays have as many elements, and those of the same number are related. -/
structure Alongside {α β : Type} (R : α → β → Prop) (xs : Array α) (ys : Array β) : Prop where
  size_eq : xs.size = ys.size
  related {i : ℕ} {x : α} {y : β} : xs[i]? = some x → ys[i]? = some y → R x y

namespace Alongside

variable {α β : Type} {R : α → β → Prop} {xs : Array α} {ys : Array β} {x : α} {y : β}

theorem getElem? (h : Alongside R xs ys) (i : ℕ) : Option.Rel R xs[i]? ys[i]? := by
  rcases Nat.lt_or_ge i xs.size with hx | hx
  · have hy : i < ys.size := h.size_eq ▸ hx
    rw [Array.getElem?_eq_getElem hx, Array.getElem?_eq_getElem hy]
    exact .some (h.related (Array.getElem?_eq_getElem hx) (Array.getElem?_eq_getElem hy))
  · rw [Array.getElem?_eq_none hx, Array.getElem?_eq_none (h.size_eq ▸ hx)]
    exact .none

theorem exists_related {i : ℕ} (h : Alongside R xs ys) (hy : ys[i]? = some y) :
    ∃ x, xs[i]? = some x ∧ R x y := by
  have hrel := h.getElem? i
  rw [hy] at hrel
  generalize xs[i]? = found at hrel ⊢
  cases hrel with
  | @some x _ hxy => exact ⟨x, rfl, hxy⟩

theorem exists_right {i : ℕ} (h : Alongside R xs ys) (hx : xs[i]? = some x) :
    ∃ y, ys[i]? = some y ∧ R x y := by
  have hrel := h.getElem? i
  rw [hx] at hrel
  generalize ys[i]? = found at hrel ⊢
  cases hrel with
  | @some _ y hxy => exact ⟨y, rfl, hxy⟩

theorem singleton (h : R x y) : Alongside R #[x] #[y] := by
  refine ⟨rfl, fun {i} a b ha hb => ?_⟩
  rw [List.getElem?_toArray, List.getElem?_singleton] at ha hb
  obtain ⟨-, hx⟩ := Option.ite_none_right_eq_some.1 ha
  obtain ⟨-, hy⟩ := Option.ite_none_right_eq_some.1 hb
  rwa [← Option.some.inj hx, ← Option.some.inj hy]

theorem push (h : Alongside R xs ys) (hxy : R x y) : Alongside R (xs.push x) (ys.push y) := by
  refine ⟨by rw [Array.size_push, Array.size_push, h.size_eq], fun {i} a b ha hb => ?_⟩
  rw [Array.getElem?_push] at ha hb
  by_cases hi : i = xs.size
  · rw [if_pos hi] at ha
    rw [if_pos (h.size_eq ▸ hi)] at hb
    rwa [← Option.some.inj ha, ← Option.some.inj hb]
  · rw [if_neg hi] at ha
    rw [if_neg (h.size_eq ▸ hi)] at hb
    exact h.related ha hb

theorem setIfInBounds (h : Alongside R xs ys) (hxy : R x y) (i : ℕ) :
    Alongside R (xs.setIfInBounds i x) (ys.setIfInBounds i y) := by
  refine ⟨by rw [Array.size_setIfInBounds, Array.size_setIfInBounds, h.size_eq],
    fun {j} a b ha hb => ?_⟩
  rw [Array.getElem?_setIfInBounds] at ha hb
  by_cases hij : i = j
  · rw [if_pos hij] at ha hb
    obtain ⟨-, hx⟩ := Option.ite_none_right_eq_some.1 ha
    obtain ⟨-, hy⟩ := Option.ite_none_right_eq_some.1 hb
    rwa [← Option.some.inj hx, ← Option.some.inj hy]
  · rw [if_neg hij] at ha hb
    exact h.related ha hb

end Alongside

/-! ## Steps -/

/-- One step of a history: the action, its result, and the session after it. -/
structure Step where
  action : Action
  result : Result Value
  after : Session

/-- The steps of a history, up to the first action that cannot be done. -/
def Session.trace (session : Session) : List Moment → List Step
  | [] => []
  | moment :: rest =>
    match (session.withFiles moment.files).perform moment.action with
    | some (result, after) => { action := moment.action, result, after } :: after.trace rest
    | none => []

/-- The action does not open, close or move the source.  It may read it. -/
def Action.Spares (source : ℕ) : Action → Prop
  | .createFrom other => other ≠ source
  | .moveInto target other => target ≠ source ∧ other ≠ source
  | .openPath other _ => other ≠ source
  | .close other => other ≠ source
  | _ => True

/-- The action is about no cursor. -/
def Action.LeavesCursors : Action → Prop
  | .placeCursor .. => False
  | .copyCursor _ => False
  | .onCursor .. => False
  | _ => True

namespace Session

variable {session next : Session} {action : Action} {result : Result Value} {i j : ℕ}
  {source : Source}

/-! ## Cursors -/

/-- **What an action does to the cursors of a session**, with its result if it moves one. -/
inductive CursorStep (session : Session) : Action → Result Value → Array PlacedCursor → Prop
  | placed {result : Result Value} (cursor : Cursor) (source : ℕ) :
      CursorStep session (.placeCursor cursor source) result
        (session.cursors.push ⟨cursor, source⟩)
  | copied {result : Result Value} {c : ℕ} {placed : PlacedCursor}
      (found : session.cursors[c]? = some placed) :
      CursorStep session (.copyCursor c) result (session.cursors.push placed)
  | moved {c : ℕ} {op : CursorOp} {placed : PlacedCursor} {state left : Source}
      {result : Result Value} {after : Cursor} (found : session.cursors[c]? = some placed)
      (source : session.sources[placed.source]? = some state)
      (run : op.run (Source.reader session.files) (placed.cursor, state) = (result, (after, left))) :
      CursorStep session (.onCursor c op) result
        (session.cursors.setIfInBounds c { placed with cursor := after })
  | aside {action : Action} {result : Result Value} (leaves : action.LeavesCursors) :
      CursorStep session action result session.cursors

theorem cursors_of_onSource {step : ReadM Source Value}
    (h : session.onSource i step = some (result, next)) : next.cursors = session.cursors := by
  obtain ⟨_, -, rfl⟩ := onSource_eq_some h
  rfl

theorem cursors_of_onFile {step : ReadM FileReader Value}
    (h : session.onFile i step = some (result, next)) : next.cursors = session.cursors := by
  obtain ⟨_, -, rfl⟩ := onFile_eq_some h
  rfl

theorem cursorStep_of_perform (h : session.perform action = some (result, next)) :
    session.CursorStep action result next.cursors := by
  have haside : action.LeavesCursors → next.cursors = session.cursors →
      session.CursorStep action result next.cursors := by
    intro hleaves hcursors
    rw [hcursors]
    exact .aside hleaves
  have hdone : ∀ {done : Result Value × Session}, some done = some (result, next) →
      done.2.cursors = next.cursors := fun hdone => congrArg (·.2.cursors) (Option.some.inj hdone)
  cases action with
  | createView v => exact haside trivial (hdone h).symm
  | createBuffer b => exact haside trivial (hdone h).symm
  | createFaulty s => exact haside trivial (hdone h).symm
  | createClosed => exact haside trivial (hdone h).symm
  | createFile path => exact haside trivial (hdone h).symm
  | createFrom source =>
    obtain ⟨reader, -, hadd⟩ := Option.map_eq_some_iff.1 h
    exact haside trivial (hdone (congrArg some hadd)).symm
  | moveInto target source =>
    obtain ⟨reader, -, rfl⟩ := moveInto_eq_some h
    refine haside trivial ?_
    split <;> rfl
  | openPath source path =>
    rw [perform] at h
    exact haside trivial (cursors_of_onFile h)
  | close source =>
    rw [perform] at h
    exact haside trivial (cursors_of_onFile h)
  | path source =>
    rw [perform] at h
    exact haside trivial (cursors_of_onFile h)
  | isValid source =>
    rw [perform] at h
    exact haside trivial (cursors_of_onSource h)
  | calls source =>
    rw [perform] at h
    split at h
    next => exact haside trivial (hdone h).symm
    next => cases h
  | onSource source query =>
    rw [perform] at h
    exact haside trivial (cursors_of_onSource h)
  | writeFile path bytes => exact haside trivial (hdone h).symm
  | removeFile path => exact haside trivial (hdone h).symm
  | placeCursor cursor source =>
    obtain ⟨-, hadd⟩ := Option.ite_none_right_eq_some.1 h
    rw [← hdone hadd]
    exact .placed cursor source
  | copyCursor c =>
    obtain ⟨placed, hfound, hadd⟩ := Option.map_eq_some_iff.1 h
    rw [← hdone (congrArg some hadd)]
    exact .copied hfound
  | sameSource a b =>
    rw [perform] at h
    split at h
    next => exact haside trivial (hdone h).symm
    next => cases h
  | onCursor c op =>
    rw [perform, onCursor] at h
    split at h
    next => cases h
    next placed hfound =>
      split at h
      next => cases h
      next state hsource =>
        obtain ⟨rfl, rfl⟩ := Prod.mk.inj (Option.some.inj h)
        exact .moved hfound hsource rfl

/-! ## Sources that are spared -/

/-- The source of this number is there in the second session too, with all that it had. -/
def SameAt (i : ℕ) (session next : Session) : Prop :=
  ∀ source, session.sources[i]? = some source →
    ∃ other, next.sources[i]? = some other ∧ source.Same other

theorem SameAt.of_sources_eq (h : next.sources = session.sources) : SameAt i session next :=
  fun source hsource => ⟨source, h ▸ hsource, .refl source⟩

theorem SameAt.trans {last : Session} (first : SameAt i session next)
    (second : SameAt i next last) : SameAt i session last := by
  intro source hsource
  obtain ⟨other, hother, hsame⟩ := first source hsource
  obtain ⟨left, hleft, hsame'⟩ := second other hother
  exact ⟨left, hleft, hsame.trans hsame'⟩

theorem sameAt_addSource (session : Session) (i : ℕ) (new : Source) :
    SameAt i session (session.addSource new).2 := by
  intro source hsource
  have hi := (Array.getElem?_eq_some_iff.1 hsource).1
  refine ⟨source, ?_, .refl source⟩
  rw [addSource, Array.getElem?_push, if_neg hi.ne]
  exact hsource

theorem sameAt_setSource_of_ne (h : j ≠ i) (session : Session) (new : Source) :
    SameAt i session (session.setSource j new) :=
  fun source hsource => ⟨source, (sources_setSource_of_ne h).trans hsource, .refl source⟩

/-- A source may change as long as it keeps what it has. -/
theorem sameAt_setSource {old new : Source} (hold : session.sources[j]? = some old)
    (hsame : old.Same new) (i : ℕ) : SameAt i session (session.setSource j new) := by
  by_cases h : j = i
  · subst h
    intro source hsource
    obtain rfl := Option.some.inj (hold.symm.trans hsource)
    have hj := (Array.getElem?_eq_some_iff.1 hold).1
    exact ⟨new, Array.getElem?_setIfInBounds_self_of_lt hj, hsame⟩
  · exact sameAt_setSource_of_ne h session new

theorem sameAt_of_onSource {step : ReadM Source Value}
    (hstep : ∀ source : Source, step.Keeps source.Same)
    (h : session.onSource j step = some (result, next)) : SameAt i session next := by
  obtain ⟨source, hsource, rfl⟩ := onSource_eq_some h
  exact sameAt_setSource hsource (hstep source source (.refl source)) i

theorem sameAt_of_onFile_of_ne (hne : j ≠ i) {step : ReadM FileReader Value}
    (h : session.onFile j step = some (result, next)) : SameAt i session next := by
  obtain ⟨reader, -, rfl⟩ := onFile_eq_some h
  exact sameAt_setSource_of_ne hne session _

theorem sameAt_of_onCursor {c : ℕ} {step : ReadM (Cursor × Source) Value}
    (hstep : ∀ source : Source, step.Keeps fun placed => source.Same placed.2)
    (h : session.onCursor c step = some (result, next)) : SameAt i session next := by
  obtain ⟨placed, source, hsource, hnext⟩ := onCursor_eq_some h
  have hsame := hstep source (placed.cursor, source) (.refl source)
  exact (sameAt_setSource hsource hsame i).trans (.of_sources_eq hnext)

/-- **An action leaves a source that it spares all that it has.** -/
theorem sameAt_of_perform (hspares : action.Spares i)
    (h : session.perform action = some (result, next)) : SameAt i session next := by
  have hreader := Source.reader_keeps_same session.files
  have hadd : ∀ {new : Source}, some (session.addSource new) = some (result, next) →
      SameAt i session next := by
    intro new hdone
    have hsame := session.sameAt_addSource i new
    rwa [Option.some.inj hdone] at hsame
  have hdone : ∀ {done : Result Value × Session}, done.2.sources = session.sources →
      some done = some (result, next) → SameAt i session next := by
    intro done hsources hdone
    refine .of_sources_eq ?_
    rw [← hsources, Option.some.inj hdone]
  cases action with
  | createView v => exact hadd h
  | createBuffer b => exact hadd h
  | createFaulty s => exact hadd h
  | createClosed => exact hadd h
  | createFile path => exact hadd h
  | createFrom source =>
    obtain ⟨reader, -, hdone⟩ := Option.map_eq_some_iff.1 h
    have hleft := sameAt_setSource_of_ne hspares session (.file .movedFrom)
    have hnew := sameAt_addSource (session.setSource source (.file .movedFrom)) i (.file reader)
    rw [hdone] at hnew
    exact hleft.trans hnew
  | moveInto target source =>
    obtain ⟨reader, -, rfl⟩ := moveInto_eq_some h
    split
    next => exact .of_sources_eq rfl
    next =>
      exact (sameAt_setSource_of_ne hspares.1 session _).trans
        (sameAt_setSource_of_ne hspares.2 _ _)
  | openPath source path =>
    rw [perform] at h
    exact sameAt_of_onFile_of_ne hspares h
  | close source =>
    rw [perform] at h
    exact sameAt_of_onFile_of_ne hspares h
  | path source =>
    rw [perform] at h
    obtain ⟨reader, hfile, rfl⟩ := onFile_eq_some h
    exact sameAt_setSource (file?_eq_some_iff.1 hfile) (.refl _) i
  | isValid source =>
    rw [perform] at h
    exact sameAt_of_onSource (fun source => ReadM.keeps_get.map _) h
  | calls source =>
    rw [perform] at h
    split at h
    next => exact hdone rfl h
    next => cases h
  | onSource source query =>
    rw [perform] at h
    exact sameAt_of_onSource (fun source => query.run_keeps (hreader source)) h
  | writeFile path bytes => exact hdone rfl h
  | removeFile path => exact hdone rfl h
  | placeCursor cursor source => exact hdone rfl (Option.ite_none_right_eq_some.1 h).2
  | copyCursor c =>
    obtain ⟨placed, -, hcopy⟩ := Option.map_eq_some_iff.1 h
    exact hdone rfl (congrArg some hcopy)
  | sameSource a b =>
    rw [perform] at h
    split at h
    next => exact hdone rfl h
    next => cases h
  | onCursor c op =>
    rw [perform] at h
    exact sameAt_of_onCursor (fun source => op.run_keeps (hreader source)) h

end Session

end TiffDirectory
