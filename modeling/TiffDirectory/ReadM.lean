import TiffDirectory.Error

/-!
# ReadM — steps that read from a source

A step is a function from the state of its source to a result and the state after it.  The state
moves on **after a failure too**: what a failing step did to its source is not undone.  The lemmas
here say what each combinator does as such a function.
-/

namespace TiffDirectory

/-- Steps over sources of state `σ` with results in `α`. -/
def ReadM (σ α : Type) := σ → Result α × σ

namespace ReadM

variable {σ α β : Type}

@[always_inline]
instance : Monad (ReadM σ) where
  pure a := fun s => (.ok a, s)
  bind x f := fun s =>
    match x s with
    | (.ok a, t) => f a t
    | (.error e, t) => (.error e, t)

@[always_inline]
instance : MonadStateOf σ (ReadM σ) where
  get := fun s => (.ok s, s)
  set t := fun _ => (.ok ⟨⟩, t)
  modifyGet f := fun s =>
    let (a, t) := f s
    (.ok a, t)

@[always_inline]
instance : MonadExceptOf Error (ReadM σ) where
  throw e := fun s => (.error e, s)
  tryCatch x handle := fun s =>
    match x s with
    | (.ok a, t) => (.ok a, t)
    | (.error e, t) => handle e t

@[ext] theorem ext {x y : ReadM σ α} (h : ∀ s, x s = y s) : x = y := funext h

/-! ## Steps as functions -/

@[simp] theorem pure_apply (a : α) (s : σ) : (pure a : ReadM σ α) s = (.ok a, s) := rfl

@[simp] theorem throw_apply (e : Error) (s : σ) : (throw e : ReadM σ α) s = (.error e, s) := rfl

@[simp] theorem get_apply (s : σ) : (get : ReadM σ σ) s = (.ok s, s) := rfl

@[simp] theorem set_apply (s t : σ) : (set t : ReadM σ PUnit) s = (.ok ⟨⟩, t) := rfl

@[simp] theorem modify_apply (f : σ → σ) (s : σ) :
    (modify f : ReadM σ PUnit) s = (.ok ⟨⟩, f s) := rfl

/-- **A step that follows another runs only after its success**, on the state that it left. -/
theorem bind_apply (x : ReadM σ α) (f : α → ReadM σ β) (s : σ) :
    (x >>= f) s = match x s with
      | (.ok a, t) => f a t
      | (.error e, t) => (.error e, t) := rfl

theorem bind_ok {x : ReadM σ α} {f : α → ReadM σ β} {s t : σ} {a : α} (h : x s = (.ok a, t)) :
    (x >>= f) s = f a t := by
  rw [bind_apply, h]

theorem bind_error {x : ReadM σ α} {f : α → ReadM σ β} {s t : σ} {e : Error}
    (h : x s = (.error e, t)) : (x >>= f) s = (.error e, t) := by
  rw [bind_apply, h]

/-- Two steps in a row succeed exactly when both do. -/
theorem bind_eq_ok_iff {x : ReadM σ α} {f : α → ReadM σ β} {s u : σ} {b : β} :
    (x >>= f) s = (.ok b, u) ↔ ∃ a t, x s = (.ok a, t) ∧ f a t = (.ok b, u) := by
  rw [bind_apply]
  rcases x s with ⟨_ | a, t⟩ <;> simp [and_assoc]

/-- Two steps in a row fail when the first one does, or the second one after it. -/
theorem bind_eq_error_iff {x : ReadM σ α} {f : α → ReadM σ β} {s u : σ} {e : Error} :
    (x >>= f) s = (.error e, u) ↔
      x s = (.error e, u) ∨ ∃ a t, x s = (.ok a, t) ∧ f a t = (.error e, u) := by
  rw [bind_apply]
  rcases x s with ⟨_ | a, t⟩ <;> simp [and_assoc]

instance : LawfulMonad (ReadM σ) := LawfulMonad.mk' (ReadM σ)
  (by
    intro α x
    ext s : 1
    change (x >>= fun a => pure (id a)) s = x s
    rw [bind_apply]
    rcases x s with ⟨_ | a, t⟩ <;> rfl)
  (by intro α β a f; rfl)
  (by
    intro α β γ x f g
    ext s : 1
    simp only [bind_apply]
    rcases x s with ⟨_ | a, t⟩ <;> rfl)

@[simp] theorem map_apply (f : α → β) (x : ReadM σ α) (s : σ) :
    (f <$> x) s = ((x s).1.map f, (x s).2) := by
  rw [← bind_pure_comp, bind_apply]
  rcases x s with ⟨_ | a, t⟩ <;> rfl

theorem map_eq_ok_iff {f : α → β} {x : ReadM σ α} {s t : σ} {b : β} :
    (f <$> x) s = (.ok b, t) ↔ ∃ a, x s = (.ok a, t) ∧ f a = b := by
  rw [map_apply]
  rcases x s with ⟨_ | a, u⟩ <;> simp [Except.map, and_assoc, and_comm]

theorem map_eq_error_iff {f : α → β} {x : ReadM σ α} {s t : σ} {e : Error} :
    (f <$> x) s = (.error e, t) ↔ x s = (.error e, t) := by
  rw [map_apply]
  rcases x s with ⟨_ | a, u⟩ <;> simp [Except.map]

/-- The same step, with its failure put in other words. -/
def mapError (f : Error → Error) (x : ReadM σ α) : ReadM σ α := fun s =>
  let (result, s) := x s
  (result.mapError f, s)

@[simp] theorem mapError_apply (f : Error → Error) (x : ReadM σ α) (s : σ) :
    mapError f x s = ((x s).1.mapError f, (x s).2) := rfl

end ReadM

/-! ## Recording

A source together with the calls made to it so far, the failed ones included. -/

/-- A source of state `σ` that keeps a record of its calls, each described by a `κ`. -/
structure Recorded (κ σ : Type) where
  source : σ
  calls : Array κ := #[]
  deriving Repr

namespace ReadM

variable {σ κ α : Type}

/-- The same step on a recorded source: one more call is on the record, whatever its result. -/
def record (call : κ) (step : ReadM σ α) : ReadM (Recorded κ σ) α := fun recorded =>
  let ⟨source, calls⟩ := recorded
  let (result, source) := step source
  (result, ⟨source, calls.push call⟩)

@[simp] theorem record_apply (call : κ) (step : ReadM σ α) (recorded : Recorded κ σ) :
    record call step recorded =
      ((step recorded.source).1, ⟨(step recorded.source).2, recorded.calls.push call⟩) := rfl

/-- The same step on a recorded source, kept off the record. -/
def unrecorded (step : ReadM σ α) : ReadM (Recorded κ σ) α := fun recorded =>
  let ⟨source, calls⟩ := recorded
  let (result, source) := step source
  (result, ⟨source, calls⟩)

@[simp] theorem unrecorded_apply (step : ReadM σ α) (recorded : Recorded κ σ) :
    unrecorded step recorded =
      ((step recorded.source).1, ⟨(step recorded.source).2, recorded.calls⟩) := rfl

end ReadM

end TiffDirectory
