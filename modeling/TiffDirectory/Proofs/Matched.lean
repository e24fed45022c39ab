import Mathlib
import TiffDirectory.Session.Operation

/-!
# Proofs/Matched — steps on two sources that answer alike

Two steps **match** if they answer alike from any two related states and leave related states
behind, after a failure too.  The answers of a success are equal, those of a failure are errors that
a relation allows.  Combinators of steps match where their parts do, and so every query and every
operation of a cursor answers alike on two readers whose reads and sizes match
(`Query.run_matches`, `CursorOp.run_matches`).
-/

namespace TiffDirectory

variable {σ τ α β : Type}

/-- Both results are the same success, or both are failures with related errors. -/
inductive Result.Alike (E : Error → Error → Prop) : Result α → Result α → Prop
  | ok (a : α) : Alike E (.ok a) (.ok a)
  | error {d e : Error} (related : E d e) : Alike E (.error d) (.error e)

/-- Every error is related to itself, and errors of a mark are related if their causes are. -/
structure Error.Lawful (E : Error → Error → Prop) : Prop where
  refl (e : Error) : E e e
  markUnreadable {d e : Error} : E d e → E (.markUnreadable d) (.markUnreadable e)

/-- From related states the steps answer alike and end in related states. -/
def ReadM.Matches (E : Error → Error → Prop) (P : σ → τ → Prop) (x : ReadM σ α) (y : ReadM τ α) :
    Prop :=
  ∀ s t, P s t → Result.Alike E (x s).1 (y t).1 ∧ P (x s).2 (y t).2

/-- What cursors use of two readers matches; failures to tell the size are the same. -/
structure Reader.Matches (E : Error → Error → Prop) (P : σ → τ → Prop) (R : Reader σ)
    (Q : Reader τ) : Prop where
  read (offset : UInt64) (size : ℕ) : (R.read offset size).Matches E P (Q.read offset size)
  size : R.size.Matches Eq P Q.size

/-- The fields that two entry readers hand out match. -/
structure EntryReader.Matches (E : Error → Error → Prop) (P : σ → τ → Prop) (R : EntryReader σ)
    (Q : EntryReader τ) : Prop where
  readWord (w : Width) : (R.readWord w).Matches E P (Q.readWord w)
  readBytes (n : ℕ) : (R.readBytes n).Matches E P (Q.readBytes n)

variable {E : Error → Error → Prop}

namespace Result

variable {x y : Result α}

theorem Alike.eq (h : Alike Eq x y) : x = y := by
  cases h with
  | ok a => rfl
  | error related => exact congrArg Except.error related

theorem Alike.of_eq (hE : ∀ e, E e e) (h : x = y) : Alike E x y := by
  subst h
  cases x with
  | ok a => exact .ok a
  | error e => exact .error (hE e)

theorem Alike.imp (h : Alike E x y) {F : Error → Error → Prop}
    (hE : ∀ {d e}, E d e → F d e) : Alike F x y := by
  cases h with
  | ok a => exact .ok a
  | error related => exact .error (hE related)

theorem Alike.map (h : Alike E x y) (f : α → β) : Alike E (x.map f) (y.map f) := by
  cases h with
  | ok a => exact .ok (f a)
  | error related => exact .error related

theorem Alike.mapError (h : Alike E x y) {f : Error → Error} {F : Error → Error → Prop}
    (hf : ∀ {d e}, E d e → F (f d) (f e)) : Alike F (x.mapError f) (y.mapError f) := by
  cases h with
  | ok a => exact .ok a
  | error related => exact .error (hf related)

end Result

/-! ## Combinators -/

namespace ReadM

variable {P : σ → τ → Prop} {x : ReadM σ α} {y : ReadM τ α}

theorem matches_pure (a : α) : (pure a : ReadM σ α).Matches E P (pure a : ReadM τ α) :=
  fun _ _ h => ⟨.ok a, h⟩

theorem matches_throw {d e : Error} (h : E d e) :
    (throw d : ReadM σ α).Matches E P (throw e : ReadM τ α) :=
  fun _ _ hP => ⟨.error h, hP⟩

theorem matches_modify {f : σ → σ} {g : τ → τ} (h : ∀ s t, P s t → P (f s) (g t)) :
    (modify f : ReadM σ PUnit).Matches E P (modify g : ReadM τ PUnit) :=
  fun s t hP => ⟨.ok PUnit.unit, h s t hP⟩

/-- **Steps in a row match where each of them does**: the second ones run on the same answer, or on
neither side. -/
theorem Matches.bind {f : α → ReadM σ β} {g : α → ReadM τ β} (h : x.Matches E P y)
    (hnext : ∀ a, (f a).Matches E P (g a)) : (x >>= f).Matches E P (y >>= g) := by
  intro s t hP
  obtain ⟨halike, hleft⟩ := h s t hP
  rw [bind_apply, bind_apply]
  generalize x s = one, y t = other at halike hleft ⊢
  obtain ⟨result, s'⟩ := one
  obtain ⟨result', t'⟩ := other
  cases halike with
  | ok a => exact hnext a s' t' hleft
  | error related => exact ⟨.error related, hleft⟩

theorem Matches.map (h : x.Matches E P y) (f : α → β) : (f <$> x).Matches E P (f <$> y) := by
  intro s t hP
  obtain ⟨halike, hleft⟩ := h s t hP
  rw [map_apply, map_apply]
  exact ⟨halike.map f, hleft⟩

theorem Matches.mapError (h : x.Matches E P y) {f : Error → Error} {F : Error → Error → Prop}
    (hf : ∀ {d e}, E d e → F (f d) (f e)) : (x.mapError f).Matches F P (y.mapError f) :=
  fun s t hP => ⟨(h s t hP).1.mapError hf, (h s t hP).2⟩

end ReadM

/-! ## Cursors

Two cursors on two sources are related if they are the same cursor, and the sources are related. -/

/-- The same cursor on related sources. -/
structure Cursor.Beside (P : σ → τ → Prop) (x : Cursor × σ) (y : Cursor × τ) : Prop where
  cursor_eq : x.1 = y.1
  source : P x.2 y.2

namespace Cursor

variable {P : σ → τ → Prop} {R : Reader σ} {Q : Reader τ}

/-- Steps that look at the cursor before they do anything see the same one. -/
theorem matches_get_bind {f : Cursor × σ → ReadM (Cursor × σ) α}
    {g : Cursor × τ → ReadM (Cursor × τ) α}
    (h : ∀ cursor s t, (f (cursor, s)).Matches E (Beside P) (g (cursor, t))) :
    (get >>= f).Matches E (Beside P) (get >>= g) := by
  rintro ⟨cursor, s⟩ ⟨_, t⟩ ⟨rfl, hP⟩
  rw [ReadM.bind_ok (ReadM.get_apply _), ReadM.bind_ok (ReadM.get_apply _)]
  exact h cursor s t _ _ ⟨rfl, hP⟩

theorem ask_matches {x : ReadM σ α} {y : ReadM τ α} (h : x.Matches E P y) :
    (ask x).Matches E (Beside P) (ask y) := by
  rintro ⟨cursor, s⟩ ⟨_, t⟩ ⟨rfl, hP⟩
  exact ⟨(h s t hP).1, rfl, (h s t hP).2⟩

/-- Both cursors are changed in the same way. -/
theorem modify_matches {f : Cursor → Cursor} :
    (modify (fun (cursor, s) => (f cursor, s)) : ReadM (Cursor × σ) PUnit).Matches E (Beside P)
      (modify (fun (cursor, t) => (f cursor, t)) : ReadM (Cursor × τ) PUnit) :=
  ReadM.matches_modify fun _ _ h => ⟨congrArg f h.cursor_eq, h.source⟩

theorem takeExact_matches (hE : ∀ e, E e e)
    (h : ∀ offset size, (R.read offset size).Matches E P (Q.read offset size)) (n : ℕ) :
    (takeExact R n).Matches E (Beside P) (takeExact Q n) := by
  refine matches_get_bind fun cursor s t => ?_
  refine (ask_matches (h cursor.position n)).bind fun view => ?_
  cases view.first? n with
  | none => exact ReadM.matches_throw (hE _)
  | some bytes => exact modify_matches.bind fun _ => ReadM.matches_pure bytes

/-- Fields match where reads do; the size is not asked for. -/
theorem entryReader_matches (hE : ∀ e, E e e)
    (h : ∀ offset size, (R.read offset size).Matches E P (Q.read offset size)) :
    (entryReader R).Matches E (Beside P) (entryReader Q) where
  readWord w := matches_get_bind fun _ _ _ => (takeExact_matches hE h w.bytes).bind fun _ =>
    ReadM.matches_pure _
  readBytes n := by
    cases n with
    | zero => exact ReadM.matches_pure _
    | succ n => exact takeExact_matches hE h (n + 1)

theorem seek_matches (hE : ∀ e, E e e) (h : R.Matches E P Q) (target : UInt64) :
    (seek R target).Matches E (Beside P) (seek Q target) := by
  have hsize := h.size.mapError (f := .sizeUnknownForSeek) (F := E) fun heq => heq ▸ hE _
  refine (ask_matches hsize).bind fun size => ?_
  split
  · exact ReadM.matches_throw (hE _)
  · exact modify_matches (f := fun cursor => { cursor with position := target })

theorem remaining_matches (hE : ∀ e, E e e) (h : R.Matches E P Q) :
    (remaining R).Matches E (Beside P) (remaining Q) := by
  have hsize := h.size.mapError (f := .sizeUnknown) (F := E) fun heq => heq ▸ hE _
  exact matches_get_bind fun cursor s t => (ask_matches hsize).bind fun size =>
    ReadM.matches_pure _

end Cursor

/-! ## Entries -/

namespace EntryReader

variable {P : σ → τ → Prop} {R : EntryReader σ} {Q : EntryReader τ} {f : Format}

theorem readEntry_matches (h : R.Matches E P Q) (f : Format) :
    (R.readEntry f).Matches E P (Q.readEntry f) :=
  (h.readWord .u16).bind fun _ => (h.readWord .u16).bind fun _ =>
    (h.readWord f.countWidth).bind fun _ => (h.readBytes f.valueSize).bind fun _ =>
      ReadM.matches_pure _

theorem readMoreWithin_matches (hE : ∀ e, E e e) (h : R.Matches E P Q) (room n : ℕ)
    (done : Array (Entry f)) :
    (R.readMoreWithin room n done).Matches E P (Q.readMoreWithin room n done) := by
  induction n generalizing done with
  | zero => exact ReadM.matches_pure done
  | succ n ih =>
    refine (readEntry_matches h f).bind fun entry => ?_
    split
    · exact ih (done.push entry)
    · exact ReadM.matches_throw (hE _)

/-- **Runs match if the fields do**, and their room is the same. -/
theorem readEntriesWithin_matches (hE : ∀ e, E e e) (h : R.Matches E P Q) (room : ℕ) (f : Format)
    (n : ℕ) : (R.readEntriesWithin room f n).Matches E P (Q.readEntriesWithin room f n) := by
  unfold readEntriesWithin
  split
  · exact ReadM.matches_throw (hE _)
  · exact readMoreWithin_matches hE h room n #[]

end EntryReader

/-! ## Operations -/

section Operations

variable {P : σ → τ → Prop} {R : Reader σ} {Q : Reader τ}

theorem Reader.readMark_matches (hE : Error.Lawful E) (h : R.Matches E P Q) :
    R.readMark.Matches E P Q.readMark := by
  refine ((h.read 0 2).mapError hE.markUnreadable).bind fun view => ?_
  split
  · exact ReadM.matches_throw (hE.refl _)
  · split
    · exact ReadM.matches_pure _
    · exact ReadM.matches_throw (hE.refl _)

/-- **A query is answered alike by readers that match**, filled reads included. -/
theorem Query.run_matches (hE : Error.Lawful E) (h : R.Matches E P Q)
    (hfull : ∀ offset size, (R.readFull offset size).Matches E P (Q.readFull offset size))
    (query : Query) : (query.run R).Matches E P (query.run Q) := by
  cases query with
  | read offset size => exact (h.read offset size).map _
  | readFull offset size => exact (hfull offset size).map _
  | size =>
    refine ReadM.Matches.map (fun s t hP => ?_) _
    obtain ⟨halike, hleft⟩ := h.size s t hP
    exact ⟨.of_eq hE.refl halike.eq, hleft⟩
  | mark => exact (Reader.readMark_matches hE h).map _

/-- …and so is an operation of a cursor, which ends at the same place on both. -/
theorem CursorOp.run_matches (hE : ∀ e, E e e) (h : R.Matches E P Q) (op : CursorOp) :
    (op.run R).Matches E (Cursor.Beside P) (op.run Q) := by
  have hfields := Cursor.entryReader_matches hE h.read
  cases op with
  | readWord w => exact (hfields.readWord w).map _
  | readBytes n => exact (hfields.readBytes n).map _
  | seek target => exact (Cursor.seek_matches hE h target).map _
  | remaining => exact (Cursor.remaining_matches hE h).map _
  | byteOrder =>
    rintro ⟨cursor, s⟩ ⟨_, t⟩ ⟨rfl, hP⟩
    exact ⟨.ok _, rfl, hP⟩
  | readEntry f => exact (EntryReader.readEntry_matches hfields f).map _
  | readEntries f n => exact (EntryReader.readEntriesWithin_matches hE hfields n f n).map _

end Operations

end TiffDirectory
