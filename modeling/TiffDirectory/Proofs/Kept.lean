import Mathlib
import TiffDirectory.Session.Operation

/-!
# Proofs/Kept — what steps keep

A step **keeps** a property of its source if the property holds after the step wherever it held
before, whatever the result of the step.  Combinators of steps keep what their parts keep, and so
every query and every operation of a cursor keeps what the three operations of the reader keep
(`Query.run_keeps`, `CursorOp.run_keeps`).
-/

namespace TiffDirectory

variable {σ α β : Type}

/-- The property holds after the step wherever it held before. -/
def ReadM.Keeps (step : ReadM σ α) (P : σ → Prop) : Prop := ∀ s, P s → P (step s).2

/-- Every operation of the reader keeps the property. -/
structure Reader.Keeps (R : Reader σ) (P : σ → Prop) : Prop where
  read (offset : UInt64) (size : ℕ) : (R.read offset size).Keeps P
  readFull (offset : UInt64) (size : ℕ) : (R.readFull offset size).Keeps P
  size : R.size.Keeps P

/-- Every field that the entry reader hands out keeps the property. -/
structure EntryReader.Keeps (E : EntryReader σ) (P : σ → Prop) : Prop where
  readWord (w : Width) : (E.readWord w).Keeps P
  readBytes (n : ℕ) : (E.readBytes n).Keeps P

/-! ## Combinators -/

namespace ReadM

variable {P : σ → Prop} {step : ReadM σ α}

theorem keeps_pure (a : α) : (pure a : ReadM σ α).Keeps P := fun _ h => h

theorem keeps_throw (e : Error) : (throw e : ReadM σ α).Keeps P := fun _ h => h

theorem keeps_get : (get : ReadM σ σ).Keeps P := fun _ h => h

theorem keeps_modify {f : σ → σ} (hf : ∀ s, P s → P (f s)) : (modify f : ReadM σ PUnit).Keeps P :=
  hf

/-- **Steps in a row keep what each of them keeps**, also where a failure stops them. -/
theorem Keeps.bind {next : α → ReadM σ β} (hstep : step.Keeps P) (hnext : ∀ a, (next a).Keeps P) :
    (step >>= next).Keeps P := by
  intro s hs
  have ht := hstep s hs
  rw [bind_apply]
  rcases hrun : step s with ⟨e | a, t⟩
  · rwa [hrun] at ht
  · rw [hrun] at ht
    exact hnext a t ht

theorem Keeps.map (h : step.Keeps P) (f : α → β) : (f <$> step).Keeps P := by
  intro s hs
  rw [map_apply]
  exact h s hs

theorem Keeps.mapError (h : step.Keeps P) (f : Error → Error) : (step.mapError f).Keeps P := h

end ReadM

/-! ## Cursors

A cursor has a state of its own, of which the property says nothing. -/

namespace Cursor

variable {R : Reader σ} {P : σ → Prop}

theorem ask_keeps {step : ReadM σ α} (h : step.Keeps P) :
    (ask step).Keeps fun placed => P placed.2 :=
  fun placed => h placed.2

theorem takeExact_keeps (h : R.Keeps P) (n : ℕ) :
    (takeExact R n).Keeps fun placed => P placed.2 := by
  refine ReadM.keeps_get.bind fun placed => ?_
  refine (ask_keeps (h.read placed.1.position n)).bind fun view => ?_
  cases view.first? n with
  | none => exact ReadM.keeps_throw _
  | some bytes =>
    exact ReadM.Keeps.bind (ReadM.keeps_modify fun _ hplaced => hplaced) fun _ => ReadM.keeps_pure _

theorem entryReader_keeps (h : R.Keeps P) :
    (entryReader R).Keeps fun placed => P placed.2 where
  readWord w := ReadM.keeps_get.bind fun _ => (takeExact_keeps h w.bytes).bind fun _ =>
    ReadM.keeps_pure _
  readBytes n := by
    cases n with
    | zero => exact ReadM.keeps_pure _
    | succ n => exact takeExact_keeps h (n + 1)

theorem seek_keeps (h : R.Keeps P) (target : UInt64) :
    (seek R target).Keeps fun placed => P placed.2 := by
  refine (ask_keeps (h.size.mapError _)).bind fun size => ?_
  split
  · exact ReadM.keeps_throw _
  · exact ReadM.keeps_modify fun _ hplaced => hplaced

theorem remaining_keeps (h : R.Keeps P) : (remaining R).Keeps fun placed => P placed.2 :=
  ReadM.keeps_get.bind fun _ => (ask_keeps (h.size.mapError _)).bind fun _ => ReadM.keeps_pure _

end Cursor

/-! ## Entries -/

namespace EntryReader

variable {E : EntryReader σ} {P : σ → Prop} {f : Format}

theorem readEntry_keeps (h : E.Keeps P) (f : Format) : (E.readEntry f).Keeps P :=
  (h.readWord .u16).bind fun _ => (h.readWord .u16).bind fun _ =>
    (h.readWord f.countWidth).bind fun _ => (h.readBytes f.valueSize).bind fun _ =>
      ReadM.keeps_pure _

theorem readMoreWithin_keeps (h : E.Keeps P) (room n : ℕ) (done : Array (Entry f)) :
    (E.readMoreWithin room n done).Keeps P := by
  induction n generalizing done with
  | zero => exact ReadM.keeps_pure done
  | succ n ih =>
    refine (readEntry_keeps h f).bind fun entry => ?_
    split
    · exact ih (done.push entry)
    · exact ReadM.keeps_throw _

theorem readEntriesWithin_keeps (h : E.Keeps P) (room : ℕ) (f : Format) (n : ℕ) :
    (E.readEntriesWithin room f n).Keeps P := by
  unfold readEntriesWithin
  split
  · exact ReadM.keeps_throw _
  · exact readMoreWithin_keeps h room n #[]

theorem readEntries_keeps (h : E.Keeps P) (f : Format) (n : ℕ) : (E.readEntries f n).Keeps P :=
  readEntriesWithin_keeps h n f n

end EntryReader

/-! ## Operations -/

section Operations

variable {R : Reader σ} {P : σ → Prop}

theorem Reader.readMark_keeps (h : R.Keeps P) : R.readMark.Keeps P := by
  refine ((h.read 0 2).mapError _).bind fun view => ?_
  split
  · exact ReadM.keeps_throw _
  · split
    · exact ReadM.keeps_pure _
    · exact ReadM.keeps_throw _

/-- **A query keeps what the reader keeps.** -/
theorem Query.run_keeps (h : R.Keeps P) (query : Query) : (query.run R).Keeps P := by
  cases query with
  | read offset size => exact (h.read offset size).map _
  | readFull offset size => exact (h.readFull offset size).map _
  | size => exact h.size.map _
  | mark => exact (Reader.readMark_keeps h).map _

/-- …and so does an operation of any cursor on it. -/
theorem CursorOp.run_keeps (h : R.Keeps P) (op : CursorOp) :
    (op.run R).Keeps fun placed => P placed.2 := by
  have hfields := Cursor.entryReader_keeps h
  cases op with
  | readWord w => exact (hfields.readWord w).map _
  | readBytes n => exact (hfields.readBytes n).map _
  | seek target => exact (Cursor.seek_keeps h target).map _
  | remaining => exact (Cursor.remaining_keeps h).map _
  | byteOrder => exact ReadM.keeps_get.map _
  | readEntry f => exact (EntryReader.readEntry_keeps hfields f).map _
  | readEntries f n => exact (EntryReader.readEntries_keeps hfields f n).map _

end Operations

end TiffDirectory
