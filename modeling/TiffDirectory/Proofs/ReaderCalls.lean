import Mathlib
import TiffDirectory.Proofs.Walks

/-!
# Proofs/ReaderCalls — what an operation of a cursor asks of its reader

A cursor that reads a field makes **one call, at its position**, and one that seeks or tells what
remains asks once for the size.  The reply to that call is all that matters: it decides the result
(`Cursor.ReadsByReply`, `Cursor.SeeksByReply`, `Cursor.TellsByReply`) and whether the cursor moves,
which it does only if the operation succeeds.  Nothing is asked of the reader in return, neither
views of the right length nor a size that fits them.
-/

namespace TiffDirectory

variable {σ : Type}

/-- A call of a reader. -/
inductive ReaderCall where
  | read (offset : UInt64) (size : ℕ)
  | readFull (offset : UInt64) (size : ℕ)
  | size
  deriving DecidableEq, Repr

/-- The same reader with a record of all its calls. -/
def Reader.observed (R : Reader σ) : Reader (Recorded ReaderCall σ) where
  read offset size := (R.read offset size).record (.read offset size)
  readFull offset size := (R.readFull offset size).record (.readFull offset size)
  size := R.size.record .size

theorem Reader.read_observed {R : Reader σ} {s t : σ} {offset : UInt64} {size : ℕ}
    {reply : Result Bytes} (h : R.read offset size s = (reply, t)) (calls : Array ReaderCall) :
    R.observed.read offset size ⟨s, calls⟩ = (reply, ⟨t, calls.push (.read offset size)⟩) := by
  have hrecord : R.observed.read offset size ⟨s, calls⟩ = ((R.read offset size s).1,
    ⟨(R.read offset size s).2, calls.push (.read offset size)⟩) := rfl
  rw [hrecord, h]

theorem Reader.size_observed {R : Reader σ} {s t : σ} {reply : Result UInt64}
    (h : R.size s = (reply, t)) (calls : Array ReaderCall) :
    R.observed.size ⟨s, calls⟩ = (reply, ⟨t, calls.push .size⟩) := by
  have hrecord : R.observed.size ⟨s, calls⟩ =
    ((R.size s).1, ⟨(R.size s).2, calls.push .size⟩) := rfl
  rw [hrecord, h]

namespace Cursor

/-! ## Results by replies -/

/-- **What reading a field comes to**, by the reply to the call for its bytes, and the cursor after
it.  A view that is long enough fills the field, whatever follows in it; any other reply is told as
it is, and the cursor stays. -/
structure ReadsByReply (cursor : Cursor) (field : EntryField) (reply : Result Bytes)
    (result : Result Value) (after : Cursor) : Prop where
  succeeds_iff : (∃ value, result = .ok value) ↔ ∃ view, reply = .ok view ∧ field.size ≤ view.size
  whole : ∀ view, reply = .ok view → field.size ≤ view.size →
    result = .ok (field.answer cursor.order (view.extract 0 field.size)) ∧
      after.order = cursor.order ∧
      after.position.toNat = (cursor.position.toNat + field.size) % 2 ^ 64
  short : ∀ view, reply = .ok view → view.size < field.size →
    let q := cursor.position.toNat
    (∃ e, result = .error e ∧ e.code = .unexpectedEndOfFile ∧
      e.message =
        s!"Incomplete read at offset {q}: expected {field.size} bytes, got {view.size}") ∧
      after = cursor
  failed : ∀ e, reply = .error e → result = .error e ∧ after = cursor

/-- **What a seek comes to**, by the reply to the question for the size. -/
structure SeeksByReply (cursor : Cursor) (target : UInt64) (reply : Result UInt64)
    (result : Result Value) (after : Cursor) : Prop where
  succeeds_iff : (∃ value, result = .ok value) ↔ ∃ total, reply = .ok total ∧ target ≤ total
  reached : ∀ total, reply = .ok total → target ≤ total →
    result = .ok .unit ∧ after = { cursor with position := target }
  beyond : ∀ total, reply = .ok total → total < target →
    (∃ e, result = .error e ∧ e.code = .outOfBounds ∧
      e.message = s!"Seek to {target.toNat} beyond size {total.toNat}") ∧ after = cursor
  unknown : ∀ cause, reply = .error cause →
    (∃ e, result = .error e ∧ e.code = cause.code ∧
      e.message = "Failed to query size for seek: " ++ cause.message) ∧ after = cursor

/-- **What the number of remaining bytes comes to**, by the reply to the question for the size.  A
cursor past the end has none left. -/
structure TellsByReply (cursor : Cursor) (reply : Result UInt64) (result : Result Value)
    (after : Cursor) : Prop where
  stays : after = cursor
  told : ∀ total, reply = .ok total →
    result = .ok (.number (total.toNat - cursor.position.toNat))
  unknown : ∀ cause, reply = .error cause → ∃ e, result = .error e ∧ e.code = cause.code ∧
    e.message = "Failed to query size: " ++ cause.message

/-! ## Single operations -/

/-- Positions are words, and a cursor that goes beyond the largest starts over. -/
theorem toNat_position_advance_mod (cursor : Cursor) (n : ℕ) :
    (cursor.advance n).position.toNat = (cursor.position.toNat + n) % 2 ^ 64 := by
  rw [advance, UInt64.toNat_add, UInt64.toNat_ofNat', Nat.add_mod_mod]

/-- **A field is read by one call**, and the reply to it decides what becomes of the field and the
cursor. -/
theorem readsByReply_run (R : Reader σ) (s : σ) (cursor : Cursor) {field : EntryField}
    (hpos : 0 < field.size) :
    let call := R.read cursor.position field.size s
    let run := field.op.run R.observed (cursor, { source := s })
    run.2.2 = ⟨call.2, #[.read cursor.position field.size]⟩ ∧
      ReadsByReply cursor field call.1 run.1 run.2.1 := by
  intro call run
  let E := entryReader R.observed
  have hrun : run = ((E.readField field (cursor, { source := s })).1.map field.value,
      (E.readField field (cursor, { source := s })).2) := by
    rw [← ReadM.map_apply, ← run_op]
  rcases hcall : call with ⟨reply, t⟩
  have hread := Reader.read_observed hcall #[]
  rcases reply with e | view
  · rw [hrun, readField_of_refuses hpos ⟨cursor.position, rfl, .inl hread⟩]
    refine ⟨rfl, ⟨nofun, nofun⟩, nofun, nofun, ?_⟩
    rintro _ ⟨⟩
    exact ⟨rfl, rfl⟩
  rcases Nat.lt_or_ge view.size field.size with hshort | long
  · rw [hrun, readField_of_refuses hpos ⟨cursor.position, rfl, .inr ⟨view, hread, hshort, rfl⟩⟩]
    refine ⟨rfl, ⟨nofun, ?_⟩, ?_, ?_, nofun⟩
    · rintro ⟨_, ⟨⟩, long⟩
      exact absurd hshort (Nat.not_lt.2 long)
    · rintro _ ⟨⟩ long
      exact absurd hshort (Nat.not_lt.2 long)
    · rintro _ ⟨⟩ -
      exact ⟨⟨_, rfl, rfl, rfl⟩, rfl⟩
  · obtain ⟨content, hfield, hcontent⟩ := readField_of_view hpos hread long
    rw [hrun, hfield]
    refine ⟨rfl, ⟨fun _ => ⟨view, rfl, long⟩, fun _ => ⟨_, rfl⟩⟩, ?_, ?_, nofun⟩
    · rintro _ ⟨⟩ -
      refine ⟨?_, rfl, toNat_position_advance_mod cursor field.size⟩
      rw [← hcontent, ← field.value_eq_answer cursor.order]
      rfl
    · rintro _ ⟨⟩ hshort
      exact absurd hshort (Nat.not_lt.2 long)

/-- **A seek asks for the size and reads nothing.** -/
theorem seeksByReply_run (R : Reader σ) (s : σ) (cursor : Cursor) (target : UInt64) :
    let run := (CursorOp.seek target).run R.observed (cursor, { source := s })
    run.2.2 = ⟨(R.size s).2, #[.size]⟩ ∧
      SeeksByReply cursor target (R.size s).1 run.1 run.2.1 := by
  intro run
  have hrun : run = ((seek R.observed target (cursor, { source := s })).1.map fun _ => .unit,
      (seek R.observed target (cursor, { source := s })).2) := ReadM.map_apply ..
  rcases hcall : R.size s with ⟨reply, t⟩
  have hsize := Reader.size_observed hcall #[]
  rcases reply with cause | total
  · rw [hrun, seek_of_size_error hsize]
    refine ⟨rfl, ⟨nofun, nofun⟩, nofun, nofun, ?_⟩
    rintro _ ⟨⟩
    exact ⟨⟨_, rfl, rfl, rfl⟩, rfl⟩
  rw [hrun, seek_of_size hsize]
  by_cases houtside : total < target
  · rw [if_pos houtside]
    refine ⟨rfl, ⟨nofun, ?_⟩, ?_, ?_, nofun⟩
    · rintro ⟨_, ⟨⟩, hinside⟩
      exact absurd houtside (UInt64.not_lt.2 hinside)
    · rintro _ ⟨⟩ hinside
      exact absurd houtside (UInt64.not_lt.2 hinside)
    · rintro _ ⟨⟩ -
      exact ⟨⟨_, rfl, rfl, rfl⟩, rfl⟩
  · rw [if_neg houtside]
    have hinside := UInt64.not_lt.1 houtside
    refine ⟨rfl, ⟨fun _ => ⟨total, rfl, hinside⟩, fun _ => ⟨_, rfl⟩⟩, ?_, ?_, nofun⟩
    · rintro _ ⟨⟩ -
      exact ⟨rfl, rfl⟩
    · rintro _ ⟨⟩ hlt
      exact absurd hlt houtside

/-- …and so does the question for what remains. -/
theorem tellsByReply_run (R : Reader σ) (s : σ) (cursor : Cursor) :
    let run := CursorOp.remaining.run R.observed (cursor, { source := s })
    run.2.2 = ⟨(R.size s).2, #[.size]⟩ ∧ TellsByReply cursor (R.size s).1 run.1 run.2.1 := by
  intro run
  have hrun : run = ((remaining R.observed (cursor, { source := s })).1.map (.number ·.toNat),
      (remaining R.observed (cursor, { source := s })).2) := ReadM.map_apply ..
  rcases hcall : R.size s with ⟨reply, t⟩
  have hsize := Reader.size_observed hcall #[]
  rcases reply with cause | total
  · rw [hrun, remaining_of_size_error hsize]
    refine ⟨rfl, rfl, nofun, ?_⟩
    rintro _ ⟨⟩
    exact ⟨_, rfl, rfl, rfl⟩
  · rw [hrun, remaining_of_size hsize]
    refine ⟨rfl, rfl, ?_, nofun⟩
    rintro _ ⟨⟩
    exact congrArg (fun n => Except.ok (Value.number n)) (toNat_sub_or_zero total cursor.position)

/-! ## All operations -/

/-- **Every operation of a cursor, for every reader.**  A field that has bytes is read by one call
at the position of the cursor, and the reply to this call tells its result and where the cursor
goes.  No bytes are read by no call at all, and nothing moves.  A seek and the question for what
remains make one call, for the size, and go by its reply. -/
theorem run_goes_by_reply (R : Reader σ) (s : σ) (cursor : Cursor) :
    let run (op : CursorOp) := op.run R.observed (cursor, { source := s })
    (∀ field : EntryField, 0 < field.size →
      let call := R.read cursor.position field.size s
      (run field.op).2.2 = ⟨call.2, #[.read cursor.position field.size]⟩ ∧
        ReadsByReply cursor field call.1 (run field.op).1 (run field.op).2.1) ∧
      run (.readBytes 0) = (.ok (.bytes #[]), (cursor, { source := s })) ∧
      (∀ target, (run (.seek target)).2.2 = ⟨(R.size s).2, #[.size]⟩ ∧
        SeeksByReply cursor target (R.size s).1 (run (.seek target)).1 (run (.seek target)).2.1) ∧
      (run .remaining).2.2 = ⟨(R.size s).2, #[.size]⟩ ∧
        TellsByReply cursor (R.size s).1 (run .remaining).1 (run .remaining).2.1 := by
  intro run
  refine ⟨fun field hpos => ?_, rfl, fun target => ?_, ?_⟩
  · exact readsByReply_run R s cursor hpos
  · exact seeksByReply_run R s cursor target
  · exact tellsByReply_run R s cursor

/-- A cursor on the third last position meets a view that is longer than its field, and starts over;
the reader refuses to tell its size. -/
theorem run_goes_by_reply_wrapping :
    let R : Reader Unit := {
      read := fun _ _ s => (.ok #[1, 2, 3, 4, 5], s)
      readFull := fun offset _ s => (.error (.incompleteRead offset.toNat), s)
      size := fun s => (.error (.reported .readError "gone"), s) }
    let cursor : Cursor := { order := .big, position := 0xFFFFFFFFFFFFFFFD }
    let field : EntryField := .word .u32
    let run (op : CursorOp) := op.run R.observed (cursor, { source := () })
    0 < field.size ∧
      (run field.op).2.2.calls = #[.read 0xFFFFFFFFFFFFFFFD 4] ∧
      (run field.op).1 = .ok (.number 0x01020304) ∧ (run field.op).2.1.position.toNat = 1 ∧
      ∃ e, (run (.seek 0)).1 = .error e ∧ e.code = .readError ∧
        e.message = "Failed to query size for seek: gone" ∧ (run (.seek 0)).2.1 = cursor := by
  intro R cursor field run
  have hpos : 0 < field.size := by decide
  obtain ⟨hfield, -, hseek, -⟩ := run_goes_by_reply R () cursor
  obtain ⟨hcalls, hreads⟩ := hfield field hpos
  obtain ⟨hresult, -, hposition⟩ := hreads.whole #[1, 2, 3, 4, 5] rfl (by decide)
  obtain ⟨⟨e, hfails, hcode, hmessage⟩, hstays⟩ :=
    (hseek 0).2.unknown (.reported .readError "gone") rfl
  exact ⟨hpos, congrArg Recorded.calls hcalls, hresult.trans (by decide),
    hposition.trans (by decide), e, hfails, hcode, hmessage.trans (by decide), hstays⟩

end Cursor

end TiffDirectory
