import Mathlib
import TiffDirectory.Proofs.OpenFiles

/-!
# Proofs/Walks — where a cursor can get to

Every operation of a cursor consists of **moves**: a field that is read or not, a seek, a question
(`Cursor.runParts_parts`).  Over data of a fixed length each move is of one of six kinds
(`Cursor.Move.Lawful`), and none of them leads past the end.  So the places that a cursor comes to
split in two (`Cursor.StaysWithin`): at first it may stand where it was set, past the end, and once
it is within the data it stays there for ever.

A field is read only if it ends within the data, and so **positions are plain numbers**, although
they are added and subtracted as words.
-/

namespace TiffDirectory

variable {σ : Type}

/-! ## Readers of a fixed length -/

/-- In every state that has the property, the reader tells no size but the limit and gives no view
that reaches past it, unless it is empty.  Whatever is asked, it goes on like that. -/
structure Reader.Bounded (R : Reader σ) (P : σ → Prop) (limit : ℕ) : Prop where
  read {s t : σ} (hs : P s) {offset : UInt64} {size : ℕ} {view : Bytes}
    (reply : R.read offset size s = (.ok view, t)) (ne : view.size ≠ 0) :
    offset.toNat + view.size ≤ limit
  size {s t : σ} (hs : P s) {total : UInt64} (reply : R.size s = (.ok total, t)) :
    total.toNat = limit
  keeps : R.Keeps P

/-! ## Moves -/

/-- A part of an operation, which moves the cursor once or not at all. -/
inductive CursorOp.Part where
  | read (field : EntryField)
  | seek (target : UInt64)
  | remaining
  | byteOrder
  deriving DecidableEq, Repr

/-- A part is an operation of its own. -/
def CursorOp.Part.op : Part → CursorOp
  | .read field => field.op
  | .seek target => .seek target
  | .remaining => .remaining
  | .byteOrder => .byteOrder

/-- The parts of an operation, in the order in which they are done. -/
def CursorOp.parts : CursorOp → List Part
  | .readWord w => [.read (.word w)]
  | .readBytes n => [.read (.bytes n)]
  | .seek target => [.seek target]
  | .remaining => [.remaining]
  | .byteOrder => [.byteOrder]
  | .readEntry f => f.fields.map .read
  | .readEntries f n => (f.rowFields n).map .read

namespace Cursor

/-- A part that was done, with its result and the cursor before and after it. -/
structure Move where
  part : CursorOp.Part
  result : Result Value
  before : Cursor
  after : Cursor
  deriving DecidableEq, Repr

/-- The move that a part comes to. -/
def moveOf (R : Reader σ) (part : CursorOp.Part) (placed : Cursor × σ) : Move :=
  { part, result := (part.op.run R placed).1, before := placed.1,
    after := (part.op.run R placed).2.1 }

/-- Does parts one after the other, up to the first that fails. -/
def runParts (R : Reader σ) : List CursorOp.Part → Cursor × σ → Cursor × σ
  | [], placed => placed
  | part :: rest, placed =>
    match part.op.run R placed with
    | (.ok _, next) => runParts R rest next
    | (.error _, left) => left

/-- The moves that this comes to. -/
def moves (R : Reader σ) : List CursorOp.Part → Cursor × σ → List Move
  | [], _ => []
  | part :: rest, placed =>
    moveOf R part placed ::
      match part.op.run R placed with
      | (.ok _, next) => moves R rest next
      | (.error _, _) => []

/-- The moves of a cursor that does operations one after the other, each on the reader as it is
then, and whether the ones before it failed or not. -/
def walk : List (Reader σ × CursorOp) → Cursor × σ → List Move
  | [], _ => []
  | (R, op) :: rest, placed => moves R op.parts placed ++ walk rest (op.run R placed).2

/-- The cursor and the reader after operations one after the other. -/
def runAll (history : List (Reader σ × CursorOp)) (placed : Cursor × σ) : Cursor × σ :=
  history.foldl (fun placed (R, op) => (op.run R placed).2) placed

/-- The moves lead from one cursor to another, each starting where the one before it ended. -/
inductive Leads : Cursor → List Move → Cursor → Prop
  | nil (cursor : Cursor) : Leads cursor [] cursor
  | cons {move : Move} {rest : List Move} {start last : Cursor} (starts : move.before = start)
      (tail : Leads move.after rest last) : Leads start (move :: rest) last

/-- **What a move is like** within data of `limit` bytes, in numbers that do not wrap around. -/
inductive Move.Lawful (limit : ℕ) : Move → Prop
  /-- a field that lies within the data was read -/
  | read {field : EntryField} {value : Value} {before after : Cursor}
      (fits : before.position.toNat + field.size ≤ limit)
      (moved : after.position.toNat = before.position.toNat + field.size) :
      Lawful limit ⟨.read field, .ok value, before, after⟩
  /-- no bytes were read, which can be done anywhere -/
  | empty {value : Value} {before : Cursor} :
      Lawful limit ⟨.read (.bytes 0), .ok value, before, before⟩
  | sought {target : UInt64} {before : Cursor} (inside : target.toNat ≤ limit) :
      Lawful limit ⟨.seek target, .ok .unit, before, { before with position := target }⟩
  | told {before : Cursor} :
      Lawful limit ⟨.remaining, .ok (.number (limit - before.position.toNat)), before, before⟩
  | asked {before : Cursor} : Lawful limit ⟨.byteOrder, .ok (.order before.order), before, before⟩
  | failed {part : CursorOp.Part} {e : Error} {before : Cursor} :
      Lawful limit ⟨part, .error e, before, before⟩

variable {R : Reader σ} {P : σ → Prop} {limit : ℕ} {cursor next last : Cursor} {s t : σ}

/-! ## One move -/

theorem seek_of_size_error {e : Error} (hsize : R.size s = (.error e, t)) (target : UInt64) :
    seek R target (cursor, s) = (.error (.sizeUnknownForSeek e), (cursor, t)) := by
  refine ReadM.bind_error ?_
  rw [ask_apply, ReadM.mapError_apply, hsize]
  rfl

theorem remaining_of_size_error {e : Error} (hsize : R.size s = (.error e, t)) :
    remaining R (cursor, s) = (.error (.sizeUnknown e), (cursor, t)) := by
  rw [remaining, ReadM.bind_ok (ReadM.get_apply _)]
  refine ReadM.bind_error ?_
  rw [ask_apply, ReadM.mapError_apply, hsize]
  rfl

theorem moveOf_eq {part : CursorOp.Part} {result : Result Value}
    (h : part.op.run R (cursor, s) = (result, (next, t))) :
    moveOf R part (cursor, s) = ⟨part, result, cursor, next⟩ := by
  rw [moveOf, h]

/-- A field is read within the data, or not at all. -/
theorem lawful_field (hlimit : limit < 2 ^ 64) (hR : R.Bounded P limit) (hs : P s)
    (field : EntryField) (cursor : Cursor) :
    (moveOf R (.read field) (cursor, s)).Lawful limit := by
  have hrun : (CursorOp.Part.read field).op.run R =
    field.value <$> (entryReader R).readField field := run_op R field
  rcases Nat.eq_zero_or_pos field.size with hzero | hpos
  · -- The reader is not called for a field of no bytes, which is read past the end too.
    obtain rfl := EntryField.eq_bytes_zero hzero
    exact .empty
  rcases view_or_refuses R cursor s field.size with ⟨view, t, hread, long⟩ | ⟨e, t, hrefuses⟩
  · obtain ⟨content, hfield, -⟩ := readField_of_view hpos hread long
    have hfits := hR.read hs hread (by omega)
    have hmoved := toNat_position_advance cursor (n := field.size) (by omega)
    rw [moveOf_eq (by rw [hrun, ReadM.map_apply, hfield])]
    exact .read (by omega) hmoved
  · rw [moveOf_eq (by rw [hrun, ReadM.map_apply, readField_of_refuses hpos hrefuses])]
    exact .failed

theorem lawful_seek (hR : R.Bounded P limit) (hs : P s) (target : UInt64) (cursor : Cursor) :
    (moveOf R (.seek target) (cursor, s)).Lawful limit := by
  have hrun : (CursorOp.Part.seek target).op.run R (cursor, s) =
      ((seek R target (cursor, s)).1.map fun _ => .unit, (seek R target (cursor, s)).2) :=
    ReadM.map_apply ..
  rcases hsize : R.size s with ⟨e | total, t⟩
  · rw [moveOf_eq (by rw [hrun, seek_of_size_error hsize])]
    exact .failed
  · have htotal := hR.size hs hsize
    rw [seek_of_size hsize] at hrun
    split at hrun
    next =>
      rw [moveOf_eq hrun]
      exact .failed
    next hinside =>
      rw [moveOf_eq hrun]
      refine .sought ?_
      rw [← htotal]
      exact UInt64.le_iff_toNat_le.1 (UInt64.not_lt.1 hinside)

theorem lawful_remaining (hR : R.Bounded P limit) (hs : P s) (cursor : Cursor) :
    (moveOf R .remaining (cursor, s)).Lawful limit := by
  rcases hsize : R.size s with ⟨e | total, t⟩
  · rw [moveOf_eq (ReadM.map_eq_error_iff.2 (remaining_of_size_error hsize))]
    exact .failed
  · rw [moveOf_eq (run_remaining_of_size hsize), hR.size hs hsize]
    exact .told

/-- **Every move is lawful** over a reader of a fixed length. -/
theorem lawful_moveOf (hlimit : limit < 2 ^ 64) (hR : R.Bounded P limit) (hs : P s)
    (part : CursorOp.Part) (cursor : Cursor) : (moveOf R part (cursor, s)).Lawful limit := by
  cases part with
  | read field => exact lawful_field hlimit hR hs field cursor
  | seek target => exact lawful_seek hR hs target cursor
  | remaining => exact lawful_remaining hR hs cursor
  | byteOrder => exact .asked

/-! ## Moves in a row -/

variable {part : CursorOp.Part} {parts rest : List CursorOp.Part} {value : Value} {e : Error}
  {placed left : Cursor × σ}

theorem runParts_cons_ok (h : part.op.run R placed = (.ok value, left)) :
    runParts R (part :: rest) placed = runParts R rest left := by
  rw [runParts, h]

theorem runParts_cons_error (h : part.op.run R placed = (.error e, left)) :
    runParts R (part :: rest) placed = left := by
  rw [runParts, h]

theorem moves_cons_ok (h : part.op.run R placed = (.ok value, left)) :
    moves R (part :: rest) placed = ⟨part, .ok value, placed.1, left.1⟩ :: moves R rest left := by
  rw [moves, moveOf, h]

theorem moves_cons_error (h : part.op.run R placed = (.error e, left)) :
    moves R (part :: rest) placed = [⟨part, .error e, placed.1, left.1⟩] := by
  rw [moves, moveOf, h]

/-- The moves lead to where the parts leave the cursor. -/
theorem leads_moves (R : Reader σ) (parts : List CursorOp.Part) (placed : Cursor × σ) :
    Leads placed.1 (moves R parts placed) (runParts R parts placed).1 := by
  induction parts generalizing placed with
  | nil => exact .nil _
  | cons part rest ih =>
    rcases h : part.op.run R placed with ⟨e | value, left⟩
    · rw [moves_cons_error h, runParts_cons_error h]
      exact .cons rfl (.nil _)
    · rw [moves_cons_ok h, runParts_cons_ok h]
      exact .cons rfl (ih left)

theorem lawful_of_mem_moves (hlimit : limit < 2 ^ 64) (hR : R.Bounded P limit) (hs : P s)
    (parts : List CursorOp.Part) (cursor : Cursor) :
    ∀ move ∈ moves R parts (cursor, s), move.Lawful limit := by
  induction parts generalizing cursor s with
  | nil => exact List.forall_mem_nil _
  | cons part rest ih =>
    rw [moves]
    refine List.forall_mem_cons.2 ⟨lawful_moveOf hlimit hR hs part cursor, ?_⟩
    have hkept := part.op.run_keeps hR.keeps (cursor, s) hs
    rcases hrun : part.op.run R (cursor, s) with ⟨e | value, next, t⟩ <;> rw [hrun] at hkept
    · exact List.forall_mem_nil _
    · exact ih hkept next

/-! ## Operations and their parts -/

theorem run_read (field : EntryField) {result : Result field.Content}
    (h : (entryReader R).readField field placed = (result, left)) :
    (CursorOp.Part.read field).op.run R placed = (result.map field.value, left) := by
  rw [CursorOp.Part.op, run_op, ReadM.map_apply, h]

theorem runParts_of_gives {row : List FilledField} (h : (entryReader R).Gives placed row left) :
    runParts R ((row.map FilledField.field).map .read) placed = left := by
  induction h with
  | nil => rfl
  | @cons placed mid left field content rest head _ ih =>
    rw [List.map_cons, List.map_cons, runParts_cons_ok (run_read field head)]
    exact ih

theorem runParts_of_fails {fields : List EntryField}
    (h : (entryReader R).Fails placed fields e left) :
    runParts R (fields.map .read) placed = left := by
  induction h with
  | @here placed left field rest e head =>
    rw [List.map_cons, runParts_cons_error (run_read field head)]
  | @later placed mid left field content rest e head _ ih =>
    rw [List.map_cons, runParts_cons_ok (run_read field head)]
    exact ih

theorem runParts_single (R : Reader σ) (part : CursorOp.Part) (placed : Cursor × σ) :
    runParts R [part] placed = (part.op.run R placed).2 := by
  rcases h : part.op.run R placed with ⟨e | value, left⟩
  · exact runParts_cons_error h
  · exact runParts_cons_ok h

/-- **An operation leaves the cursor and the reader as its parts leave them**, also where it fails
halfway. -/
theorem runParts_parts (R : Reader σ) (op : CursorOp) (placed : Cursor × σ) :
    runParts R op.parts placed = (op.run R placed).2 := by
  cases op with
  | readWord w => exact runParts_single R (.read (.word w)) placed
  | readBytes n => exact runParts_single R (.read (.bytes n)) placed
  | seek target => exact runParts_single R (.seek target) placed
  | remaining => exact runParts_single R .remaining placed
  | byteOrder => exact runParts_single R .byteOrder placed
  | readEntry f =>
    rw [CursorOp.run, ReadM.map_apply]
    rcases h : (entryReader R).readEntry f placed with ⟨e | entry, left⟩
    · exact runParts_of_fails (EntryReader.readEntry_eq_error_iff.1 h)
    · exact runParts_of_gives (EntryReader.readEntry_eq_ok_iff.1 h)
  | readEntries f n =>
    rw [CursorOp.run, ReadM.map_apply]
    rcases h : (entryReader R).readEntries f n placed with ⟨e | entries, left⟩
    · exact runParts_of_fails (EntryReader.readEntries_eq_error_iff.1 h)
    · obtain ⟨hsize, hgives⟩ := EntryReader.readEntries_eq_ok_iff.1 h
      have hleft := runParts_of_gives hgives
      rwa [map_field_filledRow, Array.length_toList, hsize] at hleft

/-! ## Walks -/

variable {history : List (Reader σ × CursorOp)}

theorem Leads.append {first second : List Move} (h : Leads cursor first next)
    (h' : Leads next second last) : Leads cursor (first ++ second) last := by
  induction h with
  | nil => exact h'
  | cons starts _ ih => exact .cons starts (ih h')

theorem leads_walk (history : List (Reader σ × CursorOp)) (placed : Cursor × σ) :
    Leads placed.1 (walk history placed) (runAll history placed).1 := by
  induction history generalizing placed with
  | nil => exact .nil _
  | cons turn rest ih =>
    have hmoves := leads_moves turn.1 turn.2.parts placed
    rw [runParts_parts] at hmoves
    exact hmoves.append (ih _)

theorem lawful_of_mem_walk (hlimit : limit < 2 ^ 64)
    (hhistory : ∀ turn ∈ history, turn.1.Bounded P limit) (hs : P s) (cursor : Cursor) :
    ∀ move ∈ walk history (cursor, s), move.Lawful limit := by
  induction history generalizing cursor s with
  | nil => exact List.forall_mem_nil _
  | cons turn rest ih =>
    obtain ⟨R, op⟩ := turn
    obtain ⟨hR, hrest⟩ := List.forall_mem_cons.1 hhistory
    refine List.forall_mem_append.2 ⟨lawful_of_mem_moves hlimit hR hs op.parts cursor, ?_⟩
    exact ih hrest (op.run_keeps hR.keeps (cursor, s) hs) _

/-- **A cursor and its places** within data of `limit` bytes. -/
structure StaysWithin (limit : ℕ) (start : Cursor) (moves : List Move) : Prop where
  /-- It stands where it was set, past the end, until it is within the data, and there it stays. -/
  places : ∃ outside inside,
    start.position :: moves.map (·.after.position) = outside ++ inside ∧
      (∀ place ∈ outside, place = start.position ∧ limit < place.toNat) ∧
      ∀ place ∈ inside, place.toNat ≤ limit
  /-- From past the end only a seek that succeeds leads away. -/
  seek : ∀ move ∈ moves, limit < move.before.position.toNat →
    move.after.position ≠ move.before.position →
      ∃ target, move.part = .seek target ∧ move.result = .ok .unit
  /-- The size of a field that was read is added without wrapping around. -/
  field : ∀ move ∈ moves, ∀ field value, move.part = .read field → move.result = .ok value →
    move.after.position.toNat = move.before.position.toNat + field.size
  /-- The position is subtracted from the size without wrapping around. -/
  remaining : ∀ move ∈ moves, ∀ value, move.part = .remaining → move.result = .ok value →
    value = .number (limit - move.before.position.toNat)

/-- A move leaves the position as it is, or ends within the data. -/
theorem Move.Lawful.place {move : Move} (h : move.Lawful limit) :
    move.after.position = move.before.position ∨ move.after.position.toNat ≤ limit := by
  cases h with
  | read fits moved =>
    refine Or.inr ?_
    dsimp only
    omega
  | sought inside => exact Or.inr inside
  | _ => exact Or.inl rfl

theorem Leads.exists_places {start : Cursor} {moves : List Move} (h : Leads start moves last)
    (hlawful : ∀ move ∈ moves, move.Lawful limit) : ∃ outside inside,
      start.position :: moves.map (·.after.position) = outside ++ inside ∧
        (∀ place ∈ outside, place = start.position ∧ limit < place.toNat) ∧
        ∀ place ∈ inside, place.toNat ≤ limit := by
  induction h with
  | nil cursor =>
    rcases Nat.lt_or_ge limit cursor.position.toNat with hlt | hle
    · exact ⟨[cursor.position], [], rfl, by simpa using hlt, nofun⟩
    · exact ⟨[], [cursor.position], rfl, nofun, by simpa using hle⟩
  | @cons move rest start last starts _ ih =>
    obtain rfl := starts
    obtain ⟨hmove, hrest⟩ := List.forall_mem_cons.1 hlawful
    obtain ⟨outside, inside, hsplit, houtside, hinside⟩ := ih hrest
    rw [List.map_cons, hsplit]
    -- Once a move ends within the data, no place after it is past the end.
    have hstays : move.after.position.toNat ≤ limit →
        ∀ place ∈ outside ++ inside, place.toNat ≤ limit := by
      intro hafter place hplace
      rcases List.mem_append.1 hplace with hmem | hmem
      · obtain ⟨rfl, hlt⟩ := houtside place hmem
        exact hafter
      · exact hinside place hmem
    rcases Nat.lt_or_ge limit move.before.position.toNat with hlt | hle
    · rcases hmove.place with hsame | hafter
      · refine ⟨move.before.position :: outside, inside, rfl, ?_, hinside⟩
        exact List.forall_mem_cons.2 ⟨⟨rfl, hlt⟩, hsame ▸ houtside⟩
      · exact ⟨[move.before.position], outside ++ inside, rfl, by simpa using hlt, hstays hafter⟩
    · refine ⟨[], move.before.position :: (outside ++ inside), rfl, nofun, ?_⟩
      refine List.forall_mem_cons.2 ⟨hle, hstays ?_⟩
      rcases hmove.place with hsame | hafter
      · rwa [hsame]
      · exact hafter

theorem Leads.staysWithin {start : Cursor} {moves : List Move} (h : Leads start moves last)
    (hlawful : ∀ move ∈ moves, move.Lawful limit) : StaysWithin limit start moves where
  places := h.exists_places hlawful
  seek move hmem hlt hne := by
    cases hlawful move hmem with
    | read fits moved =>
      dsimp only at hlt
      omega
    | @sought target before inside => exact ⟨target, rfl, rfl⟩
    | _ => exact absurd rfl hne
  field move hmem field value hpart hresult := by
    cases hlawful move hmem with
    | read fits moved =>
      cases hpart
      exact moved
    | empty =>
      cases hpart
      rfl
    | failed => cases hresult
    | _ => cases hpart
  remaining move hmem value hpart hresult := by
    cases hlawful move hmem with
    | told => exact (Except.ok.inj hresult).symm
    | failed => cases hresult
    | _ => cases hpart

end Cursor

/-! ## Readers that are bounded -/

namespace Source

variable {files : FileSystem} {source : Source} {medium : Medium} {length : ℕ} {data : Bytes}

/-- Whatever becomes of the files, a source holds data of the same length. -/
theorem Holds.exists_holds (h : source.Holds files medium length data) (now : FileSystem) :
    ∃ data, source.Holds now medium length data := by
  cases h with
  | memory shown small => exact ⟨_, .memory shown small⟩
  | file stream => exact ⟨_, .file stream⟩

/-- **Memory and open files are bounded** by the length that they hold, on whatever files they are
read. -/
theorem Holds.bounded (h : source.Holds files medium length data) (now : FileSystem) :
    (reader now).Bounded source.Same length where
  read {state left} hsame {offset size view} reply ne := by
    obtain ⟨data, hholds⟩ := (h.of_same hsame).exists_holds now
    have hread := hholds.read_fst offset size
    rw [reply] at hread
    rcases Nat.lt_or_ge offset.toNat length with hlt | hle
    · obtain ⟨view', hclip, hsize, -⟩ := Bytes.exists_clipTo_eq_ok hlt medium data size
      obtain rfl := Except.ok.inj (hread.trans hclip)
      omega
    · rw [Bytes.clipTo_of_le hle] at hread
      cases hread
  size {state left} hsame {total} reply := by
    obtain ⟨data, hholds⟩ := (h.of_same hsame).exists_holds now
    have htotal := hholds.size_fst
    rw [reply] at htotal
    rw [Except.ok.inj htotal, UInt64.toNat_ofNat_of_lt' h.length_lt]
  keeps := reader_keeps_same now source

end Source

namespace FaultyReader

/-- No call changes the bytes of a faulty reader. -/
theorem reader_keeps_bytes (bytes : Bytes) : reader.Keeps fun s => s.bytes = bytes := by
  have hread (offset : UInt64) (size : ℕ) : (read offset size).Keeps fun s => s.bytes = bytes :=
    fun _ h => h
  refine ⟨hread, fun offset size => (hread offset size).bind fun view => ?_,
    ReadM.keeps_get.bind fun s => ?_⟩
  · split
    · exact ReadM.keeps_throw _
    · exact ReadM.keeps_pure _
  · split
    · exact ReadM.keeps_throw _
    · exact ReadM.keeps_pure _

theorem size_apply (s : FaultyReader) :
    reader.size s = (s.sizeFailure.elim (.ok (.ofNat s.bytes.size)) .error, s) := by
  obtain ⟨bytes, failure⟩ := s
  cases failure <;> rfl

/-- …and so a faulty reader is bounded by them. -/
theorem bounded {bytes : Bytes} (small : bytes.size < 2 ^ 64) :
    reader.Bounded (fun s => s.bytes = bytes) bytes.size where
  read {s t} hs {offset size view} reply ne := by
    subst hs
    exact s.viewsWithin s .start offset size view t reply ne
  size {s t} hs {total} reply := by
    subst hs
    rw [size_apply] at reply
    cases hfailure : s.sizeFailure with
    | some e =>
      rw [hfailure] at reply
      cases reply
    | none =>
      rw [hfailure] at reply
      obtain rfl := Except.ok.inj (Prod.mk.inj reply).1
      exact UInt64.toNat_ofNat_of_lt' small
  keeps := reader_keeps_bytes bytes

end FaultyReader

namespace Cursor

/-- **Where a cursor gets to.**  Let the readers of a history tell no size but `limit` and give no
view past it, whatever else they reply and however they fail.  Then a cursor that starts anywhere
comes, in each operation and between its fields, to places within the data only, once it has left
the place where it started, and its positions are added to and subtracted from without wrapping
around.  Memory, open files that shrink or grow, and readers with faults are such readers. -/
theorem staysWithin_walk :
    (∀ (σ : Type) (P : σ → Prop) (limit : ℕ) (history : List (Reader σ × CursorOp)) (s : σ)
        (start : Cursor), limit < 2 ^ 64 → (∀ turn ∈ history, turn.1.Bounded P limit) → P s →
      Leads start (walk history (start, s)) (runAll history (start, s)).1 ∧
        StaysWithin limit start (walk history (start, s))) ∧
    (∀ (files : FileSystem) (source : Source) (medium : Medium) (length : ℕ) (data : Bytes),
      source.Holds files medium length data →
        ∀ now, (Source.reader now).Bounded source.Same length) ∧
    ∀ bytes : Bytes, bytes.size < 2 ^ 64 →
      FaultyReader.reader.Bounded (fun s => s.bytes = bytes) bytes.size := by
  refine ⟨fun σ P limit history s start hlimit hhistory hs => ?_,
    fun files source medium length data hholds now => hholds.bounded now,
    fun bytes small => FaultyReader.bounded small⟩
  have hleads := leads_walk history (start, s)
  exact ⟨hleads, hleads.staysWithin (lawful_of_mem_walk hlimit hhistory hs start)⟩

/-- A cursor is set past the end of a file of ten bytes, which then shrinks to six and grows to
twenty.  A seek brings it back, and from there on it goes by the ten: up to the place where the ten
bytes end, and into an entry that they cut short. -/
theorem staysWithin_walk_shrunk :
    let files := FileSystem.empty.writeFile "a.tif" (Array.replicate 10 7)
    let shrunk := files.writeFile "a.tif" (Array.replicate 6 8)
    let grown := shrunk.writeFile "a.tif" (Array.replicate 20 9)
    let source : Source := .file (FileReader.ofPath files "a.tif")
    let start : Cursor := { order := .big, position := 12 }
    let history : List (Reader Source × CursorOp) := [
      (Source.reader files, .readWord .u16),
      (Source.reader files, .readBytes 0),
      (Source.reader shrunk, .seek 8),
      (Source.reader shrunk, .readWord .u16),
      (Source.reader grown, .readWord .u16),
      (Source.reader grown, .readWord .u16),
      (Source.reader grown, .seek 4),
      (Source.reader grown, .readEntry .classic)]
    (∀ turn ∈ history, turn.1.Bounded source.Same 10) ∧
      (walk history (start, source)).map (·.after.position) =
        [12, 12, 8, 8, 10, 10, 4, 6, 8, 8] ∧
      Leads start (walk history (start, source)) (runAll history (start, source)).1 ∧
      StaysWithin 10 start (walk history (start, source)) := by
  intro files shrunk grown source start history
  obtain ⟨hwalk, hbounded, -⟩ := staysWithin_walk
  have hholds : source.Holds files .file 10 (files.bytes 0) := .file (by decide +kernel)
  have hhistory : ∀ turn ∈ history, turn.1.Bounded source.Same 10 := by
    simp only [history, List.forall_mem_cons, hbounded _ _ _ _ _ hholds, true_and,
      List.not_mem_nil, false_imp_iff, implies_true]
  exact ⟨hhistory, by decide +kernel,
    hwalk Source source.Same 10 history source start (by decide) hhistory (.refl source)⟩

end Cursor

end TiffDirectory
