import Mathlib
import TiffDirectory.Proofs.FileChanges
import TiffDirectory.Proofs.Interchange

/-!
# Proofs/OpenFiles — what is seen of files that change while they are open

An open reader goes by the length that its file had at the opening and meets the bytes that the file
has now.  What it answers, directly and to cursors, depends on the order of these two, of the offset
and of the stop of the read (`Session.SeesFile`), and on nothing that happened in between
(`Session.seesFile_of_live`).
-/

namespace TiffDirectory

/-! ## Answers -/

/-- The operation of a cursor that reads a field. -/
def EntryField.op : EntryField → CursorOp
  | .word w => .readWord w
  | .bytes n => .readBytes n

/-- The answer to a field that is stored as these bytes. -/
def EntryField.answer (order : ByteOrder) (stored : Bytes) : EntryField → Value
  | .word _ => .number (order.value stored.toList)
  | .bytes _ => .bytes stored

/-- **What a read comes to** that goes by a length and meets these bytes: a failure only if it starts
beyond the length, and else the bytes that are there, which may be fewer than asked for or none. -/
inductive FileReader.Reads (length : ℕ) (data : Bytes) (offset size : ℕ) : Result Value → Prop
  | beyond {e : Error} (start : length ≤ offset) (code : e.code = .outOfBounds)
      (message : e.message = s!"Read offset {offset} beyond file size {length}") :
      Reads length data offset size (.error e)
  | within {view : Bytes} (start : offset < length)
      (size_eq : view.size = min (min size (length - offset)) (data.size - offset))
      (view_eq : view = data.extract offset (offset + view.size)) :
      Reads length data offset size (.ok (.bytes view))

/-- **What a seek comes to** from a position, and the position after it. -/
inductive Cursor.Seeks (length position target : ℕ) : Result Value → ℕ → Prop
  | reached (inside : target ≤ length) : Seeks length position target (.ok .unit) target
  | beyond {e : Error} (outside : length < target) (code : e.code = .outOfBounds)
      (message : e.message = s!"Seek to {target} beyond size {length}") :
      Seeks length position target (.error e) position

/-- **What reading a field comes to** at position `q`, and the position after it.  The field has to
lie within the length and within the bytes; a field of no bytes is always there. -/
inductive Cursor.ReadsField (length : ℕ) (data : Bytes) (order : ByteOrder) (q : ℕ)
    (field : EntryField) : Result Value → ℕ → Prop
  | whole (wide : 0 < field.size) (fits : q + field.size ≤ min length data.size) :
      ReadsField length data order q field
        (.ok (field.answer order (data.extract q (q + field.size)))) (q + field.size)
  | short {e : Error} (wide : 0 < field.size) (start : q < length)
      (misses : min length data.size < q + field.size) (code : e.code = .unexpectedEndOfFile)
      (message : let got := min length data.size - q
        e.message = s!"Incomplete read at offset {q}: expected {field.size} bytes, got {got}") :
      ReadsField length data order q field (.error e) q
  | beyond {e : Error} (wide : 0 < field.size) (start : length ≤ q) (code : e.code = .outOfBounds)
      (message : e.message = s!"Read offset {q} beyond file size {length}") :
      ReadsField length data order q field (.error e) q
  | empty (size : field.size = 0) : ReadsField length data order q field (.ok (.bytes #[])) q

/-- The operation of the cursor of number `c` comes to a result and a position that are so related,
and changes nothing else of the cursor. -/
def Session.CursorDoes (session : Session) (c : ℕ) (placed : PlacedCursor) (op : CursorOp)
    (P : Result Value → ℕ → Prop) : Prop :=
  ∃ result next position, session.perform (.onCursor c op) = some (result, next) ∧
    next.cursors[c]? = some { placed with cursor := { placed.cursor with position } } ∧
    P result position.toNat

/-- **What is seen of an open file** that had this length when it was opened and has these bytes
now, directly and through any cursor that is on it. -/
structure Session.SeesFile (session : Session) (i length : ℕ) (data : Bytes) : Prop where
  size : ∃ next, session.perform (.onSource i .size) = some (.ok (.number length), next)
  read (offset : UInt64) (size : ℕ) : ∃ result next,
    session.perform (.onSource i (.read offset size)) = some (result, next) ∧
      FileReader.Reads length data offset.toNat size result
  seek {c : ℕ} {cursor : Cursor} (found : session.cursors[c]? = some ⟨cursor, i⟩)
    (target : UInt64) : session.CursorDoes c ⟨cursor, i⟩ (.seek target)
      (Cursor.Seeks length cursor.position.toNat target.toNat)
  remaining {c : ℕ} {cursor : Cursor} (found : session.cursors[c]? = some ⟨cursor, i⟩) :
    session.CursorDoes c ⟨cursor, i⟩ .remaining fun result position =>
      result = .ok (.number (length - cursor.position.toNat)) ∧ position = cursor.position.toNat
  field {c : ℕ} {cursor : Cursor} (found : session.cursors[c]? = some ⟨cursor, i⟩)
    (field : EntryField) : session.CursorDoes c ⟨cursor, i⟩ field.op
      (Cursor.ReadsField length data cursor.order cursor.position.toNat field)

/-! ## Readers that clip what they read -/

variable {length : ℕ} {data : Bytes}

theorem FileReader.reads_of_clipTo (length : ℕ) (data : Bytes) (offset size : ℕ) :
    Reads length data offset size ((data.clipTo .file length offset size).map .bytes) := by
  rcases Nat.lt_or_ge offset length with hlt | hle
  · obtain ⟨view, hclip, hsize, hview⟩ := Bytes.exists_clipTo_eq_ok hlt .file data size
    rw [hclip]
    exact .within hlt hsize hview
  · rw [Bytes.clipTo_of_le hle]
    exact .beyond hle rfl (Error.message_offsetBeyondEnd .file offset length)

/-- What a field is filled with is answered as the bytes that store it. -/
def EntryField.value : (field : EntryField) → field.Content → Value
  | .word _, v => .number v.toNat
  | .bytes _, v => .bytes v.toArray

theorem EntryField.value_eq_answer (order : ByteOrder) (field : EntryField)
    (content : field.Content) :
    field.value content = field.answer order (FilledField.stored order ⟨field, content⟩) := by
  cases field with
  | word w => exact congrArg Value.number (Word.value_toBytes order content).symm
  | bytes n => rfl

namespace Cursor

variable {σ : Type} {R : Reader σ} {cursor : Cursor} {s t : σ} {field : EntryField}

theorem run_op (R : Reader σ) (field : EntryField) :
    field.op.run R = field.value <$> (entryReader R).readField field := by
  cases field <;> rfl

theorem seek_of_size {total : UInt64} (hsize : R.size s = (.ok total, t)) (target : UInt64) :
    seek R target (cursor, s) =
      if total < target then (.error (.seekBeyondEnd target.toNat total.toNat), (cursor, t))
      else (.ok (), ({ cursor with position := target }, t)) := by
  have hask : ask (R.size.mapError .sizeUnknownForSeek) (cursor, s) = (.ok total, (cursor, t)) := by
    rw [ask_apply, ReadM.mapError_apply, hsize]
    rfl
  rw [seek, ReadM.bind_ok hask]
  split <;> rfl

theorem remaining_of_size {total : UInt64} (hsize : R.size s = (.ok total, t)) :
    remaining R (cursor, s) =
      (.ok (if cursor.position < total then total - cursor.position else 0), (cursor, t)) := by
  have hask : ask (R.size.mapError .sizeUnknown) (cursor, s) = (.ok total, (cursor, t)) := by
    rw [ask_apply, ReadM.mapError_apply, hsize]
    rfl
  rw [remaining, ReadM.bind_ok (ReadM.get_apply _)]
  exact ReadM.bind_ok hask

/-- A difference of numbers of 64 bits that stops at zero. -/
theorem toNat_sub_or_zero (a b : UInt64) :
    (if b < a then a - b else 0).toNat = a.toNat - b.toNat := by
  split
  next h => exact UInt64.toNat_sub_of_le _ _ (UInt64.le_of_lt h)
  next h => exact (Nat.sub_eq_zero_of_le (UInt64.le_iff_toNat_le.1 (UInt64.not_lt.1 h))).symm

/-- What remains is told as the difference of the size and the position. -/
theorem run_remaining_of_size {total : UInt64} (hsize : R.size s = (.ok total, t)) :
    CursorOp.remaining.run R (cursor, s) =
      (.ok (.number (total.toNat - cursor.position.toNat)), (cursor, t)) := by
  rw [CursorOp.run, ReadM.map_apply, remaining_of_size hsize, Except.map, toNat_sub_or_zero]

/-- **A field that a clipping reader is asked for**, by its width, and by where it starts and
stops. -/
theorem readsField_of_read (hlength : length < 2 ^ 64)
    (hread : (R.read cursor.position field.size s).1 =
      data.clipTo .file length cursor.position.toNat field.size) :
    let done := field.op.run R (cursor, s)
    ∃ position, done.2.1 = { cursor with position } ∧
      ReadsField length data cursor.order cursor.position.toNat field done.1 position.toNat := by
  intro done
  have hrun : done = field.op.run R (cursor, s) := rfl
  rw [run_op, ReadM.map_apply] at hrun
  rcases hcall : R.read cursor.position field.size s with ⟨reply, t⟩
  rw [hcall] at hread
  -- A refused call leaves the cursor where it is.
  have hfails : ∀ {e : Error}, 0 < field.size →
      R.Refuses s ⟨cursor.position.toNat, field.size⟩ e t → done = (.error e, (cursor, t)) := by
    intro e hpos hrefuses
    rw [hrun, readField_of_refuses hpos hrefuses]
    rfl
  rcases Nat.eq_zero_or_pos field.size with hzero | hpos
  · obtain rfl := EntryField.eq_bytes_zero hzero
    exact ⟨cursor.position, rfl, .empty rfl⟩
  rcases Nat.lt_or_ge cursor.position.toNat length with hstart | hbeyond
  · obtain ⟨view, hclip, hsize, hview⟩ :=
      Bytes.exists_clipTo_eq_ok hstart .file data field.size
    obtain rfl : reply = .ok view := hread.trans hclip
    by_cases hfits : cursor.position.toNat + field.size ≤ min length data.size
    · have hwhole : view.size = field.size := by omega
      obtain ⟨content, hfield, hcontent⟩ := readField_of_view hpos hcall hwhole.ge
      rw [FilledField.FromView, ← hwhole, Array.extract_size, hview, hwhole] at hcontent
      have hanswer : done.1 = .ok (field.answer cursor.order
          (data.extract cursor.position.toNat (cursor.position.toNat + field.size))) := by
        rw [hrun, hfield, ← hcontent, ← field.value_eq_answer cursor.order]
        rfl
      have hposition := toNat_position_advance cursor (n := field.size) (by omega)
      refine ⟨(cursor.advance field.size).position, ?_, ?_⟩
      · rw [hrun, hfield]
        rfl
      · rw [hanswer, hposition]
        exact .whole hpos hfits
    · have hshort : view.size < field.size := by omega
      have hgot : view.size = min length data.size - cursor.position.toNat := by omega
      rw [hfails hpos ⟨cursor.position, rfl, .inr ⟨view, hcall, hshort, rfl⟩⟩, hgot]
      exact ⟨cursor.position, rfl, .short hpos hstart (Nat.not_le.1 hfits) rfl rfl⟩
  · obtain rfl : reply = _ := hread.trans (Bytes.clipTo_of_le hbeyond)
    rw [hfails hpos ⟨cursor.position, rfl, .inl hcall⟩]
    exact ⟨cursor.position, rfl,
      .beyond hpos hbeyond rfl (Error.message_offsetBeyondEnd .file _ length)⟩

end Cursor

/-- What remains is told from the length that a source holds. -/
theorem Source.Holds.exists_run_remaining {files : FileSystem} {source : Source} {medium : Medium}
    (h : source.Holds files medium length data) (cursor : Cursor) :
    ∃ left, CursorOp.remaining.run (Source.reader files) (cursor, source) =
      (.ok (.number (length - cursor.position.toNat)), (cursor, left)) := by
  have hsize : (Source.reader files).size source =
      (.ok (.ofNat length), ((Source.reader files).size source).2) :=
    Prod.ext h.size_fst rfl
  have hlength : (UInt64.ofNat length).toNat = length := UInt64.toNat_ofNat_of_lt' h.length_lt
  rw [Cursor.run_remaining_of_size hsize, hlength]
  exact ⟨_, rfl⟩

/-! ## Sessions -/

namespace Session

variable {session : Session} {i : ℕ} {source : Source}

theorem perform_onSource (hsource : session.sources[i]? = some source) (query : Query) :
    ∃ next, session.perform (.onSource i query) =
      some ((query.run (Source.reader session.files) source).1, next) := by
  rw [perform, onSource, hsource]
  exact ⟨_, rfl⟩

theorem cursorDoes_of_run (hsource : session.sources[i]? = some source) {c : ℕ} {cursor : Cursor}
    (hfound : session.cursors[c]? = some ⟨cursor, i⟩) {op : CursorOp} {P : Result Value → ℕ → Prop}
    (h : let done := op.run (Source.reader session.files) (cursor, source)
      ∃ position, done.2.1 = { cursor with position } ∧ P done.1 position.toNat) :
    session.CursorDoes c ⟨cursor, i⟩ op P := by
  obtain ⟨position, hafter, hresult⟩ := h
  rw [CursorDoes, perform, onCursor, hfound]
  dsimp only
  rw [hsource]
  refine ⟨_, _, position, rfl, ?_, hresult⟩
  dsimp only
  rw [← hafter]
  exact Array.getElem?_setIfInBounds_self_of_lt (Array.getElem?_eq_some_iff.1 hfound).1

/-- **What a source that holds a file answers** depends on the length and the bytes that it holds. -/
theorem seesFile_of_holds {length : ℕ} {data : Bytes} (hsource : session.sources[i]? = some source)
    (hholds : source.Holds session.files .file length data) : session.SeesFile i length data := by
  have hlength : (UInt64.ofNat length).toNat = length :=
    UInt64.toNat_ofNat_of_lt' hholds.length_lt
  have hsize : (Source.reader session.files).size source =
      (.ok (.ofNat length), ((Source.reader session.files).size source).2) :=
    Prod.ext hholds.size_fst rfl
  refine ⟨?_, fun offset size => ?_, fun {c cursor} hfound target => ?_,
    fun {c cursor} hfound => ?_, fun {c cursor} hfound field => ?_⟩
  · obtain ⟨next, hdone⟩ := perform_onSource hsource .size
    have hanswer : (Query.size.run (Source.reader session.files) source).1 =
        .ok (.number length) := by
      rw [Query.run, ReadM.map_apply, hsize]
      exact congrArg (fun n => Except.ok (Value.number n)) hlength
    exact ⟨next, hanswer ▸ hdone⟩
  · obtain ⟨next, hdone⟩ := perform_onSource hsource (.read offset size)
    refine ⟨_, next, hdone, ?_⟩
    rw [Query.run, ReadM.map_apply, hholds.read_fst]
    exact FileReader.reads_of_clipTo length data offset.toNat size
  · refine cursorDoes_of_run hsource hfound ?_
    rw [CursorOp.run, ReadM.map_apply, Cursor.seek_of_size hsize]
    by_cases houtside : UInt64.ofNat length < target
    · rw [if_pos houtside]
      have hlt := UInt64.lt_iff_toNat_lt.1 houtside
      rw [hlength] at hlt ⊢
      exact ⟨cursor.position, rfl, .beyond hlt rfl rfl⟩
    · rw [if_neg houtside]
      have hle := UInt64.le_iff_toNat_le.1 (UInt64.not_lt.1 houtside)
      rw [hlength] at hle
      exact ⟨target, rfl, .reached hle⟩
  · obtain ⟨_, hremaining⟩ := hholds.exists_run_remaining cursor
    refine cursorDoes_of_run hsource hfound ⟨cursor.position, ?_⟩
    rw [hremaining]
    exact ⟨rfl, rfl, rfl⟩
  · exact cursorDoes_of_run hsource hfound
      (Cursor.readsField_of_read hholds.length_lt (hholds.read_fst cursor.position field.size))

/-- **A file that changes while it is open.**  After any history, in which anything may have been
read and anything may have become of the files, a reader that is open answers by two things: the
length that its file had at the opening, and the bytes that the contents opened then have now.  These
are what the last change that rewrote them put there, whatever was done to names. -/
theorem seesFile_of_live {history : List Moment} {reader : FileReader}
    (hsound : ∀ moment ∈ history, moment.files.Sound) (hlive : live {} history = some session)
    (hfile : session.file? i = some reader) (hopen : reader.isOpen = true) :
    ∃ opening contents, (Ledger.ofHistory history).opening? i = some opening ∧
      (∃ moment ∈ history, moment.Opens opening) ∧
      opening.files.find? opening.path = some (.file contents) ∧
      (opening.files.bytes contents).size = opening.length ∧
      (∀ files, (session.withFiles files).SeesFile i opening.length (files.bytes contents)) ∧
      ∀ changes, (opening.files.changed changes).bytes contents =
        FileSystem.rewritten contents opening.files (opening.files.bytes contents) changes := by
  have hagrees := (agrees_of_live hlive).of_file? hfile
  have hisOpen := hagrees.isOpen_eq
  rw [hopen] at hisOpen
  generalize hheld : (Ledger.ofHistory history).opening? i = held at hagrees hisOpen
  cases hagrees with
  | closed => cases hisOpen
  | @opened opening contents found source size path =>
    obtain ⟨moment, hmoment, hopens⟩ := Ledger.exists_moment_of_opening? hheld
    obtain ⟨number, hnumber, hlength, -⟩ := FileSystem.length?_eq_some_iff.1 opening.known
    obtain rfl := Node.file.inj (Option.some.inj (hnumber.symm.trans found))
    refine ⟨opening, number, rfl, ⟨moment, hmoment, hopens⟩, found, hlength, fun files => ?_,
      FileSystem.bytes_changed ((hopens.files_eq ▸ hsound moment hmoment).lt_size found)⟩
    have hholds : (Source.file reader).Holds files .file reader.size.toNat (files.bytes number) :=
      .file source
    rw [size, opening.toNat_ofNat_length] at hholds
    have hnow : (session.withFiles files).sources[i]? = some (.file reader) :=
      file?_eq_some_iff.1 hfile
    exact seesFile_of_holds hnow hholds

/-- A file of ten bytes is opened and rewritten with six, a read and a field meet the new end, the
name is removed, and then it is given to a longer file.  The reader goes by the ten bytes and meets
the six. -/
theorem seesFile_of_live_shrunk :
    let files := FileSystem.empty.writeFile "a.tif" (Array.replicate 10 7)
    let shrunk := files.writeFile "a.tif" #[1, 2, 3, 4, 5, 6]
    let unlinked := shrunk.removeFile "a.tif"
    let renewed := unlinked.writeFile "a.tif" (Array.replicate 20 9)
    let history : List Moment := [{ files, action := .createFile "a.tif" },
      { files := shrunk, action := .placeCursor { order := .big, position := 4 } 0 },
      { files := shrunk, action := .onSource 0 (.read 4 100) },
      { files := unlinked, action := .onCursor 0 (.readWord .u32) }]
    (∀ moment ∈ history, moment.files.Sound) ∧ renewed.find? "a.tif" = some (.file 1) ∧
      ∃ session, live {} history = some session ∧
        (session.withFiles renewed).SeesFile 0 10 #[1, 2, 3, 4, 5, 6] := by
  intro files shrunk unlinked renewed history
  have hfiles : files.Sound := (FileSystem.sound_empty _).writeFile _ _
  have hshrunk : shrunk.Sound := hfiles.writeFile _ _
  have hsound : ∀ moment ∈ history, moment.files.Sound := by
    simp only [history, List.forall_mem_cons, hfiles, hshrunk, hshrunk.removeFile "a.tif", true_and,
      unlinked, List.not_mem_nil, false_imp_iff, implies_true]
  obtain ⟨session, hlive⟩ : ∃ session, live {} history = some session :=
    Option.isSome_iff_exists.1 (by decide +kernel)
  have hreader : ((live {} history).bind (·.file? 0)).map (·.isOpen) = some true := by
    decide +kernel
  have hheld : ((Ledger.ofHistory history).opening? 0).map
      (fun o => (o.length, o.files.find? o.path)) = some (10, some (.file 0)) := by
    decide +kernel
  rw [hlive] at hreader
  obtain ⟨reader, hfile, hopen⟩ := Option.map_eq_some_iff.1 hreader
  obtain ⟨opening, contents, hopening, -, hfound, -, hsees, -⟩ :=
    seesFile_of_live hsound hlive hfile hopen
  rw [hopening] at hheld
  obtain ⟨hlength, hzero⟩ := Prod.mk.inj (Option.some.inj hheld)
  obtain rfl := Node.file.inj (Option.some.inj (hfound.symm.trans hzero))
  have hbytes : renewed.bytes 0 = #[1, 2, 3, 4, 5, 6] := by decide +kernel
  have hrenewed := hsees renewed
  rw [hlength, hbytes] at hrenewed
  exact ⟨hsound, by decide +kernel, session, hlive, hrenewed⟩

/-- A field of no bytes is there even past the end of the bytes: of a file of ten bytes that was
rewritten with two, it is read at position five. -/
theorem readBytes_zero_of_shrunk :
    let files := FileSystem.empty.writeFile "a.tif" (Array.replicate 10 7)
    let shrunk := files.writeFile "a.tif" #[1, 2]
    let history : List Moment := [{ files, action := .createFile "a.tif" },
      { files := shrunk, action := .placeCursor { position := 5 } 0 }]
    let length := (files.bytes 0).size
    let data := shrunk.bytes 0
    5 < length ∧ ¬5 + 0 ≤ min length data.size ∧
      ((live {} history).bind fun session =>
        ((session.withFiles shrunk).perform (.onCursor 0 (.readBytes 0))).map Prod.fst) =
          some (.ok (.bytes #[])) := by
  decide +kernel

end Session

end TiffDirectory
