import Mathlib
import TiffDirectory.Proofs.Matched
import TiffDirectory.Proofs.Traces

/-!
# Proofs/Interchange — sources of the same bytes cannot be told apart

Two sources that hold the same bytes reply alike to every read, and go on doing so, wherever earlier
reads left their streams (`Source.matches_of_holds`).  All that differs is the word for the medium in
the report of a read beyond the end (`Error.Twins`).  Sessions over such sources therefore go **in
lockstep** (`Session.Beside.trace`), and so do the three over a window of memory, a byte string and
an open file (`Session.trace_of_same_bytes`).
-/

namespace TiffDirectory

/-! ## Reports that differ in the medium -/

/-- The two errors are the same, up to the medium of a read beyond the end. -/
inductive Error.Twins (a b : Medium) : Error → Error → Prop
  | same (e : Error) : Twins a b e e
  | offsetBeyondEnd (offset size : ℕ) :
      Twins a b (.offsetBeyondEnd a offset size) (.offsetBeyondEnd b offset size)
  | markUnreadable {d e : Error} (cause : Twins a b d e) :
      Twins a b (.markUnreadable d) (.markUnreadable e)

/-- **What callers see of two results is the same**: the value, or the code and the text of a
failure.  Only the text about a read beyond the end speaks of a buffer in the first and of a file in
the second, also where it follows another text. -/
inductive Result.SameUpToMedium {α : Type} : Result α → Result α → Prop
  | ok (a : α) : SameUpToMedium (.ok a) (.ok a)
  | error {d e : Error} (code : d.code = e.code) (message : d.message = e.message) :
      SameUpToMedium (.error d) (.error e)
  | beyondEnd {d e : Error} (lead : String) (offset size : ℕ) (code : d.code = .outOfBounds)
      (code' : e.code = .outOfBounds)
      (message : d.message = lead ++ s!"Read offset {offset} beyond buffer size {size}")
      (message' : e.message = lead ++ s!"Read offset {offset} beyond file size {size}") :
      SameUpToMedium (.error d) (.error e)

namespace Error

variable {a b : Medium} {d e : Error}

theorem lawful_twins (a b : Medium) : Lawful (Twins a b) := ⟨.same, .markUnreadable⟩

theorem Twins.eq (h : Twins a a d e) : d = e := by
  induction h with
  | same e => rfl
  | offsetBeyondEnd offset size => rfl
  | markUnreadable _ ih => rw [ih]

theorem Twins.sameUpToMedium {α : Type} (h : Twins .buffer .file d e) :
    Result.SameUpToMedium (.error d : Result α) (.error e) := by
  induction h with
  | same e => exact .error rfl rfl
  | offsetBeyondEnd offset size =>
    refine .beyondEnd "" offset size rfl rfl ?_ ?_
    · rw [String.empty_append]
      exact message_offsetBeyondEnd .buffer offset size
    · rw [String.empty_append]
      exact message_offsetBeyondEnd .file offset size
  | @markUnreadable d e _ ih =>
    have hmessage : ∀ cause : Error, (Error.markUnreadable cause).message =
      "Failed to read byte order mark: " ++ cause.message := fun _ => rfl
    cases ih with
    | error code message =>
      refine .error code ?_
      rw [hmessage, hmessage, message]
    | beyondEnd lead offset size code code' message message' =>
      refine .beyondEnd ("Failed to read byte order mark: " ++ lead) offset size code code' ?_ ?_
      · rw [hmessage, message]
        exact String.append_assoc.symm
      · rw [hmessage, message']
        exact String.append_assoc.symm

end Error

theorem Result.Alike.sameUpToMedium {α : Type} {x y : Result α}
    (h : Alike (Error.Twins .buffer .file) x y) : SameUpToMedium x y := by
  cases h with
  | ok a => exact .ok a
  | error related => exact related.sameUpToMedium

/-! ## Readers -/

namespace Source

variable {files files' : FileSystem} {a b : Source} {m m' : Medium} {length : ℕ} {data : Bytes}

theorem clipTo_alike (m m' : Medium) (length : ℕ) (data : Bytes) (offset size : ℕ) :
    Result.Alike (Error.Twins m m') (data.clipTo m length offset size)
      (data.clipTo m' length offset size) := by
  rw [Bytes.clipTo, Bytes.clipTo]
  split
  · exact .error (.offsetBeyondEnd offset length)
  · exact .ok _

theorem fill_alike (m m' : Medium) (data : Bytes) (offset size : ℕ) :
    Result.Alike (Error.Twins m m') (data.fill m offset size) (data.fill m' offset size) := by
  rw [Bytes.fill, Bytes.fill]
  split
  · exact .error (.offsetBeyondEnd offset data.size)
  · exact .of_eq .same rfl

/-- **Sources that hold the same reply alike**, and the replies change nothing of what they have. -/
theorem matches_of_holds (ha : a.Holds files m length data) (hb : b.Holds files' m' length data) :
    (reader files).Matches (Error.Twins m m') (fun x y => a.Same x ∧ b.Same y)
      (reader files') where
  read offset size := by
    rintro x y ⟨hx, hy⟩
    refine ⟨?_, (reader_keeps_same files a).read offset size x hx,
      (reader_keeps_same files' b).read offset size y hy⟩
    rw [(ha.of_same hx).read_fst, (hb.of_same hy).read_fst]
    exact clipTo_alike m m' length data offset.toNat size
  size := by
    rintro x y ⟨hx, hy⟩
    refine ⟨?_, (reader_keeps_same files a).size x hx, (reader_keeps_same files' b).size y hy⟩
    rw [(ha.of_same hx).size_fst, (hb.of_same hy).size_fst]
    exact .ok _

/-- …also to reads that have to be filled, as long as the length is that of the bytes. -/
theorem readFull_matches_of_holds (ha : a.Holds files m data.size data)
    (hb : b.Holds files' m' data.size data) (offset : UInt64) (size : ℕ) :
    ((reader files).readFull offset size).Matches (Error.Twins m m')
      (fun x y => a.Same x ∧ b.Same y) ((reader files').readFull offset size) := by
  rintro x y ⟨hx, hy⟩
  refine ⟨?_, (reader_keeps_same files a).readFull offset size x hx,
    (reader_keeps_same files' b).readFull offset size y hy⟩
  rw [(ha.of_same hx).readFull_fst, (hb.of_same hy).readFull_fst]
  exact fill_alike m m' data offset.toNat size

end Source

/-! ## Sessions in lockstep -/

/-- The action asks a source or a cursor, or sets a cursor on a source. -/
def Action.Asks : Action → Prop
  | .onSource .. => True
  | .placeCursor .. => True
  | .copyCursor _ => True
  | .onCursor .. => True
  | _ => False

/-- Two sessions with the same cursors, and with sources side by side. -/
structure Session.Beside (P : Source → Source → Prop) (s t : Session) : Prop where
  cursors_eq : s.cursors = t.cursors
  sources : Alongside P s.sources t.sources

/-- Two steps whose results are alike, and after which all cursors stand at the same places. -/
structure Step.Beside (E : Error → Error → Prop) (x y : Step) : Prop where
  alike : Result.Alike E x.result y.result
  cursors_eq : x.after.cursors = y.after.cursors

namespace Session

variable {P : Source → Source → Prop} {E : Error → Error → Prop} {s t : Session}

theorem Beside.setSource (h : s.Beside P t) {a b : Source} (hP : P a b) (i : ℕ) :
    (s.setSource i a).Beside P (t.setSource i b) :=
  ⟨h.cursors_eq, h.sources.setIfInBounds hP i⟩

theorem Beside.with_cursors (h : s.Beside P t) (cursors : Array PlacedCursor) :
    Beside P { s with cursors } { t with cursors } :=
  ⟨rfl, h.sources⟩

/-- What an action comes to in two sessions in lockstep: nothing in both, or results that are alike
and sessions in lockstep. -/
abbrev BothDo (E : Error → Error → Prop) (P : Source → Source → Prop) :
    Option (Result Value × Session) → Option (Result Value × Session) → Prop :=
  Option.Rel fun x y => Result.Alike E x.1 y.1 ∧ x.2.Beside P y.2

theorem Beside.onSource (h : s.Beside P t) {step step' : ReadM Source Value}
    (hstep : step.Matches E P step') (i : ℕ) :
    BothDo E P (s.onSource i step) (t.onSource i step') := by
  have hrel := h.sources.getElem? i
  rw [Session.onSource, Session.onSource]
  generalize s.sources[i]? = one, t.sources[i]? = other at hrel ⊢
  cases hrel with
  | none => exact .none
  | some hP =>
    obtain ⟨halike, hleft⟩ := hstep _ _ hP
    exact .some ⟨halike, h.setSource hleft i⟩

theorem Beside.onCursor (h : s.Beside P t) {step step' : ReadM (Cursor × Source) Value}
    (hstep : step.Matches E (Cursor.Beside P) step') (c : ℕ) :
    BothDo E P (s.onCursor c step) (t.onCursor c step') := by
  rw [Session.onCursor, Session.onCursor, ← h.cursors_eq]
  cases s.cursors[c]? with
  | none => exact .none
  | some placed =>
    have hrel := h.sources.getElem? placed.source
    dsimp only
    generalize s.sources[placed.source]? = one, t.sources[placed.source]? = other at hrel ⊢
    cases hrel with
    | none => exact .none
    | @some a b hP =>
      obtain ⟨halike, hcursor, hleft⟩ := hstep (placed.cursor, a) (placed.cursor, b) ⟨rfl, hP⟩
      dsimp only
      rw [hcursor]
      exact .some ⟨halike, (h.setSource hleft placed.source).with_cursors _⟩

/-- **A question is answered alike in both sessions**, which stay in lockstep. -/
theorem Beside.perform (h : s.Beside P t) (hE : Error.Lawful E)
    (hreader : (Source.reader s.files).Matches E P (Source.reader t.files))
    (hfull : ∀ offset size, ((Source.reader s.files).readFull offset size).Matches E P
      ((Source.reader t.files).readFull offset size))
    {action : Action} (hasks : action.Asks) :
    BothDo E P (s.perform action) (t.perform action) := by
  cases action with
  | onSource i query => exact h.onSource (query.run_matches hE hreader hfull) i
  | onCursor c op => exact h.onCursor (op.run_matches hE.refl hreader) c
  | placeCursor cursor i =>
    rw [Session.perform, Session.perform, ← h.sources.size_eq, addCursor, addCursor, ← h.cursors_eq]
    split
    · exact .some ⟨.ok _, h.with_cursors _⟩
    · exact .none
  | copyCursor c =>
    rw [Session.perform, Session.perform, ← h.cursors_eq]
    cases s.cursors[c]? with
    | none => exact .none
    | some placed =>
      rw [Option.map_some, Option.map_some, addCursor, addCursor, ← h.cursors_eq]
      exact .some ⟨.ok _, h.with_cursors _⟩
  | _ => exact hasks.elim

theorem Beside.trace (h : s.Beside P t) (hE : Error.Lawful E) {history : List Moment}
    (hreader : ∀ moment ∈ history,
      (Source.reader moment.files).Matches E P (Source.reader moment.files))
    (hfull : ∀ moment ∈ history, ∀ offset size,
      ((Source.reader moment.files).readFull offset size).Matches E P
        ((Source.reader moment.files).readFull offset size))
    (hasks : ∀ moment ∈ history, moment.action.Asks) :
    List.Forall₂ (Step.Beside E) (s.trace history) (t.trace history) := by
  induction history generalizing s t with
  | nil => exact .nil
  | cons moment rest ih =>
    have hnow : (s.withFiles moment.files).Beside P (t.withFiles moment.files) :=
      ⟨h.cursors_eq, h.sources⟩
    have hboth := hnow.perform hE (hreader moment List.mem_cons_self)
      (hfull moment List.mem_cons_self) (hasks moment List.mem_cons_self)
    rw [Session.trace, Session.trace]
    generalize (s.withFiles moment.files).perform moment.action = one,
      (t.withFiles moment.files).perform moment.action = other at hboth ⊢
    cases hboth with
    | none => exact .nil
    | some hdone =>
      obtain ⟨halike, hnext⟩ := hdone
      refine .cons ⟨halike, hnext.cursors_eq⟩ (ih hnext ?_ ?_ ?_)
      · exact fun m hm => hreader m (List.mem_cons_of_mem _ hm)
      · exact fun m hm => hfull m (List.mem_cons_of_mem _ hm)
      · exact fun m hm => hasks m (List.mem_cons_of_mem _ hm)

/-! ## One source, three media -/

/-- **Over sources that hold the same bytes at every moment, sessions go in lockstep.** -/
theorem trace_of_holds {history : List Moment} {a b : Source} {m m' : Medium} {data : Bytes}
    (ha : ∀ moment ∈ history, a.Holds moment.files m data.size data)
    (hb : ∀ moment ∈ history, b.Holds moment.files m' data.size data)
    (hasks : ∀ moment ∈ history, moment.action.Asks) :
    List.Forall₂ (Step.Beside (Error.Twins m m')) (Session.trace { sources := #[a] } history)
      (Session.trace { sources := #[b] } history) := by
  have hbeside : Beside (fun x y => a.Same x ∧ b.Same y) { sources := #[a] } { sources := #[b] } :=
    ⟨rfl, .singleton ⟨.refl a, .refl b⟩⟩
  exact hbeside.trace (Error.lawful_twins m m')
    (fun moment hm => Source.matches_of_holds (ha moment hm) (hb moment hm))
    (fun moment hm => Source.readFull_matches_of_holds (ha moment hm) (hb moment hm)) hasks

/-- **A window of memory, a byte string and an open file of the same bytes are interchangeable**, as
long as nobody changes the bytes of the file.  Whatever is asked of them, directly or through
cursors, and in whatever order: each step has the same result on all three, up to the word for the
medium in the report of a read beyond the end, and leaves all cursors at the same places. -/
theorem trace_of_same_bytes {files : FileSystem} {path : String} {contents : ℕ}
    {old reader : FileReader} {view : BufferView} {buffer : Buffer} {history : List Moment}
    (hfound : files.find? path = some (.file contents))
    (hopen : FileReader.openPath files path old = (.ok (), reader))
    (hview : view.bytes = files.bytes contents) (hbuffer : buffer.bytes = files.bytes contents)
    (hkept : ∀ moment ∈ history, moment.files.bytes contents = files.bytes contents)
    (hasks : ∀ moment ∈ history, moment.action.Asks) :
    let trace (source : Source) := Session.trace { sources := #[source] } history
    List.Forall₂ (fun x y => x.result = y.result ∧ x.after.cursors = y.after.cursors)
      (trace (.view view)) (trace (.buffer buffer)) ∧
    List.Forall₂
      (fun x y => Result.SameUpToMedium x.result y.result ∧ x.after.cursors = y.after.cursors)
      (trace (.buffer buffer)) (trace (.file reader)) := by
  intro trace
  obtain ⟨stream, size, small⟩ :
      reader.stream.map FileStream.source = some (.file contents) ∧
        reader.size.toNat = (files.bytes contents).size ∧ (files.bytes contents).size < 2 ^ 64 := by
    obtain ⟨number, hnumber, hstream, hsize⟩ :=
      FileReader.exists_contents_of_isOpen (FileReader.isOpen_of_openPath_eq_ok hopen)
    obtain rfl := Node.file.inj (Option.some.inj (hnumber.symm.trans hfound))
    rw [hopen] at hstream hsize
    exact ⟨hstream, hsize, hsize ▸ reader.size.toNat_lt⟩
  have honView : ∀ moment ∈ history, (Source.view view).Holds moment.files .buffer
      (files.bytes contents).size (files.bytes contents) :=
    fun _ _ => .memory (congrArg some hview) small
  have honBuffer : ∀ moment ∈ history, (Source.buffer buffer).Holds moment.files .buffer
      (files.bytes contents).size (files.bytes contents) :=
    fun _ _ => .memory (congrArg some hbuffer) small
  have honFile : ∀ moment ∈ history, (Source.file reader).Holds moment.files .file
      (files.bytes contents).size (files.bytes contents) := by
    intro moment hm
    have hholds : (Source.file reader).Holds moment.files .file reader.size.toNat
      (moment.files.bytes contents) := .file stream
    rwa [size, hkept moment hm] at hholds
  constructor
  · refine (trace_of_holds honView honBuffer hasks).imp fun x y h => ⟨?_, h.cursors_eq⟩
    exact (h.alike.imp Error.Twins.eq).eq
  · exact (trace_of_holds honBuffer honFile hasks).imp fun x y h =>
      ⟨h.alike.sameUpToMedium, h.cursors_eq⟩

/-- Three bytes in each of the media: a window within a longer array, a byte string and a file.  The
file is shown while another one is written.  A number is read, then one that is cut short, and the
mark is read after a read beyond the end. -/
theorem trace_of_same_bytes_three :
    let files := FileSystem.empty.writeFile "a.tif" #[0x49, 0x49, 42]
    let other := files.writeFile "b.tif" #[1]
    let view : BufferView := ⟨(#[0, 0x49, 0x49, 42, 0] : Bytes).toSubarray 1 4⟩
    let reader := FileReader.ofPath files "a.tif"
    let history : List Moment := [
      { files, action := .placeCursor { order := .big, position := 0 } 0 },
      { files, action := .onCursor 0 (.readWord .u16) },
      { files := other, action := .onCursor 0 (.readWord .u32) },
      { files := other, action := .onSource 0 (.read 3 1) },
      { files, action := .onSource 0 .mark }]
    let trace (source : Source) := Session.trace { sources := #[source] } history
    FileReader.openPath files "a.tif" {} = (.ok (), reader) ∧
      (trace (.view view)).map (·.result.isOk) = [true, true, false, false, true] ∧
      List.Forall₂ (fun x y => x.result = y.result ∧ x.after.cursors = y.after.cursors)
        (trace (.view view)) (trace (.buffer ⟨#[0x49, 0x49, 42]⟩)) ∧
      List.Forall₂
        (fun x y => Result.SameUpToMedium x.result y.result ∧ x.after.cursors = y.after.cursors)
        (trace (.buffer ⟨#[0x49, 0x49, 42]⟩)) (trace (.file reader)) := by
  intro files other view reader history trace
  have hfound : files.find? "a.tif" = some (.file 0) := by decide +kernel
  have hopen : FileReader.openPath files "a.tif" {} = (.ok (), reader) := by decide +kernel
  have hview : view.bytes = files.bytes 0 := by decide +kernel
  have hbuffer : Buffer.bytes ⟨#[0x49, 0x49, 42]⟩ = files.bytes 0 := by decide +kernel
  have hother : other.bytes 0 = files.bytes 0 := by decide +kernel
  have hkept : ∀ moment ∈ history, moment.files.bytes 0 = files.bytes 0 := by
    simp only [history, List.forall_mem_cons, hother, true_and, List.not_mem_nil, false_imp_iff,
      implies_true]
  have hasks : ∀ moment ∈ history, moment.action.Asks := by
    simp only [history, List.forall_mem_cons, Action.Asks, true_and, List.not_mem_nil,
      false_imp_iff, implies_true]
  exact ⟨hopen, by decide +kernel, trace_of_same_bytes hfound hopen hview hbuffer hkept hasks⟩

end Session

end TiffDirectory
