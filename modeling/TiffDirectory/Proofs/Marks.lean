import Mathlib
import TiffDirectory.Proofs.HeldBytes
import TiffDirectory.Proofs.RandomAccess

/-!
# Proofs/Marks — the byte order mark, detected or read

Detecting the byte order of a file is one read of its first two bytes and a judgement of the reply
(`Reader.readMark_fst`).  A cursor at the start makes the same read and judges the reply in its own
way (`Cursor.takeExact_fst`).  So the two can be compared **reply by reply**, whatever the reader is:
they succeed and fail alike, and detection names an order exactly when the cursor reads its mark
(`agreesOnMark_of_reply`).
-/

namespace TiffDirectory

variable {σ τ : Type}

/-! ## Marks as integers -/

/-- The mark of a byte order as an integer of two bytes. -/
def ByteOrder.markWord : ByteOrder → Word .u16
  | .little => 0x4949
  | .big => 0x4D4D

/-- The two bytes of a mark are equal, so it is the same integer in either order. -/
theorem Word.ofBytes_mark (order named : ByteOrder) :
    ofBytes (w := .u16) order named.mark = named.markWord := by
  cases order <;> cases named <;> decide

theorem Word.ofBytes_eq_markWord_iff {order named : ByteOrder} {bytes : Vector UInt8 2} :
    ofBytes (w := .u16) order bytes = named.markWord ↔ bytes = named.mark := by
  have hinjective : (ofBytes (w := .u16) order).Injective :=
    Function.LeftInverse.injective (toBytes_ofBytes order)
  rw [← ofBytes_mark order named, hinjective.eq_iff]

/-! ## What is made of a reply -/

theorem Bytes.first?_extract (view : Bytes) (n : ℕ) :
    Bytes.first? (view.extract 0 n) n = view.first? n := by
  have hsize : n ≤ (view.extract 0 n).size ↔ n ≤ view.size := by
    rw [Array.size_extract]
    omega
  simp only [Bytes.first?, hsize, Array.extract_extract, Nat.zero_add, Nat.min_self]

/-- The byte order that the reply to a read of the first two bytes names. -/
def ByteOrder.ofReply : Result Bytes → Result ByteOrder
  | .error cause => .error (.markUnreadable cause)
  | .ok view =>
    match view.first? 2 with
    | none => .error .markTruncated
    | some bytes => (ofMark? bytes).elim (.error .markUnknown) .ok

theorem Reader.readMark_fst (R : Reader σ) (s : σ) :
    (R.readMark s).1 = ByteOrder.ofReply (R.read 0 2 s).1 := by
  rcases hread : R.read 0 2 s with ⟨cause | view, t⟩
  · simp [readMark, ReadM.bind_apply, hread, Except.mapError, ByteOrder.ofReply]
  · rcases hfirst : view.first? 2 with _ | bytes
    · simp [readMark, ReadM.bind_apply, hread, Except.mapError, ByteOrder.ofReply, hfirst]
    · rcases hmark : ByteOrder.ofMark? bytes with _ | order <;>
        simp [readMark, ReadM.bind_apply, hread, Except.mapError, ByteOrder.ofReply, hfirst, hmark]

/-- Only the first two bytes of the view matter. -/
theorem ByteOrder.ofReply_map_extract (reply : Result Bytes) :
    ofReply (reply.map (·.extract 0 2)) = ofReply reply := by
  cases reply with
  | error cause => rfl
  | ok view => simp only [Except.map, ofReply, Bytes.first?_extract]

namespace Cursor

/-- The field of `n` bytes at position `p` that a cursor makes of the reply to its read. -/
def taken (p n : ℕ) : Result Bytes → Result (Vector UInt8 n)
  | .error e => .error e
  | .ok view => (view.first? n).elim (.error (.truncatedField p n view.size)) .ok

theorem takeExact_fst (R : Reader σ) (n : ℕ) (cursor : Cursor) (s : σ) :
    (takeExact R n (cursor, s)).1 =
      taken cursor.position.toNat n (R.read cursor.position n s).1 := by
  rcases hread : R.read cursor.position n s with ⟨_ | view, t⟩
  · rw [takeExact_of_error hread, taken]
  · rcases hfirst : view.first? n with _ | bytes
    · rw [takeExact_of_short hread (Bytes.first?_eq_none_iff.1 hfirst), taken, hfirst, Option.elim]
    · rw [takeExact_of_ok hread hfirst, taken, hfirst, Option.elim]

section Taken

variable {p n : ℕ} {reply : Result Bytes}

theorem taken_eq_ok_iff {bytes : Vector UInt8 n} :
    taken p n reply = .ok bytes ↔ ∃ view, reply = .ok view ∧ view.first? n = some bytes := by
  rcases reply with e | view
  · simp [taken]
  · rcases hfirst : view.first? n with _ | first <;> simp [taken, hfirst]

theorem taken_eq_error_iff {e : Error} :
    taken p n reply = .error e ↔ reply = .error e ∨
      ∃ view, reply = .ok view ∧ view.size < n ∧ e = .truncatedField p n view.size := by
  rcases reply with d | view
  · simp [taken]
  · rcases hfirst : view.first? n with _ | first
    · simp [taken, hfirst, Bytes.first?_eq_none_iff.1 hfirst, eq_comm]
    · simp [taken, hfirst, Nat.not_lt.2 (Bytes.first?_eq_some_iff.1 hfirst).2]

end Taken

/-- Only the first bytes of the view matter, as many as were asked for. -/
theorem taken_map_extract (p n : ℕ) (reply : Result Bytes) :
    taken p n (reply.map (·.extract 0 n)) = taken p n reply := by
  cases reply with
  | error e => rfl
  | ok view =>
    simp only [Except.map, taken, Bytes.first?_extract]
    rcases hfirst : view.first? n with _ | bytes
    · rw [Array.extract_eq_self_of_le (Bytes.first?_eq_none_iff.1 hfirst).le]
    · rfl

variable (R : Reader σ) (order : ByteOrder) (s : σ)

theorem readBytes_two_fst :
    (readBytes R 2 ({ order, position := 0 }, s)).1 = taken 0 2 (R.read 0 2 s).1 := by
  rw [readBytes_of_pos R Nat.two_pos, takeExact_fst]
  rfl

theorem readWord_u16_fst :
    (readWord R .u16 ({ order, position := 0 }, s)).1 =
      (taken 0 2 (R.read 0 2 s).1).map (Word.ofBytes order) := by
  rw [readWord_of_order rfl, ReadM.map_apply, takeExact_fst]
  rfl

end Cursor

/-! ## Agreement -/

/-- **Detection and the cursor agree on a reply** to a read of the first two bytes.  `mark` is what
detection makes of it, and `bytes` and `word` are what a cursor does that reads two bytes, or an
integer of two bytes. -/
structure AgreesOnMark (reply : Result Bytes) (mark : Result ByteOrder)
    (bytes : Result (Vector UInt8 2)) (word : Result (Word .u16)) : Prop where
  names_iff_bytes : ∀ order, mark = .ok order ↔ bytes = .ok order.mark
  names_iff_word : ∀ order, mark = .ok order ↔ word = .ok order.markWord
  unknown : ∀ found, bytes = .ok found → (∀ order : ByteOrder, found ≠ order.mark) →
    ∃ e, mark = .error e ∧ e.code = .invalidHeader ∧ e.message = "Unknown byte order mark"
  fails_alike : ∀ e, bytes = .error e →
    word = .error e ∧ ∃ d, mark = .error d ∧ d.code = e.code
  reader_failed : ∀ cause, reply = .error cause →
    bytes = .error cause ∧ ∃ d, mark = .error d ∧ d.code = cause.code ∧
      d.message = "Failed to read byte order mark: " ++ cause.message
  short : ∀ view, reply = .ok view → view.size < 2 →
    ∃ d, mark = .error d ∧ d.code = .unexpectedEndOfFile ∧
      d.message = "File too small for a byte order mark"

namespace ByteOrder

variable {reply : Result Bytes} {order : ByteOrder}

theorem ofReply_of_taken {bytes : Vector UInt8 2}
    (h : Cursor.taken 0 2 reply = .ok bytes) :
    ofReply reply = (ofMark? bytes).elim (.error .markUnknown) .ok := by
  obtain ⟨view, rfl, hfirst⟩ := Cursor.taken_eq_ok_iff.1 h
  rw [ofReply, hfirst]

/-- If the cursor cannot read the mark, detection fails with an error of the same code. -/
theorem ofReply_of_taken_eq_error {e : Error} (h : Cursor.taken 0 2 reply = .error e) :
    ∃ d, ofReply reply = .error d ∧ d.code = e.code := by
  obtain rfl | ⟨view, rfl, hshort, rfl⟩ := Cursor.taken_eq_error_iff.1 h
  · exact ⟨_, rfl, rfl⟩
  · refine ⟨.markTruncated, ?_, rfl⟩
    rw [ofReply, Bytes.first?_eq_none_iff.2 hshort]

theorem ofReply_eq_ok_iff :
    ofReply reply = .ok order ↔ Cursor.taken 0 2 reply = .ok order.mark := by
  rcases htaken : Cursor.taken 0 2 reply with e | bytes
  · obtain ⟨d, hd, -⟩ := ofReply_of_taken_eq_error htaken
    simp [hd]
  · have hnames : ofMark? bytes = some order ↔ bytes = order.mark := ofMark?_eq_some_iff
    rw [ofReply_of_taken htaken, Except.ok.injEq, ← hnames]
    cases ofMark? bytes <;> simp

end ByteOrder

/-- **They agree on every reply.** -/
theorem agreesOnMark_of_reply (reply : Result Bytes) (order : ByteOrder) :
    AgreesOnMark reply (ByteOrder.ofReply reply) (Cursor.taken 0 2 reply)
      ((Cursor.taken 0 2 reply).map (Word.ofBytes order)) where
  names_iff_bytes named := ByteOrder.ofReply_eq_ok_iff
  names_iff_word named := by
    rw [ByteOrder.ofReply_eq_ok_iff]
    cases Cursor.taken 0 2 reply with
    | error e => simp [Except.map]
    | ok bytes =>
      rw [Except.map, Except.ok.injEq, Except.ok.injEq]
      exact Word.ofBytes_eq_markWord_iff.symm
  unknown found hfound hother := by
    have hnone : ByteOrder.ofMark? found = none :=
      Option.eq_none_iff_forall_ne_some.2 fun named h =>
        hother named (ByteOrder.ofMark?_eq_some_iff.1 h)
    refine ⟨.markUnknown, ?_, rfl, rfl⟩
    rw [ByteOrder.ofReply_of_taken hfound, hnone, Option.elim]
  fails_alike e h := by
    rw [h]
    exact ⟨rfl, ByteOrder.ofReply_of_taken_eq_error h⟩
  reader_failed cause h := by
    rw [h]
    exact ⟨rfl, _, rfl, rfl, rfl⟩
  short view h hshort := by
    refine ⟨.markTruncated, ?_, rfl, rfl⟩
    rw [h, ByteOrder.ofReply, Bytes.first?_eq_none_iff.2 hshort]

namespace Reader

/-- Whenever the reader is in one of these states, the reply to a read is told by its offset and
size. -/
def RepliesBy (R : Reader σ) (states : σ → Prop) (reply : UInt64 → ℕ → Result Bytes) : Prop :=
  ∀ s, states s → ∀ offset size, (R.read offset size s).1 = reply offset size

theorem Steady.repliesBy {R : Reader σ} {s : σ} (h : R.Steady s) :
    R.RepliesBy (R.After s) fun offset size => (R.read offset size s).1 := h

/-- What is detected, and what a cursor reads at the start, are told by the first two bytes of the
reply that it gets. -/
theorem eq_of_read_extract_eq {R : Reader σ} {Q : Reader τ} {s : σ} {t : τ}
    (h : (R.read 0 2 s).1.map (·.extract 0 2) = (Q.read 0 2 t).1.map (·.extract 0 2)) :
    (R.readMark s).1 = (Q.readMark t).1 ∧ ∀ order : ByteOrder,
      (Cursor.readBytes R 2 ({ order, position := 0 }, s)).1 =
        (Cursor.readBytes Q 2 ({ order, position := 0 }, t)).1 ∧
      (Cursor.readWord R .u16 ({ order, position := 0 }, s)).1 =
        (Cursor.readWord Q .u16 ({ order, position := 0 }, t)).1 := by
  have hmark := congrArg ByteOrder.ofReply h
  have htaken := congrArg (Cursor.taken 0 2) h
  rw [ByteOrder.ofReply_map_extract, ByteOrder.ofReply_map_extract] at hmark
  rw [Cursor.taken_map_extract, Cursor.taken_map_extract] at htaken
  refine ⟨?_, fun order => ⟨?_, ?_⟩⟩
  · rw [readMark_fst, readMark_fst, hmark]
  · rw [Cursor.readBytes_two_fst, Cursor.readBytes_two_fst, htaken]
  · rw [Cursor.readWord_u16_fst, Cursor.readWord_u16_fst, htaken]

end Reader

/-! ## Data that a source holds -/

namespace Source.Holds

variable {files : FileSystem} {source : Source} {medium : Medium} {data : Bytes}

theorem readMark_fst (h : source.Holds files medium data.size data) :
    ((reader files).readMark source).1 = ByteOrder.ofReply (data.clip medium 0 2) := by
  rw [Reader.readMark_fst, h.read_fst, Bytes.clipTo_size]
  rfl

theorem readMark_of_empty (h : source.Holds files medium data.size data) (hempty : data.size = 0) :
    ((reader files).readMark source).1 =
      .error (.markUnreadable (.offsetBeyondEnd medium 0 0)) := by
  rw [h.readMark_fst, Bytes.clip, if_pos hempty.le, ByteOrder.ofReply, hempty]

theorem readMark_of_single (h : source.Holds files medium data.size data) (hone : data.size = 1) :
    ((reader files).readMark source).1 = .error .markTruncated := by
  have hshort : (data.extract 0 (0 + 2)).size < 2 := by
    rw [Array.size_extract]
    omega
  rw [h.readMark_fst, Bytes.clip, if_neg (by omega), ByteOrder.ofReply,
    Bytes.first?_eq_none_iff.2 hshort]

/-- Data open with the mark of the order that is detected. -/
theorem readMark_eq_ok_iff (h : source.Holds files medium data.size data) {order : ByteOrder} :
    ((reader files).readMark source).1 = .ok order ↔ data.extract 0 2 = order.mark.toArray := by
  rw [h.readMark_fst, ByteOrder.ofReply_eq_ok_iff, Cursor.taken_eq_ok_iff]
  constructor
  · rintro ⟨view, hclip, hfirst⟩
    obtain ⟨-, rfl⟩ := Bytes.clip_eq_ok_iff.1 hclip
    exact (Bytes.first?_eq_some_iff.1 ((Bytes.first?_extract data 2).symm.trans hfirst)).1.symm
  · intro hmark
    have hlong : 2 ≤ data.size := by
      have hsize := congrArg Array.size hmark
      rw [Array.size_extract, Vector.size_toArray] at hsize
      omega
    exact ⟨_, Bytes.clip_eq_ok_iff.2 ⟨by omega, rfl⟩,
      (Bytes.first?_extract data 2).trans (Bytes.first?_eq_some_iff.2 ⟨hmark.symm, hlong⟩)⟩

end Source.Holds

/-! ## Any reader -/

/-- **Detecting the byte order agrees with reading the mark through a cursor.**  Let the replies of
a reader depend on the offset and the size alone, be they failures, short views or long ones.  Then
detection names an order exactly when a cursor at the start reads its mark, be it as two bytes or as
an integer in either order.  Of two other bytes it says that they are no mark, and where the cursor
fails it fails with the same code.  What follows the first two bytes of a view plays no part.  Of the
data of a source this makes an error out of bounds if there are none, and an unexpected end if there
is a single byte. -/
theorem Reader.readMark_agrees_with_cursor :
    (∀ (σ : Type) (R : Reader σ) (states : σ → Prop) (reply : UInt64 → ℕ → Result Bytes),
      R.RepliesBy states reply → ∀ s t u, states s → states t → states u →
      ∀ order order' : ByteOrder,
        AgreesOnMark (reply 0 2) (R.readMark s).1
          (Cursor.readBytes R 2 ({ order, position := 0 }, t)).1
          (Cursor.readWord R .u16 ({ order := order', position := 0 }, u)).1) ∧
    (∀ (σ τ : Type) (R : Reader σ) (Q : Reader τ) (s : σ) (t : τ),
      (R.read 0 2 s).1.map (·.extract 0 2) = (Q.read 0 2 t).1.map (·.extract 0 2) →
        (R.readMark s).1 = (Q.readMark t).1 ∧ ∀ order : ByteOrder,
          (Cursor.readBytes R 2 ({ order, position := 0 }, s)).1 =
            (Cursor.readBytes Q 2 ({ order, position := 0 }, t)).1 ∧
          (Cursor.readWord R .u16 ({ order, position := 0 }, s)).1 =
            (Cursor.readWord Q .u16 ({ order, position := 0 }, t)).1) ∧
    ∀ (files : FileSystem) (source : Source) (medium : Medium) (data : Bytes),
      source.Holds files medium data.size data →
        let mark := ((Source.reader files).readMark source).1
        (data.size = 0 → ∃ e, mark = .error e ∧ e.code = .outOfBounds) ∧
          (data.size = 1 → ∃ e, mark = .error e ∧ e.code = .unexpectedEndOfFile) ∧
          ∀ order : ByteOrder, mark = .ok order ↔ data.extract 0 2 = order.mark.toArray := by
  refine ⟨?_, fun _ _ _ _ _ _ h => eq_of_read_extract_eq h, ?_⟩
  · intro σ R states reply hreplies s t u hs ht hu order order'
    rw [readMark_fst, Cursor.readBytes_two_fst, Cursor.readWord_u16_fst, hreplies s hs,
      hreplies t ht, hreplies u hu]
    exact agreesOnMark_of_reply (reply 0 2) order'
  · intro files source medium data hholds mark
    exact ⟨fun hempty => ⟨_, hholds.readMark_of_empty hempty, rfl⟩,
      fun hone => ⟨_, hholds.readMark_of_single hone, rfl⟩, fun _ => hholds.readMark_eq_ok_iff⟩

/-- A view that is longer than asked for opens with the mark of the second order, for detection and
for a cursor of the first order; so do bytes in memory that go on otherwise.  Of a single byte no
mark is made. -/
theorem Reader.readMark_agrees_with_cursor_big :
    let s : FaultyReader := { bytes := #[0x4D, 0x4D, 0, 42, 1], surplus := 3 }
    let source : Source := .buffer ⟨#[0x4D, 0x4D, 7]⟩
    let single : Source := .buffer ⟨#[0x4D]⟩
    FaultyReader.reader.RepliesBy (FaultyReader.reader.After s)
        (fun offset size => (FaultyReader.reader.read offset size s).1) ∧
      (FaultyReader.reader.read 0 2 s).1 = .ok #[0x4D, 0x4D, 0, 42, 1] ∧
      (FaultyReader.reader.readMark s).1 = .ok .big ∧
      (Cursor.readBytes FaultyReader.reader 2 ({ order := .little, position := 0 }, s)).1 =
        .ok #v[0x4D, 0x4D] ∧
      (Cursor.readWord FaultyReader.reader .u16 ({ order := .little, position := 0 }, s)).1 =
        .ok 0x4D4D ∧
      ((Source.reader .empty).readMark source).1 = .ok .big ∧
      single.Holds .empty .buffer 1 #[0x4D] ∧
      ∃ e, ((Source.reader .empty).readMark single).1 = .error e ∧
        e.code = .unexpectedEndOfFile := by
  intro s source single
  have hreplies := (FaultyReader.steady (s := s) rfl).repliesBy
  have hmark : (FaultyReader.reader.readMark s).1 = .ok .big := by decide +kernel
  have hcut : (FaultyReader.reader.read 0 2 s).1.map (·.extract 0 2) =
      ((Source.reader .empty).read 0 2 source).1.map (·.extract 0 2) := by decide +kernel
  have hsmall : Array.size (#[0x4D] : Bytes) < 2 ^ 64 := by decide
  have hsingle : single.Holds .empty .buffer 1 #[0x4D] := .memory rfl hsmall
  obtain ⟨hagrees, hviews, hholds⟩ := readMark_agrees_with_cursor
  have hall := hagrees _ FaultyReader.reader _ _ hreplies s s s .start .start .start .little .little
  obtain ⟨-, hone, -⟩ := hholds .empty single .buffer #[0x4D] hsingle
  exact ⟨hreplies, by decide +kernel, hmark, (hall.names_iff_bytes .big).1 hmark,
    (hall.names_iff_word .big).1 hmark, (hviews _ _ _ _ s source hcut).1.symm.trans hmark, hsingle,
    hone rfl⟩

end TiffDirectory
