import Mathlib
import TiffDirectory.Proofs.Rows

/-!
# Proofs/Remaining — what the number of remaining bytes tells of reads

`remaining` goes by the size that a reader tells, and a read by the view that it gives.  Over data
that are as long as they were both come to one number, so **what remains foretells every read**
(`Cursor.Foretells`): whether it succeeds, how far it gets, and what remains after it.

Of a reader that may give less than it has, or of a file that has changed, only one half is left:
**no more is read than remained** (`Cursor.WithinRemaining`).
-/

namespace TiffDirectory

variable {σ : Type}

/-- The code of a report tells whether any bytes were left where the field starts. -/
theorem Bytes.code_shortfall (medium : Medium) (data : Bytes) (span : Span) :
    (data.shortfall medium span).code =
      if data.size - span.start = 0 then .outOfBounds else .unexpectedEndOfFile := by
  rw [shortfall]
  by_cases hle : data.size ≤ span.start
  · rw [if_pos hle, if_pos (Nat.sub_eq_zero_of_le hle)]
    rfl
  · rw [if_neg hle, if_neg (by omega)]
    rfl

namespace Cursor

/-- **What reading fields comes to** from position `p` on, where `r` bytes remain: they are read and
remain no longer, or the first of them that is incomplete is where the cursor stays. -/
inductive Foretold (R : Reader σ) (p r : ℕ) (fields : List EntryField) :
    Result Value × (Cursor × σ) → Prop
  | read {value : Value} {placed : Cursor × σ} {remains : ℕ}
      (fits : EntryField.totalSize fields ≤ r)
      (position : placed.1.position.toNat = p + EntryField.totalSize fields)
      (told : (CursorOp.remaining.run R placed).1 = .ok (.number remains))
      (used : remains + EntryField.totalSize fields = r) :
      Foretold R p r fields (.ok value, placed)
  | cut {before rest : List EntryField} {field : EntryField} {e : Error} {placed : Cursor × σ}
      {remains : ℕ} (parts : fields = before ++ field :: rest) (incomplete : remains < field.size)
      (position : placed.1.position.toNat = p + EntryField.totalSize before)
      (told : (CursorOp.remaining.run R placed).1 = .ok (.number remains))
      (used : remains + EntryField.totalSize before = r)
      (code : e.code = if remains = 0 then .outOfBounds else .unexpectedEndOfFile) :
      Foretold R p r fields (.error e, placed)

/-- **What is told to remain foretells the operations that read.** -/
structure Foretells (R : Reader σ) (placed : Cursor × σ) (r : ℕ) : Prop where
  told : (CursorOp.remaining.run R placed).1 = .ok (.number r)
  word (w : Width) : ((CursorOp.readWord w).run R placed).1.isOk ↔ w.bytes ≤ r
  bytes (n : ℕ) : ((CursorOp.readBytes n).run R placed).1.isOk ↔ n ≤ r
  classic : ((CursorOp.readEntry .classic).run R placed).1.isOk ↔ 12 ≤ r
  big : ((CursorOp.readEntry .big).run R placed).1.isOk ↔ 20 ≤ r
  entries (f : Format) (n : ℕ) :
    ((CursorOp.readEntries f n).run R placed).1.isOk ↔ n * f.entrySize ≤ r
  /-- a field alone, which is the first that is incomplete -/
  code {op : CursorOp} {field : EntryField} {e : Error} (reads : op.parts = [.read field])
    (fails : (op.run R placed).1 = .error e) :
    e.code = if r = 0 then .outOfBounds else .unexpectedEndOfFile
  outcome {op : CursorOp} {fields : List EntryField} (reads : op.parts = fields.map .read) :
    Foretold R placed.1.position.toNat r fields (op.run R placed)

/-- What is read after the question is within what was told to remain.  By then the reader may be
another one, as that of a file that has changed. -/
def WithinRemaining (R later : Reader σ) (placed : Cursor × σ) : Prop :=
  ∀ {r : ℕ} {asked left : Cursor × σ} {op : CursorOp} {fields : List EntryField} {value : Value},
    CursorOp.remaining.run R placed = (.ok (.number r), asked) → op.parts = fields.map .read →
      op.run later asked = (.ok value, left) → EntryField.totalSize fields ≤ r

variable {R later : Reader σ} {P : σ → Prop} {limit p r : ℕ} {cursor : Cursor} {s : σ}

theorem Foretold.isOk_iff {fields : List EntryField} {done : Result Value × (Cursor × σ)}
    (h : Foretold R p r fields done) : done.1.isOk ↔ EntryField.totalSize fields ≤ r := by
  cases h with
  | read fits => exact ⟨fun _ => fits, fun _ => rfl⟩
  | cut parts incomplete position told used =>
    rw [parts, EntryField.totalSize_append, EntryField.totalSize_cons]
    exact ⟨nofun, fun h => by omega⟩

/-- A field alone has none before it. -/
theorem Foretold.code_of_error {field : EntryField} {e : Error} {placed : Cursor × σ}
    (h : Foretold R p r [field] (.error e, placed)) :
    e.code = if r = 0 then .outOfBounds else .unexpectedEndOfFile := by
  cases h with
  | @cut before _ _ _ _ _ parts incomplete position told used code =>
    cases before with
    | nil =>
      obtain rfl := used
      exact code
    | cons first more => simp at parts

/-- **All of it follows from the outcomes.** -/
theorem foretells_of_outcome {placed : Cursor × σ}
    (told : (CursorOp.remaining.run R placed).1 = .ok (.number r))
    (outcome : ∀ {op : CursorOp} {fields : List EntryField}, op.parts = fields.map .read →
      Foretold R placed.1.position.toNat r fields (op.run R placed)) :
    Foretells R placed r where
  told := told
  word w := (@outcome (.readWord w) [.word w] rfl).isOk_iff
  bytes n := (@outcome (.readBytes n) [.bytes n] rfl).isOk_iff
  classic := (@outcome (.readEntry .classic) Format.classic.fields rfl).isOk_iff
  big := (@outcome (.readEntry .big) Format.big.fields rfl).isOk_iff
  entries f n := by
    rw [← f.totalSize_rowFields]
    exact (outcome rfl).isOk_iff
  code {op field e} reads fails := by
    have hdone := @outcome op [field] reads
    rcases hrun : op.run R placed with ⟨result, after⟩
    rw [hrun] at hdone fails
    obtain rfl : result = .error e := fails
    exact hdone.code_of_error
  outcome := outcome

end Cursor

/-! ## Data that are as long as they were -/

namespace Source

variable {files : FileSystem} {source : Source} {medium : Medium} {data : Bytes}

/-- **Data that are as long as they were are read as foretold.** -/
theorem Holds.foretells (h : source.Holds files medium data.size data) (cursor : Cursor) :
    Cursor.Foretells (reader files) (cursor, source) (data.size - cursor.position.toNat) := by
  obtain ⟨_, htold⟩ := h.exists_run_remaining cursor
  refine Cursor.foretells_of_outcome (congrArg Prod.fst htold) fun {op fields} reads => ?_
  obtain ⟨result, after, left, hrow, hafter, -, houtcome⟩ :=
    h.shows.readsRow h.length_lt cursor fields
  obtain ⟨_, hremains⟩ := (h.of_same (same_of_after hafter)).exists_run_remaining after
  have hremains := congrArg Prod.fst hremains
  cases houtcome with
  | whole fits _ _ position =>
    obtain ⟨value, hrun⟩ := CursorOp.exists_run_of_readRow_ok reads hrow
    rw [hrun]
    rw [position] at hremains
    exact .read fits position hremains (by omega)
  | cut parts fits misses report position =>
    rw [CursorOp.run_of_readRow_error reads hrow]
    rw [position] at hremains
    refine .cut parts (by omega) position hremains (by omega) ?_
    rw [report, Bytes.code_shortfall, position]

end Source

/-! ## Readers that give less -/

namespace Reader.Bounded

variable {R later : Reader σ} {P : σ → Prop} {limit : ℕ} {cursor : Cursor} {s : σ}

/-- **A row that is given lies within the limit**; fields of no bytes are given past it too. -/
theorem totalSize_le_of_gives (hlimit : limit < 2 ^ 64) (hR : R.Bounded P limit) (hs : P s)
    {row : List FilledField} {left : Cursor × σ}
    (h : (Cursor.entryReader R).Gives (cursor, s) row left) :
    EntryField.totalSize (row.map FilledField.field) ≤ limit - cursor.position.toNat := by
  induction row generalizing cursor s with
  | nil => exact Nat.zero_le _
  | cons filled rest ih =>
    obtain ⟨field, content⟩ := filled
    obtain ⟨⟨next, t⟩, head, tail⟩ := EntryReader.gives_cons_iff.1 h
    rw [List.map_cons, EntryField.totalSize_cons]
    rcases Nat.eq_zero_or_pos field.size with hzero | hpos
    · obtain rfl := EntryField.eq_bytes_zero hzero
      cases head
      exact (Nat.zero_add _).le.trans (ih hs tail)
    · obtain ⟨view, hread, long, rfl, -⟩ := Cursor.view_of_readField_eq_ok hpos head
      have hfits := hR.read hs hread (by omega)
      have hnext := Cursor.toNat_position_advance cursor (n := field.size) (by omega)
      have hkept := hR.keeps.read cursor.position field.size s hs
      rw [hread] at hkept
      have hrest := ih hkept tail
      rw [hnext] at hrest
      dsimp only
      omega

/-- **What is read after the question was told to remain**, if both go by the same limit. -/
theorem withinRemaining (hR : R.Bounded P limit) (hlater : later.Bounded P limit) (hs : P s)
    (cursor : Cursor) : Cursor.WithinRemaining R later (cursor, s) := by
  intro r asked left op fields value hask reads hrun
  rcases hsize : R.size s with ⟨e | total, t⟩
  · rw [CursorOp.run, ReadM.map_eq_ok_iff, Cursor.remaining_of_size_error hsize] at hask
    obtain ⟨_, hask, -⟩ := hask
    cases hask
  · have htotal := hR.size hs hsize
    rw [Cursor.run_remaining_of_size hsize] at hask
    obtain ⟨hr, rfl⟩ := Prod.mk.inj hask
    obtain rfl := Value.number.inj (Except.ok.inj hr)
    have hkept := hR.keeps.size s hs
    rw [hsize] at hkept
    obtain ⟨row, hrow⟩ := CursorOp.exists_readRow_of_run_ok reads hrun
    obtain ⟨rfl, given⟩ := EntryReader.readRow_eq_ok_iff.1 hrow
    rw [htotal]
    exact hlater.totalSize_le_of_gives (htotal ▸ total.toNat_lt) hkept given

end Reader.Bounded

/-! ## All of it -/

namespace Cursor

/-- **What remains foretells reads.**  Over memory, and over an open file that is as long as it was,
the number of remaining bytes decides every operation that reads.  Over a file that has changed,
also between the question and the read, and over any reader that goes by a fixed size and gives
nothing past it, what is read was told to remain. -/
theorem remaining_foretells :
    (∀ (files : FileSystem) (source : Source) (medium : Medium) (data : Bytes),
      source.Holds files medium data.size data →
        ∀ cursor, ∃ r, Foretells (Source.reader files) (cursor, source) r) ∧
    (∀ (files later : FileSystem) (source : Source) (medium : Medium) (length : ℕ) (data : Bytes),
      source.Holds files medium length data →
        ∀ cursor, WithinRemaining (Source.reader files) (Source.reader later) (cursor, source)) ∧
    ∀ (σ : Type) (R : Reader σ) (P : σ → Prop) (limit : ℕ), R.Bounded P limit →
      ∀ s, P s → ∀ cursor, WithinRemaining R R (cursor, s) :=
  ⟨fun _ _ _ _ h cursor => ⟨_, h.foretells cursor⟩,
    fun files later source _ _ _ h =>
      (h.bounded files).withinRemaining (h.bounded later) (.refl source),
    fun _ _ _ _ hR _ hs => hR.withinRemaining hR hs⟩

/-- At position 4 of a file of ten bytes six remain: the tag and the type of an entry are read, and
of its count two bytes are left.  The file may shrink before the read, or a reader give three bytes
at most, and still no more is read than remained. -/
theorem remaining_foretells_six :
    let files := FileSystem.empty.writeFile "a.tif" (Array.replicate 10 7)
    let shrunk := files.writeFile "a.tif" (Array.replicate 6 8)
    let source : Source := .file (FileReader.ofPath files "a.tif")
    let faulty : FaultyReader := { bytes := Array.replicate 10 7, longestView := 3 }
    let cursor : Cursor := { order := .big, position := 4 }
    source.Holds files .file (files.bytes 0).size (files.bytes 0) ∧
      Foretells (Source.reader files) (cursor, source) 6 ∧
      ((CursorOp.readEntry .classic).run (Source.reader files) (cursor, source)).2.1.position = 8 ∧
      WithinRemaining (Source.reader files) (Source.reader shrunk) (cursor, source) ∧
      ((CursorOp.readWord .u16).run (Source.reader shrunk) (cursor, source)).1.isOk ∧
      WithinRemaining FaultyReader.reader FaultyReader.reader (cursor, faulty) ∧
      ((CursorOp.readWord .u16).run FaultyReader.reader (cursor, faulty)).1.isOk := by
  intro files shrunk source faulty cursor
  obtain ⟨hforetold, hchanged, hbounded⟩ := remaining_foretells
  have hholds : source.Holds files .file (files.bytes 0).size (files.bytes 0) :=
    .file (by decide +kernel)
  obtain ⟨r, hr⟩ := hforetold files source .file (files.bytes 0) hholds cursor
  have htold : (CursorOp.remaining.run (Source.reader files) (cursor, source)).1 =
      .ok (.number 6) := by decide +kernel
  obtain rfl := Value.number.inj (Except.ok.inj (htold.symm.trans hr.told))
  exact ⟨hholds, hr, by decide +kernel,
    hchanged files shrunk source .file _ (files.bytes 0) hholds cursor, by decide +kernel,
    hbounded FaultyReader FaultyReader.reader _ _ (FaultyReader.bounded (by decide)) faulty rfl
      cursor,
    by decide +kernel⟩

end Cursor

end TiffDirectory
