import Mathlib
import TiffDirectory.Proofs.HeldBytes

/-!
# Proofs/FilledReads — reads that have to be filled agree with those that need not be

Memory and files are read in two ways: a read gives what there is, and a filled read gives all that
was asked for or nothing.  The two check their bounds at different moments, one by cutting and the
other by refusing, and yet **the second goes as the first does** (`Source.FillsAs`), whatever the
reader is and whatever became of its file.  A filled read that lies within the length of the data is
refused only where a file has become shorter (`Source.readFull_of_live`).
-/

namespace TiffDirectory

/-- The source holds a file that is shorter now than it was when it was opened. -/
def Ledger.Shortened (ledger : Ledger) (i : ℕ) (files : FileSystem) : Prop :=
  ∃ opening contents, ledger.opening? i = some opening ∧
    opening.files.find? opening.path = some (.file contents) ∧
    (files.bytes contents).size < opening.length

/-- A filled read delivers a view that is long enough, and nothing else. -/
theorem Result.filled_eq_ok_iff {path : String} {length offset size : ℕ} {given : Result Bytes}
    {delivered : Bytes} :
    given.filled path length offset size = .ok delivered ↔
      given = .ok delivered ∧ size ≤ delivered.size := by
  rcases given with e | view
  · simp [filled]
  · rw [filled]
    split
    next hwhole =>
      refine ⟨?_, And.left⟩
      rintro ⟨⟩
      exact ⟨rfl, hwhole⟩
    next hshort =>
      constructor
      · intro hfilled
        split at hfilled <;> cases hfilled
      · rintro ⟨⟨⟩, hwhole⟩
        exact absurd hwhole hshort

namespace Source

/-- **How a read goes that has to be filled**, by what the same read gives that need not be, and by
what the source tells of its size.  A view that is as long as asked for is delivered, and a failure
is the same failure.  A shorter view is reported: the read reached beyond the size, or else this
takes a file that became shorter. -/
structure FillsAs (offset size : ℕ) (total : Result UInt64) (path : String) (Shortened : Prop)
    (given filled : Result Bytes) : Prop where
  ok_iff (delivered : Bytes) :
    filled = .ok delivered ↔ given = .ok delivered ∧ delivered.size = size
  error {e : Error} : given = .error e → filled = .error e
  short {view : Bytes} : given = .ok view → view.size < size →
    ∃ length e, total = .ok length ∧ filled = .error e ∧
      (length.toNat < offset + size → e.code = .unexpectedEndOfFile ∧
        e.message = s!"Incomplete read at offset {offset}") ∧
      (offset + size ≤ length.toNat → e.code = .readError ∧
        e.message = "Failed to read from file: " ++ path ∧ Shortened)

variable {files : FileSystem} {source : Source} {medium : Medium} {length : ℕ} {data : Bytes}
  {offset : UInt64} {size : ℕ} {Shortened : Prop}

/-- No view is longer than asked for, and one that is shorter than the length and the size allow has
met the end of the data. -/
theorem Holds.size_of_read (h : source.Holds files medium length data) {view : Bytes}
    (hread : ((reader files).read offset size source).1 = .ok view) :
    view.size ≤ size ∧ (view.size < size → offset.toNat + size ≤ length → data.size < length) := by
  rw [h.read_fst] at hread
  have hlt : offset.toNat < length := by
    by_contra hge
    rw [Bytes.clipTo_of_le (Nat.not_lt.1 hge)] at hread
    cases hread
  obtain ⟨found, hclip, hsize, -⟩ := Bytes.exists_clipTo_eq_ok hlt medium data size
  obtain rfl := Except.ok.inj (hclip.symm.trans hread)
  omega

/-- **A filled read goes as the read does that it is made from**, if the views of that one are not
too long and a view cut within the length takes a shorter file. -/
theorem fillsAs_filled {total : UInt64} {offset : ℕ} {path : String} {given : Result Bytes}
    (htotal : total.toNat = length) (hsize : ∀ view, given = .ok view → view.size ≤ size)
    (hcut : ∀ view, given = .ok view → view.size < size → offset + size ≤ length → Shortened) :
    FillsAs offset size (.ok total) path Shortened given
      (given.filled path length offset size) where
  ok_iff delivered := by
    rw [Result.filled_eq_ok_iff]
    refine and_congr_right fun hgiven => ⟨?_, Eq.ge⟩
    exact Nat.le_antisymm (hsize delivered hgiven)
  error := by
    rintro e rfl
    rfl
  short := by
    rintro view rfl hshort
    subst htotal
    refine ⟨total, ?_⟩
    rw [Result.filled, if_neg (Nat.not_le.2 hshort)]
    by_cases hbeyond : total.toNat < offset + size
    · rw [if_pos hbeyond]
      exact ⟨_, rfl, rfl, fun _ => ⟨rfl, rfl⟩, fun hle => absurd hbeyond (Nat.not_lt.2 hle)⟩
    · rw [if_neg hbeyond]
      exact ⟨_, rfl, rfl, fun hlt => absurd hlt hbeyond,
        fun hle => ⟨rfl, rfl, hcut view rfl hshort hle⟩⟩

theorem Holds.fillsAs (h : source.Holds files medium length data)
    (hshortened : data.size < length → Shortened) (offset : UInt64) (size : ℕ) :
    FillsAs offset.toNat size ((reader files).size source).1 source.path Shortened
      ((reader files).read offset size source).1
      ((reader files).readFull offset size source).1 := by
  rw [h.readFull_fst_eq_filled, h.size_fst]
  refine fillsAs_filled (UInt64.toNat_ofNat_of_lt' h.length_lt) (fun view hread => ?_)
    (fun view hread hshort hle => ?_)
  · exact (h.size_of_read hread).1
  · exact hshortened ((h.size_of_read hread).2 hshort hle)

/-- A closed reader refuses both. -/
theorem fillsAs_of_closed {state : FileReader} (hclosed : state.isOpen = false)
    (files : FileSystem) (offset : UInt64) (size : ℕ) :
    FillsAs offset.toNat size ((reader files).size (.file state)).1 state.path Shortened
      ((reader files).read offset size (.file state)).1
      ((reader files).readFull offset size (.file state)).1 := by
  rw [read_file, readFull_file, FileReader.read_of_closed hclosed,
    FileReader.readFull_of_closed hclosed]
  exact ⟨fun _ => ⟨nofun, nofun⟩, id, nofun⟩

/-- **What memory gives**, computed on numbers that do not wrap around. -/
theorem read_cut_of_memory? (hsource : source.memory? = some data) (offset : UInt64) (size : ℕ) :
    let given := ((reader files).read offset size source).1
    ((∃ e, given = .error e ∧ e.code = .outOfBounds) ↔ data.size ≤ offset.toNat) ∧
      (offset.toNat < data.size →
        given = .ok (data.extract offset.toNat (min (offset.toNat + size) data.size))) := by
  intro given
  have hgiven : given = data.clip .buffer offset.toNat size :=
    congrArg Prod.fst (read_of_memory? hsource offset size)
  rw [hgiven]
  refine ⟨⟨?_, fun hle => ⟨_, if_pos hle, rfl⟩⟩, fun hlt => ?_⟩
  · rintro ⟨e, hclip, -⟩
    exact (Bytes.clip_eq_error_iff.1 hclip).1
  · rw [Bytes.clip, if_neg (Nat.not_le.2 hlt)]
    exact congrArg Except.ok (Array.extract_eq_extract_right.2 (by omega))

/-- **Filled reads agree with reads**, after any history and on whatever files there are now, for
memory of any bytes and for a reader of a file, be it closed, open on a file that stayed as it was,
or on one that has become shorter or longer.  Memory gives the bytes from the offset on as far as
they exist, and fails if there are none. -/
theorem readFull_of_live {history : List Moment} {session : Session}
    (hlive : Session.live {} history = some session) {i : ℕ}
    (hsource : session.sources[i]? = some source) (hkind : ∀ state, source ≠ .faulty state)
    (hsmall : ∀ data, source.memory? = some data → data.size < 2 ^ 64) (files : FileSystem)
    (offset : UInt64) (size : ℕ) :
    let given := ((reader files).read offset size source).1
    let filled := ((reader files).readFull offset size source).1
    let Shortened := (∃ state, source = .file state) ∧
      (Ledger.ofHistory history).Shortened i files
    FillsAs offset.toNat size ((reader files).size source).1 source.path Shortened given filled ∧
      ∀ data, source.memory? = some data →
        ((∃ e, given = .error e ∧ e.code = .outOfBounds) ↔ data.size ≤ offset.toNat) ∧
          (offset.toNat < data.size →
            given = .ok (data.extract offset.toNat (min (offset.toNat + size) data.size))) := by
  intro given filled Shortened
  refine ⟨?_, fun data hshown => read_cut_of_memory? hshown offset size⟩
  have hmemory : ∀ data, source.memory? = some data →
      FillsAs offset.toNat size ((reader files).size source).1 source.path Shortened given filled :=
    fun data hshown => (Holds.memory hshown (hsmall data hshown)).fillsAs
      (fun hlt => absurd hlt (Nat.lt_irrefl _)) offset size
  cases source with
  | view v => exact hmemory _ rfl
  | buffer b => exact hmemory _ rfl
  | file state =>
    have hagrees := (Session.agrees_of_live hlive).of_file? (Session.file?_eq_some_iff.2 hsource)
    generalize hheld : (Ledger.ofHistory history).opening? i = held at hagrees
    cases hagrees with
    | closed stream _ =>
      exact fillsAs_of_closed (FileReader.isOpen_eq_false_iff.2 stream) files offset size
    | @opened opening contents found stream total path =>
      refine (Holds.file stream).fillsAs (fun hlt => ?_) offset size
      rw [total, opening.toNat_ofNat_length] at hlt
      exact ⟨⟨state, rfl⟩, opening, contents, hheld, found, hlt⟩
  | faulty state => exact absurd rfl (hkind state)

/-- A file of ten bytes is opened and rewritten with four.  A read of five bytes from offset two is
given two, and the filled read is refused although it lies within the ten; one that goes beyond them
is refused for that. -/
theorem readFull_of_live_shrunk :
    let files := FileSystem.empty.writeFile "a.tif" (Array.replicate 10 7)
    let shrunk := files.writeFile "a.tif" #[1, 2, 3, 4]
    let history : List Moment := [{ files, action := .createFile "a.tif" }]
    let source : Source := .file (.ofPath files "a.tif")
    let filled (offset : UInt64) := ((reader shrunk).readFull offset 5 source).1
    ∃ session, Session.live {} history = some session ∧ session.sources[0]? = some source ∧
      (∀ state, source ≠ .faulty state) ∧
      (∀ data, source.memory? = some data → data.size < 2 ^ 64) ∧
      ((reader shrunk).read 2 5 source).1 = .ok #[3, 4] ∧
      (∃ e, filled 2 = .error e ∧ e.code = .readError ∧
        e.message = "Failed to read from file: a.tif" ∧
        (Ledger.ofHistory history).Shortened 0 shrunk) ∧
      ∃ e, filled 8 = .error e ∧ e.code = .unexpectedEndOfFile ∧
        e.message = "Incomplete read at offset 8" := by
  intro files shrunk history source filled
  let session : Session := { files, sources := #[source] }
  have hlive : Session.live {} history = some session := rfl
  have hsource : session.sources[0]? = some source := rfl
  have hkind : ∀ state, source ≠ .faulty state := fun state => Source.noConfusion
  have hmemory : ∀ data, source.memory? = some data → data.size < 2 ^ 64 := nofun
  have hfills := readFull_of_live hlive hsource hkind hmemory shrunk
  have hsize : ((reader shrunk).size source).1 = .ok 10 := by decide +kernel
  have hread : ((reader shrunk).read 2 5 source).1 = .ok #[3, 4] := by decide +kernel
  have hpast : ((reader shrunk).read 8 5 source).1 = .ok #[] := by decide +kernel
  obtain ⟨length, e, hlength, hwithin, -, hshortened⟩ := (hfills 2 5).1.short hread (by decide)
  obtain ⟨length', e', hlength', hbeyond, hincomplete, -⟩ := (hfills 8 5).1.short hpast (by decide)
  obtain rfl := Except.ok.inj (hsize.symm.trans hlength)
  obtain rfl := Except.ok.inj (hsize.symm.trans hlength')
  obtain ⟨hcode, hmessage, -, hheld⟩ := hshortened (by decide)
  obtain ⟨hcode', hmessage'⟩ := hincomplete (by decide)
  have hpath : "Failed to read from file: " ++ source.path = "Failed to read from file: a.tif" := by
    decide +kernel
  exact ⟨session, hlive, hsource, hkind, hmemory, hread,
    ⟨e, hwithin, hcode, hmessage.trans hpath, hheld⟩, e', hbeyond, hcode', hmessage'⟩

end Source

end TiffDirectory
