import Mathlib
import TiffDirectory.Cursor
import TiffDirectory.Proofs.Layout
import TiffDirectory.Proofs.StoredForms
import TiffDirectory.Reader.Faulty

/-!
# Proofs/Traffic — the read calls that decoding makes

A cursor turns each field into **one read call at its position**.  What a reader does with such
calls is described by two relations, in the manner of `Gives` and `Fails` one level up:

* `Serves` — every span is read by one call, and the view is at least as long as the span;
* `Refuses` — the call for a span fails, or its view is too short.

`Cursor.serves_of_gives` and `Cursor.refuses_of_fails` carry a row of fields down to the calls.
The reader may be an adversary that remembers all calls; the only thing asked of it is that its
views end before the numbers of 64 bits do (`ViewsWithin`), so that no position wraps around.
-/

namespace TiffDirectory

variable {σ : Type}

/-- A field is filled from a view: what fills it is stored as the first bytes of the view. -/
def FilledField.FromView (order : ByteOrder) (filled : FilledField) (view : Bytes) : Prop :=
  filled.stored order = view.extract 0 filled.field.size

namespace Reader

/-! ## What a reader does with read calls -/

/-- The states that a reader can be in after read calls that start from a given state. -/
inductive After (R : Reader σ) (s : σ) : σ → Prop
  | start : After R s s
  | read {t : σ} (before : After R s t) (offset : UInt64) (size : ℕ) :
      After R s (R.read offset size t).2

/-- Whatever is read from a state on, no view reaches past the first `limit` bytes, unless it is
empty. -/
def ViewsWithin (R : Reader σ) (s : σ) (limit : ℕ) : Prop :=
  ∀ t, R.After s t → ∀ offset size view u, R.read offset size t = (.ok view, u) →
    view.size ≠ 0 → offset.toNat + view.size ≤ limit

/-- The reader is asked for spans one after the other, and the view of each is long enough. -/
inductive Serves (R : Reader σ) : σ → List Span → List Bytes → σ → Prop
  | nil (s : σ) : Serves R s [] [] s
  | cons {s t u : σ} {span : Span} {rest : List Span} {view : Bytes} {views : List Bytes}
      {offset : UInt64} (at_start : offset.toNat = span.start)
      (head : R.read offset span.width s = (.ok view, t)) (long : span.width ≤ view.size)
      (tail : Serves R t rest views u) : Serves R s (span :: rest) (view :: views) u

/-- Asked for a span, the reader fails, or gives a view that is too short, of which `e` is then the
report. -/
def Refuses (R : Reader σ) (s : σ) (span : Span) (e : Error) (t : σ) : Prop :=
  ∃ offset : UInt64, offset.toNat = span.start ∧
    (R.read offset span.width s = (.error e, t) ∨
      ∃ view, R.read offset span.width s = (.ok view, t) ∧ view.size < span.width ∧
        e = .truncatedField span.start span.width view.size)

variable {R : Reader σ} {s t u : σ} {limit : ℕ}

theorem After.trans (first : R.After s t) (second : R.After t u) : R.After s u := by
  induction second with
  | start => exact first
  | read _ offset size ih => exact ih.read offset size

theorem After.of_read {offset : UInt64} {size : ℕ} {reply : Result Bytes}
    (h : R.read offset size s = (reply, t)) : R.After s t := by
  have hread := After.start (R := R) (s := s) |>.read offset size
  rwa [h] at hread

theorem ViewsWithin.after (h : R.ViewsWithin s limit) (hst : R.After s t) :
    R.ViewsWithin t limit :=
  fun _ hafter => h _ (hst.trans hafter)

theorem Serves.after {spans : List Span} {views : List Bytes} (h : R.Serves s spans views t) :
    R.After s t := by
  induction h with
  | nil => exact .start
  | cons _ head _ _ ih => exact (After.of_read head).trans ih

theorem Refuses.after {span : Span} {e : Error} (h : R.Refuses s span e t) : R.After s t := by
  obtain ⟨_, -, hread | ⟨_, hread, -, -⟩⟩ := h
  · exact .of_read hread
  · exact .of_read hread

/-- The view of a span that is not empty ends where the span does, or later, and so within the
limit. -/
theorem ViewsWithin.le_of_read (h : R.ViewsWithin s limit) {offset : UInt64} {width : ℕ}
    {view : Bytes} (hread : R.read offset width s = (.ok view, t)) (long : width ≤ view.size)
    (hpos : 0 < width) : offset.toNat + width ≤ limit := by
  have hwithin := h s .start offset width view t hread (by omega)
  omega

end Reader

namespace Cursor

variable {R : Reader σ} {cursor after : Cursor} {s t : σ} {field : EntryField} {e : Error}

/-! ## One field -/

theorem toNat_position_advance (cursor : Cursor) {n : ℕ}
    (h : cursor.position.toNat + n < 2 ^ 64) :
    (cursor.advance n).position.toNat = cursor.position.toNat + n := by
  have hlt : n < 2 ^ 64 := by omega
  have hn : (UInt64.ofNat n).toNat = n := UInt64.toNat_ofNat_of_lt' hlt
  rw [advance, UInt64.toNat_add, hn, Nat.mod_eq_of_lt h]

@[simp] theorem readField_word (R : Reader σ) (w : Width) :
    (entryReader R).readField (.word w) = readWord R w := rfl

@[simp] theorem readField_bytes (R : Reader σ) (n : ℕ) :
    (entryReader R).readField (.bytes n) = readBytes R n := rfl

/-- An integer is made of its bytes, in the order of the cursor. -/
theorem readWord_of_order {order : ByteOrder} {x : Cursor × σ} (h : x.1.order = order)
    (w : Width) : readWord R w x = (Word.ofBytes order <$> takeExact R w.bytes) x := by
  subst h
  rfl

/-- **A view that is long enough fills the field with its first bytes**, and the cursor moves on by
the size of the field. -/
theorem readField_of_view (hpos : 0 < field.size) {view : Bytes}
    (hread : R.read cursor.position field.size s = (.ok view, t)) (long : field.size ≤ view.size) :
    ∃ content, (entryReader R).readField field (cursor, s) =
        (.ok content, (cursor.advance field.size, t)) ∧
      FilledField.FromView cursor.order ⟨field, content⟩ view := by
  obtain ⟨first, hfirst⟩ : ∃ first, view.first? field.size = some first :=
    Option.ne_none_iff_exists'.1 fun h => absurd (Bytes.first?_eq_none_iff.1 h) (by omega)
  have htake := takeExact_of_ok hread hfirst
  have hbytes := (Bytes.first?_eq_some_iff.1 hfirst).1
  cases field with
  | word w =>
    refine ⟨.ofBytes cursor.order first, ?_, ?_⟩
    · rw [readField_word, readWord_of_order rfl]
      exact ReadM.map_eq_ok_iff.2 ⟨first, htake, rfl⟩
    · rw [FilledField.FromView, ← hbytes]
      exact congrArg Vector.toArray (Word.toBytes_ofBytes cursor.order first)
  | bytes n =>
    refine ⟨first, ?_, hbytes⟩
    rw [readField_bytes, readBytes_of_pos R (n := n) hpos]
    exact htake

/-- **A refused call is the failure of the field**, and the cursor stays. -/
theorem readField_of_refuses (hpos : 0 < field.size)
    (h : R.Refuses s ⟨cursor.position.toNat, field.size⟩ e t) :
    (entryReader R).readField field (cursor, s) = (.error e, (cursor, t)) := by
  obtain ⟨offset, hoffset, hreply⟩ := h
  obtain rfl := UInt64.toNat_inj.1 hoffset
  have htake : takeExact R field.size (cursor, s) = (.error e, (cursor, t)) := by
    rcases hreply with hread | ⟨view, hread, hshort, rfl⟩
    · exact takeExact_of_error hread
    · exact takeExact_of_short hread hshort
  cases field with
  | word w =>
    rw [readField_word, readWord_of_order rfl]
    exact ReadM.map_eq_error_iff.2 htake
  | bytes n =>
    rw [readField_bytes, readBytes_of_pos R (n := n) hpos]
    exact htake

/-- The reply to the call for a field is one of the two. -/
theorem view_or_refuses (R : Reader σ) (cursor : Cursor) (s : σ) (width : ℕ) :
    (∃ view t, R.read cursor.position width s = (.ok view, t) ∧ width ≤ view.size) ∨
      ∃ e t, R.Refuses s ⟨cursor.position.toNat, width⟩ e t := by
  rcases hread : R.read cursor.position width s with ⟨e | view, t⟩
  · exact Or.inr ⟨e, t, cursor.position, rfl, Or.inl hread⟩
  · rcases Nat.lt_or_ge view.size width with hshort | long
    · exact Or.inr ⟨_, t, cursor.position, rfl, Or.inr ⟨view, hread, hshort, rfl⟩⟩
    · exact Or.inl ⟨view, t, rfl, long⟩

theorem view_of_readField_eq_ok (hpos : 0 < field.size) {content : field.Content}
    (h : (entryReader R).readField field (cursor, s) = (.ok content, (after, t))) :
    ∃ view, R.read cursor.position field.size s = (.ok view, t) ∧ field.size ≤ view.size ∧
      after = cursor.advance field.size ∧
      FilledField.FromView cursor.order ⟨field, content⟩ view := by
  rcases view_or_refuses R cursor s field.size with ⟨view, u, hread, long⟩ | ⟨e, u, hrefuses⟩
  · obtain ⟨found, hfound, hview⟩ := readField_of_view hpos hread long
    rw [hfound, Prod.mk.injEq, Except.ok.injEq, Prod.mk.injEq] at h
    obtain ⟨rfl, rfl, rfl⟩ := h
    exact ⟨view, hread, long, rfl, hview⟩
  · rw [readField_of_refuses hpos hrefuses] at h
    cases h

theorem refuses_of_readField_eq_error (hpos : 0 < field.size)
    (h : (entryReader R).readField field (cursor, s) = (.error e, (after, t))) :
    after = cursor ∧ R.Refuses s ⟨cursor.position.toNat, field.size⟩ e t := by
  rcases view_or_refuses R cursor s field.size with ⟨view, u, hread, long⟩ | ⟨d, u, hrefuses⟩
  · obtain ⟨found, hfound, -⟩ := readField_of_view hpos hread long
    rw [hfound] at h
    cases h
  · rw [readField_of_refuses hpos hrefuses, Prod.mk.injEq, Except.error.injEq,
      Prod.mk.injEq] at h
    obtain ⟨rfl, rfl, rfl⟩ := h
    exact ⟨rfl, hrefuses⟩

/-! ## Rows of fields -/

variable {limit : ℕ}

/-- **A row of fields that is given was served span by span**, and the cursor has moved over it. -/
theorem serves_of_gives {row : List FilledField} (hlimit : limit < 2 ^ 64)
    (hviews : R.ViewsWithin s limit) (hrow : ∀ filled ∈ row, 0 < filled.field.size)
    (h : (entryReader R).Gives (cursor, s) row (after, t)) :
    after.order = cursor.order ∧
      after.position.toNat =
        cursor.position.toNat + EntryField.totalSize (row.map FilledField.field) ∧
      ∃ views, R.Serves s (layout cursor.position.toNat (row.map FilledField.field)) views t ∧
        List.Forall₂ (FilledField.FromView cursor.order) row views := by
  induction row generalizing cursor s with
  | nil =>
    obtain ⟨rfl, rfl⟩ := Prod.mk.inj (EntryReader.gives_nil_iff.1 h)
    exact ⟨rfl, rfl, [], .nil _, .nil⟩
  | cons filled rest ih =>
    obtain ⟨field, content⟩ := filled
    obtain ⟨⟨next, u⟩, head, tail⟩ := EntryReader.gives_cons_iff.1 h
    have hpos : 0 < field.size := hrow _ List.mem_cons_self
    obtain ⟨view, hread, long, rfl, hview⟩ := view_of_readField_eq_ok hpos head
    have hfits := hviews.le_of_read hread long hpos
    have hnext := toNat_position_advance cursor (n := field.size) (by omega)
    obtain ⟨horder, hposition, views, hserves, hrest⟩ := ih (hviews.after (.of_read hread))
      (fun x hx => hrow x (List.mem_cons_of_mem _ hx)) tail
    rw [hnext] at hposition hserves
    refine ⟨horder, ?_, view :: views, .cons rfl hread long hserves, .cons hview hrest⟩
    rw [hposition, List.map_cons, EntryField.totalSize_cons, Nat.add_assoc]

/-- **A row of fields fails at a span that is refused**, all those before it having been served;
there the cursor stays. -/
theorem refuses_of_fails {fields : List EntryField} (hlimit : limit < 2 ^ 64)
    (hviews : R.ViewsWithin s limit) (hfields : ∀ field ∈ fields, 0 < field.size)
    (h : (entryReader R).Fails (cursor, s) fields e (after, t)) :
    after.order = cursor.order ∧
      ∃ before span rest views u, layout cursor.position.toNat fields = before ++ span :: rest ∧
        R.Serves s before views u ∧ R.Refuses u span e t ∧ after.position.toNat = span.start := by
  induction fields generalizing cursor s with
  | nil => exact absurd h EntryReader.not_fails_nil
  | cons field fields ih =>
    have hpos : 0 < field.size := hfields _ List.mem_cons_self
    rcases EntryReader.fails_cons_iff.1 h with head | ⟨content, ⟨next, r⟩, head, tail⟩
    · obtain ⟨rfl, hrefuses⟩ := refuses_of_readField_eq_error hpos head
      exact ⟨rfl, [], _, _, [], s, rfl, .nil s, hrefuses, rfl⟩
    · obtain ⟨view, hread, long, rfl, -⟩ := view_of_readField_eq_ok hpos head
      have hfits := hviews.le_of_read hread long hpos
      have hnext := toNat_position_advance cursor (n := field.size) (by omega)
      obtain ⟨horder, before, span, rest, views, u, hlayout, hserves, hrefuses, hstart⟩ :=
        ih (hviews.after (.of_read hread)) (fun x hx => hfields x (List.mem_cons_of_mem _ hx)) tail
      rw [hnext] at hlayout
      refine ⟨horder, ⟨cursor.position.toNat, field.size⟩ :: before, span, rest, view :: views, u,
        ?_, .cons rfl hread long hserves, hrefuses, hstart⟩
      rw [layout, hlayout, List.cons_append]

/-! ## Runs of entries -/

variable {f : Format} {n : ℕ}

theorem serves_of_readEntries_eq_ok {entries : Array (Entry f)} (hlimit : limit < 2 ^ 64)
    (hviews : R.ViewsWithin s limit)
    (h : (entryReader R).readEntries f n (cursor, s) = (.ok entries, (after, t))) :
    entries.size = n ∧ after.order = cursor.order ∧
      after.position.toNat = cursor.position.toNat + n * f.entrySize ∧
      ∃ views, R.Serves s (f.schedule cursor.position.toNat n) views t ∧
        List.Forall₂ (FilledField.FromView cursor.order) (filledRow entries.toList) views := by
  obtain ⟨hsize, given⟩ := EntryReader.readEntries_eq_ok_iff.1 h
  have hrow := map_field_filledRow entries.toList
  rw [Array.length_toList, hsize] at hrow
  have hpos : ∀ filled ∈ filledRow entries.toList, 0 < filled.field.size := fun filled hfilled =>
    Format.size_pos_of_mem_rowFields (hrow ▸ List.mem_map_of_mem hfilled)
  have hserves := serves_of_gives hlimit hviews hpos given
  rw [hrow, Format.totalSize_rowFields] at hserves
  exact ⟨hsize, hserves⟩

theorem refuses_of_readEntries_eq_error (hlimit : limit < 2 ^ 64)
    (hviews : R.ViewsWithin s limit)
    (h : (entryReader R).readEntries f n (cursor, s) = (.error e, (after, t))) :
    after.order = cursor.order ∧
      ∃ before span rest views u,
        f.schedule cursor.position.toNat n = before ++ span :: rest ∧
        R.Serves s before views u ∧ R.Refuses u span e t ∧ after.position.toNat = span.start :=
  refuses_of_fails hlimit hviews (fun _ hfield => Format.size_pos_of_mem_rowFields hfield)
    (EntryReader.readEntries_eq_error_iff.1 h)

/-- What a run leaves is what its read calls leave. -/
theorem after_of_readEntries {result : Result (Array (Entry f))} (hlimit : limit < 2 ^ 64)
    (hviews : R.ViewsWithin s limit)
    (h : (entryReader R).readEntries f n (cursor, s) = (result, (after, t))) : R.After s t := by
  cases result with
  | ok entries =>
    obtain ⟨-, -, -, views, hserves, -⟩ := serves_of_readEntries_eq_ok hlimit hviews h
    exact hserves.after
  | error e =>
    obtain ⟨-, before, span, rest, views, u, -, hserves, hrefuses, -⟩ :=
      refuses_of_readEntries_eq_error hlimit hviews h
    exact hserves.after.trans hrefuses.after

end Cursor

/-! ## The record of a run

A recorded reader replies as the reader does, and its record grows by one call for each span. -/

/-- The span that a read call asks for. -/
def ReadCall.span (call : ReadCall) : Span := ⟨call.offset.toNat, call.size⟩

namespace Reader

variable {R : Reader σ} {limit : ℕ}

theorem after_of_recorded {s t : Recorded ReadCall σ} (h : R.recorded.After s t) :
    R.After s.source t.source := by
  induction h with
  | start => exact .start
  | read _ offset size ih => exact ih.read offset size

theorem read_of_recorded {offset : UInt64} {size : ℕ} {s t : Recorded ReadCall σ}
    {reply : Result Bytes} (h : R.recorded.read offset size s = (reply, t)) :
    R.read offset size s.source = (reply, t.source) ∧ t.calls = s.calls.push ⟨offset, size⟩ := by
  have hrecord : R.recorded.read offset size s = ((R.read offset size s.source).1,
    ⟨(R.read offset size s.source).2, s.calls.push ⟨offset, size⟩⟩) := rfl
  rw [hrecord, Prod.mk.injEq] at h
  obtain ⟨rfl, rfl⟩ := h
  exact ⟨rfl, rfl⟩

theorem ViewsWithin.recorded {s : σ} (h : R.ViewsWithin s limit) (calls : Array ReadCall) :
    R.recorded.ViewsWithin ⟨s, calls⟩ limit :=
  fun t hafter _ _ _ _ hread =>
    h t.source (after_of_recorded hafter) _ _ _ _ (read_of_recorded hread).1

/-- **Spans that are served are the calls on the record.** -/
theorem Serves.of_recorded {s t : Recorded ReadCall σ} {spans : List Span} {views : List Bytes}
    (h : R.recorded.Serves s spans views t) :
    R.Serves s.source spans views t.source ∧
      t.calls.toList.map ReadCall.span = s.calls.toList.map ReadCall.span ++ spans := by
  induction h with
  | nil s => exact ⟨.nil _, (List.append_nil _).symm⟩
  | cons at_start head long _ ih =>
    obtain ⟨hread, hcalls⟩ := read_of_recorded head
    obtain ⟨hserves, hrecord⟩ := ih
    refine ⟨.cons at_start hread long hserves, ?_⟩
    rw [hrecord, hcalls, Array.toList_push, List.map_append, List.append_assoc, List.map_singleton,
      ReadCall.span, at_start, List.singleton_append]

/-- **How decoding a run of entries goes**: the calls it makes, its result, the position it ends
at and the state it leaves the reader in, for the `n` entries stored from position `p` on. -/
inductive EntryTraffic (R : Reader σ) (s : σ) (order : ByteOrder) (f : Format) (p n : ℕ) :
    (calls : List Span) → (result : Result (Array (Entry f))) → (position : ℕ) → (left : σ) → Prop
  /-- every span is served, and the fields of the entries are the first bytes of the views -/
  | complete {views : List Bytes} {t : σ} {entries : Array (Entry f)}
      (serves : R.Serves s (f.schedule p n) views t) (size : entries.size = n)
      (fields : List.Forall₂ (FilledField.FromView order) (filledRow entries.toList) views) :
      EntryTraffic R s order f p n (f.schedule p n) (.ok entries) (p + n * f.entrySize) t
  /-- the reader fails at a span, and its error is the result -/
  | failed {before rest : List Span} {span : Span} {views : List Bytes} {t u : σ} {e : Error}
      {offset : UInt64} (split : f.schedule p n = before ++ span :: rest)
      (serves : R.Serves s before views t) (at_start : offset.toNat = span.start)
      (reply : R.read offset span.width t = (.error e, u)) :
      EntryTraffic R s order f p n (before ++ [span]) (.error e) span.start u
  /-- the view of a span is too short, which the error tells with all its numbers -/
  | short {before rest : List Span} {span : Span} {views : List Bytes} {t u : σ} {e : Error}
      {offset : UInt64} {view : Bytes} (split : f.schedule p n = before ++ span :: rest)
      (serves : R.Serves s before views t) (at_start : offset.toNat = span.start)
      (reply : R.read offset span.width t = (.ok view, u)) (short : view.size < span.width)
      (code : e.code = .unexpectedEndOfFile)
      (message : e.message =
        s!"Incomplete read at offset {span.start}: expected {span.width} bytes, got {view.size}") :
      EntryTraffic R s order f p n (before ++ [span]) (.error e) span.start u

end Reader

/-- **A run that can keep its entries makes exactly the calls of its schedule, up to the first that
is not served.** -/
theorem Cursor.entryTraffic_of_readEntries {R : Reader σ} {s : σ} {limit : ℕ}
    (hlimit : limit < 2 ^ 64) (hviews : R.ViewsWithin s limit) (f : Format) (n : ℕ)
    (cursor : Cursor) :
    let run := (entryReader R.recorded).readEntries f n (cursor, { source := s })
    run.2.1.order = cursor.order ∧
      R.EntryTraffic s cursor.order f cursor.position.toNat n
        (run.2.2.calls.toList.map ReadCall.span) run.1 run.2.1.position.toNat run.2.2.source := by
  intro run
  have hrecorded := hviews.recorded #[]
  rcases h : run with ⟨e | entries, after, left⟩
  · obtain ⟨horder, before, span, rest, views, t, hsplit, hserves, hrefuses, hstart⟩ :=
      refuses_of_readEntries_eq_error hlimit hrecorded h
    obtain ⟨hserves, hrecord⟩ := hserves.of_recorded
    obtain ⟨offset, hoffset, hreply⟩ := hrefuses
    have hcalls : ∀ {reply : Result Bytes}, R.recorded.read offset span.width t = (reply, left) →
        left.calls.toList.map ReadCall.span = before ++ [span] := fun hread => by
      rw [(Reader.read_of_recorded hread).2, Array.toList_push, List.map_append, hrecord,
        List.map_singleton, ReadCall.span, hoffset]
      rfl
    refine ⟨horder, ?_⟩
    dsimp only
    rw [hstart]
    rcases hreply with hread | ⟨view, hread, hshort, rfl⟩
    · rw [hcalls hread]
      exact .failed hsplit hserves hoffset (Reader.read_of_recorded hread).1
    · rw [hcalls hread]
      exact .short hsplit hserves hoffset (Reader.read_of_recorded hread).1 hshort rfl rfl
  · obtain ⟨hsize, horder, hposition, views, hserves, hfields⟩ :=
      serves_of_readEntries_eq_ok hlimit hrecorded h
    obtain ⟨hserves, hrecord⟩ := hserves.of_recorded
    refine ⟨horder, ?_⟩
    dsimp only
    rw [hposition, hrecord]
    exact .complete hserves hsize hfields

/-- **A run of entries makes exactly the calls of its schedule, up to the first that is not
served**, and ends there with the report of that call, or with all entries if there is none.

This is so if the entries can be kept.  Where there is room for fewer, the run makes the calls for
one entry more than that, and ends as they do, or else with the report that there is no storage for
that entry; and it makes no call at all without the storage that is taken beforehand. -/
theorem Cursor.readEntries_traffic (R : Reader σ) (s : σ) {limit : ℕ} (hlimit : limit < 2 ^ 64)
    (hviews : R.ViewsWithin s limit) (f : Format) (n room : ℕ) (cursor : Cursor) :
    let run := (entryReader R.recorded).readEntriesWithin room f n (cursor, { source := s })
    let calls := run.2.2.calls.toList.map ReadCall.span
    let after := run.2.1
    let left := run.2.2.source
    (n ≤ room → after.order = cursor.order ∧
      R.EntryTraffic s cursor.order f cursor.position.toNat n calls run.1 after.position.toNat
        left) ∧
    (room < n → EntryReader.reserveLimit ≤ room → after.order = cursor.order ∧
      ∃ first, run.1.CutShort room first ∧
        R.EntryTraffic s cursor.order f cursor.position.toNat (room + 1) calls first
          after.position.toNat left) ∧
    (room < n → room < EntryReader.reserveLimit →
      run.1.Unstorable 1 ∧ calls = [] ∧ after = cursor ∧ left = s) := by
  intro run calls after left
  refine ⟨fun hroom => ?_, fun hroom hreserved => ?_, fun hroom hreserved => ?_⟩
  · have hrun : run = _ := congrFun ((entryReader R.recorded).readEntriesWithin_of_le f hroom) _
    dsimp only [calls, after, left]
    rw [hrun]
    exact entryTraffic_of_readEntries hlimit hviews f n cursor
  · obtain ⟨hcut, hleft⟩ :=
      (entryReader R.recorded).cutShort_of_lt f hreserved hroom (cursor, { source := s })
    obtain ⟨horder, htraffic⟩ := entryTraffic_of_readEntries hlimit hviews f (room + 1) cursor
    rw [← hleft] at horder htraffic
    exact ⟨horder, _, hcut, htraffic⟩
  · obtain ⟨hunstorable, hleft⟩ := (entryReader R.recorded).unstorable_of_lt_reserve f hroom
      hreserved (cursor, { source := s })
    dsimp only [calls, after, left, run]
    rw [hleft]
    exact ⟨hunstorable, rfl, rfl, rfl⟩

/-! ## A reader with faults

However it fails, and however long its views are, a faulty reader gives no bytes but its own. -/

namespace FaultyReader

theorem bytes_of_after {s t : FaultyReader} (h : reader.After s t) : t.bytes = s.bytes := by
  induction h with
  | start => rfl
  | read _ _ _ ih => exact ih

theorem viewsWithin (s : FaultyReader) : reader.ViewsWithin s s.bytes.size := by
  intro t hafter offset size view u hread hne
  have hview : view = t.view offset size := by
    have hreply : t.reply offset size = .ok view := (Prod.mk.inj hread).1
    unfold reply at hreply
    split at hreply
    · split at hreply <;> cases hreply
      rfl
    · cases hreply
      rfl
  rw [hview, FaultyReader.view, Array.size_extract] at hne ⊢
  rw [bytes_of_after hafter] at hne ⊢
  omega

end FaultyReader

/-- Three entries are asked for and the sixth call fails, amid views longer than asked for: that
call is the last one on the record, and its error the result.  With room for two entries only, not
even the storage that is taken beforehand can be had, and no call is made. -/
theorem Cursor.readEntries_traffic_faulty :
    let s : FaultyReader := {
      bytes := Array.replicate 30 7, readFailure := some (5, .reported .readError "gone"),
      surplus := 3 }
    let cursor : Cursor := { order := .big, position := 1 }
    let E := entryReader FaultyReader.reader.recorded
    let run := E.readEntriesWithin 3 .classic 3 (cursor, { source := s })
    let other := E.readEntriesWithin 2 .classic 3 (cursor, { source := s })
    s.bytes.size < 2 ^ 64 ∧ FaultyReader.reader.ViewsWithin s s.bytes.size ∧
      run.1 = .error (.reported .readError "gone") ∧
      run.2.2.calls.toList.map ReadCall.span =
        [⟨1, 2⟩, ⟨3, 2⟩, ⟨5, 4⟩, ⟨9, 4⟩, ⟨13, 2⟩, ⟨15, 2⟩] ∧
      FaultyReader.reader.EntryTraffic s cursor.order .classic cursor.position.toNat 3
        (run.2.2.calls.toList.map ReadCall.span) run.1 run.2.1.position.toNat run.2.2.source ∧
      other.1.Unstorable 1 ∧ other.2.2.calls.toList.map ReadCall.span = [] := by
  intro s cursor E run other
  have hsize : s.bytes.size < 2 ^ 64 := by decide
  obtain ⟨hkept, -, -⟩ :=
    readEntries_traffic FaultyReader.reader s hsize s.viewsWithin .classic 3 3 cursor
  obtain ⟨-, -, hunreserved⟩ :=
    readEntries_traffic FaultyReader.reader s hsize s.viewsWithin .classic 3 2 cursor
  obtain ⟨-, htraffic⟩ := hkept le_rfl
  obtain ⟨hunstorable, hcalls, -, -⟩ := hunreserved (by decide) (by decide)
  -- The runs stay folded: as definitions they would be evaluated to be compared.
  subst run other E
  exact ⟨hsize, s.viewsWithin, by decide +kernel, by decide +kernel, htraffic, hunstorable, hcalls⟩

end TiffDirectory
