import TiffDirectory.Reader
import TiffDirectory.Word.Swap

/-!
# Reader/Buffer — readers of bytes in memory

Two readers of memory: `BufferView` reads a window of an array that somebody else holds, `Buffer`
an array of its own.  Both answer with **slices** of their bytes (`slice`), and no read changes
them.
-/

namespace TiffDirectory

/-! ## Slices -/

/-- The part of a window that a positioned read gives: `size` bytes from the offset on, or as many
as there are.  **A read that starts at or after the end fails**, even one of no bytes. -/
def slice (window : Subarray UInt8) (offset : UInt64) (size : Nat) : Result Bytes :=
  if window.size ≤ offset.toNat then
    .error (.offsetBeyondEnd .buffer offset.toNat window.size)
  else
    .ok (window.array.extract (window.start + offset.toNat)
      (window.start + offset.toNat + min size (window.size - offset.toNat)))

section Slice

variable {window : Subarray UInt8} {view : Bytes} {offset : UInt64} {size : Nat}

theorem slice_of_size_le (h : window.size ≤ offset.toNat) :
    slice window offset size = .error (.offsetBeyondEnd .buffer offset.toNat window.size) :=
  if_pos h

/-- A slice is cut from the bytes of the window; the array around the window plays no part. -/
theorem slice_of_lt_size (h : offset.toNat < window.size) :
    slice window offset size =
      .ok ((window.array.extract window.start window.stop).extract
        offset.toNat (offset.toNat + size)) := by
  have hstop := window.stop_le_array_size
  rw [Subarray.size_eq] at h
  have hend : window.start + offset.toNat + min size (window.size - offset.toNat)
      = min (window.start + (offset.toNat + size)) window.stop := by
    rw [Subarray.size_eq]
    omega
  rw [slice, if_neg (by rw [Subarray.size_eq]; omega), Array.extract_extract, hend]

/-- A read gives the bytes asked for, as far as they exist. -/
theorem size_of_slice_eq_ok (h : slice window offset size = .ok view) :
    view.size = min size (window.size - offset.toNat) := by
  have hstop := window.stop_le_array_size
  unfold slice at h
  split at h
  · cases h
  · cases h
    rw [Array.size_extract, Subarray.size_eq]
    omega

/-- **No slice reaches past the end of the window.** -/
theorem offset_add_size_le_of_slice_eq_ok (h : slice window offset size = .ok view) :
    offset.toNat + view.size ≤ window.size := by
  have hsize := size_of_slice_eq_ok h
  unfold slice at h
  split at h
  · cases h
  · omega

end Slice

/-- The bytes as which a list of words lies in memory. -/
def Bytes.ofWords {w : Width} (words : List (Word w)) : Bytes :=
  words.foldl (fun bytes word => bytes ++ word.store.toArray) #[]

/-! ## A borrowed window -/

/-- A reader of a window of memory that it does not own. -/
structure BufferView where
  window : Subarray UInt8 := (#[] : Array UInt8).toSubarray

namespace BufferView

/-- The view of a whole byte string. -/
def ofBytes (bytes : Bytes) : BufferView := ⟨bytes.toSubarray⟩

/-- The view of a list of words in memory. -/
def ofWords {w : Width} (words : List (Word w)) : BufferView := ofBytes (.ofWords words)

/-- The bytes seen through the window. -/
def bytes (view : BufferView) : Bytes :=
  view.window.array.extract view.window.start view.window.stop

/-- The bytes of a read that has to be filled. -/
def readFull (view : BufferView) (offset : UInt64) (size : Nat) : Result Bytes :=
  match slice view.window offset size with
  | .error e => .error e
  | .ok bytes => if bytes.size < size then .error (.incompleteRead offset.toNat) else .ok bytes

/-- Positioned reads of the window. -/
def reader : Reader BufferView where
  read offset size := fun view => (slice view.window offset size, view)
  readFull offset size := fun view => (view.readFull offset size, view)
  size := fun view => (.ok (.ofNat view.window.size), view)

theorem size_window (view : BufferView) : view.window.size = view.bytes.size := by
  have hstop := view.window.stop_le_array_size
  rw [Subarray.size_eq, bytes, Array.size_extract]
  omega

/-- A read that starts within the window gives the bytes seen from there on. -/
theorem read_of_lt_size {view : BufferView} {offset : UInt64}
    (h : offset.toNat < view.bytes.size) (size : Nat) :
    reader.read offset size view =
      (.ok (view.bytes.extract offset.toNat (offset.toNat + size)), view) :=
  congrArg (·, view) (slice_of_lt_size (view.size_window ▸ h))

/-- Any other read fails. -/
theorem read_of_size_le {view : BufferView} {offset : UInt64}
    (h : view.bytes.size ≤ offset.toNat) (size : Nat) :
    reader.read offset size view =
      (.error (.offsetBeyondEnd .buffer offset.toNat view.bytes.size), view) := by
  rw [← size_window] at h ⊢
  exact congrArg (·, view) (slice_of_size_le h)

@[simp] theorem bytes_ofBytes (bytes : Bytes) : (ofBytes bytes).bytes = bytes := by
  simp [BufferView.bytes, ofBytes, Array.start_toSubarray, Array.stop_toSubarray]

end BufferView

/-! ## An owned array -/

/-- A reader of bytes of its own. -/
structure Buffer where
  bytes : Bytes := #[]
  deriving DecidableEq, Repr

namespace Buffer

/-- A reader of the bytes as which a list of words lies in memory. -/
def ofWords {w : Width} (words : List (Word w)) : Buffer := ⟨.ofWords words⟩

/-- The window of all the bytes of a reader. -/
def view (buffer : Buffer) : BufferView := .ofBytes buffer.bytes

/-- The bytes of a read that has to be filled. -/
def readFull (buffer : Buffer) (offset : UInt64) (size : Nat) : Result Bytes :=
  buffer.view.readFull offset size

/-- Positioned reads of the bytes. -/
def reader : Reader Buffer where
  read offset size := fun buffer => (slice buffer.bytes.toSubarray offset size, buffer)
  readFull offset size := fun buffer => (buffer.readFull offset size, buffer)
  size := fun buffer => (.ok (.ofNat buffer.bytes.size), buffer)

@[simp] theorem bytes_view (buffer : Buffer) : buffer.view.bytes = buffer.bytes :=
  BufferView.bytes_ofBytes _

/-- **An owned array is read like the view of it.** -/
theorem read_eq (buffer : Buffer) (offset : UInt64) (size : Nat) :
    reader.read offset size buffer =
      ((BufferView.reader.read offset size buffer.view).1, buffer) := rfl

end Buffer

end TiffDirectory
