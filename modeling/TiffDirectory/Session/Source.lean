import TiffDirectory.Reader.Buffer
import TiffDirectory.Reader.Faulty
import TiffDirectory.Reader.File

/-!
# Session/Source — a reader of any kind

The readers that a session can hold, and the reader of their sum: each operation goes to the reader
of the kind at hand.
-/

namespace TiffDirectory

/-- A reader of one of the kinds that a session knows. -/
inductive Source where
  | view (view : BufferView)
  | buffer (buffer : Buffer)
  | file (reader : FileReader)
  /-- a faulty reader with a record of its read calls -/
  | faulty (reader : Recorded ReadCall FaultyReader)

namespace Source

/-- Whether the source can be read at all; memory always can. -/
def isValid : Source → Bool
  | .view _ => true
  | .buffer _ => true
  | .file state => state.isOpen
  | .faulty _ => true

/-- Whether the reads of the source allocate the bytes that they give. -/
def mustAllocate : Source → Bool
  | .view _ => false
  | .buffer _ => false
  | .file _ => true
  | .faulty _ => false

/-- Does a step that every reader can do on the reader at hand. -/
def dispatch {α : Type} (fs : FileSystem) (step : {σ : Type} → Reader σ → ReadM σ α) :
    ReadM Source α := fun source =>
  match source with
  | .view state =>
    let (result, state) := step BufferView.reader state
    (result, .view state)
  | .buffer state =>
    let (result, state) := step Buffer.reader state
    (result, .buffer state)
  | .file state =>
    let (result, state) := step (FileReader.reader fs) state
    (result, .file state)
  | .faulty state =>
    let (result, state) := step FaultyReader.reader.recorded state
    (result, .faulty state)

/-- Positioned reads of the reader at hand, on the files as they are now. -/
def reader (fs : FileSystem) : Reader Source where
  read offset size := dispatch fs fun R => R.read offset size
  readFull offset size := dispatch fs fun R => R.readFull offset size
  size := dispatch fs fun R => R.size

end Source

end TiffDirectory
