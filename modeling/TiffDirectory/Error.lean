/-!
# Error — why a read failed

An error is its **cause**, with the numbers and the path that the cause is about.  What callers see
of it are two functions of the cause: its `code`, the kind of failure, and its `message`.
-/

namespace TiffDirectory

/-- The kinds of failure that callers tell apart. -/
inductive ErrorCode where
  | fileNotFound | readError | invalidHeader | outOfBounds | unexpectedEndOfFile
  deriving DecidableEq, Repr

namespace ErrorCode

/-- The word for a kind of failure. -/
def name : ErrorCode → String
  | .fileNotFound => "FileNotFound"
  | .readError => "ReadError"
  | .invalidHeader => "InvalidHeader"
  | .outOfBounds => "OutOfBounds"
  | .unexpectedEndOfFile => "UnexpectedEndOfFile"

/-- All kinds of failure. -/
def all : List ErrorCode :=
  [.fileNotFound, .readError, .invalidHeader, .outOfBounds, .unexpectedEndOfFile]

/-- The code of a given name. -/
def ofName? (text : String) : Option ErrorCode := all.find? (·.name == text)

@[simp] theorem ofName?_name (code : ErrorCode) : ofName? code.name = some code := by
  cases code <;> decide

end ErrorCode

/-- Where the bytes of a reader come from. -/
inductive Medium where
  | buffer | file
  deriving DecidableEq, Repr

/-- The word for a medium. -/
def Medium.name : Medium → String
  | .buffer => "buffer"
  | .file => "file"

/-- The cause of a failure. -/
inductive Error where
  /-- a failure told by a source outside this library, in its own words -/
  | reported (code : ErrorCode) (message : String)
  /-- a read that starts at or after the end of the data -/
  | offsetBeyondEnd (medium : Medium) (offset size : Nat)
  /-- a read that had to be filled and reaches past the end of the data -/
  | incompleteRead (offset : Nat)
  /-- a field of which only the first `got` bytes could be read -/
  | truncatedField (offset expected got : Nat)
  /-- no storage for so many directory entries -/
  | entriesUnstorable (count : Nat)
  /-- a cursor sent past the end of the data -/
  | seekBeyondEnd (target size : Nat)
  /-- a seek on a reader that does not tell its size -/
  | sizeUnknownForSeek (cause : Error)
  /-- a reader that does not tell its size -/
  | sizeUnknown (cause : Error)
  /-- the first two bytes could not be read -/
  | markUnreadable (cause : Error)
  /-- the data end within the byte order mark -/
  | markTruncated
  /-- the first two bytes are no byte order mark -/
  | markUnknown
  /-- a read from a closed file -/
  | fileNotOpen
  /-- the path leads to a directory -/
  | notRegularFile (path : String)
  | cannotOpen (path : String)
  /-- the file does not tell where it ends -/
  | fileSizeUnknown (path : String)
  | cannotSeek (offset : Nat)
  /-- the file delivered less than it holds by its size -/
  | cannotRead (path : String)
  deriving DecidableEq, Repr

namespace Error

/-- The kind of a failure; a failure that follows from another one is of the same kind. -/
def code : Error → ErrorCode
  | .reported code _ => code
  | .offsetBeyondEnd .. => .outOfBounds
  | .incompleteRead _ => .unexpectedEndOfFile
  | .truncatedField .. => .unexpectedEndOfFile
  | .entriesUnstorable _ => .outOfBounds
  | .seekBeyondEnd .. => .outOfBounds
  | .sizeUnknownForSeek cause => cause.code
  | .sizeUnknown cause => cause.code
  | .markUnreadable cause => cause.code
  | .markTruncated => .unexpectedEndOfFile
  | .markUnknown => .invalidHeader
  | .fileNotOpen => .readError
  | .notRegularFile _ => .readError
  | .cannotOpen _ => .fileNotFound
  | .fileSizeUnknown _ => .readError
  | .cannotSeek _ => .readError
  | .cannotRead _ => .readError

/-- The text of a failure; a failure that follows from another one ends with the text of that. -/
def message : Error → String
  | .reported _ message => message
  | .offsetBeyondEnd medium offset size =>
    s!"Read offset {offset} beyond {medium.name} size {size}"
  | .incompleteRead offset => s!"Incomplete read at offset {offset}"
  | .truncatedField offset expected got =>
    s!"Incomplete read at offset {offset}: expected {expected} bytes, got {got}"
  | .entriesUnstorable count => s!"Cannot allocate {count} directory entries"
  | .seekBeyondEnd target size => s!"Seek to {target} beyond size {size}"
  | .sizeUnknownForSeek cause => "Failed to query size for seek: " ++ cause.message
  | .sizeUnknown cause => "Failed to query size: " ++ cause.message
  | .markUnreadable cause => "Failed to read byte order mark: " ++ cause.message
  | .markTruncated => "File too small for a byte order mark"
  | .markUnknown => "Unknown byte order mark"
  | .fileNotOpen => "File not open"
  | .notRegularFile path => "Not a regular file: " ++ path
  | .cannotOpen path => "Failed to open file: " ++ path
  | .fileSizeUnknown path => "Failed to query size of file: " ++ path
  | .cannotSeek offset => s!"Failed to seek to offset {offset}"
  | .cannotRead path => "Failed to read from file: " ++ path

end Error

/-- The outcome of an operation that may fail. -/
abbrev Result (α : Type) := Except Error α

namespace Result

variable {α : Type}

instance [DecidableEq α] : DecidableEq (Result α)
  | .ok a, .ok b => decidable_of_iff (a = b) (by simp)
  | .error d, .error e => decidable_of_iff (d = e) (by simp)
  | .ok _, .error _ => isFalse (by simp)
  | .error _, .ok _ => isFalse (by simp)

/-- Whether the operation succeeded. -/
def isOk : Result α → Bool
  | .ok _ => true
  | .error _ => false

/-- Whether the operation failed. -/
def isError (result : Result α) : Bool := !result.isOk

/-- Puts a new value in the place of the one that a success carries; a failure stays as it is. -/
def assign (result : Result α) (value : α) : Result α := result.map fun _ => value

@[simp] theorem isOk_assign (result : Result α) (value : α) :
    (result.assign value).isOk = result.isOk := by
  cases result <;> rfl

@[simp] theorem assign_assign (result : Result α) (a b : α) :
    (result.assign a).assign b = result.assign b := by
  cases result <;> rfl

end Result

end TiffDirectory
