/-!
# FileSystem/Path — the steps that a path text asks for

A path text names a start, the root or the working directory, and a list of names to follow from
there.  **A character NUL ends the text**, empty names between slashes are no names, and a slash at
the end asks for one more step to `.`, which only a directory allows.
-/

namespace TiffDirectory

/-- A path: where it starts, and the names to follow in turn. -/
structure Path where
  absolute : Bool
  names : List String
  deriving DecidableEq, Repr

namespace Path

/-- The number of bytes that no path text reaches. -/
def lengthLimit : Nat := 4096

/-- The largest number of bytes of a name. -/
def longestName : Nat := 255

/-- The pieces of a text between its slashes; one more than there are slashes. -/
def pieces : List Char → List (List Char)
  | [] => [[]]
  | c :: rest =>
    if c = '/' then [] :: pieces rest
    else match pieces rest with
      | [] => [[c]]
      | piece :: others => (c :: piece) :: others

/-- The path that a text stands for, unless it is empty or the text or a name in it is too long. -/
def parse? (text : String) : Option Path :=
  let chars := text.toList.takeWhile (· != '\x00')
  let length := (String.ofList chars).utf8ByteSize
  let names := (pieces chars).filter (!·.isEmpty) |>.map String.ofList
  if length = 0 || lengthLimit ≤ length || names.any (longestName < ·.utf8ByteSize) then none
  else some {
    absolute := chars.head? = some '/'
    names := if chars.getLast? = some '/' then names ++ ["."] else names }

end Path

end TiffDirectory
