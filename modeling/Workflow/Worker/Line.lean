/-!
# Lines of bytes

A channel carries lines. A line ends before a newline, or with the channel; a carriage return before
the newline belongs to neither.

* `rawLines`: the bytes of each line.
* `Line`, `linesOf`: the texts of the lines.
-/

namespace Workflow

/-- The text of a line, if its bytes are UTF-8. -/
abbrev Line := Option String

/-- The bytes of a line that ended with a newline, read backwards: a carriage return at the end is
left out. -/
def closeLine : List UInt8 → List UInt8
  | 13 :: rest => rest.reverse
  | bytes => bytes.reverse

/-- The bytes of each line, when those of the first line up to here have been read backwards. What
stands after the last newline is a line if it is not empty. -/
def rawLines : (read : List UInt8) → List UInt8 → List (List UInt8)
  | read, [] => if read.isEmpty then [] else [read.reverse]
  | read, 10 :: rest => closeLine read :: rawLines [] rest
  | read, byte :: rest => rawLines (byte :: read) rest

/-- The text of bytes, if they are UTF-8. -/
def utf8Text? (bytes : List UInt8) : Option String := String.fromUTF8? ⟨bytes.toArray⟩

/-- The lines that bytes hold.
Source: the lines read in `run_session`. -/
def linesOf (bytes : List UInt8) : List Line := (rawLines [] bytes).map utf8Text?

end Workflow
