/-!
# Words

Integers of documents, counters and settings have the size of a machine word.

* `Word.count32`, `Word.count64`: how many values a word can have.
* `Word.isSigned`, `Word.isInteger`: whether an integer fits a word of 64 bits with sign, or one
  with or without.
-/

namespace Workflow.Word

/-- How many values a word of 32 bits can have. -/
abbrev count32 : Nat := 0x100000000

/-- How many values a word of 64 bits can have. -/
abbrev count64 : Nat := 0x10000000000000000

/-- Whether an integer fits a word of 64 bits with sign. -/
def isSigned (i : Int) : Bool := -0x8000000000000000 ≤ i && i < 0x8000000000000000

/-- Whether an integer fits a word of 64 bits, with or without sign. -/
def isInteger (i : Int) : Bool := -0x8000000000000000 ≤ i && i < 0x10000000000000000

end Workflow.Word
