import Workflow.Double.Reading
import Workflow.Json

/-!
# Numbers and times of a TOML document

* `number?`: an integer of 64 bits with sign, or a double.
* `dateTime?`: a date, a time, or both, perhaps with an offset.
* `scalar?`: any value that is neither a string nor made of others.
-/

namespace Workflow.Toml

/-! ## Numbers -/

/-- Reads further digits of a number, between which single underscores may stand. -/
def moreDigits? (isDigit : Char → Bool) : List Char → Option (List Char × List Char)
  | [] => some ([], [])
  | '_' :: c :: rest =>
    if isDigit c then (moreDigits? isDigit rest).map fun (ds, rest) => (c :: ds, rest) else none
  | c :: rest =>
    if isDigit c then (moreDigits? isDigit rest).map fun (ds, rest) => (c :: ds, rest)
    else if c = '_' then none
    else some ([], c :: rest)

/-- Reads the digits of a number, at least one. -/
def digits? (isDigit : Char → Bool) : List Char → Option (List Char × List Char)
  | [] => none
  | c :: rest =>
    if isDigit c then (moreDigits? isDigit rest).map fun (ds, rest) => (c :: ds, rest) else none

/-- Reads the digits of a whole number in decimal: several digits do not begin with zero. -/
def wholeDigits? : List Char → Option (List Char × List Char)
  | '0' :: rest => some (['0'], rest)
  | cs => digits? Char.isDigit cs

/-- Whether a character is a digit to the given base. -/
def isDigitTo (base : Nat) (c : Char) : Bool := (Text.hexValue? c).any fun d => decide (d < base)

/-- The number of some digits to the given base. -/
def digitsTo (base : Nat) (digits : List Char) : Nat :=
  digits.foldl (fun n c => base * n + (Text.hexValue? c).getD 0) 0

/-- An integer, if a word of 64 bits with sign can hold it. -/
def integer? (i : Int) : Option Json :=
  if Word.isSigned i then some (.int i) else none

/-- Reads an integer to the given base. -/
def based? (base : Nat) (cs : List Char) : Option (Json × List Char) := do
  let (digits, rest) ← digits? (isDigitTo base) cs
  return (← integer? (digitsTo base digits), rest)

/-- Reads an exponent after its letter; gives its characters. -/
def exponent? (cs : List Char) : Option (List Char × List Char) :=
  let (sign, cs) := match cs with
    | '-' :: rest => (['-'], rest)
    | '+' :: rest => ([], rest)
    | rest => ([], rest)
  (digits? Char.isDigit cs).map fun (ds, rest) => (sign ++ ds, rest)

/-- The double of a literal; one that is too large is refused if it is positive. -/
def double? (literal : List Char) : Option Json :=
  match Double.ofText? literal with
  | none | some (.infinite false) => none
  | some x => some (.double x)

/-- Reads a number in decimal after its sign. -/
def unsigned? (negative : Bool) (cs : List Char) : Option (Json × List Char) := do
  let sign := if negative then ['-'] else []
  let (whole, rest) ← wholeDigits? cs
  let (fraction, rest) ← match rest with
    | '.' :: rest => (digits? Char.isDigit rest).map fun (ds, rest) => ('.' :: ds, rest)
    | rest => some ([], rest)
  let (exponent, rest) ← match rest with
    | 'e' :: rest | 'E' :: rest => (exponent? rest).map fun (ds, rest) => ('e' :: ds, rest)
    | rest => some ([], rest)
  if fraction.isEmpty && exponent.isEmpty then
    let n : Int := Text.digitsValue whole
    return (← integer? (if negative then -n else n), rest)
  else return (← double? (sign ++ whole ++ fraction ++ exponent), rest)

/-- Reads a number after its sign. -/
def magnitude? (negative : Bool) : List Char → Option (Json × List Char)
  | 'i' :: 'n' :: 'f' :: rest => some (.double (.infinite negative), rest)
  | 'n' :: 'a' :: 'n' :: rest => some (.double .nan, rest)
  | cs => unsigned? negative cs

/-- Reads a number. To bases other than ten there is no sign. -/
def number? : List Char → Option (Json × List Char)
  | '0' :: 'x' :: rest => based? 16 rest
  | '0' :: 'o' :: rest => based? 8 rest
  | '0' :: 'b' :: rest => based? 2 rest
  | '-' :: rest => magnitude? true rest
  | '+' :: rest => magnitude? false rest
  | cs => magnitude? false cs

/-! ## Dates and times -/

/-- Reads two digits whose number is in a range. -/
def pair? (low high : Nat) : List Char → Option (Nat × List Char)
  | a :: b :: rest =>
    let n := Text.digitsValue [a, b]
    if a.isDigit && b.isDigit && low ≤ n && n ≤ high then some (n, rest) else none
  | _ => none

/-- The text after a given character. -/
def after? (c : Char) : List Char → Option (List Char)
  | d :: rest => if d = c then some rest else none
  | [] => none

/-- The number of days of a month. -/
def daysOf (year month : Nat) : Nat :=
  if month = 2 then
    if year % 4 = 0 ∧ (year % 100 ≠ 0 ∨ year % 400 = 0) then 29 else 28
  else if month ∈ [4, 6, 9, 11] then 30
  else 31

/-- The text after a date. -/
def date? (cs : List Char) : Option (List Char) := do
  let (century, rest) ← pair? 0 99 cs
  let (year, rest) ← pair? 0 99 rest
  let (month, rest) ← pair? 1 12 (← after? '-' rest)
  let (day, rest) ← pair? 1 31 (← after? '-' rest)
  if daysOf (100 * century + year) month < day then none
  return rest

/-- The text after a time of the day. -/
def time? (cs : List Char) : Option (List Char) := do
  let (_, rest) ← pair? 0 23 cs
  let (_, rest) ← pair? 0 59 (← after? ':' rest)
  let (_, rest) ← pair? 0 60 (← after? ':' rest)
  match rest with
  | '.' :: c :: more => return if c.isDigit then more.dropWhile Char.isDigit else rest
  | rest => return rest

/-- The text after an offset, if one stands here. -/
def offset? (cs : List Char) : Option (List Char) :=
  match cs with
  | 'Z' :: rest | 'z' :: rest => some rest
  | '+' :: rest | '-' :: rest => do
    let (_, rest) ← pair? 0 23 rest
    let (_, rest) ← pair? 0 59 (← after? ':' rest)
    return rest
  | rest => some rest

/-- The text after a time that follows a date, if one stands here. -/
def timeAfterDate? (cs : List Char) : Option (List Char) :=
  match cs with
  | 'T' :: rest | 't' :: rest | ' ' :: rest =>
    match time? rest with
    | some rest => offset? rest
    | none => some cs
  | rest => some rest

/-- Reads a date, a time, or both, as an object with one field. -/
def dateTime? (cs : List Char) : Option (Json × List Char) := do
  let rest ← match date? cs with
    | some rest => timeAfterDate? rest
    | none => time? cs
  let literal := cs.take (cs.length - rest.length)
  return (.record [("date-time", .string (.ofList literal))], rest)

/-! ## Scalars -/

/-- Reads a value that is neither a string nor made of others. -/
def scalar? : List Char → Option (Json × List Char)
  | 't' :: 'r' :: 'u' :: 'e' :: rest => some (.bool true, rest)
  | 'f' :: 'a' :: 'l' :: 's' :: 'e' :: rest => some (.bool false, rest)
  | cs => (dateTime? cs).or (number? cs)

end Workflow.Toml
