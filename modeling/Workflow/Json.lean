import Workflow.Double
import Workflow.Table

/-!
# JSON values

The documents that states, inputs and outputs are made of. Integers and doubles are kept apart, as
they are written apart. A *document* lists the fields of its objects as they were read; a *value*
has them in ascending order of their names, each name once.

* `Number`, `Json`: numbers and documents.
* `Json.Sorted`: the documents that are values.
* `Json.canonical`: the value of a document; of several fields of one name the last counts.
* `Json.record`: an object made of a list of fields.
* `Json.field?`, `Json.string?` and the other partial views: what a value holds, if it is of the
  right kind.
-/

namespace Workflow

/-- A number: an integer of at most 64 bits, with or without sign, or a double. -/
inductive Number where
  | int (value : Int)
  | double (value : Double)
  deriving DecidableEq, Repr

namespace Number

/-- The number as a double: an integer is rounded to the nearest one. -/
def toDouble : Number → Double
  | int value => .ofInt value
  | double value => value

end Number

/-- A JSON document. -/
inductive Json where
  | null
  | bool (value : Bool)
  | number (value : Number)
  | string (value : String)
  | array (items : List Json)
  | object (fields : List (String × Json))
  deriving Repr

namespace Json

instance : Inhabited Json := ⟨null⟩

/-! ## Equality -/

mutual

/-- Decides whether two documents are the same. -/
def decEq : (a b : Json) → Decidable (a = b)
  | .null, .null => isTrue rfl
  | .bool a, .bool b => if h : a = b then isTrue (h ▸ rfl) else isFalse (h ∘ Json.bool.inj)
  | .number a, .number b => if h : a = b then isTrue (h ▸ rfl) else isFalse (h ∘ Json.number.inj)
  | .string a, .string b => if h : a = b then isTrue (h ▸ rfl) else isFalse (h ∘ Json.string.inj)
  | .array a, .array b =>
    match decEqItems a b with
    | isTrue h => isTrue (h ▸ rfl)
    | isFalse h => isFalse (h ∘ Json.array.inj)
  | .object a, .object b =>
    match decEqFields a b with
    | isTrue h => isTrue (h ▸ rfl)
    | isFalse h => isFalse (h ∘ Json.object.inj)
  | .null, .bool _ | .null, .number _ | .null, .string _ | .null, .array _ | .null, .object _
  | .bool _, .null | .bool _, .number _ | .bool _, .string _ | .bool _, .array _
  | .bool _, .object _ | .number _, .null | .number _, .bool _ | .number _, .string _
  | .number _, .array _ | .number _, .object _ | .string _, .null | .string _, .bool _
  | .string _, .number _ | .string _, .array _ | .string _, .object _ | .array _, .null
  | .array _, .bool _ | .array _, .number _ | .array _, .string _ | .array _, .object _
  | .object _, .null | .object _, .bool _ | .object _, .number _ | .object _, .string _
  | .object _, .array _ => isFalse nofun

/-- Decides whether two lists of documents are the same. -/
def decEqItems : (a b : List Json) → Decidable (a = b)
  | [], [] => isTrue rfl
  | x :: xs, y :: ys =>
    match decEq x y, decEqItems xs ys with
    | isTrue h, isTrue hs => isTrue (h ▸ hs ▸ rfl)
    | isFalse h, _ => isFalse fun e => h (List.cons.inj e).1
    | _, isFalse hs => isFalse fun e => hs (List.cons.inj e).2
  | [], _ :: _ | _ :: _, [] => isFalse nofun

/-- Decides whether two lists of fields are the same. -/
def decEqFields : (a b : List (String × Json)) → Decidable (a = b)
  | [], [] => isTrue rfl
  | (k, x) :: xs, (l, y) :: ys =>
    match (inferInstance : Decidable (k = l)), decEq x y, decEqFields xs ys with
    | isTrue hk, isTrue h, isTrue hs => isTrue (hk ▸ h ▸ hs ▸ rfl)
    | isFalse hk, _, _ => isFalse fun e => hk (Prod.mk.inj (List.cons.inj e).1).1
    | _, isFalse h, _ => isFalse fun e => h (Prod.mk.inj (List.cons.inj e).1).2
    | _, _, isFalse hs => isFalse fun e => hs (List.cons.inj e).2
  | [], _ :: _ | _ :: _, [] => isFalse nofun

end

instance : DecidableEq Json := decEq

/-! ## Values -/

mutual

/-- The fields of every object ascend by name. -/
def Sorted : Json → Prop
  | .array items => SortedItems items
  | .object fields => Ascending fields ∧ SortedFields fields
  | .null | .bool _ | .number _ | .string _ => True

/-- Every item is sorted. -/
def SortedItems : List Json → Prop
  | [] => True
  | x :: xs => x.Sorted ∧ SortedItems xs

/-- The value of every field is sorted. -/
def SortedFields : List (String × Json) → Prop
  | [] => True
  | (_, x) :: xs => x.Sorted ∧ SortedFields xs

end

mutual

/-- The value of a document: fields in order, the last of one name. -/
def canonical : Json → Json
  | .array items => .array (canonicalItems items)
  | .object fields => .object (canonicalFields fields [])
  | .null => .null
  | .bool b => .bool b
  | .number n => .number n
  | .string s => .string s

/-- The values of the items. -/
def canonicalItems : List Json → List Json
  | [] => []
  | x :: xs => x.canonical :: canonicalItems xs

/-- Enters the values of the fields into `acc`, from left to right. -/
def canonicalFields : List (String × Json) → List (String × Json) → List (String × Json)
  | [], acc => acc
  | (name, x) :: xs, acc => canonicalFields xs (Entries.put name x.canonical acc)

end

/-- An object with the given fields, a later one in place of an earlier one of its name. -/
def record (fields : List (String × Json)) : Json := .object (Entries.ofList fields)

/-- The object without fields. -/
def emptyObject : Json := .object []

/-- An array of strings. -/
def strings (items : List String) : Json := .array (items.map .string)

/-- A natural number as an integer. -/
def nat (n : Nat) : Json := .number (.int n)

/-- An integer. -/
def int (i : Int) : Json := .number (.int i)

/-- A double. -/
def double (d : Double) : Json := .number (.double d)

/-! ## Partial views -/

/-- The field of an object by its name. -/
def field? (name : String) : Json → Option Json
  | .object fields => Entries.get? name fields
  | _ => none

/-- The item of an array by its index. -/
def item? (index : Nat) : Json → Option Json
  | .array items => items[index]?
  | _ => none

/-- The children of an array or object, in order; nothing else has any. -/
def children : Json → List Json
  | .array items => items
  | .object fields => fields.map (·.2)
  | _ => []

/-- The text of a string. -/
def string? : Json → Option String
  | .string s => some s
  | _ => none

/-- A truth value. -/
def bool? : Json → Option Bool
  | .bool b => some b
  | _ => none

/-- A number as a double. -/
def double? : Json → Option Double
  | .number n => some n.toDouble
  | _ => none

/-- An integer; a double is none, even if it is whole. -/
def int? : Json → Option Int
  | .number (.int i) => some i
  | _ => none

/-- A natural number below `bound`. -/
def natBelow? (bound : Nat) (v : Json) : Option Nat := do
  let i ← v.int?
  if 0 ≤ i ∧ i.toNat < bound then some i.toNat else none

/-- An integer of a word of 64 bits with sign. -/
def signed? (v : Json) : Option Int := do
  let i ← v.int?
  if Word.isSigned i then some i else none

/-- The items of an array. -/
def array? : Json → Option (List Json)
  | .array items => some items
  | _ => none

/-- The fields of an object. -/
def object? : Json → Option (List (String × Json))
  | .object fields => some fields
  | _ => none

end Json

end Workflow
