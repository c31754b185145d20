import Conveyor.Calendar.Stamp
import Conveyor.Number.Shortest
import Conveyor.Text.Pieces
import Conveyor.Text.Quoted

/-!
# Decoded values

A document or a stored record is first decoded into a `Value`: a tree of scalars, lists and
mappings. What follows reads its meaning off such a tree.

- `Value`, `Value.Entry`: the tree; a mapping keeps its entries in order.
- `Value.same`: equality of values; numbers and truth values are equal by what they count.
- `Value.put`, `Value.ofEntries`: a later equal key replaces the value but keeps the first key
  and its position.
- `Value.get?`: the value under a text key.
- `Value.isTruthy`: everything but nothing, zero, false and the empty.
- `Value.typeName`, `Value.shown`, `Value.text`: how messages name the type of a value, show it,
  and write it out as the value of a variable.
-/

namespace Conveyor

open Conveyor.Text

/-- A decoded value. -/
inductive Value where
  | null
  | bool (b : Bool)
  | int (i : Int)
  | float (x : Binary64)
  | text (s : Text)
  | list (items : List Value)
  | map (entries : List (Value × Value))
  | date (d : Date)
  | stamp (t : Stamp)
  | bytes (bs : List UInt8)
  | set (items : List Value)
  | pair (first second : Value)
  /-- A list or a mapping that is part of itself, at a place where it comes round again. -/
  | again (label : Nat) (mapping : Bool)
  deriving BEq, Repr, Inhabited

/-- An entry of a mapping. -/
abbrev Value.Entry := Value × Value

namespace Value

/-- The number that a value counts as. -/
inductive Amount where
  | whole (i : Int)
  | real (x : Binary64)

/-- Truth values count as one and zero. -/
def amount? : Value → Option Amount
  | .bool b => some (.whole (if b then 1 else 0))
  | .int i => some (.whole i)
  | .float x => some (.real x)
  | _ => none

/-- Equality of numbers by exact value. -/
def Amount.same : Amount → Amount → Bool
  | .whole i, .whole j => i == j
  | .whole i, .real x => x.compareInt i == some .eq
  | .real x, .whole i => x.compareInt i == some .eq
  | .real x, .real y => x.compare y == some .eq

/-- Equality of keys. Lists, mappings and sets are never keys, so they equal nothing here. -/
def same (a b : Value) : Bool :=
  match a.amount?, b.amount? with
  | some x, some y => x.same y
  | none, none =>
    match a, b with
    | .null, .null => true
    | .text s, .text t => s == t
    | .date d, .date e => d == e
    | .stamp s, .stamp t => s.same t
    | .bytes s, .bytes t => s == t
    | _, _ => false
  | _, _ => false

/-- Can the value be a key? -/
def isKey : Value → Bool
  | .list _ => false
  | .map _ => false
  | .set _ => false
  | .pair a b => a.isKey && b.isKey
  | .again _ _ => false
  | _ => true

/-- Put an entry into a mapping. -/
def put (key value : Value) : List Entry → List Entry
  | [] => [(key, value)]
  | (k, v) :: rest => if k.same key then (k, value) :: rest else (k, v) :: put key value rest

/-- The mapping of a sequence of entries. -/
def ofEntries (entries : List Entry) : List Entry :=
  entries.foldl (fun m e => put e.1 e.2 m) []

/-- The value under a text key. -/
def lookup (key : Text) : List Entry → Option Value
  | [] => none
  | (.text k, v) :: rest => if k = key then some v else lookup key rest
  | _ :: rest => lookup key rest

/-- The value under a text key, and nothing if there is none. -/
def getD (entries : List Entry) (key : Text) : Value := (lookup key entries).getD .null

/-- Everything is true but nothing, zero, false and the empty. -/
def isTruthy : Value → Bool
  | .null => false
  | .bool b => b
  | .int i => i != 0
  | .float x => x.isNonzero
  | .text s => s != ""
  | .list xs => !xs.isEmpty
  | .map es => !es.isEmpty
  | .date _ => true
  | .stamp _ => true
  | .bytes bs => !bs.isEmpty
  | .set xs => !xs.isEmpty
  | .pair _ _ => true
  | .again _ _ => true

/-- The name of a value's type in messages. -/
def typeName : Value → Text
  | .null => "NoneType"
  | .bool _ => "bool"
  | .int _ => "int"
  | .float _ => "float"
  | .text _ => "str"
  | .list _ => "list"
  | .map _ => "dict"
  | .date _ => "date"
  | .stamp _ => "datetime"
  | .bytes _ => "bytes"
  | .set _ => "set"
  | .pair _ _ => "tuple"
  | .again _ mapping => if mapping then "dict" else "list"

/-! ## Writing values out -/

/-- How messages show an offset. -/
def shownOffset (o : Int) : Text :=
  if o = 0 then "datetime.timezone.utc" else "datetime.timezone(" ++ spanText o ++ ")"

/-- How messages show a point in time: the fields, without trailing zero seconds. -/
def shownStamp (t : Stamp) : Text :=
  let tail :=
    if t.micro ≠ 0 then [t.second, t.micro] else if t.second ≠ 0 then [t.second] else []
  let fields := [t.date.year, t.date.month, t.date.day, t.hour, t.minute] ++ tail
  let zone : List Text := match t.offset with
    | none => []
    | some o => ["tzinfo=" ++ shownOffset o]
  "datetime.datetime(" ++ joinWith ", " (fields.map (fun n => .ofString (Nat.repr n)) ++ zone) ++
    ")"

mutual

/-- How messages show a value: texts in quotes, collections in brackets. -/
def shown : Value → Text
  | .null => "None"
  | .bool b => if b then "True" else "False"
  | .int i => Int.repr i
  | .float x => x.text
  | .text s => quoted s
  | .list xs => "[" ++ joinWith ", " (shownAll xs) ++ "]"
  | .map es => "\x7b" ++ joinWith ", " (shownEntries es) ++ "\x7d"
  | .date d =>
    "datetime.date(" ++ Nat.repr d.year ++ ", " ++ Nat.repr d.month ++ ", " ++
    Nat.repr d.day ++ ")"
  | .stamp t => shownStamp t
  | .bytes bs => quotedBytes bs
  | .set [] => "set()"
  | .set xs => "\x7b" ++ joinWith ", " (shownAll xs) ++ "\x7d"
  | .pair a b => "(" ++ shown a ++ ", " ++ shown b ++ ")"
  | .again _ mapping => if mapping then "\x7b...\x7d" else "[...]"

/-- Each value of a list as messages show it. -/
def shownAll : List Value → List Text
  | [] => []
  | x :: xs => shown x :: shownAll xs

/-- Each entry of a mapping as messages show it. -/
def shownEntries : List (Value × Value) → List Text
  | [] => []
  | (k, v) :: es => (shown k ++ ": " ++ shown v) :: shownEntries es

end

/-- The text of a value: a text is itself, a date or time has its written form, and everything
else is as messages show it. -/
def plainText : Value → Text
  | .text s => s
  | .date d => d.text
  | .stamp t => t.textWith " "
  | v => shown v

/-- The most decimal digits that an integer may have to be written out. -/
def maxWrittenDigits : Nat := 4300

/-- Is the value an integer too long to be written out? -/
def isUnwritable : Value → Bool
  | .int i => Nat.pow 10 maxWrittenDigits ≤ i.natAbs
  | _ => false

mutual

/-- Does the value hold an integer too long to be written out? -/
def hasUnwritable : Value → Bool
  | .list xs => anyUnwritable xs
  | .map es => entriesUnwritable es
  | .set xs => anyUnwritable xs
  | .pair a b => hasUnwritable a || hasUnwritable b
  | v => v.isUnwritable

/-- Does one of the values hold an integer too long to be written out? -/
def anyUnwritable : List Value → Bool
  | [] => false
  | x :: xs => hasUnwritable x || anyUnwritable xs

/-- Does one of the entries hold an integer too long to be written out? -/
def entriesUnwritable : List (Value × Value) → Bool
  | [] => false
  | (k, v) :: es => hasUnwritable k || hasUnwritable v || entriesUnwritable es

end

mutual

/-- How deep the collections of a value are nested. -/
def depth : Value → Nat
  | .list xs => depthOfAll xs + 1
  | .map es => depthOfEntries es + 1
  | .set xs => depthOfAll xs + 1
  | .pair a b => max (depth a) (depth b) + 1
  | _ => 0

/-- How deep the collections of some values are nested. -/
def depthOfAll : List Value → Nat
  | [] => 0
  | x :: xs => max (depth x) (depthOfAll xs)

/-- How deep the collections of some entries are nested. -/
def depthOfEntries : List (Value × Value) → Nat
  | [] => 0
  | (k, v) :: es => max (max (depth k) (depth v)) (depthOfEntries es)

end

/-- The greatest depth of a value that messages can show. -/
def maxShownDepth : Nat := 990

end Value

end Conveyor
