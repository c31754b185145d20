import Conveyor.Text.Lowercase
import Conveyor.Value
import Conveyor.Yaml.Cursor

/-!
# YAML scalars

What the text of a scalar stands for. A plain scalar is tagged by the look of its text; the tag
then says how the text becomes a value. One line feed at the end of a text does not change its
look.

- `Yaml.Tag`, `Yaml.Tag.ofName`: the tags with a meaning.
- `Yaml.Tag.ofPlain`: the tag of a plain scalar: truth values by word, numbers in several bases
  and in base sixty, dates and times.
- `Yaml.scalarValue`: the value of a scalar under its tag.
-/

namespace Conveyor.Yaml

open Conveyor.Text

/-- The kind of a node. -/
inductive Tag where
  | null
  | bool
  | int
  | float
  | binary
  | timestamp
  | omap
  | pairs
  | set
  | str
  | seq
  | map
  /-- The key that merges another mapping. -/
  | merge
  /-- The key of a mapping that stands for a scalar. -/
  | value
  /-- A tag without a meaning. -/
  | other (name : String)
  deriving DecidableEq, Repr

/-- The start of the standard tags. -/
def Tag.standard : String := "tag:yaml.org,2002:"

/-- The tag with a full name. -/
def Tag.ofName (name : String) : Tag :=
  match dropStart? Tag.standard.toList name.toList with
  | none => .other name
  | some rest =>
    match String.ofList rest with
    | "null" => .null
    | "bool" => .bool
    | "int" => .int
    | "float" => .float
    | "binary" => .binary
    | "timestamp" => .timestamp
    | "omap" => .omap
    | "pairs" => .pairs
    | "set" => .set
    | "str" => .str
    | "seq" => .seq
    | "map" => .map
    | "merge" => .merge
    | "value" => .value
    | _ => .other name

/-! ## The look of plain scalars -/

/-- The words for truth values, each in three spellings. -/
def truthWords : List Text :=
  ["yes", "Yes", "YES", "no", "No", "NO", "true", "True", "TRUE", "false", "False", "FALSE",
   "on", "On", "ON", "off", "Off", "OFF"]

/-- The words for nothing. -/
def nullWords : List Text := ["~", "null", "Null", "NULL"]

/-- A text without the line feed at its end. -/
def dropFinalBreak (cs : List CodePoint) : List CodePoint :=
  if cs.getLast? = some '\n' then cs.dropLast else cs

/-- A digit or an underscore. -/
def isDigitOrLine (c : CodePoint) : Bool := c.isDigit || c == '_'

/-- A text without its sign. -/
def unsigned : List CodePoint → List CodePoint
  | .char '-' :: rest => rest
  | .char '+' :: rest => rest
  | cs => cs

/-- Places in base sixty, each after a colon: one digit, or two of which the first is below six.
Gives the rest, none if there is no place. -/
def sixtiesWith : Nat → (seen : Bool) → List CodePoint → Option (List CodePoint)
  | 0, _, _ => none
  | _ + 1, seen, [] => if seen then some [] else none
  | fuel + 1, seen, c :: rest =>
    if c = ':' then
      let ds := rest.takeWhile CodePoint.isDigit
      let more := rest.dropWhile CodePoint.isDigit
      match ds with
      | [_] => sixtiesWith fuel true more
      | [a, _] => if a ≤ '5' then sixtiesWith fuel true more else none
      | _ => none
    else if seen then some (c :: rest) else none

/-- Places in base sixty. -/
def sixties (cs : List CodePoint) : Option (List CodePoint) :=
  sixtiesWith (cs.length + 1) false cs

/-- Does an unsigned text look like an integer? -/
def looksUnsignedInt : List CodePoint → Bool
  | [] => false
  | [.char '0'] => true
  | .char '0' :: .char 'b' :: rest =>
    !rest.isEmpty && rest.all fun c => c == '0' || c == '1' || c == '_'
  | .char '0' :: .char 'x' :: rest =>
    !rest.isEmpty && rest.all fun c => (hexValue? c).isSome || c == '_'
  | .char '0' :: rest => rest.all fun c => ('0' ≤ c && c ≤ '7') || c == '_'
  | c :: rest =>
    c.isDigit &&
      (rest.all isDigitOrLine || sixties (rest.dropWhile isDigitOrLine) == some [])

/-- Does a text look like an integer? -/
def looksInt (cs : List CodePoint) : Bool := looksUnsignedInt (unsigned cs)

/-- Does a text look like the exponent of a number, or is there none? The sign is required. -/
def looksExponent : List CodePoint → Bool
  | [] => true
  | e :: sign :: ds =>
    (e == 'e' || e == 'E') && (sign == '-' || sign == '+') && !ds.isEmpty &&
      ds.all CodePoint.isDigit
  | _ => false

/-- Does a text after the point look like the rest of a number? -/
def looksFraction (cs : List CodePoint) : Bool := looksExponent (cs.dropWhile isDigitOrLine)

/-- The words for an infinity, after the point. -/
def infinityWords : List Text := ["inf", "Inf", "INF"]

/-- The words for the undefined number, after the point. -/
def undefinedWords : List Text := ["nan", "NaN", "NAN"]

/-- Does a text look like a floating point number? A point is required. Without digits in front
of the point there is no sign. -/
def looksFloat (cs : List CodePoint) : Bool :=
  match unsigned cs with
  | [] => false
  | .char '.' :: rest =>
    infinityWords.contains (Text.ofList rest) ||
      (cs.head? == some '.' &&
        (undefinedWords.contains (Text.ofList rest) ||
          ((rest.head?.any CodePoint.isDigit) && looksFraction rest)))
  | c :: rest =>
    c.isDigit &&
      match rest.dropWhile isDigitOrLine with
      | .char '.' :: more => looksFraction more
      | more =>
        match sixties more with
        | some (.char '.' :: frac) => frac.all isDigitOrLine
        | _ => false

/-! ## Dates and times -/

/-- A written date, possibly with a time of day. -/
structure Moment where
  year : Nat
  month : Nat
  day : Nat
  /-- Whether the month and the day have two digits each. -/
  full : Bool
  clock : Option (Nat × Nat × Nat)
  /-- The digits after the point. -/
  fraction : List CodePoint
  /-- The offset: whether it is negative, its hours and its minutes. -/
  zone : Option (Bool × Nat × Nat)
  deriving Repr

/-- Between `least` and `most` digits: their value, their count and the rest. -/
def takeDigits (least most : Nat) (cs : List CodePoint) : Option (Nat × Nat × List CodePoint) :=
  let ds := (cs.take most).takeWhile CodePoint.isDigit
  if ds.length < least then none
  else some (ds.foldl (fun n d => n * 10 + (d.toNat - 48)) 0, ds.length, cs.drop ds.length)

/-- A character that must come next. -/
def takeChar (c : CodePoint) : List CodePoint → Option (List CodePoint)
  | [] => none
  | d :: rest => if c = d then some rest else none

/-- Blanks between the parts of a point in time. -/
def isInnerBlank (c : CodePoint) : Bool := c == ' ' || c == '\t'

/-- The offset at the end of a point in time; the outer `none` for anything else there. -/
def takeZone (cs : List CodePoint) : Option (Option (Bool × Nat × Nat)) :=
  if cs.isEmpty then some none
  else
    match cs.dropWhile isInnerBlank with
    | [.char 'Z'] => some (some (false, 0, 0))
    | sign :: rest =>
      if sign = '-' || sign = '+' then do
        let (hours, _, rest) ← takeDigits 1 2 rest
        if rest.isEmpty then some (some (sign == '-', hours, 0))
        else
          let rest ← takeChar ':' rest
          let (minutes, _, rest) ← takeDigits 2 2 rest
          if rest.isEmpty then some (some (sign == '-', hours, minutes)) else none
      else none
    | [] => none

/-- A date, possibly with a time of day. -/
def readMoment (cs : List CodePoint) : Option Moment := do
  let (year, _, rest) ← takeDigits 4 4 cs
  let rest ← takeChar '-' rest
  let (month, monthWidth, rest) ← takeDigits 1 2 rest
  let rest ← takeChar '-' rest
  let (day, dayWidth, rest) ← takeDigits 1 2 rest
  let full := monthWidth == 2 && dayWidth == 2
  match rest with
  | [] => some ⟨year, month, day, full, none, [], none⟩
  | c :: more => do
    let rest ←
      if c = 'T' || c = 't' then some more
      else if isInnerBlank c then some (more.dropWhile isInnerBlank)
      else none
    let (hour, _, rest) ← takeDigits 1 2 rest
    let rest ← takeChar ':' rest
    let (minute, _, rest) ← takeDigits 2 2 rest
    let rest ← takeChar ':' rest
    let (second, _, rest) ← takeDigits 2 2 rest
    let (fraction, rest) := match rest with
      | .char '.' :: more => (more.takeWhile CodePoint.isDigit, more.dropWhile CodePoint.isDigit)
      | _ => ([], rest)
    let zone ← takeZone rest
    some ⟨year, month, day, full, some (hour, minute, second), fraction, zone⟩

/-- Does a text look like a date or a point in time? A date alone has all its digits. -/
def looksTimestamp (cs : List CodePoint) : Bool :=
  match readMoment cs with
  | some m => m.clock.isSome || m.full
  | none => false

/-- The tag of a text by its look. -/
def Tag.ofLook (cs : List CodePoint) : Tag :=
  let word := Text.ofList cs
  if nullWords.contains word then .null
  else if truthWords.contains word then .bool
  else if word = "<<" then .merge
  else if word = "=" then .value
  else if word = "!" || word = "&" || word = "*" then .other "tag:yaml.org,2002:yaml"
  else if looksFloat cs then .float
  else if looksInt cs then .int
  else if looksTimestamp cs then .timestamp
  else .str

/-- The tag of a plain scalar. -/
def Tag.ofPlain (text : Text) : Tag :=
  if text = "" then .null else Tag.ofLook (dropFinalBreak text.toList)

/-! ## Values -/

/-- A text without underscores. -/
def dropLines (cs : List CodePoint) : List CodePoint := cs.filter (· ≠ CodePoint.char '_')

/-- An integer in decimal. -/
def decimalInt (cs : List CodePoint) : Except Fault Int :=
  match readInt cs with
  | .ok i => .ok i
  | .error .malformed => .error (.integer 10 (Text.ofList cs))
  | .error (.tooLong n) => .error (.longInteger n)

/-- An integer in another base. -/
def basedInt (base : Nat) (cs : List CodePoint) : Except Fault Int :=
  match readIntIn? base cs with
  | some i => .ok i
  | none => .error (.integer base (Text.ofList cs))

/-- The value of places in base sixty, the least significant last. -/
def inSixties (places : List Int) : Int := places.foldl (fun n p => n * 60 + p) 0

/-- The value of an unsigned integer. -/
def unsignedInt (cs : List CodePoint) : Except Fault Int :=
  match cs with
  | [] => .error .emptyNumber
  | [.char '0'] => .ok 0
  | .char '0' :: .char 'b' :: rest => basedInt 2 rest
  | .char '0' :: .char 'x' :: rest => basedInt 16 rest
  | .char '0' :: _ => basedInt 8 cs
  | _ =>
    if cs.contains ':' then do .ok (inSixties (← (splitAt ':' cs).mapM decimalInt))
    else decimalInt cs

/-- The value of an integer. -/
def intValue (text : Text) : Except Fault Int := do
  let cs := dropLines text.toList
  if cs.isEmpty then .error .emptyNumber
  else
    let i ← unsignedInt (unsigned cs)
    .ok (if cs.head? = some '-' then -i else i)

/-- A floating point number in decimal. -/
def decimalFloat (cs : List CodePoint) : Except Fault Binary64 :=
  match readFloat? cs with
  | some x => .ok x
  | none => .error (.float (Text.ofList cs))

/-- The sum of places in base sixty, the least significant first, each rounded. What a place
counts for must be in range. -/
def floatSixties : (base : Nat) → (sum : Binary64) → List Binary64 → Except Fault Binary64
  | _, sum, [] => .ok sum
  | base, sum, p :: rest =>
    match Binary64.ofInt? base with
    | some x => floatSixties (base * 60) (sum.add (p.mul x)) rest
    | none => .error .sixtiesOverflow

/-- A text as it counts for a floating point number: without underscores, in lower case. -/
def floatText (text : Text) : List CodePoint := lower (dropLines text.toList)

/-- Is the text the notation of the undefined number? -/
def isUndefinedWord (text : Text) : Bool := Text.ofList (unsigned (floatText text)) = ".nan"

/-- The value of a floating point number. -/
def floatValue (text : Text) : Except Fault Binary64 := do
  let cs := floatText text
  if cs.isEmpty then .error .emptyNumber
  else
    let body := unsigned cs
    let x ←
      if Text.ofList body = ".inf" then .ok (Binary64.infinity false)
      else if Text.ofList body = ".nan" then .ok Binary64.nan
      else if body.contains ':' then do
        let places ← (splitAt ':' body).mapM decimalFloat
        floatSixties 1 Binary64.zero places.reverse
      else decimalFloat body
    .ok (if cs.head? = some '-' then x.neg else x)

/-- The value of a character of the base-64 alphabet. -/
def base64Value? (c : CodePoint) : Option Nat :=
  let n := c.toNat
  if 65 ≤ n && n ≤ 90 then some (n - 65)
  else if 97 ≤ n && n ≤ 122 then some (n - 71)
  else if 48 ≤ n && n ≤ 57 then some (n + 4)
  else if n = 43 then some 62
  else if n = 47 then some 63
  else none

/-- Bytes in base 64. `place` counts the characters of the current group of four, `left` holds
the bits left over, `pads` the padding seen. Other characters are ignored. -/
def base64From : (place left pads : Nat) → List CodePoint → Option (List UInt8)
  | place, _, _, [] => if place = 0 then some [] else none
  | place, left, pads, c :: rest =>
    if c = '=' then
      if 2 ≤ place && 4 ≤ place + (pads + 1) then some []
      else base64From place left (if 2 ≤ place then pads + 1 else pads) rest
    else
      match base64Value? c with
      | none => base64From place left pads rest
      | some v =>
        match place with
        | 0 => base64From 1 v 0 rest
        | 1 => (base64From 2 (v % 16) 0 rest).map (UInt8.ofNat (left * 4 + v / 16) :: ·)
        | 2 => (base64From 3 (v % 4) 0 rest).map (UInt8.ofNat (left * 16 + v / 4) :: ·)
        | _ => (base64From 0 0 0 rest).map (UInt8.ofNat (left * 64 + v) :: ·)

/-- The bytes of a text in base 64. -/
def bytesValue (text : Text) : Except Fault (List UInt8) :=
  if text.toList.all fun c => c.toNat < 128 then
    match base64From 0 0 0 text.toList with
    | some bs => .ok bs
    | none => .error .malformed
  else .error .malformed

/-- Microseconds from the digits after the point: the first six count. -/
def microsOf (fraction : List CodePoint) : Nat :=
  let ds := fraction.take 6
  ds.foldl (fun n d => n * 10 + (d.toNat - 48)) 0 * Nat.pow 10 (6 - ds.length)

/-- The value of a date or a point in time. -/
def momentValue (text : Text) : Except Fault Value :=
  match readMoment (dropFinalBreak text.toList) with
  | none => .error .timestamp
  | some m =>
    let date : Date := ⟨m.year, m.month, m.day⟩
    match m.clock with
    | none => (date.check.map Value.date).mapError .date
    | some (hour, minute, second) => do
      let offset ← match m.zone with
        | none => .ok none
        | some (negative, hours, minutes) =>
          let micros : Int := ((hours * 60 + minutes) * 60 * microsPerSecond : Nat)
          ((Offset.check (if negative then -micros else micros)).map some).mapError .offset
      let t : Stamp := ⟨date, hour, minute, second, microsOf m.fraction, offset⟩
      (t.check.map Value.stamp).mapError .date

/-- The value of a truth word, in any case. -/
def truthValue (text : Text) : Except Fault Bool :=
  let word := Text.ofList (lower text.toList)
  if word = "yes" || word = "true" || word = "on" then .ok true
  else if word = "no" || word = "false" || word = "off" then .ok false
  else .error (.truth word)

/-- The value of a scalar under its tag. -/
def scalarValue (tag : Tag) (text : Text) : Except Fault Value :=
  match tag with
  | .null => .ok .null
  | .bool => (truthValue text).map .bool
  | .int => (intValue text).map .int
  | .float => (floatValue text).map .float
  | .binary => (bytesValue text).map .bytes
  | .timestamp => momentValue text
  | .str => .ok (.text text)
  | _ => .error .malformed

end Conveyor.Yaml
