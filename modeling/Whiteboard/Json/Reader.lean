import Whiteboard.Json
import Whiteboard.Decimal.Integer
import Whiteboard.Text.Utf8
import Whiteboard.Text.Hex

/-!
# Reading JSON

A recursive reader of JSON text. Beyond the standard it takes the numbers `NaN`, `Infinity` and
`-Infinity`, where the scalar type has them. There are limits to the nesting of arrays and objects
and to the digits of an integer. A break in the form is told by the characters that were left where
it was noticed, so its position is the length of the text less theirs.
-/

namespace Whiteboard.Json

variable {α : Type} [Scalar α]

/-- Why a reader stops. -/
inductive Stop where
  /-- The text breaks the form of JSON where these characters are left. -/
  | malformed (rest : List Char)
  /-- Arrays and objects are nested too deep. -/
  | tooDeep
  /-- An integer has too many digits. -/
  | tooLong (digits : Nat)

/-- The result of a reader: a value and the rest of the text, or why it stopped. -/
abbrev Reading (β : Type) := Except Stop (β × List Char)

/-- How deep arrays and objects may be nested. -/
def maxNesting : Nat := 960

/-- The blanks of JSON. -/
def isGap (c : Char) : Bool := c == ' ' || c == '\t' || c == '\n' || c == '\r'

def skipGap (cs : List Char) : List Char := cs.dropWhile isGap

/-- Four hexadecimal digits. -/
def hexUnit? (a b c d : Char) : Option Nat :=
  ([a, b, c, d].mapM Text.hexValue?).map fun digits => digits.foldl (fun n d => 16 * n + d) 0

/-- The character that a one-letter escape stands for. -/
def escaped? : Char → Option Char
  | '"' => some '"'
  | '\\' => some '\\'
  | '/' => some '/'
  | 'b' => some '\x08'
  | 'f' => some '\x0c'
  | 'n' => some '\n'
  | 'r' => some '\r'
  | 't' => some '\t'
  | _ => none

/-- The low half of a surrogate pair that follows its high half. -/
def lowSurrogate? : List Char → Option Nat
  | '\\' :: 'u' :: a :: b :: c :: d :: _ :: _ =>
    (hexUnit? a b c d).filter fun unit => 0xDC00 ≤ unit && unit < 0xE000
  | _ => none

/-- Reads up to the closing quote; `opening` is the text from the opening quote on. -/
def readString (opening : List Char) : Nat → List Char → Reading (List Char)
  | 0, _ => .error (.malformed opening)
  | _, [] => .error (.malformed opening)
  | _, '"' :: rest => .ok ([], rest)
  | fuel + 1, '\\' :: 'u' :: a :: b :: c :: d :: next :: rest =>
    match hexUnit? a b c d with
    | none => .error (.malformed ('u' :: a :: b :: c :: d :: next :: rest))
    | some unit =>
      if 0xD800 ≤ unit ∧ unit < 0xDC00 then
        match lowSurrogate? (next :: rest) with
        | some low =>
          (readString opening fuel (rest.drop 5)).map fun (cs, after) =>
            (Char.ofNat (0x10000 + (unit - 0xD800) * 0x400 + (low - 0xDC00)) :: cs, after)
        | none => (readString opening fuel (next :: rest)).map fun (cs, after) =>
            (Text.replacement :: cs, after)
      else
        (readString opening fuel (next :: rest)).map fun (cs, after) =>
          let c := if 0xDC00 ≤ unit ∧ unit < 0xE000 then Text.replacement else Char.ofNat unit
          (c :: cs, after)
  | _, '\\' :: 'u' :: rest => .error (.malformed ('u' :: rest))
  | _, ['\\'] => .error (.malformed opening)
  | fuel + 1, '\\' :: c :: rest =>
    match escaped? c with
    | some e => (readString opening fuel rest).map fun (cs, after) => (e :: cs, after)
    | none => .error (.malformed ('\\' :: c :: rest))
  | fuel + 1, c :: rest =>
    if c.toNat < 32 then .error (.malformed (c :: rest))
    else (readString opening fuel rest).map fun (cs, after) => (c :: cs, after)

/-- The digits of a whole number, which start with zero only if they are `0`. -/
def takeWhole : List Char → List Char × List Char
  | '0' :: rest => (['0'], rest)
  | cs => Text.span Char.isDigit cs

/-- A point and the digits behind it, at least one. -/
def takeFraction : List Char → List Char × List Char
  | '.' :: rest =>
    let (digits, after) := Text.span Char.isDigit rest
    if digits.isEmpty then ([], '.' :: rest) else (digits, after)
  | cs => ([], cs)

/-- A number: an integer if it has neither a fraction nor an exponent. -/
def readNumber (cs : List Char) : Reading (Json α) :=
  let (negative, unsigned) : Bool × List Char :=
    match cs with
    | '-' :: rest => (true, rest)
    | _ => (false, cs)
  let (whole, afterWhole) := takeWhole unsigned
  if whole.isEmpty then .error (.malformed cs)
  else
    let (fraction, afterFraction) := takeFraction afterWhole
    match Decimal.takeExponent? afterFraction with
    | some (e, after) => .ok (num (Decimal.ofParts negative whole fraction e).toScalar, after)
    | none =>
      if !fraction.isEmpty then
        .ok (num (Decimal.ofParts negative whole fraction 0).toScalar, afterFraction)
      else if Decimal.maxIntegerDigits < whole.length then .error (.tooLong whole.length)
      else
        let n : Int := Decimal.ofDigits whole
        .ok (int (if negative then -n else n), afterFraction)

/-- The words of JSON and the names of numbers without digits. -/
def words : List (List Char × Option (Json α)) :=
  [("null".toList, some null), ("true".toList, some (bool true)),
    ("false".toList, some (bool false)), ("NaN".toList, Scalar.writtenUndefined?.map num),
    ("Infinity".toList, Scalar.infinity?.map num),
    ("-Infinity".toList, Scalar.infinity?.map fun x => num (-x))]

/-- The first word of a list at the front of a text. -/
def readWord? (cs : List Char) : List (List Char × Option (Json α)) → Option (Json α × List Char)
  | [] => none
  | (word, value?) :: more =>
    match value? with
    | some value =>
      if word.isPrefixOf cs then some (value, cs.drop word.length) else readWord? cs more
    | none => readWord? cs more

/-- A value that is neither a text, an array nor an object. -/
def readAtom (cs : List Char) : Reading (Json α) :=
  match readWord? cs words with
  | some result => .ok result
  | none => readNumber cs

mutual

/-- A value at the front of a text, with no blanks before it, in which arrays and objects may be
nested up to `room` deep. -/
def readValue (room : Nat) : Nat → List Char → Reading (Json α)
  | 0, cs => .error (.malformed cs)
  | fuel + 1, cs =>
    match cs with
    | [] => .error (.malformed [])
    | '"' :: rest =>
      (readString cs (rest.length + 1) rest).map fun (s, after) => (str (String.ofList s), after)
    | '[' :: rest =>
      if room = 0 then .error .tooDeep
      else
        match skipGap rest with
        | ']' :: after => .ok (arr [], after)
        | inner =>
          (readItems (room - 1) fuel inner).map fun (items, after) => (arr items, after)
    | '{' :: rest =>
      if room = 0 then .error .tooDeep
      else
        match skipGap rest with
        | '}' :: after => .ok (obj [], after)
        | inner =>
          (readMembers (room - 1) fuel [] inner).map fun (members, after) => (obj members, after)
    | _ => readAtom cs

/-- The items of an array up to its closing bracket. -/
def readItems (room : Nat) : Nat → List Char → Reading (List (Json α))
  | 0, cs => .error (.malformed cs)
  | fuel + 1, cs =>
    match readValue room fuel cs with
    | .error stop => .error stop
    | .ok (item, rest) =>
      match skipGap rest with
      | ']' :: after => .ok ([item], after)
      | ',' :: after =>
        (readItems room fuel (skipGap after)).map fun (items, left) => (item :: items, left)
      | other => .error (.malformed other)

/-- The members of an object up to its closing brace, after those in `done`. -/
def readMembers (room : Nat) : Nat → Entries (Json α) → List Char → Reading (Entries (Json α))
  | 0, _, cs => .error (.malformed cs)
  | fuel + 1, done, cs =>
    match cs with
    | '"' :: quoted =>
      match readString cs (quoted.length + 1) quoted with
      | .error stop => .error stop
      | .ok (key, rest) =>
        match skipGap rest with
        | ':' :: after =>
          match readValue room fuel (skipGap after) with
          | .error stop => .error stop
          | .ok (value, rest) =>
            let done := Entries.set (String.ofList key) value done
            match skipGap rest with
            | '}' :: after => .ok (done, after)
            | ',' :: after => readMembers room fuel done (skipGap after)
            | other => .error (.malformed other)
        | other => .error (.malformed other)
    | other => .error (.malformed other)

end

/-- Why a text is no JSON value. -/
inductive Fault where
  /-- It breaks the form, behind so many characters. -/
  | malformed (position : Nat)
  | tooDeep
  | tooLong (digits : Nat)
  deriving DecidableEq, Repr

/-- What is said about an integer with too many digits. -/
def Fault.tooLongText (digits : Nat) : String :=
  s!"Exceeds the limit ({Decimal.maxIntegerDigits} digits) for integer string conversion: " ++
    s!"value has {digits} digits; use sys.set_int_max_str_digits() to increase the limit"

/-- What stopped the reader of a text with a number of characters. -/
def Stop.fault (length : Nat) : Stop → Fault
  | malformed rest => .malformed (length - rest.length)
  | tooDeep => .tooDeep
  | tooLong digits => .tooLong digits

/-- A whole text as one JSON value. -/
def read (text : List Char) : Except Fault (Json α) :=
  match text with
  | '\uFEFF' :: _ => .error (.malformed 0)
  | _ =>
    match readValue maxNesting (text.length + 1) (skipGap text) with
    | .error stop => .error (stop.fault text.length)
    | .ok (value, rest) =>
      match skipGap rest with
      | [] => .ok value
      | extra => .error (.malformed (text.length - extra.length))

end Whiteboard.Json
