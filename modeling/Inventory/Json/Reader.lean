import Inventory.Decimal
import Inventory.Json.Basic

/-! Reading a JSON text. Every step takes the text that is left and gives the text after what it
read; `fuel` bounds the steps, and the length of the text is enough of it. -/
namespace Inventory.Json

def isSpace (c : Char) : Bool := c = ' ' || c = '\t' || c = '\n' || c = '\r'
def skipSpace (s : List Char) : List Char := s.dropWhile isSpace

def hexValue? (c : Char) : Option Nat :=
  if '0' ≤ c && c ≤ '9' then some (c.toNat - '0'.toNat)
  else if 'a' ≤ c && c ≤ 'f' then some (c.toNat - 'a'.toNat + 10)
  else if 'A' ≤ c && c ≤ 'F' then some (c.toNat - 'A'.toNat + 10)
  else none

/-- Four hexadecimal digits. -/
def unit? : List Char → Option (Nat × List Char)
  | a :: b :: c :: d :: rest => do
    let a ← hexValue? a
    let b ← hexValue? b
    let c ← hexValue? c
    let d ← hexValue? d
    return (((a * 16 + b) * 16 + c) * 16 + d, rest)
  | _ => none

def isHighSurrogate (n : Nat) : Bool := 0xD800 ≤ n && n < 0xDC00
def isLowSurrogate (n : Nat) : Bool := 0xDC00 ≤ n && n < 0xE000

def escaped? : Char → Option Char
  | '"' => some '"'
  | '\\' => some '\\'
  | '/' => some '/'
  | 'b' => some '\x08'
  | 'f' => some '\x0c'
  | 'n' => some '\n'
  | 'r' => some '\r'
  | 't' => some '\t'
  | _ => none

/-- The rest of a text after its opening quote. `read` holds what was read, last character first,
and is unknown once half a surrogate pair was met. -/
def text? : (fuel : Nat) → (read : Option (List Char)) → List Char →
    Option (Option String × List Char)
  | 0, _, _ => none
  | _, _, [] => none
  | fuel + 1, read, c :: rest =>
    if c = '"' then some (read.map fun cs => String.ofList cs.reverse, rest)
    else if c.toNat < 32 then none
    else if c != '\\' then text? fuel (read.map (c :: ·)) rest
    else match rest with
      | 'u' :: rest =>
        match unit? rest with
        | none => none
        | some (n, rest) =>
          if isLowSurrogate n then text? fuel none rest
          else if isHighSurrogate n then
            match rest with
            | '\\' :: 'u' :: more =>
              match unit? more with
              | some (m, more) =>
                if isLowSurrogate m then
                  let c := Char.ofNat (0x10000 + (n - 0xD800) * 0x400 + (m - 0xDC00))
                  text? fuel (read.map (c :: ·)) more
                else text? fuel none rest
              | none => none
            | _ => text? fuel none rest
          else text? fuel (read.map (Char.ofNat n :: ·)) rest
      | e :: rest => (escaped? e).bind fun c => text? fuel (read.map (c :: ·)) rest
      | [] => none

def digits (s : List Char) : List Char × List Char :=
  (s.takeWhile Char.isDigit, s.dropWhile Char.isDigit)

def fraction? : List Char → Option (List Char × List Char)
  | '.' :: s =>
    let (ds, rest) := digits s
    if ds.isEmpty then none else some (ds, rest)
  | s => some ([], s)

def exponent? : List Char → Option (Option (Bool × List Char) × List Char)
  | e :: s =>
    if e = 'e' || e = 'E' then
      let (negative, s) := match s with
        | '-' :: s => (true, s)
        | '+' :: s => (false, s)
        | s => (false, s)
      let (ds, rest) := digits s
      if ds.isEmpty then none else some (some (negative, ds), rest)
    else some (none, e :: s)
  | [] => some (none, [])

/-- No digit follows a leading zero, and a point or an exponent mark is followed by digits. -/
def number? (s : List Char) : Option (Decimal × List Char) := do
  let (negative, s) := match s with
    | '-' :: s => (true, s)
    | s => (false, s)
  let (whole, s) := digits s
  if whole.isEmpty || (whole.length > 1 && whole.head? = some '0') then none
  let (fraction, s) ← fraction? s
  let (exponent, s) ← exponent? s
  return (⟨negative, whole, fraction, exponent⟩, s)

/-- A number without fraction and exponent is an integer, except for the negative zero. -/
def ofNumber (d : Decimal) : Json :=
  if !d.inRange then .unusable
  else if d.fraction.isEmpty && d.exponent.isNone && !(d.negative && d.isZero) then
    let n := Decimal.natOfDigits d.whole
    .int (if d.negative then -(n : Int) else n)
  else .decimal d.text

def objectFrom (members : List (Option String × Json)) : Json :=
  match members.mapM fun m => m.1.map (·, m.2) with
  | some members => .object members
  | none => .unusable

mutual

def value? : (fuel : Nat) → List Char → Option (Json × List Char)
  | 0, _ => none
  | fuel + 1, s =>
    match skipSpace s with
    | 'n' :: 'u' :: 'l' :: 'l' :: rest => some (.null, rest)
    | 't' :: 'r' :: 'u' :: 'e' :: rest => some (.bool true, rest)
    | 'f' :: 'a' :: 'l' :: 's' :: 'e' :: rest => some (.bool false, rest)
    | '"' :: rest => (text? (rest.length + 1) (some []) rest).map fun (s, rest) =>
        ((s.map Json.string).getD .unusable, rest)
    | '[' :: rest =>
      match skipSpace rest with
      | ']' :: rest => some (.array [], rest)
      | rest => (items? fuel rest).map fun (items, rest) => (.array items, rest)
    | '\x7b' :: rest =>
      match skipSpace rest with
      | '\x7d' :: rest => some (.object [], rest)
      | rest => (members? fuel rest).map fun (members, rest) => (objectFrom members, rest)
    | rest => (number? rest).map fun (d, rest) => (ofNumber d, rest)

/-- One item or more, and the closing bracket. -/
def items? : (fuel : Nat) → List Char → Option (List Json × List Char)
  | 0, _ => none
  | fuel + 1, s => do
    let (item, rest) ← value? fuel s
    match skipSpace rest with
    | ']' :: rest => return ([item], rest)
    | ',' :: rest =>
      let (items, rest) ← items? fuel rest
      return (item :: items, rest)
    | _ => none

/-- One member or more, and the closing brace. -/
def members? : (fuel : Nat) → List Char → Option (List (Option String × Json) × List Char)
  | 0, _ => none
  | fuel + 1, s =>
    match skipSpace s with
    | '"' :: rest => do
      let (name, rest) ← text? (rest.length + 1) (some []) rest
      match skipSpace rest with
      | ':' :: rest =>
        let (value, rest) ← value? fuel rest
        match skipSpace rest with
        | '\x7d' :: rest => return ([(name, value)], rest)
        | ',' :: rest =>
          let (members, rest) ← members? fuel rest
          return ((name, value) :: members, rest)
        | _ => none
      | _ => none
    | _ => none

end

/-- A whole text: one value between blanks. -/
def read? (s : String) : Option Json := do
  let (value, rest) ← value? (s.toList.length + 1) s.toList
  if (skipSpace rest).isEmpty then some value else none

end Inventory.Json
