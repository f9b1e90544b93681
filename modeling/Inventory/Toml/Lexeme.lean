import Inventory.Text.Split
import Inventory.Toml.Basic

/-! The lexical parts of a TOML text: blanks, comments, strings, keys, numbers and dates. Every
reader takes the text that is left and gives the text after what it read. -/
namespace Inventory.Toml

abbrev Rest := List Char

def isSpace (c : Char) : Bool := c = ' ' || c = '\t'
def skipSpace (s : Rest) : Rest := s.dropWhile isSpace

/-- Control characters but the tab, which no text may hold as they are. -/
def isControl (c : Char) : Bool := (c.toNat < 32 && c != '\t') || c.toNat = 127

def newline? : Rest → Option Rest
  | '\n' :: rest => some rest
  | '\r' :: '\n' :: rest => some rest
  | _ => none

def skipComment : Rest → Rest
  | '#' :: rest => rest.dropWhile (!isControl ·)
  | s => s

/-- Blanks and a comment to the end of the line or of the text. -/
def lineEnd? (s : Rest) : Option Rest :=
  match skipComment (skipSpace s) with
  | [] => some []
  | s => newline? s

/-- Blanks, newlines and comments, as they may stand between the items of an array. -/
def skipLines (fuel : Nat) (s : Rest) : Rest :=
  match fuel with
  | 0 => s
  | fuel + 1 =>
    let s := skipSpace s
    match s with
    | '#' :: _ => match newline? (skipComment s) with
      | some rest => skipLines fuel rest
      | none => s
    | _ => match newline? s with
      | some rest => skipLines fuel rest
      | none => s

def hexValue? (c : Char) : Option Nat :=
  if c.isDigit then some (c.toNat - '0'.toNat)
  else if 'a' ≤ c && c ≤ 'f' then some (c.toNat - 'a'.toNat + 10)
  else if 'A' ≤ c && c ≤ 'F' then some (c.toNat - 'A'.toNat + 10)
  else none

/-- The character whose number stands in `width` hexadecimal digits. -/
def numbered? (width : Nat) (s : Rest) : Option (Char × Rest) := do
  let ds ← (s.take width).mapM hexValue?
  let n := ds.foldl (fun n d => n * 16 + d) 0
  if ds.length = width && n.isValidChar then return (Char.ofNat n, s.drop width) else none

/-- What a backslash and the text after it stand for. -/
def escape? : Rest → Option (Char × Rest)
  | 'b' :: s => some ('\x08', s)
  | 't' :: s => some ('\t', s)
  | 'n' :: s => some ('\n', s)
  | 'f' :: s => some ('\x0c', s)
  | 'r' :: s => some ('\r', s)
  | '"' :: s => some ('"', s)
  | '\\' :: s => some ('\\', s)
  | 'u' :: s => numbered? 4 s
  | 'U' :: s => numbered? 8 s
  | _ => none

/-- The rest of a string on one line after its opening quote. -/
def basic? : (fuel : Nat) → Rest → Option (List Char × Rest)
  | fuel + 1, c :: s =>
    if c = '"' then some ([], s)
    else if c = '\\' then do
      let (c, s) ← escape? s
      let (cs, s) ← basic? fuel s
      return (c :: cs, s)
    else if isControl c then none
    else (basic? fuel s).map fun (cs, s) => (c :: cs, s)
  | _, _ => none

/-- The same for a string that is taken as it stands. -/
def literal? : Rest → Option (List Char × Rest)
  | [] => none
  | c :: s =>
    if c = '\'' then some ([], s)
    else if isControl c then none
    else (literal? s).map fun (cs, s) => (c :: cs, s)

/-- A run of quotes in a text that three of them close: fewer than three are part of the text, and
of three to five the last three close it. -/
def quoteRun? (quote : Char) (s : Rest) : Option (Nat × Bool × Rest) :=
  let n := (s.takeWhile (· == quote)).length
  if n < 3 then some (n, false, s.drop n)
  else if n ≤ 5 then some (n - 3, true, s.drop n)
  else none

/-- Blanks and newlines, which a backslash at the end of a line takes away. -/
def skipBlankLines : Rest → Rest
  | ' ' :: s => skipBlankLines s
  | '\t' :: s => skipBlankLines s
  | '\n' :: s => skipBlankLines s
  | '\r' :: '\n' :: s => skipBlankLines s
  | s => s

/-- The rest of a string of several lines. With `escapes` a backslash escapes, and one at the end of
a line takes the blanks and newlines after it away. -/
def multiline? (quote : Char) (escapes : Bool) : (fuel : Nat) → Rest → Option (List Char × Rest)
  | 0, _ => none
  | _, [] => none
  | fuel + 1, c :: s =>
    if c = quote then do
      let (n, closed, s) ← quoteRun? quote (c :: s)
      let (cs, s) ← if closed then some ([], s) else multiline? quote escapes fuel s
      return (List.replicate n quote ++ cs, s)
    else if escapes && c = '\\' then
      match newline? (skipSpace s) with
      | some s => multiline? quote escapes fuel (skipBlankLines s)
      | none => do
        let (c, s) ← escape? s
        let (cs, s) ← multiline? quote escapes fuel s
        return (c :: cs, s)
    else match newline? (c :: s) with
      | some s => (multiline? quote escapes fuel s).map fun (cs, s) => ('\n' :: cs, s)
      | none =>
        if isControl c then none
        else (multiline? quote escapes fuel s).map fun (cs, s) => (c :: cs, s)

/-- A newline directly after the opening quotes is no part of the text. -/
def dropNewline (s : Rest) : Rest := (newline? s).getD s

def quoted? : Rest → Option (String × Rest)
  | '"' :: '"' :: '"' :: s => (multiline? '"' true (s.length + 1) (dropNewline s)).map wrap
  | '"' :: s => (basic? (s.length + 1) s).map wrap
  | '\'' :: '\'' :: '\'' :: s => (multiline? '\'' false (s.length + 1) (dropNewline s)).map wrap
  | '\'' :: s => (literal? s).map wrap
  | _ => none
where
  wrap (p : List Char × Rest) : String × Rest := (String.ofList p.1, p.2)

def isBareKeyChar (c : Char) : Bool := c.isAlphanum || c = '-' || c = '_'

def simpleKey? : Rest → Option (String × Rest)
  | '"' :: s => (basic? (s.length + 1) s).map fun (cs, s) => (String.ofList cs, s)
  | '\'' :: s => (literal? s).map fun (cs, s) => (String.ofList cs, s)
  | s =>
    let cs := s.takeWhile isBareKeyChar
    if cs.isEmpty then none else some (String.ofList cs, s.drop cs.length)

/-- The limit of parts of a key, and of the nesting of values. -/
def nestingLimit : Nat := 80

/-- The parts of a key between dots, and blanks around them. -/
def keyParts? : (fuel : Nat) → Rest → Option (List String × Rest)
  | 0, _ => none
  | fuel + 1, s => do
    let (part, s) ← simpleKey? (skipSpace s)
    match skipSpace s with
    | '.' :: s =>
      let (parts, s) ← keyParts? fuel s
      return (part :: parts, s)
    | s => return ([part], s)

/-- The parts before the last, and the last. -/
def key? (s : Rest) : Option ((List String × String) × Rest) := do
  let (parts, s) ← keyParts? (nestingLimit - 1) s
  let last ← parts.getLast?
  return ((parts.dropLast, last), s)

end Inventory.Toml
