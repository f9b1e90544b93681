import Inventory.Toml.Basic

/-! Writing TOML: a document of plain entries, and sections of such entries after them. A text is
written in the first of four kinds of quotes that can hold it as it stands, and with escapes if none
can. -/
namespace Inventory.Toml

/-- What decides how a text can be quoted. -/
structure TextShape where
  /-- There are control characters other than the tab and the newline. -/
  controls : Bool
  backslash : Bool
  newline : Bool
  /-- The length of the longest run of double quotes, and of single quotes. -/
  doubleQuotes : Nat
  singleQuotes : Nat

/-- The length of the longest run of `c` in a text that `current` of them stand before. -/
def longestRun (c : Char) (current : Nat) : List Char → Nat
  | [] => current
  | d :: s => if d = c then longestRun c (current + 1) s else max current (longestRun c 0 s)

def isEscapeCode (c : Char) : Bool := (c.toNat < 32 && c != '\t' && c != '\n') || c.toNat = 127

def TextShape.of (s : List Char) : TextShape where
  controls := s.any isEscapeCode
  backslash := s.contains '\\'
  newline := s.contains '\n'
  doubleQuotes := longestRun '"' 0 s
  singleQuotes := longestRun '\'' 0 s

def upperHex (width n : Nat) : String :=
  let ds := (Nat.toDigits 16 n).map Char.toUpper
  String.ofList (List.replicate (width - ds.length) '0' ++ ds)

/-- A character between double quotes; a quote is treated elsewhere. -/
def escaped (multiline : Bool) (c : Char) : String :=
  if c = '\x08' then "\\b"
  else if c = '\t' then "\\t"
  else if c = '\n' then (if multiline then "\n" else "\\n")
  else if c = '\x0c' then "\\f"
  else if c = '\r' then "\\r"
  else if c = '\\' then "\\\\"
  else if isEscapeCode c then "\\u" ++ upperHex 4 c.toNat
  else c.toString

/-- A text between double quotes. On one line every quote is escaped, on several lines only the last
of three that follow one another; `run` counts those that stand before. -/
def escapedText (multiline : Bool) (run : Nat) : List Char → String
  | [] => ""
  | c :: s =>
    if c = '"' then
      if multiline && run < 2 then "\"" ++ escapedText multiline (run + 1) s
      else "\\\"" ++ escapedText multiline 0 s
    else escaped multiline c ++ escapedText multiline 0 s

def basic (s : List Char) : String := "\"" ++ escapedText false 0 s ++ "\""
def literal (s : List Char) : String := "'" ++ String.ofList s ++ "'"

/-- A text of several lines starts on a line of its own. -/
def opening (shape : TextShape) (quotes : String) : String :=
  if shape.newline then quotes ++ "\n" else quotes

def multilineBasic (shape : TextShape) (s : List Char) : String :=
  opening shape "\"\"\"" ++ escapedText true 0 s ++ "\"\"\""

def multilineLiteral (shape : TextShape) (s : List Char) : String :=
  opening shape "'''" ++ String.ofList s ++ "'''"

def quoted (text : String) : String :=
  let s := text.toList
  let shape := TextShape.of s
  if !shape.controls && !shape.backslash && !shape.newline && shape.doubleQuotes = 0 then basic s
  else if !shape.controls && !shape.newline && shape.singleQuotes = 0 then literal s
  else if !shape.controls && !shape.backslash && shape.doubleQuotes ≤ 2 then multilineBasic shape s
  else if !shape.controls && shape.singleQuotes ≤ 2 then multilineLiteral shape s
  else if shape.newline then multilineBasic shape s
  else basic s

def isBareChar (c : Char) : Bool := c.isAlphanum || c = '-' || c = '_'

def keyText (key : String) : String :=
  let s := key.toList
  let shape := TextShape.of s
  if !s.isEmpty && s.all isBareChar then key
  else if !shape.controls && !shape.newline && !shape.backslash && shape.doubleQuotes = 0 then
    basic s
  else if !shape.controls && !shape.newline && shape.singleQuotes = 0 then literal s
  else basic s

/-- What can stand in a plain entry. -/
inductive Leaf where
  | text (s : String)
  | number (n : Nat)
  | texts (items : List String)
  deriving DecidableEq, Repr

/-- Two items or more stand on lines of their own. -/
def arrayText : List String → String
  | [] => "[]"
  | [item] => "[" ++ quoted item ++ "]"
  | items => "[\n" ++ String.join (items.map fun item => "    " ++ quoted item ++ ",\n") ++ "]"

namespace Leaf

def written : Leaf → String
  | text s => quoted s
  | number n => toString n
  | texts items => arrayText items

def value : Leaf → Toml
  | text s => .string s
  | number n => .integer n
  | texts items => .array (items.map .string)

end Leaf

abbrev Entry := String × Leaf

def entryText (e : Entry) : String := keyText e.1 ++ " = " ++ e.2.written ++ "\n"
def entriesText (entries : List Entry) : String := String.join (entries.map entryText)

structure Document where
  entries : List Entry
  sections : List (String × List Entry)
  deriving DecidableEq, Repr

namespace Document

def sectionText (s : String × List Entry) : String :=
  "\n[" ++ keyText s.1 ++ "]\n" ++ entriesText s.2

def text (d : Document) : String :=
  entriesText d.entries ++ String.join (d.sections.map sectionText)

def entryValues (entries : List Entry) : List (String × Toml) :=
  entries.map fun e => (e.1, e.2.value)

/-- The table that the document describes. -/
def value (d : Document) : Toml :=
  .table (entryValues d.entries ++ d.sections.map fun s => (s.1, .table (entryValues s.2)))

end Document

end Inventory.Toml
