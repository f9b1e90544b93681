import Inventory.Json.Basic

/-! JSON texts: compact, and indented by two spaces a level. -/
namespace Inventory.Json

def hexDigit (n : Nat) : Char := (Nat.toDigits 16 n).headD '0'

/-- Quotes, backslashes and control characters are escaped, all else stands for itself. -/
def escapeChar (c : Char) : String :=
  if c = '"' then "\\\""
  else if c = '\\' then "\\\\"
  else if c = '\n' then "\\n"
  else if c = '\r' then "\\r"
  else if c = '\t' then "\\t"
  else if c.toNat = 8 then "\\b"
  else if c.toNat = 12 then "\\f"
  else if c.toNat < 32 then
    "\\u00" ++ String.ofList [hexDigit (c.toNat / 16), hexDigit (c.toNat % 16)]
  else c.toString

def quote (s : String) : String := "\"" ++ String.join (s.toList.map escapeChar) ++ "\""

def leaf : Json → String
  | bool true => "true"
  | bool false => "false"
  | int value => toString value
  | decimal literal => literal
  | string value => quote value
  | _ => "null"

mutual

def compact : Json → String
  | array items => "[" ++ ",".intercalate (compactItems items) ++ "]"
  | object members => "\x7b" ++ ",".intercalate (compactMembers members) ++ "\x7d"
  | value => leaf value

def compactItems : List Json → List String
  | [] => []
  | item :: rest => compact item :: compactItems rest

def compactMembers : List (String × Json) → List String
  | [] => []
  | (name, value) :: rest => (quote name ++ ":" ++ compact value) :: compactMembers rest

end

/-- The items of a bracketed list, one a line, `indent` being the lines' own indent. -/
def block (opening closing indent : String) (items : List String) : String :=
  if items.isEmpty then opening ++ closing
  else
    opening ++ "\n" ++ ",\n".intercalate (items.map (indent ++ "  " ++ ·)) ++ "\n" ++
      indent ++ closing

mutual

def indented (indent : String) : Json → String
  | array items => block "[" "]" indent (indentedItems (indent ++ "  ") items)
  | object members => block "\x7b" "\x7d" indent (indentedMembers (indent ++ "  ") members)
  | value => leaf value

def indentedItems (indent : String) : List Json → List String
  | [] => []
  | item :: rest => indented indent item :: indentedItems indent rest

def indentedMembers (indent : String) : List (String × Json) → List String
  | [] => []
  | (name, value) :: rest =>
    (quote name ++ ": " ++ indented indent value) :: indentedMembers indent rest

end

def pretty (value : Json) : String := indented "" value

end Inventory.Json
