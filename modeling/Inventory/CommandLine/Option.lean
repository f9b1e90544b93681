import Inventory.Text.Split

/-! Options on a command line: `--name value`, `--name=value`, and for those that have a letter
`-n value`, `-nvalue` and `-n=value`. -/
namespace Inventory.CommandLine

inductive Kind where
  /-- The option has no value. -/
  | flag
  /-- The option has no value, and no argument after it is read. -/
  | ending
  | text
  /-- A text that is not empty. -/
  | path
  /-- A number below `bound`. -/
  | number (bound : Nat)
  /-- Texts between commas. Only such an option may be given more than once. -/
  | texts
  deriving DecidableEq, Repr

structure OptionSpec where
  name : String
  letter : Option Char := none
  kind : Kind
  deriving DecidableEq, Repr

/-- Whether an option has a value. -/
def Kind.hasValue : Kind → Bool
  | flag | ending => false
  | _ => true

/-- An option as given, with the empty text where it has no value. -/
structure Given where
  name : String
  value : String
  deriving DecidableEq, Repr

/-- Digits, perhaps after a plus sign. -/
def number? (bound : Nat) (s : String) : Option Nat :=
  let ds := match s.toList with
    | '+' :: ds => ds
    | ds => ds
  let n := ds.foldl (fun n d => n * 10 + (d.toNat - '0'.toNat)) 0
  if !ds.isEmpty && ds.all Char.isDigit && n < bound then some n else none

def Kind.accepts (value : String) : Kind → Bool
  | flag | ending => value.isEmpty
  | path => !value.isEmpty
  | number bound => (number? bound value).isSome
  | text | texts => true

/-- An argument that stands for no option. A lone dash is a value. -/
def isPlain (argument : String) : Bool :=
  match argument.toList with
  | '-' :: _ :: _ => false
  | _ => true

/-- The option that an argument names, and the value that is part of the argument. -/
def named? (specs : List OptionSpec) (argument : String) : Option (OptionSpec × Option String) :=
  match argument.toList with
  | '-' :: '-' :: rest =>
    let (name, value) := match Text.cutAt? ['='] rest with
      | some (name, value) => (name, some (String.ofList value))
      | none => (rest, none)
    (specs.find? (·.name.toList == name)).map (·, value)
  | '-' :: letter :: rest =>
    (specs.find? (·.letter == some letter)).map fun spec =>
      match rest with
      | [] => (spec, none)
      | '=' :: value => (spec, some (String.ofList value))
      | value => (spec, some (String.ofList value))
  | _ => none

def given? (spec : OptionSpec) (value : String) : Option Given :=
  if spec.kind.accepts value then some ⟨spec.name, value⟩ else none

/-- The options in front, and the arguments from the first plain one on. -/
def options? (specs : List OptionSpec) : List String → Option (List Given × List String)
  | [] => some ([], [])
  | argument :: rest =>
    if isPlain argument then some ([], argument :: rest)
    else if argument = "--" then (if rest.isEmpty then some ([], []) else none)
    else match named? specs argument with
      | none => none
      | some (spec, some value) =>
        if !spec.kind.hasValue then none
        else do
          let given ← given? spec value
          let (more, rest) ← options? specs rest
          return (given :: more, rest)
      | some (spec, none) =>
        if spec.kind = .ending then some ([⟨spec.name, ""⟩], [])
        else if spec.kind = .flag then do
          let (more, rest) ← options? specs rest
          return (⟨spec.name, ""⟩ :: more, rest)
        else match rest with
          | [] => none
          | value :: rest =>
            if isPlain value then do
              let given ← given? spec value
              let (more, rest) ← options? specs rest
              return (given :: more, rest)
            else none

def times (name : String) (given : List Given) : Nat := given.countP (·.name == name)

/-- No option is given twice, but for those that take several texts. -/
def noneRepeated (specs : List OptionSpec) (given : List Given) : Bool :=
  specs.all fun spec => spec.kind == .texts || times spec.name given ≤ 1

def value? (name : String) (given : List Given) : Option String :=
  (given.find? (·.name == name)).map (·.value)

def has (name : String) (given : List Given) : Bool := given.any (·.name == name)

/-- All texts of an option. An empty value is one empty text. -/
def texts (name : String) (given : List Given) : List String :=
  (given.filter (·.name == name)).flatMap fun g =>
    (Text.splitAt ',' g.value.toList).map String.ofList

end Inventory.CommandLine
