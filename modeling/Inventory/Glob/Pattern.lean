import Inventory.Glob.Regular

/-! Glob patterns over paths. `?` is a byte and `*` a run of bytes other than the slash, `**` in the
place of whole path parts is any number of them, `[…]` is a byte of a class, and `{…,…}` one of
several patterns. Matching is on the bytes of UTF-8, so `?` does not match a character
of several. -/
namespace Inventory.Glob

inductive Token where
  | literal (c : Char)
  | anyByte
  | anyRun
  /-- `**` or `**/` where a pattern starts: nothing, or parts and a slash. -/
  | partsBefore
  /-- `/**` where a pattern ends: a slash and anything. -/
  | partsAfter
  /-- `/**/` inside: a slash, with parts before it or none. -/
  | partsBetween
  | oneOf (negated : Bool) (ranges : List (Char × Char))
  | choice (branches : List (List Token))

structure Options where
  /-- Letters `a` to `z` match their other case. -/
  ignoreCase : Bool
  /-- A backslash takes the next character literally. -/
  escapes : Bool

/-- The patterns being read. Branches are innermost first, and tokens last first. -/
structure Reading where
  branches : List (List Token)
  /-- For each open brace, how many branches there were before it. -/
  openings : List Nat

namespace Reading

def start : Reading := ⟨[[]], []⟩

def push (r : Reading) (t : Token) : Reading :=
  match r.branches with
  | branch :: rest => { r with branches := (t :: branch) :: rest }
  | [] => { r with branches := [[t]] }

def pop (r : Reading) : Option Token × Reading :=
  match r.branches with
  | (t :: branch) :: rest => (some t, { r with branches := branch :: rest })
  | _ => (none, r)

def atBranchStart (r : Reading) : Bool :=
  match r.branches with
  | [] :: _ => true
  | _ => false

def openBrace (r : Reading) : Reading :=
  ⟨[] :: r.branches, r.branches.length :: r.openings⟩

/-- The branches since the last open brace become a choice. -/
def closeBrace? (r : Reading) : Option Reading :=
  match r.openings with
  | [] => none
  | opening :: openings =>
    let inner := r.branches.take (r.branches.length - opening)
    let rest : Reading := ⟨r.branches.drop (r.branches.length - opening), openings⟩
    some (rest.push (.choice (inner.reverse.map List.reverse)))

/-- Inside braces a comma starts the next branch. -/
def comma (r : Reading) : Reading :=
  if r.openings.isEmpty then r.push (.literal ',') else { r with branches := [] :: r.branches }

def pushRuns (r : Reading) : Reading := (r.push .anyRun).push .anyRun

end Reading

/-- The ranges of a class after its opening, and the text after its end. `openRange` says that the
last character was a dash that may join its neighbours. The first character is never the end. -/
def classRanges? (ranges : List (Char × Char)) (isFirst openRange : Bool) :
    List Char → Option (List (Char × Char) × List Char)
  | [] => none
  | c :: s =>
    if c = ']' && !isFirst then
      some ((if openRange then ('-', '-') :: ranges else ranges).reverse, s)
    else if c = '-' && !isFirst && !openRange then classRanges? ranges false true s
    else if openRange then
      match ranges with
      | (low, _) :: rest => if c < low then none else classRanges? ((low, c) :: rest) false false s
      | [] => none
    else classRanges? ((c, c) :: ranges) false false s

/-- A second star was read after `before`. Gives the tokens so far, what is left, and whether a
slash was taken with the stars. -/
def doubleStar (r : Reading) (before : Option Char) (s : List Char) : Reading × List Char × Bool :=
  if r.atBranchStart then
    match s with
    | [] => (r.push .partsBefore, [], false)
    | '/' :: s => (r.push .partsBefore, s, true)
    | s => (r.pushRuns, s, false)
  else if before != some '/' &&
      (r.branches.length ≤ 1 || (before != some ',' && before != some '\x7b')) then
    (r.pushRuns, s, false)
  else
    let place (isLast : Bool) : Reading :=
      match r.pop with
      | (some .partsBefore, r) => r.push .partsBefore
      | (some .partsAfter, r) => r.push .partsAfter
      | (_, r) => r.push (if isLast then .partsAfter else .partsBetween)
    match s with
    | [] => (place true, [], false)
    | '/' :: s => (place false, s, true)
    | c :: rest =>
      if (c = ',' || c = '\x7d') && r.branches.length ≥ 2 then (place true, c :: rest, false)
      else (r.pushRuns, c :: rest, false)

/-- Reads the tokens of a pattern; `before` is the character before `s`. -/
def readTokens? (options : Options) : (fuel : Nat) → Reading → (before : Option Char) →
    List Char → Option Reading
  | _, r, _, [] => some r
  | 0, _, _, _ => none
  | fuel + 1, r, before, c :: s =>
    let next := fun (r : Reading) => readTokens? options fuel r (some c) s
    match c with
    | '?' => next (r.push .anyByte)
    | '*' =>
      match s with
      | '*' :: s =>
        let (r, s, tookSlash) := doubleStar r before s
        readTokens? options fuel r (some (if tookSlash then '/' else '*')) s
      | _ => next (r.push .anyRun)
    | '[' =>
      let (negated, s) := match s with
        | '!' :: s | '^' :: s => (true, s)
        | s => (false, s)
      match classRanges? [] true false s with
      | none => none
      | some (ranges, s) => readTokens? options fuel (r.push (.oneOf negated ranges)) (some ']') s
    | '\x7b' => next r.openBrace
    | '\x7d' => r.closeBrace?.bind next
    | ',' => next r.comma
    | '\\' =>
      if options.escapes then
        match s with
        | [] => none
        | e :: s => readTokens? options fuel (r.push (.literal e)) (some e) s
      else next (r.push (.literal '\\'))
    | c => next (r.push (.literal c))

/-- The tokens of a pattern, if its classes, braces and escapes are complete. -/
def tokens? (options : Options) (pattern : String) : Option (List Token) := do
  let s := pattern.toList
  let r ← readTokens? options (s.length + 1) .start none s
  match r.branches with
  | [tokens] => some tokens.reverse
  | _ => none

def literalBytes (options : Options) (c : Char) : List Regular :=
  (String.utf8EncodeChar c).map fun b => .one ⟨[(b.toNat, b.toNat)], false, options.ignoreCase⟩

/-- The bytes of a range of characters: all bytes of the ends, and those between the last byte of
the lower and the first byte of the upper. -/
def rangeBytes (low high : Char) : List (Nat × Nat) :=
  let bytes (c : Char) := (String.utf8EncodeChar c).map UInt8.toNat
  if low = high then (bytes low).map fun b => (b, b)
  else
    (bytes low).dropLast.map (fun b => (b, b)) ++
      [((bytes low).getLast?.getD 0, (bytes high).head?.getD 0)] ++
      (bytes high).tail.map fun b => (b, b)

def anything : Regular := .star (.one .any)

mutual

/-- A choice without a branch that says anything says nothing itself. -/
def Token.regular? (options : Options) : Token → Option Regular
  | .literal c => some (.ofList (literalBytes options c))
  | .anyByte => some (.one .notSlash)
  | .anyRun => some (.star (.one .notSlash))
  | .partsBefore => some (.alt (.alt .empty (.one .slash)) (.seq anything (.one .slash)))
  | .partsAfter => some (.seq (.one .slash) anything)
  | .partsBetween =>
    some (.alt (.one .slash) (.seq (.one .slash) (.seq anything (.one .slash))))
  | .oneOf negated ranges =>
    some (.one ⟨ranges.flatMap fun r => rangeBytes r.1 r.2, negated, options.ignoreCase⟩)
  | .choice branches =>
    match branchRegulars options branches with
    | [] => none
    | parts => some (.anyOf parts)

def regularOfTokens? (options : Options) : List Token → Option Regular
  | [] => none
  | t :: rest =>
    match t.regular? options, regularOfTokens? options rest with
    | none, r => r
    | some r, none => some r
    | some r, some s => some (.seq r s)

def branchRegulars (options : Options) : List (List Token) → List Regular
  | [] => []
  | branch :: rest =>
    match regularOfTokens? options branch with
    | none => branchRegulars options rest
    | some r => r :: branchRegulars options rest

end

/-- The pattern `**` alone matches everything. -/
def regularOf (options : Options) : List Token → Regular
  | [.partsBefore] => anything
  | tokens => (regularOfTokens? options tokens).getD .empty

/-- The language of a pattern, if the pattern is complete. -/
def parse? (options : Options) (pattern : String) : Option Regular :=
  (tokens? options pattern).map (regularOf options)

def matchesPath (r : Regular) (path : String) : Bool :=
  r.matches (path.toList.flatMap String.utf8EncodeChar)

end Inventory.Glob
