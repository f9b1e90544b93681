import Inventory.Text.Blank

/-! Cutting texts at characters, at words and at the ends of lines. -/
namespace Inventory.Text

/-- The pieces between the characters that satisfy `p`; one more piece than such characters. -/
def splitWhen (p : Char → Bool) : List Char → List (List Char)
  | [] => [[]]
  | c :: rest =>
    if p c then [] :: splitWhen p rest
    else match splitWhen p rest with
      | [] => [[c]]
      | piece :: pieces => (c :: piece) :: pieces

def splitAt (sep : Char) (s : List Char) : List (List Char) := splitWhen (· == sep) s

/-- The maximal runs of characters that are not blank. -/
def words (s : List Char) : List (List Char) := (splitWhen isBlankChar s).filter (!·.isEmpty)

/-- The rest of `s` after the literal `lit`. -/
def dropLiteral? : (lit s : List Char) → Option (List Char)
  | [], s => some s
  | _ :: _, [] => none
  | l :: lit, c :: s => if l = c then dropLiteral? lit s else none

def startsWith (lit s : List Char) : Bool := (dropLiteral? lit s).isSome

/-- What stands before the literal `lit` at the end of `s`. -/
def dropLiteralEnd? (lit s : List Char) : Option (List Char) :=
  (dropLiteral? lit.reverse s.reverse).map List.reverse

/-- What stands before and after the first `lit` in `s`. -/
def cutAt? (lit : List Char) : List Char → Option (List Char × List Char)
  | [] => if lit.isEmpty then some ([], []) else none
  | c :: s =>
    match dropLiteral? lit (c :: s) with
    | some rest => some ([], rest)
    | none => (cutAt? lit s).map fun p => (c :: p.1, p.2)

/-- What stands before and after the last `lit` in `s`. -/
def cutAtLast? (lit s : List Char) : Option (List Char × List Char) :=
  (cutAt? lit.reverse s.reverse).map fun p => (p.2.reverse, p.1.reverse)

theorem eq_append_of_dropLiteral? {lit s rest : List Char} (h : dropLiteral? lit s = some rest) :
    s = lit ++ rest := by
  induction lit generalizing s with
  | nil => simpa [dropLiteral?] using h
  | cons l lit ih =>
    cases s with
    | nil => simp [dropLiteral?] at h
    | cons c s =>
      simp only [dropLiteral?] at h
      split at h
      next eq => simp [eq, ih h]
      next => cases h

theorem eq_append_of_cutAt? {lit s before after : List Char}
    (h : cutAt? lit s = some (before, after)) : s = before ++ (lit ++ after) := by
  induction s generalizing before with
  | nil =>
    simp only [cutAt?] at h
    split at h <;> simp_all
  | cons c s ih =>
    simp only [cutAt?] at h
    split at h
    next rest eq =>
      obtain ⟨rfl, rfl⟩ := Prod.mk.inj (Option.some.inj h)
      simpa using eq_append_of_dropLiteral? eq
    next =>
      obtain ⟨⟨b, a⟩, cut, eq⟩ := Option.map_eq_some_iff.1 h
      obtain ⟨rfl, rfl⟩ := Prod.mk.inj eq
      simp [ih cut]

theorem eq_append_of_cutAtLast? {lit s before after : List Char}
    (h : cutAtLast? lit s = some (before, after)) : s = before ++ (lit ++ after) := by
  obtain ⟨⟨a, b⟩, cut, eq⟩ := Option.map_eq_some_iff.1 h
  obtain ⟨rfl, rfl⟩ := Prod.mk.inj eq
  have := congrArg List.reverse (eq_append_of_cutAt? cut)
  simpa using this

def containsLiteral (lit s : List Char) : Bool := (cutAt? lit s).isSome

/-- `s` up to the first `lit`, the whole of `s` without one. -/
def upTo (lit s : List Char) : List Char := ((cutAt? lit s).map (·.1)).getD s

/-- A line ends at a line feed, and a carriage return before that is part of the end. A last piece
that no line feed ends is a line of its own, if it is not empty. -/
def lines (s : List Char) : List (List Char) :=
  go (splitAt '\n' s)
where
  go : List (List Char) → List (List Char)
    | [] => []
    | [last] => if last.isEmpty then [] else [last]
    | line :: rest => ((dropLiteralEnd? ['\r'] line).getD line) :: go rest

def replaceChar (old new : Char) (s : String) : String :=
  String.ofList (s.toList.map fun c => if c = old then new else c)

def join (sep : String) (parts : List String) : String := sep.intercalate parts

end Inventory.Text
