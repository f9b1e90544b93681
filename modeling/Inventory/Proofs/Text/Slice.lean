import Inventory.Proofs.Text.Cut
import Inventory.Proofs.Text.Utf8

/-! Slices of a text by bytes. A text has no slice that ends inside a character or behind its end,
and the place at which a text is found in it is never such an end. -/
namespace Inventory.Text

variable {lit s front back : List Char} {i : Nat}

/-- What stands in front of the byte `i` and what stands from there on. -/
def parted? : List Char → Nat → Option (List Char × List Char)
  | s, 0 => some ([], s)
  | [], _ + 1 => none
  | c :: s, i + 1 =>
    if c.utf8Size ≤ i + 1 then (parted? s (i + 1 - c.utf8Size)).map fun p => (c :: p.1, p.2)
    else none

def before? (s : List Char) (i : Nat) : Option (List Char) := (parted? s i).map (·.1)

def behind? (s : List Char) (i : Nat) : Option (List Char) := (parted? s i).map (·.2)

theorem parted?_append (front back : List Char) :
    parted? (front ++ back) (utf8 front).length = some (front, back) := by
  induction front with
  | nil => cases back <;> rfl
  | cons c front ih =>
    have size : (utf8 (c :: front)).length = c.utf8Size + (utf8 front).length := by simp
    obtain ⟨i, successor⟩ := Nat.exists_eq_add_one.mpr
      (Nat.lt_of_lt_of_le c.utf8Size_pos (Nat.le_add_right _ (utf8 front).length))
    have fits : c.utf8Size ≤ i + 1 := successor ▸ Nat.le_add_right _ _
    rw [List.cons_append, size, successor, parted?, if_pos fits, ← successor,
      Nat.add_sub_cancel_left, ih]
    rfl

def slicedUpTo? (lit s : List Char) : Option (List Char) :=
  match position? (utf8 lit) (utf8 s) with
  | some i => before? s i
  | none => some s

def slicedAround? (lit s : List Char) : Option (List Char × Option (List Char)) :=
  match position? (utf8 lit) (utf8 s) with
  | some i => do return (← before? s i, some (← behind? s (i + (utf8 lit).length)))
  | none => some (s, none)

theorem before?_append (front back : List Char) :
    before? (front ++ back) (utf8 front).length = some front := by
  rw [before?, parted?_append, Option.map_some]

theorem behind?_append (front lit back : List Char) :
    behind? (front ++ (lit ++ back)) ((utf8 front).length + (utf8 lit).length) = some back := by
  rw [← List.append_assoc, ← List.length_append, ← utf8_append, behind?, parted?_append,
    Option.map_some]

theorem slicedUpTo?_eq (lit s : List Char) : slicedUpTo? lit s = some (upTo lit s) := by
  rw [slicedUpTo?, position?_utf8, upTo]
  cases cut : cutAt? lit s with
  | none => rfl
  | some p =>
    rw [eq_append_of_cutAt? cut]
    exact before?_append p.1 (lit ++ p.2)

theorem slicedAround?_eq (lit s : List Char) :
    slicedAround? lit s = some (upTo lit s, (cutAt? lit s).map (·.2)) := by
  rw [slicedAround?, position?_utf8, upTo]
  cases cut : cutAt? lit s with
  | none => rfl
  | some p =>
    rw [eq_append_of_cutAt? cut]
    simp only [Option.map_some, before?_append, behind?_append]
    rfl

def lastPosition? (part : List UInt8) : List UInt8 → Option Nat
  | [] => if part.isEmpty then some 0 else none
  | b :: bytes =>
    ((lastPosition? part bytes).map (· + 1)).or
      (if part.isPrefixOf (b :: bytes) then some 0 else none)

theorem cutAtLast?_cons (c : Char) (s : List Char) : cutAtLast? lit (c :: s) =
    ((cutAtLast? lit s).map fun cut => (c :: cut.1, cut.2)).or
      ((dropLiteral? lit (c :: s)).map fun rest => ([], rest)) := by
  cases later : cutAtLast? lit s with
  | some cut =>
    obtain ⟨before, after⟩ := cut
    obtain ⟨rfl, least⟩ := cutAtLast?_eq_some_iff.mp later
    refine cutAtLast?_eq_some_iff.mpr ⟨rfl, fun b a whole => ?_⟩
    cases b with
    | nil =>
      have length := congrArg List.length whole
      simp only [List.length_cons, List.length_append, List.nil_append] at length ⊢
      omega
    | cons d b => exact least b a (List.cons.inj whole).2
  | none =>
    rw [Option.map_none, Option.none_or]
    have absent := cutAtLast?_eq_none_iff.mp later
    cases start : dropLiteral? lit (c :: s) with
    | none =>
      refine cutAtLast?_eq_none_iff.mpr fun inside => ?_
      rcases List.infix_cons_iff.mp inside with ⟨rest, here⟩ | inner
      · rw [dropLiteral?_eq_some_iff.mpr here.symm] at start
        cases start
      · exact absent inner
    | some rest =>
      have whole := dropLiteral?_eq_some_iff.mp start
      refine cutAtLast?_eq_some_iff.mpr ⟨whole, fun b a other => ?_⟩
      cases b with
      | nil =>
        obtain rfl := List.append_cancel_left (whole.symm.trans other)
        exact Nat.le_refl _
      | cons d b => exact absurd ⟨b, a, by simpa using (List.cons.inj other).2.symm⟩ absent

theorem lastPosition?_continuations {trail : List UInt8} (literal : lit ≠ [])
    (behind : ∀ b ∈ trail, isContinuation b = true) (bytes : List UInt8) :
    lastPosition? (utf8 lit) (trail ++ bytes) =
      (lastPosition? (utf8 lit) bytes).map (· + trail.length) := by
  induction trail with
  | nil => simp
  | cons b trail ih =>
    rw [List.forall_mem_cons] at behind
    rw [List.cons_append, lastPosition?, ih behind.2,
      not_isPrefixOf_of_isContinuation literal behind.1]
    simp [Function.comp_def, Nat.add_assoc]

theorem lastPosition?_utf8 (literal : lit ≠ []) (s : List Char) :
    lastPosition? (utf8 lit) (utf8 s) = (cutAtLast? lit s).map fun cut => (utf8 cut.1).length := by
  induction s with
  | nil =>
    obtain ⟨c, lit, rfl⟩ := List.exists_cons_of_ne_nil literal
    have absent : cutAtLast? (c :: lit) [] = none :=
      cutAtLast?_eq_none_iff.mpr fun inside => by simpa using inside.subset List.mem_cons_self
    rw [absent]
    simp [lastPosition?, String.utf8EncodeChar_ne_nil]
  | cons c s ih =>
    obtain ⟨lead, trail, encoding, -, behind⟩ := exists_lead c
    have here := isPrefixOf_utf8 lit (c :: s)
    rw [utf8_cons, encoding, List.cons_append] at here ⊢
    rw [lastPosition?, here, lastPosition?_continuations literal behind, ih, cutAtLast?_cons]
    have width : c.utf8Size = trail.length + 1 := by
      rw [← String.length_utf8EncodeChar, encoding, List.length_cons]
    cases cutAtLast? lit s with
    | some cut => simp [width, Nat.add_assoc, Nat.add_comm, Nat.add_left_comm]
    | none => cases dropLiteral? lit (c :: s) <;> simp

end Inventory.Text
