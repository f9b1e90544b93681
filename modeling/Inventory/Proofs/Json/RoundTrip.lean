import Inventory.Proofs.Json.Number
import Inventory.Proofs.Json.Text
import Mathlib.Data.List.Forall2

/-! The text of a value is read back as that value. The reader is followed along the text as the
printer lays it out: what stands before a value are blanks, and what follows it starts with a comma
or the end of a line. -/
namespace Inventory.Json

variable {fuel : Nat} {sp inner outer t rest : List Char} {ts : List (List Char)} {j : Json}
  {js : List Json} {mark : Char}

inductive Plain : Json → Prop where
  | null : Plain .null
  | bool (value : Bool) : Plain (.bool value)
  | int : value.natAbs < Decimal.doubleLimit → Plain (.int value)
  | string (value : String) : Plain (.string value)
  | array : (∀ item ∈ items, Plain item) → Plain (.array items)
  | object : (∀ m ∈ members, Plain m.2) → Plain (.object members)

/-- The text of a value: it starts the value, and is read as it from behind any blanks. -/
structure Reads (t : List Char) (j : Json) : Prop where
  first : ∃ c cs, t = c :: cs ∧ isSpace c = false ∧ c ≠ ']'
  read : ∀ {fuel sp rest}, t.length < fuel → Blank sp → Stop rest →
    value? fuel (sp ++ (t ++ rest)) = some (j, rest)

def followed (inner outer : List Char) (mark : Char) : List (List Char) → List Char
  | [] => '\n' :: (outer ++ [mark])
  | t :: ts => ',' :: '\n' :: (inner ++ (t ++ followed inner outer mark ts))

theorem stop_followed (inner outer : List Char) (mark : Char) (ts : List (List Char))
    (rest : List Char) : Stop (followed inner outer mark ts ++ rest) := by
  cases ts with
  | nil => exact .newline _
  | cons t ts => exact .comma _

theorem skipSpace_followed_nil (outside : Blank outer) (shown : isSpace mark = false)
    (rest : List Char) : skipSpace (followed inner outer mark [] ++ rest) = mark :: rest := by
  rw [followed, List.cons_append, List.append_assoc]
  exact skipSpace_append (blank_cons_newline outside) shown rest

theorem skipSpace_followed_cons (rest : List Char) :
    skipSpace (followed inner outer mark (t :: ts) ++ rest) =
      ',' :: ('\n' :: inner ++ (t ++ (followed inner outer mark ts ++ rest))) := by
  simp [followed, skipSpace, isSpace]

theorem intercalate_followed (inner outer : List Char) (mark : Char) (t : List Char)
    (ts : List (List Char)) :
    [',', '\n'].intercalate ((t :: ts).map (inner ++ ·)) ++ '\n' :: (outer ++ [mark]) =
      inner ++ (t ++ followed inner outer mark ts) := by
  induction ts generalizing t with
  | nil => simp [followed]
  | cons t' ts ih =>
    rw [List.map_cons, List.map_cons, List.intercalate_cons_cons, ← List.map_cons,
      List.append_assoc, ih, followed]
    simp

/-- A list with at least one line. -/
theorem toList_block (opening closing indent line : String) (lines : List String) (mark : Char)
    (closes : closing.toList = [mark]) : (block opening closing indent (line :: lines)).toList =
      opening.toList ++ '\n' :: ((indent ++ "  ").toList ++ (line.toList ++
        followed (indent ++ "  ").toList indent.toList mark (lines.map String.toList))) := by
  have join := intercalate_followed (indent ++ "  ").toList indent.toList mark line.toList
    (lines.map String.toList)
  have texts : ((line :: lines).map (indent ++ "  " ++ ·)).map String.toList =
      (line.toList :: lines.map String.toList).map ((indent ++ "  ").toList ++ ·) := by
    simp
  rw [block, List.isEmpty_cons, if_neg Bool.false_ne_true, ← join, ← texts]
  simp only [String.toList_append, String.toList_intercalate, closes, List.append_assoc]
  rfl

theorem objectFrom_some (members : List (String × Json)) :
    objectFrom (members.map fun m => (some m.1, m.2)) = .object members := by
  have all : (members.map fun m => (some m.1, m.2)).mapM
      (fun m : Option String × Json => m.1.map (·, m.2)) = some members := by
    induction members with
    | nil => rfl
    | cons m members ih =>
      rw [List.map_cons, List.mapM_cons, ih]
      rfl
  rw [objectFrom, all]

section Lines

variable (text : Json → List Char) (inside : Blank inner) (outside : Blank outer)

include inside outside

/-- The items of an array, a line for each. -/
theorem items?_followed {item : Json} {items : List Json}
    (reads : ∀ j ∈ item :: items, Reads (text j) j) (blank : Blank sp)
    (enough : (text item ++ followed inner outer ']' (items.map text)).length < fuel)
    (rest : List Char) :
    items? fuel (sp ++ (text item ++ (followed inner outer ']' (items.map text) ++ rest))) =
      some (item :: items, rest) := by
  induction items generalizing fuel item sp with
  | nil =>
    obtain ⟨fuel, rfl⟩ : ∃ k, fuel = k + 1 := ⟨fuel - 1, by omega⟩
    have short : (text item).length < fuel := by
      simp [followed] at enough
      omega
    have value := (reads item List.mem_cons_self).read short blank
      (stop_followed inner outer ']' [] rest)
    have close : skipSpace (followed inner outer ']' [] ++ rest) = ']' :: rest :=
      skipSpace_followed_nil outside rfl rest
    rw [items?, List.map_nil, value]
    simp only [Option.bind_eq_bind, Option.bind_some, close]
    rfl
  | cons next items ih =>
    obtain ⟨fuel, rfl⟩ : ∃ k, fuel = k + 1 := ⟨fuel - 1, by omega⟩
    have short : (text item).length < fuel := by
      simp [followed] at enough
      omega
    have value := (reads item List.mem_cons_self).read short blank
      (stop_followed inner outer ']' ((next :: items).map text) rest)
    have fewer : (text next ++ followed inner outer ']' (items.map text)).length < fuel := by
      simp [followed] at enough ⊢
      omega
    have others := ih (fun j member => reads j (List.mem_cons_of_mem _ member))
      (blank_cons_newline inside) fewer
    rw [items?, value]
    simp only [Option.bind_eq_bind, Option.bind_some, List.map_cons, skipSpace_followed_cons,
      others]
    rfl

def memberText (text : Json → List Char) (m : String × Json) : List Char :=
  (quote m.1).toList ++ ':' :: ' ' :: text m.2

omit inside outside in
/-- One member is read, and what follows it says whether there are more. -/
theorem members?_memberText {m : String × Json} {after : List Char} (reads : Reads (text m.2) m.2)
    (blank : Blank sp) (stop : Stop after) (enough : (text m.2).length < fuel) :
    members? (fuel + 1) (sp ++ (memberText text m ++ after)) = match skipSpace after with
      | '\x7d' :: rest => some ([(some m.1, m.2)], rest)
      | ',' :: rest => (members? fuel rest).bind fun p => some ((some m.1, m.2) :: p.1, p.2)
      | _ => none := by
  have space : Blank [' '] := by simp [Blank, isSpace]
  have value := reads.read enough space stop
  obtain ⟨behind, quoted, name⟩ := text?_quote m.1 (':' :: ' ' :: (text m.2 ++ after))
  have start : skipSpace (sp ++ (memberText text m ++ after)) = '"' :: behind := by
    rw [memberText, List.append_assoc, List.cons_append, List.cons_append, quoted]
    exact skipSpace_append blank rfl behind
  have colon : skipSpace (':' :: ' ' :: (text m.2 ++ after)) =
      ':' :: ([' '] ++ (text m.2 ++ after)) := rfl
  rw [members?, start]
  simp only [name, Option.bind_eq_bind, Option.bind_some, colon, value]
  rfl

theorem members?_followed {m : String × Json} {members : List (String × Json)}
    (reads : ∀ m' ∈ m :: members, Reads (text m'.2) m'.2) (blank : Blank sp)
    (enough : (memberText text m ++
      followed inner outer '\x7d' (members.map (memberText text))).length < fuel)
    (rest : List Char) :
    members? fuel (sp ++ (memberText text m ++
      (followed inner outer '\x7d' (members.map (memberText text)) ++ rest))) =
        some ((m :: members).map fun m => (some m.1, m.2), rest) := by
  induction members generalizing fuel m sp with
  | nil =>
    obtain ⟨fuel, rfl⟩ : ∃ k, fuel = k + 1 := ⟨fuel - 1, by omega⟩
    have close : skipSpace (followed inner outer '\x7d' [] ++ rest) = '\x7d' :: rest :=
      skipSpace_followed_nil outside rfl rest
    rw [List.map_nil, members?_memberText text (reads m List.mem_cons_self) blank
      (stop_followed inner outer '\x7d' [] rest) (by simp [followed, memberText] at enough; omega)]
    simp only [close]
    rfl
  | cons next members ih =>
    obtain ⟨fuel, rfl⟩ : ∃ k, fuel = k + 1 := ⟨fuel - 1, by omega⟩
    have fewer : (memberText text next ++
        followed inner outer '\x7d' (members.map (memberText text))).length < fuel := by
      simp [followed] at enough ⊢
      omega
    have others := ih (fun j member => reads j (List.mem_cons_of_mem _ member))
      (blank_cons_newline inside) fewer
    rw [members?_memberText text (reads m List.mem_cons_self) blank
      (stop_followed inner outer '\x7d' _ rest) (by simp [followed, memberText] at enough; omega)]
    simp only [List.map_cons, skipSpace_followed_cons, others]
    rfl

theorem value?_array {item : Json} {items : List Json}
    (reads : ∀ j ∈ item :: items, Reads (text j) j) (blank : Blank sp)
    (enough : (text item ++ followed inner outer ']' (items.map text)).length < fuel)
    (rest : List Char) :
    value? (fuel + 1) (sp ++ '[' :: '\n' :: (inner ++ (text item ++
      (followed inner outer ']' (items.map text) ++ rest)))) =
        some (.array (item :: items), rest) := by
  obtain ⟨c, cs, split, shown, other⟩ := (reads item List.mem_cons_self).first
  have all := items?_followed text inside outside reads blank_nil enough rest
  have start := skipSpace_append (blank_cons_newline inside) shown
    (cs ++ (followed inner outer ']' (items.map text) ++ rest))
  rw [List.nil_append, split, List.cons_append] at all
  rw [value?, skipSpace_append blank rfl, split]
  simp only [List.cons_append] at start ⊢
  simp [start, other, all]

theorem value?_object {m : String × Json} {members : List (String × Json)}
    (reads : ∀ m' ∈ m :: members, Reads (text m'.2) m'.2) (blank : Blank sp)
    (enough : (memberText text m ++
      followed inner outer '\x7d' (members.map (memberText text))).length < fuel)
    (rest : List Char) :
    value? (fuel + 1) (sp ++ '\x7b' :: '\n' :: (inner ++ (memberText text m ++
      (followed inner outer '\x7d' (members.map (memberText text)) ++ rest)))) =
        some (.object (m :: members), rest) := by
  have all := members?_followed text inside outside reads blank_nil enough rest
  obtain ⟨behind, quoted, -⟩ := text?_quote m.1 (':' :: ' ' :: (text m.2 ++
    (followed inner outer '\x7d' (members.map (memberText text)) ++ rest)))
  have split : memberText text m ++
      (followed inner outer '\x7d' (members.map (memberText text)) ++ rest) = '"' :: behind := by
    rw [← quoted, memberText, List.append_assoc]
    rfl
  have start := skipSpace_append (blank_cons_newline inside) (c := '"') rfl behind
  rw [List.nil_append, split] at all
  rw [value?, skipSpace_append blank rfl, split]
  have whole := objectFrom_some (m :: members)
  rw [List.map_cons] at whole
  simp only [List.cons_append] at start ⊢
  simp [start, all, whole]

end Lines

theorem indentedItems_eq (indent : String) (items : List Json) :
    indentedItems indent items = items.map (indented indent) := by
  induction items with
  | nil => rw [indentedItems, List.map_nil]
  | cons item items ih => rw [indentedItems, List.map_cons, ih]

theorem indentedMembers_eq (indent : String) (members : List (String × Json)) :
    indentedMembers indent members =
      members.map fun m => quote m.1 ++ ": " ++ indented indent m.2 := by
  induction members with
  | nil => rw [indentedMembers, List.map_nil]
  | cons m members ih => rw [indentedMembers, List.map_cons, ih]

theorem reads_leaf {text : List Char} (first : ∃ c cs, text = c :: cs ∧ isSpace c = false ∧ c ≠ ']')
    (read : ∀ {fuel sp rest}, Blank sp → Stop rest →
      value? (fuel + 1) (sp ++ (text ++ rest)) = some (j, rest)) : Reads text j := by
  refine ⟨first, fun {fuel sp rest} enough blank stop => ?_⟩
  obtain ⟨fuel, rfl⟩ : ∃ k, fuel = k + 1 := ⟨fuel - 1, by omega⟩
  exact read blank stop

theorem blank_append_spaces {indent : String} (blank : Blank indent.toList) :
    Blank (indent ++ "  ").toList := by
  intro c member
  rw [String.toList_append, List.mem_append] at member
  rcases member with front | back
  · exact blank c front
  · simp at back
    rw [back]
    rfl

theorem reads_null (indent : String) : Reads (indented indent .null).toList .null := by
  have text : (indented indent .null).toList = ['n', 'u', 'l', 'l'] := by simp [indented, leaf]
  rw [text]
  refine reads_leaf ⟨_, _, rfl, rfl, by decide⟩ fun blank stop => ?_
  rw [List.cons_append, value?, skipSpace_append blank rfl]
  rfl

theorem reads_bool (indent : String) (value : Bool) :
    Reads (indented indent (.bool value)).toList (.bool value) := by
  have text : (indented indent (.bool value)).toList =
      if value then ['t', 'r', 'u', 'e'] else ['f', 'a', 'l', 's', 'e'] := by
    cases value <;> simp [indented, leaf]
  rw [text]
  cases value with
  | true =>
    refine reads_leaf ⟨'t', _, rfl, rfl, by decide⟩ fun blank stop => ?_
    rw [if_pos rfl, List.cons_append, value?, skipSpace_append blank rfl]
    rfl
  | false =>
    refine reads_leaf ⟨'f', _, rfl, rfl, by decide⟩ fun blank stop => ?_
    rw [if_neg Bool.false_ne_true, List.cons_append, value?, skipSpace_append blank rfl]
    rfl

theorem reads_int (indent : String) {value : Int} (small : value.natAbs < Decimal.doubleLimit) :
    Reads (indented indent (.int value)).toList (.int value) := by
  have text : indented indent (.int value) = toString value := by simp [indented, leaf]
  rw [text]
  refine reads_leaf ?_ fun blank stop => value?_int small blank stop
  obtain ⟨c, s, split, first⟩ := exists_first_int value
  refine ⟨c, s, split, ?_⟩
  rcases first with rfl | digit
  · exact ⟨rfl, by decide⟩
  · refine ⟨isSpace_of_isDigit digit, ?_⟩
    rintro rfl
    cases digit

theorem reads_string (indent value : String) :
    Reads (indented indent (.string value)).toList (.string value) := by
  have text : indented indent (.string value) = quote value := by simp [indented, leaf]
  obtain ⟨inner, split, -⟩ := text?_quote value []
  rw [List.append_nil] at split
  rw [text]
  refine reads_leaf ⟨'"', inner, split, rfl, by decide⟩ fun {fuel sp rest} blank _ => ?_
  obtain ⟨behind, quoted, read⟩ := text?_quote value rest
  rw [quoted, value?, skipSpace_append blank rfl]
  simp [read]

theorem reads_array {indent : String} (blank : Blank indent.toList) {items : List Json}
    (reads : ∀ j ∈ items, Reads (indented (indent ++ "  ") j).toList j) :
    Reads (indented indent (.array items)).toList (.array items) := by
  have inside := blank_append_spaces blank
  cases items with
  | nil =>
    have text : (indented indent (.array [])).toList = ['[', ']'] := by
      simp [indented, indentedItems, block]
    rw [text]
    refine reads_leaf ⟨_, _, rfl, rfl, by decide⟩ fun blank stop => ?_
    rw [List.cons_append, value?, skipSpace_append blank rfl]
    rfl
  | cons item items =>
    have text : (indented indent (.array (item :: items))).toList = '[' ::
        '\n' :: ((indent ++ "  ").toList ++ ((indented (indent ++ "  ") item).toList ++
          followed (indent ++ "  ").toList indent.toList ']'
            (items.map fun j => (indented (indent ++ "  ") j).toList))) := by
      rw [indented, indentedItems_eq, List.map_cons, toList_block _ _ _ _ _ ']' rfl, List.map_map]
      rfl
    rw [text]
    refine ⟨⟨_, _, rfl, rfl, by decide⟩, fun {fuel sp rest} enough blank' _ => ?_⟩
    obtain ⟨fuel, rfl⟩ : ∃ k, fuel = k + 1 := ⟨fuel - 1, by omega⟩
    have short : ((indented (indent ++ "  ") item).toList ++ followed (indent ++ "  ").toList
        indent.toList ']' (items.map fun j => (indented (indent ++ "  ") j).toList)).length <
          fuel := by
      rw [List.length_cons, List.length_cons, List.length_append] at enough
      omega
    have read := value?_array _ inside blank reads blank' short rest
    rw [List.cons_append, List.cons_append, List.append_assoc, List.append_assoc]
    exact read

theorem reads_object {indent : String} (blank : Blank indent.toList)
    {members : List (String × Json)}
    (reads : ∀ m ∈ members, Reads (indented (indent ++ "  ") m.2).toList m.2) :
    Reads (indented indent (.object members)).toList (.object members) := by
  have inside := blank_append_spaces blank
  cases members with
  | nil =>
    have text : (indented indent (.object [])).toList = ['\x7b', '\x7d'] := by
      simp [indented, indentedMembers, block]
    rw [text]
    refine reads_leaf ⟨_, _, rfl, rfl, by decide⟩ fun blank stop => ?_
    rw [List.cons_append, value?, skipSpace_append blank rfl]
    rfl
  | cons m members =>
    have each (m : String × Json) :
        (quote m.1 ++ ": " ++ indented (indent ++ "  ") m.2).toList =
          memberText (fun j => (indented (indent ++ "  ") j).toList) m := by
      simp [memberText]
    have text : (indented indent (.object (m :: members))).toList = '\x7b' ::
        '\n' :: ((indent ++ "  ").toList ++
          (memberText (fun j => (indented (indent ++ "  ") j).toList) m ++
            followed (indent ++ "  ").toList indent.toList '\x7d'
              (members.map (memberText fun j => (indented (indent ++ "  ") j).toList)))) := by
      rw [indented, indentedMembers_eq, List.map_cons, toList_block _ _ _ _ _ '\x7d' rfl,
        List.map_map, each, Function.comp_def, funext each]
      rfl
    rw [text]
    refine ⟨⟨_, _, rfl, rfl, by decide⟩, fun {fuel sp rest} enough blank' _ => ?_⟩
    obtain ⟨fuel, rfl⟩ : ∃ k, fuel = k + 1 := ⟨fuel - 1, by omega⟩
    have short : (memberText (fun j => (indented (indent ++ "  ") j).toList) m ++
        followed (indent ++ "  ").toList indent.toList '\x7d' (members.map
          (memberText fun j => (indented (indent ++ "  ") j).toList))).length < fuel := by
      rw [List.length_cons, List.length_cons, List.length_append] at enough
      omega
    have read := value?_object _ inside blank reads blank' short rest
    rw [List.cons_append, List.cons_append, List.append_assoc, List.append_assoc]
    exact read

theorem reads_indented (plain : Plain j) {indent : String} (blank : Blank indent.toList) :
    Reads (indented indent j).toList j := by
  induction plain generalizing indent with
  | null => exact reads_null indent
  | bool value => exact reads_bool indent value
  | int small => exact reads_int indent small
  | string value => exact reads_string indent value
  | array _ ih => exact reads_array blank fun j member => ih j member (blank_append_spaces blank)
  | object _ ih => exact reads_object blank fun m member => ih m member (blank_append_spaces blank)

theorem read?_pretty (plain : Plain j) : read? j.pretty = some j := by
  have outer : Blank "".toList := blank_nil
  have read := (reads_indented plain outer).read (Nat.lt_succ_self _) blank_nil .nil
  rw [List.nil_append, List.append_nil] at read
  rw [read?, pretty, read]
  rfl

end Inventory.Json
