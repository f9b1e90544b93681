import Inventory.Proofs.Toml.Number
import Inventory.Proofs.Toml.Text
import Inventory.Toml.Reader

/-! Values and lines are read back as they were written, each with whatever follows it. -/
namespace Inventory.Toml

variable {c : Char} {fuel depth n : Nat} {s rest : List Char}

inductive Stop : List Char → Prop where
  | newline (rest : List Char) : Stop ('\n' :: rest)
  | comma (rest : List Char) : Stop (',' :: rest)
  | bracket (rest : List Char) : Stop (']' :: rest)

theorem value?_quoted (text : String) (stop : Stop rest) (fuel depth : Nat) :
    value? (fuel + 1) depth ((quoted text).toList ++ rest) = some (.string text, rest) := by
  have read : quoted? ((quoted text).toList ++ rest) = some (text, rest) := by
    refine quoted?_quoted text ?_ ?_ <;> (cases stop <;> simp)
  obtain ⟨quote, s, split, isQuote⟩ := exists_quoted text
  rw [split, List.cons_append] at read ⊢
  rcases isQuote with rfl | rfl <;> (rw [value?, read]; rfl)

theorem toList_toString (n : Nat) : (toString n).toList = Nat.toDigits 10 n := by
  rw [Nat.toString_eq_repr, Nat.repr_eq_ofList_toDigits, String.toList_ofList]

theorem value?_number (small : n < Word.signedLimit64) (fuel depth : Nat) (rest : List Char) :
    value? (fuel + 1) depth ((toString n).toList ++ '\n' :: rest) =
      some (.integer n, '\n' :: rest) := by
  have read := numeral?_toDigits small rest
  obtain ⟨d, ds, split, digit, _⟩ := exists_toDigits n
  have other (m : Char) (mark : m.isDigit = false) : d ≠ m := by
    rintro rfl
    rw [digit] at mark
    cases mark
  rw [toList_toString]
  rw [split, List.cons_append] at read ⊢
  rw [value?]
  · exact read
  all_goals exact fun _ same => other _ rfl (List.cons.inj same).1

structure Shown (c : Char) : Prop where
  space : isSpace c = false
  comment : c ≠ '#'
  newline : c ≠ '\n'
  carriageReturn : c ≠ '\r'

theorem shown_of_isQuote (isQuote : IsQuote c) : Shown c := by
  rcases isQuote with rfl | rfl <;> exact ⟨rfl, by decide, by decide, by decide⟩

/-- The marks that stand between keys and values. -/
theorem shown_of_mark (mark : c ∈ ['[', ']', ',', '=']) : Shown c := by
  simp only [List.mem_cons, List.not_mem_nil, or_false] at mark
  rcases mark with rfl | rfl | rfl | rfl <;> exact ⟨rfl, by decide, by decide, by decide⟩

theorem Shown.skipSpace (shown : Shown c) (s : List Char) : skipSpace (c :: s) = c :: s := by
  rw [Toml.skipSpace, List.dropWhile_cons_of_neg (by simp [shown.space])]

theorem Shown.skipSpace_append {sp : List Char} (shown : Shown c)
    (space : ∀ b ∈ sp, isSpace b = true) (s : List Char) :
    Toml.skipSpace (sp ++ c :: s) = c :: s := by
  have rest := shown.skipSpace s
  rw [Toml.skipSpace] at rest ⊢
  rw [List.dropWhile_append_of_pos space, rest]

theorem Shown.skipLines (shown : Shown c) (fuel : Nat) (s : List Char) :
    skipLines fuel (c :: s) = c :: s := by
  cases fuel with
  | zero => rfl
  | succ fuel =>
    rw [Toml.skipLines]
    simp only [shown.skipSpace]
    split
    next same => exact absurd (List.cons.inj same).1 shown.comment
    next => rw [newline?_cons shown.newline shown.carriageReturn]

theorem Shown.skipLines_newline {sp : List Char} (shown : Shown c)
    (space : ∀ b ∈ sp, isSpace b = true) (fuel : Nat) (s : List Char) :
    Toml.skipLines (fuel + 2) ('\n' :: (sp ++ c :: s)) = c :: s := by
  have first : Toml.skipLines (fuel + 2) ('\n' :: (sp ++ c :: s)) =
      Toml.skipLines (fuel + 1) (sp ++ c :: s) := rfl
  rw [first, Toml.skipLines]
  simp only [shown.skipSpace_append space]
  split
  next same => exact absurd (List.cons.inj same).1 shown.comment
  next => rw [newline?_cons shown.newline shown.carriageReturn]

def listed : List String → List Char → List Char
  | [], rest => '\n' :: ']' :: rest
  | item :: items, rest =>
    '\n' :: ([' ', ' ', ' ', ' '] ++ ((quoted item).toList ++ ',' :: listed items rest))

theorem toList_arrayText (item item' : String) (items : List String) (rest : List Char) :
    (arrayText (item :: item' :: items)).toList ++ rest =
      '[' :: listed (item :: item' :: items) rest := by
  have all (items : List String) : '\n' :: ((String.join (items.map fun item =>
      "    " ++ quoted item ++ ",\n")).toList ++ ']' :: rest) = listed items rest := by
    induction items with
    | nil => rfl
    | cons item items ih =>
      rw [listed, ← ih]
      simp [String.toList_join]
  rw [← all, arrayText]
  · simp
  · nofun
  · nofun

theorem length_listed (items : List String) (rest : List Char) :
    items.length < (listed items rest).length := by
  induction items with
  | nil => exact Nat.succ_pos _
  | cons item items ih =>
    simp only [listed, List.length_cons, List.length_append]
    omega

/-- A quoted text shows what it is by its quote. -/
theorem skipLines_quoted (text : String) (rest : List Char) (fuel : Nat) :
    skipLines fuel ((quoted text).toList ++ rest) = (quoted text).toList ++ rest := by
  obtain ⟨quote, s, split, isQuote⟩ := exists_quoted text
  rw [split, List.cons_append]
  exact (shown_of_isQuote isQuote).skipLines fuel _

theorem skipLines_listed (item : String) (items : List String) (rest : List Char) :
    skipLines (listed (item :: items) rest).length (listed (item :: items) rest) =
      (quoted item).toList ++ ',' :: listed items rest := by
  have space : ∀ b ∈ [' ', ' ', ' ', ' '], isSpace b = true := by simp [isSpace]
  obtain ⟨quote, s, split, isQuote⟩ := exists_quoted item
  rw [listed, split, List.cons_append]
  exact (shown_of_isQuote isQuote).skipLines_newline space _ _

theorem head?_quoted_ne (text : String) (rest : List Char) :
    ((quoted text).toList ++ rest).head? ≠ some ']' := by
  obtain ⟨quote, s, split, isQuote⟩ := exists_quoted text
  rw [split]
  rcases isQuote with rfl | rfl <;> simp

section Items

variable {s' : List Char} {v : Toml}

theorem items?_next (skip : skipLines s.length s = s') (more : s'.head? ≠ some ']')
    (read : value? fuel depth s' = some (v, ',' :: rest)) :
    items? (fuel + 1) depth s = (items? fuel depth rest).map fun p => (v :: p.1, p.2) := by
  have comma : skipLines (',' :: rest).length (',' :: rest) = ',' :: rest :=
    (shown_of_mark (by decide)).skipLines _ _
  rw [items?, skip]
  split
  next => exact absurd rfl more
  next =>
    rw [read]
    simp only [Option.bind_eq_bind, Option.bind_some, comma]
    cases items? fuel depth rest <;> rfl

theorem items?_last (skip : skipLines s.length s = s') (more : s'.head? ≠ some ']')
    (read : value? fuel depth s' = some (v, ']' :: rest)) :
    items? (fuel + 1) depth s = some ([v], rest) := by
  have bracket : skipLines (']' :: rest).length (']' :: rest) = ']' :: rest :=
    (shown_of_mark (by decide)).skipLines _ _
  rw [items?, skip]
  split
  next => exact absurd rfl more
  next =>
    rw [read]
    simp only [Option.bind_eq_bind, Option.bind_some, bracket]
    rfl

end Items

theorem items?_listed (items : List String) (enough : items.length < fuel) (depth : Nat)
    (rest : List Char) :
    items? (fuel + 1) depth (listed items rest) = some (items.map .string, rest) := by
  induction items generalizing fuel with
  | nil =>
    have skip : skipLines (listed [] rest).length (listed [] rest) = ']' :: rest := rfl
    rw [items?, skip]
    rfl
  | cons item items ih =>
    obtain ⟨fuel, rfl⟩ : ∃ k, fuel = k + 1 := ⟨fuel - 1, by omega⟩
    have read := value?_quoted item (.comma (listed items rest)) fuel depth
    have others := ih (Nat.lt_of_succ_lt_succ enough)
    rw [items?_next (skipLines_listed item items rest) (head?_quoted_ne _ _) read, others]
    rfl

theorem value?_array {items : List Toml} (read : items? fuel 1 s = some (items, rest)) :
    value? (fuel + 1) 0 ('[' :: s) = some (.array items, rest) := by
  rw [value?, if_pos (by decide), read]
  rfl

theorem value?_arrayText (items : List String) (enough : items.length + 1 < fuel)
    (rest : List Char) : value? (fuel + 1) 0 ((arrayText items).toList ++ rest) =
      some (.array (items.map .string), rest) := by
  obtain ⟨fuel, rfl⟩ : ∃ k, fuel = k + 2 := ⟨fuel - 2, by omega⟩
  match items with
  | [] =>
    have text : (arrayText []).toList ++ rest = '[' :: ']' :: rest := by simp [arrayText]
    have close : skipLines (']' :: rest).length (']' :: rest) = ']' :: rest :=
      (shown_of_mark (by decide)).skipLines _ _
    rw [text]
    refine value?_array ?_
    rw [items?, close]
    rfl
  | [item] =>
    have text : (arrayText [item]).toList ++ rest =
        '[' :: ((quoted item).toList ++ ']' :: rest) := by simp [arrayText]
    have read := value?_quoted item (.bracket rest) fuel 1
    rw [text]
    exact value?_array (items?_last (skipLines_quoted ..) (head?_quoted_ne _ _) read)
  | item :: item' :: items =>
    rw [toList_arrayText]
    exact value?_array (items?_listed _ (Nat.lt_of_succ_lt_succ enough) 1 rest)

theorem length_arrayText (items : List String) :
    items.length < (arrayText items).toList.length := by
  match items with
  | [] => simp [arrayText]
  | [item] =>
    have opening : "[".toList.length = 1 := rfl
    have closing : "]".toList.length = 1 := rfl
    rw [arrayText, String.toList_append, String.toList_append, List.length_append,
      List.length_append, opening, closing, List.length_singleton]
    omega
  | item :: item' :: items =>
    have text := congrArg List.length (toList_arrayText item item' items [])
    have longer := length_listed (item :: item' :: items) []
    rw [List.append_nil, List.length_cons] at text
    omega

def Leaf.Fits : Leaf → Prop
  | .number n => n < Word.signedLimit64
  | .text _ | .texts _ => True

theorem value?_written {leaf : Leaf} (fits : leaf.Fits) {rest : List Char}
    (enough : (leaf.written.toList ++ '\n' :: rest).length < fuel) :
    value? (fuel + 1) 0 (leaf.written.toList ++ '\n' :: rest) =
      some (leaf.value, '\n' :: rest) := by
  cases leaf with
  | text s => exact value?_quoted s (.newline rest) fuel 0
  | number n => exact value?_number fits fuel 0 rest
  | texts items =>
    have longer := length_arrayText items
    rw [List.length_append, List.length_cons] at enough
    exact value?_arrayText items (by simp only [Leaf.written] at enough; omega) _

theorem exists_written (leaf : Leaf) :
    ∃ c s, leaf.written.toList = c :: s ∧ isSpace c = false := by
  cases leaf with
  | text s =>
    obtain ⟨quote, s, split, isQuote⟩ := exists_quoted s
    exact ⟨quote, s, split, (shown_of_isQuote isQuote).space⟩
  | number n =>
    obtain ⟨d, ds, split, digit, _⟩ := exists_toDigits n
    refine ⟨d, ds, (toList_toString n).trans split, ?_⟩
    by_contra space
    rw [Bool.not_eq_false, isSpace, Bool.or_eq_true, decide_eq_true_eq, decide_eq_true_eq] at space
    rcases space with rfl | rfl <;> cases digit
  | texts items =>
    match items with
    | [] => exact ⟨'[', [']'], by simp [Leaf.written, arrayText], rfl⟩
    | [item] =>
      exact ⟨'[', (quoted item).toList ++ [']'], by simp [Leaf.written, arrayText], rfl⟩
    | item :: item' :: items =>
      have text := toList_arrayText item item' items []
      rw [List.append_nil] at text
      exact ⟨'[', _, text, rfl⟩

theorem shown_keyText (key : String) :
    ∃ c s, (keyText key).toList = c :: s ∧ Shown c ∧ c ≠ '[' := by
  obtain ⟨c, s, split, first⟩ := exists_keyText key
  refine ⟨c, s, split, ?_⟩
  rcases first with bare | isQuote
  · have other (m : Char) (mark : isBareKeyChar m = false) : c ≠ m := by
      rintro rfl
      rw [bare] at mark
      cases mark
    refine ⟨⟨?_, other '#' rfl, other '\n' rfl, other '\r' rfl⟩, other '[' rfl⟩
    simp [isSpace, other ' ' rfl, other '\t' rfl]
  · refine ⟨shown_of_isQuote isQuote, ?_⟩
    rcases isQuote with rfl | rfl <;> decide

/-- A key of one part, up to the mark behind it. -/
theorem key?_keyText (key : String) {mark : Char} {sp : List Char} (shown : Shown mark)
    (space : ∀ b ∈ sp, isSpace b = true) (dot : mark ≠ '.')
    (stop : ∀ c ∈ (sp ++ mark :: rest).head?, isBareKeyChar c = false) :
    key? ((keyText key).toList ++ (sp ++ mark :: rest)) = some (([], key), mark :: rest) := by
  have read := simpleKey?_keyText key stop
  obtain ⟨c, s, split, first, _⟩ := shown_keyText key
  have start : skipSpace ((keyText key).toList ++ (sp ++ mark :: rest)) =
      (keyText key).toList ++ (sp ++ mark :: rest) := by
    rw [split]
    exact first.skipSpace _
  have limit : nestingLimit - 1 = 78 + 1 := rfl
  rw [key?, limit, keyParts?, start, read]
  simp only [Option.bind_eq_bind, Option.bind_some, shown.skipSpace_append space]
  split
  next same => exact absurd (List.cons.inj same).1 dot
  next => rfl

def entryLine (e : Entry) : Line := .assignment ⟨[], e.1, e.2.value⟩

theorem toList_entryText (e : Entry) (s : List Char) : (entryText e).toList ++ s =
    (keyText e.1).toList ++ ([' '] ++ '=' :: ([' '] ++ (e.2.written.toList ++ '\n' :: s))) := by
  simp [entryText]

theorem exists_entryText (e : Entry) :
    ∃ c t, (entryText e).toList = c :: t ∧ Shown c ∧ c ≠ '[' := by
  obtain ⟨c, t, split, first⟩ := shown_keyText e.1
  have text := toList_entryText e []
  rw [List.append_nil, split] at text
  exact ⟨c, _, text, first⟩

theorem line?_entry {e : Entry} (fits : e.2.Fits) (s : List Char) :
    line? ((entryText e).toList ++ s) = some (entryLine e, s) := by
  have space : ∀ b ∈ [' '], isSpace b = true := by simp [isSpace]
  have key : key? ((entryText e).toList ++ s) =
      some (([], e.1), '=' :: ([' '] ++ (e.2.written.toList ++ '\n' :: s))) := by
    rw [toList_entryText]
    exact key?_keyText e.1 (shown_of_mark (by decide)) space (by decide)
      (by simp [isBareKeyChar])
  have start : skipSpace ([' '] ++ (e.2.written.toList ++ '\n' :: s)) =
      e.2.written.toList ++ '\n' :: s := by
    obtain ⟨c, t, split, shown⟩ := exists_written e.2
    rw [split, skipSpace, List.dropWhile_append_of_pos space, List.cons_append,
      List.dropWhile_cons_of_neg (by simp [shown])]
  have enough : (e.2.written.toList ++ '\n' :: s).length <
      2 * (e.2.written.toList ++ '\n' :: s).length + 1 := by omega
  have value := value?_written fits enough
  obtain ⟨c, t, split, _, other⟩ := exists_entryText e
  rw [split, List.cons_append] at key ⊢
  unfold line?
  split
  next same => exact absurd (List.cons.inj same).1 other
  next same => exact absurd (List.cons.inj same).1 other
  next =>
    rw [key]
    simp only [Option.bind_eq_bind, Option.bind_some, start, value]
    rfl

theorem line?_header (key : String) (s : List Char) :
    line? ('[' :: ((keyText key).toList ++ ']' :: '\n' :: s)) = some (.table [] key, s) := by
  have read : key? ((keyText key).toList ++ ([] ++ ']' :: '\n' :: s)) =
      some (([], key), ']' :: '\n' :: s) :=
    key?_keyText key (shown_of_mark (by decide)) nofun (by decide)
      (by simp [isBareKeyChar])
  obtain ⟨c, t, split, _, other⟩ := shown_keyText key
  rw [split, List.nil_append, List.cons_append] at read
  rw [split, List.cons_append]
  unfold line?
  split
  next same => exact absurd (List.cons.inj (List.cons.inj same).2).1 other
  next same =>
    obtain ⟨_, rfl⟩ := List.cons.inj same
    rw [read]
    rfl
  next single => exact absurd rfl (single _)

end Inventory.Toml
