import Inventory.Toml.Lexeme
import Inventory.Toml.Printer
import Mathlib.Data.List.Basic
import Mathlib.Tactic.SplitIfs

/-! Texts between quotes as the readers see them. The four kinds of quotes differ in the quote
itself, in whether a backslash escapes and in whether a text may go on over several lines, and a
character shows in its own way in each of them. -/
namespace Inventory.Toml

inductive Shows (quote : Char) (escapes lines : Bool) : Char → List Char → Prop where
  | plain {c : Char} : c ≠ quote → isControl c = false → (escapes = true → c ≠ '\\') →
      Shows quote escapes lines c [c]
  | newline : lines = true → Shows quote escapes lines '\n' ['\n']
  | escaped {c e : Char} {s : List Char} : escapes = true → isSpace e = false → e ≠ '\n' → e ≠ '\r' →
      (∀ rest, escape? (e :: (s ++ rest)) = some (c, rest)) →
      Shows quote escapes lines c ('\\' :: e :: s)

variable {quote c : Char} {escapes lines : Bool} {k fuel : Nat} {s t w rest : List Char}

theorem isControl_eq (c : Char) : isControl c = (isEscapeCode c || c = '\n') := by
  by_cases newline : c = '\n'
  · subst newline
    rfl
  · have other : (c != '\n') = true := bne_iff_ne.mpr newline
    simp [isControl, isEscapeCode, newline, other]

/-- The digits of a number, with zeros in front of them. -/
theorem toList_upperHex (width n : Nat) : (upperHex width n).toList =
    List.replicate (width - ((Nat.toDigits 16 n).map Char.toUpper).length) '0' ++
      (Nat.toDigits 16 n).map Char.toUpper := by
  rw [upperHex, String.toList_ofList]

theorem hexValue?_upperHex : ∀ n < 128, ((upperHex 4 n).toList.length = 4 ∧ n.isValidChar) ∧
    ((upperHex 4 n).toList.mapM hexValue?).map (fun ds => (ds.length, ds.foldl (· * 16 + ·) 0)) =
      some (4, n) := by
  simp only [toList_upperHex]
  decide +kernel

theorem numbered?_upperHex {n : Nat} (small : n < 128) (rest : List Char) :
    numbered? 4 ((upperHex 4 n).toList ++ rest) = some (Char.ofNat n, rest) := by
  obtain ⟨⟨width, valid⟩, digits⟩ := hexValue?_upperHex n small
  obtain ⟨ds, read, value⟩ := Option.map_eq_some_iff.mp digits
  obtain ⟨length, value⟩ := Prod.mk.inj value
  rw [numbered?, List.take_left' width, List.drop_left' width, read]
  simp [length, value, valid]

theorem Shows.length_pos (shows : Shows quote escapes lines c w) : 0 < w.length := by
  cases shows <;> exact Nat.succ_pos _

theorem shows_escaped (other : c ≠ '"') (lines : Bool) :
    Shows '"' true lines c (escaped lines c).toList := by
  have short (e : Char) (space : isSpace e = false) (newline : e ≠ '\n') (cr : e ≠ '\r')
      (back : ∀ rest, escape? (e :: rest) = some (c, rest)) :
      Shows '"' true lines c ['\\', e] :=
    .escaped rfl space newline cr back
  unfold escaped
  split
  next backspace => subst backspace; exact short 'b' rfl (by decide) (by decide) fun _ => rfl
  split
  next tab => subst tab; exact short 't' rfl (by decide) (by decide) fun _ => rfl
  split
  next newline =>
    subst newline
    cases lines with
    | true => exact .newline rfl
    | false => exact short 'n' rfl (by decide) (by decide) fun _ => rfl
  split
  next formFeed => subst formFeed; exact short 'f' rfl (by decide) (by decide) fun _ => rfl
  split
  next carriageReturn =>
    subst carriageReturn; exact short 'r' rfl (by decide) (by decide) fun _ => rfl
  split
  next backslash => subst backslash; exact short '\\' rfl (by decide) (by decide) fun _ => rfl
  split
  next control =>
    have small : c.toNat < 128 := by
      simp [isEscapeCode] at control
      omega
    have number := numbered?_upperHex small
    rw [Char.ofNat_toNat] at number
    rw [String.toList_append]
    exact .escaped (e := 'u') rfl rfl (by decide) (by decide) number
  next newline _ _ backslash shown =>
    have plain : isControl c = false := by
      rw [isControl_eq]
      simp [shown, newline]
    rw [Char.toString_eq_singleton, String.toList_singleton]
    exact .plain other plain fun _ => backslash

theorem shows_self (other : c ≠ quote) (shown : isEscapeCode c = false)
    (oneLine : lines = false → c ≠ '\n') : Shows quote false lines c [c] := by
  by_cases newline : c = '\n'
  · subst newline
    cases lines with
    | true => exact .newline rfl
    | false => exact absurd rfl (oneLine rfl)
  · refine .plain other ?_ nofun
    rw [isControl_eq]
    simp [shown, newline]

/-- One character is one step of the reader. -/
theorem basic?_shows (shows : Shows '"' true false c w) (fuel : Nat) (rest : List Char) :
    basic? (fuel + 1) (w ++ rest) = (basic? fuel rest).map fun p => (c :: p.1, p.2) := by
  cases shows with
  | plain other shown backslash =>
    rw [List.singleton_append, basic?, if_neg other, if_neg (backslash rfl), shown]
    rfl
  | newline multiline => cases multiline
  | escaped _ _ _ _ back =>
    rw [List.cons_append, List.cons_append, basic?, if_neg (by decide), if_pos rfl, back]
    simp only [Option.bind_eq_bind, Option.bind_some]
    cases basic? fuel rest <;> rfl

theorem literal?_shows (shows : Shows '\'' false false c w) (rest : List Char) :
    literal? (w ++ rest) = (literal? rest).map fun p => (c :: p.1, p.2) := by
  cases shows with
  | plain other shown =>
    rw [List.singleton_append, literal?, if_neg other, shown]
    rfl
  | newline multiline => cases multiline
  | escaped escapes => cases escapes

inductive ShowsAll (quote : Char) (escapes lines : Bool) : List Char → List Char → Prop where
  | nil : ShowsAll quote escapes lines [] []
  | cons {c : Char} {s w t : List Char} : Shows quote escapes lines c w →
      ShowsAll quote escapes lines s t → ShowsAll quote escapes lines (c :: s) (w ++ t)

theorem basic?_showsAll (shows : ShowsAll '"' true false s t) (enough : t.length < fuel)
    (rest : List Char) : basic? fuel (t ++ '"' :: rest) = some (s, rest) := by
  induction shows generalizing fuel with
  | nil =>
    obtain ⟨fuel, rfl⟩ : ∃ k, fuel = k + 1 := ⟨fuel - 1, by omega⟩
    rfl
  | @cons c s w t first _ ih =>
    obtain ⟨fuel, rfl⟩ : ∃ k, fuel = k + 1 := ⟨fuel - 1, by omega⟩
    have some := first.length_pos
    have fewer : t.length < fuel := by
      rw [List.length_append] at enough
      omega
    rw [List.append_assoc, basic?_shows first, ih fewer]
    rfl

theorem literal?_showsAll (shows : ShowsAll '\'' false false s t) (rest : List Char) :
    literal? (t ++ '\'' :: rest) = some (s, rest) := by
  induction shows with
  | nil => rfl
  | cons first _ ih =>
    rw [List.append_assoc, literal?_shows first, ih]
    rfl

/-- A text of several lines as it shows behind `k` quotes. Three quotes never follow one another. -/
inductive Runs (quote : Char) (escapes : Bool) : Nat → List Char → List Char → Prop where
  | nil {k : Nat} : k ≤ 2 → Runs quote escapes k [] []
  | quote {k : Nat} {s t : List Char} : Runs quote escapes (k + 1) s t →
      Runs quote escapes k (quote :: s) (quote :: t)
  | cons {k : Nat} {c : Char} {s w t : List Char} : k ≤ 2 → Shows quote escapes true c w →
      Runs quote escapes 0 s t → Runs quote escapes k (c :: s) (w ++ t)

def closing (quote : Char) (rest : List Char) : List Char := quote :: quote :: quote :: rest

def IsQuote (quote : Char) : Prop := quote = '"' ∨ quote = '\''

theorem takeWhile_run (k : Nat) (stop : rest.head? ≠ some quote) :
    (List.replicate k quote ++ rest).takeWhile (· == quote) = List.replicate k quote := by
  rw [List.takeWhile_append_of_pos (fun c member => by simp [List.eq_of_mem_replicate member])]
  cases rest with
  | nil => exact List.append_nil _
  | cons c rest =>
    have other : c ≠ quote := fun same => stop (congrArg some same)
    simp [other]

theorem quoteRun?_open (few : k < 3) (stop : rest.head? ≠ some quote) :
    quoteRun? quote (List.replicate k quote ++ rest) = some (k, false, rest) := by
  simp [quoteRun?, takeWhile_run k stop, few]

theorem quoteRun?_closed (few : k < 3) (stop : rest.head? ≠ some quote) :
    quoteRun? quote (List.replicate (k + 3) quote ++ rest) = some (k, true, rest) := by
  have most : k + 3 ≤ 5 := by omega
  simp [quoteRun?, takeWhile_run (k + 3) stop, most]

theorem Shows.head?_ne (isQuote : IsQuote quote) (shows : Shows quote escapes lines c w)
    (t : List Char) : (w ++ t).head? ≠ some quote := by
  cases shows with
  | plain other => exact fun same => other (Option.some.inj same)
  | newline => rcases isQuote with rfl | rfl <;> simp
  | escaped => rcases isQuote with rfl | rfl <;> simp

theorem newline?_cons (newline : c ≠ '\n') (carriageReturn : c ≠ '\r') (s : List Char) :
    newline? (c :: s) = none := by
  unfold newline?
  split
  next same => exact absurd (List.cons.inj same).1 newline
  next same => exact absurd (List.cons.inj same).1 carriageReturn
  next => rfl

theorem newline?_of_shown (shown : isControl c = false) (s : List Char) :
    newline? (c :: s) = none := by
  refine newline?_cons ?_ ?_ s <;> (rintro rfl; cases shown)

/-- One character is one step of the reader. -/
theorem multiline?_shows (isQuote : IsQuote quote) (shows : Shows quote escapes true c w)
    (fuel : Nat) (rest : List Char) : multiline? quote escapes (fuel + 1) (w ++ rest) =
      (multiline? quote escapes fuel rest).map fun p => (c :: p.1, p.2) := by
  cases shows with
  | plain other shown backslash =>
    have kept : (escapes && decide (c = '\\')) = false := by
      cases escapes with
      | true => simp [backslash rfl]
      | false => rfl
    rw [List.singleton_append, multiline?, if_neg other, kept, newline?_of_shown shown]
    simp only [shown, Bool.false_eq_true, if_false]
  | newline =>
    have other : '\n' ≠ quote := by rcases isQuote with rfl | rfl <;> decide
    have kept : (escapes && decide ('\n' = '\\')) = false := by simp
    rw [List.singleton_append, multiline?, if_neg other, kept]
    rfl
  | @escaped _ e s allowed space newline carriageReturn back =>
    have other : '\\' ≠ quote := by rcases isQuote with rfl | rfl <;> decide
    have here : skipSpace (e :: (s ++ rest)) = e :: (s ++ rest) := by
      rw [skipSpace, List.dropWhile_cons_of_neg (by simp [space])]
    subst allowed
    rw [List.cons_append, List.cons_append, multiline?, if_neg other]
    simp only [Bool.true_and, decide_true, if_true, here, newline?_cons newline carriageReturn, back,
      Option.bind_eq_bind, Option.bind_some]
    cases multiline? quote true fuel rest <;> rfl

/-- So are some quotes before another character. -/
theorem multiline?_quotes (few : k < 2) (stop : rest.head? ≠ some quote) (fuel : Nat) :
    multiline? quote escapes (fuel + 1) (List.replicate (k + 1) quote ++ rest) =
      (multiline? quote escapes fuel rest).map
        fun p => (List.replicate (k + 1) quote ++ p.1, p.2) := by
  have run := quoteRun?_open (k := k + 1) (by omega) stop
  rw [List.replicate_succ, List.cons_append] at run ⊢
  rw [multiline?, if_pos rfl, run]
  simp only [Option.bind_eq_bind, Option.bind_some, Bool.false_eq_true, if_false]
  cases multiline? quote escapes fuel rest <;> rfl

theorem multiline?_runs (isQuote : IsQuote quote) (runs : Runs quote escapes k s t)
    (stop : rest.head? ≠ some quote) (enough : k + t.length < fuel) :
    multiline? quote escapes fuel (List.replicate k quote ++ (t ++ closing quote rest)) =
      some (List.replicate k quote ++ s, rest) := by
  -- Quotes wait for what stands behind them, since the reader takes a run of them at once.
  induction runs generalizing fuel with
  | @nil k few =>
    obtain ⟨fuel, rfl⟩ : ∃ k, fuel = k + 1 := ⟨fuel - 1, by omega⟩
    have run := quoteRun?_closed (k := k) (by omega) stop
    have joined : List.replicate k quote ++ ([] ++ closing quote rest) =
        List.replicate (k + 3) quote ++ rest := by
      rw [List.replicate_add, List.append_assoc]
      rfl
    rw [joined]
    rw [List.replicate_succ, List.cons_append] at run ⊢
    rw [multiline?, if_pos rfl, run]
    rfl
  | @quote k s t _ ih =>
    have moved (t : List Char) : List.replicate k quote ++ quote :: t =
        List.replicate (k + 1) quote ++ t := by
      rw [List.replicate_succ', List.append_assoc]
      rfl
    rw [List.cons_append, moved, moved]
    exact ih (by rw [List.length_cons] at enough; omega)
  | @cons k c s w t few first _ ih =>
    have some := first.length_pos
    rw [List.length_append] at enough
    have behind {fuel : Nat} (enough : w.length + t.length < fuel) :
        multiline? quote escapes fuel (w ++ (t ++ closing quote rest)) = .some (c :: s, rest) := by
      obtain ⟨fuel, rfl⟩ : ∃ k, fuel = k + 1 := ⟨fuel - 1, by omega⟩
      have later : multiline? quote escapes fuel (t ++ closing quote rest) = .some (s, rest) :=
        ih (by omega)
      rw [multiline?_shows isQuote first, later]
      rfl
    rw [List.append_assoc]
    cases k with
    | zero => exact behind (by omega)
    | succ k =>
      obtain ⟨fuel, rfl⟩ : ∃ k, fuel = k + 1 := ⟨fuel - 1, by omega⟩
      rw [multiline?_quotes (by omega) (first.head?_ne isQuote _), behind (by omega)]
      rfl

theorem newline?_of_isQuote (isQuote : IsQuote quote) (s : List Char) :
    newline? (quote :: s) = none := by
  rcases isQuote with rfl | rfl <;> rfl

theorem newline?_runs (isQuote : IsQuote quote) (runs : Runs quote escapes 0 s t)
    (oneLine : '\n' ∉ s) (rest : List Char) : newline? (t ++ closing quote rest) = none := by
  cases runs with
  | nil => exact newline?_of_isQuote isQuote _
  | quote => exact newline?_of_isQuote isQuote _
  | cons _ first =>
    cases first with
    | plain _ shown => exact newline?_of_shown shown _
    | newline => exact absurd List.mem_cons_self oneLine
    | escaped => rfl

/-- Behind the three opening quotes there is a newline if there is one in the text. -/
theorem multiline?_opened (isQuote : IsQuote quote) (runs : Runs quote escapes 0 s t)
    (stop : rest.head? ≠ some quote) :
    let body := (if s.contains '\n' then ['\n'] else []) ++ (t ++ closing quote rest)
    multiline? quote escapes (body.length + 1) (dropNewline body) = some (s, rest) := by
  intro body
  have dropped : dropNewline body = t ++ closing quote rest := by
    cases newline : s.contains '\n' with
    | true =>
      have shape : body = '\n' :: (t ++ closing quote rest) := by simp only [body, newline]; rfl
      rw [shape]
      rfl
    | false =>
      have shape : body = t ++ closing quote rest := by simp only [body, newline]; rfl
      have oneLine : '\n' ∉ s := fun member => by simp [member] at newline
      rw [dropNewline, shape, newline?_runs isQuote runs oneLine]
      rfl
  have enough : 0 + t.length < body.length + 1 := by
    simp only [body, List.length_append]
    omega
  rw [dropped]
  exact multiline?_runs isQuote runs stop enough

end Inventory.Toml
