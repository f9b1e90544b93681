import Inventory.Proofs.Toml.Quote

/-! Quoted texts and keys are read back as they were, in whatever quotes they are put. -/
namespace Inventory.Toml

variable {quote c : Char} {escapes lines : Bool} {k : Nat} {s t rest : List Char}

theorem le_longestRun (c : Char) (k : Nat) (s : List Char) : k ≤ longestRun c k s := by
  induction s generalizing k with
  | nil => exact Nat.le_refl k
  | cons d s ih =>
    rw [longestRun]
    split
    · exact Nat.le_of_succ_le (ih (k + 1))
    · exact Nat.le_max_left ..

theorem not_mem_of_longestRun (none : longestRun c 0 s = 0) : c ∉ s := by
  induction s with
  | nil => exact List.not_mem_nil
  | cons d s ih =>
    rw [longestRun] at none
    split at none
    · have some := le_longestRun c (0 + 1) s
      omega
    next other =>
      rw [Nat.max_eq_zero_iff] at none
      exact fun member => (List.mem_cons.mp member).elim (other ∘ Eq.symm) (ih none.2)

theorem showsAll_basic (k : Nat) (s : List Char) :
    ShowsAll '"' true false s (escapedText false k s).toList := by
  induction s generalizing k with
  | nil => exact .nil
  | cons c s ih =>
    by_cases quote : c = '"'
    · subst quote
      have text : (escapedText false k ('"' :: s)).toList =
          ['\\', '"'] ++ (escapedText false 0 s).toList := by
        simp [escapedText]
      rw [text]
      exact .cons (.escaped rfl rfl (by decide) (by decide) fun _ => rfl) (ih 0)
    · rw [escapedText, if_neg quote, String.toList_append]
      exact .cons (shows_escaped quote false) (ih 0)

theorem runs_basic (few : k ≤ 2) (s : List Char) :
    Runs '"' true k s (escapedText true k s).toList := by
  induction s generalizing k with
  | nil => exact .nil few
  | cons c s ih =>
    by_cases quote : c = '"'
    · subst quote
      by_cases open_ : k < 2
      · have text : (escapedText true k ('"' :: s)).toList =
            '"' :: (escapedText true (k + 1) s).toList := by
          simp [escapedText, open_]
        rw [text]
        exact .quote (ih open_)
      · have text : (escapedText true k ('"' :: s)).toList =
            ['\\', '"'] ++ (escapedText true 0 s).toList := by
          simp [escapedText, open_]
        rw [text]
        exact .cons few (.escaped rfl rfl (by decide) (by decide) fun _ => rfl)
          (ih (Nat.zero_le 2))
    · rw [escapedText, if_neg quote, String.toList_append]
      exact .cons few (shows_escaped quote true) (ih (Nat.zero_le 2))

theorem showsAll_literal (shown : s.any isEscapeCode = false) (oneLine : '\n' ∉ s)
    (none : '\'' ∉ s) : ShowsAll '\'' false false s s := by
  induction s with
  | nil => exact .nil
  | cons c s ih =>
    rw [List.any_cons, Bool.or_eq_false_iff] at shown
    rw [List.mem_cons, not_or] at oneLine none
    exact .cons (w := [c]) (shows_self (Ne.symm none.1) shown.1 fun _ => Ne.symm oneLine.1)
      (ih shown.2 oneLine.2 none.2)

theorem runs_literal (shown : s.any isEscapeCode = false) (few : longestRun quote k s ≤ 2) :
    Runs quote false k s s := by
  induction s generalizing k with
  | nil => exact .nil few
  | cons c s ih =>
    rw [List.any_cons, Bool.or_eq_false_iff] at shown
    rw [longestRun] at few
    split at few
    next same =>
      subst same
      exact .quote (ih shown.2 few)
    next other =>
      rw [Nat.max_le] at few
      exact .cons (w := [c]) few.1 (shows_self other shown.1 nofun) (ih shown.2 few.2)

theorem ShowsAll.head?_ne (isQuote : IsQuote quote) (shows : ShowsAll quote escapes lines s t)
    (some : s ≠ []) (rest : List Char) : (t ++ rest).head? ≠ .some quote := by
  cases shows with
  | nil => exact absurd rfl some
  | cons first =>
    rw [List.append_assoc]
    exact first.head?_ne isQuote _

/-- One quote or two, but not three. -/
theorem not_three_quotes (isQuote : IsQuote quote) (shows : ShowsAll quote escapes lines s t)
    (stop : s = [] → rest.head? ≠ some quote) (more : List Char) :
    t ++ quote :: rest ≠ quote :: quote :: more := by
  intro same
  by_cases none : s = []
  · subst none
    cases shows
    exact stop rfl (congrArg List.head? (List.cons.inj same).2)
  · exact shows.head?_ne isQuote none _ (congrArg List.head? same)

theorem basic?_basic (s rest : List Char) :
    let body := (escapedText false 0 s).toList ++ '"' :: rest
    (basic s).toList ++ rest = '"' :: body ∧
      basic? (body.length + 1) body = some (s, rest) := by
  refine ⟨by simp [basic], basic?_showsAll (showsAll_basic 0 s) ?_ rest⟩
  rw [List.length_append]
  omega

theorem quoted?_basic (s : List Char) (stop : rest.head? ≠ some '"') :
    quoted? ((basic s).toList ++ rest) = some (String.ofList s, rest) := by
  obtain ⟨text, read⟩ := basic?_basic s rest
  have single := not_three_quotes (.inl rfl) (showsAll_basic 0 s) (fun _ => stop)
  rw [text]
  generalize (escapedText false 0 s).toList ++ '"' :: rest = body at single read
  unfold quoted?
  split
  next same => exact absurd (List.cons.inj same).2 (single _)
  next same =>
    obtain ⟨_, rfl⟩ := List.cons.inj same
    rw [read]
    rfl
  next same => cases same
  next same => cases same
  next _ other _ _ => exact absurd rfl (other _)

theorem quoted?_literal (shown : s.any isEscapeCode = false) (oneLine : '\n' ∉ s)
    (none : '\'' ∉ s) (some : s ≠ []) (rest : List Char) :
    quoted? ((literal s).toList ++ rest) = .some (String.ofList s, rest) := by
  have shows := showsAll_literal shown oneLine none
  have single (more : List Char) : s ++ '\'' :: rest ≠ '\'' :: '\'' :: more :=
    not_three_quotes (.inr rfl) shows (fun empty => absurd empty some) more
  have text : (literal s).toList ++ rest = '\'' :: (s ++ '\'' :: rest) := by simp [literal]
  have read := literal?_showsAll shows rest
  rw [text]
  generalize s ++ '\'' :: rest = body at single read
  unfold quoted?
  split
  next same => cases same
  next same => cases same
  next same => exact absurd (List.cons.inj same).2 (single _)
  next same =>
    obtain ⟨_, rfl⟩ := List.cons.inj same
    rw [read]
    rfl
  next other => exact absurd rfl (other _)

theorem toList_opening (s : List Char) (quotes : String) :
    (opening (.of s) quotes).toList =
      quotes.toList ++ if s.contains '\n' then ['\n'] else [] := by
  by_cases newline : '\n' ∈ s <;> simp [opening, TextShape.of, newline]

theorem quoted?_multilineBasic (s : List Char) (stop : rest.head? ≠ some '"') :
    quoted? ((multilineBasic (.of s) s).toList ++ rest) = some (String.ofList s, rest) := by
  have read := multiline?_opened (.inl rfl) (runs_basic (Nat.zero_le 2) s) stop
  have text : (multilineBasic (.of s) s).toList ++ rest = '"' :: '"' :: '"' ::
      ((if s.contains '\n' then ['\n'] else []) ++
        ((escapedText true 0 s).toList ++ closing '"' rest)) := by
    rw [multilineBasic, String.toList_append, String.toList_append, toList_opening]
    simp [closing]
  rw [text, quoted?, read]
  rfl

theorem quoted?_multilineLiteral (shown : s.any isEscapeCode = false)
    (few : longestRun '\'' 0 s ≤ 2) (stop : rest.head? ≠ some '\'') :
    quoted? ((multilineLiteral (.of s) s).toList ++ rest) = some (String.ofList s, rest) := by
  have read := multiline?_opened (.inr rfl) (runs_literal shown few) stop
  have text : (multilineLiteral (.of s) s).toList ++ rest = '\'' :: '\'' :: '\'' ::
      ((if s.contains '\n' then ['\n'] else []) ++ (s ++ closing '\'' rest)) := by
    rw [multilineLiteral, String.toList_append, String.toList_append, toList_opening]
    simp [closing]
  rw [text, quoted?, read]
  rfl

/-- What a text must be to stand as it is between single quotes. -/
theorem literal_allowed (allowed : (!(TextShape.of s).controls && !(TextShape.of s).newline &&
    decide ((TextShape.of s).singleQuotes = 0)) = true) :
    s.any isEscapeCode = false ∧ '\n' ∉ s ∧ '\'' ∉ s := by
  simp only [TextShape.of, Bool.and_eq_true, Bool.not_eq_true'] at allowed
  obtain ⟨⟨shown, newline⟩, none⟩ := allowed
  exact ⟨shown, by simpa using newline, not_mem_of_longestRun (of_decide_eq_true none)⟩

/-- Whatever quotes a text is put in, it is read back as it was. -/
theorem quoted?_quoted (text : String) (double : rest.head? ≠ some '"')
    (single : rest.head? ≠ some '\'') :
    quoted? ((quoted text).toList ++ rest) = some (text, rest) := by
  conv_rhs => rw [← String.ofList_toList (s := text)]
  simp only [quoted]
  generalize text.toList = s
  split
  next => exact quoted?_basic s double
  next needed =>
    split
    next allowed =>
      obtain ⟨shown, oneLine, none⟩ := literal_allowed allowed
      have some : s ≠ [] := by
        rintro rfl
        exact needed rfl
      exact quoted?_literal shown oneLine none some rest
    next =>
      split
      next => exact quoted?_multilineBasic s double
      next =>
        split
        next allowed =>
          simp only [TextShape.of, Bool.and_eq_true, Bool.not_eq_true'] at allowed
          exact quoted?_multilineLiteral allowed.1 (of_decide_eq_true allowed.2) single
        next =>
          split
          · exact quoted?_multilineBasic s double
          · exact quoted?_basic s double

theorem exists_of_quoted? {p : String × Rest} (read : quoted? s = some p) :
    ∃ quote rest, s = quote :: rest ∧ IsQuote quote := by
  unfold quoted? at read
  split at read
  · exact ⟨_, _, rfl, .inl rfl⟩
  · exact ⟨_, _, rfl, .inl rfl⟩
  · exact ⟨_, _, rfl, .inr rfl⟩
  · exact ⟨_, _, rfl, .inr rfl⟩
  · cases read

/-- A quoted text starts with a quote. -/
theorem exists_quoted (text : String) :
    ∃ quote s, (quoted text).toList = quote :: s ∧ IsQuote quote := by
  have read : quoted? ((quoted text).toList ++ []) = some (text, []) :=
    quoted?_quoted text nofun nofun
  rw [List.append_nil] at read
  exact exists_of_quoted? read

theorem simpleKey?_basic (s rest : List Char) :
    simpleKey? ((basic s).toList ++ rest) = some (String.ofList s, rest) := by
  obtain ⟨text, read⟩ := basic?_basic s rest
  rw [text, simpleKey?, read]
  rfl

theorem simpleKey?_literal (shown : s.any isEscapeCode = false) (oneLine : '\n' ∉ s)
    (none : '\'' ∉ s) (rest : List Char) :
    simpleKey? ((literal s).toList ++ rest) = some (String.ofList s, rest) := by
  have text : (literal s).toList ++ rest = '\'' :: (s ++ '\'' :: rest) := by simp [literal]
  rw [text, simpleKey?, literal?_showsAll (showsAll_literal shown oneLine none)]
  rfl

theorem simpleKey?_bare (all : s.all isBareKeyChar = true) (some : s ≠ [])
    (stop : ∀ c ∈ rest.head?, isBareKeyChar c = false) :
    simpleKey? (s ++ rest) = .some (String.ofList s, rest) := by
  have whole : (s ++ rest).takeWhile isBareKeyChar = s := by
    rw [List.takeWhile_append_of_pos (List.all_eq_true.mp all)]
    cases rest with
    | nil => exact List.append_nil s
    | cons c rest => simp [stop c rfl]
  obtain ⟨c, t, rfl⟩ := List.exists_cons_of_ne_nil some
  have bare : isBareKeyChar c = true := List.all_eq_true.mp all c List.mem_cons_self
  unfold simpleKey?
  split
  next same =>
    obtain ⟨rfl, _⟩ := List.cons.inj same
    cases bare
  next same =>
    obtain ⟨rfl, _⟩ := List.cons.inj same
    cases bare
  next =>
    rw [whole]
    exact congrArg (fun rest => Option.some (String.ofList (c :: t), rest)) List.drop_left

theorem simpleKey?_keyText (key : String) (stop : ∀ c ∈ rest.head?, isBareKeyChar c = false) :
    simpleKey? ((keyText key).toList ++ rest) = some (key, rest) := by
  have same : String.ofList key.toList = key := String.ofList_toList
  simp only [keyText]
  split
  next bare =>
    simp only [Bool.and_eq_true, Bool.not_eq_true'] at bare
    have read := simpleKey?_bare bare.2 (by simpa using bare.1) stop
    rwa [same] at read
  next =>
    split
    next => exact (simpleKey?_basic ..).trans (by rw [same])
    next =>
      split
      next allowed =>
        obtain ⟨shown, oneLine, none⟩ := literal_allowed allowed
        exact (simpleKey?_literal shown oneLine none rest).trans (by rw [same])
      next => exact (simpleKey?_basic ..).trans (by rw [same])

theorem exists_of_simpleKey? {p : String × Rest} (read : simpleKey? s = some p) :
    ∃ c rest, s = c :: rest ∧ (isBareKeyChar c = true ∨ IsQuote c) := by
  unfold simpleKey? at read
  split at read
  next => exact ⟨_, _, rfl, .inr (.inl rfl)⟩
  next => exact ⟨_, _, rfl, .inr (.inr rfl)⟩
  next =>
    cases s with
    | nil => cases read
    | cons c rest =>
      refine ⟨c, rest, rfl, .inl ?_⟩
      by_contra other
      rw [List.takeWhile_cons_of_neg other] at read
      cases read

/-- A key starts with a quote or with a character that needs none. -/
theorem exists_keyText (key : String) :
    ∃ c s, (keyText key).toList = c :: s ∧ (isBareKeyChar c = true ∨ IsQuote c) := by
  have read : simpleKey? ((keyText key).toList ++ []) = some (key, []) :=
    simpleKey?_keyText key nofun
  rw [List.append_nil] at read
  exact exists_of_simpleKey? read

end Inventory.Toml
