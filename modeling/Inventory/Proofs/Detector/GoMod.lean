import Inventory.Proofs.Detector.Lines
import Mathlib.Data.List.Induction

/-! Which lines of a module file require a module. The search knows a `require` directive by the
letters that a line begins with, so it takes lines that begin with a longer token as well, be they
in a block of another directive. It takes nothing else too much and leaves nothing out. -/
namespace Inventory.GoMod

open Text

def inToken (c : Char) : Bool := !isBlankChar c && c != '('

/-- The first token of a line. A bracket that opens a block is no part of it. -/
def verb (line : List Char) : List Char := (trim line).takeWhile inToken

def argument (line : List Char) : List Char := trim ((trim line).dropWhile inToken)

def Opens (line : List Char) : Prop := verb line = keyword ∧ startsWith ['('] (argument line) = true

def Closes (line : List Char) : Prop := startsWith [')'] (trim line) = true

/-- A block of requirements that was opened in these lines is still open at their end. -/
def InBlock (before : List (List Char)) : Prop :=
  ∃ front opener inside, before = front ++ opener :: inside ∧ Opens opener ∧
    ∀ line ∈ inside, ¬ Closes line

instance (line : List Char) : Decidable (Opens line) := inferInstanceAs (Decidable (_ ∧ _))
instance (line : List Char) : Decidable (Closes line) := inferInstanceAs (Decidable (_ = _))

def IsEntry (line : List Char) : Prop :=
  ¬ Closes line ∧ trim line ≠ [] ∧ startsWith ['/', '/'] (trim line) = false

def IsSingle (line : List Char) : Prop :=
  verb line = keyword ∧ argument line ≠ [] ∧ ¬ Opens line

instance (line : List Char) : Decidable (IsEntry line) := inferInstanceAs (Decidable (_ ∧ _))
instance (line : List Char) : Decidable (IsSingle line) := inferInstanceAs (Decidable (_ ∧ _))

def entry (line : List Char) : List (List Char) := if IsEntry line then [trim line] else []

def single (line : List Char) : List (List Char) := if IsSingle line then [argument line] else []

def collect (found : List (List Char) → List Char → List (List Char))
    (before : List (List Char)) : List (List Char) → List (List Char)
  | [] => []
  | line :: rest => found before line ++ collect found (before ++ [line]) rest

def blockAfter (before : List (List Char)) : Option (List Char) := before.foldl enter none
where
  enter : Option (List Char) → List Char → Option (List Char)
    | some directive, line => if Closes line then none else some directive
    | none, line =>
      if startsWith ['/', '/'] (trim line) = false ∧ startsWith ['('] (argument line) = true then
        some (verb line)
      else none

/-- The directive that a line belongs to: that of the block it stands in, or else its own. -/
def directive (before : List (List Char)) (line : List Char) : List Char :=
  (blockAfter before).getD (verb line)

def ofRequire (before : List (List Char)) (line : List Char) : List (List Char) :=
  if directive before line ≠ keyword then []
  else if (blockAfter before).isSome then entry line
  else single line

variable {before : List (List Char)} {line rest : List Char}

theorem not_inBlock_nil : ¬ InBlock [] := by
  rintro ⟨front, opener, inside, none, -⟩
  simp at none

theorem inBlock_concat : InBlock (before ++ [line]) ↔ Opens line ∨ InBlock before ∧ ¬ Closes line := by
  constructor
  · rintro ⟨front, opener, inside, whole, opened, kept⟩
    rcases List.eq_nil_or_concat inside with rfl | ⟨inside, last, rfl⟩
    · obtain ⟨-, same⟩ := List.append_inj' whole rfl
      exact .inl (List.singleton_inj.mp same ▸ opened)
    · rw [List.concat_eq_append, ← List.cons_append, ← List.append_assoc] at whole
      obtain ⟨rfl, same⟩ := List.append_inj' whole rfl
      obtain rfl := List.singleton_inj.mp same
      refine .inr ⟨⟨front, opener, inside, rfl, opened, fun l member => ?_⟩, ?_⟩
      · exact kept l (by simp [member])
      · exact kept line (by simp)
  · rintro (opened | ⟨⟨front, opener, inside, rfl, opened, kept⟩, still⟩)
    · exact ⟨before, line, [], rfl, opened, by simp⟩
    · refine ⟨front, opener, inside ++ [line], by simp, opened, fun l member => ?_⟩
      rcases List.mem_append.mp member with inner | last
      · exact kept l inner
      · exact List.mem_singleton.mp last ▸ still

instance decidableInBlock (before : List (List Char)) : Decidable (InBlock before) :=
  decidable_of_iff (before.foldl (fun inside line => decide (Opens line) ||
    inside && !decide (Closes line)) false = true) <| by
      induction before using List.reverseRecOn with
      | nil => simp [not_inBlock_nil]
      | append_singleton before line ih => simp [inBlock_concat, ← ih]

/-- What a line requires as far as blocks of requirements and its own first token show. -/
def asked (before : List (List Char)) (line : List Char) : List (List Char) :=
  if InBlock before then entry line else single line

theorem verb_argument (whole : trim line = keyword ++ rest)
    (stop : ∀ c ∈ rest.head?, inToken c = false) :
    verb line = keyword ∧ argument line = trim rest := by
  have letters : ∀ c ∈ keyword, inToken c = true := List.all_eq_true.mp (by decide)
  rw [verb, argument, whole, List.takeWhile_append_of_pos letters,
    List.dropWhile_append_of_pos letters]
  cases rest with
  | nil => simp
  | cons c rest => simp [stop c rfl]

theorem exists_of_verb (first : verb line = keyword) :
    ∃ rest, trim line = keyword ++ rest ∧ ∀ c ∈ rest.head?, inToken c = false := by
  refine ⟨(trim line).dropWhile inToken, ?_, fun c here => ?_⟩
  · rw [← first, verb, List.takeWhile_append_dropWhile]
  · have stop := List.head?_dropWhile_not inToken (trim line)
    rw [here] at stop
    simpa using stop

/-- Trimming takes nothing off in front of a character that is not blank. -/
theorem exists_trim_cons {c : Char} (shown : isBlankChar c = false) (rest : List Char) :
    ∃ more, trim (c :: rest) = c :: more := by
  have start : trimStart (c :: rest) = c :: rest := List.dropWhile_cons_of_neg (by simp [shown])
  obtain ⟨after, blanks, whole, -⟩ := exists_trimEnd (c :: rest)
  rw [trim, start]
  cases back : trimEnd (c :: rest) with
  | nil =>
    rw [back] at whole
    have blank := blanks c (by simp [← show c :: rest = after from whole])
    exact absurd (shown.symm.trans blank) (by decide)
  | cons d more =>
    rw [back] at whole
    obtain ⟨rfl, -⟩ := List.cons.inj whole
    exact ⟨more, rfl⟩

/-- What goes on as a token after the letters of `require` is neither blank nor a bracket. -/
theorem exists_of_longer {c : Char} (inside : inToken c = true) (more : List Char) :
    ∃ more', trim (c :: more) = c :: more' ∧ c ≠ '(' := by
  simp only [inToken, Bool.and_eq_true, Bool.not_eq_true', bne_iff_ne] at inside
  obtain ⟨more', trimmed⟩ := exists_trim_cons inside.1 more
  exact ⟨more', trimmed, inside.2⟩

theorem opens_iff : Opens line ↔
    ∃ rest, trim line = keyword ++ rest ∧ startsWith ['('] (trim rest) = true := by
  constructor
  · rintro ⟨first, bracket⟩
    obtain ⟨rest, whole, stop⟩ := exists_of_verb first
    exact ⟨rest, whole, (verb_argument whole stop).2 ▸ bracket⟩
  · rintro ⟨rest, whole, bracket⟩
    have stop : ∀ c ∈ rest.head?, inToken c = false := by
      intro c here
      obtain ⟨more, rfl⟩ := List.head?_eq_some_iff.mp here
      by_contra inside
      obtain ⟨more', trimmed, other⟩ := exists_of_longer (by simpa using inside) more
      rw [trimmed, startsWith, dropLiteral?, if_neg other.symm] at bracket
      cases bracket
    obtain ⟨first, behind⟩ := verb_argument whole stop
    exact ⟨first, behind ▸ bracket⟩

/-- What is taken from a line outside of blocks: all that stands behind the letters. -/
def loose (line : List Char) : List (List Char) :=
  match dropLiteral? keyword (trim line) with
  | some rest => if trim rest = [] ∨ startsWith ['('] (trim rest) = true then [] else [trim rest]
  | none => []

def taken (before : List (List Char)) (line : List Char) : List (List Char) :=
  if InBlock before then entry line else loose line

theorem loose_of_verb (first : verb line = keyword) : loose line = single line := by
  obtain ⟨rest, whole, stop⟩ := exists_of_verb first
  have behind := (verb_argument whole stop).2
  rw [loose, dropLiteral?_eq_some_iff.mpr whole, single]
  simp only [IsSingle, Opens, first, behind, true_and]
  by_cases none : trim rest = []
  · simp [none]
  · by_cases bracket : startsWith ['('] (trim rest) = true <;> simp [none, bracket]

/-- More stands behind the letters of `require` than a bracket that opens a block. -/
def GoesOn (line : List Char) : Prop :=
  ∃ rest, trim line = keyword ++ rest ∧ trim rest ≠ [] ∧ startsWith ['('] (trim rest) = false

theorem loose_ne_nil_iff : loose line ≠ [] ↔ GoesOn line := by
  simp only [GoesOn, ← dropLiteral?_eq_some_iff, loose]
  cases dropLiteral? keyword (trim line) with
  | none => simp
  | some rest => simp [not_or]

theorem entry_ne_nil_iff : entry line ≠ [] ↔ IsEntry line := by
  simp [entry]

theorem single_of_verb_ne (other : verb line ≠ keyword) : single line = [] :=
  if_neg fun requires => other requires.1

/-- A line that begins with the letters but has a longer first token goes on behind them. -/
theorem goesOn_of_verb_ne (letters : keyword <+: trim line) (other : verb line ≠ keyword) :
    GoesOn line := by
  obtain ⟨rest, whole⟩ := letters
  have longer : ∃ c ∈ rest.head?, inToken c = true := by
    by_contra none
    refine other (verb_argument whole.symm fun c here => ?_).1
    by_contra inside
    exact none ⟨c, here, by simpa using inside⟩
  obtain ⟨c, here, inside⟩ := longer
  obtain ⟨more, rfl⟩ := List.head?_eq_some_iff.mp here
  obtain ⟨more', trimmed, bracket⟩ := exists_of_longer inside more
  exact ⟨c :: more, whole.symm, by simp [trimmed],
    by simp [trimmed, startsWith, dropLiteral?, bracket.symm]⟩

theorem exists_trim_of_opens (opened : Opens line) : ∃ more, trim line = 'r' :: more := by
  have letters : keyword = 'r' :: "equire".toList := by decide +kernel
  obtain ⟨rest, whole, -⟩ := opens_iff.mp opened
  exact ⟨_, whole.trans (by rw [letters, List.cons_append])⟩

theorem not_closes_of_opens (opened : Opens line) : ¬ Closes line := by
  obtain ⟨more, whole⟩ := exists_trim_of_opens opened
  simp [Closes, whole, startsWith, dropLiteral?]

/-- One line: what is taken from it, and whether a block is open behind it. -/
theorem requirementLines_cons (inside : Bool) (line : List Char) (rest : List (List Char)) :
    requirementLines inside (line :: rest) = (if inside then entry line else loose line) ++
      requirementLines (decide (Opens line) || inside && !decide (Closes line)) rest := by
  cases inside with
  | true =>
    by_cases closed : Closes line
    · have opened : ¬ Opens line := fun opened => not_closes_of_opens opened closed
      have bracket : startsWith [')'] (trim line) = true := closed
      simp [requirementLines, entry, IsEntry, bracket, closed, opened]
    · have bracket : startsWith [')'] (trim line) = false := by simpa [Closes] using closed
      by_cases some : IsEntry line
      · simp [requirementLines, entry, some, bracket, closed, some.2]
      · have nothing : trim line = [] ∨ startsWith ['/', '/'] (trim line) = true := by
          simpa [IsEntry, closed, Classical.or_iff_not_imp_left] using some
        simp [requirementLines, entry, some, bracket, closed, nothing]
  | false =>
    have opened : Opens line ↔ ∃ rest, dropLiteral? keyword (trim line) = some rest ∧
        startsWith ['('] (trim rest) = true := by
      simp only [opens_iff, dropLiteral?_eq_some_iff]
    cases cut : dropLiteral? keyword (trim line) with
    | none => simp [requirementLines, loose, opened, cut]
    | some behind =>
      cases trimmed : trim behind with
      | nil =>
        have bracket : startsWith ['('] [] = false := rfl
        simp [requirementLines, loose, opened, cut, trimmed, bracket]
      | cons c more =>
        by_cases bracket : c = '('
        · subst bracket
          simp [requirementLines, loose, opened, cut, trimmed, startsWith, dropLiteral?]
        · simp [requirementLines, loose, opened, cut, trimmed, bracket, Ne.symm bracket, startsWith,
            dropLiteral?]

/-- The search is in a block exactly where one is open. -/
theorem requirementLines_eq (before lines : List (List Char)) :
    requirementLines (decide (InBlock before)) lines = collect taken before lines := by
  induction lines generalizing before with
  | nil => rfl
  | cons line rest ih =>
    rw [requirementLines_cons, collect, taken, ← ih]
    simp [inBlock_concat]

theorem append_eq_append_iff_of_shorter {first first' more more' : List (List Char)}
    (some : first' = [] ∨ first' = first) (shorter : more'.length ≤ more.length) :
    first ++ more = first' ++ more' ↔ first' = first ∧ more = more' := by
  constructor
  · intro whole
    rcases some with rfl | rfl
    · have length := congrArg List.length whole
      rw [List.length_append, List.nil_append] at length
      obtain rfl : first = [] := List.length_eq_zero_iff.mp (by omega)
      exact ⟨rfl, whole⟩
    · exact ⟨rfl, List.append_cancel_left whole⟩
  · rintro ⟨rfl, rfl⟩
    rfl

section Collect

variable {found found' : List (List Char) → List Char → List (List Char)}
  (some : ∀ before line, found' before line = [] ∨ found' before line = found before line)

include some

theorem length_collect_le (before lines : List (List Char)) :
    (collect found' before lines).length ≤ (collect found before lines).length := by
  induction lines generalizing before with
  | nil => exact Nat.le_refl _
  | cons line rest ih =>
    have behind := ih (before ++ [line])
    rw [collect, collect, List.length_append, List.length_append]
    rcases some before line with none | same
    · rw [none, List.length_nil]
      omega
    · rw [same]
      omega

/-- Two ways to collect, one of which takes the same from a line as the other one or nothing, come
to the same lines exactly if they agree on every line. -/
theorem collect_eq_iff (before lines : List (List Char)) :
    collect found before lines = collect found' before lines ↔
      ∀ front line back, lines = front ++ line :: back →
        found' (before ++ front) line = found (before ++ front) line := by
  induction lines generalizing before with
  | nil => simp [collect]
  | cons line rest ih =>
    rw [collect, collect,
      append_eq_append_iff_of_shorter (some before line) (length_collect_le some _ rest)]
    refine (and_congr_right' (ih (before ++ [line]))).trans ⟨?_, fun all => ⟨?_, ?_⟩⟩
    · rintro ⟨here, later⟩ front line' back whole
      cases front with
      | nil =>
        obtain ⟨rfl, -⟩ := List.cons.inj whole
        simpa using here
      | cons first front =>
        obtain ⟨rfl, behind⟩ := List.cons.inj whole
        simpa using later front line' back behind
    · simpa using all [] line rest rfl
    · intro front line' back whole
      simpa using all (line :: front) line' back (by rw [whole, List.cons_append])

end Collect

theorem blockAfter_concat : blockAfter (before ++ [line]) =
    blockAfter.enter (blockAfter before) line :=
  List.foldl_append ..

theorem inBlock_of_blockAfter (opened : blockAfter before = some keyword) : InBlock before := by
  induction before using List.reverseRecOn with
  | nil => cases opened
  | append_singleton before line ih =>
    rw [blockAfter_concat] at opened
    rw [inBlock_concat]
    cases above : blockAfter before with
    | some directive =>
      rw [above, blockAfter.enter] at opened
      split at opened
      · cases opened
      next still => exact .inr ⟨ih (above.trans opened), still⟩
    | none =>
      rw [above, blockAfter.enter] at opened
      split at opened
      next bracket => exact .inl ⟨Option.some.inj opened, bracket.2⟩
      next => cases opened

/-- A block of requirements may be taken to be open only in a block. -/
theorem blockAfter_of_inBlock (inside : InBlock before) : (blockAfter before).isSome = true := by
  induction before using List.reverseRecOn with
  | nil => exact absurd inside not_inBlock_nil
  | append_singleton before line ih =>
    rw [blockAfter_concat]
    have still : ¬ Closes line := by
      rcases inBlock_concat.mp inside with opened | ⟨-, still⟩
      · exact not_closes_of_opens opened
      · exact still
    cases above : blockAfter before with
    | some directive => rw [blockAfter.enter, if_neg still, Option.isSome_some]
    | none =>
      rcases inBlock_concat.mp inside with opened | ⟨inside', -⟩
      · obtain ⟨more, whole⟩ := exists_trim_of_opens opened
        have noComment : startsWith ['/', '/'] (trim line) = false := by
          simp [whole, startsWith, dropLiteral?]
        rw [blockAfter.enter, if_pos ⟨noComment, opened.2⟩, Option.isSome_some]
      · have := ih inside'
        rw [above] at this
        cases this

/-- From a line of a `require` directive all is taken that it requires. -/
theorem taken_of_directive (here : directive before line = keyword) :
    taken before line = ofRequire before line := by
  rw [ofRequire, if_neg (not_not_intro here), taken]
  cases above : blockAfter before with
  | some block =>
    rw [directive, above] at here
    obtain rfl : block = keyword := here
    rw [if_pos (inBlock_of_blockAfter above)]
    rfl
  | none =>
    have outside : ¬ InBlock before := fun inside => by
      have := blockAfter_of_inBlock inside
      rw [above] at this
      cases this
    rw [directive, above] at here
    rw [if_neg outside, loose_of_verb here]
    rfl

theorem asked_eq_nil_or (before : List (List Char)) (line : List Char) :
    asked before line = [] ∨ asked before line = taken before line := by
  unfold asked taken
  split
  · exact .inr rfl
  · by_cases first : verb line = keyword
    · exact .inr (loose_of_verb first).symm
    · exact .inl (single_of_verb_ne first)

theorem ofRequire_eq_nil_or (before : List (List Char)) (line : List Char) :
    ofRequire before line = [] ∨ ofRequire before line = taken before line := by
  by_cases here : directive before line = keyword
  · exact .inr (taken_of_directive here).symm
  · exact .inl (if_pos here)

theorem asked_eq_taken_iff : asked before line = taken before line ↔
    (¬ InBlock before → keyword <+: trim line → verb line = keyword) := by
  unfold asked taken
  split
  next inside => simp [inside]
  next outside =>
    constructor
    · intro same _ letters
      by_contra other
      rw [single_of_verb_ne other] at same
      exact loose_ne_nil_iff.mpr (goesOn_of_verb_ne letters other) same.symm
    · intro word
      by_cases letters : keyword <+: trim line
      · exact (loose_of_verb (word outside letters)).symm
      · have other : verb line ≠ keyword := by
          intro first
          obtain ⟨rest, whole, -⟩ := exists_of_verb first
          exact letters ⟨rest, whole.symm⟩
        have nothing : loose line = [] := by
          by_contra some
          obtain ⟨rest, whole, -⟩ := loose_ne_nil_iff.mp some
          exact letters ⟨rest, whole.symm⟩
        rw [single_of_verb_ne other, nothing]

theorem ofRequire_eq_taken_iff : ofRequire before line = taken before line ↔
    (directive before line ≠ keyword →
      if InBlock before then ¬ IsEntry line else ¬ GoesOn line) := by
  by_cases here : directive before line = keyword
  · exact iff_of_true (taken_of_directive here).symm fun other => absurd here other
  · rw [ofRequire, if_pos here, taken, ← entry_ne_nil_iff, ← loose_ne_nil_iff, imp_iff_right here]
    split
    · rw [not_not, eq_comm]
    · rw [not_not, eq_comm]

/-- The search collects what blocks of requirements and first tokens ask for exactly if no line
outside of these blocks begins with the letters of `require` and has a longer first token. It
collects from no other directive exactly if no line of another one has more behind these letters,
nor stands behind one that looks like the beginning of a block. -/
theorem requirementLines_exact_iff (text : String) :
    let found := requirementLines false (lines text.toList)
    (found = collect asked [] (lines text.toList) ↔
      ∀ before line after, lines text.toList = before ++ line :: after → ¬ InBlock before →
        keyword <+: trim line → verb line = keyword) ∧
    (found = collect ofRequire [] (lines text.toList) ↔
      ∀ before line after, lines text.toList = before ++ line :: after →
        directive before line ≠ keyword →
        if InBlock before then ¬ IsEntry line else ¬ GoesOn line) := by
  intro found
  have search : found = collect taken [] (lines text.toList) := by
    rw [← requirementLines_eq]
    simp [found, not_inBlock_nil]
  rw [search, collect_eq_iff asked_eq_nil_or, collect_eq_iff ofRequire_eq_nil_or]
  simp only [List.nil_append, asked_eq_taken_iff, ofRequire_eq_taken_iff, and_self]

/-- A module that is excluded is taken for a requirement, because of the letters its name begins
with. -/
theorem longer_token_taken :
    let lines := lines "module example.com/app\n\nexclude (\n\trequire.dev/tool v1.2.0\n)\n".toList
    requirementLines false lines = [".dev/tool v1.2.0".toList] ∧
      (requirementLines false lines).flatMap said =
        [.ok ⟨{ component := .go ".dev/tool" "v1.2.0" none }, { explicit := true }⟩] ∧
      collect asked [] lines = [] ∧ collect ofRequire [] lines = [] := by
  decide +kernel

end Inventory.GoMod
