import Inventory.Glob.Pattern
import Mathlib.Tactic.SplitIfs

/-! Which texts are patterns. A text is one when its classes, braces and escapes are complete, and
this is settled by a scan that takes one character after another, whatever tokens the characters
make. So a text is judged from the state that its beginning leaves. -/
namespace Inventory.Glob

inductive Scan where
  /-- Outside of classes. So many braces are open. -/
  | outside (depth : Nat)
  /-- After a backslash that escapes. -/
  | escaped (depth : Nat)
  /-- After the bracket that opens a class. -/
  | opened (depth : Nat)
  /-- After the mark that negates a class. -/
  | negated (depth : Nat)
  /-- In a class whose last range begins with `low`; with `dash` the next character ends it. -/
  | within (depth : Nat) (low : Char) (dash : Bool)
  /-- After what no pattern begins with. -/
  | broken
  deriving DecidableEq

namespace Scan

def step (escapes : Bool) : Scan → Char → Scan
  | outside depth, c =>
    if c = '[' then opened depth
    else if c = '\x7b' then outside (depth + 1)
    else if c = '\x7d' then if depth = 0 then broken else outside (depth - 1)
    else if c = '\\' ∧ escapes = true then escaped depth
    else outside depth
  | escaped depth, _ => outside depth
  | opened depth, c => if c = '!' ∨ c = '^' then negated depth else within depth c false
  | negated depth, c => within depth c false
  | within depth low dash, c =>
    if c = ']' then outside depth
    else if dash then if c < low then broken else within depth low false
    else if c = '-' then within depth low true
    else within depth c false
  | broken, _ => broken

def run (escapes : Bool) (scan : Scan) (s : List Char) : Scan := s.foldl (step escapes) scan

variable {escapes dash : Bool} {depth : Nat} {low high c : Char} {s t : List Char} {scan : Scan}

@[simp] theorem run_nil : run escapes scan [] = scan := rfl

@[simp] theorem run_cons : run escapes scan (c :: s) = run escapes (step escapes scan c) s := rfl

theorem run_append : run escapes scan (s ++ t) = run escapes (run escapes scan s) t :=
  List.foldl_append

theorem run_broken : run escapes broken s = broken := by
  induction s with
  | nil => rfl
  | cons c s ih => exact ih

end Scan

open Scan

variable {escapes dash : Bool} {depth : Nat} {low high c : Char} {s t : List Char}

/-- How a class is read that a scan stands in: its end is found by both or by none. -/
def ReadsClass (escapes : Bool) (depth : Nat) (scan : Scan)
    (read : Option (List (Char × Char) × List Char)) (s : List Char) : Prop :=
  (∃ ranges rest, read = some (ranges, rest) ∧ rest.length < s.length ∧
    run escapes scan s = run escapes (outside depth) rest) ∨
  (read = none ∧ ∀ d, run escapes scan s ≠ outside d)

theorem ReadsClass.cons {scan : Scan} {read : Option (List (Char × Char) × List Char)}
    (reads : ReadsClass escapes depth (step escapes scan c) read s) :
    ReadsClass escapes depth scan read (c :: s) := by
  rcases reads with ⟨ranges, rest, found, shorter, same⟩ | ⟨none, never⟩
  · exact .inl ⟨ranges, rest, found, Nat.lt_succ_of_lt shorter, same⟩
  · exact .inr ⟨none, never⟩

theorem readsClass_within (escapes : Bool) (depth : Nat) (low high : Char)
    (ranges : List (Char × Char)) (dash : Bool) (s : List Char) :
    ReadsClass escapes depth (within depth low dash)
      (classRanges? ((low, high) :: ranges) false dash s) s := by
  induction s generalizing low high ranges dash with
  | nil => exact .inr ⟨rfl, by simp⟩
  | cons c s ih =>
    by_cases ends : c = ']'
    · subst ends
      exact .inl ⟨_, s, rfl, by simp, by simp [step]⟩
    · cases dash with
      | true =>
        by_cases below : c < low
        · refine .inr ⟨by simp [classRanges?, ends, below], fun d => ?_⟩
          simp [step, ends, below, run_broken]
        · have reads := ih low c ranges false
          rw [classRanges?]
          refine ReadsClass.cons ?_
          simpa [step, ends, below] using reads
      | false =>
        by_cases joins : c = '-'
        · have reads := ih low high ranges true
          rw [classRanges?]
          refine ReadsClass.cons ?_
          simpa [step, ends, joins] using reads
        · have reads := ih c c ((low, high) :: ranges) false
          rw [classRanges?]
          refine ReadsClass.cons ?_
          simpa [step, ends, joins] using reads

/-- The first character of a class never ends it. -/
theorem readsClass_first {scan : Scan} (never : ∀ d, scan ≠ outside d)
    (first : ∀ c rest, s = c :: rest → step escapes scan c = within depth c false) :
    ReadsClass escapes depth scan (classRanges? [] true false s) s := by
  cases s with
  | nil => exact .inr ⟨rfl, never⟩
  | cons c s =>
    refine ReadsClass.cons ?_
    rw [first c s rfl]
    simpa [classRanges?] using readsClass_within escapes depth c c [] false s

/-- So many branches are open that each open brace has one at least, and the pattern one more. -/
def Nested : (branches : Nat) → (openings : List Nat) → Prop
  | branches, [] => branches = 1
  | branches, opening :: openings => opening < branches ∧ Nested opening openings

theorem Nested.pos {branches : Nat} {openings : List Nat} (nested : Nested branches openings) :
    0 < branches := by
  cases openings with
  | nil => exact Nat.lt_of_lt_of_eq Nat.zero_lt_one nested.symm
  | cons opening openings => exact Nat.zero_lt_of_lt nested.1

theorem Nested.eq_one_iff {branches : Nat} {openings : List Nat}
    (nested : Nested branches openings) : branches = 1 ↔ openings.length = 0 := by
  cases openings with
  | nil => exact ⟨fun _ => rfl, fun _ => nested⟩
  | cons opening openings =>
    have := nested.1
    have := nested.2.pos
    simp only [List.length_cons]
    omega

namespace Reading

variable {r r' : Reading} {before : Option Char}

def IsNested (r : Reading) : Prop := Nested r.branches.length r.openings

theorem isNested_start : start.IsNested := rfl

structure Alike (r r' : Reading) : Prop where
  branches : r'.branches.length = r.branches.length
  openings : r'.openings = r.openings

theorem Alike.isNested (alike : Alike r r') (nested : r.IsNested) : r'.IsNested := by
  rw [IsNested, alike.branches, alike.openings]
  exact nested

theorem Alike.trans {r'' : Reading} (first : Alike r r') (second : Alike r' r'') : Alike r r'' :=
  ⟨second.branches.trans first.branches, second.openings.trans first.openings⟩

theorem alike_push (nested : r.IsNested) (t : Token) : Alike r (r.push t) := by
  obtain ⟨branches, openings⟩ := r
  cases branches with
  | nil => exact absurd nested.pos (Nat.lt_irrefl 0)
  | cons branch branches => exact ⟨rfl, rfl⟩

theorem alike_pop (r : Reading) : Alike r r.pop.2 := by
  obtain ⟨branches, openings⟩ := r
  rcases branches with _ | ⟨_ | ⟨t, branch⟩, branches⟩ <;> exact ⟨rfl, rfl⟩

theorem alike_pushRuns (nested : r.IsNested) : Alike r r.pushRuns :=
  (alike_push nested .anyRun).trans (alike_push ((alike_push nested .anyRun).isNested nested) .anyRun)

theorem isNested_openBrace (nested : r.IsNested) : r.openBrace.IsNested :=
  ⟨Nat.lt_succ_self _, nested⟩

/-- A closed brace leaves the branches that were there before it was opened. -/
theorem closeBrace?_eq (nested : r.IsNested) : (r.closeBrace? = none ∧ r.openings = []) ∨
    ∃ r', r.closeBrace? = some r' ∧ r'.IsNested ∧ r.openings.length = r'.openings.length + 1 := by
  obtain ⟨branches, openings⟩ := r
  cases openings with
  | nil => exact .inl ⟨rfl, rfl⟩
  | cons opening openings =>
    let rest : Reading := ⟨branches.drop (branches.length - opening), openings⟩
    have less : opening < branches.length := nested.1
    have left : rest.branches.length = opening := by
      show (branches.drop (branches.length - opening)).length = opening
      rw [List.length_drop]
      omega
    have restNested : rest.IsNested := by
      rw [IsNested, left]
      exact nested.2
    let inner := branches.take (branches.length - opening)
    have alike := alike_push restNested (.choice (inner.reverse.map List.reverse))
    refine .inr ⟨_, rfl, alike.isNested restNested, ?_⟩
    rw [alike.openings]
    rfl

theorem isNested_comma (nested : r.IsNested) :
    r.comma.IsNested ∧ r.comma.openings = r.openings := by
  obtain ⟨branches, openings⟩ := r
  cases openings with
  | nil =>
    have alike := alike_push nested (.literal ',')
    exact ⟨alike.isNested nested, alike.openings⟩
  | cons opening openings => exact ⟨⟨Nat.lt_succ_of_lt nested.1, nested.2⟩, rfl⟩

theorem alike_pop_push (nested : r.IsNested) (t : Token) : Alike r (r.pop.2.push t) :=
  (alike_pop r).trans (alike_push ((alike_pop r).isNested nested) t)

end Reading

open Reading

/-- Two stars are tokens of the branch that is open, and take at most a slash with them. -/
theorem doubleStar_alike {r : Reading} (nested : r.IsNested) (before : Option Char)
    (s : List Char) : Alike r (doubleStar r before s).1 ∧
      ((doubleStar r before s).2.1 = s ∨ s = '/' :: (doubleStar r before s).2.1) := by
  unfold doubleStar
  split
  · split
    · exact ⟨alike_push nested _, .inl rfl⟩
    · exact ⟨alike_push nested _, .inr rfl⟩
    · exact ⟨alike_pushRuns nested, .inl rfl⟩
  · split
    · exact ⟨alike_pushRuns nested, .inl rfl⟩
    · extract_lets place
      have placed (isLast : Bool) : Alike r (place isLast) := by
        have popped := alike_pop_push nested
        unfold place
        split
        next r' here =>
          obtain rfl : r.pop.2 = r' := congrArg Prod.snd here
          exact popped _
        next r' here =>
          obtain rfl : r.pop.2 = r' := congrArg Prod.snd here
          exact popped _
        next t r' _ _ here =>
          obtain rfl : r.pop.2 = r' := congrArg Prod.snd here
          exact popped _
      split
      · exact ⟨placed true, .inl rfl⟩
      · exact ⟨placed false, .inr rfl⟩
      · split
        · exact ⟨placed true, .inl rfl⟩
        · exact ⟨alike_pushRuns nested, .inl rfl⟩

def Completes (options : Options) (fuel : Nat) (r : Reading) (before : Option Char)
    (s : List Char) : Prop :=
  ∃ r', readTokens? options fuel r before s = some r' ∧ r'.branches.length = 1

theorem completes_nil {options : Options} {fuel : Nat} {r : Reading} {before : Option Char}
    (nested : r.IsNested) : Completes options fuel r before [] ↔
      run options.escapes (outside r.openings.length) [] = outside 0 := by
  have stops : readTokens? options fuel r before [] = some r := by cases fuel <;> rfl
  rw [Completes, stops, run_nil, outside.injEq, ← nested.eq_one_iff]
  exact ⟨fun ⟨r', same, one⟩ => Option.some.inj same ▸ one, fun one => ⟨r, rfl, one⟩⟩

def afterMark : List Char → Bool × List Char
  | '!' :: s | '^' :: s => (true, s)
  | s => (false, s)

theorem readTokens?_class (options : Options) (fuel : Nat) (r : Reading) (before : Option Char)
    (s : List Char) : readTokens? options (fuel + 1) r before ('[' :: s) =
      match classRanges? [] true false (afterMark s).2 with
      | none => none
      | some (ranges, rest) =>
        readTokens? options fuel (r.push (.oneOf (afterMark s).1 ranges)) (some ']') rest := rfl

/-- A class is read as the scan reads it, behind a mark that negates it or without one. -/
theorem readsClass_opened (escapes : Bool) (depth : Nat) (s : List Char) :
    ReadsClass escapes depth (opened depth) (classRanges? [] true false (afterMark s).2) s := by
  unfold afterMark
  split
  · exact .cons (readsClass_first (by simp [step]) fun _ _ _ => rfl)
  · exact .cons (readsClass_first (by simp [step]) fun _ _ _ => rfl)
  next bang caret =>
    refine readsClass_first (by simp) fun c rest same => ?_
    have unmarked : ¬ (c = '!' ∨ c = '^') := by
      rintro (rfl | rfl)
      · exact bang rest same
      · exact caret rest same
    simp [step, unmarked]

/-- Reading follows the scan: it goes on where the scan does, and comes to an end without open
braces where the scan does. -/
theorem completes_iff (options : Options) (fuel : Nat) (r : Reading) (before : Option Char)
    (s : List Char) (enough : s.length ≤ fuel) (nested : r.IsNested) :
    Completes options fuel r before s ↔
      run options.escapes (outside r.openings.length) s = outside 0 := by
  induction fuel generalizing r before s with
  | zero =>
    obtain rfl := List.length_eq_zero_iff.mp (Nat.le_zero.mp enough)
    exact completes_nil nested
  | succ fuel ih =>
    cases s with
    | nil => exact completes_nil nested
    | cons c s =>
      have short : s.length ≤ fuel := Nat.le_of_succ_le_succ enough
      -- Most characters leave the scan outside and the reading with the same branches.
      have same (r' : Reading) (before : Option Char) (rest : List Char) (alike : Alike r r')
          (shorter : rest.length ≤ fuel) : Completes options fuel r' before rest ↔
            run options.escapes (outside r.openings.length) rest = outside 0 := by
        rw [← alike.openings]
        exact ih r' before rest shorter (alike.isNested nested)
      simp only [Completes, readTokens?]
      split
      case h_1 => -- a question mark
        exact same _ _ _ (alike_push nested _) short
      case h_2 => -- a star or two
        split
        next rest =>
          have read := doubleStar_alike nested before rest
          generalize doubleStar r before rest = result at read ⊢
          obtain ⟨r', rest', tookSlash⟩ := result
          rcases read with ⟨alike, rfl | rfl⟩
          · exact same _ _ _ alike (Nat.le_of_succ_le short)
          · exact same _ _ _ alike (Nat.le_of_succ_le (Nat.le_of_succ_le short))
        next => exact same _ _ _ (alike_push nested _) short
      case h_3 => -- a class
        have inside : run options.escapes (outside r.openings.length) ('[' :: s) =
            run options.escapes (opened r.openings.length) s := rfl
        show (∃ r', readTokens? options (fuel + 1) r before ('[' :: s) = some r' ∧ _) ↔ _
        rw [readTokens?_class, inside]
        rcases readsClass_opened options.escapes r.openings.length s with
          ⟨ranges, rest, found, shorter, after⟩ | ⟨none, never⟩
        · rw [found, after]
          exact same _ _ _ (alike_push nested _) (Nat.le_trans (Nat.le_of_lt shorter) short)
        · rw [none]
          simp [never]
      case h_4 => -- a brace that opens
        exact ih _ _ _ short (isNested_openBrace nested)
      case h_5 => -- a brace that closes
        rcases closeBrace?_eq nested with ⟨none, closed⟩ | ⟨r', closes, nested', fewer⟩
        · rw [none, closed]
          simp [step, run_broken]
        · rw [closes, fewer]
          exact ih _ _ _ short nested'
      case h_6 => -- a comma
        obtain ⟨nested', alike⟩ := isNested_comma nested
        have next := ih r.comma (some ',') s short nested'
        rw [alike] at next
        exact next
      case h_7 => -- a backslash
        split
        next escapes =>
          have inside : run options.escapes (outside r.openings.length) ('\\' :: s) =
              run options.escapes (escaped r.openings.length) s := by
            simp [step, escapes]
          rw [inside]
          cases s with
          | nil => simp
          | cons e rest => exact same _ _ _ (alike_push nested _) (Nat.le_of_succ_le short)
        next plain =>
          have plain : step options.escapes (outside r.openings.length) '\\' =
              outside r.openings.length := by
            simp [step, plain]
          rw [run_cons, plain]
          exact same _ _ _ (alike_push nested _) short
      case h_8 question star bracket openBrace closeBrace comma backslash =>
        have plain : step options.escapes (outside r.openings.length) c =
            outside r.openings.length := by
          rw [step, if_neg bracket, if_neg openBrace, if_neg closeBrace,
            if_neg fun both => backslash both.1]
        rw [run_cons, plain]
        exact same _ _ _ (alike_push nested _) short

/-- The text has no class, brace or escape that is left open, and none that cannot be closed. -/
def Complete (escapes : Bool) (s : List Char) : Prop := run escapes (outside 0) s = outside 0

instance (escapes : Bool) (s : List Char) : Decidable (Complete escapes s) :=
  inferInstanceAs (Decidable (_ = _))

/-- A text is a pattern exactly if it is complete. -/
theorem isSome_parse?_iff (options : Options) (pattern : String) :
    (parse? options pattern).isSome = true ↔ Complete options.escapes pattern.toList := by
  have completes := completes_iff options (pattern.toList.length + 1) .start none pattern.toList
    (Nat.le_succ _) isNested_start
  refine Iff.trans ?_ completes
  rw [parse?, Option.isSome_map, tokens?, Completes]
  cases readTokens? options (pattern.toList.length + 1) .start none pattern.toList with
  | none => simp
  | some r =>
    obtain ⟨branches, openings⟩ := r
    rcases branches with _ | ⟨tokens, _ | ⟨second, rest⟩⟩ <;> simp

/-- What is below a folder is a pattern if the folder is one, and also if the folder ends with a
backslash that the slash behind it completes. -/
theorem complete_below_iff : Complete escapes (s ++ ['/', '*', '*']) ↔
    Complete escapes s ∨ run escapes (outside 0) s = escaped 0 := by
  rw [Complete, Complete, run_append]
  generalize run escapes (outside 0) s = scan
  cases scan with
  | outside depth => simp [step]
  | escaped depth => simp [step]
  | opened depth => by_cases '/' < '*' <;> simp_all [step]
  | negated depth => simp [step]
  | within depth low dash => cases dash <;> by_cases below : '/' < low <;> simp [step, below]
  | broken => simp [step]

example : Complete true "a\\/**".toList ∧ ¬ Complete true "a\\".toList := by decide

theorem step_eq_escaped_iff {scan : Scan} :
    step escapes scan c = escaped depth ↔ scan = outside depth ∧ c = '\\' ∧ escapes = true := by
  cases scan with
  | outside d =>
    by_cases backslash : c = '\\'
    · subst backslash
      cases escapes <;> simp [step]
    · simp only [step]
      split_ifs <;> simp_all
  | opened d => simp only [step]; split_ifs <;> simp
  | within d low dash => simp only [step]; split_ifs <;> simp
  | _ => simp [step]

/-- A scan ends behind a backslash that escapes exactly if what stands before it is complete. -/
theorem run_eq_escaped_iff : run escapes (outside 0) s = escaped 0 ↔
    escapes = true ∧ ∃ front, s = front ++ ['\\'] ∧ Complete escapes front := by
  rcases List.eq_nil_or_concat s with rfl | ⟨front, c, rfl⟩
  · simp
  · rw [List.concat_eq_append, run_append, run_cons, run_nil, step_eq_escaped_iff]
    constructor
    · rintro ⟨complete, rfl, escapes⟩
      exact ⟨escapes, front, rfl, complete⟩
    · rintro ⟨escapes, front', same, complete⟩
      obtain ⟨rfl, last⟩ := List.append_inj' same rfl
      exact ⟨complete, by simpa using last, escapes⟩

end Inventory.Glob
