import Inventory.Exclusion
import Inventory.Proofs.Glob.Complete
import Inventory.Proofs.Text.Split

/-! What rejected patterns exclude. A pattern for all that is below a folder is read in two variants,
one after the other, and the globs of the first stay when the second is none. This happens to just
the patterns in which a backslash stands before the last slash: it escapes that slash, but nothing
when the slash is cut off. -/
namespace Inventory.Exclusion

open Glob (Regular)

variable {windows ignoreCase : Bool} {pattern path : String} {patterns : List String}
  {glob : Regular}

def readable (options : Glob.Options) : List String → List Regular
  | [] => []
  | variant :: rest =>
    match Glob.parse? options variant with
    | some glob => glob :: readable options rest
    | .none => []

theorem addVariants_eq (options : Glob.Options) (exclusion : Exclusion) (variants : List String) :
    addVariants options exclusion variants =
      (variants.all fun variant => (Glob.parse? options variant).isSome,
        { exclusion with globs := exclusion.globs ++ readable options variants }) := by
  induction variants generalizing exclusion with
  | nil => simp [addVariants, readable]
  | cons variant rest ih =>
    rw [addVariants, readable]
    cases read : Glob.parse? options variant with
    | none => simp [read]
    | some glob => simp [read, ih]

def spelled (windows : Bool) (pattern : String) : String :=
  if windows then Text.replaceChar '\\' '/' pattern else pattern

def added (windows ignoreCase : Bool) (pattern : String) : List Regular :=
  readable ⟨ignoreCase, !windows⟩ (variants (spelled windows pattern))

def isTaken (windows ignoreCase : Bool) (pattern : String) : Bool :=
  (variants (spelled windows pattern)).all fun variant =>
    (Glob.parse? ⟨ignoreCase, !windows⟩ variant).isSome

theorem add_eq (windows ignoreCase : Bool) (exclusion : Exclusion) (pattern : String) :
    add windows ignoreCase exclusion pattern =
      ⟨exclusion.globs ++ added windows ignoreCase pattern,
        exclusion.patterns ++ [pattern].filter (isTaken windows ignoreCase)⟩ := by
  unfold add
  extract_lets normal
  rw [addVariants_eq]
  have taken : (variants normal).all (fun variant =>
      (Glob.parse? ⟨ignoreCase, !windows⟩ variant).isSome) = isTaken windows ignoreCase pattern := rfl
  rw [taken, List.filter_cons, List.filter_nil]
  cases isTaken windows ignoreCase pattern with
  | true => rfl
  | false => simp [added, spelled, normal]

theorem ofPatterns_eq (patterns : List String) (windows ignoreCase : Bool) :
    ofPatterns patterns windows ignoreCase =
      ⟨patterns.flatMap (added windows ignoreCase),
        patterns.filter (isTaken windows ignoreCase)⟩ := by
  have onto (exclusion : Exclusion) : patterns.foldl (add windows ignoreCase) exclusion =
      ⟨exclusion.globs ++ patterns.flatMap (added windows ignoreCase),
        exclusion.patterns ++ patterns.filter (isTaken windows ignoreCase)⟩ := by
    induction patterns generalizing exclusion with
    | nil => simp
    | cons pattern patterns ih =>
      rw [List.foldl_cons, ih, add_eq, List.flatMap_cons, ← List.singleton_append (l := patterns),
        List.filter_append]
      simp only [List.append_assoc]
  exact onto none

theorem excludesPath_iff : (ofPatterns patterns windows ignoreCase).excludesPath path = true ↔
    ∃ pattern ∈ patterns, ∃ glob ∈ added windows ignoreCase pattern,
      Glob.matchesPath glob (Text.replaceChar '\\' '/' path) = true := by
  rw [excludesPath, ofPatterns_eq, List.any_eq_true]
  simp only [List.mem_flatMap]
  constructor
  · rintro ⟨glob, ⟨pattern, member, here⟩, found⟩
    exact ⟨pattern, member, glob, here, found⟩
  · rintro ⟨pattern, member, glob, here, found⟩
    exact ⟨glob, ⟨pattern, member, here⟩, found⟩

/-- A pattern for what is below a folder is also read as one for the folder. -/
theorem variants_eq (pattern : String) :
    (variants pattern = [pattern] ∧ ∀ folder, folder ≠ "" → pattern ≠ folder ++ "/**") ∨
      ∃ folder, pattern = folder ++ "/**" ∧ variants pattern = [pattern, folder] := by
  unfold variants
  split
  next c folder cut =>
    have whole := Text.dropLiteralEnd?_eq_some_iff.mp cut
    refine .inr ⟨String.ofList (c :: folder), ?_, rfl⟩
    apply String.toList_inj.mp
    simpa using whole
  next other =>
    refine .inl ⟨rfl, fun folder named same => ?_⟩
    have cut := Text.dropLiteralEnd?_eq_some_iff.mpr ((congrArg String.toList same).trans
      String.toList_append)
    cases letters : folder.toList with
    | nil => exact named (String.toList_eq_nil_iff.mp letters)
    | cons c rest => exact other c rest (letters ▸ cut)

/-- The pattern ends with an escaped slash and two stars, and what stands before them is a pattern
of its own. -/
def Stranded (ignoreCase : Bool) (pattern : String) (glob : Regular) : Prop :=
  ∃ folder, pattern = folder ++ "\\/**" ∧ (Glob.parse? ⟨ignoreCase, true⟩ folder).isSome = true ∧
    Glob.parse? ⟨ignoreCase, true⟩ pattern = some glob

/-- A pattern for what is below a folder is one without the folder being one exactly if a backslash
ends the folder and escapes nothing there. -/
theorem folder_unread_iff (options : Glob.Options) (folder : String) :
    (Glob.parse? options (folder ++ "/**")).isSome = true ∧
        (Glob.parse? options folder).isSome = false ↔
      options.escapes = true ∧ ∃ front, folder = front ++ "\\" ∧
        (Glob.parse? options front).isSome = true := by
  have below : (folder ++ "/**").toList = folder.toList ++ ['/', '*', '*'] := String.toList_append
  have ends (front : String) : folder = front ++ "\\" ↔ folder.toList = front.toList ++ ['\\'] := by
    rw [← String.toList_inj, String.toList_append]
    rfl
  rw [← Bool.not_eq_true, Glob.isSome_parse?_iff, Glob.isSome_parse?_iff, below,
    Glob.complete_below_iff]
  constructor
  · rintro ⟨complete | stops, unread⟩
    · exact absurd complete unread
    · obtain ⟨escapes, front, same, complete⟩ := Glob.run_eq_escaped_iff.mp stops
      refine ⟨escapes, String.ofList front, (ends _).mpr (by simpa using same), ?_⟩
      rw [Glob.isSome_parse?_iff]
      simpa using complete
  · rintro ⟨escapes, front, same, read⟩
    have stops := Glob.run_eq_escaped_iff.mpr
      ⟨escapes, front.toList, (ends front).mp same, Glob.isSome_parse?_iff .. |>.mp read⟩
    refine ⟨.inr stops, fun complete => ?_⟩
    rw [Glob.Complete, stops] at complete
    cases complete

/-- A glob is left of a pattern that is not taken exactly if the pattern is read and the folder
above it is not. -/
theorem left_iff {options : Glob.Options} {folder : String} :
    glob ∈ readable options [pattern, folder] ∧
        ([pattern, folder].all fun variant => (Glob.parse? options variant).isSome) = false ↔
      Glob.parse? options pattern = some glob ∧ (Glob.parse? options folder).isSome = false := by
  cases read : Glob.parse? options pattern with
  | none => simp [readable, read]
  | some g => cases readFolder : Glob.parse? options folder with
    | none => simp [readable, read, readFolder, @eq_comm _ g]
    | some g' => simp [readFolder, read]

/-- The patterns that are not taken and leave a glob are those with an escaped slash at the end. -/
theorem stranded_iff : glob ∈ added windows ignoreCase pattern ∧
      isTaken windows ignoreCase pattern = false ↔
    windows = false ∧ Stranded ignoreCase pattern glob := by
  rcases variants_eq (spelled windows pattern) with ⟨single, bare⟩ | ⟨folder, whole, double⟩
  · rw [added, isTaken, single]
    constructor
    · rintro ⟨member, untaken⟩
      cases read : Glob.parse? ⟨ignoreCase, !windows⟩ (spelled windows pattern) <;>
        simp [readable, read] at member untaken
    · rintro ⟨rfl, front, same, _⟩
      refine absurd (same.trans ?_) (bare (front ++ "\\") (by simp))
      rw [String.append_assoc]
      rfl
  · rw [added, isTaken, double, left_iff]
    constructor
    · rintro ⟨read, unread⟩
      obtain ⟨escapes, front, rfl, complete⟩ := (folder_unread_iff _ folder).mp
        ⟨Option.isSome_iff_exists.mpr ⟨glob, whole ▸ read⟩, unread⟩
      obtain rfl : windows = false := by simpa using escapes
      have same : pattern = front ++ "\\/**" := by
        rw [String.append_assoc] at whole
        exact whole
      exact ⟨rfl, front, same, complete, read⟩
    · rintro ⟨rfl, front, same, complete, read⟩
      have folder_eq : folder = front ++ "\\" := by
        have ends : folder ++ "/**" = (front ++ "\\") ++ "/**" := by
          rw [String.append_assoc]
          exact whole.symm.trans same
        exact (String.append_left_inj "/**").mp ends
      exact ⟨read, ((folder_unread_iff _ folder).mpr ⟨rfl, front, folder_eq, complete⟩).2⟩

/-- A list of patterns excludes what the patterns taken from it exclude, and what is matched by
those that are not taken and still leave a glob behind. -/
theorem excludesPath_ofPatterns_iff (patterns : List String) (windows ignoreCase : Bool)
    (path : String) :
    let exclusion := ofPatterns patterns windows ignoreCase
    let accepted := ofPatterns exclusion.patterns windows ignoreCase
    accepted.patterns = exclusion.patterns ∧
      (exclusion.excludesPath path = true ↔ accepted.excludesPath path = true ∨
        (windows = false ∧ ∃ pattern ∈ patterns, ∃ glob, Stranded ignoreCase pattern glob ∧
          Glob.matchesPath glob (Text.replaceChar '\\' '/' path) = true)) := by
  intro exclusion accepted
  have taken : exclusion.patterns = patterns.filter (isTaken windows ignoreCase) :=
    congrArg Exclusion.patterns (ofPatterns_eq ..)
  constructor
  · have again : accepted.patterns = exclusion.patterns.filter (isTaken windows ignoreCase) :=
      congrArg Exclusion.patterns (ofPatterns_eq ..)
    rw [again, taken, List.filter_filter]
    simp
  · rw [excludesPath_iff, excludesPath_iff, taken]
    constructor
    · rintro ⟨pattern, member, glob, here, found⟩
      cases whole : isTaken windows ignoreCase pattern with
      | true => exact .inl ⟨pattern, List.mem_filter.mpr ⟨member, whole⟩, glob, here, found⟩
      | false =>
        obtain ⟨escaping, stranded⟩ := stranded_iff.mp ⟨here, whole⟩
        exact .inr ⟨escaping, pattern, member, glob, stranded, found⟩
    · rintro (⟨pattern, member, glob, here, found⟩ |
        ⟨escaping, pattern, member, glob, stranded, found⟩)
      · exact ⟨pattern, (List.mem_filter.mp member).1, glob, here, found⟩
      · exact ⟨pattern, member, glob, (stranded_iff.mpr ⟨escaping, stranded⟩).1, found⟩

/-- The slash of `vendor\/**` is escaped, so that the pattern is not taken; its glob stays. -/
theorem escaped_slash_excludes :
    let exclusion := ofPatterns ["vendor\\/**"] false false
    exclusion.patterns = [] ∧ exclusion.excludesPath "vendor/lib" = true ∧
      (ofPatterns exclusion.patterns false false).excludesPath "vendor/lib" = false := by
  decide +kernel

end Inventory.Exclusion
