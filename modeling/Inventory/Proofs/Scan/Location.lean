import Inventory.Proofs.Path
import Inventory.Scan.Location
import Mathlib.Data.List.TakeWhile

/-! Locations below a root. One slash at the end of the root is minded, but each further one stays
in front of what is left of the path. What lies outside of the root keeps its path, unless the
root is nothing but slashes. -/
namespace Inventory

open Text
open Inventory.Path (components pieces namesOf componentsOf isAbsolute)

variable {root location rel : String} {path front rest : List Char} {n : Nat}

def slashed (path : String) : String := replaceChar '\\' '/' path

structure IsRelative (rel : String) : Prop where
  noBackslash : '\\' ∉ rel.toList
  noEmpty : "" ∉ pieces rel

theorem slashed_eq_self (none : '\\' ∉ root.toList) : slashed root = root := by
  have same : ∀ c ∈ root.toList, (if c = '\\' then '/' else c) = c := by
    intro c member
    refine if_neg ?_
    rintro rfl
    exact none member
  rw [slashed, replaceChar, List.map_congr_left same, List.map_id', String.ofList_toList]

theorem IsRelative.head_ne (below : IsRelative rel) : rel.toList.head? ≠ some '/' := by
  intro first
  obtain ⟨more, whole⟩ := List.head?_eq_some_iff.mp first
  refine below.noEmpty ?_
  rw [pieces, splitAt, whole]
  simp [splitWhen]

/-- A path without the slashes at its end, and how many these are. -/
structure Ends (path front : List Char) (n : Nat) : Prop where
  whole : path = front ++ List.replicate n '/'
  last : front.getLast? ≠ some '/'

theorem exists_ends (path : List Char) : ∃ n, Ends path (dropSlashesEnd path) n := by
  have slashes : path.reverse.takeWhile (· == '/') =
      List.replicate (path.reverse.takeWhile (· == '/')).length '/' :=
    List.eq_replicate_of_mem fun c member => by simpa using List.mem_takeWhile_imp member
  refine ⟨(path.reverse.takeWhile (· == '/')).length, ?_, ?_⟩
  · have whole := congrArg List.reverse
      (List.takeWhile_append_dropWhile (p := (· == '/')) (l := path.reverse))
    rw [List.reverse_append, List.reverse_reverse, slashes, List.reverse_replicate] at whole
    exact whole.symm
  · rw [dropSlashesEnd, List.getLast?_reverse]
    intro slash
    have stop := List.head?_dropWhile_not (· == '/') path.reverse
    rw [slash] at stop
    cases stop

theorem Ends.getLast? (ends : Ends path front n) : path.getLast? = some '/' ↔ 0 < n := by
  cases n with
  | zero => simpa [ends.whole] using ends.last
  | succ n => simp [ends.whole, List.replicate_succ']

theorem Ends.slashes_suffix (ends : Ends path front n) : ['/', '/'] <:+ path ↔ 1 < n := by
  match n, ends with
  | 0, ⟨whole, last⟩ =>
    refine iff_of_false ?_ (by decide)
    rintro ⟨more, rfl⟩
    refine last ?_
    rw [List.replicate_zero, List.append_nil] at whole
    simp [← whole]
  | 1, ⟨whole, last⟩ =>
    refine iff_of_false ?_ (by decide)
    rintro ⟨more, rfl⟩
    have cut : more ++ ['/'] = front :=
      List.append_cancel_right ((List.append_assoc more ['/'] ['/']).trans whole)
    exact last (by simp [← cut])
  | n + 2, ⟨whole, _⟩ =>
    refine iff_of_true ⟨front ++ List.replicate n '/', ?_⟩ (by omega)
    rw [whole, ← List.replicate_append_replicate, List.append_assoc]
    rfl

/-- Joining puts a slash behind a root that ends with none. -/
theorem toList_join (some : root ≠ "") (ends : Ends root.toList front n) (below : IsRelative rel) :
    (Path.join root rel).toList = front ++ (List.replicate (max n 1) '/' ++ rel.toList) := by
  have relative : isAbsolute rel = false := decide_eq_false below.head_ne
  have opened : root.isEmpty = false := by simpa using some
  rw [Path.join, relative, opened, Bool.false_or, if_neg Bool.false_ne_true]
  by_cases slash : 0 < n
  · have most : max n 1 = n := by omega
    rw [if_pos (decide_eq_true (ends.getLast?.mpr slash)), String.toList_append, ends.whole, most,
      List.append_assoc]
  · obtain rfl : n = 0 := by omega
    rw [if_neg (by simpa using ends.getLast?.not.mpr slash)]
    simp [ends.whole]

theorem below?_append (front rest : List Char) :
    below? front (front ++ '/' :: rest) = some ('/' :: rest) := by
  rw [below?, dropLiteral?_eq_some_iff.mpr rfl]
  rfl

/-- The slashes between the root and the rest of the path are kept. -/
theorem relativeLocation_join (some : root ≠ "") (plain : '\\' ∉ root.toList)
    (ends : Ends root.toList (dropSlashesEnd root.toList) n) (below : IsRelative rel) :
    relativeLocation root (Path.join root rel) =
      String.ofList (List.replicate (max n 1) '/' ++ rel.toList) := by
  have whole := toList_join some ends below
  have plain' : '\\' ∉ (Path.join root rel).toList := by
    rw [ends.whole] at plain
    rw [whole]
    simp_all [below.noBackslash]
  have slash : List.replicate (max n 1) '/' ++ rel.toList =
      '/' :: (List.replicate (max n 1 - 1) '/' ++ rel.toList) := by
    obtain ⟨k, positive⟩ : ∃ k, max n 1 = k + 1 := ⟨max n 1 - 1, by omega⟩
    rw [positive, List.replicate_succ, Nat.add_sub_cancel, List.cons_append]
  have same := slashed_eq_self plain
  have same' := slashed_eq_self plain'
  rw [slashed] at same same'
  unfold relativeLocation
  dsimp only
  rw [same, same', whole, slash]
  by_cases none : dropSlashesEnd root.toList = []
  · simp [none, withSlash]
  · simp [none, below?_append, withSlash]

theorem componentsOf_append (absolute : Bool) (first : String) (names more : List String) :
    componentsOf absolute first (names ++ more) =
      componentsOf absolute first names ++ namesOf more := by
  unfold componentsOf
  rw [Path.namesOf_append]
  split
  · rfl
  · split
    · split <;> rfl
    · rfl

/-- What follows a slash adds its names. -/
theorem components_append_slash {path : String} (some : path ≠ "") (more : String) :
    components (path ++ "/" ++ more) = components path ++ namesOf (pieces more) := by
  obtain ⟨first, names, cut⟩ := List.exists_cons_of_ne_nil (Path.pieces_ne_nil path)
  have cut' : pieces (path ++ "/" ++ more) = first :: (names ++ pieces more) := by
    rw [Path.pieces_append_slash, cut, List.cons_append]
  have absolute : isAbsolute (path ++ "/" ++ more) = isAbsolute path := by
    obtain ⟨c, letters, whole⟩ : ∃ c letters, path.toList = c :: letters :=
      List.exists_cons_of_ne_nil fun none => some (String.toList_eq_nil_iff.mp none)
    simp [isAbsolute, whole]
  rw [Path.components_eq cut', Path.components_eq cut, componentsOf_append, absolute]

theorem namesOf_slashes (n : Nat) : namesOf (pieces (String.ofList (List.replicate n '/'))) = [] := by
  rw [namesOf, List.filter_eq_nil_iff]
  intro piece member
  have none := Path.noSlash_of_mem_pieces member
  obtain ⟨letters, isPiece, rfl⟩ := List.mem_map.mp member
  rw [String.toList_ofList] at isPiece none
  have empty : letters = [] := by
    refine List.eq_nil_iff_forall_not_mem.mpr fun c among => none ?_
    have slash : c = '/' := (List.mem_replicate.mp (mem_of_mem_splitWhen isPiece among)).2
    exact slash ▸ among
  simp [empty]

theorem components_of_ends (ends : Ends root.toList front n) (some : front ≠ []) :
    components root = components (String.ofList front) := by
  have some' : String.ofList front ≠ "" := by simpa using some
  obtain rfl : root = String.ofList (front ++ List.replicate n '/') :=
    String.toList_inj.mp (by rw [ends.whole, String.toList_ofList])
  cases n with
  | zero => rw [List.replicate_zero, List.append_nil]
  | succ n =>
    have cut : String.ofList (front ++ List.replicate (n + 1) '/') =
        String.ofList front ++ "/" ++ String.ofList (List.replicate n '/') :=
      String.toList_inj.mp (by simp [List.replicate_succ])
    rw [cut, components_append_slash some', namesOf_slashes, List.append_nil]

/-- Only a path that goes through all components of the root is cut. -/
theorem prefix_of_below? (ends : Ends root.toList front n) (some : front ≠ [])
    (below : below? front location.toList = Option.some rest) :
    components root <+: components location := by
  have some' : String.ofList front ≠ "" := by simpa using some
  rw [components_of_ends ends some]
  unfold below? at below
  split at below
  next here =>
    have whole : location = String.ofList front := by
      have letters := dropLiteral?_eq_some_iff.mp here
      rw [List.append_nil] at letters
      exact String.toList_inj.mp (letters.trans String.toList_ofList.symm)
    exact whole ▸ List.prefix_rfl
  next more here =>
    have whole : location = String.ofList front ++ "/" ++ String.ofList more := by
      have letters := dropLiteral?_eq_some_iff.mp here
      exact String.toList_inj.mp (by simp [letters])
    rw [whole, components_append_slash some']
    exact List.prefix_append ..
  next => cases below

theorem components_slash (more : String) :
    components ("/" ++ more) = "/" :: namesOf (pieces more) := by
  have cut : pieces ("/" ++ more) = "" :: pieces more := by
    have cut := Path.pieces_append_slash "" more
    rwa [String.empty_append] at cut
  have absolute : isAbsolute ("/" ++ more) = true := by simp [isAbsolute]
  rw [Path.components_eq cut, absolute, componentsOf, if_neg (by decide), if_pos rfl, if_pos rfl]

/-- Every path that begins with a slash lies below a root that is nothing but slashes. -/
theorem prefix_of_slashes (slashes : root.toList = List.replicate n '/')
    (absolute : location.toList.head? = some '/') : components root <+: components location := by
  obtain ⟨more, whole⟩ := List.head?_eq_some_iff.mp absolute
  obtain rfl : location = "/" ++ String.ofList more := String.toList_inj.mp (by simp [whole])
  obtain rfl : root = String.ofList (List.replicate n '/') :=
    String.toList_inj.mp (by rw [slashes, String.toList_ofList])
  cases n with
  | zero => exact List.nil_prefix
  | succ n =>
    have cut : String.ofList (List.replicate (n + 1) '/') =
        "/" ++ String.ofList (List.replicate n '/') :=
      String.toList_inj.mp (by simp [List.replicate_succ])
    rw [cut, components_slash, components_slash, namesOf_slashes]
    exact List.prefix_append ["/"] _

/-- Outside of a root a path keeps its text exactly if the root is more than slashes. -/
theorem relativeLocation_outside_iff
    (outside : ¬ components (slashed root) <+: components (slashed location)) :
    relativeLocation root location = slashed location ↔ ∃ c ∈ (slashed root).toList, c ≠ '/' := by
  obtain ⟨n, ends⟩ := exists_ends (slashed root).toList
  unfold relativeLocation
  dsimp only
  rw [← slashed, ← slashed]
  by_cases none : dropSlashesEnd (slashed root).toList = []
  · have slashes : (slashed root).toList = List.replicate n '/' := by
      simpa [none] using ends.whole
    have relative : (slashed location).toList.head? ≠ some '/' := fun absolute =>
      outside (prefix_of_slashes slashes absolute)
    have more : withSlash (slashed location).toList = '/' :: (slashed location).toList := by
      unfold withSlash
      split
      next rest whole => exact absurd (by rw [whole]; rfl) relative
      next => rfl
    rw [none, List.isEmpty_nil, if_pos rfl, more]
    refine iff_of_false (fun same => ?_) ?_
    · have length := congrArg (·.toList.length) same
      simp at length
    · rintro ⟨c, member, other⟩
      exact other (List.mem_replicate.mp (slashes ▸ member)).2
  · have apart : below? (dropSlashesEnd (slashed root).toList) (slashed location).toList = .none := by
      rw [Option.eq_none_iff_forall_ne_some]
      exact fun rest below => outside (prefix_of_below? ends none below)
    obtain ⟨c, last⟩ : ∃ c, (dropSlashesEnd (slashed root).toList).getLast? = some c :=
      ⟨_, List.getLast?_eq_some_getLast none⟩
    have filled : (dropSlashesEnd (slashed root).toList).isEmpty = false := by simpa using none
    rw [filled, if_neg Bool.false_ne_true, apart]
    refine iff_of_true String.ofList_toList ⟨c, ?_, ?_⟩
    · rw [ends.whole]
      exact List.mem_append_left _ (List.mem_of_getLast? last)
    · rintro rfl
      exact ends.last last

/-- What is joined to a root is found again behind one slash, unless the root ends with two; in any
case no two paths below a root have one location. A path that is neither the root nor below it
keeps its text, unless the root is nothing but slashes. -/
theorem relativeLocation_undoes_join_iff (root : String) :
    (root ≠ "" → '\\' ∉ root.toList →
      (∀ rel, IsRelative rel →
        (relativeLocation root (Path.join root rel) = "/" ++ rel ↔ ¬ ['/', '/'] <:+ root.toList)) ∧
      ∀ rel rel', IsRelative rel → IsRelative rel' →
        relativeLocation root (Path.join root rel) = relativeLocation root (Path.join root rel') →
        rel = rel') ∧
    ∀ location, ¬ components (slashed root) <+: components (slashed location) →
      (relativeLocation root location = slashed location ↔
        ∃ c ∈ (slashed root).toList, c ≠ '/') := by
  refine ⟨fun some plain => ?_, fun location => relativeLocation_outside_iff⟩
  obtain ⟨n, ends⟩ := exists_ends root.toList
  refine ⟨fun rel below => ?_, fun rel rel' below below' same => ?_⟩
  · rw [relativeLocation_join some plain ends below, ends.slashes_suffix, ← String.toList_inj,
      String.toList_ofList, String.toList_append]
    constructor
    · intro same many
      have length := congrArg List.length same
      simp only [List.length_append, List.length_replicate] at length
      have one : "/".toList.length = 1 := rfl
      omega
    · intro few
      have one : max n 1 = 1 := by omega
      rw [one]
      rfl
  · rw [relativeLocation_join some plain ends below, relativeLocation_join some plain ends below',
      String.ofList_inj, List.append_cancel_left_eq] at same
    exact String.toList_inj.mp same

/-- The second slash at the end of a root is kept, and a path that is not below the root folder gets
a slash. -/
theorem slash_kept_and_added :
    IsRelative "go.mod" ∧ Path.join "repo//" "go.mod" = "repo//go.mod" ∧
      relativeLocation "repo//" "repo//go.mod" = "//go.mod" ∧
      ¬ components (slashed "/") <+: components (slashed "repo/go.mod") ∧
      relativeLocation "/" "repo/go.mod" = "/repo/go.mod" := by
  refine ⟨⟨by decide, by decide +kernel⟩, ?_⟩
  decide +kernel

end Inventory
