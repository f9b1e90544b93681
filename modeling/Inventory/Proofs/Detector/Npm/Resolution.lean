import Inventory.Proofs.Detector.Npm.InstallPath
import Mathlib.Data.List.Induction
import Mathlib.Data.List.TakeWhile

/-! Where a package looks for what it depends on. Node goes up directory by directory and minds the
folder of packages in each. The search here goes from the directory that holds one folder of
packages straight to the one that holds the next, and passes over what is between them. -/
namespace Inventory.Npm

variable {p : InstallPath} {d names : List String} {installed : String → Bool} {name : String}

def keyIn (d : List String) (name : String) : String := joined (d ++ [folderName]) ++ "/" ++ name

/-- The package in the deepest of these directories that has it. -/
def Nearest (among : List String → Prop) (installed : String → Bool) (name : String) :
    Option String → Prop
  | some key => ∃ d, among d ∧ keyIn d name = key ∧ installed key = true ∧
      ∀ d', among d' → installed (keyIn d' name) = true → d'.length ≤ d.length
  | none => ∀ d, among d → installed (keyIn d name) = false

/-- Node minds a directory: it is on the way to the package and no folder of packages itself. -/
structure LooksIn (p : InstallPath) (d : List String) : Prop where
  above : d <+: p.names
  counts : d.getLast? ≠ some folderName

/-- What stands in front of the last folder of packages on the way. -/
def above (names : List String) : List String :=
  (names.dropLast.reverse.dropWhile (· ≠ folderName)).tail.reverse

theorem prefix_above (names : List String) : above names <+: names := by
  have end' : (names.dropLast.reverse.dropWhile (· ≠ folderName)).tail <:+ names.dropLast.reverse :=
    (List.tail_suffix _).trans (List.dropWhile_suffix _)
  rw [← List.reverse_prefix, List.reverse_reverse] at end'
  exact end'.trans (List.dropLast_prefix names)

theorem above_of_lastInner {front back : List String}
    (here : LastInner (· = folderName) names front name back) : above names = front := by
  obtain rfl : name = folderName := here.marked
  have skipped : ∀ n ∈ back.dropLast.reverse, decide (n ≠ folderName) = true := by
    intro n member
    exact decide_eq_true (here.last n (List.mem_reverse.mp member))
  rw [above, here.cut, List.dropLast_append_cons, List.dropLast_cons_of_ne_nil here.inner,
    List.reverse_append, List.reverse_cons, List.append_assoc, List.singleton_append,
    List.dropWhile_append_of_pos skipped]
  simp

theorem above_of_none (none : ∀ n ∈ names.dropLast, n ≠ folderName) : above names = [] := by
  have all : names.dropLast.reverse.dropWhile (· ≠ folderName) = [] := by
    rw [List.dropWhile_eq_nil_iff]
    intro n member
    exact decide_eq_true (none n (List.mem_reverse.mp member))
  rw [above, all]
  rfl

def InstallPath.above (p : InstallPath) : InstallPath where
  names := Npm.above p.names
  valid name member := p.valid name ((prefix_above p.names).subset member)

theorem names_above (p : InstallPath) : p.above.names = Npm.above p.names := rfl

theorem parentPath_eq_above (p : InstallPath) : parentPath p.text.toList = p.above.text.toList := by
  have up : p.above.text = joined (Npm.above p.names) := rfl
  rw [up]
  rcases exists_lastInner_or (· = folderName) p.names with ⟨front, name, back, here⟩ | none
  · rw [parentPath_text here, above_of_lastInner here]
  · rw [parentPath_text_of_none none, above_of_none none, joined_nil]
    rfl

theorem length_above_lt (inside : p.names ≠ []) : p.above.names.length < p.names.length := by
  have shorter : p.names.dropLast.length < p.names.length := by
    have := List.length_pos_iff.mpr inside
    rw [List.length_dropLast]
    omega
  refine Nat.lt_of_le_of_lt ?_ shorter
  rw [names_above, Npm.above, List.length_reverse, List.length_tail]
  have := (List.dropWhile_suffix (· ≠ folderName) (l := p.names.dropLast.reverse)).length_le
  rw [List.length_reverse] at this
  omega

inductive Passes : InstallPath → List String → Prop where
  | here (p : InstallPath) : Passes p p.names
  | up {p : InstallPath} {d : List String} : Passes p.above d → Passes p d

theorem passes_iff : Passes p d ↔ p.names = d ∨ Passes p.above d := by
  constructor
  · rintro (_ | up)
    · exact .inl rfl
    · exact .inr up
  · rintro (rfl | up)
    · exact .here p
    · exact .up up

theorem Passes.above_names (passes : Passes p d) : d <+: p.names := by
  induction passes with
  | here p => exact List.prefix_rfl
  | up _ ih => exact ih.trans (prefix_above _)

theorem passes_top (top : p.names = []) : Passes p d ↔ d = [] := by
  constructor
  · intro passes
    exact List.prefix_nil.mp (top ▸ passes.above_names)
  · rintro rfl
    exact top ▸ .here p

theorem candidate_eq_keyIn (p : InstallPath) (name : String) :
    candidate p.text.toList name = keyIn p.names name := by
  rw [candidate_text, keyIn]
  split
  next top => rw [top, List.nil_append, joined_singleton]
  next inside =>
    rw [joined_append inside (List.cons_ne_nil _ _), joined_singleton, InstallPath.text]
    simp only [String.append_assoc]

theorem resolve_eq_of_installed (here : installed (keyIn p.names name) = true) :
    resolve installed p.text.toList name = some (keyIn p.names name) := by
  rw [resolve, candidate_eq_keyIn, if_pos here]

theorem resolve_eq_above (not : installed (keyIn p.names name) = false) (inside : p.names ≠ []) :
    resolve installed p.text.toList name = resolve installed p.above.text.toList name := by
  have some : p.text.toList ≠ [] := by
    rw [ne_eq, String.toList_eq_nil_iff, InstallPath.text, joined_eq_empty_iff p.valid]
    exact inside
  rw [resolve, candidate_eq_keyIn, not, dif_neg some, parentPath_eq_above]
  simp

/-- What is found is in the deepest directory that the search comes by. -/
theorem resolve_nearest (installed : String → Bool) (p : InstallPath) (name : String) :
    Nearest (Passes p) installed name (resolve installed p.text.toList name) := by
  induction length : p.names.length using Nat.strongRecOn generalizing p with
  | _ size ih =>
    subst length
    cases here : installed (keyIn p.names name) with
    | true =>
      rw [resolve_eq_of_installed here]
      exact ⟨p.names, .here p, rfl, here, fun d' passes _ => passes.above_names.length_le⟩
    | false =>
      by_cases top : p.names = []
      · have text : p.text.toList = [] := by rw [InstallPath.text, top, joined_nil]; rfl
        have none : resolve installed p.text.toList name = none := by
          rw [resolve, candidate_eq_keyIn, here, dif_pos text]
          simp
        rw [none]
        intro d passes
        rw [(passes_top top).mp passes, ← top, here]
      · rw [resolve_eq_above here top]
        have up := ih _ (length_above_lt top) p.above rfl
        have only {d : List String} (passes : Passes p d)
            (there : installed (keyIn d name) = true) : Passes p.above d := by
          rcases passes_iff.mp passes with rfl | passes
          · exact absurd (here.symm.trans there) (by decide)
          · exact passes
        cases found : resolve installed p.above.text.toList name with
        | none =>
          rw [found] at up
          intro d passes
          rcases passes_iff.mp passes with rfl | passes
          · exact here
          · exact up d passes
        | some key =>
          rw [found] at up
          obtain ⟨d, passes, same, there, deepest⟩ := up
          exact ⟨d, .up passes, same, there, fun d' passes' there' =>
            deepest d' (only passes' there') there'⟩

section Choices

variable {among other : List String → Prop} {found : Option String}

/-- Of the directories on a way that have a package, one is the deepest. -/
theorem exists_deepest (on : ∀ d, among d → d <+: p.names) (here : among d)
    (there : installed (keyIn d name) = true) : ∃ d, among d ∧ installed (keyIn d name) = true ∧
      ∀ d', among d' → installed (keyIn d' name) = true → d'.length ≤ d.length := by
  induction left : p.names.length - d.length using Nat.strongRecOn generalizing d with
  | _ _ ih =>
    by_cases deeper : ∃ d', among d' ∧ installed (keyIn d' name) = true ∧ d.length < d'.length
    · obtain ⟨d', here', there', longer⟩ := deeper
      have bound := (on d' here').length_le
      exact ih _ (by omega) here' there' rfl
    · refine ⟨d, here, there, fun d' here' there' => ?_⟩
      exact Nat.le_of_not_lt fun longer => deeper ⟨d', here', there', longer⟩

theorem eq_of_length {d' : List String} (on : d <+: p.names) (on' : d' <+: p.names)
    (same : d.length = d'.length) : d = d' :=
  (List.prefix_of_prefix_length_le on on' same.le).eq_of_length same

theorem keyIn_inj {d' : List String} (on : d <+: p.names) (on' : d' <+: p.names)
    (same : keyIn d name = keyIn d' name) : d = d' := by
  have valid {d : List String} (on : d <+: p.names) : ∀ n ∈ d ++ [folderName], Path.IsName n := by
    rw [List.forall_mem_append, List.forall_mem_singleton]
    exact ⟨fun n member => p.valid n (on.subset member), isName_folderName⟩
  rw [keyIn, keyIn, String.append_left_inj, String.append_left_inj] at same
  exact List.append_cancel_right (joined_inj (valid on) (valid on') same)

/-- The deepest directory of one choice is that of another one exactly if the deepest of both is in
both. -/
theorem nearest_iff (on : ∀ d, among d → d <+: p.names) (on' : ∀ d, other d → d <+: p.names)
    (nearest : Nearest other installed name found) : Nearest among installed name found ↔
      ∀ d, among d ∨ other d → installed (keyIn d name) = true →
        (∀ d', among d' ∨ other d' → installed (keyIn d' name) = true → d'.length ≤ d.length) →
        among d ∧ other d := by
  have both : ∀ d, among d ∨ other d → d <+: p.names := fun d => Or.rec (on d) (on' d)
  constructor
  · intro nearest' d either there deepest
    cases found with
    | none =>
      rcases either with here | here
      · exact absurd (nearest' d here) (by simp [there])
      · exact absurd (nearest d here) (by simp [there])
    | some key =>
      obtain ⟨d₁, here, same, there', deepest'⟩ := nearest'
      obtain ⟨d₂, here₂, same₂, there₂, deepest₂⟩ := nearest
      obtain rfl : d₁ = d₂ := keyIn_inj (on _ here) (on' _ here₂) (same.trans same₂.symm)
      subst same
      have bound := deepest d₁ (.inl here) there'
      have bound' : d.length ≤ d₁.length :=
        either.elim (fun here => deepest' d here there) fun here => deepest₂ d here there
      obtain rfl := eq_of_length (both d either) (on d₁ here) (Nat.le_antisymm bound' bound)
      exact ⟨here, here₂⟩
  · intro agree
    cases found with
    | none =>
      intro d here
      by_contra there
      rw [Bool.not_eq_false] at there
      obtain ⟨d', either, there', deepest⟩ :=
        exists_deepest both (.inl here) there
      exact absurd (nearest d' (agree d' either there' deepest).2) (by simp [there'])
    | some key =>
      obtain ⟨d, here, rfl, there, deepest⟩ := nearest
      obtain ⟨d', either, there', deepest'⟩ :=
        exists_deepest both (.inr here) there
      obtain ⟨inside, inside'⟩ := agree d' either there' deepest'
      have same : d.length = d'.length :=
        Nat.le_antisymm (deepest' d (.inr here) there) (deepest d' inside' there')
      obtain rfl := eq_of_length (on' d here) (both d' either) same
      exact ⟨d, inside, rfl, there, fun d' here' => deepest' d' (.inl here')⟩

end Choices

/-- The way to a package that lies in others, each directly in the folder of packages of the one
before. -/
def nested (packages : List String) : List String := packages.flatMap fun n => [folderName, n]

theorem nested_concat (packages : List String) (n : String) :
    nested (packages ++ [n]) = nested packages ++ [folderName] ++ [n] := by
  rw [nested, List.flatMap_append, List.flatMap_singleton, List.append_assoc]
  rfl

theorem above_nested {packages : List String} {n : String}
    (way : p.names = nested (packages ++ [n])) : p.above.names = nested packages := by
  have last : LastInner (· = folderName) p.names (nested packages) folderName [n] := by
    refine ⟨?_, List.cons_ne_nil _ _, rfl, by simp⟩
    rw [way, nested_concat, List.append_assoc, List.singleton_append]
  exact above_of_lastInner last

theorem looksIn_concat {packages : List String} {n : String}
    (way : p.names = nested (packages ++ [n])) (other : n ≠ folderName) :
    LooksIn p d ↔ p.names = d ∨ LooksIn p.above d := by
  have up : p.above.names = nested packages := above_nested way
  rw [nested_concat] at way
  constructor
  · rintro ⟨on, counts⟩
    rw [way, List.prefix_concat_iff, List.prefix_concat_iff] at on
    rcases on with whole | folder | within
    · exact .inl (way.trans whole.symm)
    · exact absurd (by rw [folder, List.getLast?_concat]) counts
    · exact .inr ⟨up ▸ within, counts⟩
  · rintro (rfl | looks)
    · refine ⟨List.prefix_rfl, ?_⟩
      rw [way, List.getLast?_concat]
      exact fun same => other (Option.some.inj same)
    · exact ⟨looks.above.trans (prefix_above p.names), looks.counts⟩

/-- On the way to such a package the search comes by the very directories that Node minds. -/
theorem looksIn_iff_passes {packages : List String} (way : p.names = nested packages)
    (others : folderName ∉ packages) : LooksIn p d ↔ Passes p d := by
  induction packages using List.reverseRecOn generalizing p with
  | nil =>
    have top : p.names = [] := way
    rw [passes_top top]
    constructor
    · exact fun looks => List.prefix_nil.mp (top ▸ looks.above)
    · rintro rfl
      exact ⟨List.nil_prefix, by simp⟩
  | append_singleton packages n ih =>
    rw [List.mem_append, List.mem_singleton, not_or] at others
    rw [looksIn_concat way (Ne.symm others.2), passes_iff, ih (above_nested way) others.1]

/-- The search finds what is in the deepest directory that it comes by. This is what Node finds
exactly if the deepest directory with the package, among those of the search and those that Node
minds, is one of both; and so it is in any case for packages that lie in one another without a scope
and outside of all other directories. -/
theorem resolve_nearest_iff (installed : String → Bool) (p : InstallPath) (name : String) :
    Nearest (Passes p) installed name (resolve installed p.text.toList name) ∧
    (Nearest (LooksIn p) installed name (resolve installed p.text.toList name) ↔
      ∀ d, LooksIn p d ∨ Passes p d → installed (keyIn d name) = true →
        (∀ d', LooksIn p d' ∨ Passes p d' → installed (keyIn d' name) = true →
          d'.length ≤ d.length) →
        LooksIn p d ∧ Passes p d) ∧
    ∀ packages, p.names = nested packages → folderName ∉ packages →
      Nearest (LooksIn p) installed name (resolve installed p.text.toList name) := by
  have nearest := resolve_nearest installed p name
  refine ⟨nearest, nearest_iff (fun _ looks => looks.above) (fun _ passes => passes.above_names)
    nearest, fun packages way others => ?_⟩
  have same : LooksIn p = Passes p := funext fun d => propext (looksIn_iff_passes way others)
  rwa [same]

/-- The directory between the project and one of its workspaces has the package in a folder of its
own, and the one of the project is found. -/
theorem directory_between_passed_over :
    let keys := ["node_modules/dep", "packages/app/node_modules/x", "packages/node_modules/dep"]
    let p : InstallPath := ⟨["packages", "app", "node_modules", "x"], by decide⟩
    p.text ∈ keys ∧ resolve (keys.contains ·) p.text.toList "dep" = some "node_modules/dep" ∧
      ¬ Nearest (LooksIn p) (keys.contains ·) "dep" (some "node_modules/dep") := by
  intro keys p
  refine ⟨by decide, by decide +kernel, fun nearest => ?_⟩
  obtain ⟨d, looks, same, there, deepest⟩ := nearest
  have between : LooksIn p ["packages"] := ⟨by decide, by decide⟩
  have deeper := deepest ["packages"] between (by decide)
  have top : LooksIn p [] := ⟨List.nil_prefix, by decide⟩
  obtain rfl : d = [] := keyIn_inj looks.above top.above (same.trans (by decide))
  exact absurd deeper (by decide)

end Inventory.Npm
