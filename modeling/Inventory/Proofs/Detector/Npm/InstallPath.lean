import Inventory.Proofs.Detector.Npm.LockFile
import Inventory.Proofs.Path
import Inventory.Proofs.Text.Cut

/-! Install paths by the names on the way to a package. What is looked for in their texts is
`node_modules/`, so a folder whose name only ends like this counts for a folder of packages too.
The folder that holds a package is looked for with a slash in front, and so by its whole name. -/
namespace Inventory.Npm

open Inventory.Path (IsName pieces)
open Text (cutAtLast? splitAt splitWhen)

/-- A path without empty components. The path of the project itself has none at all. -/
structure InstallPath where
  names : List String
  valid : ∀ name ∈ names, IsName name

instance : DecidablePred IsName := fun name =>
  decidable_of_iff (name ≠ "" ∧ '/' ∉ name.toList)
    ⟨fun ⟨nonempty, noSlash⟩ => ⟨nonempty, noSlash⟩, fun valid => ⟨valid.nonempty, valid.noSlash⟩⟩

def joined (names : List String) : String := "/".intercalate names

def InstallPath.text (p : InstallPath) : String := joined p.names

structure PackageName where
  scope : Option String
  name : String
  validScope : ∀ s ∈ scope, IsName s
  valid : IsName name

namespace PackageName

/-- The scope is a folder of its own, marked by a sign. -/
def folder? (n : PackageName) : Option String := n.scope.map ("@" ++ ·)

def names (n : PackageName) : List String := n.folder?.toList ++ [n.name]

def text (n : PackageName) : String := joined n.names

end PackageName

variable {names front back : List String} {name : String} {p : InstallPath}

@[simp] theorem joined_nil : joined [] = "" := String.intercalate_nil

@[simp] theorem joined_singleton (name : String) : joined [name] = name :=
  String.intercalate_singleton

theorem joined_append (some : front ≠ []) (more : back ≠ []) :
    joined (front ++ back) = joined front ++ "/" ++ joined back :=
  String.intercalate_append_of_ne_nil some more

theorem joined_cons (name : String) (more : back ≠ []) :
    joined (name :: back) = name ++ "/" ++ joined back :=
  String.intercalate_cons_of_ne_nil more

theorem pieces_joined (valid : ∀ name ∈ names, IsName name) (some : names ≠ []) :
    pieces (joined names) = names := by
  induction names with
  | nil => exact absurd rfl some
  | cons name names ih =>
    obtain ⟨here, rest⟩ := List.forall_mem_cons.mp valid
    by_cases more : names = []
    · subst more
      rw [joined_singleton, Path.pieces_of_isName here]
    · rw [joined_cons name more, Path.pieces_append_slash, Path.pieces_of_isName here,
        ih rest more, List.singleton_append]

theorem intercalate_splitAt (sep : Char) (s : List Char) :
    [sep].intercalate (splitAt sep s) = s := by
  induction s with
  | nil => rfl
  | cons c s ih =>
    by_cases same : c = sep
    · subst same
      have cut : splitAt c (c :: s) = [] :: splitAt c s := by simp [splitAt, splitWhen]
      obtain ⟨piece, pieces, rest⟩ := List.exists_cons_of_ne_nil (Text.splitWhen_ne_nil (· == c) s)
      rw [splitAt, rest] at ih
      rw [cut, splitAt, rest, List.intercalate_cons_cons, ih]
      rfl
    · obtain ⟨piece, pieces, rest, whole⟩ :=
        Text.splitWhen_cons_of_false (p := (· == sep)) (beq_eq_false_iff_ne.mpr same) s
      rw [splitAt, rest] at ih
      rw [splitAt, whole]
      cases pieces with
      | nil => simpa using ih
      | cons next pieces =>
        rw [List.intercalate_cons_cons] at ih ⊢
        simpa using ih

theorem joined_pieces (s : String) : joined (pieces s) = s := by
  rw [← String.toList_inj, joined, String.toList_intercalate, pieces, List.map_map]
  have letters : String.toList ∘ String.ofList = id := funext fun s => String.toList_ofList
  rw [letters, List.map_id]
  exact intercalate_splitAt '/' s.toList

theorem joined_eq_empty_iff (valid : ∀ name ∈ names, IsName name) :
    joined names = "" ↔ names = [] := by
  constructor
  · intro empty
    by_contra some
    have whole := pieces_joined valid some
    rw [empty] at whole
    have blank : "" ∈ names := whole ▸ by decide
    exact (valid _ blank).nonempty rfl
  · rintro rfl
    exact joined_nil

theorem joined_inj {names' : List String} (valid : ∀ name ∈ names, IsName name)
    (valid' : ∀ name ∈ names', IsName name) (same : joined names = joined names') :
    names = names' := by
  by_cases none : names = []
  · subst none
    exact ((joined_eq_empty_iff valid').mp (same.symm.trans joined_nil)).symm
  · have none' : names' ≠ [] := by
      rintro rfl
      exact none ((joined_eq_empty_iff valid).mp (same.trans joined_nil))
    rw [← pieces_joined valid none, same, pieces_joined valid' none']

/-- The texts of install paths are the paths without empty components, and the empty one. -/
theorem exists_installPath_iff {path : String} :
    (∃ p : InstallPath, p.text = path) ↔ path = "" ∨ "" ∉ pieces path := by
  constructor
  · rintro ⟨p, rfl⟩
    by_cases top : p.names = []
    · exact .inl (by rw [InstallPath.text, top, joined_nil])
    · refine .inr fun blank => ?_
      rw [InstallPath.text, pieces_joined p.valid top] at blank
      exact (p.valid "" blank).nonempty rfl
  · rintro (rfl | full)
    · exact ⟨⟨[], by simp⟩, joined_nil⟩
    · refine ⟨⟨pieces path, fun name member => ⟨?_, Path.noSlash_of_mem_pieces member⟩⟩,
        joined_pieces path⟩
      rintro rfl
      exact full member

def folderName : String := "node_modules"

/-- The name ends as that of a folder of packages does, and may be one. -/
def EndsInFolder (name : String) : Prop := folderName.toList <:+ name.toList

instance : DecidablePred EndsInFolder := fun name =>
  inferInstanceAs (Decidable (folderName.toList <:+ name.toList))

/-- The last name on a way that is marked and not the end of it, between the names in front of it
and those behind it. -/
structure LastInner (mark : String → Prop) (names front : List String) (name : String)
    (back : List String) : Prop where
  cut : names = front ++ name :: back
  inner : back ≠ []
  marked : mark name
  last : ∀ n ∈ back.dropLast, ¬ mark n

theorem exists_lastInner_or (mark : String → Prop) (names : List String) :
    (∃ front name back, LastInner mark names front name back) ∨ ∀ n ∈ names.dropLast, ¬ mark n := by
  induction names with
  | nil => exact .inr (by simp)
  | cons first names ih =>
    rcases ih with ⟨front, name, back, here⟩ | none
    · exact .inl ⟨first :: front, name, back, by rw [here.cut, List.cons_append], here.inner,
        here.marked, here.last⟩
    · by_cases only : names = []
      · subst only
        exact .inr (by simp)
      · by_cases marked : mark first
        · exact .inl ⟨[], first, names, rfl, only, marked, none⟩
        · rw [List.dropLast_cons_of_ne_nil only, List.forall_mem_cons]
          exact .inr ⟨marked, none⟩

theorem LastInner.mem {mark : String → Prop} (here : LastInner mark names front name back) :
    name ∈ names.dropLast := by
  rw [here.cut, List.dropLast_append_cons, List.dropLast_cons_of_ne_nil here.inner]
  simp

theorem LastInner.valid_behind {mark : String → Prop} (here : LastInner mark names front name back)
    (valid : ∀ name ∈ names, IsName name) : ∀ name ∈ back, IsName name := by
  intro n member
  apply valid
  rw [here.cut]
  simp [member]

/-- Behind any marked name there is at least what is behind the last one. -/
theorem LastInner.suffix {mark : String → Prop} (here : LastInner mark names front name back)
    {front' back' : List String} {name' : String} (cut : names = front' ++ name' :: back')
    (inner : back' ≠ []) (marked : mark name') : back <:+ back' := by
  have one : name :: back <:+ names := here.cut ▸ List.suffix_append ..
  have other : name' :: back' <:+ names := cut ▸ List.suffix_append ..
  rcases List.suffix_or_suffix_of_suffix other one with shorter | longer
  · rcases List.suffix_cons_iff.mp shorter with same | ⟨gap, within⟩
    · exact (List.cons.inj same).2 ▸ List.suffix_rfl
    · have among : name' ∈ back.dropLast := by
        rw [← within, List.dropLast_append_cons, List.dropLast_cons_of_ne_nil inner]
        simp
      exact absurd marked (here.last name' among)
  · rcases List.suffix_cons_iff.mp longer with same | within
    · exact (List.cons.inj same).2 ▸ List.suffix_rfl
    · exact (List.suffix_cons name back).trans within

theorem LastInner.unique {mark : String → Prop} (here : LastInner mark names front name back)
    {front' back' : List String} {name' : String}
    (there : LastInner mark names front' name' back') :
    front = front' ∧ name = name' ∧ back = back' := by
  have length : back.length = back'.length := Nat.le_antisymm
    (here.suffix there.cut there.inner there.marked).length_le
    (there.suffix here.cut here.inner here.marked).length_le
  have whole := here.cut.symm.trans there.cut
  obtain ⟨rfl, rest⟩ := List.append_inj' whole (by simp [length])
  exact ⟨rfl, List.cons.inj rest⟩

theorem noSlash_folderName : '/' ∉ folderName.toList := by decide

theorem isName_folderName : IsName folderName := ⟨by decide, noSlash_folderName⟩

theorem folder_eq : folder = folderName.toList ++ ['/'] := by decide

theorem innerFolder_eq : innerFolder = '/' :: (folderName.toList ++ ['/']) := by decide

@[simp] theorem toList_slash : "/".toList = ['/'] := by decide

/-- A name that a text with no slash ends in, if the whole way to it does. -/
theorem suffix_of_joined {end' : List Char} (noSlash : '/' ∉ end')
    (ends : end' <:+ (joined (front ++ [name])).toList) : end' <:+ name.toList := by
  by_cases first : front = []
  · subst first
    simpa using ends
  · rw [joined_append first (List.cons_ne_nil name []), joined_singleton] at ends
    have behind : '/' :: name.toList <:+ (joined front ++ "/" ++ name).toList := by
      simp
    rcases List.suffix_or_suffix_of_suffix ends behind with shorter | longer
    · rcases List.suffix_cons_iff.mp shorter with rfl | within
      · exact absurd List.mem_cons_self noSlash
      · exact within
    · exact absurd (longer.subset List.mem_cons_self) noSlash

theorem length_joined_le {back' : List String} (suffix : back <:+ back') :
    (joined back).toList.length ≤ (joined back').toList.length := by
  obtain ⟨gap, rfl⟩ := suffix
  by_cases none : gap = []
  · subst none
    exact Nat.le_refl _
  · by_cases last : back = []
    · rw [last, joined_nil]
      exact Nat.zero_le _
    · rw [joined_append none last, String.toList_append, List.length_append]
      exact Nat.le_add_left _ _

/-- Where `node_modules/` stands in a path, a name ends in front of the slash. -/
theorem exists_of_folder {a b : List Char} (whole : p.text.toList = b ++ (folder ++ a)) :
    ∃ front name back, p.names = front ++ name :: back ∧ back ≠ [] ∧ EndsInFolder name ∧
      a = (joined back).toList := by
  have text : p.text = String.ofList b ++ folderName ++ "/" ++ String.ofList a := by
    rw [← String.toList_inj, whole, folder_eq]
    simp only [String.toList_append, String.toList_ofList, toList_slash, List.append_assoc]
  have some : p.names ≠ [] := by
    intro none
    rw [InstallPath.text, none, joined_nil] at text
    have letters := congrArg String.toList text
    simp at letters
  have names := pieces_joined p.valid some
  rw [← InstallPath.text, text, Path.pieces_append_slash] at names
  obtain ⟨front, name, way⟩ :
      ∃ front name, pieces (String.ofList b ++ folderName) = front ++ [name] :=
    ⟨_, _, (List.dropLast_concat_getLast (Path.pieces_ne_nil _)).symm⟩
  refine ⟨front, name, pieces (String.ofList a), ?_, Path.pieces_ne_nil _, ?_, ?_⟩
  · rw [← names, way, List.append_assoc, List.singleton_append]
  · apply suffix_of_joined noSlash_folderName
    rw [← way, joined_pieces, String.toList_append]
    exact List.suffix_append _ _
  · rw [joined_pieces, String.toList_ofList]

/-- Where it stands with a slash in front, it is a name of its own, and not the first. -/
theorem exists_of_innerFolder {a b : List Char} (whole : p.text.toList = b ++ (innerFolder ++ a)) :
    ∃ front back, p.names = front ++ folderName :: back ∧ front ≠ [] ∧ back ≠ [] ∧
      b = (joined front).toList ∧ a = (joined back).toList := by
  have text : p.text = String.ofList b ++ "/" ++ (folderName ++ "/" ++ String.ofList a) := by
    rw [← String.toList_inj, whole, innerFolder_eq]
    simp only [String.toList_append, String.toList_ofList, toList_slash, List.append_assoc,
      List.cons_append, List.nil_append]
  have some : p.names ≠ [] := by
    intro none
    rw [InstallPath.text, none, joined_nil] at text
    have letters := congrArg String.toList text
    simp at letters
  have names := pieces_joined p.valid some
  rw [← InstallPath.text, text, Path.pieces_append_slash, Path.pieces_append_slash,
    Path.pieces_of_isName isName_folderName, List.singleton_append] at names
  exact ⟨pieces (String.ofList b), pieces (String.ofList a), names.symm, Path.pieces_ne_nil _,
    Path.pieces_ne_nil _, by rw [joined_pieces, String.toList_ofList],
    by rw [joined_pieces, String.toList_ofList]⟩

/-- A name that ends so leaves `node_modules/` in the text, with what is behind it. -/
theorem exists_folder (cut : names = front ++ name :: back) (inner : back ≠ [])
    (ends : EndsInFolder name) :
    ∃ b, (joined names).toList = b ++ (folder ++ (joined back).toList) := by
  obtain ⟨start, shape⟩ := ends
  have behind : joined (name :: back) = name ++ "/" ++ joined back := joined_cons name inner
  by_cases first : front = []
  · subst first
    refine ⟨start, ?_⟩
    rw [cut, List.nil_append, behind, folder_eq]
    simp only [String.toList_append, ← shape, toList_slash, List.append_assoc]
  · refine ⟨(joined front).toList ++ '/' :: start, ?_⟩
    rw [cut, joined_append first (List.cons_ne_nil _ _), behind, folder_eq]
    simp only [String.toList_append, ← shape, toList_slash, List.append_assoc, List.cons_append,
      List.nil_append]

theorem toList_joined_folder (some : front ≠ []) (inner : back ≠ []) :
    (joined (front ++ folderName :: back)).toList =
      (joined front).toList ++ (innerFolder ++ (joined back).toList) := by
  rw [joined_append some (List.cons_ne_nil _ _), joined_cons _ inner, innerFolder_eq]
  simp only [String.toList_append, toList_slash, List.append_assoc, List.cons_append,
    List.nil_append]

theorem folder_infix_iff :
    folder <:+: p.text.toList ↔ ∃ name ∈ p.names.dropLast, EndsInFolder name := by
  constructor
  · rintro ⟨b, a, whole⟩
    rw [List.append_assoc] at whole
    obtain ⟨front, name, back, cut, inner, ends, -⟩ := exists_of_folder whole.symm
    refine ⟨name, ?_, ends⟩
    rw [cut, List.dropLast_append_cons, List.dropLast_cons_of_ne_nil inner]
    simp
  · rintro ⟨name, member, ends⟩
    obtain ⟨front, back, within⟩ := List.append_of_mem member
    have some : p.names ≠ [] := by
      intro none
      simp [none] at member
    have cut : p.names = front ++ name :: (back ++ [p.names.getLast some]) := by
      rw [← List.cons_append, ← List.append_assoc, ← within, List.dropLast_append_getLast]
    obtain ⟨b, whole⟩ := exists_folder cut (by simp) ends
    exact ⟨b, _, by rw [List.append_assoc, InstallPath.text, whole]⟩

theorem packageName_text (here : LastInner EndsInFolder p.names front name back) :
    packageName p.text = joined back := by
  obtain ⟨b, whole⟩ := exists_folder here.cut here.inner here.marked
  have cut : cutAtLast? folder p.text.toList = some (b, (joined back).toList) := by
    refine Text.cutAtLast?_eq_some_iff.mpr ⟨whole, fun b' a' whole' => ?_⟩
    obtain ⟨front', name', back', cut', inner', ends', rfl⟩ := exists_of_folder whole'
    exact length_joined_le (here.suffix cut' inner' ends')
  rw [packageName, cut]
  exact String.ofList_toList

theorem parentPath_text (here : LastInner (· = folderName) p.names front name back) :
    parentPath p.text.toList = (joined front).toList := by
  obtain rfl : name = folderName := here.marked
  by_cases first : front = []
  · have top : cutAtLast? innerFolder p.text.toList = none := by
      rw [Text.cutAtLast?_eq_none_iff]
      rintro ⟨b, a, whole⟩
      rw [List.append_assoc] at whole
      obtain ⟨front', back', cut', some', inner', -, -⟩ := exists_of_innerFolder whole.symm
      have bound := (here.suffix cut' inner' rfl).length_le
      have lengths := congrArg List.length (here.cut.symm.trans cut')
      have positive := List.length_pos_iff.mpr some'
      simp only [first, List.nil_append, List.length_cons, List.length_append] at lengths
      omega
    rw [parentPath, top, first, joined_nil]
    rfl
  · have cut : cutAtLast? innerFolder p.text.toList =
        some ((joined front).toList, (joined back).toList) := by
      refine Text.cutAtLast?_eq_some_iff.mpr ⟨?_, fun b' a' whole' => ?_⟩
      · rw [InstallPath.text, here.cut, toList_joined_folder first here.inner]
      · obtain ⟨front', back', cut', -, inner', -, rfl⟩ := exists_of_innerFolder whole'
        exact length_joined_le (here.suffix cut' inner' rfl)
    rw [parentPath, cut]
    rfl

theorem parentPath_text_of_none (none : ∀ n ∈ p.names.dropLast, n ≠ folderName) :
    parentPath p.text.toList = [] := by
  have top : cutAtLast? innerFolder p.text.toList = .none := by
    rw [Text.cutAtLast?_eq_none_iff]
    rintro ⟨b, a, whole⟩
    rw [List.append_assoc] at whole
    obtain ⟨front', back', cut', -, inner', -, -⟩ := exists_of_innerFolder whole.symm
    refine none folderName ?_ rfl
    rw [cut', List.dropLast_append_cons, List.dropLast_cons_of_ne_nil inner']
    simp
  rw [parentPath, top]
  rfl

theorem endsInFolder_folderName : EndsInFolder folderName := List.suffix_rfl

theorem reportOf_ne_nil_iff {lock : Lock} {path : String} {e : Entry} :
    reportOf lock (path, e) ≠ [] ↔ isInstalled path e = true := by
  unfold reportOf
  dsimp only
  cases isInstalled path e with
  | false => simp
  | true => cases component? path e <;> simp

theorem isInstalled_text_iff {e : Entry} (own : e.isLink = false) :
    isInstalled p.text e = true ↔ ∃ name ∈ p.names.dropLast, EndsInFolder name := by
  rw [isInstalled_iff, ← folder_infix_iff]
  refine ⟨Installed.folder, fun found => ⟨?_, own, found⟩⟩
  intro empty
  rw [empty, folder_eq] at found
  simp at found

/-- A key is read by its names. Its entry is that of an installed package if a folder on the way is
called `node_modules`, and then the last of these folders stands between what holds the package and
the name of the package. -/
structure ReadByName (p : InstallPath) : Prop where
  reported : ∀ (lock : Lock) (e : Entry), e.isLink = false →
    (reportOf lock (p.text, e) ≠ [] ↔ folderName ∈ p.names.dropLast)
  package : ∀ front name back, LastInner (· = folderName) p.names front name back →
    packageName p.text = joined back
  parent : ∀ front name back, LastInner (· = folderName) p.names front name back →
    parentPath p.text.toList = (joined front).toList

/-- The last folder that counts for one of packages is called `node_modules`. -/
def EndsPlainly (p : InstallPath) : Prop :=
  ∀ front name back, LastInner EndsInFolder p.names front name back → name = folderName

theorem LastInner.of_endsPlainly (plain : EndsPlainly p)
    (here : LastInner EndsInFolder p.names front name back) :
    LastInner (· = folderName) p.names front name back where
  cut := here.cut
  inner := here.inner
  marked := plain front name back here
  last n member same := here.last n member (same ▸ endsInFolder_folderName)

theorem readByName_of_endsPlainly (plain : EndsPlainly p) : ReadByName p where
  reported lock e own := by
    rw [reportOf_ne_nil_iff, isInstalled_text_iff own]
    constructor
    · rintro ⟨n, member, ends⟩
      rcases exists_lastInner_or EndsInFolder p.names with ⟨front, name, back, here⟩ | none
      · exact plain front name back here ▸ here.mem
      · exact absurd ends (none n member)
    · exact fun member => ⟨_, member, endsInFolder_folderName⟩
  package front name back last := by
    rcases exists_lastInner_or EndsInFolder p.names with ⟨front', name', back', here⟩ | none
    · obtain ⟨-, -, rfl⟩ := last.unique (here.of_endsPlainly plain)
      exact packageName_text here
    · exact absurd (last.marked ▸ endsInFolder_folderName) (none name last.mem)
  parent front name back last := parentPath_text last

theorem endsPlainly_of_readByName (read : ReadByName p) : EndsPlainly p := by
  intro front name back here
  let e : Entry := ⟨none, none, none, false, false, .empty, .empty, .empty⟩
  have reported : reportOf ⟨none, .empty⟩ (p.text, e) ≠ [] :=
    reportOf_ne_nil_iff.mpr ((isInstalled_text_iff rfl).mpr ⟨name, here.mem, here.marked⟩)
  have folder := (read.reported ⟨none, .empty⟩ e rfl).mp reported
  rcases exists_lastInner_or (· = folderName) p.names with ⟨front', name', back', last⟩ | none
  · -- What follows either folder is the name of the package, so they are the same.
    have same : joined back = joined back' :=
      (packageName_text here).symm.trans (read.package front' name' back' last)
    obtain rfl := joined_inj (here.valid_behind p.valid) (last.valid_behind p.valid) same
    have whole : front ++ name :: back = front' ++ name' :: back := here.cut.symm.trans last.cut
    obtain ⟨-, rest⟩ := List.append_inj' whole rfl
    exact (List.cons.inj rest).1.trans last.marked
  · exact absurd rfl (none folderName folder)

namespace PackageName

theorem valid_names (n : PackageName) : ∀ name ∈ n.names, IsName name := by
  have sign : "@".toList = ['@'] := by decide
  rw [names, List.forall_mem_append, List.forall_mem_singleton]
  refine ⟨fun name member => ?_, n.valid⟩
  obtain ⟨scope, given, rfl⟩ := Option.map_eq_some_iff.mp (Option.mem_toList.mp member)
  exact ⟨by simp, by simpa [sign] using (n.validScope scope given).noSlash⟩

theorem names_ne_nil (n : PackageName) : n.names ≠ [] := by
  simp [names]

theorem dropLast_names (n : PackageName) : n.names.dropLast = n.folder?.toList :=
  List.dropLast_concat

end PackageName

def InstallPath.place (base : InstallPath) (n : PackageName) : InstallPath where
  names := base.names ++ folderName :: n.names
  valid := by
    rw [List.forall_mem_append, List.forall_mem_cons]
    exact ⟨base.valid, isName_folderName, n.valid_names⟩

theorem names_place (base : InstallPath) (n : PackageName) :
    (base.place n).names = base.names ++ folderName :: n.names := rfl

theorem candidate_text (base : InstallPath) (name : String) :
    candidate base.text.toList name =
      if base.names = [] then folderName ++ "/" ++ name
      else base.text ++ "/" ++ (folderName ++ "/" ++ name) := by
  have top : base.text.toList.isEmpty = true ↔ base.names = [] := by
    rw [List.isEmpty_iff, String.toList_eq_nil_iff]
    exact joined_eq_empty_iff base.valid
  rw [candidate, String.ofList_toList]
  simp only [top, ← String.toList_inj]
  split
  · simp [folder_eq]
  · simp [innerFolder_eq]

theorem candidate_place (base : InstallPath) (n : PackageName) :
    candidate base.text.toList n.text = (base.place n).text := by
  have below : joined (folderName :: n.names) = folderName ++ "/" ++ n.text :=
    joined_cons folderName n.names_ne_nil
  rw [candidate_text, InstallPath.text, InstallPath.text, names_place]
  split
  next top => rw [top, List.nil_append, below]
  next inside => rw [joined_append inside (List.cons_ne_nil _ _), below]

/-- What is said of the last folder of packages in front of a name that is in a scope at most. -/
theorem lastInner_place {mark : String → Prop} (base : InstallPath) (n : PackageName)
    (marked : mark folderName) (plain : ∀ folder ∈ n.folder?, ¬ mark folder) :
    LastInner mark (base.place n).names base.names folderName n.names where
  cut := rfl
  inner := n.names_ne_nil
  marked := marked
  last folder member := by
    rw [n.dropLast_names, Option.mem_toList] at member
    exact plain folder member

theorem sign_ne_folderName (scope : String) : "@" ++ scope ≠ folderName := by
  intro same
  have first := congrArg (·.toList.head?) same
  have sign : "@".toList = ['@'] := by decide
  have letter : folderName.toList.head? = some 'n' := by decide
  rw [String.toList_append, sign, letter] at first
  simp at first

theorem parentPath_place (base : InstallPath) (n : PackageName) :
    parentPath (base.place n).text.toList = base.text.toList := by
  have last : LastInner (· = folderName) (base.place n).names base.names folderName n.names := by
    refine lastInner_place base n rfl fun folder member => ?_
    obtain ⟨scope, -, rfl⟩ := Option.map_eq_some_iff.mp member
    exact sign_ne_folderName scope
  exact parentPath_text last

theorem packageName_place_iff (base : InstallPath) (n : PackageName) :
    packageName (base.place n).text = n.text ↔ ∀ folder ∈ n.folder?, ¬ EndsInFolder folder := by
  constructor
  · intro read folder member ends
    have last : LastInner EndsInFolder (base.place n).names (base.names ++ [folderName]) folder
        [n.name] := by
      refine ⟨?_, List.cons_ne_nil _ _, ends, by simp⟩
      have scope : n.names = [folder, n.name] := by
        rw [PackageName.names, Option.mem_def.mp member]
        rfl
      rw [names_place, scope, List.append_assoc, List.singleton_append]
    rw [packageName_text last] at read
    have same := joined_inj (last.valid_behind (base.place n).valid) n.valid_names read
    rw [PackageName.names, Option.mem_def.mp member] at same
    simp at same
  · intro plain
    exact packageName_text (lastInner_place base n endsInFolder_folderName plain)

/-- A key is read name by name exactly if the last folder on the way that ends in `node_modules` is
called so. A package that is put into the folder of packages of another one is found to be held by
it in any case, and by its name exactly if it is in no scope that ends so. -/
theorem readByName_iff (p : InstallPath) :
    (ReadByName p ↔ EndsPlainly p) ∧
    ∀ n : PackageName, parentPath (candidate p.text.toList n.text).toList = p.text.toList ∧
      (packageName (candidate p.text.toList n.text) = n.text ↔
        ∀ folder ∈ n.folder?, ¬ EndsInFolder folder) := by
  refine ⟨⟨endsPlainly_of_readByName, readByName_of_endsPlainly⟩, fun n => ?_⟩
  rw [candidate_place]
  exact ⟨parentPath_place p n, packageName_place_iff p n⟩

/-- A folder of the workspace is taken for one of packages, and what is in it for a package. -/
theorem lookalike_folder_read :
    let p : InstallPath := ⟨["my_node_modules", "x"], by decide⟩
    let e : Entry := ⟨none, some "1.0.0", none, false, false, .empty, .empty, .empty⟩
    p.text = "my_node_modules/x" ∧ reportOf ⟨some 3, .ofList [(p.text, e)]⟩ (p.text, e) ≠ [] ∧
      folderName ∉ p.names.dropLast ∧ ¬ ReadByName p := by
  intro p e
  have last : LastInner EndsInFolder p.names [] "my_node_modules" ["x"] :=
    ⟨rfl, by decide, by decide, by decide⟩
  refine ⟨by decide, by decide +kernel, by decide, fun read => ?_⟩
  exact absurd (endsPlainly_of_readByName read _ _ _ last) (by decide)

end Inventory.Npm
