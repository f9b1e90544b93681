import Inventory.FileTree
import Inventory.Proofs.Path
import Inventory.Proofs.SortedMap

/-! Well-formed trees, what stands at a place in them, and the steps by which a path is followed to
a place. -/
namespace Inventory.FileTree

/-- The entries of each folder have names and stand in the order of these, none of them twice. -/
inductive WellFormed : FileTree → Prop where
  | file (text : Option String) : WellFormed (.file text)
  | link (target : String) : WellFormed (.link target)
  | folder : entries.Pairwise (fun a b => a.1 < b.1) → (∀ e ∈ entries, Path.IsName e.1) →
      (∀ e ∈ entries, WellFormed e.2) → WellFormed (.folder entries)

inductive Plain : FileTree → Prop where
  | file (text : Option String) : Plain (.file text)
  | link (target : String) : Plain (.link target)
  | folder : (∀ e ∈ entries, Path.IsPlain e.1) → (∀ e ∈ entries, Plain e.2) →
      Plain (.folder entries)

variable {t node : FileTree} {entries : List (String × FileTree)} {name : String}
  {place rest : Place}

theorem child?_eq_some_iff (sorted : entries.Pairwise fun a b => a.1 < b.1) :
    (folder entries).child? name = some node ↔ (name, node) ∈ entries :=
  SortedMap.get?_eq_some_iff (m := ⟨entries, sorted⟩)

theorem at?_cons : t.at? (name :: rest) = (t.child? name).bind (·.at? rest) := rfl

theorem at?_append (t : FileTree) (place rest : Place) :
    t.at? (place ++ rest) = (t.at? place).bind (·.at? rest) := by
  induction place generalizing t with
  | nil => rfl
  | cons name place ih =>
    rw [List.cons_append, at?_cons, at?_cons, Option.bind_assoc]
    exact Option.bind_congr fun node _ => ih node

theorem WellFormed.child? (wf : t.WellFormed) (found : t.child? name = some node) :
    Path.IsName name ∧ node.WellFormed := by
  cases wf with
  | file | link => cases found
  | folder sorted names nodes =>
    have member := (child?_eq_some_iff sorted).mp found
    exact ⟨names _ member, nodes _ member⟩

theorem WellFormed.at? (wf : t.WellFormed) (found : t.at? place = some node) :
    (∀ name ∈ place, Path.IsName name) ∧ node.WellFormed := by
  induction place generalizing t with
  | nil =>
    cases found
    exact ⟨by simp, wf⟩
  | cons name place ih =>
    obtain ⟨child, here, below⟩ := Option.bind_eq_some_iff.mp (at?_cons ▸ found)
    obtain ⟨valid, wf'⟩ := wf.child? here
    obtain ⟨rest, last⟩ := ih wf' below
    exact ⟨List.forall_mem_cons.mpr ⟨valid, rest⟩, last⟩

theorem Plain.at? (plain : t.Plain) (found : t.at? place = some node) :
    ∀ name ∈ place, Path.IsPlain name := by
  induction place generalizing t with
  | nil => simp
  | cons name place ih =>
    obtain ⟨child, here, below⟩ := Option.bind_eq_some_iff.mp (at?_cons ▸ found)
    cases plain with
    | file | link => cases here
    | folder names nodes =>
      obtain ⟨e, first, rfl⟩ := Option.map_eq_some_iff.mp here
      have member := List.mem_of_find?_eq_some first
      obtain rfl : e.1 = name := by simpa using List.find?_some first
      exact List.forall_mem_cons.mpr ⟨names e member, ih (nodes e member) below⟩

/-- Below a file or a link there is nothing. -/
theorem isFolder_of_at?_cons (found : t.at? (name :: rest) = some node) : t.isFolder = true := by
  cases t with
  | folder => rfl
  | file | link => cases found

theorem ne_nil_of_isFolder {text : Option String} (folder : t.isFolder = true)
    (found : t.at? place = some (.file text)) : place ≠ [] := by
  rintro rfl
  cases found
  cases folder

namespace World

variable {world : World} {create : Bool} {links : Nat} {pieces : List String}

theorem find?_eq_at? (here : world.top.at? place = some (folder entries)) (name : String) :
    (entries.find? (·.1 == name)).map (·.2) = world.top.at? (place ++ [name]) := by
  rw [at?_append, here, Option.bind_some, at?_cons, child?]
  cases entries.find? (·.1 == name) <;> rfl

def IsEntry (name : String) : Prop := ¬ (name = "" || name = ".") = true ∧ ¬ name = ".."

section Steps

variable (here : world.top.at? place = some (folder entries))

include here

theorem follow_skip (skip : (name = "" || name = ".") = true) (rest : List String) :
    world.follow create links place (name :: rest) = world.follow create links place rest := by
  rw [follow, here]
  exact if_pos skip

theorem follow_up (rest : List String) : world.follow create links place (".." :: rest) =
    world.follow create links place.dropLast rest := by
  rw [follow, here]
  rfl

theorem follow_link {target : String} {start : Place} (entry : IsEntry name)
    (there : world.top.at? (place ++ [name]) = some (link target))
    (goes : start? place target = some (start, pieces)) (rest : List String) :
    world.follow create (links + 1) place (name :: rest) =
      world.follow create links start (pieces ++ rest) := by
  rw [← find?_eq_at? here] at there
  obtain ⟨⟨key, _⟩, found, rfl⟩ := Option.map_eq_some_iff.mp there
  rw [follow, here]
  simp only [entry.1, entry.2, Bool.false_eq_true, if_false, found, goes]

theorem follow_down (entry : IsEntry name) (there : world.top.at? (place ++ [name]) = some node)
    (noLink : ∀ target, node ≠ link target) (rest : List String) :
    world.follow create links place (name :: rest) =
      world.follow create links (place ++ [name]) rest := by
  rw [← find?_eq_at? here] at there
  obtain ⟨⟨key, _ | target | _⟩, found, rfl⟩ := Option.map_eq_some_iff.mp there
  · rw [follow, here]
    simp only [entry.1, entry.2, Bool.false_eq_true, if_false, found]
  · exact absurd rfl (noLink target)
  · rw [follow, here]
    simp only [entry.1, entry.2, Bool.false_eq_true, if_false, found]

end Steps

end World

end Inventory.FileTree
