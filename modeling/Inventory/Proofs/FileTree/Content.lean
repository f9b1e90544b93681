import Inventory.Proofs.FileTree.Walk

/-! Changing what is in a file. Where things are and which links lead to them hangs on the shape of
a tree alone, and the shape stays, so a walk finds the same files and one of them with a new
content. -/
namespace Inventory.FileTree

mutual

def shape : FileTree → FileTree
  | file _ => file none
  | link target => link target
  | folder entries => folder (shapeEntries entries)

def shapeEntries : List (String × FileTree) → List (String × FileTree)
  | [] => []
  | (name, node) :: rest => (name, node.shape) :: shapeEntries rest

end

variable {t node : FileTree} {entries : List (String × FileTree)} {name : String}
  {text old new : Option String} {place names : Place}

theorem shapeEntries_eq_map (entries : List (String × FileTree)) :
    shapeEntries entries = entries.map fun e => (e.1, e.2.shape) := by
  induction entries with
  | nil => rw [shapeEntries, List.map_nil]
  | cons e entries ih => rw [shapeEntries, List.map_cons, ih]

theorem find?_shapeEntries (entries : List (String × FileTree)) (name : String) :
    (shapeEntries entries).find? (·.1 == name) =
      (entries.find? (·.1 == name)).map fun e => (e.1, e.2.shape) := by
  rw [shapeEntries_eq_map, List.find?_map]
  rfl

theorem child?_shape (t : FileTree) (name : String) :
    t.shape.child? name = (t.child? name).map shape := by
  cases t with
  | file | link => rfl
  | folder entries =>
    rw [shape, child?, child?, find?_shapeEntries, Option.map_map, Option.map_map]
    rfl

theorem at?_shape (t : FileTree) (place : Place) :
    t.shape.at? place = (t.at? place).map shape := by
  induction place generalizing t with
  | nil => rfl
  | cons name place ih =>
    rw [at?_cons, at?_cons, child?_shape]
    cases t.child? name with
    | none => rfl
    | some node => exact ih node

theorem child?_put_cons (sorted : entries.Pairwise fun a b => a.1 < b.1) (name : String)
    (rest : Place) (content : FileTree) (key : String) :
    ((folder entries).put (name :: rest) content).child? key = if name = key
      then some ((((folder entries).child? name).getD (folder [])).put rest content)
      else (folder entries).child? key := by
  rw [put]
  exact SortedMap.get?_upsert ⟨entries, sorted⟩ name
    (fun old => put (old.getD (folder [])) rest content) key

theorem WellFormed.empty : (FileTree.folder []).WellFormed := .folder .nil (by simp) (by simp)

theorem WellFormed.put (wf : t.WellFormed) (valid : ∀ name ∈ place, Path.IsName name)
    (inner : node.WellFormed) : (t.put place node).WellFormed := by
  induction place generalizing t with
  | nil => exact inner
  | cons name rest ih =>
    obtain ⟨here, below⟩ := List.forall_mem_cons.mp valid
    have alone : (FileTree.folder [(name, (FileTree.folder []).put rest node)]).WellFormed :=
      .folder (List.pairwise_singleton ..) (by simpa using here) (by simpa using ih .empty below)
    cases wf with
    | file | link => exact alone
    | @folder entries sorted names nodes =>
      rw [FileTree.put]
      refine .folder (SortedMap.sorted_upsertEntry _ _ sorted) ?_ ?_
      · exact SortedMap.forall_mem_upsert (m := ⟨entries, sorted⟩)
          (p := fun e => Path.IsName e.1) names here fun _ => id
      · exact SortedMap.forall_mem_upsert (m := ⟨entries, sorted⟩)
          (p := fun e : String × FileTree => e.2.WellFormed) nodes (ih .empty below)
          fun old wf' => ih wf' below

/-- An entry that is there, replaced. -/
theorem put_cons_of_child? (sorted : entries.Pairwise fun a b => a.1 < b.1)
    (here : (folder entries).child? name = some node) (rest : Place) (content : FileTree) :
    (folder entries).put (name :: rest) content = folder
      ((SortedMap.mk entries sorted).insert name (node.put rest content)).entries := by
  have found : (SortedMap.mk entries sorted).get? name = some node := here
  have same : (SortedMap.mk entries sorted).upsert name
      (fun old => put (old.getD (folder [])) rest content) =
        (SortedMap.mk entries sorted).insert name (node.put rest content) := by
    refine SortedMap.ext_get? fun key => ?_
    rw [SortedMap.get?_upsert, SortedMap.get?_insert, found]
    rfl
  rw [put]
  exact congrArg (folder ·.entries) same

theorem WellFormed.put_file (wf : t.WellFormed) (there : t.at? place = some (.file old)) :
    (t.put place (.file new)).WellFormed :=
  wf.put (wf.at? there).1 (.file new)

theorem shape_put_file (wf : t.WellFormed) (there : t.at? place = some (.file old)) :
    (t.put place (.file new)).shape = t.shape := by
  induction place generalizing t with
  | nil =>
    cases there
    rfl
  | cons name rest ih =>
    obtain ⟨node, here, below⟩ := Option.bind_eq_some_iff.mp (at?_cons ▸ there)
    have wf' := (wf.child? here).2
    cases wf with
    | file | link => cases here
    | @folder entries sorted =>
      have found : (SortedMap.mk entries sorted).get? name = some node := here
      have same :
          ((SortedMap.mk entries sorted).insert name (node.put rest (.file new))).map shape =
            (SortedMap.mk entries sorted).map shape := by
        refine SortedMap.ext_get? fun key => ?_
        rw [SortedMap.get?_map, SortedMap.get?_map, SortedMap.get?_insert]
        split
        next eq =>
          subst eq
          rw [found, Option.map_some, Option.map_some, ih wf' below]
        next => rfl
      rw [put_cons_of_child? sorted here, shape, shape, shapeEntries_eq_map, shapeEntries_eq_map]
      exact congrArg (folder ·.entries) same

/-- The file has its new content, and all others are as they were. -/
theorem at?_put_file (wf : t.WellFormed) (there : t.at? place = some (.file old)) :
    (t.put place (.file new)).at? names = some (.file text) ↔
      (names = place ∧ text = new) ∨ (names ≠ place ∧ t.at? names = some (.file text)) := by
  induction place generalizing t names with
  | nil =>
    cases there
    cases names with
    | nil => simp [put, at?, @eq_comm _ text]
    | cons => simp [put, at?_cons, child?]
  | cons name rest ih =>
    obtain ⟨node, here, below⟩ := Option.bind_eq_some_iff.mp (at?_cons ▸ there)
    have wf' := (wf.child? here).2
    cases wf with
    | file | link => cases here
    | folder sorted =>
      cases names with
      | nil => simp [put, at?]
      | cons key names =>
        rw [at?_cons, at?_cons, child?_put_cons sorted]
        by_cases same : name = key
        · subst same
          rw [if_pos rfl, here, Option.getD_some, Option.bind_some, Option.bind_some, ih wf' below]
          simp
        · simp [same, Ne.symm same]

namespace World

variable {world world' : World} {path : String} {enter : String → Bool} {p : String}

def shape (world : World) : World := { world with top := world.top.shape }

def setContent (world : World) (place : Place) (new : Option String) : World :=
  { world with top := world.top.put place (.file new) }

theorem folder_of_shape {entries : List (String × FileTree)} {place : Place}
    (here : world.top.at? place = some (folder entries)) :
    world.shape.top.at? place = some (folder (shapeEntries entries)) := by
  rw [shape, at?_shape, here, Option.map_some, FileTree.shape]

theorem follow_shape (world : World) (create : Bool) (links : Nat) (place : Place)
    (pieces : List String) :
    world.shape.follow create links place pieces = world.follow create links place pieces := by
  fun_induction follow world create links place pieces with
  | case1 => rw [follow]
  | case2 links place name rest entries here skip ih =>
    rw [follow_skip (folder_of_shape here) skip, ih]
  | case3 links place rest entries here up ih =>
    rw [follow_up (folder_of_shape here), ih]
  | case4 links place name rest entries here skip up absent last =>
    rw [follow, folder_of_shape here]
    simp only [skip, up, find?_shapeEntries, absent, last]
    rfl
  | case5 links place name rest entries here skip up absent last =>
    rw [follow, folder_of_shape here]
    simp only [skip, up, find?_shapeEntries, absent, last]
    rfl
  | case6 place name rest entries here skip up key target found =>
    rw [follow, folder_of_shape here]
    simp only [skip, up, find?_shapeEntries, found, Option.map_some, FileTree.shape]
    rfl
  | case7 place name rest entries here skip up key target found links nowhere =>
    rw [follow, folder_of_shape here]
    simp only [skip, up, find?_shapeEntries, found, Option.map_some, FileTree.shape, nowhere]
    rfl
  | case8 place name rest entries here skip up key target found links start pieces goes ih =>
    have child := find?_eq_at? here name
    rw [found] at child
    have there : world.shape.top.at? (place ++ [name]) = some (link target) := by
      rw [shape, at?_shape, ← child]
      rfl
    rw [follow_link (folder_of_shape here) ⟨skip, up⟩ there goes, ih]
  | case9 links place name rest entries here skip up e noLink found ih =>
    have child := find?_eq_at? here name
    rw [found] at child
    have there : world.shape.top.at? (place ++ [name]) = some e.2.shape := by
      rw [shape, at?_shape, ← child]
      rfl
    rw [follow_down (folder_of_shape here) ⟨skip, up⟩ there ?_, ih]
    intro target same
    obtain ⟨key, _ | _ | _⟩ := e
    · cases same
    · exact noLink key _ rfl
    · cases same
  | case10 links place name rest other =>
    rw [follow, shape, at?_shape]
    cases found : world.top.at? place with
    | none => rfl
    | some node =>
      cases node with
      | file | link => rfl
      | folder entries => exact absurd found (other entries)

theorem place?_shape (world : World) (path : String) :
    world.shape.place? path = world.place? path := by
  unfold place? find?
  have same : start? world.shape.here path = start? world.here path := rfl
  rw [same]
  cases start? world.here path with
  | none => rfl
  | some s => exact follow_shape world false maxLinks s.1 s.2

theorem node?_shape (world : World) (path : String) :
    world.shape.node? path = (world.node? path).map FileTree.shape := by
  rw [node?, node?, place?_shape]
  cases world.place? path with
  | error e => rfl
  | ok place =>
    have seen : world.shape.top.at? place = (world.top.at? place).map FileTree.shape :=
      at?_shape world.top place
    simp only [bind, Except.bind, seen]
    cases world.top.at? place <;> rfl

theorem exists_shape (world : World) (path : String) :
    world.shape.exists path = world.exists path := by
  rw [World.exists, World.exists, node?_shape]
  cases world.node? path <;> rfl

theorem parentNode?_shape (world : World) (path : String) :
    world.shape.parentNode? path = (world.parentNode? path).map FileTree.shape := by
  unfold parentNode?
  split <;> exact node?_shape world _

theorem walkStart?_shape (world : World) (path : String) :
    world.shape.walkStart? path = (world.walkStart? path).map FileTree.shape := by
  have parent : ∀ name, (world.shape.parentNode? path).toOption.bind (·.child? name) =
      ((world.parentNode? path).toOption.bind (·.child? name)).map FileTree.shape := by
    intro name
    rw [parentNode?_shape]
    cases world.parentNode? path with
    | error e => rfl
    | ok node => exact child?_shape node name
  rw [walkStart?, walkStart?, node?_shape, parent]
  cases world.node? path with
  | error e => rfl
  | ok node =>
    cases node with
    | folder => rfl
    | file | link =>
      cases (world.parentNode? path).toOption.bind (·.child? (Path.fileName path)) with
      | none => rfl
      | some child => cases child <;> rfl

theorem at?_of_walkStart? (found : world.walkStart? path = some node) :
    ∃ top, world.place? path = .ok top ∧ world.top.at? top = some node := by
  have known : world.node? path = .ok node := by
    unfold walkStart? at found
    split at found
    · cases found
    next here => exact here.trans (congrArg Except.ok (Option.some.inj found))
    next here =>
      split at found
      · cases found
      · exact here.trans (congrArg Except.ok (Option.some.inj found))
  unfold node? at known
  cases place : world.place? path with
  | error e => simp [place, bind, Except.bind] at known
  | ok top =>
    refine ⟨top, rfl, ?_⟩
    simp only [place, bind, Except.bind] at known
    split at known
    next here => exact here.trans (congrArg some (Except.ok.inj known))
    next => cases known

theorem nodup_filesBelow (wf : world.top.WellFormed) (enter : String → Bool) (path : String) :
    ((world.filesBelow enter path).map (·.1)).Nodup := by
  unfold filesBelow
  split
  · exact List.nodup_nil
  next found =>
    obtain ⟨top, _, here⟩ := at?_of_walkStart? found
    exact nodup_walk (wf.at? here).2 enter path

/-- A walk from `path` comes to what stands at `place` as `p`. -/
def PathFrom (world : World) (path : String) (place : Place) (p : String) : Prop :=
  ∃ top names, world.place? path = .ok top ∧ place = top ++ names ∧ Path.descend path names = p

theorem PathFrom.unique {place : Place} {p' : String} (here : world.PathFrom path place p)
    (here' : world.PathFrom path place p') : p = p' := by
  obtain ⟨top, names, start, rfl, rfl⟩ := here
  obtain ⟨top', names', start', same, rfl⟩ := here'
  obtain rfl := Except.ok.inj (start.symm.trans start')
  rw [List.append_cancel_left same]

theorem mem_filesBelow_iff (wf : world.top.WellFormed) : (p, text) ∈ world.filesBelow enter path ↔
    (world.walkStart? path).isSome = true ∧ ∃ top names, world.place? path = .ok top ∧
      world.top.at? (top ++ names) = some (.file text) ∧ Entered enter path names ∧
        Path.descend path names = p := by
  unfold filesBelow
  cases found : world.walkStart? path with
  | none => simp
  | some node =>
    obtain ⟨top, start, here⟩ := at?_of_walkStart? found
    have below (names : Place) : world.top.at? (top ++ names) = node.at? names := by
      rw [at?_append, here, Option.bind_some]
    rw [mem_walk_iff (wf.at? here).2]
    constructor
    · rintro ⟨names, there, entered, rfl⟩
      exact ⟨rfl, top, names, start, (below names).trans there, entered, rfl⟩
    · rintro ⟨_, top', names, start', there, entered, rfl⟩
      obtain rfl := Except.ok.inj (start'.symm.trans start)
      exact ⟨names, (below names).symm.trans there, entered, rfl⟩

section SetContent

variable (wf : world.top.WellFormed) (there : world.top.at? place = some (.file old))

include wf there

theorem shape_setContent : (world.setContent place new).shape = world.shape := by
  rw [setContent, shape, shape, shape_put_file wf there]

theorem exists_setContent (path : String) :
    (world.setContent place new).exists path = world.exists path := by
  rw [← exists_shape, shape_setContent wf there, exists_shape]

theorem place?_setContent (path : String) :
    (world.setContent place new).place? path = world.place? path := by
  rw [← place?_shape, shape_setContent wf there, place?_shape]

theorem isSome_walkStart?_setContent (path : String) :
    ((world.setContent place new).walkStart? path).isSome = (world.walkStart? path).isSome := by
  have same := congrArg Option.isSome (walkStart?_shape (world.setContent place new) path)
  rw [shape_setContent wf there, walkStart?_shape, Option.isSome_map, Option.isSome_map] at same
  exact same.symm

/-- The walk finds what it found, the file itself apart. -/
theorem mem_filesBelow_setContent (other : ¬ world.PathFrom path place p) :
    (p, text) ∈ (world.setContent place new).filesBelow enter path ↔
      (p, text) ∈ world.filesBelow enter path := by
  rw [mem_filesBelow_iff wf, mem_filesBelow_iff (wf.put_file there),
    isSome_walkStart?_setContent wf there, place?_setContent wf there]
  refine and_congr_right fun _ => exists_congr fun top => exists_congr fun names =>
    and_congr_right fun here => ?_
  refine and_congr_left ?_
  rintro ⟨_, down⟩
  have apart : top ++ names ≠ place := fun same => other ⟨top, names, here, same.symm, down⟩
  rw [setContent, at?_put_file wf there]
  simp [apart]

end SetContent

/-- A file that a walk finds stands somewhere, and is found with whatever is put there. -/
theorem exists_place_of_mem_filesBelow (wf : world.top.WellFormed)
    (found : (p, text) ∈ world.filesBelow enter path) : ∃ place,
      world.top.at? place = some (.file text) ∧ world.PathFrom path place p ∧
        ∀ new, (p, new) ∈ (world.setContent place new).filesBelow enter path := by
  obtain ⟨start, top, names, here, there, entered, down⟩ := (mem_filesBelow_iff wf).mp found
  refine ⟨top ++ names, there, ⟨top, names, here, rfl, down⟩, fun new => ?_⟩
  rw [mem_filesBelow_iff (wf.put_file there), isSome_walkStart?_setContent wf there,
    place?_setContent wf there]
  exact ⟨start, top, names, here, (at?_put_file wf there).mpr (.inl ⟨rfl, rfl⟩), entered, down⟩

end World

end Inventory.FileTree
