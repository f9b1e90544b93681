import Inventory.Proofs.FileTree.Place

/-! What a walk finds. In a tree whose folders have sorted names, a walk lists each file below its
start once, under the path that the names on the way down to it make. -/
namespace Inventory.FileTree

variable {t node : FileTree} {text : Option String} {rest : Place} {enter : String → Bool}
  {path p : String}

theorem walkEntries_eq_flatMap (enter : String → Bool) (path : String)
    (entries : List (String × FileTree)) : walkEntries enter path entries =
      entries.flatMap fun e =>
        if e.2.isFolder && !enter (Path.join path e.1) then []
        else e.2.walk enter (Path.join path e.1) := by
  induction entries with
  | nil => rw [walkEntries, List.flatMap_nil]
  | cons e entries ih => rw [walkEntries, List.flatMap_cons, ih]

/-- Every folder on a way down is entered, from the one below the start to the one above the
end. -/
def Entered (enter : String → Bool) (path : String) : Place → Prop
  | name :: next :: rest =>
    enter (Path.join path name) = true ∧ Entered enter (Path.join path name) (next :: rest)
  | _ => True

theorem entered_cons (found : node.at? rest = some (.file text)) :
    Entered enter path (name :: rest) ↔
      (node.isFolder && !enter (Path.join path name)) = false ∧
        Entered enter (Path.join path name) rest := by
  cases rest with
  | nil =>
    cases found
    simp [Entered, isFolder]
  | cons next rest => simp [Entered, isFolder_of_at?_cons found]

/-- The folders on a way down are where its beginnings lead to. -/
theorem entered_iff {names : Place} : Entered enter path names ↔
    ∀ way, way ≠ [] → way <+: names → way ≠ names → enter (Path.descend path way) = true := by
  induction names generalizing path with
  | nil =>
    refine iff_of_true trivial fun way some start _ => ?_
    exact absurd (List.prefix_nil.mp start) some
  | cons name names ih =>
    cases names with
    | nil =>
      refine iff_of_true trivial fun way some start part => ?_
      rcases List.prefix_cons_iff.mp start with none | ⟨way', rfl, start'⟩
      · exact absurd none some
      · exact absurd (congrArg (name :: ·) (List.prefix_nil.mp start')) part
    | cons next rest =>
      rw [Entered, ih]
      constructor
      · rintro ⟨here, below⟩ way some start part
        obtain ⟨way', rfl, start'⟩ := (List.prefix_cons_iff.mp start).resolve_left some
        by_cases first : way' = []
        · exact first ▸ here
        · exact below way' first start' fun same => part (congrArg (name :: ·) same)
      · intro all
        refine ⟨all [name] (by simp) (by simp) (by simp), fun way some start part => ?_⟩
        exact all (name :: way) (by simp) ((List.cons_prefix_cons).mpr ⟨rfl, start⟩)
          fun same => part (List.cons.inj same).2

/-- A walk lists the files that a way down leads to if every folder on it is entered. -/
theorem mem_walk_iff (wf : t.WellFormed) : (p, text) ∈ t.walk enter path ↔
    ∃ names, t.at? names = some (.file text) ∧ Entered enter path names ∧
      Path.descend path names = p := by
  induction wf generalizing path with
  | file other =>
    rw [walk, List.mem_singleton, Prod.mk.injEq]
    constructor
    · rintro ⟨rfl, rfl⟩
      exact ⟨[], rfl, trivial, rfl⟩
    · rintro ⟨_ | ⟨name, rest⟩, found, _, rfl⟩
      · cases found
        exact ⟨rfl, rfl⟩
      · cases found
  | link target =>
    rw [walk]
    constructor
    · rintro ⟨⟩
    · rintro ⟨_ | ⟨name, rest⟩, found, _⟩ <;> cases found
  | @folder entries sorted _ _ ih =>
    rw [walk, walkEntries_eq_flatMap, List.mem_flatMap]
    constructor
    · rintro ⟨⟨name, node⟩, member, found⟩
      split at found
      · cases found
      next passed =>
        obtain ⟨names, there, entered, rfl⟩ := (ih _ member).mp found
        refine ⟨name :: names, ?_, (entered_cons there).mpr ⟨by simpa using passed, entered⟩, rfl⟩
        rw [at?_cons, (child?_eq_some_iff sorted).mpr member]
        exact there
    · rintro ⟨names, found, entered, rfl⟩
      obtain ⟨name, rest, rfl⟩ := List.exists_cons_of_ne_nil (ne_nil_of_isFolder rfl found)
      obtain ⟨node, here, below⟩ := Option.bind_eq_some_iff.mp (at?_cons ▸ found)
      have member := (child?_eq_some_iff sorted).mp here
      obtain ⟨passed, entered⟩ := (entered_cons below).mp entered
      refine ⟨(name, node), member, ?_⟩
      rw [if_neg (by simpa using passed)]
      exact (ih _ member).mpr ⟨rest, below, entered, rfl⟩

/-- Different files have different paths. -/
theorem nodup_walk (wf : t.WellFormed) (enter : String → Bool) (path : String) :
    ((t.walk enter path).map (·.1)).Nodup := by
  induction wf generalizing path with
  | file => simp [walk]
  | link => simp [walk]
  | @folder entries sorted valid nodes ih =>
    rw [walk, walkEntries_eq_flatMap, List.map_flatMap, List.nodup_flatMap]
    constructor
    · intro e member
      split
      · exact List.nodup_nil
      · exact ih e member (Path.join path e.1)
    · -- A path in two folders would be two ways down from the same start.
      refine sorted.imp_of_mem fun {a b} first second lt => ?_
      have way (e : String × FileTree) (member : e ∈ entries) {p : String}
          (listed : p ∈ List.map (·.1) (if e.2.isFolder && !enter (Path.join path e.1) then []
            else e.2.walk enter (Path.join path e.1))) :
          ∃ names, (∀ n ∈ e.1 :: names, Path.IsName n) ∧ Path.descend path (e.1 :: names) = p := by
        split at listed
        · cases listed
        · obtain ⟨⟨p, text⟩, found, rfl⟩ := List.mem_map.mp listed
          obtain ⟨names, there, _, rfl⟩ := (mem_walk_iff (nodes e member)).mp found
          have below := ((nodes e member).at? there).1
          exact ⟨names, List.forall_mem_cons.mpr ⟨valid e member, below⟩, rfl⟩
      rintro p here there
      obtain ⟨names, names_valid, rfl⟩ := way a first here
      obtain ⟨names', names_valid', same⟩ := way b second there
      have heads := (List.cons.inj (Path.descend_inj names_valid' names_valid same)).1
      exact String.lt_irrefl _ (heads ▸ lt)

end Inventory.FileTree
