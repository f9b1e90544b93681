import Inventory.Proofs.FileTree.Content

/-! Writing files and making folders. What is written to a path is read from it again: the way to a
place leads over folders and links that writing leaves alone. -/
namespace Inventory.FileTree

variable {t node content : FileTree} {entries : List (String × FileTree)} {name : String}
  {place q : Place}

/-- What the way through a node depends on. -/
def kind : FileTree → FileTree
  | file _ => file none
  | link target => link target
  | folder _ => folder []

theorem folder_of_kind (same : t.kind = (folder entries).kind) :
    ∃ entries', t = folder entries' := by
  cases t with
  | file | link => cases same
  | folder entries' => exact ⟨entries', rfl⟩

theorem kind_of_link {target : String} (same : t.kind = (link target).kind) : t = link target := by
  cases t with
  | file | folder => cases same
  | link => exact same

def Takes (t : FileTree) : Place → Prop
  | [] => ∃ text, t = file text
  | name :: rest =>
    match t.child? name with
    | some node => node.Takes rest
    | none => t.isFolder = true ∧ rest = []

theorem takes_of_file {text : Option String} (there : t.at? place = some (file text)) :
    t.Takes place := by
  induction place generalizing t with
  | nil => exact ⟨text, Option.some.inj there⟩
  | cons name rest ih =>
    obtain ⟨node, here, below⟩ := Option.bind_eq_some_iff.mp (at?_cons ▸ there)
    rw [Takes, here]
    exact ih below

theorem file_of_takes (takes : t.Takes place) (here : t.at? place = some node) :
    ∃ text, node = file text := by
  induction place generalizing t with
  | nil =>
    cases here
    exact takes
  | cons name rest ih =>
    obtain ⟨inner, above, below⟩ := Option.bind_eq_some_iff.mp (at?_cons ▸ here)
    rw [Takes, above] at takes
    exact ih takes below

theorem takes_of_absent (above : t.at? place = some (folder entries))
    (absent : (folder entries).child? name = none) : t.Takes (place ++ [name]) := by
  induction place generalizing t with
  | nil =>
    cases above
    rw [List.nil_append, Takes, absent]
    exact ⟨rfl, rfl⟩
  | cons key rest ih =>
    obtain ⟨node, here, below⟩ := Option.bind_eq_some_iff.mp (at?_cons ▸ above)
    rw [List.cons_append, Takes, here]
    exact ih below

theorem at?_put_self (wf : t.WellFormed) (place : Place) (content : FileTree) :
    (t.put place content).at? place = some content := by
  induction place generalizing t with
  | nil => rfl
  | cons name rest ih =>
    have alone : (folder [(name, (folder []).put rest content)]).at? (name :: rest) =
        some content := by
      rw [at?_cons, (child?_eq_some_iff (List.pairwise_singleton ..)).mpr List.mem_cons_self]
      exact ih .empty
    cases wf with
    | file | link => exact alone
    | @folder entries sorted names nodes =>
      rw [at?_cons, child?_put_cons sorted, if_pos rfl, Option.bind_some]
      cases here : (FileTree.folder entries).child? name with
      | none => exact ih .empty
      | some node => exact ih (nodes _ ((child?_eq_some_iff sorted).mp here))

/-- Only at its own place does a written file change what kind of node there is. -/
theorem kind_at?_put_file (wf : t.WellFormed) (takes : t.Takes place) (new : Option String)
    (other : q ≠ place) :
    ((t.put place (file new)).at? q).map kind = (t.at? q).map kind := by
  induction place generalizing t q with
  | nil =>
    obtain ⟨text, rfl⟩ := takes
    obtain ⟨name, rest, rfl⟩ := List.exists_cons_of_ne_nil other
    rfl
  | cons name rest ih =>
    cases wf with
    | file | link => cases takes.1
    | @folder entries sorted names nodes =>
      cases q with
      | nil => rfl
      | cons key q =>
        rw [at?_cons, at?_cons, child?_put_cons sorted]
        by_cases same : name = key
        · subst same
          have other : q ≠ rest := fun eq => other (congrArg _ eq)
          rw [if_pos rfl, Option.bind_some]
          cases here : (FileTree.folder entries).child? name with
          | none =>
            simp only [Takes, here] at takes
            obtain ⟨-, rfl⟩ := takes
            obtain ⟨first, q, rfl⟩ := List.exists_cons_of_ne_nil other
            rfl
          | some node =>
            simp only [Takes, here] at takes
            exact ih (nodes _ ((child?_eq_some_iff sorted).mp here)) takes other
        · rw [if_neg same]

namespace World

variable {world world' : World} {path text : String} {create : Bool} {links : Nat}
  {pieces : List String} {result : Place}

/-- The end of a path that can be written to: something that is there, or a new entry. -/
inductive Landing (world : World) : Place → Prop where
  | there {place : Place} {node : FileTree} : world.top.at? place = some node →
      (∀ target, node ≠ link target) → Landing world place
  | absent {place : Place} {entries : List (String × FileTree)} {name : String} :
      world.top.at? place = some (folder entries) → Path.IsName name →
      (folder entries).child? name = none → Landing world (place ++ [name])

theorem landing_folder (here : world.top.at? place = some (folder entries)) :
    world.Landing place :=
  .there here (by simp)

theorem exists_folder_dropLast (here : world.top.at? place = some (folder entries)) :
    ∃ entries, world.top.at? place.dropLast = some (folder entries) := by
  rcases List.eq_nil_or_concat place with rfl | ⟨front, last, rfl⟩
  · exact ⟨entries, here⟩
  · rw [List.concat_eq_append, at?_append] at here
    rw [List.concat_eq_append, List.dropLast_concat]
    obtain ⟨node, there, below⟩ := Option.bind_eq_some_iff.mp here
    cases node with
    | file | link => cases below
    | folder entries => exact ⟨entries, there⟩

theorem start?_pieces {base start : Place} (goes : start? base path = some (start, pieces)) :
    pieces ≠ [] ∧ ∀ piece ∈ pieces, '/' ∉ piece.toList := by
  unfold start? at goes
  split at goes
  · cases goes
  · cases goes
    exact ⟨Path.pieces_ne_nil path, fun _ => Path.noSlash_of_mem_pieces⟩

theorem follow_landing (letters : ∀ piece ∈ pieces, '/' ∉ piece.toList)
    (start : pieces = [] → world.Landing place)
    (found : world.follow create links place pieces = .ok result) : world.Landing result := by
  fun_induction follow world create links place pieces with
  | case1 =>
    cases found
    exact start rfl
  | case2 links place name rest entries here skip ih =>
    exact ih (fun piece member => letters piece (List.mem_cons_of_mem _ member))
      (fun _ => landing_folder here) found
  | case3 links place rest entries here up ih =>
    obtain ⟨above, there⟩ := exists_folder_dropLast here
    exact ih (fun piece member => letters piece (List.mem_cons_of_mem _ member))
      (fun _ => landing_folder there) found
  | case4 links place name rest entries here skip up absent last =>
    cases found
    refine .absent here ⟨?_, letters _ List.mem_cons_self⟩ ?_
    · rintro rfl
      exact skip rfl
    · rw [child?, absent]
      rfl
  | case5 | case6 | case7 | case10 => cases found
  | case8 place name rest entries here skip up key target there links start pieces goes ih =>
    obtain ⟨some, plain⟩ := start?_pieces goes
    refine ih (fun piece member => ?_) (fun none => ?_) found
    · rcases List.mem_append.mp member with linked | later
      · exact plain piece linked
      · exact letters piece (List.mem_cons_of_mem _ later)
    · exact absurd (List.append_eq_nil_iff.mp none).1 some
  | case9 links place name rest entries here skip up e noLink there ih =>
    have child := find?_eq_at? here name
    rw [there] at child
    exact ih (fun piece member => letters piece (List.mem_cons_of_mem _ member))
      (fun _ => .there child.symm fun target same => noLink e.1 target (Prod.ext rfl same)) found

theorem find?_landing (found : world.find? create path = .ok place) : world.Landing place := by
  unfold World.find? at found
  split at found
  · cases found
  next start pieces goes =>
    obtain ⟨some, plain⟩ := start?_pieces goes
    exact follow_landing plain (fun none => absurd none some) found

theorem Landing.takes (landing : world.Landing place)
    (open_ : ∀ entries, world.top.at? place ≠ some (folder entries)) :
    world.top.Takes place := by
  cases landing with
  | @there _ node here noLink =>
    cases node with
    | file => exact takes_of_file here
    | link target => exact absurd rfl (noLink target)
    | folder entries => exact absurd here (open_ entries)
  | absent above _ missing => exact takes_of_absent above missing

theorem Landing.isName (wf : world.top.WellFormed) (landing : world.Landing place) :
    ∀ name ∈ place, Path.IsName name := by
  cases landing with
  | there here => exact (wf.at? here).1
  | absent above valid =>
    refine List.forall_mem_append.mpr ⟨(wf.at? above).1, ?_⟩
    exact List.forall_mem_singleton.mpr valid

section Written

variable (wf : world.top.WellFormed) (takes : world.top.Takes result) (text : String)

include wf takes

theorem folder_writeAt (here : world.top.at? place = some (folder entries)) :
    ∃ entries', (world.writeAt result text).top.at? place = some (folder entries') := by
  have other : place ≠ result := by
    rintro rfl
    obtain ⟨old, same⟩ := file_of_takes takes here
    cases same
  have same := kind_at?_put_file wf takes (some text) other
  rw [here, Option.map_some] at same
  obtain ⟨node, there, kind⟩ := Option.map_eq_some_iff.mp same
  obtain ⟨entries', rfl⟩ := folder_of_kind kind
  exact ⟨entries', there⟩

theorem link_writeAt {target : String} (here : world.top.at? place = some (link target)) :
    (world.writeAt result text).top.at? place = some (link target) := by
  have other : place ≠ result := by
    rintro rfl
    obtain ⟨old, same⟩ := file_of_takes takes here
    cases same
  have same := kind_at?_put_file wf takes (some text) other
  rw [here, Option.map_some] at same
  obtain ⟨node, there, kind⟩ := Option.map_eq_some_iff.mp same
  exact kind_of_link kind ▸ there

theorem noLink_writeAt (here : world.top.at? place = some node)
    (noLink : ∀ target, node ≠ link target) : ∃ node',
      (world.writeAt result text).top.at? place = some node' ∧ ∀ target, node' ≠ link target := by
  by_cases same : place = result
  · subst same
    exact ⟨_, at?_put_self wf place _, by simp⟩
  · have kinds := kind_at?_put_file wf takes (some text) same
    rw [here, Option.map_some] at kinds
    obtain ⟨node', there, kind⟩ := Option.map_eq_some_iff.mp kinds
    refine ⟨node', there, ?_⟩
    rintro target rfl
    exact noLink target (kind_of_link kind.symm)

/-- The path along which a place was found leads to it when something is written there. -/
theorem follow_writeAt (found : world.follow create links place pieces = .ok result) :
    (world.writeAt result text).follow false links place pieces = .ok result := by
  fun_induction follow world create links place pieces with
  | case1 =>
    cases found
    rw [follow]
  | case2 links place name rest entries here skip ih =>
    obtain ⟨entries', here'⟩ := folder_writeAt wf takes text here
    rw [follow_skip here' skip]
    exact ih found
  | case3 links place rest entries here up ih =>
    obtain ⟨entries', here'⟩ := folder_writeAt wf takes text here
    rw [follow_up here']
    exact ih found
  | case4 links place name rest entries here skip up absent last =>
    obtain ⟨entries', here'⟩ := folder_writeAt wf takes text here
    obtain rfl : rest = [] := List.isEmpty_iff.mp (Bool.and_eq_true_iff.mp last).2
    cases found
    have there := at?_put_self wf (place ++ [name]) (file text)
    rw [follow_down here' ⟨skip, up⟩ there (by simp), follow]
  | case5 | case6 | case7 | case10 => cases found
  | case8 place name rest entries here skip up key target there links start pieces goes ih =>
    obtain ⟨entries', here'⟩ := folder_writeAt wf takes text here
    have child := find?_eq_at? here name
    rw [there] at child
    rw [follow_link here' ⟨skip, up⟩ (link_writeAt wf takes text child.symm) goes]
    exact ih found
  | case9 links place name rest entries here skip up e noLink there ih =>
    obtain ⟨entries', here'⟩ := folder_writeAt wf takes text here
    have child := find?_eq_at? here name
    rw [there] at child
    obtain ⟨node', there', noLink'⟩ := noLink_writeAt wf takes text child.symm
      fun target same => noLink e.1 target (Prod.ext rfl same)
    rw [follow_down here' ⟨skip, up⟩ there' noLink']
    exact ih found

end Written

theorem find?_of_target? (found : world.target? path = .ok place) :
    world.find? true path = .ok place := by
  unfold target? at found
  split at found
  · split at found <;> cases found
  · exact found

theorem exists_of_write (written : world.write path text = .ok world') : ∃ place,
    world.find? true path = .ok place ∧
      (∀ entries, world.top.at? place ≠ some (folder entries)) ∧
        world' = world.writeAt place text := by
  unfold write at written
  cases target : world.target? path with
  | error e => simp [target, bind, Except.bind] at written
  | ok place =>
    simp only [target, bind, Except.bind] at written
    split at written
    · cases written
    next noFolder =>
      cases written
      exact ⟨place, find?_of_target? target, noFolder, rfl⟩

theorem exists_of_makeFolder (made : world.makeFolder path = .ok world') : ∃ place,
    world.find? true path = .ok place ∧
      world' = { world with top := world.top.put place (.folder []) } := by
  unfold makeFolder at made
  cases target : world.target? path with
  | error e => simp [target, bind, Except.bind] at made
  | ok place =>
    simp only [target, bind, Except.bind] at made
    split at made
    · cases made
    · cases made
      exact ⟨place, find?_of_target? target, rfl⟩

theorem place?_writeAt (wf : world.top.WellFormed) (takes : world.top.Takes place)
    (found : world.find? true path = .ok place) (text : String) :
    (world.writeAt place text).place? path = .ok place := by
  have start : start? (world.writeAt place text).here path = start? world.here path := rfl
  unfold place? World.find?
  unfold World.find? at found
  rw [start]
  split at found
  · cases found
  · exact follow_writeAt wf takes text found

/-- What is written to a path is read from it. -/
theorem read?_write (wf : world.top.WellFormed) (written : world.write path text = .ok world') :
    world'.read? path = .ok text := by
  obtain ⟨place, found, noFolder, rfl⟩ := exists_of_write written
  have leads := place?_writeAt wf ((find?_landing found).takes noFolder) found text
  have there : (world.writeAt place text).top.at? place = some (file text) :=
    at?_put_self wf place _
  have node : (world.writeAt place text).node? path = .ok (file text) := by
    rw [node?, leads]
    simp only [bind, Except.bind, there]
  rw [read?, node]
  rfl

/-- In an empty folder a name that no file has yet gets one. -/
theorem write_new {name : String} (base : start? [] name = some ([], [name]))
    (plain : name ≠ "" ∧ name ≠ "." ∧ name ≠ "..") (text : String) :
    write ⟨folder [], []⟩ name text = .ok ⟨folder [(name, file (some text))], []⟩ := by
  have target : target? ⟨folder [], []⟩ name = .ok [name] := by
    rw [target?, find?, base]
    dsimp only
    rw [follow]
    simp [at?, plain]
  rw [write, target]
  rfl

theorem wellFormed_write (wf : world.top.WellFormed)
    (written : world.write path text = .ok world') : world'.top.WellFormed := by
  obtain ⟨place, found, _, rfl⟩ := exists_of_write written
  exact wf.put ((find?_landing found).isName wf) (.file _)

theorem wellFormed_makeFolder (wf : world.top.WellFormed)
    (made : world.makeFolder path = .ok world') : world'.top.WellFormed := by
  obtain ⟨place, found, rfl⟩ := exists_of_makeFolder made
  exact wf.put ((find?_landing found).isName wf) .empty

theorem wellFormed_makeFolders (wf : world.top.WellFormed)
    (made : world.makeFolders path = .ok world') : world'.top.WellFormed := by
  unfold makeFolders at made
  generalize (ancestry path.length path).reverse = folders at made
  induction folders generalizing world with
  | nil =>
    cases made
    exact wf
  | cons folder folders ih =>
    rw [List.foldlM_cons] at made
    split at made
    · exact ih wf made
    · cases one : world.makeFolder folder with
      | error e => simp [one, bind, Except.bind] at made
      | ok next =>
        rw [one] at made
        exact ih (wellFormed_makeFolder wf one) made

theorem wellFormed_makeFolderFor (wf : world.top.WellFormed)
    (made : world.makeFolderFor path = .ok world') : world'.top.WellFormed := by
  unfold makeFolderFor at made
  split at made
  · cases made
    exact wf
  · cases made
    exact wf
  · split at made
    · cases made
      exact wf
    · exact wellFormed_makeFolders wf made

end World

end Inventory.FileTree
