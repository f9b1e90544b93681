import Inventory.Detector.Npm
import Inventory.Proofs.Component.Identity
import Inventory.Proofs.Recorder.Passes
import Inventory.Proofs.Wildcard

/-! What the recorder of a lock file holds once its packages were recorded. A first pass reports the
packages, a second one links them to what they depend on. Several install paths may share an id, so
a component may be reported and linked more than once. -/
namespace Inventory.Npm

open FileRecorder (Registration Link Recorded Linkable Supplied manual writeAll note linkTo
  registerCall failuresOf writesOf)

variable {lock : Lock} {path : String} {e : Entry} {c : Component}

theorem parentPath_nil : parentPath [] = [] := rfl

/-- Going up ends at the top, in no more steps than the path has characters. -/
theorem exists_iterate_parentPath (base : List Char) :
    ∃ n ≤ base.length, parentPath^[n] base = [] := by
  induction length : base.length using Nat.strongRecOn generalizing base with
  | _ size ih =>
    subst length
    by_cases top : base = []
    · exact ⟨0, Nat.zero_le _, top⟩
    · have shorter := length_parentPath_lt top
      obtain ⟨n, bound, ends⟩ := ih _ shorter (parentPath base) rfl
      exact ⟨n + 1, by omega, ends⟩

theorem resolve_nil (installed : String → Bool) (name : String) :
    resolve installed [] name =
      if installed (candidate [] name) then some (candidate [] name) else none := by
  rw [resolve]
  simp

/-- The closest folder up the tree that has the package. -/
theorem resolve_eq (installed : String → Bool) (name : String) {n : Nat} {base : List Char}
    (ends : parentPath^[n] base = []) : resolve installed base name =
      ((List.range (n + 1)).map fun k => candidate (parentPath^[k] base) name).find? installed := by
  induction n generalizing base with
  | zero =>
    obtain rfl : base = [] := ends
    rw [resolve_nil, List.range_one, List.map_singleton, List.find?_singleton]
    rfl
  | succ n ih =>
    have rest := @ih (parentPath base) ends
    rw [List.range_succ_eq_map, List.map_cons, List.map_map, List.find?_cons]
    have up : (fun k => candidate (parentPath^[k] base) name) ∘ Nat.succ =
        fun k => candidate (parentPath^[k] (parentPath base)) name := rfl
    rw [up, ← rest, Function.iterate_zero, id_eq]
    by_cases here : installed (candidate base name) = true
    · rw [resolve, if_pos here, here]
    · have not := eq_false_of_ne_true here
      by_cases top : base = []
      · subst top
        rw [parentPath_nil, resolve_nil, not]
      · rw [resolve, if_neg here, dif_neg top, not]

structure Installed (path : String) (e : Entry) : Prop where
  inner : path ≠ ""
  own : e.isLink = false
  folder : folder <:+: path.toList

theorem isInstalled_iff : isInstalled path e = true ↔ Installed path e := by
  rw [isInstalled, Bool.and_eq_true, Bool.and_eq_true, Wildcard.containsLiteral_iff,
    Bool.not_eq_true', Bool.not_eq_true', String.isEmpty_eq_false_iff]
  exact ⟨fun ⟨⟨inner, own⟩, folder⟩ => ⟨inner, own, folder⟩, fun i => ⟨⟨i.inner, i.own⟩, i.folder⟩⟩

def componentAt (path : String) (e : Entry) : Component :=
  .npm (e.name.getD (packageName path)) (e.version.getD "") e.integrity

structure Accepted (lock : Lock) (path : String) (e : Entry) : Prop where
  listed : lock.packages.get? path = some e
  installed : Installed path e
  named : Text.isBlank (e.name.getD (packageName path)) = false
  versioned : Text.isBlank (e.version.getD "") = false

theorem component?_eq_some_iff : component? path e = some c ↔
    (Text.isBlank (e.name.getD (packageName path)) = false ∧
      Text.isBlank (e.version.getD "") = false) ∧ componentAt path e = c := by
  rw [component?, Component.toOption_checked_eq_some_iff]
  simp [Component.identity, componentAt]

theorem accepted_iff : Accepted lock path e ↔
    lock.packages.get? path = some e ∧ Installed path e ∧
      component? path e = some (componentAt path e) := by
  rw [component?_eq_some_iff]
  exact ⟨fun a => ⟨a.listed, a.installed, ⟨a.named, a.versioned⟩, rfl⟩,
    fun ⟨listed, installed, shown, _⟩ => ⟨listed, installed, shown.1, shown.2⟩⟩

theorem idOf?_eq_some_iff {id : String} : idOf? lock path = some id ↔
    ∃ e, Accepted lock path e ∧ (componentAt path e).id = id := by
  constructor
  · intro known
    obtain ⟨e, listed, known⟩ := Option.bind_eq_some_iff.mp known
    split at known
    next installed =>
      obtain ⟨c, component, rfl⟩ := Option.map_eq_some_iff.mp known
      obtain ⟨shown, rfl⟩ := component?_eq_some_iff.mp component
      exact ⟨e, ⟨listed, isInstalled_iff.mp installed, shown.1, shown.2⟩, rfl⟩
    next => cases known
  · rintro ⟨e, accepted, rfl⟩
    obtain ⟨listed, installed, component⟩ := accepted_iff.mp accepted
    rw [idOf?, listed, Option.bind_eq_bind, Option.bind_some,
      if_pos (isInstalled_iff.mpr installed), component, Option.map_some]

theorem Accepted.known (accepted : Accepted lock path e) :
    idOf? lock path = some (componentAt path e).id :=
  idOf?_eq_some_iff.mpr ⟨e, accepted, rfl⟩

theorem accepted_iff_idOf? {id : String} (listed : (path, e) ∈ lock.packages.entries) :
    idOf? lock path = some id ↔ Accepted lock path e ∧ (componentAt path e).id = id := by
  rw [idOf?_eq_some_iff]
  constructor
  · rintro ⟨e', accepted, named⟩
    have found := SortedMap.get?_eq_some_iff.mpr listed
    obtain rfl := Option.some.inj (accepted.listed.symm.trans found)
    exact ⟨accepted, named⟩
  · exact fun ⟨accepted, named⟩ => ⟨e, accepted, named⟩

def acceptedOf (lock : Lock) (id : String) : List (String × Entry) :=
  lock.packages.entries.filter fun x => idOf? lock x.1 == some id

theorem mem_acceptedOf {id : String} : (path, e) ∈ acceptedOf lock id ↔
    Accepted lock path e ∧ (componentAt path e).id = id := by
  rw [acceptedOf, List.mem_filter, beq_iff_eq]
  constructor
  · exact fun ⟨listed, known⟩ => (accepted_iff_idOf? listed).mp known
  · intro so
    have listed := SortedMap.get?_eq_some_iff.mp so.1.listed
    exact ⟨listed, (accepted_iff_idOf? listed).mpr so⟩

def reportOf (lock : Lock) (entry : String × Entry) : List (Except String Registration) :=
  if !isInstalled entry.1 entry.2 then []
  else match component? entry.1 entry.2 with
    | none => [.error entry.1]
    | some c => [.ok ⟨{ component := c },
        { explicit := isExplicit lock entry.1, development := some entry.2.development }⟩]

def reports (lock : Lock) : List (Except String Registration) :=
  lock.packages.entries.flatMap (reportOf lock)

def child? (lock : Lock) (path name : String) : Option (String × Entry) := do
  let childPath ← resolve lock.packages.contains path.toList name
  let id ← idOf? lock childPath
  return (id, ← lock.packages.get? childPath)

def linkOf (lock : Lock) (path parent name : String) : List (Except String Link) :=
  (child? lock path name).toList.map fun c =>
    .ok { parent, child := c.1, development := some c.2.development }

def linksOf (lock : Lock) (entry : String × Entry) : List (Except String Link) :=
  match idOf? lock entry.1 with
  | none => []
  | some parent => entry.2.allDependencies.flatMap (linkOf lock entry.1 parent)

def links (lock : Lock) : List (Except String Link) :=
  lock.packages.entries.flatMap (linksOf lock)

theorem report_eq (r : FileRecorder) (entry : String × Entry) :
    report lock r entry = writeAll registerCall (reportOf lock entry) r := by
  obtain ⟨path, e⟩ := entry
  unfold report reportOf
  dsimp only
  split
  · rfl
  · cases component? path e <;> rfl

theorem link_eq (path parent : String) (r : FileRecorder) (name : String) :
    link lock path parent r name = writeAll linkTo (linkOf lock path parent name) r := by
  unfold link linkOf child?
  cases resolve lock.packages.contains path.toList name with
  | none => rfl
  | some childPath =>
    cases known : idOf? lock childPath with
    | none => simp [known, writeAll]
    | some id =>
      obtain ⟨e, accepted, rfl⟩ := idOf?_eq_some_iff.mp known
      simp only [Option.pure_def, Option.bind_eq_bind, Option.bind_some, known, accepted.listed,
        writeAll, Option.toList_some, List.map_cons, List.map_nil, List.foldl_cons, note, linkTo,
        Link.usage, List.foldl_nil]
      cases r.component? (componentAt childPath e).id <;> rfl

theorem linkAll_eq (r : FileRecorder) (entry : String × Entry) :
    linkAll lock r entry = writeAll linkTo (linksOf lock entry) r := by
  unfold linkAll linksOf
  cases idOf? lock entry.1 with
  | none => rfl
  | some parent => exact FileRecorder.foldl_eq_writeAll (link_eq entry.1 parent) _ r

/-- Recording makes two passes. -/
theorem record_eq (lock : Lock) (r : FileRecorder) :
    record lock r = writeAll linkTo (links lock) (writeAll registerCall (reports lock) r) := by
  rw [record, FileRecorder.foldl_eq_writeAll report_eq, FileRecorder.foldl_eq_writeAll linkAll_eq]
  rfl

def registration (lock : Lock) (entry : String × Entry) : Registration :=
  ⟨{ component := componentAt entry.1 entry.2 },
    { explicit := isExplicit lock entry.1, development := some entry.2.development }⟩

theorem writesOf_reportOf (listed : (path, e) ∈ lock.packages.entries) :
    writesOf (reportOf lock (path, e)) =
      if (idOf? lock path).isSome then [registration lock (path, e)] else [] := by
  have key {id : String} : idOf? lock path = some id ↔
      Accepted lock path e ∧ (componentAt path e).id = id := accepted_iff_idOf? listed
  unfold reportOf
  dsimp only
  cases known : idOf? lock path with
  | some id =>
    obtain ⟨-, installed, component⟩ := accepted_iff.mp (key.mp known).1
    rw [isInstalled_iff.mpr installed, component]
    rfl
  | none =>
    have not : ¬ Accepted lock path e := fun accepted => by
      cases known.symm.trans (key.mpr ⟨accepted, rfl⟩)
    split
    next => rfl
    next installed =>
      rw [Bool.not_eq_true, Bool.not_eq_false', isInstalled_iff] at installed
      cases component : component? path e with
      | none => rfl
      | some c =>
        obtain ⟨shown, rfl⟩ := component?_eq_some_iff.mp component
        exact absurd ⟨SortedMap.get?_eq_some_iff.mpr listed, installed, shown.1, shown.2⟩ not

/-- The registrations of an id, in the order of the keys. -/
theorem ofId_reports (lock : Lock) (id : String) :
    FileRecorder.ofId (writesOf (reports lock)) id =
      (acceptedOf lock id).map (registration lock) := by
  -- by induction over a part of the entries, since each is looked up in the whole map
  have all (entries : List (String × Entry))
      (listed : ∀ x ∈ entries, x ∈ lock.packages.entries) :
      FileRecorder.ofId (writesOf (entries.flatMap (reportOf lock))) id =
        (entries.filter (idOf? lock ·.1 == some id)).map (registration lock) := by
    induction entries with
    | nil => rfl
    | cons x entries ih =>
      obtain ⟨here, listed⟩ := List.forall_mem_cons.mp listed
      have rest := ih listed
      rw [FileRecorder.ofId, writesOf] at rest
      rw [FileRecorder.ofId, writesOf, List.flatMap_cons, List.filterMap_append,
        List.filter_append, rest]
      have one := writesOf_reportOf here
      rw [writesOf] at one
      rw [one]
      cases known : idOf? lock x.1 with
      | none => simp [known]
      | some id' =>
        obtain rfl := ((accepted_iff_idOf? here).mp known).2
        have named : (registration lock x).id = (componentAt x.1 x.2).id := rfl
        by_cases same : (componentAt x.1 x.2).id = id
        · simp [known, same, named]
        · simp [known, same, named]
  exact all lock.packages.entries fun x listed => listed

/-- A registration of the first pass is that of an accepted entry. -/
theorem mem_writesOf_reports {c : Registration} : c ∈ writesOf (reports lock) ↔
    ∃ path e, Accepted lock path e ∧ registration lock (path, e) = c := by
  have same : c ∈ writesOf (reports lock) ↔
      c ∈ FileRecorder.ofId (writesOf (reports lock)) c.id := by
    simp [FileRecorder.ofId]
  rw [same, ofId_reports, List.mem_map]
  constructor
  · rintro ⟨⟨path, e⟩, member, so⟩
    exact ⟨path, e, (mem_acceptedOf.mp member).1, so⟩
  · rintro ⟨path, e, accepted, rfl⟩
    exact ⟨(path, e), mem_acceptedOf.mpr ⟨accepted, rfl⟩, rfl⟩

theorem error_mem_reportOf {text : String} (listed : (path, e) ∈ lock.packages.entries) :
    .error text ∈ reportOf lock (path, e) ↔
      (Installed path e ∧ ¬ Accepted lock path e) ∧ path = text := by
  have found := SortedMap.get?_eq_some_iff.mpr listed
  unfold reportOf
  dsimp only
  split
  next outside =>
    rw [Bool.not_eq_true', ← Bool.not_eq_true, isInstalled_iff] at outside
    simp [outside]
  next installed =>
    rw [Bool.not_eq_true, Bool.not_eq_false', isInstalled_iff] at installed
    cases component : component? path e with
    | none => simp [accepted_iff, component, installed, eq_comm]
    | some c =>
      obtain ⟨shown, rfl⟩ := component?_eq_some_iff.mp component
      simp [accepted_iff, component, installed, found]

theorem mem_failuresOf_reports {text : String} : text ∈ failuresOf (reports lock) ↔
    ∃ e, lock.packages.get? text = some e ∧ Installed text e ∧ ¬ Accepted lock text e := by
  rw [FileRecorder.mem_failuresOf, reports, List.mem_flatMap]
  constructor
  · rintro ⟨⟨path, e⟩, listed, said⟩
    obtain ⟨so, rfl⟩ := (error_mem_reportOf listed).mp said
    exact ⟨e, SortedMap.get?_eq_some_iff.mpr listed, so⟩
  · rintro ⟨e, found, so⟩
    have listed := SortedMap.get?_eq_some_iff.mp found
    exact ⟨(text, e), listed, (error_mem_reportOf listed).mpr ⟨so, rfl⟩⟩

theorem child?_eq_some_iff {name id : String} {e' : Entry} :
    child? lock path name = some (id, e') ↔ ∃ path',
      resolve lock.packages.contains path.toList name = some path' ∧
        Accepted lock path' e' ∧ (componentAt path' e').id = id := by
  unfold child?
  simp only [Option.bind_eq_bind, Option.bind_eq_some_iff, Option.pure_def, Option.some.injEq,
    Prod.mk.injEq]
  refine exists_congr fun path' => and_congr_right fun _ => ?_
  constructor
  · rintro ⟨id, known, e', listed, rfl, rfl⟩
    obtain ⟨e, accepted, rfl⟩ := idOf?_eq_some_iff.mp known
    obtain rfl := Option.some.inj (accepted.listed.symm.trans listed)
    exact ⟨accepted, rfl⟩
  · rintro ⟨accepted, rfl⟩
    exact ⟨_, accepted.known, e', accepted.listed, rfl, rfl⟩

theorem mem_linkOf {parent name : String} {said : Except String Link} :
    said ∈ linkOf lock path parent name ↔ ∃ path' e',
      resolve lock.packages.contains path.toList name = some path' ∧ Accepted lock path' e' ∧
        .ok ⟨parent, (componentAt path' e').id, some e'.development⟩ = said := by
  rw [linkOf, List.mem_map]
  constructor
  · rintro ⟨⟨id, e'⟩, found, so⟩
    obtain ⟨path', resolved, accepted, rfl⟩ := child?_eq_some_iff.mp (Option.mem_toList.mp found)
    exact ⟨path', e', resolved, accepted, so⟩
  · rintro ⟨path', e', resolved, accepted, so⟩
    exact ⟨(_, e'), Option.mem_toList.mpr (child?_eq_some_iff.mpr ⟨path', resolved, accepted, rfl⟩),
      so⟩

theorem mem_links {said : Except String Link} : said ∈ links lock ↔
    ∃ path e, Accepted lock path e ∧ ∃ name ∈ e.allDependencies,
      said ∈ linkOf lock path (componentAt path e).id name := by
  rw [links, List.mem_flatMap]
  constructor
  · rintro ⟨⟨path, e⟩, listed, among⟩
    unfold linksOf at among
    split at among
    next => cases among
    next parent known =>
      obtain ⟨accepted, rfl⟩ := (accepted_iff_idOf? listed).mp known
      exact ⟨path, e, accepted, List.mem_flatMap.mp among⟩
  · rintro ⟨path, e, accepted, among⟩
    refine ⟨(path, e), SortedMap.get?_eq_some_iff.mp accepted.listed, ?_⟩
    rw [linksOf, accepted.known]
    exact List.mem_flatMap.mpr among

theorem mem_writesOf_links {l : Link} : l ∈ writesOf (links lock) ↔
    ∃ path e, Accepted lock path e ∧ ∃ name ∈ e.allDependencies, ∃ path' e',
      resolve lock.packages.contains path.toList name = some path' ∧ Accepted lock path' e' ∧
        ⟨(componentAt path e).id, (componentAt path' e').id, some e'.development⟩ = l := by
  simp only [FileRecorder.mem_writesOf, mem_links, mem_linkOf, Except.ok.injEq]

/-- Nothing fails on the second pass: what is not installed is passed over. -/
theorem not_mem_failuresOf_links (text : String) : text ∉ failuresOf (links lock) := by
  simp [FileRecorder.mem_failuresOf, mem_links, mem_linkOf]

theorem exists_registration (accepted : Accepted lock path e) : ∃ c ∈ writesOf (reports lock),
    c.id = (componentAt path e).id ∧ c.usage.development = some e.development :=
  ⟨_, mem_writesOf_reports.mpr ⟨path, e, accepted, rfl⟩, rfl, rfl⟩

theorem linkable_of_mem {l : Link} (member : l ∈ writesOf (links lock)) :
    Linkable (writesOf (reports lock)) l := by
  obtain ⟨path, e, accepted, _, _, path', e', _, accepted', rfl⟩ := mem_writesOf_links.mp member
  obtain ⟨c, here, named, -⟩ := exists_registration accepted
  obtain ⟨c', there, named', said'⟩ := exists_registration accepted'
  exact {
    parent := ⟨c, here, named⟩
    child := ⟨c', there, named'⟩
    development := fun value said => ⟨c', there, named', said'.trans said⟩ }

theorem parent_of_mem_reports (c : Registration) (member : c ∈ writesOf (reports lock)) :
    c.usage.parent = none := by
  obtain ⟨path, e, -, rfl⟩ := mem_writesOf_reports.mp member
  rfl

theorem recorded_record (rule : DevelopmentRule) (lock : Lock) :
    Recorded rule (writesOf (reports lock)) (writesOf (links lock))
      (failuresOf (reports lock) ++ failuresOf (links lock)) (record lock (manual rule)) := by
  rw [record_eq]
  exact FileRecorder.recorded_of_passes parent_of_mem_reports fun l => linkable_of_mem

/-- An accepted entry depends on a name that is resolved to another one. -/
def Links (lock : Lock) (a b : String) : Prop :=
  ∃ path e, Accepted lock path e ∧ (componentAt path e).id = a ∧ ∃ name ∈ e.allDependencies,
    ∃ path' e', resolve lock.packages.contains path.toList name = some path' ∧
      Accepted lock path' e' ∧ (componentAt path' e').id = b

structure Records (rule : DevelopmentRule) (lock : Lock) (f : FileRecorder) : Prop where
  ids : ∀ id, f.graph.contains id = true ↔
    ∃ path e, Accepted lock path e ∧ (componentAt path e).id = id
  failures : ∀ text, f.graph.failures.contains text = true ↔
    ∃ e, lock.packages.get? text = some e ∧ Installed text e ∧ ¬ Accepted lock text e
  children : ∀ a b, f.graph.HasChild a b ↔ a ≠ b ∧ Links lock a b
  parents : ∀ a b, f.graph.HasParent b a ↔ a ≠ b ∧ Links lock a b
  /-- What the project asks for is explicit where it is installed at the top. -/
  explicit : ∀ id, f.graph.isExplicit id = true ↔
    ∃ path e, Accepted lock path e ∧ (componentAt path e).id = id ∧ parentPath path.toList = [] ∧
      ∃ root, lock.packages.get? "" = some root ∧ packageName path ∈ root.allDependencies
  development : ∀ id, f.graph.development? id =
    rule.effective ((acceptedOf lock id).map fun x => some x.2.development)
  /-- The first entry in the order of the keys settles what is stored. -/
  component : ∀ path e, Accepted lock path e →
    (∀ path' e', Accepted lock path' e' → (componentAt path' e').id = (componentAt path e).id →
      path ≤ path') →
    f.component? (componentAt path e).id = some (componentAt path e)

variable {rule : DevelopmentRule} {f : FileRecorder}

theorem isExplicit_iff : isExplicit lock path = true ↔ parentPath path.toList = [] ∧
    ∃ root, lock.packages.get? "" = some root ∧ packageName path ∈ root.allDependencies := by
  rw [isExplicit, rootNames, Bool.and_eq_true, List.isEmpty_iff, List.contains_iff_mem]
  cases lock.packages.get? "" <;> simp

/-- The first accepted entry of an id comes first among them. -/
theorem head?_acceptedOf (accepted : Accepted lock path e)
    (first : ∀ path' e', Accepted lock path' e' →
      (componentAt path' e').id = (componentAt path e).id → path ≤ path') :
    (acceptedOf lock (componentAt path e).id).head? = some (path, e) := by
  have sorted : (acceptedOf lock (componentAt path e).id).Pairwise fun a b => a.1 < b.1 :=
    lock.packages.sorted.filter _
  have member := mem_acceptedOf.mpr ⟨accepted, rfl⟩
  have least (x : String × Entry) (among : x ∈ acceptedOf lock (componentAt path e).id) :
      path ≤ x.1 := by
    obtain ⟨accepted', same⟩ := mem_acceptedOf.mp among
    exact first _ _ accepted' same
  generalize acceptedOf lock (componentAt path e).id = entries at *
  cases entries with
  | nil => cases member
  | cons x entries =>
    rcases List.mem_cons.mp member with rfl | later
    · rfl
    · have before := (List.pairwise_cons.mp sorted).1 _ later
      exact absurd before (String.not_lt.mpr (least x List.mem_cons_self))

theorem exists_link_iff (a b : String) :
    (∃ l ∈ writesOf (links lock), l.parent = a ∧ l.child = b) ↔ Links lock a b := by
  constructor
  · rintro ⟨l, member, rfl, rfl⟩
    obtain ⟨path, e, accepted, name, among, path', e', resolved, accepted', rfl⟩ :=
      mem_writesOf_links.mp member
    exact ⟨path, e, accepted, rfl, name, among, path', e', resolved, accepted', rfl⟩
  · rintro ⟨path, e, accepted, rfl, name, among, path', e', resolved, accepted', rfl⟩
    exact ⟨_, mem_writesOf_links.mpr ⟨path, e, accepted, name, among, path', e', resolved,
      accepted', rfl⟩, rfl, rfl⟩

theorem records_of_recorded
    (recorded : Recorded rule (writesOf (reports lock)) (writesOf (links lock))
      (failuresOf (reports lock) ++ failuresOf (links lock)) f) : Records rule lock f := by
  constructor
  case ids =>
    intro id
    rw [recorded.ids]
    constructor
    · rintro ⟨c, member, rfl⟩
      obtain ⟨path, e, accepted, rfl⟩ := mem_writesOf_reports.mp member
      exact ⟨path, e, accepted, rfl⟩
    · rintro ⟨path, e, accepted, rfl⟩
      obtain ⟨c, member, named, -⟩ := exists_registration accepted
      exact ⟨c, member, named⟩
  case failures =>
    intro text
    rw [recorded.failures, List.mem_append, mem_failuresOf_reports]
    exact or_iff_left (not_mem_failuresOf_links text)
  case children =>
    intro a b
    rw [recorded.children, exists_link_iff]
  case parents =>
    intro a b
    rw [recorded.parents, exists_link_iff]
  case explicit =>
    intro id
    rw [recorded.explicit]
    constructor
    · rintro ⟨c, member, rfl, explicit⟩
      obtain ⟨path, e, accepted, rfl⟩ := mem_writesOf_reports.mp member
      exact ⟨path, e, accepted, rfl, isExplicit_iff.mp explicit⟩
    · rintro ⟨path, e, accepted, rfl, explicit⟩
      exact ⟨_, mem_writesOf_reports.mpr ⟨path, e, accepted, rfl⟩, rfl,
        isExplicit_iff.mpr explicit⟩
  case development =>
    intro id
    rw [recorded.development, ofId_reports, List.map_map]
    rfl
  case component =>
    intro path e accepted first
    have found := ofId_reports lock (componentAt path e).id
    rw [FileRecorder.ofId] at found
    rw [recorded.component, ← List.head?_filter, found, List.head?_map,
      head?_acceptedOf accepted first]
    rfl

/-- What a lock file leaves in a new recorder. Its packages are recorded in two passes, and no
failure comes of a parent that would not be there. The search for a dependency goes up from the
path of the package to the top, and takes the first folder that has it. -/
theorem records_installed (world : FileTree.World) (m : Manifest) (rule : DevelopmentRule)
    {text : String} (parsed : lock? text = some lock)
    (version : lock.version = some 2 ∨ lock.version = some 3) :
    (∃ f, read world m text (manual rule) = (f, none) ∧ Records rule lock f ∧
      record lock (manual rule) =
        writeAll linkTo (links lock) (writeAll registerCall (reports lock) (manual rule)) ∧
      Supplied (writeAll registerCall (reports lock) (manual rule)) (links lock)) ∧
    ∀ base name, ∃ n ≤ base.length, parentPath^[n] base = [] ∧
      resolve lock.packages.contains base name =
        ((List.range (n + 1)).map fun k => candidate (parentPath^[k] base) name).find?
          lock.packages.contains := by
  constructor
  · refine ⟨m.addSibling world "package.json" (record lock (manual rule)), ?_, ?_, ?_, ?_⟩
    · have supported : (lock.version = some 2 || lock.version = some 3) = true := by
        simpa using version
      rw [read, parsed]
      dsimp only
      rw [if_pos supported]
    · exact records_of_recorded ((recorded_record rule lock).addSibling world m "package.json")
    · exact record_eq lock (manual rule)
    · exact FileRecorder.supplied_of_passes parent_of_mem_reports fun l => linkable_of_mem
  · intro base name
    obtain ⟨n, bound, ends⟩ := exists_iterate_parentPath base
    exact ⟨n, bound, ends, resolve_eq lock.packages.contains name ends⟩

/-- A package that another one has in a folder of its own is taken before the one at the top. -/
theorem records_installed_nested :
    let text := "\x7b\"lockfileVersion\": 3, \"packages\": \x7b" ++
      "\"\": \x7b\"dependencies\": \x7b\"a\": \"1\"\x7d\x7d, " ++
      "\"node_modules/a\": \x7b\"version\": \"1.0.0\", " ++
      "\"dependencies\": \x7b\"b\": \"1\"\x7d\x7d, " ++
      "\"node_modules/a/node_modules/b\": \x7b\"version\": \"1.0.0\"\x7d, " ++
      "\"node_modules/b\": \x7b\"version\": \"2.0.0\"\x7d\x7d\x7d"
    let m := Manifest.mk "./package-lock.json" "package-lock.json" (some text)
    ∃ f, read default m text (manual .productionWins) = (f, none) ∧
      f.graph.isExplicit "a 1.0.0 - Npm" = true ∧
      f.graph.HasChild "a 1.0.0 - Npm" "b 1.0.0 - Npm" := by
  intro text m
  let entry (version : Option String) (asked : List (String × String)) : Entry :=
    ⟨none, version, none, false, false, .ofList asked, .empty, .empty⟩
  let lock : Lock := ⟨some 3, .ofList [("", entry none [("a", "1")]),
    ("node_modules/a", entry (some "1.0.0") [("b", "1")]),
    ("node_modules/a/node_modules/b", entry (some "1.0.0") []),
    ("node_modules/b", entry (some "2.0.0") [])]⟩
  have parsed : lock? text = some lock := by decide +kernel
  obtain ⟨⟨f, run, records, -⟩, -⟩ := records_installed default m .productionWins parsed (.inr rfl)
  have outer : Accepted lock "node_modules/a" (entry (some "1.0.0") [("b", "1")]) :=
    ⟨by decide +kernel, isInstalled_iff.mp (by decide +kernel), by decide +kernel,
      by decide +kernel⟩
  have inner : Accepted lock "node_modules/a/node_modules/b" (entry (some "1.0.0") []) :=
    ⟨by decide +kernel, isInstalled_iff.mp (by decide +kernel), by decide +kernel,
      by decide +kernel⟩
  refine ⟨f, run, ?_, ?_⟩
  · exact (records.explicit _).mpr ⟨_, _, outer, by decide +kernel,
      isExplicit_iff.mp (by decide +kernel)⟩
  · refine (records.children _ _).mpr ⟨by decide, _, _, outer, by decide +kernel, "b",
      by decide +kernel, _, _, ?_, inner, by decide +kernel⟩
    decide +kernel

end Inventory.Npm
