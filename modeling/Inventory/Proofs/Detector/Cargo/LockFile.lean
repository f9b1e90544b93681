import Inventory.Detector.Cargo
import Inventory.Proofs.Component.Identity
import Inventory.Proofs.Graph.Search
import Inventory.Proofs.Recorder.Passes

/-! What the recorder of a lock file holds once its packages were recorded. A first pass reports the
packages, a second one links them to what they depend on. -/
namespace Inventory.Cargo

open FileRecorder (Registration Link Recorded Linkable Supplied manual writeAll note linkTo
  registerCall failuresOf writesOf)

variable {packages : List Package} {p q : Package} {c : Component} {d : String} {i : Nat}

structure Package.IsReported (p : Package) : Prop where
  sourced : p.isLocal = false
  named : Text.isBlank p.name = false
  versioned : Text.isBlank p.version = false

def Package.id (p : Package) : String := (Component.cargo p.name p.version p.source).id

theorem Package.id_congr (same : p.key = q.key) : p.id = q.id := by
  obtain ⟨name, version⟩ := Prod.mk.inj same
  unfold Package.id Component.id Component.identity
  rw [name, version]
  rfl

theorem component?_eq_some_iff : component? p = some c ↔
    p.IsReported ∧ Component.cargo p.name p.version p.source = c := by
  have shown : (∀ f ∈ (Component.cargo p.name p.version p.source).identity,
      Text.isBlank f.2 = false) ↔
        Text.isBlank p.name = false ∧ Text.isBlank p.version = false := by
    simp [Component.identity]
  unfold component?
  cases source : p.source with
  | none =>
    refine iff_of_false (by simp) fun ⟨reported, _⟩ => ?_
    simpa [Package.isLocal, source] using reported.sourced
  | some text =>
    rw [Option.bind_some, Component.toOption_checked_eq_some_iff, ← source, shown]
    refine and_congr_left' ⟨fun ⟨named, versioned⟩ => ⟨?_, named, versioned⟩, fun reported =>
      ⟨reported.named, reported.versioned⟩⟩
    simp [Package.isLocal, source]

theorem component?_eq_none_iff : component? p = none ↔ ¬ p.IsReported := by
  rw [Option.eq_none_iff_forall_ne_some]
  constructor
  · exact fun none reported => none _ (component?_eq_some_iff.mpr ⟨reported, rfl⟩)
  · exact fun not c some => not (component?_eq_some_iff.mp some).1

/-- The id of a name and a version is that of any reported package that has both. -/
theorem idOf?_eq_some_iff {key : String × String} {id : String} :
    idOf? packages key = some id ↔ ∃ p ∈ packages, p.IsReported ∧ p.key = key ∧ p.id = id := by
  unfold idOf?
  constructor
  · intro found
    obtain ⟨p, first, known⟩ := Option.bind_eq_some_iff.mp found
    obtain ⟨c, component, rfl⟩ := Option.map_eq_some_iff.mp known
    obtain ⟨reported, rfl⟩ := component?_eq_some_iff.mp component
    have so := List.find?_some first
    simp only [Bool.and_eq_true, beq_iff_eq] at so
    exact ⟨p, List.mem_of_find?_eq_some first, reported, so.1, rfl⟩
  · rintro ⟨p, member, reported, rfl, rfl⟩
    have fits : (packages.find? fun q => q.key == p.key && (component? q).isSome).isSome = true :=
      List.find?_isSome.mpr ⟨p, member, by simp [component?_eq_some_iff.mpr ⟨reported, rfl⟩]⟩
    -- The first package with the key may be another one, but its id is the same.
    obtain ⟨q, first⟩ := Option.isSome_iff_exists.mp fits
    have so := List.find?_some first
    simp only [Bool.and_eq_true, beq_iff_eq, Option.isSome_iff_exists] at so
    obtain ⟨same, c, component⟩ := so
    obtain ⟨_, rfl⟩ := component?_eq_some_iff.mp component
    rw [first, Option.bind_some, component, Option.map_some]
    exact congrArg some (Package.id_congr same)

/-- The place that a dependency is resolved to is that of a package. -/
theorem exists_getElem?_of_resolve (found : resolve packages d = some i) :
    ∃ p, packages[i]? = some p := by
  have among {name : String} {entry : Package × Nat}
      (member : entry ∈ packages.zipIdx.filter (·.1.name == name)) :
      packages[entry.2]? = some entry.1 :=
    List.mem_zipIdx_iff_getElem?.mp (List.mem_filter.mp member).1
  unfold resolve at found
  split at found
  case h_1 => cases found
  case h_2 name rest _ =>
    dsimp only at found
    split at found
    case h_1 =>
      split at found
      case h_1 q j single =>
        cases found
        exact ⟨q, among (single ▸ List.mem_singleton_self _)⟩
      case h_2 => cases found
    case h_2 =>
      obtain ⟨entry, first, rfl⟩ := Option.map_eq_some_iff.mp found
      exact ⟨entry.1, among (List.mem_of_find?_eq_some first)⟩

def Requires (packages : List Package) (p q : Package) : Prop :=
  ∃ d ∈ p.dependencies, (resolve packages d).bind (packages[·]?) = some q

theorem resolve_bind_eq_none_iff :
    (resolve packages d).bind (packages[·]?) = none ↔ (resolve packages d).isNone = true := by
  cases found : resolve packages d with
  | none => simp
  | some i =>
    obtain ⟨p, here⟩ := exists_getElem?_of_resolve found
    simp [here]

theorem mem_explicitPlaces : i ∈ explicitPlaces packages ↔
    ∃ l ∈ packages, l.isLocal = true ∧ ∃ d ∈ l.dependencies, resolve packages d = some i := by
  simp [explicitPlaces, and_assoc]

def reportOf (explicit : List Nat) (entry : Package × Nat) : List (Except String Registration) :=
  if entry.1.isLocal then []
  else match component? entry.1 with
    | none => [.error (entry.1.name ++ " " ++ entry.1.version)]
    | some c => [.ok ⟨{ component := c },
        { explicit := explicit.contains entry.2, development := some false }⟩]

def reports (packages : List Package) : List (Except String Registration) :=
  ((packages.filter (·.isLocal)).flatMap (unresolved packages)).map .error ++
    packages.zipIdx.flatMap (reportOf (explicitPlaces packages))

def linkOf (packages : List Package) (parent dependency : String) : List (Except String Link) :=
  match (resolve packages dependency).bind (packages[·]?) with
  | none => [.error dependency]
  | some child => (idOf? packages child.key).toList.map fun id => .ok { parent, child := id }

def linksOf (packages : List Package) (p : Package) : List (Except String Link) :=
  if p.isLocal then []
  else match idOf? packages p.key with
    | none => []
    | some parent => p.dependencies.flatMap (linkOf packages parent)

def links (packages : List Package) : List (Except String Link) :=
  packages.flatMap (linksOf packages)

theorem report_eq (explicit : List Nat) (r : FileRecorder) (entry : Package × Nat) :
    report explicit r entry = writeAll registerCall (reportOf explicit entry) r := by
  obtain ⟨p, place⟩ := entry
  unfold report reportOf
  dsimp only
  split
  · rfl
  · cases component? p <;> rfl

theorem link_eq (parent : String) (r : FileRecorder) (d : String) :
    link packages parent r d = writeAll linkTo (linkOf packages parent d) r := by
  unfold link linkOf
  cases (resolve packages d).bind (packages[·]?) with
  | none => rfl
  | some child =>
    dsimp only
    cases idOf? packages child.key <;> rfl

theorem linkAll_eq (r : FileRecorder) (p : Package) :
    linkAll packages r p = writeAll linkTo (linksOf packages p) r := by
  unfold linkAll linksOf
  split
  · rfl
  · cases idOf? packages p.key with
    | none => rfl
    | some parent => exact FileRecorder.foldl_eq_writeAll (link_eq parent) p.dependencies r

/-- Recording makes two passes. -/
theorem record_eq (packages : List Package) (r : FileRecorder) :
    record packages r =
      writeAll linkTo (links packages) (writeAll registerCall (reports packages) r) := by
  have failed (texts : List String) (r : FileRecorder) :
      texts.foldl (·.addFailure ·) r = writeAll registerCall (texts.map .error) r := by
    rw [writeAll, List.foldl_map]
    rfl
  unfold record
  dsimp only
  rw [failed, FileRecorder.foldl_eq_writeAll (report_eq (explicitPlaces packages)),
    FileRecorder.foldl_eq_writeAll linkAll_eq, reports]
  simp only [writeAll, List.foldl_append]
  rfl

def Package.registration (p : Package) (explicit : Bool) : Registration :=
  ⟨{ component := .cargo p.name p.version p.source }, { explicit, development := some false }⟩

theorem ok_mem_reportOf {explicit : List Nat} {c : Registration} :
    .ok c ∈ reportOf explicit (p, i) ↔ p.IsReported ∧ p.registration (explicit.contains i) = c := by
  unfold reportOf
  dsimp only
  split
  next own =>
    exact iff_of_false List.not_mem_nil fun ⟨reported, _⟩ =>
      absurd (own.symm.trans reported.sourced) (by decide)
  next =>
    cases component : component? p with
    | none => simp [component?_eq_none_iff.mp component]
    | some c' =>
      obtain ⟨reported, rfl⟩ := component?_eq_some_iff.mp component
      simp [reported, Package.registration, eq_comm]

theorem error_mem_reportOf {explicit : List Nat} {text : String} :
    .error text ∈ reportOf explicit (p, i) ↔
      (p.isLocal = false ∧ ¬ p.IsReported) ∧ p.name ++ " " ++ p.version = text := by
  unfold reportOf
  dsimp only
  split
  next own => simp [own]
  next sourced =>
    rw [Bool.not_eq_true] at sourced
    cases component : component? p with
    | none => simp [component?_eq_none_iff.mp component, sourced, eq_comm]
    | some c => simp [(component?_eq_some_iff.mp component).1]

theorem mem_writesOf_reports {c : Registration} : c ∈ writesOf (reports packages) ↔
    ∃ (p : Package) (i : Nat), packages[i]? = some p ∧ p.IsReported ∧
      p.registration ((explicitPlaces packages).contains i) = c := by
  rw [FileRecorder.mem_writesOf, reports, List.mem_append]
  simp only [List.mem_map, List.mem_flatMap, reduceCtorEq, and_false, exists_false, false_or,
    Prod.exists, List.mem_zipIdx_iff_getElem?, ok_mem_reportOf]

theorem mem_failuresOf_reports {text : String} : text ∈ failuresOf (reports packages) ↔
    (∃ p ∈ packages, p.isLocal = true ∧ text ∈ unresolved packages p) ∨
      ∃ p ∈ packages, (p.isLocal = false ∧ ¬ p.IsReported) ∧
        p.name ++ " " ++ p.version = text := by
  rw [FileRecorder.mem_failuresOf, reports, List.mem_append]
  refine or_congr ?_ ?_
  · simp only [List.mem_map, List.mem_flatMap, List.mem_filter, Except.error.injEq,
      exists_eq_right, and_assoc]
  · simp only [List.mem_flatMap, Prod.exists, List.mem_zipIdx_iff_getElem?, error_mem_reportOf]
    constructor
    · rintro ⟨p, i, here, so⟩
      exact ⟨p, List.mem_of_getElem? here, so⟩
    · rintro ⟨p, member, so⟩
      obtain ⟨i, here⟩ := List.mem_iff_getElem?.mp member
      exact ⟨p, i, here, so⟩

/-- A package that has a source goes by its own id, if by any. -/
theorem idOf?_key (member : p ∈ packages) (sourced : p.isLocal = false) {id : String} :
    idOf? packages p.key = some id ↔ p.IsReported ∧ p.id = id := by
  rw [idOf?_eq_some_iff]
  constructor
  · rintro ⟨q, -, reported, same, rfl⟩
    obtain ⟨name, version⟩ := Prod.mk.inj same
    exact ⟨⟨sourced, name ▸ reported.named, version ▸ reported.versioned⟩,
      (Package.id_congr same).symm⟩
  · exact fun ⟨reported, id⟩ => ⟨p, member, reported, rfl, id⟩

theorem mem_linksOf (member : p ∈ packages) {said : Except String Link} :
    said ∈ linksOf packages p ↔
      p.IsReported ∧ ∃ d ∈ p.dependencies, said ∈ linkOf packages p.id d := by
  unfold linksOf
  split
  next own =>
    exact iff_of_false List.not_mem_nil fun ⟨reported, _⟩ =>
      absurd (own.symm.trans reported.sourced) (by decide)
  next sourced =>
    rw [Bool.not_eq_true] at sourced
    have key {id : String} : idOf? packages p.key = some id ↔ p.IsReported ∧ p.id = id :=
      idOf?_key member sourced
    cases known : idOf? packages p.key with
    | none =>
      refine iff_of_false List.not_mem_nil fun ⟨reported, _⟩ => ?_
      cases known.symm.trans (key.mpr ⟨reported, rfl⟩)
    | some id =>
      obtain ⟨reported, rfl⟩ := key.mp known
      simp only [List.mem_flatMap, reported, true_and]

theorem ok_mem_linkOf {parent : String} {l : Link} : .ok l ∈ linkOf packages parent d ↔
    ∃ q, (resolve packages d).bind (packages[·]?) = some q ∧
      ∃ q' ∈ packages, q'.IsReported ∧ q'.key = q.key ∧ ⟨parent, q'.id, none⟩ = l := by
  unfold linkOf
  cases (resolve packages d).bind (packages[·]?) with
  | none => simp
  | some q =>
    simp only [List.mem_map, Option.mem_toList, idOf?_eq_some_iff, Except.ok.injEq,
      Option.some.injEq, exists_eq_left']
    constructor
    · rintro ⟨id, ⟨q', member, reported, same, rfl⟩, eq⟩
      exact ⟨q', member, reported, same, eq⟩
    · rintro ⟨q', member, reported, same, eq⟩
      exact ⟨q'.id, ⟨q', member, reported, same, rfl⟩, eq⟩

theorem error_mem_linkOf {parent text : String} : .error text ∈ linkOf packages parent d ↔
    (resolve packages d).isNone = true ∧ d = text := by
  rw [← resolve_bind_eq_none_iff]
  unfold linkOf
  cases (resolve packages d).bind (packages[·]?) with
  | none => simp [eq_comm]
  | some q => simp

theorem mem_writesOf_links {l : Link} : l ∈ writesOf (links packages) ↔
    ∃ p ∈ packages, p.IsReported ∧ ∃ q, Requires packages p q ∧
      ∃ q' ∈ packages, q'.IsReported ∧ q'.key = q.key ∧ ⟨p.id, q'.id, none⟩ = l := by
  rw [FileRecorder.mem_writesOf, links, List.mem_flatMap]
  refine exists_congr fun p => and_congr_right fun member => ?_
  rw [mem_linksOf member]
  refine and_congr_right fun _ => ?_
  simp only [ok_mem_linkOf, Requires]
  constructor
  · rintro ⟨d, among, q, found, here⟩
    exact ⟨q, ⟨d, among, found⟩, here⟩
  · rintro ⟨q, ⟨d, among, found⟩, here⟩
    exact ⟨d, among, q, found, here⟩

theorem mem_failuresOf_links {text : String} : text ∈ failuresOf (links packages) ↔
    ∃ p ∈ packages, p.IsReported ∧ text ∈ unresolved packages p := by
  rw [FileRecorder.mem_failuresOf, links, List.mem_flatMap]
  refine exists_congr fun p => and_congr_right fun member => ?_
  rw [mem_linksOf member]
  refine and_congr_right fun _ => ?_
  simp only [error_mem_linkOf, unresolved, List.mem_filter]
  constructor
  · rintro ⟨d, among, unknown, rfl⟩
    exact ⟨among, unknown⟩
  · exact fun ⟨among, unknown⟩ => ⟨text, among, unknown, rfl⟩

theorem exists_registration (member : p ∈ packages) (reported : p.IsReported) :
    ∃ c ∈ writesOf (reports packages), c.id = p.id := by
  obtain ⟨i, here⟩ := List.mem_iff_getElem?.mp member
  exact ⟨_, mem_writesOf_reports.mpr ⟨p, i, here, reported, rfl⟩, rfl⟩

theorem linkable_of_mem {l : Link} (member : l ∈ writesOf (links packages)) :
    Linkable (writesOf (reports packages)) l := by
  obtain ⟨p, here, reported, -, -, q, there, reported', -, rfl⟩ := mem_writesOf_links.mp member
  exact {
    parent := exists_registration here reported
    child := exists_registration there reported'
    development := fun value said => by cases said }

theorem parent_of_mem_reports (c : Registration) (member : c ∈ writesOf (reports packages)) :
    c.usage.parent = none := by
  obtain ⟨p, i, -, -, rfl⟩ := mem_writesOf_reports.mp member
  rfl

theorem recorded_record (rule : DevelopmentRule) (packages : List Package) :
    Recorded rule (writesOf (reports packages)) (writesOf (links packages))
      (failuresOf (reports packages) ++ failuresOf (links packages))
      (record packages (manual rule)) := by
  rw [record_eq]
  exact FileRecorder.recorded_of_passes parent_of_mem_reports fun l => linkable_of_mem

/-- A reported package depends on one that has the name and the version of another. -/
def Links (packages : List Package) (a b : String) : Prop :=
  ∃ p ∈ packages, p.IsReported ∧ p.id = a ∧ ∃ q, Requires packages p q ∧
    ∃ q' ∈ packages, q'.IsReported ∧ q'.key = q.key ∧ q'.id = b

/-- A step of a chain that ends at a reported package. -/
def Leads (packages : List Package) (p q : Package) : Prop :=
  Requires packages p q ∧ q.IsReported

structure Records (packages : List Package) (f : FileRecorder) : Prop where
  ids : ∀ id, f.graph.contains id = true ↔ ∃ p ∈ packages, p.IsReported ∧ p.id = id
  development : ∀ id, f.graph.contains id = true → f.graph.development? id = some false
  explicit : ∀ id, f.graph.isExplicit id = true ↔
    ∃ l ∈ packages, l.isLocal = true ∧ ∃ p, Leads packages l p ∧ p.id = id
  children : ∀ a b, f.graph.HasChild a b ↔ a ≠ b ∧ Links packages a b
  parents : ∀ a b, f.graph.HasParent b a ↔ a ≠ b ∧ Links packages a b
  failures : ∀ text, f.graph.failures.contains text = true ↔
    (∃ p ∈ packages, (p.isLocal = true ∨ p.IsReported) ∧ text ∈ unresolved packages p) ∨
      ∃ p ∈ packages, (p.isLocal = false ∧ ¬ p.IsReported) ∧ p.name ++ " " ++ p.version = text
  /-- What a local package requires is a root of all that it requires in turn. -/
  roots : ∀ l ∈ packages, l.isLocal = true → ∀ p, Leads packages l p →
    ∀ q, Relation.ReflTransGen (Leads packages) p q →
      (∃ roots, f.graph.explicitRoots q.id = .ok roots ∧ roots.contains p.id = true) ∧
        ∀ location (d : Detected), d.id = q.id →
          (f.observe location d).roots.containsId p.id = true

variable {rule : DevelopmentRule} {f : FileRecorder}

theorem mem_of_requires (requires : Requires packages p q) : q ∈ packages := by
  obtain ⟨d, -, found⟩ := requires
  obtain ⟨i, -, here⟩ := Option.bind_eq_some_iff.mp found
  exact List.mem_of_getElem? here

/-- Along a chain of reported packages one comes up to where it began. -/
theorem below_of_leads
    (parents : ∀ a b, f.graph.HasParent b a ↔ a ≠ b ∧ Links packages a b)
    (member : p ∈ packages) (reported : p.IsReported)
    (chain : Relation.ReflTransGen (Leads packages) p q) :
    (q ∈ packages ∧ q.IsReported) ∧ f.graph.Below q.id p.id := by
  induction chain with
  | refl => exact ⟨⟨member, reported⟩, .refl _ _⟩
  | @tail q q' _ step ih =>
    obtain ⟨⟨here, reported⟩, below⟩ := ih
    have there := mem_of_requires step.1
    refine ⟨⟨there, step.2⟩, ?_⟩
    -- A step between two packages of one id makes no edge, and needs none.
    by_cases same : q.id = q'.id
    · exact same ▸ below
    · exact .head ((parents q.id q'.id).mpr ⟨same, q, here, reported, rfl, q', step.1, q', there,
        step.2, rfl, rfl⟩) below

theorem exists_link_iff (a b : String) :
    (∃ l ∈ writesOf (links packages), l.parent = a ∧ l.child = b) ↔ Links packages a b := by
  constructor
  · rintro ⟨l, member, rfl, rfl⟩
    obtain ⟨p, here, reported, q, requires, q', there, reported', same, rfl⟩ :=
      mem_writesOf_links.mp member
    exact ⟨p, here, reported, rfl, q, requires, q', there, reported', same, rfl⟩
  · rintro ⟨p, here, reported, rfl, q, requires, q', there, reported', same, rfl⟩
    exact ⟨_, mem_writesOf_links.mpr ⟨p, here, reported, q, requires, q', there, reported', same,
      rfl⟩, rfl, rfl⟩

section Recorded

variable (recorded : Recorded rule (writesOf (reports packages)) (writesOf (links packages))
  (failuresOf (reports packages) ++ failuresOf (links packages)) f)

include recorded

theorem contains_of_recorded (id : String) : f.graph.contains id = true ↔
    ∃ p ∈ packages, p.IsReported ∧ p.id = id := by
  rw [recorded.ids]
  constructor
  · rintro ⟨c, member, rfl⟩
    obtain ⟨p, i, here, reported, rfl⟩ := mem_writesOf_reports.mp member
    exact ⟨p, List.mem_of_getElem? here, reported, rfl⟩
  · rintro ⟨p, member, reported, rfl⟩
    exact exists_registration member reported

/-- The places of the workspace's dependencies are those of the packages that local ones require. -/
theorem isExplicit_of_recorded (id : String) : f.graph.isExplicit id = true ↔
    ∃ l ∈ packages, l.isLocal = true ∧ ∃ p, Leads packages l p ∧ p.id = id := by
  rw [recorded.explicit]
  constructor
  · rintro ⟨c, member, rfl, explicit⟩
    obtain ⟨p, i, here, reported, rfl⟩ := mem_writesOf_reports.mp member
    obtain ⟨l, among, own, d, asked, found⟩ :=
      mem_explicitPlaces.mp (List.contains_iff_mem.mp explicit)
    exact ⟨l, among, own, p, ⟨⟨d, asked, by rw [found]; exact here⟩, reported⟩, rfl⟩
  · rintro ⟨l, among, own, p, ⟨⟨d, asked, found⟩, reported⟩, rfl⟩
    obtain ⟨i, found, here⟩ := Option.bind_eq_some_iff.mp found
    refine ⟨_, mem_writesOf_reports.mpr ⟨p, i, here, reported, rfl⟩, rfl, ?_⟩
    exact List.contains_iff_mem.mpr (mem_explicitPlaces.mpr ⟨l, among, own, d, asked, found⟩)

theorem hasParent_of_recorded (a b : String) :
    f.graph.HasParent b a ↔ a ≠ b ∧ Links packages a b := by
  rw [recorded.parents, exists_link_iff]

/-- Every registration of an id says the same of its development use. -/
theorem development_of_recorded (id : String) (here : f.graph.contains id = true) :
    f.graph.development? id = some false := by
  rw [recorded.development]
  have one : rule.effective [some false] = some false := by cases rule <;> rfl
  rw [← one]
  refine rule.effective_congr fun value => ?_
  rw [List.mem_map, List.mem_singleton]
  constructor
  · rintro ⟨c, member, said⟩
    obtain ⟨p, i, -, -, rfl⟩ := mem_writesOf_reports.mp (List.mem_filter.mp member).1
    exact said.symm
  · rintro ⟨⟩
    obtain ⟨c, among, named⟩ := (recorded.ids id).mp here
    obtain ⟨p, i, -, -, rfl⟩ := mem_writesOf_reports.mp among
    exact ⟨_, List.mem_filter.mpr ⟨among, by simpa using named⟩, rfl⟩

theorem failures_of_recorded (text : String) : f.graph.failures.contains text = true ↔
    (∃ p ∈ packages, (p.isLocal = true ∨ p.IsReported) ∧ text ∈ unresolved packages p) ∨
      ∃ p ∈ packages, (p.isLocal = false ∧ ¬ p.IsReported) ∧
        p.name ++ " " ++ p.version = text := by
  rw [recorded.failures, List.mem_append, mem_failuresOf_reports, mem_failuresOf_links,
    or_right_comm, ← exists_or]
  simp only [← and_or_left, ← or_and_right]

/-- What begins a chain is explicit and above what ends it. -/
theorem roots_of_recorded {l : Package} (among : l ∈ packages) (own : l.isLocal = true)
    (leads : Leads packages l p) (chain : Relation.ReflTransGen (Leads packages) p q) :
    ∃ roots, f.graph.explicitRoots q.id = .ok roots ∧ roots.contains p.id = true := by
  obtain ⟨⟨here, reported⟩, below⟩ :=
    below_of_leads (hasParent_of_recorded recorded) (mem_of_requires leads.1) leads.2 chain
  have named : q.id ≠ "" := Component.id_ne_empty _
  have there := (contains_of_recorded recorded q.id).mpr ⟨q, here, reported, rfl⟩
  have found := Graph.explicitRoots_of_contains named there
  have explicit := (isExplicit_of_recorded recorded p.id).mpr ⟨l, among, own, p, leads, rfl⟩
  have root := (Graph.contains_explicitRoots named there).mpr ⟨explicit, below⟩
  rw [found] at root
  exact ⟨_, found, root⟩

theorem records_of_recorded : Records packages f where
  ids := contains_of_recorded recorded
  development := development_of_recorded recorded
  explicit := isExplicit_of_recorded recorded
  children a b := by rw [recorded.children, exists_link_iff]
  parents := hasParent_of_recorded recorded
  failures := failures_of_recorded recorded
  roots l among own p leads q chain := by
    obtain ⟨roots, found, root⟩ := roots_of_recorded recorded among own leads chain
    refine ⟨⟨roots, found, root⟩, fun location d same => ?_⟩
    have top := (contains_of_recorded recorded p.id).mpr
      ⟨p, mem_of_requires leads.1, leads.2, rfl⟩
    exact recorded.containsId_roots_observe (same ▸ found) root top location

end Recorded

/-- What a lock file leaves in a new recorder. Its packages are recorded in two passes, and no
failure comes of a parent that would not be there. -/
theorem records_packages (world : FileTree.World) (m : Manifest) (rule : DevelopmentRule)
    {text : String} (parsed : packages? text = some packages) :
    ∃ f, read world m text (manual rule) = (f, none) ∧ Records packages f ∧
      record packages (manual rule) =
        writeAll linkTo (links packages) (writeAll registerCall (reports packages) (manual rule)) ∧
      Supplied (writeAll registerCall (reports packages) (manual rule)) (links packages) := by
  refine ⟨m.addSibling world "Cargo.toml" (record packages (manual rule)), ?_, ?_, ?_, ?_⟩
  · rw [read, parsed]
  · exact records_of_recorded ((recorded_record rule packages).addSibling world m "Cargo.toml")
  · exact record_eq packages (manual rule)
  · exact FileRecorder.supplied_of_passes parent_of_mem_reports fun l => linkable_of_mem

/-- A package that is required by way of another has the other as a root. -/
theorem records_packages_transitive :
    let text := "[[package]]\nname = \"app\"\nversion = \"0.1.0\"\ndependencies = [\"lib\"]\n" ++
      "[[package]]\nname = \"lib\"\nversion = \"1.0.0\"\nsource = \"registry\"\n" ++
      "dependencies = [\"base\"]\n" ++
      "[[package]]\nname = \"base\"\nversion = \"2.0.0\"\nsource = \"registry\"\n"
    let m := Manifest.mk "./Cargo.lock" "Cargo.lock" (some text)
    ∃ f roots, read default m text (manual .productionWins) = (f, none) ∧
      f.graph.explicitRoots "base 2.0.0 - Cargo" = .ok roots ∧
      roots.contains "lib 1.0.0 - Cargo" = true := by
  intro text m
  let app := Package.mk "app" "0.1.0" none ["lib"]
  let lib := Package.mk "lib" "1.0.0" (some "registry") ["base"]
  let base := Package.mk "base" "2.0.0" (some "registry") []
  have parsed : packages? text = some [app, lib, base] := by decide +kernel
  obtain ⟨f, run, records, -⟩ := records_packages default m .productionWins parsed
  have first : Leads [app, lib, base] app lib :=
    ⟨⟨"lib", by decide, by decide +kernel⟩, by decide, by decide +kernel, by decide +kernel⟩
  have second : Leads [app, lib, base] lib base :=
    ⟨⟨"base", by decide, by decide +kernel⟩, by decide, by decide +kernel, by decide +kernel⟩
  obtain ⟨⟨roots, found, root⟩, -⟩ := records.roots app List.mem_cons_self rfl lib first base
    (.single second)
  exact ⟨f, roots, run, found, root⟩

end Inventory.Cargo
