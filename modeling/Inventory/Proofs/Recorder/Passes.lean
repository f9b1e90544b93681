import Inventory.Detector.Manifest
import Inventory.Proofs.Component.Merging
import Inventory.Proofs.Recorder.History
import Inventory.Recorder.Views

/-! Recording in two passes. The first registers components, none of them below a parent; the second
registers them once more, each below one that is there, and says nothing new of them. Failures may
be noted on either. What comes of it does not hang on the order within a pass, but for the component
that is stored. -/
namespace Inventory.FileRecorder

variable {r f : FileRecorder} {calls reports : List Registration} {id : String}
  {α : Type u}

theorem registered_foldl (r : FileRecorder) (calls : List Registration) :
    Registered r calls (calls.foldl registerCall r) := by
  obtain ⟨schedule, state, done⟩ := exists_in_turn r calls
  exact state ▸ registered_of_finished done

theorem linked_foldl (known : ∀ c ∈ calls, ∀ parent, c.usage.parent = some parent →
    r.graph.contains parent = true) : Linked r calls (calls.foldl registerCall r) := by
  obtain ⟨schedule, state, done⟩ := exists_in_turn r calls
  refine state ▸ linked_of_finished done fun c member parent asks => ?_
  obtain ⟨d, among, rfl⟩ := List.mem_map.mp member
  exact known d among parent asks

theorem manualRoots_foldl (r : FileRecorder) (calls : List Registration) :
    (calls.foldl registerCall r).graph.manualRoots = r.graph.manualRoots := by
  obtain ⟨schedule, state, done⟩ := exists_in_turn r calls
  have seen (g : Graph) (said : List Sighting) :
      (said.foldl Graph.see g).manualRoots = g.manualRoots := by
    induction said generalizing g with
    | nil => rfl
    | cons s said ih => exact ih (g.see s)
  rw [← state]
  exact (congrArg Graph.manualRoots (bare_of_finished done)).trans (seen _ _)

theorem component?_registerCall (r : FileRecorder) (c : Registration) (id : String) :
    (r.registerCall c).component? id =
      if c.id = id then some ((r.component? id).getD c.detected.component)
      else r.component? id := by
  have stored : (r.registerCall c).components.get? id = if c.id = id then
      some (withFrameworks c.detected.frameworks c.usage.framework
        ((r.components.get? c.id).getD c.detected))
      else r.components.get? id := SortedMap.get?_upsert ..
  rw [component?, stored, component?]
  split
  next same =>
    subst same
    cases r.components.get? c.id <;> rfl
  next => rfl

/-- The first registration of an id is the one that is stored. -/
theorem component?_foldl (r : FileRecorder) (calls : List Registration) (id : String) :
    (calls.foldl registerCall r).component? id =
      (r.component? id).or ((calls.find? (·.id == id)).map (·.detected.component)) := by
  induction calls generalizing r with
  | nil => simp
  | cons c calls ih =>
    rw [List.foldl_cons, ih, component?_registerCall]
    by_cases same : c.id = id
    · subst same
      cases r.component? c.id <;> simp
    · simp [same]

/-- A component that is registered once more, below another. -/
structure Link where
  parent : String
  child : String
  development : Option Bool := none
  deriving DecidableEq, Repr

def Link.usage (l : Link) : Usage := { parent := some l.parent, development := l.development }

/-- What is stored of the component is registered; what is not there is passed over. -/
def linkTo (r : FileRecorder) (l : Link) : FileRecorder :=
  match r.component? l.child with
  | none => r
  | some c => r.register { component := c } l.usage

structure Repeats (links : List Link) (calls : List Registration) : Prop where
  linkOf : ∀ c ∈ calls, ∃ l ∈ links, l.child = c.id ∧ l.usage = c.usage
  callOf : ∀ l ∈ links, ∃ c ∈ calls, c.id = l.child ∧ c.usage = l.usage

theorem repeats_nil : Repeats [] [] := by
  constructor <;> simp

theorem Repeats.cons {links : List Link} {l : Link} {c : Registration}
    (repeats : Repeats links calls) (named : c.id = l.child) (usage : c.usage = l.usage) :
    Repeats (l :: links) (c :: calls) where
  linkOf := by
    intro d member
    rcases List.mem_cons.mp member with rfl | member
    · exact ⟨l, List.mem_cons_self, named.symm, usage.symm⟩
    · obtain ⟨k, among, so⟩ := repeats.linkOf d member
      exact ⟨k, List.mem_cons_of_mem _ among, so⟩
  callOf := by
    intro k member
    rcases List.mem_cons.mp member with rfl | member
    · exact ⟨c, List.mem_cons_self, named, usage⟩
    · obtain ⟨d, among, so⟩ := repeats.callOf k member
      exact ⟨d, List.mem_cons_of_mem _ among, so⟩

/-- Links to what is stored are registrations. -/
theorem exists_repeats {links : List Link}
    (there : ∀ l ∈ links, ∃ c, r.component? l.child = some c ∧ c.id = l.child) :
    ∃ calls, links.foldl linkTo r = calls.foldl registerCall r ∧ Repeats links calls := by
  induction links generalizing r with
  | nil => exact ⟨[], rfl, repeats_nil⟩
  | cons l links ih =>
    obtain ⟨here, there⟩ := List.forall_mem_cons.mp there
    obtain ⟨c, stored, named⟩ := here
    have step : r.linkTo l = r.registerCall ⟨{ component := c }, l.usage⟩ := by
      rw [linkTo, stored]
      rfl
    have kept : ∀ l' ∈ links, ∃ c', (r.linkTo l).component? l'.child = some c' ∧
        c'.id = l'.child := by
      intro l' member
      obtain ⟨c', stored', named'⟩ := there l' member
      refine ⟨c', ?_, named'⟩
      rw [step, component?_registerCall, stored']
      split <;> rfl
    obtain ⟨calls, runs, repeats⟩ := ih kept
    refine ⟨⟨{ component := c }, l.usage⟩ :: calls, ?_, repeats.cons named rfl⟩
    rw [List.foldl_cons, List.foldl_cons, runs, step]

theorem add_addFailure (g : Graph) (text : String) (s : Sighting) (parent : Option String) :
    (g.addFailure text).add s parent = (g.add s parent).addFailure text := by
  cases parent with
  | none => rfl
  | some parent =>
    have seen : (g.addFailure text).see s = (g.see s).addFailure text := rfl
    rw [Graph.add, Graph.add, seen, Graph.link, Graph.link, Graph.contains_addFailure]
    split
    · rfl
    · split
      · rfl
      · have order : ((g.see s).failures.add text).add (Graph.missingParent parent s.id) =
            ((g.see s).failures.add (Graph.missingParent parent s.id)).add text :=
          StringSet.ext fun x => by simp [Bool.or_left_comm]
        exact congrArg (fun failures => { g.see s with failures }) order

theorem addFailure_registerCall (r : FileRecorder) (text : String) (c : Registration) :
    (r.addFailure text).registerCall c = (r.registerCall c).addFailure text :=
  congrArg (fun graph => { r.store c.detected c.usage.framework with graph })
    (add_addFailure r.graph text (sighting c.id c.usage) c.usage.parent)

theorem addFailure_linkTo (r : FileRecorder) (text : String) (l : Link) :
    (r.addFailure text).linkTo l = (r.linkTo l).addFailure text := by
  have same : (r.addFailure text).component? l.child = r.component? l.child := rfl
  rw [linkTo, linkTo, same]
  cases r.component? l.child with
  | none => rfl
  | some c => exact addFailure_registerCall r text ⟨{ component := c }, l.usage⟩

def note (write : FileRecorder → α → FileRecorder) (r : FileRecorder) :
    Except String α → FileRecorder
  | .ok x => write r x
  | .error text => r.addFailure text

def writeAll (write : FileRecorder → α → FileRecorder) (said : List (Except String α))
    (r : FileRecorder) : FileRecorder :=
  said.foldl (note write) r

def failuresOf (said : List (Except String α)) : List String :=
  said.filterMap fun
    | .ok _ => none
    | .error text => some text

def writesOf (said : List (Except String α)) : List α := said.filterMap Except.toOption

theorem mem_failuresOf {said : List (Except String α)} {text : String} :
    text ∈ failuresOf said ↔ .error text ∈ said := by
  rw [failuresOf, List.mem_filterMap]
  constructor
  · rintro ⟨e, member, eq⟩
    cases e with
    | ok x => cases eq
    | error other =>
      cases eq
      exact member
  · exact fun member => ⟨_, member, rfl⟩

theorem mem_writesOf {said : List (Except String α)} {x : α} :
    x ∈ writesOf said ↔ .ok x ∈ said := by
  rw [writesOf, List.mem_filterMap]
  constructor
  · rintro ⟨e, member, eq⟩
    cases e with
    | ok other =>
      cases eq
      exact member
    | error text => cases eq
  · exact fun member => ⟨_, member, rfl⟩

theorem writeAll_append (write : FileRecorder → α → FileRecorder)
    (said said' : List (Except String α)) (r : FileRecorder) :
    writeAll write (said ++ said') r = writeAll write said' (writeAll write said r) :=
  List.foldl_append

/-- What is said in each step of a loop, one after another. -/
theorem foldl_eq_writeAll {β : Type v} {write : FileRecorder → α → FileRecorder}
    {step : FileRecorder → β → FileRecorder} {said : β → List (Except String α)}
    (one : ∀ r x, step r x = writeAll write (said x) r) (xs : List β) (r : FileRecorder) :
    xs.foldl step r = writeAll write (xs.flatMap said) r := by
  induction xs generalizing r with
  | nil => rfl
  | cons x xs ih =>
    rw [List.foldl_cons, ih, one, List.flatMap_cons, writeAll_append]

section Apart

variable {write : FileRecorder → α → FileRecorder}
  (apart : ∀ r text x, write (r.addFailure text) x = (write r x).addFailure text)

include apart

theorem foldl_foldl_addFailure (texts : List String) (xs : List α) (r : FileRecorder) :
    xs.foldl write (texts.foldl addFailure r) = texts.foldl addFailure (xs.foldl write r) := by
  have one (text : String) (xs : List α) (r : FileRecorder) :
      xs.foldl write (r.addFailure text) = (xs.foldl write r).addFailure text := by
    induction xs generalizing r with
    | nil => rfl
    | cons x xs ih => rw [List.foldl_cons, List.foldl_cons, apart, ih]
  induction texts generalizing r with
  | nil => rfl
  | cons text texts ih => rw [List.foldl_cons, List.foldl_cons, ih, one]

/-- Failures may as well be noted at the end. -/
theorem writeAll_eq (said : List (Except String α)) (r : FileRecorder) :
    writeAll write said r = (failuresOf said).foldl addFailure ((writesOf said).foldl write r) := by
  induction said generalizing r with
  | nil => rfl
  | cons said rest ih =>
    rw [writeAll, List.foldl_cons]
    cases said with
    | ok x => exact ih (write r x)
    | error text =>
      refine (ih (r.addFailure text)).trans ?_
      exact congrArg ((failuresOf rest).foldl addFailure)
        (foldl_foldl_addFailure apart [text] (writesOf rest) r)

end Apart

/-- The link is between registered components, and what it says of the child was said before. -/
structure Linkable (reports : List Registration) (l : Link) : Prop where
  parent : ∃ c ∈ reports, c.id = l.parent
  child : ∃ c ∈ reports, c.id = l.child
  development : ∀ value, l.development = some value →
    ∃ c ∈ reports, c.id = l.child ∧ c.usage.development = some value

/-- The first registration of an id. -/
theorem exists_find? (here : ∃ c ∈ reports, c.id = id) :
    ∃ c, reports.find? (·.id == id) = some c ∧ c.id = id := by
  obtain ⟨c, member, named⟩ := here
  have some : (reports.find? (·.id == id)).isSome = true :=
    List.find?_isSome.mpr ⟨c, member, by simpa using named⟩
  obtain ⟨first, found⟩ := Option.isSome_iff_exists.mp some
  exact ⟨first, found, by simpa using List.find?_some found⟩

structure Recorded (rule : DevelopmentRule) (reports : List Registration) (links : List Link)
    (failures : List String) (f : FileRecorder) : Prop where
  ids : ∀ id, f.graph.contains id = true ↔ ∃ c ∈ reports, c.id = id
  explicit : ∀ id, f.graph.isExplicit id = true ↔
    ∃ c ∈ reports, c.id = id ∧ c.usage.explicit = true
  development : ∀ id, f.graph.development? id =
    rule.effective ((ofId reports id).map (·.usage.development))
  component : ∀ id, f.component? id = (reports.find? (·.id == id)).map (·.detected.component)
  children : ∀ a b, f.graph.HasChild a b ↔ a ≠ b ∧ ∃ l ∈ links, l.parent = a ∧ l.child = b
  parents : ∀ a b, f.graph.HasParent b a ↔ a ≠ b ∧ ∃ l ∈ links, l.parent = a ∧ l.child = b
  failures : ∀ text, f.graph.failures.contains text = true ↔ text ∈ failures

namespace Recorded

variable {rule : DevelopmentRule} {links : List Link} {failures : List String}

/-- Failures are all that noting them adds. -/
theorem foldl_addFailure (recorded : Recorded rule reports links failures f) (texts : List String) :
    Recorded rule reports links (failures ++ texts) (texts.foldl addFailure f) := by
  induction texts generalizing f failures with
  | nil => rwa [List.append_nil]
  | cons text texts ih =>
    have one : Recorded rule reports links (failures ++ [text]) (f.addFailure text) :=
      { recorded with
        failures := fun x => by
          have added : (f.addFailure text).graph.failures.contains x =
              (text == x || f.graph.failures.contains x) := StringSet.contains_add ..
          rw [added, Bool.or_eq_true, recorded.failures, List.mem_append, List.mem_singleton,
            beq_iff_eq, or_comm, @eq_comm _ x] }
    have all := ih one
    rwa [List.append_assoc] at all

theorem addRelatedFile (recorded : Recorded rule reports links failures f) (path : String) :
    Recorded rule reports links failures (f.addRelatedFile path) :=
  { recorded with }

theorem addSibling (recorded : Recorded rule reports links failures f) (world : FileTree.World)
    (m : Manifest) (name : String) :
    Recorded rule reports links failures (m.addSibling world name f) := by
  unfold Manifest.addSibling
  split
  · split
    · exact recorded.addRelatedFile _
    · exact recorded
  · exact recorded

/-- A root that the graph has for a component is also one of what is seen of the component. -/
theorem containsId_roots_observe (recorded : Recorded rule reports links failures f) {d : Detected}
    {roots : StringSet} {top : String} (found : f.graph.explicitRoots d.id = .ok roots)
    (root : roots.contains top = true) (here : f.graph.contains top = true) (location : String) :
    (f.observe location d).roots.containsId top = true := by
  obtain ⟨c, stored, named⟩ : ∃ c, f.component? top = some c ∧ c.id = top := by
    obtain ⟨c, stored, named⟩ := exists_find? ((recorded.ids top).mp here)
    exact ⟨c.detected.component, by rw [recorded.component, stored, Option.map_some], named⟩
  have listed : c ∈ roots.toList.filterMap f.component? :=
    List.mem_filterMap.mpr ⟨top, StringSet.mem_toList.mpr root, stored⟩
  have added : (roots.toList.filterMap f.component?).any (·.id == top) = true :=
    List.any_eq_true.mpr ⟨c, listed, by simpa using named⟩
  rw [observe, found]
  dsimp only [Except.toOption, Option.getD_some]
  rw [ComponentSet.containsId_insertAll, added, Bool.or_true]

end Recorded

/-- No parent is looked for in vain: each is in the graph when its link has its turn. -/
def Supplied (r : FileRecorder) (links : List (Except String Link)) : Prop :=
  ∀ before l after, links = before ++ .ok l :: after →
    (writeAll linkTo before r).graph.contains l.parent = true

def manual (rule : DevelopmentRule) : FileRecorder := { graph := { manualRoots := true, rule } }

section Passes

variable {rule : DevelopmentRule} {links : List Link}
  (top : ∀ c ∈ reports, c.usage.parent = none) (linkable : ∀ l ∈ links, Linkable reports l)

theorem component?_reports (rule : DevelopmentRule) (reports : List Registration) (id : String) :
    (reports.foldl registerCall (manual rule)).component? id =
      (reports.find? (·.id == id)).map (·.detected.component) := by
  have empty : (manual rule).component? id = none := rfl
  rw [component?_foldl, empty, Option.none_or]

theorem exists_component?_reports (here : ∃ c ∈ reports, c.id = id) :
    ∃ c, (reports.foldl registerCall (manual rule)).component? id = some c ∧ c.id = id := by
  obtain ⟨first, found, named⟩ := exists_find? here
  refine ⟨first.detected.component, ?_, named⟩
  rw [component?_reports, found, Option.map_some]

theorem contains_reports (rule : DevelopmentRule) (reports : List Registration) (id : String) :
    (reports.foldl registerCall (manual rule)).graph.contains id = true ↔
      ∃ c ∈ reports, c.id = id := by
  have nothing : (manual rule).graph.contains id = false := rfl
  rw [(registered_foldl (manual rule) reports).ids, nothing]
  simp

include top in
/-- The first pass makes no edge and notes no failure. -/
theorem linked_reports : Linked (manual rule) [] (reports.foldl registerCall (manual rule)) := by
  have linked : Linked (manual rule) reports (reports.foldl registerCall (manual rule)) :=
    linked_foldl fun c member parent asks => by
      rw [top c member] at asks
      cases asks
  have nothing (a b : String) : ¬ ∃ c ∈ reports, c.addition.Asks a b := by
    rintro ⟨c, member, asks⟩
    cases (top c member).symm.trans asks.1
  constructor
  · intro a b
    rw [linked.children]
    simp [nothing]
  · intro a b
    rw [linked.parents]
    simp [nothing]
  · exact linked.failures

namespace Repeats

variable (repeats : Repeats links calls)

include repeats

/-- The edges that are asked for are those between the ends of a link. -/
theorem asks_iff (a b : String) : (∃ c ∈ calls, c.addition.Asks a b) ↔
    a ≠ b ∧ ∃ l ∈ links, l.parent = a ∧ l.child = b := by
  constructor
  · rintro ⟨c, member, parent, child, ne⟩
    obtain ⟨l, among, named, usage⟩ := repeats.linkOf c member
    have said : l.usage.parent = some a := usage ▸ parent
    exact ⟨ne, l, among, Option.some.inj said, named.trans child⟩
  · rintro ⟨ne, l, among, rfl, rfl⟩
    obtain ⟨c, member, named, usage⟩ := repeats.callOf l among
    exact ⟨c, member, congrArg Usage.parent usage, named, ne⟩

theorem not_explicit (c : Registration) (member : c ∈ calls) : ¬ c.usage.explicit = true := by
  obtain ⟨l, -, -, usage⟩ := repeats.linkOf c member
  rw [← usage]
  exact Bool.false_ne_true

include linkable

theorem parent_reported (c : Registration) (member : c ∈ calls) (parent : String)
    (asks : c.usage.parent = some parent) : ∃ c ∈ reports, c.id = parent := by
  obtain ⟨l, among, -, usage⟩ := repeats.linkOf c member
  rw [← usage] at asks
  cases asks
  exact (linkable l among).parent

theorem reported (c : Registration) (member : c ∈ calls) : ∃ d ∈ reports, d.id = c.id := by
  obtain ⟨l, among, child, -⟩ := repeats.linkOf c member
  exact child ▸ (linkable l among).child

/-- Links say nothing of a development use that was not said on the first pass. -/
theorem said_before (c : Registration) (member : c ∈ calls) (value : Bool)
    (said : c.usage.development = some value) :
    ∃ d ∈ reports, d.id = c.id ∧ d.usage.development = some value := by
  obtain ⟨l, among, child, usage⟩ := repeats.linkOf c member
  rw [← usage] at said
  exact child ▸ (linkable l among).development value said

end Repeats

include top linkable in
/-- Both passes, without failures in between. Together they are one list of registrations to a new
recorder, and the second one adds edges and nothing else. -/
theorem recorded_links : Recorded rule reports links []
    (links.foldl linkTo (reports.foldl registerCall (manual rule))) := by
  have there (l : Link) (member : l ∈ links) :
      ∃ c, (reports.foldl registerCall (manual rule)).component? l.child = some c ∧
        c.id = l.child :=
    exists_component?_reports (linkable l member).child
  obtain ⟨calls, runs, repeats⟩ := exists_repeats there
  have unlinked : Linked (manual rule) [] (reports.foldl registerCall (manual rule)) :=
    linked_reports top
  have linked : Linked (reports.foldl registerCall (manual rule)) calls
      (calls.foldl registerCall (reports.foldl registerCall (manual rule))) :=
    linked_foldl fun c member parent asks =>
      (contains_reports ..).mpr (repeats.parent_reported linkable c member parent asks)
  have whole : calls.foldl registerCall (reports.foldl registerCall (manual rule)) =
      (reports ++ calls).foldl registerCall (manual rule) := List.foldl_append.symm
  have all := registered_foldl (manual rule) (reports ++ calls)
  rw [runs]
  constructor
  case ids =>
    intro id
    rw [whole, contains_reports]
    constructor
    · rintro ⟨c, member, rfl⟩
      rcases List.mem_append.mp member with first | second
      · exact ⟨c, first, rfl⟩
      · exact repeats.reported linkable c second
    · rintro ⟨c, member, named⟩
      exact ⟨c, List.mem_append_left _ member, named⟩
  case explicit =>
    intro id
    have nothing : (manual rule).graph.marked id = false := rfl
    rw [whole, Graph.isExplicit_of_manualRoots (manualRoots_foldl ..), all.explicit, nothing,
      Bool.false_or, List.any_append, Bool.or_eq_true, List.any_eq_true, List.any_eq_true]
    simp only [Bool.and_eq_true, beq_iff_eq]
    exact or_iff_left fun ⟨c, member, _, explicit⟩ => repeats.not_explicit c member explicit
  case development =>
    intro id
    rw [whole, all.development]
    refine rule.effective_congr fun value => ?_
    simp only [List.mem_cons, List.mem_map, ofId, List.mem_filter, List.mem_append, beq_iff_eq]
    constructor
    · rintro (said | ⟨c, ⟨first | second, rfl⟩, said⟩)
      · cases said
      · exact ⟨c, ⟨first, rfl⟩, said⟩
      · obtain ⟨d, reported, same, said⟩ := repeats.said_before linkable c second value said
        exact ⟨d, ⟨reported, same⟩, said⟩
    · rintro ⟨c, ⟨first, named⟩, said⟩
      exact .inr ⟨c, ⟨.inl first, named⟩, said⟩
  case component =>
    intro id
    rw [whole, component?_reports, List.find?_append]
    cases found : reports.find? (·.id == id) with
    | some c => rfl
    | none =>
      -- What is linked was reported, so an id that is new to the second pass cannot be.
      rw [Option.none_or, List.find?_eq_none.mpr]
      intro c member named
      obtain ⟨d, reported, same⟩ := repeats.reported linkable c member
      exact List.find?_eq_none.mp found d reported (same ▸ named)
  case children =>
    intro a b
    rw [linked.children, unlinked.children, repeats.asks_iff]
    simp [Graph.HasChild, manual, Graph.node?]
  case parents =>
    intro a b
    rw [linked.parents, unlinked.parents, repeats.asks_iff]
    simp [Graph.HasParent, manual, Graph.node?]
  case failures =>
    intro text
    rw [linked.failures, unlinked.failures]
    simp [manual]

end Passes

section Noted

variable {rule : DevelopmentRule} {first : List (Except String Registration)}
  {second : List (Except String Link)}
  (top : ∀ c ∈ writesOf first, c.usage.parent = none)
  (linkable : ∀ l ∈ writesOf second, Linkable (writesOf first) l)

include top linkable

/-- Failures that are noted in between are there besides. -/
theorem recorded_of_passes :
    Recorded rule (writesOf first) (writesOf second) (failuresOf first ++ failuresOf second)
      (writeAll linkTo second (writeAll registerCall first (manual rule))) := by
  rw [writeAll_eq addFailure_linkTo, writeAll_eq addFailure_registerCall,
    foldl_foldl_addFailure addFailure_linkTo]
  exact ((recorded_links top linkable).foldl_addFailure _).foldl_addFailure _

theorem supplied_of_passes : Supplied (writeAll registerCall first (manual rule)) second := by
  intro before l after turn
  have split : writesOf second = writesOf before ++ l :: writesOf after := by
    rw [turn, writesOf, List.filterMap_append, List.filterMap_cons]
    rfl
  rw [split] at linkable
  have here : Recorded rule (writesOf first) (writesOf before)
      (failuresOf first ++ failuresOf before)
      (writeAll linkTo before (writeAll registerCall first (manual rule))) :=
    recorded_of_passes top fun l member => linkable l (List.mem_append_left _ member)
  exact (here.ids _).mpr (linkable l (List.mem_append_right _ List.mem_cons_self)).parent

end Noted

/-- The first pass alone. -/
theorem recorded_of_pass {rule : DevelopmentRule} {said : List (Except String Registration)}
    (top : ∀ c ∈ writesOf said, c.usage.parent = none) :
    Recorded rule (writesOf said) [] (failuresOf said)
      (writeAll registerCall said (manual rule)) := by
  have recorded := @recorded_of_passes rule said [] top (by simp [writesOf])
  have none : failuresOf ([] : List (Except String Link)) = [] := rfl
  rwa [none, List.append_nil] at recorded

end Inventory.FileRecorder
