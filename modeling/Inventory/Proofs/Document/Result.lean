import Inventory.Document.Result
import Inventory.Proofs.Document.Component
import Inventory.Proofs.FileTree.Write
import Inventory.Proofs.Instant.Text

/-! A scan result is read back from the text in which it is kept, with the time that the text
names. -/
namespace Inventory

open Json

theorem Outcome.ofJson?_label (o : Outcome) : Outcome.ofJson? (.string o.label) = some o := by
  cases o <;> decide

namespace DetectorInfo

theorem ecosystem?_label (e : Ecosystem) : ecosystem? (.string e.label) = some e :=
  Component.ofLabel?_label e

theorem natBelow?_nat {n bound : Nat} (small : n < bound) : natBelow? bound (nat n) = some n := by
  simp [nat, natBelow?, small]

theorem ofJson?_toJson {d : DetectorInfo} (small : d.version < Word.limit32) :
    ofJson? d.toJson = some d := by
  have found : d.toJson.fields?
      ["detectorId", "isExperimental", "version", "supportedComponentTypes"] =
        some ⟨d.members.map fun m => (m.1, some m.2), false⟩ :=
    fields?_object (show (d.members.map (·.1)).Nodup by simp [members])
  obtain ⟨f, fields⟩ : ∃ f, Fields.mk (d.members.map fun m => (m.1, some m.2)) false = f := ⟨_, rfl⟩
  rw [fields] at found
  have id : f.required "detectorId" string? = some d.id := by
    rw [← fields]
    rfl
  have experimental : f.required "isExperimental" bool? = some d.experimental := by
    rw [← fields]
    rfl
  have version : f.required "version" (natBelow? Word.limit32) = some d.version := by
    have here : f.get? "version" = some (nat d.version) := by
      rw [← fields]
      rfl
    rw [required_of_get? here, natBelow?_nat small]
  have labels : list? ecosystem? (.strings (d.ecosystems.map (·.label))) = some d.ecosystems := by
    rw [strings, List.map_map]
    exact list?_array fun e _ => ecosystem?_label e
  have ecosystems : f.required "supportedComponentTypes" (list? ecosystem?) = some d.ecosystems :=
    (required_of_get? (by rw [← fields]; rfl)).trans labels
  rw [ofJson?, found]
  simp only [Option.bind_eq_bind, Option.bind_some, id, experimental, version, ecosystems]
  rfl

theorem version_lt_of_ofJson? {d : DetectorInfo} {j : Json} (read : ofJson? j = some d) :
    d.version < Word.limit32 := by
  simp only [ofJson?, Option.bind_eq_bind, Option.bind_eq_some_iff] at read
  obtain ⟨f, _, id, _, experimental, _, version, found, ecosystems, _, made⟩ := read
  cases made
  obtain ⟨json, _, small⟩ := Option.bind_eq_some_iff.mp found
  unfold natBelow? at small
  split at small
  · obtain ⟨bounds, same⟩ := Option.ite_none_right_eq_some.mp small
    simp only [Bool.and_eq_true, decide_eq_true_eq] at bounds
    have here := Option.some.inj same
    dsimp only
    omega
  · cases small

end DetectorInfo

namespace GraphSummary

theorem ofJson?_toJson (g : GraphSummary) : ofJson? g.toJson = some g := by
  have found : g.toJson.fields?
      ["graph", "explicitlyReferencedComponentIds", "developmentDependencies"] =
        some ⟨g.members.map fun m => (m.1, some m.2), false⟩ :=
    fields?_object (show (g.members.map (·.1)).Nodup by simp [members])
  obtain ⟨f, fields⟩ : ∃ f, Fields.mk (g.members.map fun m => (m.1, some m.2)) false = f := ⟨_, rfl⟩
  rw [fields] at found
  have edges : f.required "graph" (map? stringSet?) = some g.edges :=
    (required_of_get? (by rw [← fields]; rfl)).trans
      (map?_object fun e _ => stringSet?_strings e.2)
  have explicit : f.required "explicitlyReferencedComponentIds" stringSet? = some g.explicit :=
    (required_of_get? (by rw [← fields]; rfl)).trans (stringSet?_strings g.explicit)
  have development : f.required "developmentDependencies" stringSet? = some g.development :=
    (required_of_get? (by rw [← fields]; rfl)).trans (stringSet?_strings g.development)
  rw [ofJson?, found]
  simp only [Option.bind_eq_bind, Option.bind_some, edges, explicit, development]
  rfl

end GraphSummary

namespace ScanResult

/-- The numbers of the result are such as its types hold, and its year has four digits. -/
structure InRange (r : ScanResult) : Prop where
  time : r.time.InRange
  year : r.time.HasPlainYear
  versions : ∀ d ∈ r.detectors ++ r.disabled, d.version < Word.limit32

structure Valid (r : ScanResult) : Prop extends InRange r where
  leap : 1000000000 ≤ r.time.nanosecond → r.time.second % 60 = 59

variable {r : ScanResult}

theorem ofJson?_toJson (valid : r.Valid) : ofJson? r.toJson = some r := by
  have found : r.toJson.fields? fieldNames =
      some ⟨r.members.map fun m => (m.1, some m.2), false⟩ :=
    fields?_object (show (r.members.map (·.1)).Nodup by simp [members])
  obtain ⟨f, fields⟩ : ∃ f, Fields.mk (r.members.map fun m => (m.1, some m.2)) false = f := ⟨_, rfl⟩
  rw [fields] at found
  have correlationId : f.required "correlationId" string? = some r.correlationId := by
    rw [← fields]
    rfl
  have time : f.required "scanTime" (fun time => time.string?.bind Instant.ofText?) =
      some r.time := by
    have here : f.get? "scanTime" = some (.string r.time.text) := by
      rw [← fields]
      rfl
    have text : (Json.string r.time.text).string? = some r.time.text := rfl
    have instant : r.time.Valid := ⟨valid.time, valid.leap⟩
    rw [required_of_get? here, text, Option.bind_some, Instant.ofText?_text instant valid.year]
  have source : f.required "sourceDirectory" string? = some r.source := by
    rw [← fields]
    rfl
  have outcome : f.required "resultCode" Outcome.ofJson? = some r.outcome :=
    (required_of_get? (by rw [← fields]; rfl)).trans r.outcome.ofJson?_label
  have components : f.required "componentsFound" (list? (Detected.ofJson? 2)) =
      some r.components :=
    (required_of_get? (by rw [← fields]; rfl)).trans
      (list?_array fun d _ => Detected.ofJson?_toJson (by decide) d)
  have detectors : f.required "detectorsInScan" (list? DetectorInfo.ofJson?) = some r.detectors :=
    (required_of_get? (by rw [← fields]; rfl)).trans (list?_array fun d member =>
      DetectorInfo.ofJson?_toJson (valid.versions d (List.mem_append_left _ member)))
  have disabled : f.defaulted "detectorsNotInScan" (list? DetectorInfo.ofJson?) [] =
      some r.disabled :=
    defaulted_of_get? (by rw [← fields]; rfl) (list?_array fun d member =>
      DetectorInfo.ofJson?_toJson (valid.versions d (List.mem_append_right _ member)))
  have graphs : f.required "dependencyGraphs" (map? GraphSummary.ofJson?) = some r.graphs :=
    (required_of_get? (by rw [← fields]; rfl)).trans
      (map?_object fun e _ => GraphSummary.ofJson?_toJson e.2)
  rw [ofJson?, found]
  simp only [Option.bind_eq_bind, Option.bind_some, correlationId, time, source, outcome,
    components, detectors, disabled, graphs]
  rfl

end ScanResult

namespace Json

variable {members : List (String × Option Json)} {j : Json} {α : Type u}

theorem plain_objectOf (plain : ∀ m ∈ members, ∀ j, m.2 = some j → Plain j) :
    Plain (objectOf members) := by
  refine .object fun m member => ?_
  obtain ⟨⟨name, value⟩, there, made⟩ := List.mem_filterMap.mp member
  obtain ⟨json, rfl, rfl⟩ := Option.map_eq_some_iff.mp made
  exact plain _ there json rfl

theorem plain_some (plain : Plain j) : ∀ k, some j = some k → Plain k := by
  rintro k ⟨⟩
  exact plain

theorem plain_map {write : α → Json} (plain : ∀ a, Plain (write a)) (value : Option α) :
    ∀ k, value.map write = some k → Plain k := by
  intro k made
  obtain ⟨a, -, rfl⟩ := Option.map_eq_some_iff.mp made
  exact plain a

theorem plain_array {write : α → Json} {l : List α} (plain : ∀ a ∈ l, Plain (write a)) :
    Plain (.array (l.map write)) := by
  refine .array fun j member => ?_
  obtain ⟨a, there, rfl⟩ := List.mem_map.mp member
  exact plain a there

theorem plain_strings (xs : List String) : Plain (strings xs) := plain_array fun s _ => .string s

theorem plain_entries {write : α → Json} (plain : ∀ a, Plain (write a)) (m : SortedMap α) :
    Plain (.object (m.map write).entries) := by
  refine .object fun e member => ?_
  obtain ⟨entry, -, rfl⟩ := List.mem_map.mp member
  exact plain entry.2

end Json

theorem Component.plain_toJson (c : Component) : Json.Plain c.toJson := by
  refine plain_objectOf (List.forall_mem_cons.mpr ⟨plain_some (.string _), ?_⟩)
  intro m member j here
  obtain ⟨s, rfl⟩ := Component.ofTexts_members c m member j here
  exact .string s

namespace Detected

theorem plain_nonempty {α : Type} {j : Json} (m : SortedMap α) (plain : Json.Plain j) :
    ∀ k, nonempty m j = some k → Json.Plain k := by
  unfold nonempty
  split
  next => exact fun _ none => by cases none
  next => exact plain_some plain

theorem plain_toJson (d : Detected) : Json.Plain d.toJson := by
  apply plain_objectOf
  simp only [members, List.forall_mem_cons]
  refine ⟨plain_some d.component.plain_toJson, plain_some (plain_strings _),
    plain_some (plain_array fun c _ => c.plain_toJson), plain_map .bool _,
    plain_map (fun _ => .string _) _, plain_some (.bool _), plain_nonempty _ (plain_strings _),
    plain_nonempty _ (plain_strings _), plain_nonempty _ (plain_entries .string _), ?_⟩
  exact fun _ none => by cases none

end Detected

theorem DetectorInfo.plain_toJson {d : DetectorInfo} (small : d.version < Word.limit32) :
    Json.Plain d.toJson := by
  have inRange : d.version < Decimal.doubleLimit := small.trans (by decide +kernel)
  refine .object ?_
  simp only [members, List.forall_mem_cons]
  refine ⟨.string _, .bool _, .int (by simpa using inRange), plain_strings _, ?_⟩
  exact fun _ none => by cases none

theorem GraphSummary.plain_toJson (g : GraphSummary) : Json.Plain g.toJson := by
  refine .object ?_
  simp only [members, List.forall_mem_cons]
  refine ⟨plain_entries (fun _ => plain_strings _) _, plain_strings _, plain_strings _, ?_⟩
  exact fun _ none => by cases none

theorem ScanResult.plain_toJson {r : ScanResult} (valid : r.Valid) : Json.Plain r.toJson := by
  refine .object ?_
  simp only [members, List.forall_mem_cons]
  refine ⟨.string _, .string _, .string _, .string _, plain_array fun d _ => d.plain_toJson,
    plain_array fun d member =>
      DetectorInfo.plain_toJson (valid.versions d (List.mem_append_left _ member)),
    plain_array fun d member =>
      DetectorInfo.plain_toJson (valid.versions d (List.mem_append_right _ member)),
    plain_entries GraphSummary.plain_toJson _, ?_⟩
  exact fun _ none => by cases none

theorem ScanResult.ofText?_of_valid {r : ScanResult} (valid : r.Valid) :
    ofText? r.text = some r := by
  rw [ofText?, text, read?_pretty (plain_toJson valid), Option.bind_some, ofJson?_toJson valid]

theorem ScanResult.InRange.valid_settled {r : ScanResult} (inRange : r.InRange) :
    Valid { r with time := r.time.settled } where
  time := inRange.time.valid_settled.toInRange
  year := by
    rw [Instant.HasPlainYear, Instant.day_settled]
    exact inRange.year
  versions := inRange.versions
  leap := inRange.time.valid_settled.leap

theorem ScanResult.ofText?_of_inRange {r : ScanResult} (inRange : r.InRange) :
    ofText? r.text = some { r with time := r.time.settled } := by
  have same : text { r with time := r.time.settled } = r.text := by
    simp only [text, toJson, members, inRange.time.text_settled]
  rw [← same, ofText?_of_valid inRange.valid_settled]

/-- The year apart, every result that is read from a text is valid. -/
theorem ScanResult.valid_of_ofText? {s : String} {r : ScanResult} (read : ofText? s = some r)
    (plain : r.time.HasPlainYear) : r.Valid := by
  obtain ⟨json, _, read⟩ := Option.bind_eq_some_iff.mp read
  simp only [ofJson?, Option.bind_eq_bind, Option.bind_eq_some_iff] at read
  obtain ⟨f, _, id, _, time, clock, source, _, outcome, _, components, _, detectors, ran, disabled,
    kept, graphs, _, made⟩ := read
  cases made
  obtain ⟨_, _, clock⟩ := Option.bind_eq_some_iff.mp clock
  obtain ⟨_, _, clock⟩ := Option.bind_eq_some_iff.mp clock
  obtain ⟨_, _, ran⟩ := Option.bind_eq_some_iff.mp ran
  have valid := Instant.valid_of_ofText? clock
  refine ⟨⟨valid.toInRange, plain, fun d member => ?_⟩, valid.leap⟩
  rcases List.mem_append.mp member with active | left
  · exact forall_mem_of_list? (fun _ _ => DetectorInfo.version_lt_of_ofJson?) ran d active
  · unfold Fields.defaulted at kept
    split at kept
    · exact forall_mem_of_list? (fun _ _ => DetectorInfo.version_lt_of_ofJson?) kept d left
    · cases kept
      cases left

/-- Whatever text a result was read from, it is read back from its own. -/
theorem ScanResult.ofText?_text_of_read {s : String} {r : ScanResult} (read : ofText? s = some r)
    (plain : r.time.HasPlainYear) : ofText? r.text = some r :=
  ofText?_of_valid (valid_of_ofText? read plain)

namespace ScanResult

open FileTree

variable {r : ScanResult} {world world' : World} {path : String}

/-- The folders that are made for the file do not keep its text from being read from it. -/
theorem read?_writeTo (wf : world.top.WellFormed) (written : r.writeTo path world = .ok world') :
    world'.read? path = .ok r.text := by
  unfold writeTo at written
  cases made : world.makeFolderFor path with
  | error e => simp [made, bind, Except.bind] at written
  | ok ready =>
    rw [made] at written
    exact World.read?_write (World.wellFormed_makeFolderFor wf made) written

/-- A result is read back from its text and from every file that it was written to, equal in all
that it holds but the time of a leap second that does not end its minute, which the text takes for
the next second. -/
theorem readBack (inRange : r.InRange) :
    ofText? r.text = some { r with time := r.time.settled } ∧
    (∀ (path : String) (world world' : World), world.top.WellFormed →
      r.writeTo path world = .ok world' → ∃ text, world'.read? path = .ok text ∧
        ofText? text = some { r with time := r.time.settled }) ∧
    (r.time.settled = r.time ↔ (1000000000 ≤ r.time.nanosecond → r.time.second % 60 = 59)) :=
  ⟨ofText?_of_inRange inRange, fun _ _ _ wf written =>
    ⟨r.text, read?_writeTo wf written, ofText?_of_inRange inRange⟩, Instant.settled_eq_iff⟩

def twoRoots : ScanResult where
  correlationId := "scan"
  time := ⟨19782, 86399, 1250000000⟩
  source := "/work"
  outcome := .success
  components := [
    { component := .cargo "serde" "1.0.0" none
      filePaths := .ofList ["Cargo.lock"]
      roots := .ofList [.npm "left" "1.0.0" (some "hash"), .maven "group" "artifact" "2.0"]
      development := some false
      scope := some .compile
      detectorIds := .ofList ["cargo"]
      metadata := .ofList [("source", "registry")] },
    { component := .pip "Flask" "3.0" none (some "BSD"), explicit := true }]
  detectors := [⟨"cargo", false, 2, [.cargo]⟩]
  disabled := []
  graphs := .ofList [("Cargo.lock", { explicit := .ofList ["serde 1.0.0 - cargo"] })]

theorem inRange_twoRoots : twoRoots.InRange where
  time := ⟨by decide, by decide⟩
  year := ⟨by decide, by decide⟩
  versions := by decide

def emptyWorld : World := ⟨.folder [], []⟩

theorem writeTo_emptyWorld (r : ScanResult) : r.writeTo "scan.json" emptyWorld =
    .ok ⟨.folder [("scan.json", .file (some r.text))], []⟩ := by
  have parent : Path.parent? "scan.json" = some "" := by decide +kernel
  have written : emptyWorld.write "scan.json" r.text = .ok _ :=
    World.write_new (by decide +kernel) (by decide) _
  rw [writeTo, World.makeFolderFor, parent]
  simp only [bind, Except.bind]
  rw [written]

theorem readBack_twoRoots : twoRoots.InRange ∧ emptyWorld.top.WellFormed ∧
    (ofText? twoRoots.text = some twoRoots ∧ ∃ text,
      World.read? ⟨.folder [("scan.json", .file (some twoRoots.text))], []⟩ "scan.json" =
        .ok text ∧ ofText? text = some twoRoots) :=
  have known := readBack inRange_twoRoots
  ⟨inRange_twoRoots, .empty, known.1, known.2.1 _ _ _ .empty (writeTo_emptyWorld twoRoots)⟩

/-- The same result in a leap second within a minute. -/
def withinMinute : ScanResult := { twoRoots with time := ⟨19782, 86164, 1333333333⟩ }

theorem withinMinute_runs_on : withinMinute.InRange ∧
    ofText? withinMinute.text =
      some { withinMinute with time := ⟨19782, 86165, 333333333⟩ } ∧
    ofText? withinMinute.text ≠ some withinMinute := by
  have inRange : withinMinute.InRange :=
    ⟨⟨by decide, by decide⟩, inRange_twoRoots.year, inRange_twoRoots.versions⟩
  have read : ofText? withinMinute.text =
      some { withinMinute with time := ⟨19782, 86165, 333333333⟩ } :=
    ofText?_of_inRange inRange
  refine ⟨inRange, read, fun same => ?_⟩
  have times := congrArg ScanResult.time (Option.some.inj (read.symm.trans same))
  exact absurd times (by decide)

end ScanResult

end Inventory
