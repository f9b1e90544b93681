import Inventory.Proofs.Recorder.Flattening
import Inventory.Proofs.Scan.Order

/-! What a result says of development use. The merge rule settles the flag of a component, while a
location lists an id as soon as one of its manifests says that it is needed for development only.
The two differ where another manifest overrules this one. -/
namespace Inventory

namespace DevelopmentRule

variable {rule : DevelopmentRule} {flags : List (Option Bool)}

/-- Some of the flags is for development use, and the rule lets another one count. -/
def Overruled (rule : DevelopmentRule) (flags : List (Option Bool)) : Prop :=
  rule = productionWins ∧ some true ∈ flags ∧ some false ∈ flags

theorem effective_eq_true_iff : rule.effective flags = some true ↔
    some true ∈ flags ∧ ¬ rule.Overruled flags := by
  rw [effective, foldl_merge_eq_some_iff]
  cases rule with
  | productionWins => simpa [Overruled, preferred] using Or.inl
  | developmentWins => simp [Overruled, preferred]

/-- The rule and the flags that are for development use agree unless one of these is overruled. -/
theorem agrees_iff_not_overruled :
    (some true ∈ flags ↔ rule.effective flags = some true) ↔ ¬ rule.Overruled flags := by
  rw [effective_eq_true_iff]
  constructor
  · rintro agrees ⟨production, listed, other⟩
    exact (agrees.mp listed).2 ⟨production, listed, other⟩
  · intro kept
    simp only [kept, not_false_eq_true, and_true]

end DevelopmentRule

variable {a : ScanArguments} {contributions : List Contribution} {location : String}
  {s : GraphSummary} {c : Detected} {x : String}

def flagsAt (a : ScanArguments) (contributions : List Contribution) (location x : String) :
    List (Option Bool) :=
  (graphsAt a contributions location).map (·.development? x)

def allFlags (contributions : List Contribution) (x : String) : List (Option Bool) :=
  contributions.flatMap fun c => c.recorder.files.entries.map fun e => e.2.graph.development? x

def ScanResult.OnlyAt (r : ScanResult) (location x : String) : Prop :=
  ∀ other s, r.graphs.get? other = some s → s.edges.contains x = true → other = location

theorem some_mem_allFlags {value : Bool} : some value ∈ allFlags contributions x ↔
    ∃ path f, HasFile contributions path f ∧ f.graph.development? x = some value := by
  simp only [allFlags, List.mem_flatMap, List.mem_map, Prod.exists, HasFile,
    ← SortedMap.get?_eq_some_iff]
  constructor
  · rintro ⟨c, member, path, f, file, said⟩
    exact ⟨path, f, ⟨c, member, file⟩, said⟩
  · rintro ⟨path, f, ⟨c, member, file⟩, said⟩
    exact ⟨c, member, path, f, file, said⟩

theorem listed_iff_mem_flagsAt
    (found : (summarizeGraphs a contributions).get? location = some s)
    (here : s.edges.contains x = true) :
    s.development.contains x = true ↔ some true ∈ flagsAt a contributions location x := by
  have sums := sums_of_get? found
  rw [sums.development, and_iff_right ((sums.ids x).mp here).1, flagsAt, List.mem_map]

section Sound

variable {admits : Detected → Prop} (steady : ∀ d frameworks, admits d → admits { d with frameworks })
  (filled : FilledWith admits contributions)
  (rules : ∀ c ∈ contributions, c.recorder.rule = a.rule)

include steady filled rules in
/-- The flag of a component is what all manifests say of it together. -/
theorem development_of_mem_mergedComponents (member : c ∈ mergedComponents a contributions) :
    c.development = a.rule.effective (allFlags contributions c.id) := by
  have kept := ignores_of_mem_mergedComponents member
  rw [(Detected.combined_of_mem_mergeAll member).development, allFlags, a.rule.effective_flatMap]
  refine a.rule.effective_congr fun value => ?_
  simp only [List.mem_map, List.mem_filter, List.mem_flatMap, beq_iff_eq]
  have flags (source : Contribution) (origin : source ∈ contributions) {m : Detected}
      (known : m ∈ source.recorder.detected) : m.development =
        a.rule.effective (source.recorder.files.entries.map (·.2.graph.development? m.id)) := by
    rw [← rules source origin]
    exact Recorder.development_of_mem_detected ((filled source origin).sound steady) known
  constructor
  · rintro ⟨d, ⟨⟨source, origin, found⟩, same⟩, said⟩
    obtain ⟨m, known, _, rfl⟩ := mem_detected.mp found
    have same : m.id = c.id := same
    exact ⟨source, origin, same ▸ (flags source origin known).symm.trans said⟩
  · rintro ⟨source, origin, said⟩
    -- A flag that is known was said by some manifest, so the recorder has the component.
    obtain ⟨e, entry, known⟩ := List.mem_map.mp (a.rule.mem_of_effective said)
    obtain ⟨m, found, same⟩ :=
      (Recorder.exists_mem_detected_iff ((filled source origin).sound steady)).mpr ⟨e.1, e.2,
        SortedMap.get?_eq_some_iff.mpr entry, Graph.contains_of_development known⟩
    exact ⟨m.located a.source source.detector, ⟨⟨source, origin,
      mem_detected.mpr ⟨m, found, same ▸ kept, rfl⟩⟩, same⟩,
      (flags source origin found).trans (same ▸ said)⟩

include steady filled rules in
/-- A component of one location has the flag that the rule settles for this location. -/
theorem development_of_onlyAt (member : c ∈ mergedComponents a contributions)
    (only : ∀ other s, (summarizeGraphs a contributions).get? other = some s →
      s.edges.contains c.id = true → other = location) :
    c.development = a.rule.effective (flagsAt a contributions location c.id) := by
  have kept := ignores_of_mem_mergedComponents member
  rw [development_of_mem_mergedComponents steady filled rules member]
  refine a.rule.effective_congr fun value => ?_
  rw [some_mem_allFlags, flagsAt, List.mem_map]
  constructor
  · rintro ⟨path, f, file, said⟩
    have node := Graph.contains_of_development said
    have among := graph_mem_graphsAt (a := a) file (Graph.isEmpty_eq_false node)
    obtain ⟨t, found⟩ := exists_summary among
    have there := only _ t found (((sums_of_get? found).ids c.id).mpr ⟨kept, _, among, node⟩)
    exact ⟨f.graph, there ▸ among, said⟩
  · rintro ⟨g, among, said⟩
    obtain ⟨path, f, file, _, rfl, _⟩ := mem_graphsAt.mp among
    exact ⟨path, f, file, said⟩

end Sound

/-- A location lists an id that some manifest there says is for development only. This is what the
merge rule settles, and what a component of this location alone says, unless it is overruled. -/
theorem development_listed_iff (a : ScanArguments) (correlationId : String) (time : Instant)
    (outcome : Outcome) (detectors : List DetectorInfo) (contributions : List Contribution)
    (filled : FilledWith (fun _ => True) contributions)
    (rules : ∀ c ∈ contributions, c.recorder.rule = a.rule) :
    let result := assemble a correlationId time outcome detectors contributions
    ∀ location s, result.graphs.get? location = some s → ∀ x, s.edges.contains x = true →
      let flags := flagsAt a contributions location x
      (s.development.contains x = true ↔ some true ∈ flags) ∧
        ((s.development.contains x = true ↔ a.rule.effective flags = some true) ↔
          ¬ a.rule.Overruled flags) ∧
        ∀ c ∈ result.components, c.id = x → result.OnlyAt location x →
          ((s.development.contains x = true ↔ c.development = some true) ↔
            ¬ a.rule.Overruled flags) := by
  intro result location s found x here flags
  have listed : s.development.contains x = true ↔ some true ∈ flags :=
    listed_iff_mem_flagsAt found here
  refine ⟨listed, ?_, ?_⟩
  · rw [listed]
    exact DevelopmentRule.agrees_iff_not_overruled
  · rintro c member rfl only
    have settled : c.development = a.rule.effective flags :=
      development_of_onlyAt (fun _ _ => id) filled rules member only
    rw [listed, settled]
    exact DevelopmentRule.agrees_iff_not_overruled

/-- Two detectors read one lock file. The first takes an application to be for development only, the
second for production. -/
def TwoFlags (r r' : Recorder) : Prop :=
  ({} : Recorder).register "/src/package-lock.json" { component := .npm "app" "1" none }
      { development := some true } = .ok r ∧
    ({} : Recorder).register "/src/package-lock.json" { component := .npm "app" "1" none }
      { development := some false } = .ok r'

theorem TwoFlags.filled {r r' : Recorder} (both : TwoFlags r r') :
    FilledWith (fun _ => True) [⟨"First", r⟩, ⟨"Second", r'⟩] := by
  intro c member
  rcases List.mem_pair.mp member with rfl | rfl
  · exact .register (.new true .productionWins) trivial both.1
  · exact .register (.new true .productionWins) trivial both.2

theorem development_listed_iff_of_twoFlags : ∃ r r' : Recorder, TwoFlags r r' ∧
    let a : ScanArguments := { source := "/src" }
    let contributions : List Contribution := [⟨"First", r⟩, ⟨"Second", r'⟩]
    let flags := flagsAt a contributions "/package-lock.json" "app 1 - Npm"
    ∃ s, (assemble a "" default .success [] contributions).graphs.get? "/package-lock.json" =
        some s ∧
      ((s.development.contains "app 1 - Npm" = true ↔ a.rule.effective flags = some true) ↔
        ¬ a.rule.Overruled flags) := by
  have both : TwoFlags _ _ := ⟨rfl, rfl⟩
  refine ⟨_, _, both, ?_⟩
  intro a contributions flags
  have rules : ∀ c ∈ contributions, c.recorder.rule = a.rule := by
    intro c member
    rcases List.mem_pair.mp member with rfl | rfl <;> rfl
  have node : ((assemble a "" default .success [] contributions).graphs.get?
      "/package-lock.json").any (·.edges.contains "app 1 - Npm") = true := by decide +kernel
  obtain ⟨s, found, here⟩ := (Option.any_eq_true ..).mp node
  exact ⟨s, found, (development_listed_iff a "" default .success [] contributions both.filled
    rules _ s found _ here).2.1⟩

/-- The rule lets production count and so does the component, but the location lists it. -/
theorem overruled_flag_listed : ∃ r r' : Recorder, TwoFlags r r' ∧
    let a : ScanArguments := { source := "/src" }
    let result := assemble a "" default .success [] [⟨"First", r⟩, ⟨"Second", r'⟩]
    a.rule.effective (flagsAt a [⟨"First", r⟩, ⟨"Second", r'⟩] "/package-lock.json" "app 1 - Npm") =
        some false ∧
      result.components.map (·.development) = [some false] ∧
      ((result.graphs.get? "/package-lock.json").any (·.development.contains "app 1 - Npm")) := by
  refine ⟨_, _, ⟨rfl, rfl⟩, ?_⟩
  decide +kernel

end Inventory
