import Inventory.Proofs.Scan.Order

/-! Leaving ids out of a scan is leaving them out of its result. They are dropped before components
are merged and while graphs are summed up, and both come to the same as dropping them afterwards. -/
namespace Inventory

namespace GraphSummary

def restrict (keep : String → Bool) (s : GraphSummary) : GraphSummary where
  edges := (s.edges.filterKeys keep).map (·.filterKeys keep)
  explicit := s.explicit.filterKeys keep
  development := s.development.filterKeys keep

variable {ignored keep : String → Bool} {graphs : List Graph} {s : GraphSummary} {x y : String}

theorem contains_edges_restrict :
    (s.restrict keep).edges.contains x = true ↔ keep x = true ∧ s.edges.contains x = true := by
  rw [restrict, SortedMap.contains_eq_isSome, SortedMap.contains_eq_isSome, SortedMap.get?_map,
    SortedMap.get?_filterKeys]
  cases keep x <;> simp

theorem hasEdge_restrict : (s.restrict keep).HasEdge x y ↔
    keep x = true ∧ keep y = true ∧ s.HasEdge x y := by
  rw [hasEdge_iff, hasEdge_iff, restrict, SortedMap.get?_map, SortedMap.get?_filterKeys]
  cases keep x with
  | false => simp
  | true => cases s.edges.get? x <;> simp

/-- A summary of whole graphs, restricted, sums up what is kept of them. -/
theorem Sums.restrict (sums : Sums (fun _ => false) graphs s) :
    Sums ignored graphs (s.restrict (!ignored ·)) where
  ids x := by
    rw [contains_edges_restrict, sums.ids, Bool.not_eq_true']
    simp only [true_and]
  edges x y := by
    rw [hasEdge_restrict, sums.edges, Bool.not_eq_true', Bool.not_eq_true']
    simp only [true_and]
  explicit x := by
    rw [GraphSummary.restrict, SortedMap.contains_filterKeys, Bool.and_eq_true, sums.explicit,
      Bool.not_eq_true']
    simp only [true_and]
  development x := by
    rw [GraphSummary.restrict, SortedMap.contains_filterKeys, Bool.and_eq_true, sums.development,
      Bool.not_eq_true']
    simp only [true_and]

end GraphSummary

theorem SortedMap.values_filterKeys {α : Type u} {m : SortedMap α} {f : α → String}
    (keyed : ∀ key value, m.get? key = some value → f value = key) (keep : String → Bool) :
    (m.filterKeys keep).values = m.values.filter (keep <| f ·) := by
  rw [values, values, filterKeys, List.filter_map]
  refine congrArg _ (List.filter_congr fun e member => ?_)
  exact (congrArg keep (keyed e.1 e.2 (get?_eq_some_iff.mpr member))).symm

namespace Detected

theorem filter_id_filter (keep : String → Bool) (ds : List Detected) (id : String) :
    (ds.filter (keep ·.id)).filter (·.id == id) =
      if keep id = true then ds.filter (·.id == id) else [] := by
  rw [List.filter_filter]
  split
  next kept =>
    refine List.filter_congr fun d _ => ?_
    by_cases same : d.id = id <;> simp [same, kept]
  next dropped =>
    refine List.filter_eq_nil_iff.mpr fun d _ => ?_
    rintro both
    obtain ⟨same, kept⟩ := Bool.and_eq_true_iff.mp both
    exact dropped (by simpa [← beq_iff_eq.mp same] using kept)

/-- Observations of different ids do not meet, so whole ids may be dropped before the merge. -/
theorem mergeAll_filter (rule : DevelopmentRule) (keep : String → Bool) (ds : List Detected) :
    mergeAll rule (ds.filter (keep ·.id)) = (mergeAll rule ds).filter (keep ·.id) := by
  have filed : (ds.filter (keep ·.id)).foldl (file rule) .empty =
      (ds.foldl (file rule) .empty).filterKeys keep := by
    refine SortedMap.ext_get? fun id => ?_
    rw [SortedMap.get?_filterKeys, get?_file, get?_file, filter_id_filter]
    split <;> rfl
  rw [mergeAll, filed, SortedMap.values_filterKeys fun _ _ => id_of_get?_file, mergeAll]

end Detected

/-- What a result says of the ids that are kept. What it says of a component stays whole. -/
def ScanResult.restrict (keep : String → Bool) (r : ScanResult) : ScanResult :=
  { r with
    components := r.components.filter (keep ·.id)
    graphs := r.graphs.map (·.restrict keep) }

def ScanArguments.ignoringNothing (a : ScanArguments) : ScanArguments := { a with ignored := [] }

variable {a : ScanArguments} {contributions : List Contribution}

theorem detected_eq_filter (c : Contribution) :
    c.detected a = (c.detected a.ignoringNothing).filter (!a.ignores ·.id) := by
  have all : c.recorder.detected.filter (!a.ignoringNothing.ignores ·.id) = c.recorder.detected :=
    List.filter_eq_self.mpr fun _ _ => rfl
  rw [Contribution.detected, Contribution.detected, all, List.filter_map]
  rfl

theorem mergedComponents_eq_filter : mergedComponents a contributions =
    (mergedComponents a.ignoringNothing contributions).filter (!a.ignores ·.id) := by
  have observed : contributions.flatMap (·.detected a) =
      (contributions.flatMap (·.detected a.ignoringNothing)).filter (!a.ignores ·.id) := by
    rw [List.filter_flatMap]
    exact List.flatMap_congr fun c _ => detected_eq_filter c
  rw [mergedComponents, observed]
  exact Detected.mergeAll_filter a.rule (!a.ignores ·) _

theorem summarizeGraphs_eq_restrict : summarizeGraphs a contributions =
    (summarizeGraphs a.ignoringNothing contributions).map (·.restrict (!a.ignores ·)) := by
  -- Ignoring takes no graph off a location.
  have graphs (location : String) : graphsAt a.ignoringNothing contributions location =
      graphsAt a contributions location := rfl
  refine SortedMap.ext_get? fun location => ?_
  rw [SortedMap.get?_map]
  cases whole : (summarizeGraphs a.ignoringNothing contributions).get? location with
  | none =>
    cases found : (summarizeGraphs a contributions).get? location with
    | none => rfl
    | some s =>
      obtain ⟨g, member⟩ := exists_mem_graphsAt found
      obtain ⟨_, there⟩ := exists_summary ((graphs location).symm ▸ member)
      exact absurd (whole.symm.trans there) (by simp)
  | some t =>
    obtain ⟨g, member⟩ := exists_mem_graphsAt whole
    obtain ⟨s, found⟩ := exists_summary (graphs location ▸ member)
    have restricted : GraphSummary.Sums a.ignores (graphsAt a contributions location)
        (t.restrict (!a.ignores ·)) := (sums_of_get? whole).restrict
    rw [found, (sums_of_get? found).eq restricted fun _ => Iff.rfl]
    rfl

/-- Whatever is ignored, the result is that of ignoring nothing without the ignored ids. -/
theorem assemble_eq_restrict (a : ScanArguments) (correlationId : String) (time : Instant)
    (outcome : Outcome) (detectors : List DetectorInfo) (contributions : List Contribution) :
    assemble a correlationId time outcome detectors contributions =
      (assemble a.ignoringNothing correlationId time outcome detectors contributions).restrict
        (!a.ignores ·) := by
  have components : Detected.mergeAll a.rule (contributions.flatMap (·.detected a)) = _ :=
    mergedComponents_eq_filter
  rw [assemble, components, summarizeGraphs_eq_restrict]
  rfl

end Inventory
