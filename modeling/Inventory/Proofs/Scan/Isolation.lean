import Inventory.Scan.Execution
import Mathlib.Data.List.Forall2

/-! What cannot disturb a scan. Neither the behaviour of detectors on trial nor what a detector
wrote before it failed reaches the result. It says of both that they ran, and of the second that it
failed. -/
namespace Inventory

namespace Outcome

structure IsWorst (outcomes : List Outcome) (o : Outcome) : Prop where
  bound : ∀ p ∈ outcomes, p.severity ≤ o.severity
  among : o ∈ outcomes ∨ (outcomes = [] ∧ o = success)

theorem eq_success_of_severity {o : Outcome} (least : o.severity = 0) : o = success := by
  cases o <;> simp_all [severity]

theorem isWorst_worse (a b : Outcome) : IsWorst [a, b] (worse a b) := by
  unfold worse
  split
  next le => exact ⟨by simpa using le, by simp⟩
  next gt => exact ⟨by simpa using Nat.le_of_not_le gt, by simp⟩

theorem isWorst_foldl (a : Outcome) (outcomes : List Outcome) :
    IsWorst (a :: outcomes) (outcomes.foldl worse a) := by
  induction outcomes generalizing a with
  | nil => exact ⟨by simp, by simp⟩
  | cons b outcomes ih =>
    obtain ⟨bound, among⟩ := ih (worse a b)
    obtain ⟨bound', among'⟩ := isWorst_worse a b
    constructor
    case bound =>
      intro p member
      rcases List.mem_append.mp (show p ∈ [a, b] ++ outcomes from member) with first | later
      · exact Nat.le_trans (bound' p first) (bound _ List.mem_cons_self)
      · exact bound p (List.mem_cons_of_mem _ later)
    case among =>
      refine .inl (show _ ∈ [a, b] ++ outcomes from List.mem_append.mpr ?_)
      rcases List.mem_cons.mp (among.resolve_right (by simp)) with here | later
      · exact .inl (here ▸ among'.resolve_right (by simp))
      · exact .inr later

theorem isWorst_worst (outcomes : List Outcome) : IsWorst outcomes (worst outcomes) := by
  obtain ⟨bound, among⟩ := isWorst_foldl success outcomes
  refine ⟨fun p member => bound p (List.mem_cons_of_mem _ member), ?_⟩
  rcases List.mem_cons.mp (among.resolve_right (by simp)) with best | member
  · -- Nothing is worse than success, so there is a success among them or there is nothing.
    cases outcomes with
    | nil => exact .inr ⟨rfl, best⟩
    | cons p rest =>
      have le : p.severity ≤ success.severity := best ▸ bound p (by simp)
      have same : p = success := eq_success_of_severity (Nat.le_zero.mp le)
      exact .inl (List.mem_cons.mpr (.inl (best.trans same.symm)))
  · exact .inl member

end Outcome

theorem Ending.outcome_of_failure {e : Ending} (failed : e.failure?.isSome = true) :
    e.outcome = .inputError := by
  cases e with
  | finished | hanging => cases failed
  | failed | panicked => rfl

namespace DetectorRun

theorem contribution_of_trial {run : DetectorRun} (trial : run.onTrial = true) :
    run.contribution = {} := by
  simp [contribution, trial]

theorem contribution_of_failure {run : DetectorRun} (failed : run.ending.failure?.isSome = true) :
    run.contribution = {} := by
  cases trial : run.onTrial <;> simp [contribution, discarded, trial, failed]

structure Alike (x y : DetectorRun) : Prop where
  info : x.info = y.info
  contributed : x.contributed = y.contributed
  onTrial : x.onTrial = y.onTrial
  outcome : x.onTrial = false → x.outcome = y.outcome

end DetectorRun

section Detectors

variable (world : FileTree.World) (a : ScanArguments) (r : Restrictions)

/-- The second detector is the first, or it behaves in another way where this must not matter:
on trial, or before it fails. -/
inductive Detector.Varies : Detector → Detector → Prop where
  | same (d : Detector) : Varies d d
  | onTrial (d : Detector) (run : FileTree.World → Request → Recorder → Recorder × Ending) :
      r.onTrial d = true → Varies d { d with run }
  | failing (d : Detector) (run : FileTree.World → Request → Recorder → Recorder × Ending) :
      (d.execute world a r).ending.failure?.isSome = true →
      (Detector.execute world a r { d with run }).ending.failure?.isSome = true →
      Varies d { d with run }

variable {world a r} {d d' : Detector} {detectors detectors' : List Detector}
  {runs runs' : List DetectorRun}

theorem Detector.Varies.alike (varies : Varies world a r d d') :
    (d.execute world a r).Alike (d'.execute world a r) := by
  cases varies with
  | same => exact ⟨rfl, rfl, rfl, fun _ => rfl⟩
  | onTrial run trial =>
    have none (d : Detector) (trial : r.onTrial d = true) :
        (d.execute world a r).contribution = {} := DetectorRun.contribution_of_trial trial
    constructor
    case info | onTrial => rfl
    case contributed =>
      exact congrArg (Contribution.mk d.id) ((none d trial).trans (none { d with run } trial).symm)
    case outcome =>
      intro stable
      exact absurd (trial.symm.trans stable) (by simp)
  | failing run failed failed' =>
    have none := DetectorRun.contribution_of_failure failed
    have none' := DetectorRun.contribution_of_failure failed'
    constructor
    case info | onTrial => rfl
    case contributed => exact congrArg (Contribution.mk d.id) (none.trans none'.symm)
    case outcome =>
      intro _
      exact (Ending.outcome_of_failure failed).trans (Ending.outcome_of_failure failed').symm

theorem runs_alike (varies : List.Forall₂ (Detector.Varies world a r) detectors detectors') :
    List.Forall₂ DetectorRun.Alike (runDetectors world a r detectors)
      (runDetectors world a r detectors') := by
  induction varies with
  | nil => exact .nil
  | cons first _ ih => exact .cons first.alike ih

/-- What is the same of two runs is the same of all. -/
theorem map_eq_of_alike {β : Type} {f : DetectorRun → β} (same : ∀ x y, x.Alike y → f x = f y)
    (alike : List.Forall₂ DetectorRun.Alike runs runs') : runs.map f = runs'.map f := by
  induction alike with
  | nil => rfl
  | cons first _ ih => rw [List.map_cons, List.map_cons, same _ _ first, ih]

def stableOutcomes (runs : List DetectorRun) : List Outcome :=
  (runs.filter (!·.onTrial)).map (·.outcome)

theorem stableOutcomes_eq_of_alike (alike : List.Forall₂ DetectorRun.Alike runs runs') :
    stableOutcomes runs = stableOutcomes runs' := by
  induction alike with
  | nil => rfl
  | @cons x y _ _ first _ ih =>
    unfold stableOutcomes at ih ⊢
    cases trial : x.onTrial with
    | true => simpa [trial, first.onTrial ▸ trial] using ih
    | false => simpa [trial, first.onTrial ▸ trial, first.outcome trial] using ih

/-- Detectors on trial and what was written before a failure do not reach the result. Its outcome is
the worst of the others, and a failure counts as bad input. -/
theorem assembleRuns_isolated (o o' : Occasion)
    (varies : List.Forall₂ (Detector.Varies world a r) detectors detectors') :
    let runs := runDetectors world a r detectors
    let result := assembleRuns a o runs
    let result' := assembleRuns a o' (runDetectors world a r detectors')
    (result.components = result'.components ∧ result.graphs = result'.graphs ∧
        result.outcome = result'.outcome ∧ result.detectors = result'.detectors) ∧
      Outcome.IsWorst (stableOutcomes runs) result.outcome ∧
        ∀ run ∈ runs, run.ending.failure?.isSome = true → run.outcome = .inputError := by
  intro runs result result'
  have alike : List.Forall₂ DetectorRun.Alike runs _ := runs_alike varies
  have contributed := map_eq_of_alike (fun _ _ same => same.contributed) alike
  have outcomes := stableOutcomes_eq_of_alike alike
  refine ⟨⟨?_, ?_, ?_, ?_⟩, Outcome.isWorst_worst _, fun run _ => Ending.outcome_of_failure⟩
  · exact congrArg (Detected.mergeAll a.rule <| ·.flatMap (·.detected a)) contributed
  · exact congrArg (summarizeGraphs a) contributed
  · exact congrArg Outcome.worst outcomes
  · exact map_eq_of_alike (fun _ _ same => same.info) alike

def Detector.always (id : String) (experimental : Bool) (write : Recorder → Recorder)
    (ending : Ending) : Detector where
  id := id
  version := 1
  categories := []
  ecosystems := []
  experimental := experimental
  run _ _ r := (write r, ending)

theorem assembleRuns_isolated_beside_good :
    let app (r : Recorder) := (r.register "/src/package.json"
      { component := .npm "app" "1" none } { explicit := true }).toOption.getD r
    let detectors (write : Recorder → Recorder) (ending : Ending) : List Detector :=
      [.always "Good" false app (.finished .success .empty), .always "Beta" true write ending,
        .always "Broken" false write (.failed ["no lock file"])]
    let scan (detectors : List Detector) :=
      assembleRuns { source := "/src" } ⟨"", default⟩
        (runDetectors default { source := "/src" } {} detectors)
    (scan (detectors app .hanging)).components =
        (scan (detectors id (.panicked none))).components ∧
      (scan (detectors app .hanging)).outcome = .inputError := by
  intro app detectors scan
  have varies : List.Forall₂ (Detector.Varies default { source := "/src" } {})
      (detectors app .hanging) (detectors id (.panicked none)) :=
    .cons (.same _) (.cons (.onTrial (.always "Beta" true app .hanging) _ rfl)
      (.cons (.failing (.always "Broken" false app (.failed ["no lock file"]))
        (fun _ _ r => (r, .failed ["no lock file"])) rfl rfl) .nil))
  have isolated := assembleRuns_isolated ⟨"", default⟩ ⟨"", default⟩ varies
  exact ⟨isolated.1.1, rfl⟩

end Detectors

end Inventory
