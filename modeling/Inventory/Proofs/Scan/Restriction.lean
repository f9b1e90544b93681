import Inventory.Scan.Restriction
import Mathlib.Data.List.Basic
import Mathlib.Data.List.Nodup
import Mathlib.Data.List.Perm.Subperm

/-! Which detectors the restrictions choose: some of those that are on by default, then some of the
others, each at most once. They are chosen by what a detector says of itself and not by what
it does. -/
namespace Inventory.Restrictions

variable {r : Restrictions} {detectors kept registry : List Detector}

theorem sublist_of_keepAllowed (chosen : r.keepAllowed detectors = .ok kept) :
    kept.Sublist detectors := by
  simp only [keepAllowed] at chosen
  split at chosen
  · cases chosen
    exact .refl _
  · split at chosen
    · cases chosen
    · cases chosen
      exact List.filter_sublist

theorem sublist_of_keepCategories (chosen : r.keepCategories detectors = .ok kept) :
    kept.Sublist detectors := by
  unfold keepCategories at chosen
  split at chosen
  · cases chosen
    exact .refl _
  · split at chosen
    · cases chosen
    · cases chosen
      exact List.filter_sublist

theorem exists_foldl_addEnabled (r : Restrictions) (detectors kept : List Detector) :
    ∃ added, added.Sublist detectors ∧ detectors.foldl r.addEnabled kept = kept ++ added := by
  induction detectors generalizing kept with
  | nil => exact ⟨[], .slnil, (List.append_nil kept).symm⟩
  | cons d detectors ih =>
    obtain ⟨added, among, all⟩ := ih (r.addEnabled kept d)
    rw [List.foldl_cons, all]
    unfold addEnabled
    split
    · exact ⟨d :: added, among.cons_cons d, List.append_assoc kept [d] added⟩
    · exact ⟨added, among.cons d, rfl⟩

/-- What is chosen is part of the registry with the detectors that are off by default last. -/
theorem exists_apply (chosen : r.apply registry = .ok kept) :
    ∃ stable added, stable.Sublist (registry.filter (!·.defaultOff)) ∧
      added.Sublist (registry.filter (·.defaultOff)) ∧ kept = stable ++ added := by
  unfold apply at chosen
  cases allowed : r.keepAllowed (registry.filter (!·.defaultOff)) with
  | error e => simp [allowed, bind, Except.bind] at chosen
  | ok first =>
    cases wanted : r.keepCategories first with
    | error e => simp [allowed, wanted, bind, Except.bind] at chosen
    | ok stable =>
      obtain ⟨added, among, all⟩ :=
        exists_foldl_addEnabled r (registry.filter (·.defaultOff)) stable
      have stays := (sublist_of_keepCategories wanted).trans (sublist_of_keepAllowed allowed)
      simp only [allowed, wanted, bind, Except.bind, all, pure, Except.pure, Except.ok.injEq]
        at chosen
      exact ⟨stable, added, stays, among, chosen.symm⟩

theorem parted_perm (registry : List Detector) :
    (registry.filter (!·.defaultOff) ++ registry.filter (·.defaultOff)).Perm registry :=
  List.perm_append_comm.trans (List.filter_append_perm (·.defaultOff) registry)

theorem subperm_of_apply (chosen : r.apply registry = .ok kept) : kept.Subperm registry := by
  obtain ⟨stable, added, stays, among, rfl⟩ := exists_apply chosen
  exact (stays.append among).subperm.trans (parted_perm registry).subperm

section Map

variable {f : Detector → Detector}

structure Describes (f : Detector → Detector) : Prop where
  id : ∀ d, (f d).id = d.id
  categories : ∀ d, (f d).categories = d.categories
  defaultOff : ∀ d, (f d).defaultOff = d.defaultOff

theorem keepAllowed_map (same : Describes f) (r : Restrictions) (detectors : List Detector) :
    r.keepAllowed (detectors.map f) = (r.keepAllowed detectors).map (List.map f) := by
  have kept : (detectors.map f).filter (fun d => names r.allowedIds d.id) =
      (detectors.filter fun d => names r.allowedIds d.id).map f := by
    simp [List.filter_map, Function.comp_def, same.id]
  have ids (kept : List Detector) : (kept.map f).map (·.id) = kept.map (·.id) := by
    simp [Function.comp_def, same.id]
  simp only [keepAllowed, kept, ids]
  split
  · rfl
  · split <;> rfl

theorem keepCategories_map (same : Describes f) (r : Restrictions) (detectors : List Detector) :
    r.keepCategories (detectors.map f) = (r.keepCategories detectors).map (List.map f) := by
  have kept : (detectors.map f).filter (hasCategory r.categories) =
      (detectors.filter (hasCategory r.categories)).map f := by
    have wanted : hasCategory r.categories ∘ f = hasCategory r.categories :=
      funext fun d => by simp only [hasCategory, Function.comp_apply, same.categories]
    rw [List.filter_map, wanted]
  simp only [keepCategories, kept]
  split
  · rfl
  · cases detectors.filter (hasCategory r.categories) <;> rfl

theorem foldl_addEnabled_map (same : Describes f) (r : Restrictions)
    (detectors kept : List Detector) : (detectors.map f).foldl r.addEnabled (kept.map f) =
      (detectors.foldl r.addEnabled kept).map f := by
  rw [List.foldl_map]
  refine List.foldl_hom (List.map f) fun kept d => ?_
  have there : (kept.map f).any (·.id == d.id) = kept.any (·.id == d.id) := by
    simp [List.any_map, Function.comp_def, same.id]
  unfold addEnabled
  rw [same.id, there]
  split
  · rw [List.map_append, List.map_singleton]
  · rfl

theorem apply_map (same : Describes f) (r : Restrictions) (registry : List Detector) :
    r.apply (registry.map f) = (r.apply registry).map (List.map f) := by
  have on : (registry.map f).filter (!·.defaultOff) = (registry.filter (!·.defaultOff)).map f := by
    simp [List.filter_map, Function.comp_def, same.defaultOff]
  have off : (registry.map f).filter (·.defaultOff) = (registry.filter (·.defaultOff)).map f := by
    simp [List.filter_map, Function.comp_def, same.defaultOff]
  simp only [apply, on, off, keepAllowed_map same]
  cases r.keepAllowed (registry.filter (!·.defaultOff)) with
  | error e => rfl
  | ok first =>
    simp only [Except.map, bind, Except.bind, keepCategories_map same]
    cases r.keepCategories first with
    | error e => rfl
    | ok stable => exact congrArg Except.ok (foldl_addEnabled_map same r _ stable)

end Map

end Inventory.Restrictions
