import Inventory.Proofs.Scan.Selection

/-! Which id a refusal names. The search for an unknown id goes through the list with the
replacement of the retired ids at its end, and it sees no detector that is off by default. So it may
come upon an id that nobody listed, or upon a detector that is enabled and would run. -/
namespace Inventory.Restrictions

variable {r : Restrictions} {registry : List Detector} {id : String} {ids : List String}

def MayRun (r : Restrictions) (d : Detector) : Prop :=
  d.defaultOff = false ∨ Lists r.enabled.toList d.id

/-- An id that is refused was listed, is no retired one, and belongs to no detector that
may run. -/
def Honest (r : Restrictions) (registry : List Detector) : Prop :=
  ∀ id, r.apply registry = .error (.unknownDetector id) →
    id ∈ r.allowed ∧ ¬ Lists retiredIds id ∧
      ∀ d ∈ registry, r.MayRun d → ¬ Text.eqIgnoringCase id d.id

/-- Every listed id is known, one of them is retired, and the one that has taken its place is
neither listed nor known. -/
structure LacksReplacement (r : Restrictions) (registry : List Detector) : Prop where
  retired : ∃ retired ∈ r.allowed, Lists retiredIds retired
  unlisted : ¬ Lists r.allowed replacementId
  unknown : IsUnknown registry replacementId
  others : ∀ other ∈ r.allowed, ¬ IsUnknown registry other

def OverlooksEnabled (r : Restrictions) (registry : List Detector) : Prop :=
  ∃ before id after, r.allowed = before ++ id :: after ∧ IsUnknown registry id ∧
    (∀ other ∈ before, ¬ IsUnknown registry other) ∧
      ∃ d ∈ registry, d.defaultOff = true ∧ Lists r.enabled.toList d.id ∧
        Text.eqIgnoringCase id d.id

instance : Decidable (IsUnknown registry id) := inferInstanceAs (Decidable (_ ∧ _))

def firstUnknown? (registry : List Detector) (ids : List String) : Option String :=
  ids.find? fun id => decide (IsUnknown registry id)

theorem firstUnknown?_eq_some_iff : firstUnknown? registry ids = some id ↔
    ∃ before after, ids = before ++ id :: after ∧ IsUnknown registry id ∧
      ∀ other ∈ before, ¬ IsUnknown registry other := by
  simp only [firstUnknown?, List.find?_eq_some_iff_append, decide_eq_true_iff, Bool.not_eq_true',
    decide_eq_false_iff_not]
  constructor
  · rintro ⟨unknown, before, after, parted, known⟩
    exact ⟨before, after, parted, unknown, known⟩
  · rintro ⟨before, after, parted, unknown, known⟩
    exact ⟨unknown, before, after, parted, known⟩

theorem firstUnknown?_concat {last : String} : firstUnknown? registry (ids ++ [last]) = some id ↔
    firstUnknown? registry ids = some id ∨
      (id = last ∧ IsUnknown registry last ∧ ∀ other ∈ ids, ¬ IsUnknown registry other) := by
  have none : firstUnknown? registry ids = none ↔ ∀ other ∈ ids, ¬ IsUnknown registry other := by
    simp only [firstUnknown?, List.find?_eq_none, decide_eq_true_iff]
  have found : firstUnknown? registry [last] = some id ↔ id = last ∧ IsUnknown registry last := by
    simp only [firstUnknown?, List.find?_singleton]
    split <;> simp_all [eq_comm]
  have parts : firstUnknown? registry (ids ++ [last]) =
      (firstUnknown? registry ids).or (firstUnknown? registry [last]) := List.find?_append
  rw [parts, Option.or_eq_some_iff, found, none, and_comm, and_assoc]

theorem isFirstUnknown_iff : IsFirstUnknown r registry id ↔
    r.allowed ≠ [] ∧ firstUnknown? registry r.askedIds = some id :=
  and_congr_right fun _ => firstUnknown?_eq_some_iff.symm

/-- Where nothing that was listed is unknown, the replacement may still be. -/
theorem isFirstUnknown_iff_or : IsFirstUnknown r registry id ↔
    firstUnknown? registry r.allowed = some id ∨
      (id = replacementId ∧ r.LacksReplacement registry) := by
  rw [isFirstUnknown_iff, askedIds]
  split
  next replaced =>
    have listed : r.allowed ≠ [] := List.ne_nil_of_mem replaced.1.choose_spec.1
    have lacks : r.LacksReplacement registry ↔
        IsUnknown registry replacementId ∧ ∀ other ∈ r.allowed, ¬ IsUnknown registry other :=
      ⟨fun l => ⟨l.unknown, l.others⟩, fun l => ⟨replaced.1, replaced.2, l.1, l.2⟩⟩
    rw [firstUnknown?_concat, lacks, and_iff_right listed]
  next kept =>
    have lacks : ¬ r.LacksReplacement registry := fun l => kept ⟨l.retired, l.unlisted⟩
    rw [or_iff_left fun h => lacks h.2]
    refine and_iff_right_of_imp fun found empty => ?_
    simp [firstUnknown?, empty] at found

/-- The filters on ids refuse the first unknown id, whatever the registry. -/
theorem apply_eq_unknownDetector_iff :
    r.apply registry = .error (.unknownDetector id) ↔ IsFirstUnknown r registry id := by
  refine ⟨fun refused => ?_, apply_of_isFirstUnknown⟩
  by_cases unknown : ∃ other, IsFirstUnknown r registry other
  · obtain ⟨other, first⟩ := unknown
    cases refused.symm.trans (apply_of_isFirstUnknown first)
    exact first
  · have known := not_exists.mp unknown
    simp only [apply, keepAllowed_of_forall_not known, bind, Except.bind] at refused
    by_cases nothing : r.WantsNone registry
    · simp [keepCategories_of_wantsNone nothing] at refused
    · simp [keepCategories_of_not_wantsNone nothing, pure, Except.pure] at refused

theorem IsUnknown.ne_of_on (unknown : IsUnknown registry id) {d : Detector} (member : d ∈ registry)
    (on : d.defaultOff = false) : ¬ Text.eqIgnoringCase id d.id := by
  intro same
  have among : d ∈ registry.filter (!·.defaultOff) := List.mem_filter.mpr ⟨member, by simp [on]⟩
  exact unknown.2 ⟨d.id, List.mem_map_of_mem among, (eqIgnoringCase_comm ..).trans same⟩

theorem LacksReplacement.not_honest (lacks : r.LacksReplacement registry) :
    ¬ r.Honest registry := by
  intro honest
  have first : IsFirstUnknown r registry replacementId :=
    isFirstUnknown_iff_or.mpr (.inr ⟨rfl, lacks⟩)
  have listed := (honest _ (apply_of_isFirstUnknown first)).1
  exact lacks.unlisted ⟨_, listed, by decide⟩

theorem OverlooksEnabled.not_honest (overlooks : r.OverlooksEnabled registry) :
    ¬ r.Honest registry := by
  intro honest
  obtain ⟨before, id, after, parted, unknown, known, d, member, -, enabled, same⟩ := overlooks
  have first : IsFirstUnknown r registry id :=
    isFirstUnknown_iff_or.mpr (.inl (firstUnknown?_eq_some_iff.mpr
      ⟨before, after, parted, unknown, known⟩))
  exact (honest id (apply_of_isFirstUnknown first)).2.2 d member (.inr enabled) same

/-- For any restrictions and any registry. What is refused is never a retired id nor one of a
detector that is on by default, and it was listed unless it is the replacement. The rest of what
honesty asks holds just where the replacement is not missing and no enabled detector
is overlooked. -/
theorem honest_iff (r : Restrictions) (registry : List Detector) :
    (∀ id, r.apply registry = .error (.unknownDetector id) →
      (id ∈ r.allowed ∨ id = replacementId) ∧ ¬ Lists retiredIds id ∧
        ∀ d ∈ registry, d.defaultOff = false → ¬ Text.eqIgnoringCase id d.id) ∧
    (r.Honest registry ↔ ¬ r.LacksReplacement registry ∧ ¬ r.OverlooksEnabled registry) := by
  refine ⟨fun id refused => ?_, fun honest => ?_, fun ⟨present, seen⟩ id refused => ?_⟩
  · have unknown : (id ∈ r.allowed ∨ id = replacementId) ∧ IsUnknown registry id := by
      rcases isFirstUnknown_iff_or.mp (apply_eq_unknownDetector_iff.mp refused) with
        found | ⟨rfl, lacks⟩
      · obtain ⟨before, after, parted, unknown, -⟩ := firstUnknown?_eq_some_iff.mp found
        exact ⟨.inl (by simp [parted]), unknown⟩
      · exact ⟨.inr rfl, lacks.unknown⟩
    exact ⟨unknown.1, unknown.2.1, fun d member on => unknown.2.ne_of_on member on⟩
  · exact ⟨fun lacks => lacks.not_honest honest, fun overlooks => overlooks.not_honest honest⟩
  · have found : firstUnknown? registry r.allowed = some id :=
      (isFirstUnknown_iff_or.mp (apply_eq_unknownDetector_iff.mp refused)).resolve_right
        fun h => present h.2
    obtain ⟨before, after, parted, unknown, known⟩ := firstUnknown?_eq_some_iff.mp found
    refine ⟨by simp [parted], unknown.1, fun d member runs same => ?_⟩
    cases off : d.defaultOff with
    | false => exact unknown.ne_of_on member off same
    | true =>
      have enabled := runs.resolve_left (by simp [off])
      exact seen ⟨before, id, after, parted, unknown, known, d, member, off, enabled, same⟩

/-- A detector that is off by default is enabled and is the only one that is asked for. -/
theorem enabled_detector_refused :
    let r : Restrictions := ⟨["Conda"], [], .ofList ["Conda"]⟩
    (∃ d ∈ withConda, d.id = "Conda" ∧ r.MayRun d) ∧
      r.apply withConda = .error (.unknownDetector "Conda") ∧ ¬ r.Honest withConda := by
  intro r
  have refused : r.apply withConda = .error (.unknownDetector "Conda") :=
    apply_eq_unknownDetector_iff.mpr ⟨by decide, [], [], rfl, by decide, by simp⟩
  have runs : ∃ d ∈ withConda, d.id = "Conda" ∧ r.MayRun d :=
    ⟨_, List.mem_append_right _ List.mem_cons_self, rfl, .inr (by decide)⟩
  obtain ⟨d, member, same, may⟩ := runs
  refine ⟨⟨d, member, same, may⟩, refused, fun honest => ?_⟩
  exact (honest _ refused).2.2 d member may (by simp [same, Text.eqIgnoringCase])

end Inventory.Restrictions
