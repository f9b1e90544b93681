import Inventory.Detector.Registry
import Inventory.Proofs.Scan.Restriction

/-! Which restrictions are refused and which detectors the others choose, said of each detector and
each id by itself. What is asked for comes first, without the loops that look for it. -/
namespace Inventory.Restrictions

variable {r r' : Restrictions} {registry kept kept' : List Detector} {d : Detector}
  {id other : String} {ids wanted : List String}

def Lists (ids : List String) (id : String) : Prop := ∃ named ∈ ids, Text.eqIgnoringCase named id

instance : Decidable (Lists ids id) := inferInstanceAs (Decidable (∃ named ∈ ids, _))

/-- The allowed ids, with the one that has taken the place of the retired ones among them. -/
def askedIds (r : Restrictions) : List String :=
  if (∃ retired ∈ r.allowed, Lists retiredIds retired) ∧ ¬ Lists r.allowed replacementId then
    r.allowed ++ [replacementId]
  else r.allowed

/-- An id that no detector has which is on by default, and no retired one had. -/
def IsUnknown (registry : List Detector) (id : String) : Prop :=
  ¬ Lists retiredIds id ∧ ¬ Lists ((registry.filter (!·.defaultOff)).map (·.id)) id

def IsFirstUnknown (r : Restrictions) (registry : List Detector) (id : String) : Prop :=
  r.allowed ≠ [] ∧ ∃ before after, r.askedIds = before ++ id :: after ∧
    IsUnknown registry id ∧ ∀ other ∈ before, ¬ IsUnknown registry other

def Allows (r : Restrictions) (d : Detector) : Prop := r.allowed = [] ∨ Lists r.askedIds d.id

instance : Decidable (r.Allows d) := inferInstanceAs (Decidable (_ ∨ _))

def WantsEvery (r : Restrictions) : Prop :=
  r.categories = [] ∨ ∃ name ∈ r.categories, Category.all.isNamed name

instance : Decidable r.WantsEvery := inferInstanceAs (Decidable (_ ∨ _))

def Suits (wanted : List String) (d : Detector) : Prop :=
  ∃ c ∈ d.categories, c = .all ∨ ∃ name ∈ wanted, c.isNamed name

instance : Decidable (Suits wanted d) :=
  inferInstanceAs (Decidable (∃ c ∈ d.categories, c = .all ∨ ∃ name ∈ wanted, c.isNamed name))

def Wants (r : Restrictions) (d : Detector) : Prop := r.WantsEvery ∨ Suits r.categories d

instance : Decidable (r.Wants d) := inferInstanceAs (Decidable (_ ∨ _))

/-- The categories leave nothing of what the ids allow. -/
def WantsNone (r : Restrictions) (registry : List Detector) : Prop :=
  ¬ r.WantsEvery ∧ ∀ d ∈ registry, d.defaultOff = false → r.Allows d → ¬ Suits r.categories d

def passing (r : Restrictions) (registry : List Detector) : List Detector :=
  registry.filter fun d => d.defaultOff = false ∧ r.Allows d ∧ r.Wants d

/-- The detectors that are off by default and enabled, whatever their ids and categories are. -/
def addedOnes (r : Restrictions) (registry : List Detector) : List Detector :=
  registry.filter fun d => d.defaultOff = true ∧ Lists r.enabled.toList d.id

def selected (r : Restrictions) (registry : List Detector) : List Detector :=
  r.passing registry ++ r.addedOnes registry

/-- More is listed, in lists that restrict something already. -/
structure Extends (r r' : Restrictions) : Prop where
  allowed : r'.allowed = r.allowed ∨ r.allowed ≠ [] ∧ r.allowed ⊆ r'.allowed
  categories : r'.categories = r.categories ∨ r.categories ≠ [] ∧ r.categories ⊆ r'.categories
  enabled : r.enabled.toList ⊆ r'.enabled.toList

theorem eqIgnoringCase_comm (x y : String) : Text.eqIgnoringCase x y = Text.eqIgnoringCase y x :=
  Bool.beq_comm

theorem eqIgnoringCase_trans {x y z : String} (first : Text.eqIgnoringCase x y)
    (second : Text.eqIgnoringCase y z) : Text.eqIgnoringCase x z := by
  simp only [Text.eqIgnoringCase, beq_iff_eq] at *
  exact first.trans second

theorem names_eq_true_iff : names ids id = true ↔ Lists ids id := List.any_eq_true

theorem names_eq_decide (ids : List String) (id : String) : names ids id = decide (Lists ids id) :=
  Bool.eq_iff_iff.mpr (names_eq_true_iff.trans decide_eq_true_iff.symm)

theorem allowedIds_eq (r : Restrictions) : r.allowedIds = r.askedIds := by
  have retired : r.allowed.any isRetired = true ↔ ∃ id ∈ r.allowed, Lists retiredIds id := by
    simp only [List.any_eq_true, isRetired, names_eq_true_iff]
  simp only [allowedIds, askedIds, Bool.and_eq_true, retired, names_eq_decide, Bool.not_eq_true',
    decide_eq_false_iff_not]

theorem Lists.of_subset {more : List String} (among : ids ⊆ more) (listed : Lists ids id) :
    Lists more id := by
  obtain ⟨named, there, same⟩ := listed
  exact ⟨named, among there, same⟩

/-- An id that is in the list already need not be asked for. -/
theorem lists_askedIds_iff : Lists r.askedIds id ↔ Lists r.allowed id ∨
    (∃ retired ∈ r.allowed, Lists retiredIds retired) ∧
      Text.eqIgnoringCase replacementId id := by
  have appended : Lists (r.allowed ++ [replacementId]) id ↔
      Lists r.allowed id ∨ Text.eqIgnoringCase replacementId id := by
    simp only [Lists, List.mem_append, List.mem_singleton, or_and_right, exists_or, exists_eq_left]
  have there (listed : Lists r.allowed replacementId)
      (same : Text.eqIgnoringCase replacementId id) : Lists r.allowed id := by
    obtain ⟨named, mem, named_same⟩ := listed
    exact ⟨named, mem, eqIgnoringCase_trans named_same same⟩
  unfold askedIds
  split <;> grind

/-- The scan for an unknown id looks only at the detectors that the ids have left. For an id
among them this makes no difference. -/
theorem lists_filter_iff {on : List Detector} (asked : id ∈ ids) :
    Lists ((on.filter fun d => names ids d.id).map (·.id)) id ↔ Lists (on.map (·.id)) id := by
  constructor
  · exact Lists.of_subset (List.map_subset _ List.filter_sublist.subset)
  · rintro ⟨named, there, same⟩
    obtain ⟨d, mem, rfl⟩ := List.mem_map.mp there
    have chosen : names ids d.id = true :=
      names_eq_true_iff.mpr ⟨id, asked, (eqIgnoringCase_comm ..).trans same⟩
    exact ⟨d.id, List.mem_map_of_mem (List.mem_filter.mpr ⟨mem, chosen⟩), same⟩

def allowedOnes (r : Restrictions) (registry : List Detector) : List Detector :=
  registry.filter fun d => d.defaultOff = false ∧ r.Allows d

theorem allowedOnes_eq (listed : r.allowed ≠ []) : r.allowedOnes registry =
    (registry.filter (!·.defaultOff)).filter fun d => names r.askedIds d.id := by
  rw [allowedOnes, List.filter_filter]
  refine List.filter_congr fun d _ => ?_
  simp only [Allows, listed, false_or, names_eq_decide, Bool.decide_and, Bool.and_comm]
  cases d.defaultOff <;> rfl

def seemsUnknown (r : Restrictions) (registry : List Detector) (id : String) : Bool :=
  !isRetired id && !names ((r.allowedOnes registry).map (·.id)) id

theorem seemsUnknown_iff (listed : r.allowed ≠ []) (asked : id ∈ r.askedIds) :
    r.seemsUnknown registry id = true ↔ IsUnknown registry id := by
  simp only [seemsUnknown, Bool.and_eq_true, Bool.not_eq_true', ← Bool.not_eq_true, isRetired,
    names_eq_true_iff, allowedOnes_eq listed, lists_filter_iff asked, IsUnknown]

theorem find?_seemsUnknown_iff (listed : r.allowed ≠ []) :
    r.askedIds.find? (r.seemsUnknown registry) = some id ↔ IsFirstUnknown r registry id := by
  have each {before after : List String} (parted : r.askedIds = before ++ id :: after)
      (other : String) (mem : other ∈ before) :
      (!r.seemsUnknown registry other) = true ↔ ¬ IsUnknown registry other := by
    rw [← seemsUnknown_iff listed (by simp [parted, mem]), Bool.not_eq_true', Bool.not_eq_true]
  rw [List.find?_eq_some_iff_append]
  constructor
  · rintro ⟨unknown, before, after, parted, known⟩
    exact ⟨listed, before, after, parted,
      (seemsUnknown_iff listed (by simp [parted])).mp unknown,
      fun other mem => (each parted other mem).mp (known other mem)⟩
  · rintro ⟨-, before, after, parted, unknown, known⟩
    exact ⟨(seemsUnknown_iff listed (by simp [parted])).mpr unknown, before, after, parted,
      fun other mem => (each parted other mem).mpr (known other mem)⟩

theorem keepAllowed_eq (listed : r.allowed ≠ []) : r.keepAllowed (registry.filter (!·.defaultOff)) =
    match r.askedIds.find? (r.seemsUnknown registry) with
    | some id => .error (.unknownDetector id)
    | none => .ok (r.allowedOnes registry) := by
  simp only [keepAllowed, List.isEmpty_iff, listed, if_false, allowedIds_eq,
    ← allowedOnes_eq listed]
  rfl

theorem keepAllowed_of_isFirstUnknown (first : IsFirstUnknown r registry id) :
    r.keepAllowed (registry.filter (!·.defaultOff)) = .error (.unknownDetector id) := by
  rw [keepAllowed_eq first.1, (find?_seemsUnknown_iff first.1).mpr first]

theorem keepAllowed_of_forall_not (known : ∀ id, ¬ IsFirstUnknown r registry id) :
    r.keepAllowed (registry.filter (!·.defaultOff)) = .ok (r.allowedOnes registry) := by
  by_cases listed : r.allowed = []
  · have all : r.allowedOnes registry = registry.filter (!·.defaultOff) := by
      refine List.filter_congr fun d _ => ?_
      simp [Allows, listed]
    simp [keepAllowed, listed, all]
  · have none_found : r.askedIds.find? (r.seemsUnknown registry) = none :=
      Option.eq_none_iff_forall_ne_some.mpr fun id found =>
        known id ((find?_seemsUnknown_iff listed).mp found)
    rw [keepAllowed_eq listed, none_found]

theorem hasCategory_eq_true_iff : hasCategory wanted d = true ↔ Suits wanted d := by
  simp only [hasCategory, Suits, List.any_eq_true, Bool.or_eq_true, beq_iff_eq]

theorem wantsEvery_iff : (r.categories.isEmpty || r.categories.any Category.all.isNamed) = true ↔
    r.WantsEvery := by
  simp only [WantsEvery, Bool.or_eq_true, List.isEmpty_iff, List.any_eq_true]

theorem passing_of_wantsEvery (every : r.WantsEvery) :
    r.passing registry = r.allowedOnes registry := by
  simp only [passing, allowedOnes, Wants, every, true_or, and_true]

theorem passing_of_not_wantsEvery (some_left_out : ¬ r.WantsEvery) :
    r.passing registry = (r.allowedOnes registry).filter (hasCategory r.categories) := by
  rw [allowedOnes, List.filter_filter]
  refine List.filter_congr fun d _ => Bool.eq_iff_iff.mpr ?_
  simp only [decide_eq_true_iff, Bool.and_eq_true, hasCategory_eq_true_iff, Wants, some_left_out,
    false_or]
  tauto

theorem wantsNone_iff : r.WantsNone registry ↔ ¬ r.WantsEvery ∧ r.passing registry = [] := by
  refine and_congr_right fun some_left_out => ?_
  simp only [passing, List.filter_eq_nil_iff, decide_eq_true_iff, Wants, some_left_out, false_or,
    not_and]

theorem keepCategories_of_wantsNone (nothing : r.WantsNone registry) :
    r.keepCategories (r.allowedOnes registry) = .error (.noDetector r.categories) := by
  obtain ⟨some_left_out, empty⟩ := wantsNone_iff.mp nothing
  rw [keepCategories, if_neg (wantsEvery_iff.not.mpr some_left_out),
    ← passing_of_not_wantsEvery some_left_out, empty]

theorem keepCategories_of_not_wantsNone (any : ¬ r.WantsNone registry) :
    r.keepCategories (r.allowedOnes registry) = .ok (r.passing registry) := by
  unfold keepCategories
  by_cases every : r.WantsEvery
  · rw [if_pos (wantsEvery_iff.mpr every), passing_of_wantsEvery every]
  · rw [if_neg (wantsEvery_iff.not.mpr every), ← passing_of_not_wantsEvery every]
    split
    · next empty => exact absurd (wantsNone_iff.mpr ⟨every, empty⟩) any
    · rfl

/-- While the ids differ, the test for an id that is there already never holds. -/
theorem foldl_addEnabled_eq (r : Restrictions) (detectors kept : List Detector)
    (distinct : ((kept ++ detectors).map (·.id)).Nodup) :
    detectors.foldl r.addEnabled kept =
      kept ++ detectors.filter fun d => Lists r.enabled.toList d.id := by
  induction detectors generalizing kept with
  | nil => exact (List.append_nil kept).symm
  | cons d detectors ih =>
    have fresh : kept.any (·.id == d.id) = false := by
      simp only [List.map_append, List.map_cons, List.nodup_append] at distinct
      simp only [List.any_eq_false, beq_iff_eq]
      exact fun other mem => distinct.2.2 _ (List.mem_map_of_mem mem) _ (List.mem_cons_self ..)
    have enabled : r.isEnabled d.id = true ↔ Lists r.enabled.toList d.id := names_eq_true_iff
    by_cases named : Lists r.enabled.toList d.id
    · rw [List.foldl_cons, addEnabled, fresh, enabled.mpr named, List.filter_cons_of_pos
        (by simpa using named)]
      exact (ih (kept ++ [d]) (by simpa using distinct)).trans (List.append_assoc ..)
    · rw [List.foldl_cons, addEnabled, eq_false_of_ne_true (enabled.not.mpr named),
        List.filter_cons_of_neg (by simpa using named)]
      exact ih kept (distinct.sublist (((List.sublist_cons_self d _).append_left kept).map _))

theorem apply_of_isFirstUnknown (first : IsFirstUnknown r registry id) :
    r.apply registry = .error (.unknownDetector id) := by
  simp only [apply, keepAllowed_of_isFirstUnknown first, bind, Except.bind]

theorem apply_of_wantsNone (known : ∀ id, ¬ IsFirstUnknown r registry id)
    (nothing : r.WantsNone registry) : r.apply registry = .error (.noDetector r.categories) := by
  simp only [apply, keepAllowed_of_forall_not known, keepCategories_of_wantsNone nothing, bind,
    Except.bind]

theorem addedOnes_eq (r : Restrictions) (registry : List Detector) : r.addedOnes registry =
    (registry.filter (·.defaultOff)).filter fun d => Lists r.enabled.toList d.id := by
  rw [addedOnes, List.filter_filter]
  exact List.filter_congr fun d _ => by cases d.defaultOff <;> simp

theorem passing_sublist (r : Restrictions) (registry : List Detector) :
    (r.passing registry).Sublist (registry.filter (!·.defaultOff)) :=
  List.monotone_filter_right registry fun d passes => by simp_all

theorem nodup_passing_append (r : Restrictions) (distinct : (registry.map (·.id)).Nodup) :
    ((r.passing registry ++ registry.filter (·.defaultOff)).map (·.id)).Nodup := by
  have nodup := ((parted_perm registry).map (·.id)).nodup_iff.mpr distinct
  exact nodup.sublist (((r.passing_sublist registry).append_right _).map _)

theorem nodup_selected (r : Restrictions) (distinct : (registry.map (·.id)).Nodup) :
    ((r.selected registry).map (·.id)).Nodup := by
  rw [selected, addedOnes_eq]
  exact (nodup_passing_append r distinct).sublist ((List.filter_sublist.append_left _).map _)

theorem apply_of_not_wantsNone (distinct : (registry.map (·.id)).Nodup)
    (known : ∀ id, ¬ IsFirstUnknown r registry id) (any : ¬ r.WantsNone registry) :
    r.apply registry = .ok (r.selected registry) := by
  have added := foldl_addEnabled_eq r _ _ (nodup_passing_append r distinct)
  simp only [apply, keepAllowed_of_forall_not known, keepCategories_of_not_wantsNone any, bind,
    Except.bind, added, selected, addedOnes_eq]
  rfl

/-- Every way that it can go, with what it says of the restrictions. -/
theorem apply_cases (r : Restrictions) (distinct : (registry.map (·.id)).Nodup) :
    (∃ id, IsFirstUnknown r registry id ∧
      r.apply registry = .error (.unknownDetector id)) ∨
    (∀ id, ¬ IsFirstUnknown r registry id) ∧
      (r.WantsNone registry ∧ r.apply registry = .error (.noDetector r.categories) ∨
        ¬ r.WantsNone registry ∧ r.apply registry = .ok (r.selected registry)) := by
  by_cases unknown : ∃ id, IsFirstUnknown r registry id
  · obtain ⟨id, first⟩ := unknown
    exact .inl ⟨id, first, apply_of_isFirstUnknown first⟩
  · have known := not_exists.mp unknown
    refine .inr ⟨known, ?_⟩
    by_cases nothing : r.WantsNone registry
    · exact .inl ⟨nothing, apply_of_wantsNone known nothing⟩
    · exact .inr ⟨nothing, apply_of_not_wantsNone distinct known nothing⟩

theorem Extends.allows (more : Extends r r') (allowed : r.Allows d) : r'.Allows d := by
  obtain same | ⟨listed, among⟩ := more.allowed
  · simpa only [Allows, askedIds, same] using allowed
  · have asked := lists_askedIds_iff.mp (allowed.resolve_left listed)
    refine .inr (lists_askedIds_iff.mpr ?_)
    obtain there | ⟨⟨retired, mem, is_retired⟩, replaced⟩ := asked
    · exact .inl (there.of_subset among)
    · exact .inr ⟨⟨retired, among mem, is_retired⟩, replaced⟩

theorem Extends.wants (more : Extends r r') (wanted : r.Wants d) : r'.Wants d := by
  obtain same | ⟨listed, among⟩ := more.categories
  · simpa only [Wants, WantsEvery, same] using wanted
  · obtain every | ⟨c, mem, suits⟩ := wanted
    · obtain ⟨name, there, all⟩ := every.resolve_left listed
      exact .inl (.inr ⟨name, among there, all⟩)
    · refine .inr ⟨c, mem, suits.imp_right fun ⟨name, there, named⟩ => ?_⟩
      exact ⟨name, among there, named⟩

theorem Extends.selected_sublist (more : Extends r r') (registry : List Detector) :
    (r.selected registry).Sublist (r'.selected registry) := by
  refine List.Sublist.append ?_ ?_
  · refine List.monotone_filter_right registry fun d passes => ?_
    simp only [decide_eq_true_iff] at passes ⊢
    exact ⟨passes.1, more.allows passes.2.1, more.wants passes.2.2⟩
  · refine List.monotone_filter_right registry fun d passes => ?_
    simp only [decide_eq_true_iff] at passes ⊢
    exact ⟨passes.1, passes.2.of_subset more.enabled⟩

/-- What restrictions come to, for any registry without two detectors of one id. The first unknown
id is refused before the categories are, and nothing else is refused. What is chosen is chosen
once, and extending what is listed takes nothing away. -/
theorem apply_outcome (r : Restrictions) (registry : List Detector)
    (distinct : (registry.map (·.id)).Nodup) :
    (∀ id, r.apply registry = .error (.unknownDetector id) ↔ IsFirstUnknown r registry id) ∧
    (∀ names, r.apply registry = .error (.noDetector names) ↔
      names = r.categories ∧ (∀ id, ¬ IsFirstUnknown r registry id) ∧ r.WantsNone registry) ∧
    (∀ kept, r.apply registry = .ok kept ↔ kept = r.selected registry ∧
      (∀ id, ¬ IsFirstUnknown r registry id) ∧ ¬ r.WantsNone registry) ∧
    ((r.selected registry).map (·.id)).Nodup ∧
    ∀ r' kept kept', Extends r r' → r.apply registry = .ok kept → r'.apply registry = .ok kept' →
      kept.Sublist kept' := by
  have chosen {r : Restrictions} {kept} (result : r.apply registry = .ok kept) :
      kept = r.selected registry ∧ (∀ id, ¬ IsFirstUnknown r registry id) ∧
        ¬ r.WantsNone registry := by
    obtain ⟨_, -, other⟩ | ⟨known, ⟨-, other⟩ | ⟨any, same⟩⟩ := r.apply_cases distinct
    · exact nomatch result.symm.trans other
    · exact nomatch result.symm.trans other
    · exact ⟨Except.ok.inj (result.symm.trans same), known, any⟩
  refine ⟨fun id => ⟨fun refused => ?_, apply_of_isFirstUnknown⟩,
    fun names => ⟨fun refused => ?_, fun ⟨same, known, nothing⟩ => ?_⟩,
    fun kept => ⟨chosen, fun ⟨same, known, any⟩ => ?_⟩, r.nodup_selected distinct,
    fun r' kept kept' more before after => ?_⟩
  · obtain ⟨first, unknown, result⟩ | ⟨-, ⟨-, result⟩ | ⟨-, result⟩⟩ := r.apply_cases distinct
    all_goals cases refused.symm.trans result
    exact unknown
  · obtain ⟨_, -, result⟩ | ⟨known, ⟨nothing, result⟩ | ⟨-, result⟩⟩ := r.apply_cases distinct
    all_goals cases refused.symm.trans result
    exact ⟨rfl, known, nothing⟩
  · exact same ▸ apply_of_wantsNone known nothing
  · exact same ▸ apply_of_not_wantsNone distinct known any
  · rw [(chosen before).1, (chosen after).1]
    exact more.selected_sublist registry

def withConda : List Detector :=
  Detector.builtIn ++
    [{ Pip.detector with id := "Conda", categories := [.conda], defaultOff := true }]

/-- A retired id stands for its replacement, and what is enabled needs no category. With one more id
and one more category there is one more detector. -/
theorem retired_and_enabled_selected :
    let r : Restrictions := ⟨["MSLicenseNpm"], ["npm"], .ofList ["conda"]⟩
    let r' : Restrictions := ⟨["mslicensenpm", "MSLicenseNpm", "PIP"], ["Pip", "npm"],
      .ofList ["conda"]⟩
    (withConda.map (·.id)).Nodup ∧ Extends r r' ∧ ∃ kept kept', r.apply withConda = .ok kept ∧
      r'.apply withConda = .ok kept' ∧ kept.map (·.id) = ["NpmWithRoots", "Conda"] ∧
      kept'.map (·.id) = ["NpmWithRoots", "Pip", "Conda"] ∧ kept = r.selected withConda ∧
      kept.Sublist kept' := by
  intro r r'
  have distinct : (withConda.map (·.id)).Nodup := by decide
  have more : Extends r r' := ⟨.inr (by decide), .inr (by decide), by decide⟩
  have ids (s : Restrictions) (ids : List String)
      (ran : ((s.apply withConda).toOption.map (List.map (·.id))) = some ids) :
      ∃ kept, s.apply withConda = .ok kept ∧ kept.map (·.id) = ids := by
    cases result : s.apply withConda with
    | error e => simp [result, Except.toOption] at ran
    | ok kept => exact ⟨kept, rfl, by simpa [result, Except.toOption] using ran⟩
  obtain ⟨kept, ran, kept_ids⟩ := ids r ["NpmWithRoots", "Conda"] (by decide +kernel)
  obtain ⟨kept', ran', kept_ids'⟩ := ids r' ["NpmWithRoots", "Pip", "Conda"] (by decide +kernel)
  obtain ⟨-, -, chosen, -, monotone⟩ := apply_outcome r withConda distinct
  exact ⟨distinct, more, kept, kept', ran, ran', kept_ids, kept_ids', ((chosen kept).mp ran).1,
    monotone r' kept kept' more ran ran'⟩

end Inventory.Restrictions
