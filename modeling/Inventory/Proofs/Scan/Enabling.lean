import Inventory.CommandLine.Program
import Inventory.Proofs.Scan.Selection
import Inventory.Proofs.SortedMap

/-! Which arguments enable a detector. They are kept by their keys as these are spelled, and any
spelling of its id enables a detector. So what is said last overrules only what was said before in
the same spelling. -/
namespace Inventory

variable {given : List (String × String)} {id key value : String} {e f : String × String}
  {p : String → Prop}

def IsLast (p : String → Prop) (given : List (String × String)) (e : String × String) : Prop :=
  ∃ before after, given = before ++ e :: after ∧ p e.1 ∧ ∀ later ∈ after, ¬ p later.1

def IsFor (id key : String) : Prop := Text.eqIgnoringCase key id = true

instance : DecidablePred (IsFor id) := fun _ => inferInstanceAs (Decidable (_ = true))

def LastEnables (given : List (String × String)) (id : String) : Prop :=
  ∃ e, IsLast (IsFor id) given e ∧ isEnabling e.2 = true

/-- An argument enables the detector, and nothing later is said in its spelling. -/
def SpellingEnables (given : List (String × String)) (id : String) : Prop :=
  ∃ e, IsLast (· = e.1) given e ∧ IsFor id e.1 ∧ isEnabling e.2 = true

/-- What is said last does not enable the detector. An argument in another spelling does, and it is
the last in that. -/
def SpellingSurvives (given : List (String × String)) (id : String) : Prop :=
  ∃ last, IsLast (IsFor id) given last ∧ isEnabling last.2 = false ∧
    ∃ e, IsLast (· = e.1) given e ∧ IsFor id e.1 ∧ isEnabling e.2 = true ∧ e.1 ≠ last.1

theorem isLast_iff [DecidablePred p] :
    IsLast p given e ↔ given.reverse.find? (fun e => p e.1) = some e := by
  simp only [List.find?_eq_some_iff_append, decide_eq_true_iff, Bool.not_eq_true',
    decide_eq_false_iff_not]
  constructor
  · rintro ⟨before, after, rfl, here, later⟩
    exact ⟨here, after.reverse, before.reverse, by simp,
      fun f member => later f (List.mem_reverse.mp member)⟩
  · rintro ⟨here, after, before, whole, later⟩
    refine ⟨before.reverse, after.reverse, ?_, here,
      fun f member => later f (List.mem_reverse.mp member)⟩
    rw [← List.reverse_reverse given, whole]
    simp

theorem IsLast.mem (last : IsLast p given e) : e ∈ given := by
  obtain ⟨before, after, rfl, -⟩ := last
  exact List.mem_append_right _ List.mem_cons_self

theorem IsLast.holds (last : IsLast p given e) : p e.1 := by
  obtain ⟨before, after, -, here, -⟩ := last
  exact here

theorem IsLast.unique [DecidablePred p] (last : IsLast p given e) (last' : IsLast p given f) :
    e = f :=
  Option.some.inj ((isLast_iff.mp last).symm.trans (isLast_iff.mp last'))

/-- What is last of many is last in its spelling. -/
theorem IsLast.of_key (last : IsLast p given e) : IsLast (· = e.1) given e := by
  obtain ⟨before, after, whole, here, later⟩ := last
  exact ⟨before, after, whole, rfl, fun f member same => later f member (same ▸ here)⟩

theorem exists_isLast [DecidablePred p] (member : e ∈ given) (here : p e.1) :
    ∃ last, IsLast p given last := by
  have found : (given.reverse.find? fun e => p e.1).isSome :=
    List.find?_isSome.mpr ⟨e, List.mem_reverse.mpr member, decide_eq_true here⟩
  obtain ⟨last, found⟩ := Option.isSome_iff_exists.mp found
  exact ⟨last, isLast_iff.mpr found⟩

theorem mem_entries_ofList_iff : e ∈ (SortedMap.ofList given).entries ↔ IsLast (· = e.1) given e := by
  obtain ⟨key, value⟩ := e
  rw [isLast_iff, ← SortedMap.get?_eq_some_iff, SortedMap.get?_ofList_eq, Option.map_eq_some_iff]
  constructor
  · rintro ⟨⟨k, v⟩, found, rfl⟩
    obtain rfl : k = key := by simpa using List.find?_some found
    exact found
  · intro found
    exact ⟨_, found, rfl⟩

theorem isEnabled_restrictions_iff (a : ScanArguments) : a.restrictions.isEnabled id = true ↔
    ∃ e ∈ a.detectorArguments.entries, IsFor id e.1 ∧ isEnabling e.2 = true := by
  simp only [Restrictions.isEnabled, Restrictions.names_eq_true_iff, Restrictions.Lists,
    ScanArguments.restrictions, StringSet.mem_toList, StringSet.contains_ofList,
    List.contains_iff_mem, List.mem_map, List.mem_filter, IsFor]
  constructor
  · rintro ⟨_, ⟨e, ⟨member, enabling⟩, rfl⟩, same⟩
    exact ⟨e, member, same, enabling⟩
  · rintro ⟨e, member, same, enabling⟩
    exact ⟨_, ⟨e, ⟨member, enabling⟩, rfl⟩, same⟩

theorem LastEnables.spelling (enables : LastEnables given id) : SpellingEnables given id := by
  obtain ⟨e, last, enabling⟩ := enables
  exact ⟨e, last.of_key, last.holds, enabling⟩

theorem SpellingSurvives.not_lastEnables (survives : SpellingSurvives given id) :
    ¬ LastEnables given id := by
  rintro ⟨e, last', enabling⟩
  obtain ⟨last, is_last, refused, -⟩ := survives
  cases is_last.unique last'
  exact Bool.false_ne_true (refused.symm.trans enabling)

theorem SpellingEnables.last_or_survives (enables : SpellingEnables given id) :
    LastEnables given id ∨ SpellingSurvives given id := by
  obtain ⟨e, in_spelling, is_for, enabling⟩ := enables
  obtain ⟨last, is_last⟩ := exists_isLast in_spelling.mem is_for
  cases said : isEnabling last.2 with
  | true => exact .inl ⟨last, is_last, said⟩
  | false =>
    refine .inr ⟨last, is_last, said, e, in_spelling, is_for, enabling, fun same => ?_⟩
    -- In one spelling there is one last argument.
    cases in_spelling.unique (same ▸ is_last.of_key)
    exact Bool.false_ne_true (said.symm.trans enabling)

theorem spellingEnables_iff_or :
    SpellingEnables given id ↔ LastEnables given id ∨ SpellingSurvives given id := by
  refine ⟨SpellingEnables.last_or_survives, ?_⟩
  rintro (enables | ⟨_, -, -, e, in_spelling, is_for, enabling, -⟩)
  · exact enables.spelling
  · exact ⟨e, in_spelling, is_for, enabling⟩

theorem not_spellingSurvives_of_one
    (one : ∀ e ∈ given, ∀ f ∈ given, IsFor id e.1 → IsFor id f.1 → e.1 = f.1) :
    ¬ SpellingSurvives given id := by
  rintro ⟨last, is_last, -, e, in_spelling, is_for, -, other⟩
  exact other (one e in_spelling.mem last is_last.mem is_for is_last.holds)

namespace CommandLine

/-- The arguments of the settings come first, and then those of the command line. -/
theorem exists_scanArguments (s : Settings) (o : ScanOptions) (source : String)
    (accepted : o.detectorArguments.mapM DetectorArgument.parse = .ok given)
    (threads : o.maxThreads ≠ some 0) : ∃ a, scanArguments s o source = .ok a ∧
      a.detectorArguments = .ofList (s.detectorArguments.entries ++ given) := by
  have added : DetectorArgument.parseAll o.detectorArguments = .ok (.ofList given) := by
    rw [DetectorArgument.parseAll, accepted]
    rfl
  simp only [scanArguments, added, Except.mapError, bind, Except.bind, threads, if_false, pure,
    Except.pure, Except.ok.injEq, exists_eq_left']
  exact SortedMap.union_ofList ..

theorem lower_survives : SpellingSurvives [("Pip", "Enable"), ("pip", "Disable")] "Pip" :=
  ⟨("pip", "Disable"), ⟨[("Pip", "Enable")], [], rfl, by decide, by simp⟩, by decide,
    ("Pip", "Enable"), ⟨[], [("pip", "Disable")], rfl, rfl, by simp⟩, by decide, by decide,
    by decide⟩

/-- For any settings, any arguments on the command line that can be read, and any detector. The last
argument decides just where none in another spelling survives it, and so wherever all arguments for
the detector have one spelling. What it enables is enabled in any case. -/
theorem last_argument_decides_iff (s : Settings) (o : ScanOptions) (source id : String)
    (accepted : o.detectorArguments.mapM DetectorArgument.parse = .ok given)
    (threads : o.maxThreads ≠ some 0) :
    let all := s.detectorArguments.entries ++ given
    ∃ a, scanArguments s o source = .ok a ∧
      (LastEnables all id → a.restrictions.isEnabled id = true) ∧
      ((a.restrictions.isEnabled id = true ↔ LastEnables all id) ↔ ¬ SpellingSurvives all id) ∧
      ((∀ e ∈ all, ∀ f ∈ all, IsFor id e.1 → IsFor id f.1 → e.1 = f.1) →
        (a.restrictions.isEnabled id = true ↔ LastEnables all id)) := by
  intro all
  obtain ⟨a, made, arguments⟩ := exists_scanArguments s o source accepted threads
  have enabled : a.restrictions.isEnabled id = true ↔
      LastEnables all id ∨ SpellingSurvives all id := by
    rw [isEnabled_restrictions_iff, arguments, ← spellingEnables_iff_or]
    simp only [mem_entries_ofList_iff]
    rfl
  refine ⟨a, made, fun last => enabled.mpr (.inl last), ?_, fun one => ?_⟩
  · rw [enabled]
    exact ⟨fun decides survives => survives.not_lastEnables (decides.mp (.inr survives)),
      fun none => or_iff_left none⟩
  · rw [enabled]
    exact or_iff_left (not_spellingSurvives_of_one one)

/-- A detector that the settings enable stays enabled when the command line says otherwise in
lower case. -/
theorem lower_case_does_not_decide :
    let s : Settings := { detectorArguments := .ofList [("Pip", "Enable")] }
    let o : ScanOptions := { detectorArguments := ["pip = Disable"] }
    let all := [("Pip", "Enable"), ("pip", "Disable")]
    o.detectorArguments.mapM DetectorArgument.parse = .ok [("pip", "Disable")] ∧
      o.maxThreads ≠ some 0 ∧ SpellingSurvives all "Pip" ∧
        ∃ a, scanArguments s o "src" = .ok a ∧
          ¬ (a.restrictions.isEnabled "Pip" = true ↔ LastEnables all "Pip") := by
  intro s o all
  have accepted : o.detectorArguments.mapM DetectorArgument.parse = .ok [("pip", "Disable")] := by
    decide +kernel
  have threads : o.maxThreads ≠ some 0 := by decide
  obtain ⟨a, made, -, decides, -⟩ := last_argument_decides_iff s o "src" "Pip" accepted threads
  exact ⟨accepted, threads, lower_survives, a, made, fun same => decides.mp same lower_survives⟩

/-- Two spellings in the settings, of which the last is overlooked. -/
theorem disabled_spelling_enabled :
    let s : Settings := { detectorArguments := .ofList [("Pip", "Enable"), ("pip", "Disable")] }
    ∃ a, scanArguments s {} "src" = .ok a ∧ a.restrictions.isEnabled "Pip" = true ∧
      ¬ LastEnables s.detectorArguments.entries "Pip" := by
  intro s
  exact ⟨_, rfl, by decide, lower_survives.not_lastEnables⟩

end CommandLine

end Inventory
