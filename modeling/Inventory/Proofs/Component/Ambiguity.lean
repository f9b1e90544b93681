import Inventory.Proofs.Component.Identity
import Inventory.Proofs.Text.Spaced
import Mathlib.Data.List.Basic

/-! Which components their ids tell apart. An id shows the ecosystem, but it joins the identity
fields by spaces that the fields may have as well, so one text can come from several components. -/
namespace Inventory

open Text (spaced lower lowercase Tight Blanks KeepsSpaces)

variable {e : Ecosystem} {c c' : Component}

def Ecosystem.fold : Ecosystem → List Char → List Char
  | pip => lower
  | _ => id

namespace Component

/-- The ecosystem and the identity fields, in lower case for Pip. Nothing else is in a key. -/
def key (c : Component) : Ecosystem × List String :=
  (c.ecosystem, c.identity.map fun f => if c.ecosystem = .pip then lowercase f.2 else f.2)

def fields (c : Component) : List (List Char) := c.identity.map (·.2.toList)

end Component

theorem Ecosystem.keepsSpaces (e : Ecosystem) : KeepsSpaces e.fold := by
  cases e with
  | pip => exact Text.keepsSpaces_lower
  | _ => exact Text.keepsSpaces_id

def Ecosystem.mark (e : Ecosystem) : List Char := e.fold e.label.toList

theorem Ecosystem.mark_inj {e' : Ecosystem} (same : e.mark = e'.mark) : e = e' := by
  have every (e : Ecosystem) : e ∈ all := by cases e <;> decide
  have differ : ∀ e ∈ all, ∀ e' ∈ all, e.mark = e'.mark → e = e' := by decide +kernel
  exact differ e (every e) e' (every e') same

theorem Ecosystem.space_not_mem_mark (e : Ecosystem) : ' ' ∉ e.mark := by
  cases e <;> decide +kernel

namespace Component

theorem fields_ne_nil (c : Component) : c.fields ≠ [] := by
  cases c <;> simp [fields, identity]

theorem key_eq (c : Component) :
    c.key = (c.ecosystem, (c.fields.map c.ecosystem.fold).map String.ofList) := by
  cases c <;> simp [key, fields, ecosystem, Ecosystem.fold, Text.lowercase_eq, Function.comp_def]

theorem key_eq_iff : c.key = c'.key ↔ c.ecosystem = c'.ecosystem ∧
    c.fields.map c.ecosystem.fold = c'.fields.map c'.ecosystem.fold := by
  rw [key_eq, key_eq, Prod.mk.injEq, List.map_inj_right fun _ _ => String.ofList_inj.mp]

theorem toList_id (c : Component) : c.id.toList =
    spaced (c.fields.map c.ecosystem.fold) ++ ' ' :: ('-' :: ' ' :: c.ecosystem.mark) := by
  have folded : c.id.toList = c.ecosystem.fold
      (" ".intercalate (c.identity.map (·.2)) ++ " - " ++ c.ecosystem.label).toList := by
    cases c <;> simp [id, ecosystem, Ecosystem.fold, Text.lowercase_eq]
  have text : (" ".intercalate (c.identity.map (·.2)) ++ " - " ++ c.ecosystem.label).toList =
      spaced c.fields ++ ' ' :: (['-'] ++ ' ' :: c.ecosystem.label.toList) := by
    simp [spaced, fields, String.toList_intercalate, Function.comp_def]
  have dash : c.ecosystem.fold ['-'] = ['-'] := by cases c.ecosystem <;> decide
  have keeps := c.ecosystem.keepsSpaces
  rw [folded, text, keeps.append, keeps.append, dash, keeps.map_spaced c.fields_ne_nil]
  rfl

/-- Two texts that go on behind a space with no other space in what follows. -/
theorem append_space_inj {s s' t t' : List Char} (last : ' ' ∉ t) (last' : ' ' ∉ t')
    (same : s ++ ' ' :: t = s' ++ ' ' :: t') : s = s' ∧ t = t' := by
  rcases List.append_eq_append_iff.mp same with ⟨w, rfl, here⟩ | ⟨w, rfl, here⟩
  · cases w with
    | nil => exact ⟨(List.append_nil _).symm, (List.cons.inj here).2⟩
    | cons d w =>
      have inner : t = w ++ ' ' :: t' := (List.cons.inj here).2
      exact absurd (inner ▸ by simp) last
  · cases w with
    | nil => exact ⟨List.append_nil _, (List.cons.inj here).2.symm⟩
    | cons d w =>
      have inner : t' = w ++ ' ' :: t := (List.cons.inj here).2
      exact absurd (inner ▸ by simp) last'

/-- An id is the ecosystem and one text of all fields. -/
theorem id_eq_iff : c.id = c'.id ↔ c.ecosystem = c'.ecosystem ∧
    spaced (c.fields.map c.ecosystem.fold) = spaced (c'.fields.map c'.ecosystem.fold) := by
  rw [← String.toList_inj, toList_id, toList_id]
  constructor
  · intro same
    have split (c : Component) : spaced (c.fields.map c.ecosystem.fold) ++
        ' ' :: ('-' :: ' ' :: c.ecosystem.mark) =
          (spaced (c.fields.map c.ecosystem.fold) ++ [' ', '-']) ++ ' ' :: c.ecosystem.mark := by
      simp
    rw [split, split] at same
    obtain ⟨front, mark⟩ := append_space_inj c.ecosystem.space_not_mem_mark
      c'.ecosystem.space_not_mem_mark same
    exact ⟨Ecosystem.mark_inj mark, List.append_cancel_right front⟩
  · rintro ⟨ecosystem, text⟩
    rw [text, ecosystem]

theorem checked_eq_ok_iff : c.checked = .ok c ↔ ∀ f ∈ c.fields, ¬ Blanks f := by
  have passes : c.checked = .ok c ↔ c.checked.toOption = some c := by
    cases c.checked <;> simp [Except.toOption]
  rw [passes, toOption_checked_eq_some_iff, and_iff_left rfl, fields, List.forall_mem_map]
  simp only [Text.isBlank, Blanks, List.all_eq_false, Classical.not_forall, exists_prop]

def withFields (c : Component) (fields : List String) : Component :=
  match c, fields with
  | npm _ _ hash, [name, version] => npm name version hash
  | nuGet .., [name, version] => nuGet name version
  | pip _ _ author license, [name, version] => pip name version author license
  | go _ _ hash, [name, version] => go name version hash
  | cargo _ _ source, [name, version] => cargo name version source
  | maven .., [group, artifact, version] => maven group artifact version
  | rubyGems .., [name, version] => rubyGems name version
  | other .., [name, version, url] => other name version url
  | c, _ => c

theorem withFields_eq {texts : List String} (length : c.fields.length = texts.length) :
    (c.withFields texts).ecosystem = c.ecosystem ∧
      (c.withFields texts).fields = texts.map String.toList := by
  rw [fields, List.length_map] at length
  cases c with
  | maven | other =>
    obtain ⟨first, second, third, rfl⟩ := List.length_eq_three.mp length.symm
    exact ⟨rfl, rfl⟩
  | _ =>
    obtain ⟨first, second, rfl⟩ := List.length_eq_two.mp length.symm
    exact ⟨rfl, rfl⟩

theorem exists_withFields (c : Component) {texts : List (List Char)}
    (length : c.fields.length = texts.length) :
    ∃ c' : Component, c'.ecosystem = c.ecosystem ∧ c'.fields = texts := by
  have length' : c.fields.length = (texts.map String.ofList).length := by
    rw [List.length_map, length]
  obtain ⟨same, fields⟩ := withFields_eq length'
  exact ⟨_, same, by simpa [Function.comp_def] using fields⟩

/-- Fields that are cut in two places make two components with one id. -/
theorem exists_same_id (passes : c.checked = .ok c) (loose : ¬ Tight c.fields) :
    ∃ c' : Component, c'.checked = .ok c' ∧ c.id = c'.id ∧ c.key ≠ c'.key := by
  have filled := checked_eq_ok_iff.mp passes
  have keeps := c.ecosystem.keepsSpaces
  obtain ⟨before, x, y, z, after, front, back, cut⟩ := Text.exists_moved filled loose
  have others : (∀ f ∈ before, ¬ Blanks f) ∧ ∀ f ∈ after, ¬ Blanks f := by
    rcases cut with whole | whole <;> rw [whole] at filled <;> simp_all
  have inner {u v : List Char} (some : ¬ Blanks u ∨ ¬ Blanks v) : ¬ Blanks (u ++ ' ' :: v) := by
    intro all
    obtain ⟨first, rest⟩ := List.forall_mem_append.mp all
    exact some.elim (· first) (· (List.forall_mem_cons.mp rest).2)
  -- Either way the other cut makes the other component.
  obtain ⟨texts, length, filled', text, differ⟩ : ∃ texts, c.fields.length = texts.length ∧
      (∀ f ∈ texts, ¬ Blanks f) ∧ spaced c.fields = spaced texts ∧
      c.fields.map c.ecosystem.fold ≠ texts.map c.ecosystem.fold := by
    rcases cut with whole | whole
    · refine ⟨before ++ x :: (y ++ ' ' :: z) :: after, by simp [whole], ?_,
        whole ▸ Text.spaced_moved before x y z after,
        whole ▸ keeps.map_moved_ne before x y z after⟩
      simpa [or_imp, forall_and, front, inner (.inr back)] using others
    · refine ⟨before ++ (x ++ ' ' :: y) :: z :: after, by simp [whole], ?_,
        whole ▸ (Text.spaced_moved before x y z after).symm,
        whole ▸ (keeps.map_moved_ne before x y z after).symm⟩
      simpa [or_imp, forall_and, back, inner (.inl front)] using others
  obtain ⟨c', ecosystem, rfl⟩ := c.exists_withFields length
  refine ⟨c', checked_eq_ok_iff.mpr filled', id_eq_iff.mpr ⟨ecosystem.symm, ?_⟩, fun same => ?_⟩
  · rw [ecosystem, ← keeps.map_spaced c.fields_ne_nil, ← keeps.map_spaced c'.fields_ne_nil, text]
  · rw [key_eq_iff, ecosystem] at same
    exact differ same.2

theorem key_eq_of_tight (passes : c.checked = .ok c) (passes' : c'.checked = .ok c')
    (tight : Tight c.fields) (same : c.id = c'.id) : c.key = c'.key := by
  obtain ⟨ecosystem, text⟩ := id_eq_iff.mp same
  have filled {c : Component} (passes : c.checked = .ok c) :
      ∀ f ∈ c.fields.map c.ecosystem.fold, ¬ Blanks f := by
    rw [List.forall_mem_map]
    exact fun f member => (c.ecosystem.keepsSpaces.blanks_iff f).not.mpr
      (checked_eq_ok_iff.mp passes f member)
  have length : (c.fields.map c.ecosystem.fold).length =
      (c'.fields.map c'.ecosystem.fold).length := by
    have count (c : Component) : c.identity.length =
        if c.ecosystem = .maven ∨ c.ecosystem = .other then 3 else 2 := by cases c <;> rfl
    simp [fields, count, ecosystem]
  have fields : c.fields.map c.ecosystem.fold = c'.fields.map c'.ecosystem.fold :=
    (c.ecosystem.keepsSpaces.tight_map tight).spaced_inj (filled passes) (filled passes') length text
  exact key_eq_iff.mpr ⟨ecosystem, fields⟩

/-- One key gives one id, and one id has one ecosystem. An id tells a component from all others that
pass the check, exactly if no space in one of its fields can be taken for the end of a field. -/
theorem id_tells_apart_iff (c : Component) :
    (∀ c' : Component, c.key = c'.key → c.id = c'.id) ∧
    (∀ c' : Component, c.id = c'.id → c.ecosystem = c'.ecosystem) ∧
    (c.checked = .ok c →
      ((∀ c' : Component, c'.checked = .ok c' → c.id = c'.id → c.key = c'.key) ↔
        Tight c.fields)) := by
  refine ⟨fun c' same => ?_, fun c' same => (id_eq_iff.mp same).1, fun passes => ?_⟩
  · obtain ⟨ecosystem, fields⟩ := key_eq_iff.mp same
    exact id_eq_iff.mpr ⟨ecosystem, congrArg spaced fields⟩
  · constructor
    · intro apart
      by_contra loose
      obtain ⟨c', passes', same, differ⟩ := exists_same_id passes loose
      exact differ (apart c' passes' same)
    · exact fun tight c' passes' => key_eq_of_tight passes passes' tight

/-- The space in a name and the one in a version stand for the one between the two. -/
theorem two_packages_of_one_id :
    let c : Component := npm "left pad" "1.3.0" none
    let c' : Component := npm "left" "pad 1.3.0" none
    c.checked = .ok c ∧ c'.checked = .ok c' ∧ c.key ≠ c'.key ∧ c.id = c'.id := by
  decide +kernel

end Component

end Inventory
