import Inventory.Json.Decode
import Inventory.Proofs.Json.RoundTrip
import Inventory.Proofs.SortedMap

/-! Records, lists and maps that are written as JSON are read back as they were. -/
namespace Inventory

theorem StringSet.ofList_toList (s : StringSet) : StringSet.ofList s.toList = s := by
  refine StringSet.ext fun x => ?_
  rw [StringSet.contains_ofList, Bool.eq_iff_iff, List.contains_iff_mem, StringSet.mem_toList]

namespace Json

variable {α : Type u} {read : Json → Option α} {write : α → Json}
  {members : List (String × Option Json)}

def written (members : List (String × Option Json)) : List (String × Json) :=
  members.filterMap fun m => m.2.map (m.1, ·)

theorem sublist_written (members : List (String × Option Json)) :
    ((written members).map (·.1)).Sublist (members.map (·.1)) := by
  induction members with
  | nil => exact .slnil
  | cons m members ih =>
    obtain ⟨name, value⟩ := m
    cases value with
    | none => exact ih.cons name
    | some value => exact ih.cons_cons name

theorem find?_written (distinct : (members.map (·.1)).Nodup) {m : String × Option Json}
    (member : m ∈ members) : ((written members).find? (·.1 == m.1)).map (·.2) = m.2 := by
  induction members with
  | nil => cases member
  | cons first members ih =>
    obtain ⟨fresh, distinct⟩ := List.nodup_cons.mp distinct
    have absent : (written members).find? (·.1 == first.1) = none := by
      rw [List.find?_eq_none]
      intro found there same
      have name := (sublist_written members).subset (List.mem_map_of_mem there)
      rw [eq_of_beq same] at name
      exact fresh name
    rcases List.mem_cons.mp member with rfl | later
    · obtain ⟨name, value⟩ := m
      cases value with
      | none =>
        have skip : written ((name, none) :: members) = written members := rfl
        rw [skip, absent, Option.map_none]
      | some value =>
        have here : written ((name, some value) :: members) =
            (name, value) :: written members := rfl
        rw [here, List.find?_cons, beq_self_eq_true]
        rfl
    · have other : (first.1 == m.1) = false := by
        rw [beq_eq_false_iff_ne]
        intro same
        exact fresh (List.mem_map.mpr ⟨m, later, same.symm⟩)
      rw [← ih distinct later]
      obtain ⟨name, value⟩ := first
      cases value with
      | none => rfl
      | some value =>
        have here : written ((name, some value) :: members) =
            (name, value) :: written members := rfl
        rw [here, List.find?_cons, other]

/-- Fields of distinct names are found as they were written. -/
theorem fields?_objectOf (distinct : (members.map (·.1)).Nodup) :
    (objectOf members).fields? (members.map (·.1)) = some ⟨members, false⟩ := by
  have once : (members.map (·.1)).all
      (fun name => decide (((written members).filter (·.1 == name)).length ≤ 1)) = true := by
    rw [List.all_eq_true]
    intro name _
    have count := List.nodup_iff_count_le_one.mp (distinct.sublist (sublist_written members)) name
    rw [List.count, List.countP_map, List.countP_eq_length_filter] at count
    exact decide_eq_true count
  have found : (members.map (·.1)).map
      (fun name => (name, ((written members).find? (·.1 == name)).map (·.2))) = members := by
    rw [List.map_map]
    conv_rhs => rw [← List.map_id members]
    refine List.map_congr_left fun m member => ?_
    exact Prod.ext rfl (find?_written distinct member)
  have shape : objectOf members = .object (written members) := rfl
  rw [shape, fields?, if_pos once, found]

theorem object_eq_objectOf (members : List (String × Json)) :
    Json.object members = objectOf (members.map fun m => (m.1, some m.2)) := by
  rw [objectOf, List.filterMap_map]
  simp

theorem fields?_object {members : List (String × Json)} (distinct : (members.map (·.1)).Nodup) :
    (Json.object members).fields? (members.map (·.1)) =
      some ⟨members.map fun m => (m.1, some m.2), false⟩ := by
  have names : (members.map fun m => (m.1, some m.2)).map (·.1) = members.map (·.1) := by
    rw [List.map_map]
    rfl
  rw [object_eq_objectOf, ← names]
  exact fields?_objectOf (names ▸ distinct)

theorem mapM_map (write : α → β) {read : β → Option α} {l : List α}
    (back : ∀ a ∈ l, read (write a) = some a) : (l.map write).mapM read = some l := by
  induction l with
  | nil => rfl
  | cons a l ih =>
    obtain ⟨here, rest⟩ := List.forall_mem_cons.mp back
    rw [List.map_cons, List.mapM_cons, here, ih rest]
    rfl

theorem list?_array {l : List α} (back : ∀ a ∈ l, read (write a) = some a) :
    list? read (.array (l.map write)) = some l := mapM_map write back

/-- What holds of every item that can be read holds of those of a list. -/
theorem forall_mem_of_list? {p : α → Prop} {l : List α} {j : Json}
    (each : ∀ item a, read item = some a → p a) (found : list? read j = some l) :
    ∀ a ∈ l, p a := by
  cases j with
  | array items =>
    rw [list?] at found
    induction items generalizing l with
    | nil =>
      cases found
      simp
    | cons item items ih =>
      rw [List.mapM_cons] at found
      obtain ⟨a, here, found⟩ := Option.bind_eq_some_iff.mp found
      obtain ⟨rest, there, found⟩ := Option.bind_eq_some_iff.mp found
      cases found
      exact List.forall_mem_cons.mpr ⟨each item a here, ih there⟩
  | _ => cases found

theorem stringSet?_strings (s : StringSet) : stringSet? (strings s.toList) = some s := by
  have texts : list? string? (.array (s.toList.map .string)) = some s.toList :=
    list?_array fun _ _ => rfl
  rw [stringSet?, strings, texts, Option.map_some, StringSet.ofList_toList]

theorem map?_object {m : SortedMap α} (back : ∀ e ∈ m.entries, read (write e.2) = some e.2) :
    map? read (.object (m.map write).entries) = some m := by
  have entries : (m.map write).entries = m.entries.map fun e => (e.1, write e.2) := rfl
  have all : (m.entries.map fun e => (e.1, write e.2)).mapM
      (fun e : String × Json => (read e.2).map (e.1, ·)) = some m.entries :=
    mapM_map _ fun e member => by rw [back e member, Option.map_some]
  rw [entries, map?, all]
  exact congrArg some m.ofList_entries

end Json

end Inventory
