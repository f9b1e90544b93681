import Inventory.Document.Detected
import Inventory.Proofs.Component.Merging
import Inventory.Proofs.Json.Decode

/-! Components and detected components are read back from their JSON form. -/
namespace Inventory

namespace Json

variable {members : List (String × Option Json)} {f : Fields} {name : String} {α : Type u}
  {read : Json → Option α}

theorem required_of_get? {json : Json} (here : f.get? name = some json) :
    f.required name read = read json := by
  rw [Fields.required, here, Option.bind_some]

/-- A field that is written only if it is known. -/
theorem optional_of_get? (write : α → Json) {value : Option α} (named : f.positional = false)
    (here : f.get? name = value.map write) (back : ∀ a, read (write a) = some a)
    (known : ∀ a, write a ≠ .null) : f.optional name read = some value := by
  cases value with
  | none =>
    rw [Fields.optional, here, Option.map_none]
    simp [named]
  | some a =>
    have present : optional? read (write a) = (read (write a)).map some := by
      unfold optional?
      split
      next null => exact absurd null (known a)
      next => rfl
    rw [Fields.optional, here, Option.map_some]
    exact present.trans (by rw [back, Option.map_some])

theorem defaulted_of_get? {default value : α} {json : Json} (here : f.get? name = some json)
    (back : read json = some value) : f.defaulted name read default = some value := by
  rw [Fields.defaulted, here]
  exact back

theorem defaulted_of_none {default : α} (here : f.get? name = none) :
    f.defaulted name read default = some default := by
  rw [Fields.defaulted, here]

def OfTexts (members : List (String × Option Json)) : Prop :=
  ∀ m ∈ members, ∀ value, m.2 = some value → ∃ s, value = .string s

theorem exists_of_mem_written {m : String × Json} (texts : OfTexts members)
    (member : m ∈ written members) : ∃ s, m.2 = .string s := by
  obtain ⟨⟨name, value⟩, there, made⟩ := List.mem_filterMap.mp member
  obtain ⟨json, rfl, rfl⟩ := Option.map_eq_some_iff.mp made
  exact texts _ there json rfl

theorem usable_objectOf (texts : OfTexts members) : (objectOf members).usable = true := by
  have all : ∀ l : List (String × Json), (∀ m ∈ l, ∃ s, m.2 = .string s) →
      usableMembers l = true := by
    intro l
    induction l with
    | nil => exact fun _ => by rw [usableMembers]
    | cons m l ih =>
      intro texts
      obtain ⟨⟨s, text⟩, rest⟩ := List.forall_mem_cons.mp texts
      simp [usableMembers, text, usable, ih rest]
  rw [objectOf, usable]
  exact all _ fun m => exists_of_mem_written texts

theorem height_objectOf (texts : OfTexts members) : (objectOf members).height = 1 := by
  have all : ∀ l : List (String × Json), (∀ m ∈ l, ∃ s, m.2 = .string s) →
      heightOfMembers l = 0 := by
    intro l
    induction l with
    | nil => exact fun _ => by rw [heightOfMembers]
    | cons m l ih =>
      intro texts
      obtain ⟨⟨s, text⟩, rest⟩ := List.forall_mem_cons.mp texts
      simp [heightOfMembers, text, height, ih rest]
  rw [objectOf, height]
  exact congrArg (· + 1) (all _ fun m => exists_of_mem_written texts)

end Json

namespace Component

open Json

variable {depth : Nat}

theorem splitType?_objectOf {members : List (String × Option Json)} (type : String)
    (other : "type" ∉ members.map (·.1)) :
    splitType? (objectOf (("type", some (.string type)) :: members)) =
      some (type, objectOf members) := by
  have shape : objectOf (("type", some (.string type)) :: members) =
      .object (("type", .string type) :: written members) := rfl
  have names : ∀ m ∈ written members, m.1 ≠ "type" := fun m member same =>
    other (same ▸ (sublist_written members).subset (List.mem_map_of_mem member))
  have none : (written members).filter (·.1 == "type") = [] := by
    rw [List.filter_eq_nil_iff]
    exact fun m member same => names m member (eq_of_beq same)
  have all : (written members).filter (·.1 != "type") = written members := by
    rw [List.filter_eq_self]
    exact fun m member => bne_iff_ne.mpr (names m member)
  have one : (("type", Json.string type) :: written members).filter (·.1 == "type") =
      [("type", .string type)] := by
    rw [List.filter_cons_of_pos (by simp), none]
  have rest : (("type", Json.string type) :: written members).filter (·.1 != "type") =
      written members := by
    rw [List.filter_cons_of_neg (by simp), all]
  rw [shape, splitType?, one, rest]
  rfl

theorem ofTexts_members (c : Component) : OfTexts c.members := by
  cases c <;> simp [OfTexts, members]

theorem ofFields?_members (c : Component) :
    ofFields? (objectOf c.members) c.ecosystem = some c := by
  have distinct : (c.members.map (·.1)).Nodup := by cases c <;> simp [members]
  have found := fields?_objectOf distinct
  cases c with
  | npm name version hash | go name version hash | cargo name version hash =>
    simp only [members, List.map_cons, List.map_nil] at found
    simp only [members, ecosystem, ofFields?, found]
    cases hash <;> simp [ofFields?.text, ofFields?.note, Fields.required, Fields.optional,
      Fields.get?, string?, optional?]
  | pip name version author license =>
    simp only [members, List.map_cons, List.map_nil] at found
    simp only [members, ecosystem, ofFields?, found]
    cases author <;> cases license <;> simp [ofFields?.text, ofFields?.note, Fields.required,
      Fields.optional, Fields.get?, string?, optional?]
  | nuGet | rubyGems | maven | other =>
    simp only [members, List.map_cons, List.map_nil] at found
    simp only [members, ecosystem, ofFields?, found]
    simp [ofFields?.text, Fields.required, Fields.get?, string?]

theorem ofLabel?_label (e : Ecosystem) : Ecosystem.ofLabel? e.label = some e := by
  cases e <;> decide

/-- A component is read back wherever it stands not too deep. -/
theorem ofJson?_toJson (shallow : depth < nestingLimit) (c : Component) :
    ofJson? depth c.toJson = some c := by
  have texts : OfTexts (("type", some (.string c.ecosystem.label)) :: c.members) :=
    List.forall_mem_cons.mpr ⟨by simp, ofTexts_members c⟩
  have height : c.toJson.height = 1 := height_objectOf texts
  have split : splitType? c.toJson = some (c.ecosystem.label, objectOf c.members) :=
    splitType?_objectOf _ (by cases c <;> simp [members])
  have deep : ¬ depth + 1 > nestingLimit := by omega
  simp only [ofJson?, height, deep, split]
  simp [usable_objectOf (ofTexts_members c), ofLabel?_label, ofFields?_members]

end Component

namespace ComponentSet

theorem ofList_toList (s : ComponentSet) : ofList s.toList = s := by
  have ext : ∀ a b : ComponentSet, a.byId = b.byId → a = b := by
    rintro ⟨a, _⟩ ⟨b, _⟩ rfl
    rfl
  refine ext _ _ (SortedMap.ext_get? fun id => ?_)
  rw [ofList, get?_insertAll, find?_toList, empty, SortedMap.get?_empty, Option.none_or]

end ComponentSet

theorem Scope.ofLabel?_label (s : Scope) : Scope.ofLabel? s.label = some s := by
  cases s <;> decide

namespace Detected

open Json

variable {depth : Nat}

/-- A field that is left out when it is empty. -/
theorem defaulted_nonempty {α : Type} {f : Fields} {name : String} {m : SortedMap α} {json : Json}
    {read : Json → Option (SortedMap α)} (here : f.get? name = nonempty m json)
    (back : read json = some m) : f.defaulted name read .empty = some m := by
  unfold nonempty at here
  split at here
  next none =>
    have empty : m = .empty := SortedMap.ext_get? fun key => by
      rw [SortedMap.get?, List.isEmpty_iff.mp none]
      rfl
    rw [defaulted_of_none here, empty]
  next => exact defaulted_of_get? here back

theorem distinct_members (d : Detected) : (d.members.map (·.1)).Nodup := by simp [members]

theorem ofJson?_toJson (shallow : depth + 2 < Component.nestingLimit) (d : Detected) :
    ofJson? depth d.toJson = some d := by
  have found : d.toJson.fields? fieldNames = some ⟨d.members, false⟩ :=
    fields?_objectOf (distinct_members d)
  obtain ⟨f, fields⟩ : ∃ f, Fields.mk d.members false = f := ⟨_, rfl⟩
  rw [fields] at found
  have named : f.positional = false := by rw [← fields]
  have component : f.required "component" (Component.ofJson? (depth + 1)) = some d.component :=
    (required_of_get? (by rw [← fields]; rfl)).trans
      (Component.ofJson?_toJson (by omega) d.component)
  have filePaths : f.defaulted "filePaths" stringSet? .empty = some d.filePaths :=
    defaulted_of_get? (by rw [← fields]; rfl) (stringSet?_strings d.filePaths)
  have roots : f.defaulted "dependencyRoots" (list? (Component.ofJson? (depth + 2))) [] =
      some d.roots.toList :=
    defaulted_of_get? (by rw [← fields]; rfl)
      (list?_array fun c _ => Component.ofJson?_toJson (by omega) c)
  have development : f.optional "developmentDependency" bool? = some d.development :=
    optional_of_get? .bool named (by rw [← fields]; rfl) (fun _ => rfl) fun _ => by simp
  have scope : f.optional "dependencyScope" scope? = some d.scope :=
    optional_of_get? (fun s : Scope => .string s.label) named (by rw [← fields]; rfl)
      Scope.ofLabel?_label fun _ => by simp
  have explicit : f.defaulted "isExplicitReferencedDependency" bool? false = some d.explicit :=
    defaulted_of_get? (by rw [← fields]; rfl) rfl
  have frameworks : f.defaulted "targetFrameworks" stringSet? .empty = some d.frameworks :=
    defaulted_nonempty (by rw [← fields]; rfl) (stringSet?_strings d.frameworks)
  have detectorIds : f.defaulted "detectorIds" stringSet? .empty = some d.detectorIds :=
    defaulted_nonempty (by rw [← fields]; rfl) (stringSet?_strings d.detectorIds)
  have metadata : f.defaulted "additionalMetadata" (map? string?) .empty = some d.metadata :=
    defaulted_nonempty (by rw [← fields]; rfl) (map?_object fun _ _ => rfl)
  rw [ofJson?, found]
  simp only [Option.bind_eq_bind, Option.bind_some, component, filePaths, roots, development, scope,
    explicit, frameworks, detectorIds, metadata, ComponentSet.ofList_toList]
  rfl

end Detected

end Inventory
