/-! Maps from text keys, held in ascending key order. Two maps with the same entries are the same
value, so equality of states can be stated and decided entry by entry. A set of texts is a map to
`Unit`. Order is by code point, which is also the order of the UTF-8 bytes. -/
namespace Inventory

structure SortedMap (α : Type u) where
  entries : List (String × α)
  sorted : entries.Pairwise (fun a b => a.1 < b.1)
  deriving DecidableEq, Repr

theorem lt_of_not_lt_of_ne {a b : String} (le : ¬ a < b) (ne : ¬ a = b) : b < a :=
  String.not_le.1 fun h => ne (String.le_antisymm h (String.not_lt.1 le))

namespace SortedMap

variable {α : Type u} {β : Type v}

/-- Replaces the entry of `key` by `f` of it, or puts a new one where the order wants it. -/
def upsertEntry (key : String) (f : Option α → α) : List (String × α) → List (String × α)
  | [] => [(key, f none)]
  | (k, v) :: rest =>
    if key < k then (key, f none) :: (k, v) :: rest
    else if key = k then (k, f (some v)) :: rest
    else (k, v) :: upsertEntry key f rest

theorem mem_upsertEntry {key : String} {f : Option α → α} {e : String × α}
    {l : List (String × α)} (h : e ∈ upsertEntry key f l) : e.1 = key ∨ e ∈ l := by
  induction l with
  | nil => exact .inl (by simp_all [upsertEntry])
  | cons head rest ih =>
    obtain ⟨k, v⟩ := head
    simp only [upsertEntry] at h
    split at h
    · rcases List.mem_cons.1 h with rfl | h
      · exact .inl rfl
      · exact .inr h
    · split at h
      · rcases List.mem_cons.1 h with rfl | h
        · exact .inl (by simp_all)
        · exact .inr (List.mem_cons_of_mem _ h)
      · rcases List.mem_cons.1 h with rfl | h
        · exact .inr List.mem_cons_self
        · exact (ih h).imp id (List.mem_cons_of_mem _)

theorem sorted_upsertEntry (key : String) (f : Option α → α) {l : List (String × α)}
    (h : l.Pairwise (fun a b => a.1 < b.1)) :
    (upsertEntry key f l).Pairwise (fun a b => a.1 < b.1) := by
  induction l with
  | nil => simp [upsertEntry]
  | cons head rest ih =>
    obtain ⟨k, v⟩ := head
    have above : ∀ e ∈ rest, k < e.1 := fun e he => List.rel_of_pairwise_cons h he
    simp only [upsertEntry]
    split
    next lt =>
      refine h.cons fun e he => ?_
      rcases List.mem_cons.1 he with rfl | he
      · exact lt
      · exact String.lt_trans lt (above e he)
    next le =>
      split
      next => exact h.of_cons.cons fun e he => above e he
      next ne =>
        refine (ih h.of_cons).cons fun e he => ?_
        rcases mem_upsertEntry he with eq | he
        · exact eq ▸ lt_of_not_lt_of_ne le ne
        · exact above e he

def empty : SortedMap α := ⟨[], .nil⟩

instance : Inhabited (SortedMap α) := ⟨empty⟩
instance : EmptyCollection (SortedMap α) := ⟨empty⟩

def isEmpty (m : SortedMap α) : Bool := m.entries.isEmpty
def size (m : SortedMap α) : Nat := m.entries.length
def keys (m : SortedMap α) : List String := m.entries.map (·.1)
def values (m : SortedMap α) : List α := m.entries.map (·.2)

def get? (m : SortedMap α) (key : String) : Option α :=
  (m.entries.find? (·.1 == key)).map (·.2)

def contains (m : SortedMap α) (key : String) : Bool := m.entries.any (·.1 == key)

def upsert (m : SortedMap α) (key : String) (f : Option α → α) : SortedMap α :=
  ⟨upsertEntry key f m.entries, sorted_upsertEntry key f m.sorted⟩

/-- The last value given for a key is kept. -/
def insert (m : SortedMap α) (key : String) (value : α) : SortedMap α := m.upsert key fun _ => value

/-- The first value given for a key is kept. -/
def insertNew (m : SortedMap α) (key : String) (value : α) : SortedMap α :=
  m.upsert key (·.getD value)

/-- Changes the entry of `key` if there is one. -/
def modify (m : SortedMap α) (key : String) (f : α → α) : SortedMap α where
  entries := m.entries.map fun e => if e.1 = key then (e.1, f e.2) else e
  sorted := by
    refine List.pairwise_map.2 (m.sorted.imp fun {a b} h => ?_)
    split <;> split <;> exact h

theorem any_upsertEntry (key : String) (f : Option α → α) (k : String) (l : List (String × α)) :
    (upsertEntry key f l).any (·.1 == k) = (key == k || l.any (·.1 == k)) := by
  induction l with
  | nil => simp [upsertEntry]
  | cons head rest ih =>
    simp only [upsertEntry]
    split
    · simp
    · split
      next eq => simp [eq]
      next => simp [ih, Bool.or_left_comm]

@[simp] theorem contains_upsert (m : SortedMap α) (key : String) (f : Option α → α) (k : String) :
    (m.upsert key f).contains k = (key == k || m.contains k) :=
  any_upsertEntry key f k m.entries

/-- What holds of every entry holds of them after a write, if the write keeps it for its key. -/
theorem forall_mem_upsert {m : SortedMap α} {key : String} {f : Option α → α}
    {p : String × α → Prop} (all : ∀ e ∈ m.entries, p e) (new : p (key, f none))
    (old : ∀ v, p (key, v) → p (key, f (some v))) : ∀ e ∈ (m.upsert key f).entries, p e := by
  have entries : ∀ l : List (String × α), (∀ e ∈ l, p e) → ∀ e ∈ upsertEntry key f l, p e := by
    intro l
    induction l with
    | nil => simpa [upsertEntry] using new
    | cons head rest ih =>
      intro all
      have here := all head List.mem_cons_self
      have there := ih fun e he => all e (List.mem_cons_of_mem _ he)
      simp only [upsertEntry]
      split
      · simpa using ⟨new, by simpa using all⟩
      · split
        next eq =>
          subst eq
          simpa using ⟨old _ here, fun a b he => all _ (List.mem_cons_of_mem _ he)⟩
        next => simpa using ⟨here, by simpa using there⟩
  exact entries m.entries all

theorem contains_eq_true {m : SortedMap α} {key : String} :
    m.contains key = true ↔ key ∈ m.keys := by
  simp [contains, keys]

def map (f : α → β) (m : SortedMap α) : SortedMap β where
  entries := m.entries.map fun e => (e.1, f e.2)
  sorted := List.pairwise_map.2 m.sorted

def filterKeys (p : String → Bool) (m : SortedMap α) : SortedMap α where
  entries := m.entries.filter (p ·.1)
  sorted := m.sorted.filter _

def ofList (l : List (String × α)) : SortedMap α := l.foldl (fun m e => m.insert e.1 e.2) empty

/-- Adds the entries of `b` whose keys `a` lacks. -/
def unionNew (a b : SortedMap α) : SortedMap α :=
  b.entries.foldl (fun m e => m.insertNew e.1 e.2) a

/-- Adds every entry of `b`, which wins where both have the key. -/
def union (a b : SortedMap α) : SortedMap α := b.entries.foldl (fun m e => m.insert e.1 e.2) a

end SortedMap

abbrev StringSet := SortedMap Unit

namespace StringSet

def add (s : StringSet) (x : String) : StringSet := s.insert x ()
def addAll (s : StringSet) (xs : List String) : StringSet := xs.foldl add s
def ofList (xs : List String) : StringSet := addAll SortedMap.empty xs
def toList (s : StringSet) : List String := s.keys
def union (a b : StringSet) : StringSet := a.addAll b.toList

@[simp] theorem contains_add (s : StringSet) (x y : String) :
    (s.add x).contains y = (x == y || s.contains y) :=
  SortedMap.contains_upsert ..

theorem contains_addAll (s : StringSet) (xs : List String) (y : String) :
    (s.addAll xs).contains y = (xs.contains y || s.contains y) := by
  induction xs generalizing s with
  | nil => simp [addAll]
  | cons x xs ih =>
    simp only [addAll, List.foldl_cons] at ih ⊢
    rw [ih, contains_add, List.contains_cons, @BEq.comm _ _ _ x y]
    cases xs.contains y <;> cases s.contains y <;> simp

end StringSet

end Inventory
