import Inventory.Component.Basic
import Inventory.SortedMap

/-! Sets of components, one to an id. Of two components that differ only in what is not identity,
the first one inserted is kept. -/
namespace Inventory

structure ComponentSet where
  byId : SortedMap Component
  keyed : ∀ e ∈ byId.entries, e.2.id = e.1
  deriving DecidableEq, Repr

namespace ComponentSet

def empty : ComponentSet := ⟨.empty, by simp [SortedMap.empty]⟩

instance : Inhabited ComponentSet := ⟨empty⟩

def containsId (s : ComponentSet) (id : String) : Bool := s.byId.contains id
def contains (s : ComponentSet) (c : Component) : Bool := s.containsId c.id

def insert (s : ComponentSet) (c : Component) : ComponentSet where
  byId := s.byId.insertNew c.id c
  keyed := SortedMap.forall_mem_upsert s.keyed rfl fun _ keyed => keyed

def insertAll (s : ComponentSet) (cs : List Component) : ComponentSet := cs.foldl insert s
def ofList (cs : List Component) : ComponentSet := empty.insertAll cs
def toList (s : ComponentSet) : List Component := s.byId.values
def ids (s : ComponentSet) : List String := s.byId.keys
def size (s : ComponentSet) : Nat := s.byId.size
def isEmpty (s : ComponentSet) : Bool := s.byId.isEmpty
def union (a b : ComponentSet) : ComponentSet := a.insertAll b.toList

end ComponentSet

end Inventory
