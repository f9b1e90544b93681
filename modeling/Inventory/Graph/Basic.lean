import Inventory.Component.Development
import Inventory.Component.Scope
import Inventory.SortedMap

/-! The dependency graph of one manifest. An edge is held at both of its ends, and each of the three
writes that make up the adding of a component touches one node. -/
namespace Inventory

structure Node where
  parents : StringSet := .empty
  children : StringSet := .empty
  explicit : Bool := false
  development : Option Bool := none
  scope : Option Scope := none
  deriving DecidableEq, Repr

/-- What is said of a component when it is added. -/
structure Sighting where
  id : String
  explicit : Bool := false
  development : Option Bool := none
  scope : Option Scope := none
  deriving DecidableEq, Repr

/-- Merges what is said into a node. -/
def Node.see (rule : DevelopmentRule) (s : Sighting) (n : Node) : Node :=
  { n with
    explicit := n.explicit || s.explicit
    development := rule.merge n.development s.development
    scope := Scope.merge n.scope s.scope }

def Node.isExplicit (manualRoots : Bool) (n : Node) : Bool :=
  if manualRoots then n.explicit else n.parents.isEmpty

structure Graph where
  nodes : SortedMap Node := .empty
  failures : StringSet := .empty
  relatedFiles : StringSet := .empty
  /-- Explicit references are as said. Otherwise they are the components without parents. -/
  manualRoots : Bool := true
  rule : DevelopmentRule := .productionWins
  deriving DecidableEq, Repr

namespace Graph

def missingParent (parent child : String) : String :=
  "missing parent '" ++ parent ++ "' for '" ++ child ++ "'"

def addFailure (g : Graph) (text : String) : Graph := { g with failures := g.failures.add text }

def addRelatedFile (g : Graph) (path : String) : Graph :=
  { g with relatedFiles := g.relatedFiles.add path }

def contains (g : Graph) (id : String) : Bool := g.nodes.contains id

/-- The first write: the node is there and has taken up what is said of it. -/
def see (g : Graph) (s : Sighting) : Graph :=
  { g with nodes := g.nodes.upsert s.id fun
      | none => { explicit := s.explicit, development := s.development, scope := s.scope }
      | some n => Node.see g.rule s n }

/-- The second write: the child is among the children of the parent. -/
def addChild (g : Graph) (parent child : String) : Graph :=
  { g with nodes := g.nodes.modify parent fun n => { n with children := n.children.add child } }

/-- The third write: the parent is among the parents of the child. -/
def addParent (g : Graph) (child parent : String) : Graph :=
  { g with nodes := g.nodes.modify child fun n => { n with parents := n.parents.add parent } }

/-- Links a child below a parent. No component is linked to itself, and a parent that is not there
is a failure. -/
def link (g : Graph) (parent child : String) : Graph :=
  if parent = child then g
  else if g.contains parent then (g.addChild parent child).addParent child parent
  else g.addFailure (missingParent parent child)

def add (g : Graph) (s : Sighting) (parent : Option String) : Graph :=
  match parent with
  | none => g.see s
  | some parent => (g.see s).link parent s.id

def node? (g : Graph) (id : String) : Option Node := g.nodes.get? id
def ids (g : Graph) : List String := g.nodes.keys
def size (g : Graph) : Nat := g.nodes.size
def isEmpty (g : Graph) : Bool := g.nodes.isEmpty
def children? (g : Graph) (id : String) : Option StringSet := (g.node? id).map (·.children)
def parents? (g : Graph) (id : String) : Option StringSet := (g.node? id).map (·.parents)
def development? (g : Graph) (id : String) : Option Bool := (g.node? id).bind (·.development)
def scope? (g : Graph) (id : String) : Option Scope := (g.node? id).bind (·.scope)

def parents (g : Graph) (id : String) : List String := ((g.parents? id).map (·.toList)).getD []

def isExplicit (g : Graph) (id : String) : Bool :=
  ((g.node? id).map (Node.isExplicit g.manualRoots)).getD false

def explicitIds (g : Graph) : List String :=
  (g.nodes.entries.filter fun e => Node.isExplicit g.manualRoots e.2).map (·.1)

end Graph

end Inventory
