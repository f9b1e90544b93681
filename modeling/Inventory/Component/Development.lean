import Inventory.Text.Lowercase

/-! Whether a component is needed for development only. Observations of one component may disagree
or say nothing, and a rule settles which of two known ones counts. -/
namespace Inventory

inductive DevelopmentRule where
  /-- One observation of production use makes a component production. -/
  | productionWins
  /-- One observation of development use makes a component development. -/
  | developmentWins
  deriving DecidableEq, Repr

namespace DevelopmentRule

instance : Inhabited DevelopmentRule := ⟨productionWins⟩

def label : DevelopmentRule → String
  | productionWins => "production-wins"
  | developmentWins => "development-wins"

def ofLabel? (s : String) : Option DevelopmentRule :=
  [productionWins, developmentWins].find? (·.label == s)

/-- What is unknown never overrides what is known. -/
def merge (rule : DevelopmentRule) : Option Bool → Option Bool → Option Bool
  | none, other | other, none => other
  | some a, some b => some <| match rule with
    | productionWins => a && b
    | developmentWins => a || b

/-- All observations of a component in one. -/
def effective (rule : DevelopmentRule) (values : List (Option Bool)) : Option Bool :=
  values.foldl rule.merge none

/-- The rule a user names, in full or by its first word and in any case. -/
def parse (s : String) : Except String DevelopmentRule :=
  let lower := Text.lowercase s
  if lower = "production-wins" || lower = "production" then .ok productionWins
  else if lower = "development-wins" || lower = "development" then .ok developmentWins
  else .error ("Unknown dev dependency merge rule: " ++ s)

end DevelopmentRule

end Inventory
