/-! The forms in which log lines can be written. -/
namespace Inventory

inductive LogFormat where
  | pretty
  | compact
  | json
  deriving DecidableEq, Repr

def LogFormat.parse (s : String) : Except String LogFormat :=
  if s = "pretty" then .ok pretty
  else if s = "compact" then .ok compact
  else if s = "json" then .ok json
  else .error ("unknown log format '" ++ s ++ "', expected 'pretty', 'compact' or 'json'")

end Inventory
