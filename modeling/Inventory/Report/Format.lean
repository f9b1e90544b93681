import Inventory.Document.Result
import Inventory.Report.Listing

/-! The formats in which a result can be given out. -/
namespace Inventory.Report

inductive Format where
  | table
  | json
  deriving DecidableEq, Repr

namespace Format

def label : Format → String
  | table => "Table"
  | json => "Json"

/-- The format a user names, in any case. -/
def parse (s : String) : Except String Format :=
  let lower := Text.lowercase s
  if lower = "table" then .ok table
  else if lower = "json" then .ok json
  else .error ("Unknown format: " ++ s ++ ". Use 'table' or 'json'")

def render : Format → ScanResult → String
  | table, r => listing r
  | json, r => r.text

end Format

end Inventory.Report
