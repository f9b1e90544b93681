/-! The package ecosystems that components come from. -/
namespace Inventory

inductive Ecosystem where
  | npm
  | nuGet
  | pip
  | go
  | cargo
  | maven
  | rubyGems
  | other
  deriving DecidableEq, Repr

namespace Ecosystem

def all : List Ecosystem := [npm, nuGet, pip, go, cargo, maven, rubyGems, other]

def label : Ecosystem → String
  | npm => "Npm"
  | nuGet => "NuGet"
  | pip => "Pip"
  | go => "Go"
  | cargo => "Cargo"
  | maven => "Maven"
  | rubyGems => "RubyGems"
  | other => "Other"

def ofLabel? (s : String) : Option Ecosystem := all.find? (·.label == s)

end Ecosystem

end Inventory
