import Inventory.Text.Lowercase

/-! Categories of detectors, by which a scan can be narrowed. -/
namespace Inventory

inductive Category where
  | all
  | npm
  | nuGet
  | maven
  | rubyGems
  | cargo
  | pip
  | goMod
  | cocoaPods
  | linux
  | conda
  | spdx
  | vcpkg
  | dockerReference
  | swift
  deriving DecidableEq, Repr

namespace Category

def every : List Category :=
  [all, npm, nuGet, maven, rubyGems, cargo, pip, goMod, cocoaPods, linux, conda, spdx, vcpkg,
   dockerReference, swift]

def label : Category → String
  | all => "All"
  | npm => "Npm"
  | nuGet => "NuGet"
  | maven => "Maven"
  | rubyGems => "RubyGems"
  | cargo => "Cargo"
  | pip => "Pip"
  | goMod => "GoMod"
  | cocoaPods => "CocoaPods"
  | linux => "Linux"
  | conda => "Conda"
  | spdx => "Spdx"
  | vcpkg => "Vcpkg"
  | dockerReference => "DockerReference"
  | swift => "Swift"

/-- A user names a category in any case. -/
def isNamed (c : Category) (name : String) : Bool := Text.eqIgnoringCase c.label name

def parse (name : String) : Except String Category :=
  match every.find? (·.isNamed name) with
  | some c => .ok c
  | none => .error ("Unknown detector category: " ++ name)

end Category

end Inventory
