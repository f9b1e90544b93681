import Inventory.Glob.Pattern
import Inventory.Path
import Inventory.Text.Split

/-! Which folders a walk passes over: those whose whole path matches one of a list of globs. -/
namespace Inventory

structure Exclusion where
  globs : List Glob.Regular
  /-- The patterns that were taken in full. -/
  patterns : List String

namespace Exclusion

def none : Exclusion := ⟨[], []⟩

/-- A pattern for all that is below a folder is also one for the folder, so that the walk does not
enter it. -/
def variants (pattern : String) : List String :=
  match Text.dropLiteralEnd? "/**".toList pattern.toList with
  | some (c :: folder) => [pattern, String.ofList (c :: folder)]
  | _ => [pattern]

/-- Adds the variants of a pattern up to the first that is no glob. Those before it stay, but the
pattern does not count as taken. -/
def addVariants (options : Glob.Options) (exclusion : Exclusion) : List String → Bool × Exclusion
  | [] => (true, exclusion)
  | variant :: rest =>
    match Glob.parse? options variant with
    | some glob => addVariants options { exclusion with globs := exclusion.globs ++ [glob] } rest
    | .none => (false, exclusion)

def add (windows ignoreCase : Bool) (exclusion : Exclusion) (pattern : String) : Exclusion :=
  let normal := if windows then Text.replaceChar '\\' '/' pattern else pattern
  match addVariants ⟨ignoreCase, !windows⟩ exclusion (variants normal) with
  | (true, exclusion) => { exclusion with patterns := exclusion.patterns ++ [pattern] }
  | (false, exclusion) => exclusion

/-- With `windows` a backslash in a pattern is a separator, otherwise it escapes. -/
def ofPatterns (patterns : List String) (windows ignoreCase : Bool) : Exclusion :=
  patterns.foldl (add windows ignoreCase) none

/-- The rules of a system whose paths are case-sensitive and have no backslashes. -/
def forPlatform (patterns : List String) : Exclusion := ofPatterns patterns false false

def excludesPath (exclusion : Exclusion) (path : String) : Bool :=
  let normal := Text.replaceChar '\\' '/' path
  exclusion.globs.any (Glob.matchesPath · normal)

def excludes (exclusion : Exclusion) (name parent : String) : Bool :=
  exclusion.excludesPath (Path.join parent name)

end Exclusion

end Inventory
