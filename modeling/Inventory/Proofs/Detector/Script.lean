import Inventory.Detector.Shared
import Mathlib.Tactic.Choose

/-! Changes of a recorder that calls and looks bring about, and readers that work by them. A reader
is put together from such changes as it is written: one after another, over a list, by what a look
shows. -/
namespace Inventory

namespace FileRecorder

variable {α : Type u} {f g : FileRecorder → FileRecorder}

namespace Script

def append : Script → Script → Script
  | done, second => second
  | call c rest, second => call c (rest.append second)
  | look id rest, second => look id fun c => (rest c).append second

theorem run_append (first second : Script) (r : FileRecorder) :
    (first.append second).run r = second.run (first.run r) := by
  induction first generalizing r with
  | done => rfl
  | call c rest ih => exact ih (c.apply r)
  | look id rest ih => exact ih (r.component? id) r

end Script

/-- A change of a recorder that calls and looks bring about. -/
def Scripted (f : FileRecorder → FileRecorder) : Prop := ∃ script : Script, ∀ r, f r = script.run r

namespace Scripted

theorem nothing : Scripted fun r => r := ⟨.done, fun _ => rfl⟩

theorem call (c : Call) : Scripted c.apply := ⟨.call c .done, fun _ => rfl⟩

theorem register (d : Detected) (u : Usage) : Scripted (·.register d u) :=
  call (.register ⟨d, u⟩)

theorem addFailure (text : String) : Scripted (·.addFailure text) := call (.addFailure text)

theorem addRelatedFile (path : String) : Scripted (·.addRelatedFile path) :=
  call (.addRelatedFile path)

theorem comp (first : Scripted f) (second : Scripted g) : Scripted fun r => g (f r) := by
  obtain ⟨one, runs⟩ := first
  obtain ⟨two, runs'⟩ := second
  refine ⟨one.append two, fun r => ?_⟩
  rw [Script.run_append, ← runs, ← runs']

/-- Whatever a look shows, it goes on with a change by a script. -/
theorem look (id : String)
    (each : ∀ c, ∃ g, Scripted g ∧ ∀ r, r.component? id = c → f r = g r) : Scripted f := by
  choose g scripted same using each
  choose rest runs using scripted
  refine ⟨.look id rest, fun r => ?_⟩
  rw [same (r.component? id) r rfl, runs]
  rfl

theorem foldl {step : FileRecorder → α → FileRecorder} (each : ∀ x, Scripted (step · x))
    (l : List α) : Scripted fun r => l.foldl step r := by
  induction l with
  | nil => exact nothing
  | cons x l ih => exact (each x).comp ih

end Scripted

end FileRecorder

open FileRecorder (Script Scripted)

namespace Manifest

/-- A reader works by a script, and whether it fails does not hang on the recorder. -/
def Reader.IsScripted (read : Reader) : Prop :=
  ∀ m text, ∃ f reason, Scripted f ∧ ∀ r, read m text r = (f r, reason)

theorem Reader.IsScripted.readInto {read : Reader} (scripted : read.IsScripted) (m : Manifest) :
    Scripted fun r => (m.readInto read r).1 := by
  unfold Manifest.readInto
  cases m.text with
  | none => exact .addFailure _
  | some text =>
    obtain ⟨f, reason, changes, runs⟩ := scripted m text
    simp only [runs]
    cases reason with
    | none => exact changes
    | some reason => exact changes.comp (.addFailure _)

def hasSibling (world : FileTree.World) (sibling : Option String) (path : String) : Bool :=
  (sibling.bind (Path.sibling? path)).any world.exists

theorem addSibling_eq (world : FileTree.World) (m : Manifest) (name : String) (r : FileRecorder) :
    m.addSibling world name r = if hasSibling world (some name) m.path then
      r.addRelatedFile (Path.shown ((Path.sibling? m.path name).getD "")) else r := by
  unfold addSibling hasSibling
  rw [Option.bind_some]
  cases Path.sibling? m.path name <;> rfl

theorem scripted_addSibling (world : FileTree.World) (m : Manifest) (name : String) :
    Scripted (m.addSibling world name) := by
  have same := funext fun r => addSibling_eq world m name r
  cases there : hasSibling world (some name) m.path with
  | true => simpa [same, there] using .addRelatedFile _
  | false => simpa [same, there] using .nothing

end Manifest

end Inventory
