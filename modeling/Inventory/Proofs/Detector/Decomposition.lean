import Inventory.Proofs.Detector.BuiltIn
import Inventory.Proofs.Detector.Shared

/-! A run over manifests falls apart into what is recorded for each of them, if no two have the same
location. -/
namespace Inventory.ManifestDetector

open FileTree
open FileRecorder (Script)
open Manifest (hasSibling)

variable {d : ManifestDetector} {world world' : World} {request request' : Request}
  {r r' : Recorder} {m m' : Manifest} {place : Place} {new : Option String}

def find (d : ManifestDetector) (world : World) (request : Request) : List Manifest :=
  Manifest.find world request.source d.patterns request.exclusion

def after (d : ManifestDetector) (world : World) (request : Request) (r : Recorder) : Recorder :=
  (d.detector.run world request r).1

def tasks (d : ManifestDetector) (world : World) (request : Request) (r : Recorder)
    (script : Manifest → Script) : Shared Recorder Manifest.Task :=
  Manifest.reading r (d.find world request) script

/-- The script does with a recorder of a mode and a rule what the detector does with a manifest. -/
def Performs (d : ManifestDetector) (world : World) (request : Request) (r : Recorder)
    (script : Manifest → Script) : Prop :=
  ∀ m ∈ d.find world request,
    (script m).run r.newFile = (m.readInto (d.read world request) r.newFile).1

def Apart (d : ManifestDetector) (world : World) (request : Request) : Prop :=
  ((d.find world request).map (·.location)).Nodup

structure Decomposes (d : ManifestDetector) (world : World) (request : Request) (r : Recorder) :
    Prop where
  /-- Each manifest is found under a path of its own. -/
  distinct : ((d.find world request).map (·.path)).Nodup
  /-- There is one recorder for each manifest, at the location of its path, and no other. -/
  keys : (d.after world request r).files.keys.Perm ((d.find world request).map (·.location))
  /-- What is recorded for a manifest hangs on its path and content, the folder of the request, the
  file beside it, and the mode and the rule of the recorder. -/
  confined : ∀ {world' request' r'}, world'.top.WellFormed → request'.cancelled = false →
    r'.files = .empty → d.Apart world' request' → request'.source = request.source →
    r'.manualRoots = r.manualRoots → r'.rule = r.rule → ∀ m ∈ d.find world request,
      ∀ m' ∈ d.find world' request', m'.path = m.path → m'.text = m.text →
      hasSibling world' d.sibling m.path = hasSibling world d.sibling m.path →
      (d.after world' request' r').files.get? m.location =
        (d.after world request r).files.get? m.location
  /-- With another content, a manifest is found as before, and nothing recorded elsewhere
  changes. -/
  isolated : ∀ m ∈ d.find world request, ∃ place, world.top.at? place = some (.file m.text) ∧
    ∀ new, { m with text := new } ∈ d.find (world.setContent place new) request ∧
      ∀ key, key ≠ m.location → (d.after (world.setContent place new) request r).files.get? key =
        (d.after world request r).files.get? key
  /-- The order in which the manifests' calls come makes no difference. -/
  schedules : ∀ script, d.Performs world request r script → ∀ schedule,
    Manifest.finished
        ((d.tasks world request r script).execute Manifest.Task.step schedule).tasks = true →
      ((d.tasks world request r script).execute Manifest.Task.step schedule).state =
        d.after world request r
  /-- The detector does work by such calls. -/
  performed : ∃ script, d.Performs world request r script
  /-- However far the tasks have come, they can come to their end. -/
  finishes : ∀ script schedule, ∃ rest, Manifest.finished
    ((d.tasks world request r script).execute Manifest.Task.step (schedule ++ rest)).tasks = true

theorem distinct_paths (wf : world.top.WellFormed) (d : ManifestDetector) (request : Request) :
    ((d.find world request).map (·.path)).Nodup :=
  Manifest.nodup_paths wf request.source d.patterns request.exclusion

theorem apart_iff : d.Apart world request ↔
    (((d.find world request).map (·.path)).map Path.shown).Nodup := by
  rw [Apart, List.map_map]
  rfl

/-- Texts are shown as they are, so that different ones have different locations. -/
theorem apart_of_isText (wf : world.top.WellFormed)
    (texts : ∀ m ∈ d.find world request, Path.IsText m.path) : d.Apart world request := by
  have same : (d.find world request).map (·.location) = (d.find world request).map (·.path) :=
    List.map_congr_left fun m member => Path.shown_of_isText (texts m member)
  rw [Apart, same]
  exact distinct_paths wf d request

section Run

variable (active : request.cancelled = false) (empty : r.files = .empty)
  (apart : d.Apart world request)

include active empty apart

theorem after_eq : d.after world request r =
    Manifest.filled (d.read world request) r (d.find world request) := by
  rw [after, d.run_eq, Manifest.run, Manifest.readAll, active]
  exact Manifest.foldl_take_empty apart (fun m => Manifest.isBlank_location d.marked) empty 0

theorem get?_after {key : String} {f : FileRecorder} :
    (d.after world request r).files.get? key = some f ↔ ∃ m ∈ d.find world request,
      m.location = key ∧ Manifest.result (d.read world request) r m = f := by
  rw [after_eq active empty apart]
  exact Manifest.get?_filled apart

theorem mem_keys_after {key : String} : key ∈ (d.after world request r).files.keys ↔
    key ∈ (d.find world request).map (·.location) := by
  rw [SortedMap.mem_keys, SortedMap.contains_iff, List.mem_map]
  constructor
  · rintro ⟨f, there⟩
    obtain ⟨m, member, location, -⟩ := (get?_after active empty apart).mp there
    exact ⟨m, member, location⟩
  · rintro ⟨m, member, location⟩
    exact ⟨_, (get?_after active empty apart).mpr ⟨m, member, location, rfl⟩⟩

end Run

theorem nodup_keys_after : (d.after world request r).files.keys.Nodup :=
  (SortedMap.sorted_keys _).imp fun lt => ne_of_lt lt

theorem result_congr (source : request'.source = request.source)
    (manualRoots : r'.manualRoots = r.manualRoots) (rule : r'.rule = r.rule)
    (sibling : hasSibling world' d.sibling m.path = hasSibling world d.sibling m.path) :
    Manifest.result (d.read world' request') r' m = Manifest.result (d.read world request) r m := by
  have new : r'.newFile = r.newFile := by
    rw [Recorder.newFile, Recorder.newFile, manualRoots, rule]
  have read := d.confined source sibling
  rw [Manifest.result, Manifest.result, new, Manifest.readInto, Manifest.readInto, read]

theorem eq_of_find (member : m ∈ d.find world request) (member' : m' ∈ d.find world' request')
    (path : m'.path = m.path) (text : m'.text = m.text) : m' = m := by
  obtain ⟨-, first⟩ := Manifest.mem_find_iff.mp member
  obtain ⟨-, first'⟩ := Manifest.mem_find_iff.mp member'
  rw [path, first] at first'
  calc m' = ⟨m'.path, m'.pattern, m'.text⟩ := rfl
    _ = m := by rw [path, text, ← Option.some.inj first']

theorem exists_place (wf : world.top.WellFormed) (member : m ∈ d.find world request) :
    ∃ place, world.top.at? place = some (.file m.text) ∧
      world.PathFrom request.source place m.path ∧
        ∀ new, { m with text := new } ∈ d.find (world.setContent place new) request := by
  obtain ⟨found, first⟩ := Manifest.mem_find_iff.mp member
  obtain ⟨place, there, here, again⟩ := World.exists_place_of_mem_filesBelow wf found
  exact ⟨place, there, here, fun new => Manifest.mem_find_iff.mpr ⟨again new, first⟩⟩

section SetContent

variable (wf : world.top.WellFormed) (there : world.top.at? place = some (.file m.text))
  (here : world.PathFrom request.source place m.path)

include wf there here

theorem mem_find_setContent (other : m'.path ≠ m.path) :
    m' ∈ d.find (world.setContent place new) request ↔ m' ∈ d.find world request := by
  have elsewhere : ¬ world.PathFrom request.source place m'.path := fun here' =>
    other (here'.unique here)
  rw [find, find, Manifest.mem_find_iff, Manifest.mem_find_iff,
    World.mem_filesBelow_setContent wf there elsewhere]

/-- The same paths are found, whatever is in the file. -/
theorem apart_setContent (apart : d.Apart world request) (member : m ∈ d.find world request)
    (again : { m with text := new } ∈ d.find (world.setContent place new) request) :
    d.Apart (world.setContent place new) request := by
  have wf' : (world.setContent place new).top.WellFormed := wf.put_file there
  have paths : ((d.find (world.setContent place new) request).map (·.path)).Perm
      ((d.find world request).map (·.path)) := by
    refine (List.perm_ext_iff_of_nodup (distinct_paths wf' d request)
      (distinct_paths wf d request)).mpr fun path => ?_
    by_cases same : path = m.path
    · subst same
      exact iff_of_true (List.mem_map.mpr ⟨_, again, rfl⟩) (List.mem_map_of_mem member)
    · have found (m' : Manifest) (named : m'.path = path) :
          m' ∈ d.find (world.setContent place new) request ↔ m' ∈ d.find world request :=
        mem_find_setContent wf there here (named ▸ same)
      simp only [List.mem_map]
      exact exists_congr fun m' => and_congr_left (found m')
  exact apart_iff.mpr ((paths.map Path.shown).nodup_iff.mpr (apart_iff.mp apart))

theorem get?_after_setContent (active : request.cancelled = false) (empty : r.files = .empty)
    (apart : d.Apart world request) (apart' : d.Apart (world.setContent place new) request)
    {key : String} (other : key ≠ m.location) :
    (d.after (world.setContent place new) request r).files.get? key =
      (d.after world request r).files.get? key := by
  apply Option.ext
  intro f
  rw [get?_after active empty apart', get?_after active empty apart]
  have same (m' : Manifest) (location : m'.location = key) :
      (m' ∈ d.find (world.setContent place new) request ↔ m' ∈ d.find world request) ∧
        Manifest.result (d.read (world.setContent place new) request) r m' =
          Manifest.result (d.read world request) r m' := by
    have path : m'.path ≠ m.path := fun path => other (by
      rw [← location, Manifest.location, path, Manifest.location])
    refine ⟨mem_find_setContent wf there here path, result_congr rfl rfl rfl ?_⟩
    rw [hasSibling, hasSibling, funext (World.exists_setContent wf there)]
  constructor
  · rintro ⟨m', member, location, made⟩
    obtain ⟨found, result⟩ := same m' location
    exact ⟨m', found.mp member, location, result ▸ made⟩
  · rintro ⟨m', member, location, made⟩
    obtain ⟨found, result⟩ := same m' location
    exact ⟨m', found.mpr member, location, result.trans made⟩

end SetContent

theorem exists_performs (d : ManifestDetector) (world : World) (request : Request) (r : Recorder) :
    ∃ script, d.Performs world request r script := by
  choose script runs using (d.scripted world request).readInto
  exact ⟨script, fun m _ => (runs m r.newFile).symm⟩

theorem decomposes (wf : world.top.WellFormed) (active : request.cancelled = false)
    (empty : r.files = .empty) (apart : d.Apart world request) :
    d.Decomposes world request r where
  distinct := distinct_paths wf d request
  keys := (List.perm_ext_iff_of_nodup nodup_keys_after apart).mpr fun _ =>
    mem_keys_after active empty apart
  confined := by
    intro world' request' r' wf' active' empty' apart' source manualRoots rule m member m' member'
      path text sibling
    obtain rfl := eq_of_find member member' path text
    have result := result_congr source manualRoots rule sibling
    rw [(get?_after active empty apart).mpr ⟨m', member, rfl, rfl⟩, ← result]
    exact (get?_after active' empty' apart').mpr ⟨m', member', rfl, rfl⟩
  isolated m member := by
    obtain ⟨place, there, here, again⟩ := exists_place wf member
    refine ⟨place, there, fun new => ⟨again new, fun key other => ?_⟩⟩
    have apart' := apart_setContent wf there here apart member (again new)
    exact get?_after_setContent wf there here active empty apart apart' other
  schedules script performs schedule ended := by
    rw [after_eq active empty apart]
    exact Manifest.execute_reading apart (fun m => Manifest.isBlank_location d.marked) empty
      performs schedule ended
  performed := exists_performs d world request r
  finishes script schedule := by
    obtain ⟨rest, ended⟩ :=
      Manifest.exists_finished
        ((d.tasks world request r script).execute Manifest.Task.step schedule)
    exact ⟨rest, by rw [Shared.execute_append]; exact ended⟩

theorem decomposes_iff (wf : world.top.WellFormed) (active : request.cancelled = false)
    (empty : r.files = .empty) : d.Decomposes world request r ↔ d.Apart world request :=
  ⟨fun whole => whole.keys.nodup_iff.mp nodup_keys_after, decomposes wf active empty⟩

/-- The built-in detectors are such detectors. Their runs decompose unless two manifests are shown
alike, which texts are not. -/
theorem builtIn_decompose_iff (world : World) (request : Request) (r : Recorder)
    (wf : world.top.WellFormed) (active : request.cancelled = false) (empty : r.files = .empty) :
    builtIn.map (·.detector) = Detector.builtIn ∧ ∀ d ∈ builtIn,
      (d.Decomposes world request r ↔ ((d.find world request).map (·.location)).Nodup) ∧
      ((∀ m ∈ d.find world request, Path.IsText m.path) → d.Decomposes world request r) :=
  ⟨map_builtIn, fun _ _ => ⟨decomposes_iff wf active empty, fun texts =>
    decomposes wf active empty (apart_of_isText wf texts)⟩⟩

theorem walkStart?_here (entries : List (String × FileTree)) :
    World.walkStart? ⟨.folder entries, []⟩ "." = some (.folder entries) := by
  have start : World.start? [] "." = some ([], ["."]) := by decide +kernel
  have place : World.place? ⟨.folder entries, []⟩ "." = .ok [] := by
    rw [World.place?, World.find?, start]
    dsimp only
    rw [World.follow, World.follow]
    rfl
  have node : World.node? ⟨.folder entries, []⟩ "." = .ok (.folder entries) := by
    rw [World.node?, place]
    rfl
  rw [World.walkStart?, node]

/-- A folder with a manifest that is no text, beside one that is. -/
def twoManifests : World where
  top := .folder [("a", .folder [("requirements.txt", .file none)]),
    ("requirements.txt", .file (some "left==1.0"))]
  here := []

theorem wellFormed_twoManifests : twoManifests.top.WellFormed := by
  have name : Path.IsName "requirements.txt" := ⟨by decide, by decide⟩
  have folder : Path.IsName "a" := ⟨by decide, by decide⟩
  refine .folder (by decide) (by simp [name, folder]) ?_
  simp only [List.mem_cons, List.not_mem_nil, or_false, forall_eq_or_imp, forall_eq]
  refine ⟨.folder (List.pairwise_singleton ..) (by simp [name]) ?_, .file _⟩
  simp [FileTree.WellFormed.file]

theorem find_twoManifests : pip.find twoManifests { source := "." } =
    [⟨"./a/requirements.txt", "*requirements.txt", none⟩,
      ⟨"./requirements.txt", "*requirements.txt", some "left==1.0"⟩] := by
  rw [find, Manifest.find, World.filesBelow, twoManifests, walkStart?_here]
  refine (List.mergeSort_of_pairwise ?_).trans ?_ <;> decide +kernel

theorem builtIn_decompose_twoManifests : (pip.find twoManifests { source := "." }).length = 2 ∧
    pip.Decomposes twoManifests { source := "." } {} := by
  refine ⟨congrArg List.length find_twoManifests, ?_⟩
  refine ((builtIn_decompose_iff twoManifests { source := "." } {} wellFormed_twoManifests rfl
    rfl).2 pip (by simp [builtIn])).2 ?_
  rw [find_twoManifests]
  decide

/-- Two manifests whose names begin with different bytes that belong to no character. -/
def twoStrays : World where
  top := .folder [("\x00\u00FErequirements.txt", .file (some "left==1.0")),
    ("\x00\u00FFrequirements.txt", .file none)]
  here := []

theorem find_twoStrays : pip.find twoStrays { source := "." } =
    [⟨"./\x00\u00FErequirements.txt", "*requirements.txt", some "left==1.0"⟩,
      ⟨"./\x00\u00FFrequirements.txt", "*requirements.txt", none⟩] := by
  rw [find, Manifest.find, World.filesBelow, twoStrays, walkStart?_here]
  refine (List.mergeSort_of_pairwise ?_).trans ?_ <;> decide +kernel

/-- Two manifests are found and there is one recorder, so that the run does not decompose. -/
theorem strays_share_recorder : twoStrays.top.WellFormed ∧
    (pip.find twoStrays { source := "." }).map (·.path) =
      ["./\x00\u00FErequirements.txt", "./\x00\u00FFrequirements.txt"] ∧
    (pip.after twoStrays { source := "." } {}).files.keys = ["./\uFFFDrequirements.txt"] ∧
    ¬ pip.Decomposes twoStrays { source := "." } {} := by
  have found := find_twoStrays
  have keys : (pip.after twoStrays { source := "." } {}).files.keys =
      ["./\uFFFDrequirements.txt"] := by
    rw [find] at found
    rw [after, pip.run_eq, Manifest.run, Manifest.readAll, found]
    decide +kernel
  refine ⟨.folder (by decide) (fun e member => ⟨?_, ?_⟩) ?_, ?_, keys, fun whole => ?_⟩
  · revert e member
    decide
  · revert e member
    decide
  · simp [FileTree.WellFormed.file]
  · rw [found]
    rfl
  · have lengths := whole.keys.length_eq
    rw [keys, List.length_map, found] at lengths
    exact absurd lengths (by decide)

end Inventory.ManifestDetector
