import Inventory.Proofs.FileTree.Write
import Inventory.Proofs.Json.Decode
import Inventory.Proofs.Toml.RoundTrip
import Inventory.Settings

/-! Settings that are saved to a file are loaded from it as they were. The one value that can be
saved but not loaded is a number of threads that is zero. -/
namespace Inventory.Settings

open FileTree
open Toml (Document Fields Leaf)

variable {s : Settings} {world world' : World} {path text : String}

structure Fits (s : Settings) : Prop where
  timeLimit : s.timeLimitSeconds < Word.signedLimit64
  threads : s.maxThreads < Word.signedLimit64

theorem text?_eq_some_iff : s.text? = some text ↔ s.Fits ∧ s.document.text = text := by
  unfold text?
  split
  next small =>
    rw [Bool.and_eq_true, decide_eq_true_eq, decide_eq_true_eq] at small
    exact ⟨fun same => ⟨⟨small.1, small.2⟩, Option.some.inj same⟩, fun fits => congrArg some fits.2⟩
  next large =>
    refine ⟨nofun, fun fits => absurd ?_ large⟩
    rw [decide_eq_true fits.1.timeLimit, decide_eq_true fits.1.threads]
    rfl

theorem texts?_value (texts : List String) : texts? (Leaf.texts texts).value = some texts :=
  Json.mapM_map _ fun _ _ => rfl

theorem number?_value {n : Nat} (small : n < Word.signedLimit64) :
    number? (Leaf.number n).value = some n := by
  have below : (n : Int) < Word.limit64 := by
    have wider : Word.signedLimit64 < Word.limit64 := by decide
    generalize Word.limit64 = limit at wider ⊢
    omega
  rw [number?, Leaf.value, Toml.natBelow?, decide_eq_true below,
    decide_eq_true (Int.natCast_nonneg n)]
  rfl

theorem rule?_value (rule : DevelopmentRule) : rule? (Leaf.text rule.label).value = some rule := by
  cases rule <;> rfl

theorem arguments_value (arguments : SortedMap String) : Toml.map? Toml.string?
    (.table (Document.entryValues (arguments.entries.map fun e => (e.1, Leaf.text e.2)))) =
      some arguments := by
  have values : Document.entryValues (arguments.entries.map fun e => (e.1, Leaf.text e.2)) =
      arguments.entries.map fun e => (e.1, .string e.2) := by
    rw [Document.entryValues, List.map_map]
    rfl
  have all : (arguments.entries.map fun e => (e.1, Toml.string e.2)).mapM
      (fun e => (Toml.string? e.2).map (e.1, ·)) = some arguments.entries :=
    Json.mapM_map _ fun _ _ => rfl
  rw [values, Toml.map?, all]
  exact congrArg some arguments.ofList_entries

theorem ignored?_value (texts : List String) :
    ignored? (.table (Document.entryValues [("components", .texts texts)])) = some texts :=
  texts?_value texts

def fieldValues (s : Settings) : List (String × Option Toml) :=
  [("detector_categories", some (Leaf.texts s.categories).value),
   ("detectors_filter", some (Leaf.texts s.detectors).value),
   ("directory_exclusion_list", some (Leaf.texts s.exclusions).value),
   ("experimental_timeout_secs", some (Leaf.number s.timeLimitSeconds).value),
   ("max_threads", some (Leaf.number s.maxThreads).value),
   ("dev_dependency_merge", some (Leaf.text s.rule.label).value),
   ("default_format", some (Leaf.text s.format).value),
   ("log_level", some (Leaf.text s.logLevel).value),
   ("log_format", some (Leaf.text s.logFormat).value),
   ("telemetry_file", s.telemetryFile.map fun path => (Leaf.text path).value),
   ("detector_args", some (.table (Document.entryValues
     (s.detectorArguments.entries.map fun e => (e.1, .text e.2))))),
   ("ignore", some (.table (Document.entryValues [("components", .texts s.ignored)])))]

theorem fields?_value (s : Settings) :
    s.document.value.fields? fieldNames = some ⟨s.fieldValues, false⟩ := by
  cases telemetry : s.telemetryFile <;>
    simp [document, Document.value, Document.entryValues, Toml.fields?, fieldNames, fieldValues,
      telemetry]

theorem ofToml?_value (fits : s.Fits) : ofToml? s.document.value = some s := by
  have found := fields?_value s
  -- A name for the fields keeps the list of them out of what follows.
  obtain ⟨f, fields⟩ : ∃ f, Fields.mk s.fieldValues false = f := ⟨_, rfl⟩
  rw [fields] at found
  have categories : f.defaulted "detector_categories" texts? [] = some s.categories := by
    rw [← fields]
    exact texts?_value s.categories
  have detectors : f.defaulted "detectors_filter" texts? [] = some s.detectors := by
    rw [← fields]
    exact texts?_value s.detectors
  have exclusions : f.defaulted "directory_exclusion_list" texts? [] = some s.exclusions := by
    rw [← fields]
    exact texts?_value s.exclusions
  have timeLimit (standard : Nat) : f.defaulted "experimental_timeout_secs" number? standard =
      some s.timeLimitSeconds := by
    rw [← fields]
    exact number?_value fits.timeLimit
  have threads (standard : Nat) :
      f.defaulted "max_threads" number? standard = some s.maxThreads := by
    rw [← fields]
    exact number?_value fits.threads
  have rule (standard : DevelopmentRule) :
      f.defaulted "dev_dependency_merge" rule? standard = some s.rule := by
    rw [← fields]
    exact rule?_value s.rule
  have format (standard : String) :
      f.defaulted "default_format" Toml.string? standard = some s.format := by
    rw [← fields]
    rfl
  have logLevel (standard : String) :
      f.defaulted "log_level" Toml.string? standard = some s.logLevel := by
    rw [← fields]
    rfl
  have logFormat (standard : String) :
      f.defaulted "log_format" Toml.string? standard = some s.logFormat := by
    rw [← fields]
    rfl
  have telemetryFile : f.defaulted "telemetry_file" (fun v => v.string?.map some) none =
      some s.telemetryFile := by
    rw [← fields, fieldValues]
    cases s.telemetryFile <;> rfl
  have arguments : f.defaulted "detector_args" (Toml.map? Toml.string?) .empty =
      some s.detectorArguments := by
    rw [← fields]
    exact arguments_value s.detectorArguments
  have ignored : f.defaulted "ignore" ignored? [] = some s.ignored := by
    rw [← fields]
    exact ignored?_value s.ignored
  rw [ofToml?, found]
  simp only [Option.bind_eq_bind, Option.bind_some, categories, detectors, exclusions, timeLimit,
    threads, rule, format, logLevel, logFormat, telemetryFile, arguments, ignored]
  rfl

theorem fits_texts {α : Type} (l : List α) (key text : α → String) :
    ∀ e ∈ l.map fun x => (key x, Leaf.text (text x)), e.2.Fits := by
  intro e member
  obtain ⟨x, _, rfl⟩ := List.mem_map.mp member
  trivial

theorem wellFormed_document (fits : s.Fits) : s.document.WellFormed where
  keys := by
    cases telemetry : s.telemetryFile <;> simp [document, telemetry]
  sectionKeys := by
    have arguments : ((s.detectorArguments.entries.map fun e => (e.1, Leaf.text e.2)).map
        (·.1)).Nodup := by
      rw [List.map_map]
      exact s.detectorArguments.sorted_keys.imp fun {_ _} lt => String.ne_of_lt lt
    simp only [document, List.forall_mem_cons]
    exact ⟨arguments, List.nodup_singleton _, nofun⟩
  fits := by
    simp only [document, List.forall_mem_append, List.forall_mem_cons]
    exact ⟨⟨trivial, trivial, trivial, fits.timeLimit, fits.threads, trivial, trivial, trivial,
      trivial, nofun⟩, fits_texts s.telemetryFile.toList (fun _ => "telemetry_file") id⟩
  sectionsFit := by
    simp only [document, List.forall_mem_cons]
    exact ⟨fits_texts s.detectorArguments.entries (·.1) (·.2), ⟨trivial, nofun⟩, nofun⟩

/-- What the text of settings says when it is read. -/
theorem ofText_text (fits : s.Fits) (path : String) : ofText path s.document.text =
    if s.maxThreads = 0 then .error (.settings path "max_threads must be at least 1")
    else .ok s := by
  rw [ofText, (wellFormed_document fits).read?_text, Option.bind_some, ofToml?_value fits]

theorem exists_of_read? (read : world.read? path = .ok text) : world.exists path = true := by
  cases node : world.node? path with
  | error e => simp [World.read?, node, bind, Except.bind] at read
  | ok n => simp [World.exists, node, Except.isOk, Except.toBool]

theorem load_of_read? (read : world.read? path = .ok text) : load world path = ofText path text := by
  rw [load, exists_of_read? read, read]
  rfl

/-- What was written is there to be read. -/
theorem read?_save (wf : world.top.WellFormed) (saved : s.save world path = .ok world') :
    s.Fits ∧ world'.read? path = .ok s.document.text := by
  unfold save at saved
  cases text : s.text? with
  | none => simp [text] at saved
  | some text' =>
    obtain ⟨fits, rfl⟩ := text?_eq_some_iff.mp text
    refine ⟨fits, ?_⟩
    rw [text] at saved
    cases made : world.makeFolderFor path with
    | error e => simp [made] at saved
    | ok ready =>
      cases written : ready.write path s.document.text with
      | error e => simp [made, written] at saved
      | ok after =>
        simp only [made, written, Except.ok.injEq] at saved
        exact saved ▸ World.read?_write (World.wellFormed_makeFolderFor wf made) written

/-- Settings load back from the file they were saved to, whatever stood there before and
wherever the path leads. Only a number of threads that is zero is refused, when it is read. -/
theorem load_save (wf : world.top.WellFormed) (saved : s.save world path = .ok world') :
    (0 < s.maxThreads → load world' path = .ok s) ∧
      (s.maxThreads = 0 →
        load world' path = .error (.settings path "max_threads must be at least 1")) := by
  obtain ⟨fits, read⟩ := read?_save wf saved
  rw [load_of_read? read, ofText_text fits]
  exact ⟨fun some => if_neg (Nat.ne_of_gt some), fun none => if_pos none⟩

def emptyWorld : World := ⟨.folder [], []⟩

theorem save_emptyWorld (fits : s.Fits) : s.save emptyWorld "config.toml" =
    .ok ⟨.folder [("config.toml", .file (some s.document.text))], []⟩ := by
  have parent : Path.parent? "config.toml" = some "" := by decide +kernel
  have ready : emptyWorld.makeFolderFor "config.toml" = .ok emptyWorld := by
    simp only [World.makeFolderFor, parent]
  have written : emptyWorld.write "config.toml" s.document.text = .ok _ :=
    World.write_new (by decide +kernel) (by decide) _
  simp only [save, text?_eq_some_iff.mpr ⟨fits, rfl⟩, ready, written]

def full : Settings where
  categories := ["Npm", "Pip"]
  detectors := ["say \"hi\"", "C:\\new"]
  exclusions := ["**/vendor/**"]
  timeLimitSeconds := 0
  maxThreads := 2
  rule := .developmentWins
  format := "json"
  logLevel := "debug\n"
  logFormat := ""
  telemetryFile := some "out/telemetry.jsonl"
  detectorArguments := .ofList [("Pip", "EnableIfDefaultOff"), ("a b", "\t")]
  ignored := ["internal-*"]

theorem load_full :
    emptyWorld.top.WellFormed ∧ full.save emptyWorld "config.toml" =
      .ok ⟨.folder [("config.toml", .file (some full.document.text))], []⟩ ∧
    load ⟨.folder [("config.toml", .file (some full.document.text))], []⟩ "config.toml" =
      .ok full :=
  have saved := save_emptyWorld (s := full) ⟨by decide, by decide⟩
  ⟨.empty, saved, (load_save .empty saved).1 (by decide)⟩

def idle : Settings := { maxThreads := 0 }

theorem idle_saved_not_loaded : ∃ world' : World,
    idle.save emptyWorld "config.toml" = .ok world' ∧
      load world' "config.toml" =
        .error (.settings "config.toml" "max_threads must be at least 1") := by
  have saved := save_emptyWorld (s := idle) ⟨by decide, by decide⟩
  have read := read?_save .empty saved
  refine ⟨_, saved, ?_⟩
  rw [load_of_read? read.2, ofText_text read.1]
  exact if_pos rfl

end Inventory.Settings
