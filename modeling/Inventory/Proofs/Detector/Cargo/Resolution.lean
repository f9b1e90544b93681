import Inventory.Detector.Cargo
import Inventory.Proofs.Text.Words
import Mathlib.Data.List.Nodup

/-! Which package a dependency names. A lock file gives the name, where this is not enough also the
version, and where that is not enough the source too. A version settles on the first package that
has it and the name, whatever its source, so a source is minded only if this package has it. -/
namespace Inventory.Cargo

open Text (Token)

variable {packages : List Package} {i : Nat}

inductive Reference where
  | named (name : Token)
  | versioned (name version : Token)
  | sourced (name version : Token) (source : String)

namespace Reference

def name : Reference → String
  | named name | versioned name _ | sourced name _ _ => name.text

def version? : Reference → Option String
  | named _ => none
  | versioned _ version | sourced _ version _ => some version.text

def source? : Reference → Option String
  | named _ | versioned .. => none
  | sourced _ _ source => some source

def text : Reference → String
  | named name => name.text
  | versioned name version => name.text ++ " " ++ version.text
  | sourced name version source => name.text ++ " " ++ (version.text ++ " (" ++ source ++ ")")

def fits (d : Reference) (p : Package) : Bool :=
  p.name == d.name && d.version?.all (p.version == ·)

structure Agrees (d : Reference) (p : Package) : Prop where
  name : p.name = d.name
  version : ∀ version, d.version? = some version → p.version = version
  source : ∀ source, d.source? = some source → p.source = some source

theorem fits_iff {d : Reference} {p : Package} : d.fits p = true ↔
    p.name = d.name ∧ ∀ version, d.version? = some version → p.version = version := by
  cases d <;> simp [fits, version?]

theorem agrees_iff {d : Reference} {p : Package} : d.Agrees p ↔
    d.fits p = true ∧ ∀ source, d.source? = some source → p.source = some source := by
  rw [fits_iff]
  exact ⟨fun agrees => ⟨⟨agrees.name, agrees.version⟩, agrees.source⟩,
    fun ⟨⟨name, version⟩, source⟩ => ⟨name, version, source⟩⟩

end Reference

theorem words_named (name : Token) :
    (Text.words (Reference.named name).text.toList).map String.ofList = [name.text] := by
  rw [Reference.text, Text.words_token, List.map_singleton, String.ofList_toList]

theorem words_versioned (name version : Token) :
    (Text.words (Reference.versioned name version).text.toList).map String.ofList =
      [name.text, version.text] := by
  rw [Reference.text, Text.words_token_append, Text.words_token]
  simp

/-- Whatever stands behind the version. -/
theorem words_sourced (name version : Token) (source : String) :
    ∃ more, (Text.words (Reference.sourced name version source).text.toList).map String.ofList =
      name.text :: version.text :: more := by
  have cut : version.text ++ " (" ++ source ++ ")" =
      version.text ++ " " ++ ("(" ++ source ++ ")") := by
    simp only [String.append_assoc]
    rfl
  rw [Reference.text, cut, Text.words_token_append, Text.words_token_append]
  exact ⟨_, by rw [List.map_cons, List.map_cons, String.ofList_toList, String.ofList_toList]⟩

/-- The package that alone is so, with its place. -/
theorem filter_zipIdx_eq_singleton_iff {p : Package → Bool} {x : Package × Nat} :
    packages.zipIdx.filter (p ·.1) = [x] ↔ packages[x.2]? = some x.1 ∧ p x.1 = true ∧
      ∀ j q, packages[j]? = some q → p q = true → j = x.2 := by
  have member (y : Package × Nat) : y ∈ packages.zipIdx.filter (p ·.1) ↔
      packages[y.2]? = some y.1 ∧ p y.1 = true := by
    rw [List.mem_filter, List.mem_zipIdx_iff_getElem?]
  constructor
  · intro single
    obtain ⟨here, fits⟩ := (member x).mp (single ▸ List.mem_singleton_self x)
    refine ⟨here, fits, fun j q there fits' => ?_⟩
    have same : (q, j) ∈ [x] := single ▸ (member (q, j)).mpr ⟨there, fits'⟩
    exact congrArg Prod.snd (List.mem_singleton.mp same)
  · rintro ⟨here, fits, alone⟩
    have places : (packages.zipIdx.map (·.2)).Nodup := by
      rw [List.zipIdx_map_snd]
      exact List.nodup_range'
    have distinct : (packages.zipIdx.filter (p ·.1)).Nodup := (List.Nodup.of_map _ places).filter _
    apply List.perm_singleton.mp
    rw [List.perm_ext_iff_of_nodup distinct (List.nodup_singleton x)]
    rintro ⟨q, j⟩
    rw [member, List.mem_singleton]
    constructor
    · rintro ⟨there, fits'⟩
      obtain rfl := alone j q there fits'
      exact Prod.ext (Option.some.inj (there.symm.trans here)) rfl
    · rintro rfl
      exact ⟨here, fits⟩

/-- A name alone finds a package if no other has the name. -/
theorem resolve_named_iff (name : Token) :
    resolve packages (Reference.named name).text = some i ↔
      ∃ p, packages[i]? = some p ∧ p.name = name.text ∧
        ∀ j q, packages[j]? = some q → q.name = name.text → j = i := by
  have single : resolve packages (Reference.named name).text = some i ↔
      ∃ p, packages.zipIdx.filter (·.1.name == name.text) = [(p, i)] := by
    rw [resolve, words_named]
    dsimp only
    split
    next p j candidates => simp [candidates]
    next other =>
      refine iff_of_false (by simp) ?_
      rintro ⟨p, candidates⟩
      exact other p i candidates
  refine single.trans (exists_congr fun p => ?_)
  simpa only [beq_iff_eq] using
    filter_zipIdx_eq_singleton_iff (p := (·.name == name.text)) (x := (p, i))

theorem find?_candidates (name version : String) :
    ((packages.zipIdx.filter (·.1.name == name)).find? (·.1.version == version)).map (·.2) =
      packages.findIdx? fun p => p.name == name && p.version == version := by
  rw [List.findIdx?_eq_fst_find?_zipIdx, List.find?_filter]
  simp only [Bool.decide_and, Bool.decide_eq_true]

/-- With a version, the first package is found that has it and the name. -/
theorem resolve_of_version {d : Reference} (given : d.version? ≠ none) :
    resolve packages d.text = packages.findIdx? d.fits := by
  cases d with
  | named => exact absurd rfl given
  | versioned name version =>
    rw [resolve, words_versioned]
    exact find?_candidates name.text version.text
  | sourced name version source =>
    obtain ⟨more, words⟩ := words_sourced name version source
    rw [resolve, words]
    exact find?_candidates name.text version.text

/-- What is found has the name and the version. -/
theorem fits_of_resolve {d : Reference} (found : resolve packages d.text = some i) :
    ∃ p, packages[i]? = some p ∧ d.fits p = true := by
  by_cases given : d.version? = none
  · cases d with
    | named name =>
      obtain ⟨p, here, same, _⟩ := (resolve_named_iff name).mp found
      exact ⟨p, here, Reference.fits_iff.mpr ⟨same, by simp [given]⟩⟩
    | versioned | sourced => cases given
  · rw [resolve_of_version given, List.findIdx?_eq_some_iff_getElem] at found
    obtain ⟨bound, fits, _⟩ := found
    exact ⟨packages[i], List.getElem?_eq_getElem bound, fits⟩

/-- The one package of the name and the version is found. -/
theorem resolve_of_alone {d : Reference} {p : Package} (here : packages[i]? = some p)
    (fits : d.fits p = true) (alone : ∀ j q, packages[j]? = some q → d.fits q = true → j = i) :
    resolve packages d.text = some i := by
  by_cases given : d.version? = none
  · cases d with
    | named name =>
      have same (q : Package) : (Reference.named name).fits q = true ↔ q.name = name.text := by
        simp [Reference.fits, Reference.name, Reference.version?]
      exact (resolve_named_iff name).mpr ⟨p, here, (same p).mp fits,
        fun j q there named => alone j q there ((same q).mpr named)⟩
    | versioned | sourced => cases given
  · rw [resolve_of_version given, List.findIdx?_eq_some_iff_getElem]
    obtain ⟨bound, rfl⟩ := List.getElem?_eq_some_iff.mp here
    refine ⟨bound, fits, fun j before fits' => ?_⟩
    have there := List.getElem?_eq_getElem (Nat.lt_trans before bound)
    exact Nat.ne_of_lt before (alone j _ there fits')

/-- What is found agrees with the reference, and what alone agrees with it is found. -/
structure Honours (packages : List Package) (d : Reference) : Prop where
  agrees : ∀ i, resolve packages d.text = some i → ∃ p, packages[i]? = some p ∧ d.Agrees p
  found : ∀ i p, packages[i]? = some p → d.Agrees p →
    (∀ j q, packages[j]? = some q → d.Agrees q → j = i) → resolve packages d.text = some i

/-- Where a source is given, the first package of the name and the version has it. -/
def SourceFirst (packages : List Package) (d : Reference) : Prop :=
  ∀ source, d.source? = some source →
    ∀ first, packages.find? d.fits = some first → first.source = some source

theorem find?_fits_iff {d : Reference} {p : Package} (given : d.version? ≠ none) :
    packages.find? d.fits = some p ↔
      ∃ i, resolve packages d.text = some i ∧ packages[i]? = some p := by
  rw [resolve_of_version given, List.find?_eq_bind_findIdx?_getElem?]
  exact Option.bind_eq_some_iff

theorem Reference.version?_of_source? {d : Reference} {source : String}
    (given : d.source? = some source) : d.version? ≠ none := by
  cases d with
  | named | versioned => cases given
  | sourced => simp [version?]

theorem SourceFirst.agrees {d : Reference} (first : SourceFirst packages d) {p : Package}
    (found : resolve packages d.text = some i) (here : packages[i]? = some p) : d.Agrees p := by
  obtain ⟨q, there, fits⟩ := fits_of_resolve found
  obtain rfl := Option.some.inj (there.symm.trans here)
  refine Reference.agrees_iff.mpr ⟨fits, fun source given => ?_⟩
  exact first source given q
    ((find?_fits_iff (Reference.version?_of_source? given)).mpr ⟨i, found, here⟩)

theorem SourceFirst.found {d : Reference} (first : SourceFirst packages d) {p : Package}
    (here : packages[i]? = some p) (agrees : d.Agrees p)
    (alone : ∀ j q, packages[j]? = some q → d.Agrees q → j = i) :
    resolve packages d.text = some i := by
  have fits := (Reference.agrees_iff.mp agrees).1
  cases given : d.source? with
  | none =>
    apply resolve_of_alone here fits
    intro j q there fits'
    exact alone j q there (Reference.agrees_iff.mpr ⟨fits', by simp [given]⟩)
  | some source =>
    -- Something fits, and the first that does has the source.
    have member : p ∈ packages := List.mem_of_getElem? here
    obtain ⟨q, before⟩ := Option.isSome_iff_exists.mp
      (List.find?_isSome.mpr ⟨p, member, fits⟩)
    obtain ⟨j, found, there⟩ :=
      (find?_fits_iff (Reference.version?_of_source? given)).mp before
    obtain rfl := alone j q there (first.agrees found there)
    exact found

/-- A reference finds a package of its name and version. In every field that it gives it is
honoured exactly if it gives no source, or if the first package of its name and version has that
source. -/
theorem honours_iff_sourceFirst (packages : List Package) (d : Reference) :
    (∀ i, resolve packages d.text = some i → ∃ p, packages[i]? = some p ∧ p.name = d.name ∧
      ∀ version, d.version? = some version → p.version = version) ∧
    (Honours packages d ↔ SourceFirst packages d) := by
  constructor
  · intro i found
    obtain ⟨p, here, fits⟩ := fits_of_resolve found
    exact ⟨p, here, Reference.fits_iff.mp fits⟩
  · constructor
    · intro honours source given first before
      obtain ⟨i, found, here⟩ :=
        (find?_fits_iff (Reference.version?_of_source? given)).mp before
      obtain ⟨p, there, agrees⟩ := honours.agrees i found
      obtain rfl := Option.some.inj (there.symm.trans here)
      exact agrees.source source given
    · intro first
      refine ⟨fun i found => ?_, fun i p here agrees alone => first.found here agrees alone⟩
      obtain ⟨p, here, _⟩ := fits_of_resolve found
      exact ⟨p, here, first.agrees found here⟩

/-- A package of the workspace stands before the one of the registry that has the same name and
version, and is taken for it. -/
theorem workspace_package_resolved :
    let registry := "registry+https://github.com/rust-lang/crates.io-index"
    let packages := [Package.mk "dep" "1.0.0" none [], ⟨"dep", "1.0.0", some registry, []⟩]
    let d := Reference.sourced ⟨"dep", by decide, Text.unbroken_of_all (by decide)⟩
      ⟨"1.0.0", by decide, Text.unbroken_of_all (by decide)⟩ registry
    resolve packages d.text = some 0 ∧ d.Agrees ⟨"dep", "1.0.0", some registry, []⟩ ∧
      ¬ Honours packages d := by
  intro registry packages d
  have found : resolve packages d.text = some 0 := by decide +kernel
  have agrees : d.Agrees ⟨"dep", "1.0.0", some registry, []⟩ :=
    ⟨rfl, fun _ given => Option.some.inj given, fun _ given => given⟩
  refine ⟨found, agrees, fun honours => ?_⟩
  obtain ⟨p, here, so⟩ := honours.agrees 0 found
  obtain rfl := Option.some.inj here
  cases so.source registry rfl

end Inventory.Cargo
