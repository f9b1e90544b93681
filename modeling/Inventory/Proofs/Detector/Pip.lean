import Inventory.Proofs.Detector.Lines
import Inventory.Proofs.Text.Cut

/-! Exact pins. A line that pins a version is cut at its first `==` and at a bracket before that,
and little is asked of the parts: what is taken for a pin may have anything for a name. -/
namespace Inventory.Pip

open Text
open FileRecorder (Registration Recorded manual writesOf failuresOf mem_writesOf recorded_of_pass)

/-- What a line comes down to, once a comment and an environment marker are cut off. -/
def stripped (line : List Char) : List Char := trim (upTo [';'] (upTo ['#'] line))

def isNameChar (c : Char) : Bool := c.isAlphanum || c == '.' || c == '_' || c == '-'

structure IsName (s : List Char) : Prop where
  start : ∃ c ∈ s.head?, c.isAlphanum = true
  chars : ∀ c ∈ s, isNameChar c = true

structure IsVersion (s : List Char) : Prop where
  some : s ≠ []
  unbroken : ∀ c ∈ s, isBlankChar c = false
  single : ',' ∉ s ∧ '*' ∉ s
  noOperator : '=' ∉ s

/-- Names in brackets with commas between them, perhaps none; or no brackets at all. -/
inductive IsExtras : List Char → Prop
  | none : IsExtras []
  | bracketed (inner : List Char)
      (listed : Blanks inner ∨ ∀ extra ∈ splitAt ',' inner, IsName (trim extra)) :
      IsExtras ('[' :: (inner ++ [']']))

structure IsPin (line name version : List Char) : Prop where
  named : IsName name
  versioned : IsVersion version
  shape : ∃ a extras b c, Blanks a ∧ IsExtras extras ∧ Blanks b ∧ Blanks c ∧
    line = name ++ a ++ extras ++ b ++ '=' :: (['='] ++ (c ++ version))

def registration (name version : List Char) : Registration where
  detected := { component := .pip (String.ofList name) (String.ofList version) none none }
  usage := { explicit := true }

/-- What should be recorded of a line: a component for an exact pin, and the requirement as a
failure for any other one. Nothing is required by a line of which nothing is left or by an
option. -/
inductive ToRecord (line : List Char) : List (Except String Registration) → Prop
  | pinned (name version : List Char) (pin : IsPin (stripped line) name version) :
      ToRecord line [.ok (registration name version)]
  | skipped (some : stripped line ≠ []) (asks : startsWith ['-'] (stripped line) = false)
      (other : ¬ ∃ name version, IsPin (stripped line) name version) :
      ToRecord line [.error (String.ofList (stripped line))]
  | passed (nothing : stripped line = [] ∨ startsWith ['-'] (stripped line) = true) :
      ToRecord line []

variable {line name extras version : List Char}

theorem isBlankChar_eq_false_of_isNameChar {c : Char} (among : isNameChar c = true) :
    isBlankChar c = false := by
  have upper (letter : c.isUpper = true) : 65 ≤ c.toNat ∧ c.toNat ≤ 90 :=
    of_decide_eq_true letter
  have lower (letter : c.isLower = true) : 97 ≤ c.toNat ∧ c.toNat ≤ 122 := by
    obtain ⟨low, high⟩ := Bool.and_eq_true_iff.mp letter
    exact ⟨of_decide_eq_true low, of_decide_eq_true high⟩
  have range : 0x21 ≤ c.toNat ∧ c.toNat ≤ 0x7E := by
    rw [isNameChar, Bool.or_eq_true, Bool.or_eq_true, Bool.or_eq_true, beq_iff_eq, beq_iff_eq,
      beq_iff_eq] at among
    rcases among with ((alphanumeric | rfl) | rfl) | rfl
    · rcases Bool.or_eq_true_iff.mp alphanumeric with letter | number
      · rcases Bool.or_eq_true_iff.mp letter with big | small
        · have := upper big
          omega
        · have := lower small
          omega
      · have : 48 ≤ c.toNat ∧ c.toNat ≤ 57 := Char.isDigit_iff_toNat.mp number
        omega
    · decide
    · decide
    · decide
  exact isBlankChar_eq_false range.1 range.2

theorem IsName.trimmed (named : IsName name) : Trimmed name :=
  trimmed_of_unbroken fun c member => isBlankChar_eq_false_of_isNameChar (named.chars c member)

theorem IsName.ne_nil (named : IsName name) : name ≠ [] := by
  rintro rfl
  obtain ⟨c, first, -⟩ := named.start
  cases first

theorem IsName.not_mem (named : IsName name) {c : Char} (other : isNameChar c = false) :
    c ∉ name := fun member => Bool.false_ne_true (other.symm.trans (named.chars c member))

theorem not_mem_of_blanks {blanks : List Char} (all : Blanks blanks) {c : Char}
    (other : isBlankChar c = false) : c ∉ blanks := fun member =>
  Bool.false_ne_true (other.symm.trans (all c member))

theorem IsExtras.equals_not_mem (extended : IsExtras extras) : '=' ∉ extras := by
  rcases extended with _ | ⟨inner, blanks | named⟩
  · exact List.not_mem_nil
  · simpa using not_mem_of_blanks blanks (by decide)
  · suffices absent : '=' ∉ inner by simpa using absent
    intro member
    obtain ⟨extra, among, inside⟩ := exists_mem_splitWhen (p := (· == ',')) member (by decide)
    obtain ⟨before, after, blanks, blanks', whole, -⟩ := exists_trim extra
    rw [whole, List.mem_append, List.mem_append] at inside
    rcases inside with front | middle | back
    · exact not_mem_of_blanks blanks (by decide) front
    · exact (named extra among).not_mem (by decide) middle
    · exact not_mem_of_blanks blanks' (by decide) back

/-- What stands in front of the first `==` up to a bracket, what stands there from the bracket on,
and what stands behind. -/
def parts? (line : List Char) : Option (List Char × List Char × List Char) :=
  (cutAt? ['=', '='] line).map fun (spec, rest) =>
    (trim (upTo ['['] spec), trim (spec.drop (upTo ['['] spec).length), trim rest)

structure LooksPinned (line name extras version : List Char) : Prop where
  cut : parts? line = some (name, extras, version)
  named : name ≠ []
  versioned : version ≠ []
  single : ',' ∉ version ∧ '*' ∉ version
  asks : startsWith ['-'] line = false

/-- Extras are cut off in front of their bracket. -/
theorem IsExtras.cut {front back : List Char} (extended : IsExtras extras) (absent : '[' ∉ front)
    (blanks : Blanks back) : ∃ gap, Blanks gap ∧
      upTo ['['] (front ++ extras ++ back) = front ++ gap ∧
      trim ((front ++ extras ++ back).drop (front ++ gap).length) = extras := by
  rcases extended with _ | ⟨inner, _⟩
  · refine ⟨back, blanks, ?_, ?_⟩
    · rw [List.append_nil]
      refine upTo_of_not_mem ?_ []
      rw [List.mem_append, not_or]
      exact ⟨absent, not_mem_of_blanks blanks (by decide)⟩
    · rw [List.append_nil, List.drop_length]
      rfl
  · have trimmed : Trimmed ('[' :: (inner ++ [']'])) := by
      constructor
      · rintro c ⟨⟩
        decide
      · rw [← List.cons_append, List.getLast?_concat]
        rintro c ⟨⟩
        decide
    refine ⟨[], blanks_nil, ?_, ?_⟩
    · rw [List.append_nil, List.append_assoc, List.cons_append]
      exact upTo_append_of_not_mem absent [] (inner ++ [']'] ++ back)
    · rw [List.append_nil, List.append_assoc, List.drop_left]
      exact trim_append_right trimmed blanks

/-- An exact pin is cut where its parts meet. -/
theorem IsPin.parts? (pin : IsPin line name version) :
    ∃ extras, Pip.parts? line = some (name, extras, version) ∧ IsExtras extras := by
  obtain ⟨a, extras, b, c, blanks, extended, blanks', blanks'', rfl⟩ := pin.shape
  have spec : '=' ∉ name ++ a ++ extras ++ b := by
    simp only [List.mem_append, not_or]
    exact ⟨⟨⟨pin.named.not_mem (by decide), not_mem_of_blanks blanks (by decide)⟩,
      extended.equals_not_mem⟩, not_mem_of_blanks blanks' (by decide)⟩
  have front : '[' ∉ name ++ a := by
    rw [List.mem_append, not_or]
    exact ⟨pin.named.not_mem (by decide), not_mem_of_blanks blanks (by decide)⟩
  obtain ⟨gap, between, bracket, extended'⟩ := extended.cut front blanks'
  have named : trim (name ++ a ++ gap) = name := by
    have all : Blanks (a ++ gap) := List.forall_mem_append.mpr ⟨blanks, between⟩
    rw [List.append_assoc]
    exact trim_append_right pin.named.trimmed all
  have versioned : trim (c ++ version) = version :=
    trim_append_left blanks'' (trimmed_of_unbroken pin.versioned.unbroken)
  refine ⟨extras, ?_, extended⟩
  rw [Pip.parts?, cutAt?_append_of_not_mem spec, Option.map_some]
  dsimp only
  rw [bracket, extended', named, versioned]

/-- Parts of the right form make an exact pin. -/
theorem isPin_of_parts (trimmed : Trimmed line) (cut : parts? line = some (name, extras, version))
    (named : IsName name) (extended : IsExtras extras) (versioned : IsVersion version) :
    IsPin line name version := by
  obtain ⟨⟨spec, rest⟩, first, same⟩ := Option.map_eq_some_iff.mp cut
  obtain ⟨rfl, rfl, rfl⟩ : trim (upTo ['['] spec) = name ∧
      trim (spec.drop (upTo ['['] spec).length) = extras ∧ trim rest = version := by
    simpa using same
  have split := List.prefix_iff_eq_append.mp (prefix_upTo ['['] spec)
  obtain ⟨lead, a, blanksLead, blanksA, front, -⟩ := exists_trim (upTo ['['] spec)
  obtain ⟨a', b, blanksA', blanksB, middle, -⟩ :=
    exists_trim (spec.drop (upTo ['['] spec).length)
  obtain ⟨c, trail, blanksC, blanksTrail, back, -⟩ := exists_trim rest
  generalize trim (upTo ['['] spec) = name at *
  generalize trim (spec.drop (upTo ['['] spec).length) = extras at *
  generalize trim rest = version at *
  have whole : line = lead ++ (name ++ (a ++ a') ++ extras ++ b ++ '=' :: (['='] ++
      (c ++ version))) ++ trail := by
    rw [eq_append_of_cutAt? first, ← split, middle, front, back]
    simp
  rw [whole] at trimmed
  obtain rfl := trimmed.eq_nil_of_back blanksTrail
  rw [List.append_nil] at trimmed whole
  obtain rfl := trimmed.eq_nil_of_front blanksLead
  refine ⟨named, versioned, a ++ a', extras, b, c, ?_, extended, blanksB, blanksC, whole⟩
  exact List.forall_mem_append.mpr ⟨blanksA, blanksA'⟩

theorem requirement?_eq (line : List Char) : requirement? line =
    if stripped line = [] then none
    else if startsWith ['-'] (stripped line) = true then some .option
    else match parts? (stripped line) with
      | none => some (.unpinned (String.ofList (stripped line)))
      | some (name, _, version) =>
        if name = [] ∨ version = [] ∨ ',' ∈ version ∨ '*' ∈ version then
          some (.unpinned (String.ofList (stripped line)))
        else some (.pinned (String.ofList name) (String.ofList version)) := by
  unfold requirement?
  rw [← stripped, parts?]
  simp only [List.isEmpty_iff]
  cases cutAt? ['=', '='] (stripped line) with
  | none => rfl
  | some p => simp [List.isEmpty_iff, or_assoc]

theorem said_of_looksPinned (looks : LooksPinned (stripped line) name extras version) :
    said line = [.ok (registration name version)] := by
  have some : stripped line ≠ [] := by
    intro none
    have cut := looks.cut
    rw [none] at cut
    cases cut
  have taken : ¬ (name = [] ∨ version = [] ∨ ',' ∈ version ∨ '*' ∈ version) := by
    simp [looks.named, looks.versioned, looks.single]
  have required : requirement? line = Option.some
      (.pinned (String.ofList name) (String.ofList version)) := by
    rw [requirement?_eq, if_neg some, if_neg (by simp [looks.asks]), looks.cut]
    exact if_neg taken
  rw [said, required]
  rfl

theorem said_of_not_looksPinned (some : stripped line ≠ [])
    (asks : startsWith ['-'] (stripped line) = false)
    (other : ¬ ∃ name extras version, LooksPinned (stripped line) name extras version) :
    said line = [.error (String.ofList (stripped line))] := by
  have required : requirement? line =
      Option.some (.unpinned (String.ofList (stripped line))) := by
    rw [requirement?_eq, if_neg some, if_neg (by simp [asks])]
    cases cut : parts? (stripped line) with
    | none => rfl
    | some p =>
      obtain ⟨name, extras, version⟩ := p
      refine if_pos (Classical.byContradiction fun taken => other ⟨name, extras, version, ?_⟩)
      simp only [not_or] at taken
      obtain ⟨named, versioned, single⟩ := taken
      exact ⟨cut, named, versioned, single, asks⟩
  rw [said, required]

theorem said_of_nothing
    (nothing : stripped line = [] ∨ startsWith ['-'] (stripped line) = true) :
    said line = [] := by
  rw [said, requirement?_eq]
  by_cases none : stripped line = []
  · rw [if_pos none]
  · rw [if_neg none, if_pos (nothing.resolve_left none)]

theorem IsPin.looksPinned (pin : IsPin line name version) :
    ∃ extras, LooksPinned line name extras version ∧ IsExtras extras := by
  obtain ⟨extras, cut, extended⟩ := pin.parts?
  have asks : startsWith ['-'] line = false := by
    obtain ⟨c, first, letter⟩ := pin.named.start
    obtain ⟨rest, rfl⟩ := List.head?_eq_some_iff.mp first
    obtain ⟨a, extras, b, d, -, -, -, -, rfl⟩ := pin.shape
    have other : '-' ≠ c := by
      rintro rfl
      exact absurd letter (by decide)
    rw [startsWith, Option.isSome_eq_false_iff, Option.isNone_iff_eq_none]
    exact if_neg other
  exact ⟨extras, ⟨cut, pin.named.ne_nil, pin.versioned.some, pin.versioned.single, asks⟩, extended⟩

theorem registration_inj {name' version' : List Char}
    (same : registration name version = registration name' version') :
    name = name' ∧ version = version' := by
  have equal : String.ofList name = String.ofList name' ∧
      String.ofList version = String.ofList version' := by simpa [registration] using same
  exact ⟨String.ofList_injective equal.1, String.ofList_injective equal.2⟩

/-- A line is recorded as it should be exactly if it is an exact pin or does not look like one. -/
theorem toRecord_said_iff : ToRecord line (said line) ↔
    ∀ name extras version, LooksPinned (stripped line) name extras version →
      IsName name ∧ IsExtras extras ∧ IsVersion version := by
  constructor
  · intro recorded name extras version looks
    rw [said_of_looksPinned looks] at recorded
    generalize made : [Except.ok (registration name version)] = said at recorded
    cases recorded with
    | pinned name' version' pin =>
      obtain ⟨rfl, rfl⟩ := registration_inj (by simpa using made)
      obtain ⟨extras', looks', extended⟩ := pin.looksPinned
      obtain rfl : extras = extras' := by simpa using looks.cut.symm.trans looks'.cut
      exact ⟨pin.named, extended, pin.versioned⟩
    | skipped => cases made
    | passed => cases made
  · intro form
    by_cases looks : ∃ name extras version, LooksPinned (stripped line) name extras version
    · obtain ⟨name, extras, version, looks⟩ := looks
      obtain ⟨named, extended, versioned⟩ := form name extras version looks
      have trimmed : Trimmed (stripped line) := trimmed_trim _
      rw [said_of_looksPinned looks]
      exact .pinned name version (isPin_of_parts trimmed looks.cut named extended versioned)
    · by_cases nothing : stripped line = [] ∨ startsWith ['-'] (stripped line) = true
      · rw [said_of_nothing nothing]
        exact .passed nothing
      · rw [not_or, Bool.not_eq_true] at nothing
        rw [said_of_not_looksPinned nothing.1 nothing.2 looks]
        refine .skipped nothing.1 nothing.2 fun ⟨name, version, pin⟩ => looks ?_
        obtain ⟨extras, looks, -⟩ := pin.looksPinned
        exact ⟨name, extras, version, looks⟩

/-- The recorder of a text holds what its lines say, and nothing else. Every exact pin is recorded
with its name and its version. A line is recorded as it should be exactly if the parts that it is
cut into when it looks like a pin are a name, extras and a version. -/
theorem records_exact_pins_iff (m : Manifest) (text : String) (rule : DevelopmentRule) :
    (∃ f, read m text (manual rule) = (f, none) ∧
      Recorded rule (writesOf ((lines text.toList).flatMap said)) []
        (failuresOf ((lines text.toList).flatMap said)) f) ∧
    (∀ line name version, IsPin (stripped line) name version →
      said line = [.ok (registration name version)]) ∧
    ∀ line, ToRecord line (said line) ↔
      ∀ name extras version, LooksPinned (stripped line) name extras version →
        IsName name ∧ IsExtras extras ∧ IsVersion version := by
  refine ⟨⟨_, read_eq m text (manual rule), ?_⟩, fun line name version pin => ?_, fun line =>
    toRecord_said_iff⟩
  · have top : ∀ c ∈ writesOf ((lines text.toList).flatMap said), c.usage.parent = none := by
      intro c member
      obtain ⟨line, -, here⟩ := List.mem_flatMap.mp (mem_writesOf.mp member)
      rw [said] at here
      split at here
      · obtain rfl : c = _ := by simpa using here
        rfl
      · simp at here
      · cases here
      · cases here
    exact recorded_of_pass top
  · obtain ⟨extras, looks, -⟩ := pin.looksPinned
    exact said_of_looksPinned looks

/-- The bound in front of a pinned version is taken for a part of the name. -/
theorem bounded_pin_recorded :
    let line := "flask>=2.0,==2.3.2".toList
    requirement? line = some (.pinned "flask>=2.0," "2.3.2") ∧ ¬ ToRecord line (said line) := by
  intro line
  have looks : LooksPinned (stripped line) "flask>=2.0,".toList [] "2.3.2".toList := by
    constructor <;> decide +kernel
  refine ⟨by decide +kernel, fun recorded => ?_⟩
  have named := (toRecord_said_iff.mp recorded _ _ _ looks).1
  exact absurd (named.chars '>' (by decide)) (by decide)

end Inventory.Pip
