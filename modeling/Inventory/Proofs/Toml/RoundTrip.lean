import Inventory.Proofs.Toml.Line
import Mathlib.Data.List.Nodup

/-! The text of a document is read back as the table that the document describes. The reader is
followed along the text line by line, and after it the table that grows with each line. -/
namespace Inventory.Toml

variable {c : Char} {fuel : Nat} {s t : List Char} {ls : List Line} {entries : List Entry}

/-- The lines that a text is read as, with any fuel that exceeds its length. -/
def Reads (s : List Char) (ls : List Line) : Prop :=
  ∀ fuel, s.length < fuel → lines? fuel s = some ls

theorem reads_nil : Reads [] [] := by
  intro fuel enough
  obtain ⟨fuel, rfl⟩ : ∃ k, fuel = k + 1 := ⟨fuel - 1, by omega⟩
  rfl

theorem Reads.blankLine (reads : Reads s ls) : Reads ('\n' :: s) ls := by
  intro fuel enough
  obtain ⟨fuel, rfl⟩ : ∃ k, fuel = k + 1 := ⟨fuel - 1, by omega⟩
  exact reads fuel (Nat.lt_of_succ_lt_succ enough)

theorem Reads.line {line : Line} (reads : Reads s ls) (shown : Shown c)
    (read : line? (c :: (t ++ s)) = some (line, s)) : Reads (c :: (t ++ s)) (line :: ls) := by
  intro fuel enough
  obtain ⟨fuel, rfl⟩ : ∃ k, fuel = k + 1 := ⟨fuel - 1, by omega⟩
  have fewer : s.length < fuel := by
    rw [List.length_cons, List.length_append] at enough
    omega
  have next := newline?_cons shown.newline shown.carriageReturn (t ++ s)
  rw [lines?, shown.skipSpace]
  split
  next same => cases same
  next same => exact absurd (List.cons.inj same).1 shown.comment
  next =>
    rw [next, read]
    simp only [Option.bind_eq_bind, Option.bind_some, reads fuel fewer]
    rfl

theorem reads_entries (fits : ∀ e ∈ entries, e.2.Fits) (reads : Reads s ls) :
    Reads ((entriesText entries).toList ++ s) (entries.map entryLine ++ ls) := by
  induction entries with
  | nil => exact reads
  | cons e entries ih =>
    obtain ⟨here, later⟩ := List.forall_mem_cons.mp fits
    have text : (entriesText (e :: entries)).toList ++ s =
        (entryText e).toList ++ ((entriesText entries).toList ++ s) := by
      simp [entriesText, String.toList_join]
    have read := line?_entry here ((entriesText entries).toList ++ s)
    obtain ⟨c, t, split, shown, _⟩ := exists_entryText e
    rw [text]
    rw [split, List.cons_append] at read ⊢
    exact (ih later).line shown read

def sectionLines (s : String × List Entry) : List Line := .table [] s.1 :: s.2.map entryLine

theorem reads_section {sec : String × List Entry} (fits : ∀ e ∈ sec.2, e.2.Fits)
    (reads : Reads s ls) :
    Reads ((Document.sectionText sec).toList ++ s) (sectionLines sec ++ ls) := by
  have text : (Document.sectionText sec).toList ++ s =
      '\n' :: '[' :: (((keyText sec.1).toList ++ [']', '\n']) ++
        ((entriesText sec.2).toList ++ s)) := by
    simp [Document.sectionText]
  have read := line?_header sec.1 ((entriesText sec.2).toList ++ s)
  have joined : '[' :: ((keyText sec.1).toList ++ ']' :: '\n' :: ((entriesText sec.2).toList ++ s)) =
      '[' :: (((keyText sec.1).toList ++ [']', '\n']) ++ ((entriesText sec.2).toList ++ s)) := by
    simp
  rw [joined] at read
  rw [text]
  exact ((reads_entries fits reads).line (shown_of_mark (by decide)) read).blankLine

namespace Document

structure WellFormed (d : Document) : Prop where
  keys : (d.entries.map (·.1) ++ d.sections.map (·.1)).Nodup
  sectionKeys : ∀ s ∈ d.sections, (s.2.map (·.1)).Nodup
  fits : ∀ e ∈ d.entries, e.2.Fits
  sectionsFit : ∀ s ∈ d.sections, ∀ e ∈ s.2, e.2.Fits

def lines (d : Document) : List Line := d.entries.map entryLine ++ d.sections.flatMap sectionLines

theorem WellFormed.reads {d : Document} (wellFormed : d.WellFormed) :
    Reads d.text.toList d.lines := by
  have sections : ∀ sections : List (String × List Entry),
      (∀ s ∈ sections, ∀ e ∈ s.2, e.2.Fits) →
      Reads (String.join (sections.map sectionText)).toList (sections.flatMap sectionLines) := by
    intro sections fits
    induction sections with
    | nil => exact reads_nil
    | cons sec sections ih =>
      obtain ⟨here, later⟩ := List.forall_mem_cons.mp fits
      have text : (String.join ((sec :: sections).map sectionText)).toList =
          (sectionText sec).toList ++ (String.join (sections.map sectionText)).toList := by
        simp [String.toList_join]
      rw [text, List.flatMap_cons]
      exact reads_section here (ih later)
  have whole := reads_entries wellFormed.fits (sections d.sections wellFormed.sectionsFit)
  rwa [← String.toList_append] at whole

end Document

namespace Node

variable {key : String} {node node' : Node} {nodes : List (String × Node)}

theorem find?_of_not_mem (absent : key ∉ nodes.map (·.1)) : find? key nodes = none := by
  have missed : nodes.find? (·.1 == key) = none := by
    rw [List.find?_eq_none]
    intro n member same
    exact absent (eq_of_beq same ▸ List.mem_map_of_mem member)
  rw [find?, missed, Option.map_none]

theorem find?_append (absent : key ∉ nodes.map (·.1)) :
    find? key (nodes ++ [(key, node)]) = some node := by
  have first := find?_of_not_mem absent
  rw [find?, Option.map_eq_none_iff] at first
  simp [find?, first]

theorem put_append (absent : key ∉ nodes.map (·.1)) :
    put key node' (nodes ++ [(key, node)]) = nodes ++ [(key, node')] := by
  induction nodes with
  | nil => exact if_pos rfl
  | cons n nodes ih =>
    rw [List.map_cons, List.mem_cons, not_or] at absent
    rw [List.cons_append, put, if_neg (Ne.symm absent.1), ih absent.2]
    rfl

theorem assign_header (absent : key ∉ nodes.map (·.1)) (v : Toml) :
    (table .header nodes).assign [] key v = some (table .header (nodes ++ [(key, value v)])) := by
  have missing := find?_of_not_mem absent
  rw [assign, update]
  simp [addKey, missing]

theorem openTable_header (absent : key ∉ nodes.map (·.1)) :
    (table .header nodes).openTable key =
      some (table .header (nodes ++ [(key, table .header [])])) := by
  rw [openTable, find?_of_not_mem absent]

end Node

def valueNodes (entries : List Entry) : List (String × Node) :=
  entries.map fun e => (e.1, .value e.2.value)

def sectionNodes (sections : List (String × List Entry)) : List (String × Node) :=
  sections.map fun s => (s.1, .table .header (valueNodes s.2))

/-- What lines make of a document and of the path of the table that is open. -/
def grow (lines : List Line) (start : List String × Node) : Option (List String × Node) :=
  lines.foldlM (fun (current, node) line => line.apply current node) start

theorem grow_append (first second : List Line) (start : List String × Node) :
    grow (first ++ second) start = (grow first start).bind (grow second) :=
  List.foldlM_append

theorem grow_cons (line : Line) (ls : List Line) (start : List String × Node) :
    grow (line :: ls) start = (line.apply start.1 start.2).bind (grow ls) := rfl

section Growth

variable {current : List String} {nodes : List (String × Node)} {key : String}

/-- Entries go to the table that is open. `whole` is the document around it. -/
theorem grow_entries (whole : List (String × Node) → Node) (inner : List (String × Node))
    (assign : ∀ inner key v, key ∉ inner.map (·.1) →
      (whole inner).update .passing (·.assign [] key v) current =
        some (whole (inner ++ [(key, .value v)])))
    (keys : (inner.map (·.1) ++ entries.map (·.1)).Nodup) :
    grow (entries.map entryLine) (current, whole inner) =
      some (current, whole (inner ++ valueNodes entries)) := by
  induction entries generalizing inner with
  | nil =>
    have none : valueNodes [] = [] := rfl
    rw [none, List.append_nil]
    rfl
  | cons e entries ih =>
    have absent : e.1 ∉ inner.map (·.1) := fun member =>
      (List.nodup_append'.mp keys).2.2 member List.mem_cons_self
    have others : ((inner ++ [(e.1, Node.value e.2.value)]).map (·.1) ++
        entries.map (·.1)).Nodup := by
      simpa using keys
    have step : (entryLine e).apply current (whole inner) =
        some (current, whole (inner ++ [(e.1, .value e.2.value)])) := by
      rw [entryLine, Line.apply, assign inner e.1 e.2.value absent]
      rfl
    rw [List.map_cons, grow_cons, step, Option.bind_some, ih _ others, List.append_assoc]
    rfl

/-- The document is open until a header names another table. -/
theorem assign_document (inner : List (String × Node)) (key : String) (v : Toml)
    (absent : key ∉ inner.map (·.1)) :
    (Node.table .header inner).update .passing (·.assign [] key v) [] =
      some (.table .header (inner ++ [(key, .value v)])) := by
  rw [Node.update]
  exact Node.assign_header absent v

theorem assign_section (here : key ∉ nodes.map (·.1)) (inner : List (String × Node))
    (key' : String) (v : Toml) (absent : key' ∉ inner.map (·.1)) :
    (Node.table .header (nodes ++ [(key, .table .header inner)])).update .passing
        (·.assign [] key' v) [key] =
      some (.table .header (nodes ++ [(key, .table .header (inner ++ [(key', .value v)]))])) := by
  have added := assign_document inner key' v absent
  rw [Node.update, Node.find?_append here]
  simp only [reduceCtorEq, decide_false, Bool.false_and, Bool.false_eq_true, if_false, added,
    Option.map_some, Node.put_append here]

theorem grow_section {sec : String × List Entry} (here : sec.1 ∉ nodes.map (·.1))
    (keys : (sec.2.map (·.1)).Nodup) :
    grow (sectionLines sec) (current, .table .header nodes) =
      some ([sec.1], .table .header (nodes ++ [(sec.1, .table .header (valueNodes sec.2))])) := by
  have opened : (Line.table [] sec.1).apply current (.table .header nodes) =
      some ([sec.1], .table .header (nodes ++ [(sec.1, .table .header [])])) := by
    rw [Line.apply, Node.update, Node.openTable_header here]
    rfl
  rw [sectionLines, grow_cons, opened, Option.bind_some]
  exact grow_entries (fun inner => .table .header (nodes ++ [(sec.1, .table .header inner)])) []
    (assign_section here) (by simpa using keys)

theorem grow_sections {sections : List (String × List Entry)}
    (here : (nodes.map (·.1) ++ sections.map (·.1)).Nodup)
    (keys : ∀ s ∈ sections, (s.2.map (·.1)).Nodup) :
    ∃ current', grow (sections.flatMap sectionLines) (current, .table .header nodes) =
      some (current', .table .header (nodes ++ sectionNodes sections)) := by
  induction sections generalizing current nodes with
  | nil =>
    have none : sectionNodes [] = [] := rfl
    rw [none, List.append_nil]
    exact ⟨current, rfl⟩
  | cons sec sections ih =>
    have absent : sec.1 ∉ nodes.map (·.1) := fun member =>
      (List.nodup_append'.mp here).2.2 member List.mem_cons_self
    obtain ⟨first, later⟩ := List.forall_mem_cons.mp keys
    have others : ((nodes ++ [(sec.1, Node.table .header (valueNodes sec.2))]).map (·.1) ++
        sections.map (·.1)).Nodup := by
      simpa using here
    obtain ⟨current', run⟩ := ih others later
    refine ⟨current', ?_⟩
    rw [List.flatMap_cons, grow_append, grow_section absent first, Option.bind_some, run,
      List.append_assoc]
    rfl

end Growth

theorem finishEntries_eq (nodes : List (String × Node)) :
    Node.finishEntries nodes = nodes.map fun n => (n.1, n.2.finish) := by
  induction nodes with
  | nil => rfl
  | cons n nodes ih => rw [Node.finishEntries, ih, List.map_cons]

theorem document?_eq (ls : List Line) :
    document? ls = (grow ls ([], .root)).map (·.2.finish) := by
  unfold document? grow
  cases ls.foldlM (fun (current, node) line => line.apply current node) ([], Node.root) <;> rfl

theorem finishEntries_valueNodes (entries : List Entry) :
    Node.finishEntries (valueNodes entries) = Document.entryValues entries := by
  rw [finishEntries_eq, valueNodes, List.map_map]
  rfl

theorem finishEntries_sectionNodes (sections : List (String × List Entry)) :
    Node.finishEntries (sectionNodes sections) =
      sections.map fun s => (s.1, .table (Document.entryValues s.2)) := by
  rw [finishEntries_eq, sectionNodes, List.map_map]
  refine List.map_congr_left fun s _ => ?_
  rw [← finishEntries_valueNodes]
  rfl

namespace Document

variable {d : Document}

theorem WellFormed.document? (wellFormed : d.WellFormed) :
    Toml.document? d.lines = some d.value := by
  have entries : grow (d.entries.map entryLine) ([], .root) =
      some ([], .table .header (valueNodes d.entries)) :=
    grow_entries (.table .header) [] assign_document wellFormed.keys.of_append_left
  have keys : ((valueNodes d.entries).map (·.1) ++ d.sections.map (·.1)).Nodup := by
    simpa [valueNodes, Function.comp_def] using wellFormed.keys
  obtain ⟨current, sections⟩ := grow_sections keys wellFormed.sectionKeys
  have all : grow d.lines ([], .root) = some (current, .table .header
      (valueNodes d.entries ++ sectionNodes d.sections)) := by
    rw [lines, grow_append, entries, Option.bind_some, sections]
  have finished : Node.finishEntries (valueNodes d.entries ++ sectionNodes d.sections) =
      entryValues d.entries ++ d.sections.map fun s => (s.1, .table (entryValues s.2)) := by
    rw [finishEntries_eq, List.map_append, ← finishEntries_eq, ← finishEntries_eq,
      finishEntries_valueNodes, finishEntries_sectionNodes]
  rw [document?_eq, all, value, ← finished]
  rfl

theorem dropMark_of_head? (first : s.head? ≠ some '\uFEFF') : dropMark s = s := by
  cases s with
  | nil => rfl
  | cons c s =>
    have other : '\uFEFF' ≠ c := fun same => first (congrArg some same.symm)
    rw [dropMark, Text.dropLiteral?, if_neg other]
    rfl

/-- No document starts with a byte order mark. -/
theorem head?_text (d : Document) : d.text.toList.head? ≠ some '\uFEFF' := by
  obtain ⟨entries, sections⟩ := d
  cases entries with
  | cons e entries =>
    obtain ⟨c, t, split, first⟩ := exists_keyText e.1
    have text : (Document.mk (e :: entries) sections).text.toList.head? = some c := by
      simp [Document.text, entriesText, entryText, String.toList_join, split]
    rw [text]
    rintro ⟨rfl⟩
    rcases first with bare | quote | quote
    · cases bare
    · cases quote
    · cases quote
  | nil =>
    cases sections with
    | nil =>
      intro mark
      cases mark
    | cons sec sections =>
      have text : (Document.mk [] (sec :: sections)).text.toList.head? = some '\n' := by
        simp [Document.text, entriesText, sectionText, String.toList_join]
      rw [text]
      decide

theorem WellFormed.read?_text (wellFormed : d.WellFormed) : read? d.text = some d.value := by
  rw [read?, dropMark_of_head? (head?_text d)]
  simp only [wellFormed.reads _ (Nat.lt_succ_self _), Option.bind_eq_bind, Option.bind_some]
  exact wellFormed.document?

end Document

end Inventory.Toml
