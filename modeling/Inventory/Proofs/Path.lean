import Inventory.Path
import Inventory.Proofs.Text.Split

/-! Going down from a path by names. The pieces of the path show which names were taken, so two ways
down come to the same path only if they are the same. Each plain name adds one component. -/
namespace Inventory.Path

open Text

variable {path name : String} {names : List String} {c : Char}

structure IsName (name : String) : Prop where
  nonempty : name ≠ ""
  noSlash : '/' ∉ name.toList

structure IsPlain (name : String) : Prop extends IsName name where
  notHere : name ≠ "."
  notAbove : name ≠ ".."

def descend (path : String) (names : List String) : String := names.foldl join path

def endsOpen (path : String) : Bool := path.isEmpty || path.toList.getLast? = some '/'

/-- The pieces of a path to which the pieces of an entry are added. -/
def folderPieces (path : String) : List String :=
  if endsOpen path then (pieces path).dropLast else pieces path

theorem pieces_ne_nil (path : String) : pieces path ≠ [] := by
  rw [pieces, ne_eq, List.map_eq_nil_iff]
  exact splitWhen_ne_nil _ _

theorem noSlash_of_mem_pieces {piece : String} (member : piece ∈ pieces path) :
    '/' ∉ piece.toList := by
  obtain ⟨letters, isPiece, rfl⟩ := List.mem_map.mp member
  rw [String.toList_ofList]
  exact fun slash => absurd (eq_false_of_mem_splitWhen isPiece slash) (by decide)

theorem pieces_of_isName (valid : IsName name) : pieces name = [name] := by
  have whole : splitWhen (· == '/') name.toList = [name.toList] :=
    splitWhen_of_forall fun c member => by
      rw [beq_eq_false_iff_ne]
      rintro rfl
      exact valid.noSlash member
  rw [pieces, splitAt, whole, List.map_singleton, String.ofList_toList]

theorem pieces_append_slash (path rest : String) :
    pieces (path ++ "/" ++ rest) = pieces path ++ pieces rest := by
  have cut : (path ++ "/" ++ rest).toList = path.toList ++ '/' :: rest.toList := by simp
  rw [pieces, cut, splitAt_append_cons, List.map_append]
  rfl

theorem isAbsolute_eq_false (valid : IsName name) : isAbsolute name = false := by
  rw [isAbsolute, decide_eq_false_iff_not]
  exact fun first => valid.noSlash (List.mem_of_head? first)

theorem join_eq (valid : IsName name) :
    join path name = if endsOpen path then path ++ name else path ++ "/" ++ name := by
  simp [join, endsOpen, isAbsolute_eq_false valid]

/-- A path that is not empty but is open at its end ends with a slash. -/
theorem eq_append_slash_of_endsOpen (opened : endsOpen path = true) :
    path = "" ∨ ∃ front, path = front ++ "/" := by
  rcases Bool.or_eq_true_iff.mp opened with empty | last
  · exact .inl (String.isEmpty_iff.mp empty)
  · obtain ⟨front, whole⟩ := List.getLast?_eq_some_iff.mp (of_decide_eq_true last)
    refine .inr ⟨String.ofList front, String.toList_inj.mp ?_⟩
    rw [whole, String.toList_append, String.toList_ofList]
    rfl

theorem pieces_join (valid : IsName name) :
    pieces (join path name) = folderPieces path ++ [name] := by
  rw [join_eq valid, folderPieces]
  split
  next opened =>
    rcases eq_append_slash_of_endsOpen opened with rfl | ⟨front, rfl⟩
    · rw [String.empty_append, pieces_of_isName valid]
      rfl
    · have last : pieces (front ++ "/") = pieces front ++ [""] := by
        rw [← String.append_empty (s := front ++ "/"), pieces_append_slash]
        rfl
      rw [pieces_append_slash, last, List.dropLast_concat, pieces_of_isName valid]
  next => rw [pieces_append_slash, pieces_of_isName valid]

theorem endsOpen_join (valid : IsName name) : endsOpen (join path name) = false := by
  have letters : name.toList ≠ [] := fun none => valid.nonempty (String.toList_eq_nil_iff.mp none)
  obtain ⟨front, last, whole⟩ : ∃ front last, name.toList = front ++ [last] :=
    ⟨_, _, (List.dropLast_concat_getLast letters).symm⟩
  have other : last ≠ '/' := by
    rintro rfl
    exact valid.noSlash (whole ▸ List.mem_append_right _ List.mem_cons_self)
  have ends (front' : String) : endsOpen (front' ++ name) = false := by
    simp [endsOpen, valid.nonempty, whole, other]
  rw [join_eq valid]
  split
  · exact ends path
  · exact ends (path ++ "/")

theorem folderPieces_join (valid : IsName name) :
    folderPieces (join path name) = folderPieces path ++ [name] := by
  rw [folderPieces, endsOpen_join valid, pieces_join valid]
  rfl

theorem folderPieces_descend (valid : ∀ name ∈ names, IsName name) :
    folderPieces (descend path names) = folderPieces path ++ names := by
  induction names generalizing path with
  | nil => simp [descend]
  | cons name names ih =>
    have here := valid name List.mem_cons_self
    have rest : folderPieces (descend (join path name) names) = _ :=
      ih fun n member => valid n (List.mem_cons_of_mem _ member)
    have down : descend path (name :: names) = descend (join path name) names := rfl
    rw [down, rest, folderPieces_join here, List.append_assoc, List.singleton_append]

/-- Two ways down from one path that come to the same path are the same. -/
theorem descend_inj {names' : List String} (valid : ∀ name ∈ names, IsName name)
    (valid' : ∀ name ∈ names', IsName name) (same : descend path names = descend path names') :
    names = names' := by
  have both := congrArg folderPieces same
  rw [folderPieces_descend valid, folderPieces_descend valid'] at both
  exact List.append_cancel_left both

def namesOf (pieces : List String) : List String := pieces.filter fun p => p != "" && p != "."

def componentsOf (absolute : Bool) (first : String) (rest : List String) : List String :=
  if first = "." then "." :: namesOf rest
  else if first = "" then if absolute then "/" :: namesOf rest else namesOf rest
  else first :: namesOf rest

theorem components_eq {first : String} {rest : List String} (cut : pieces path = first :: rest) :
    components path = componentsOf (isAbsolute path) first rest := by
  unfold components componentsOf
  rw [cut]
  by_cases dot : first = "."
  · subst dot; rfl
  · by_cases empty : first = ""
    · subst empty
      simp [namesOf]
    · simp [dot, empty, namesOf]

/-- Only the root is a component that no piece gives. -/
theorem mem_pieces_of_mem_components {part : String} (member : part ∈ components path) :
    part ∈ pieces path ∨ part = "/" := by
  obtain ⟨first, rest, cut⟩ := List.exists_cons_of_ne_nil (pieces_ne_nil path)
  have named (later : part ∈ namesOf rest) : part ∈ first :: rest :=
    List.mem_cons_of_mem first (List.mem_filter.mp later).1
  have headed (here : part ∈ first :: namesOf rest) : part ∈ first :: rest := by
    rcases List.mem_cons.mp here with rfl | later
    · exact List.mem_cons_self
    · exact named later
  rw [components_eq cut, componentsOf] at member
  rw [cut]
  split at member
  next dot =>
    subst dot
    exact .inl (headed member)
  next =>
    split at member
    next =>
      split at member
      next =>
        rcases List.mem_cons.mp member with root | later
        · exact .inr root
        · exact .inl (named later)
      next => exact .inl (named member)
    next => exact .inl (headed member)

theorem namesOf_singleton (valid : IsPlain name) : namesOf [name] = [name] := by
  simp [namesOf, valid.nonempty, valid.notHere]

theorem namesOf_append (pieces more : List String) :
    namesOf (pieces ++ more) = namesOf pieces ++ namesOf more :=
  List.filter_append ..

/-- A slash at the end only adds an empty piece. -/
theorem exists_folderPieces (some : path ≠ "") : ∃ first rest rest', pieces path = first :: rest ∧
    folderPieces path = first :: rest' ∧ namesOf rest' = namesOf rest := by
  by_cases opened : endsOpen path = true
  · rcases eq_append_slash_of_endsOpen opened with empty | ⟨front, rfl⟩
    · exact absurd empty some
    · obtain ⟨first, rest, whole⟩ := List.exists_cons_of_ne_nil (pieces_ne_nil front)
      have last : pieces (front ++ "/") = first :: (rest ++ [""]) := by
        rw [← String.append_empty (s := front ++ "/"), pieces_append_slash, whole]
        rfl
      refine ⟨first, rest ++ [""], rest, last, ?_, ?_⟩
      · rw [folderPieces, if_pos opened, last, ← List.cons_append, List.dropLast_concat]
      · rw [namesOf_append]
        exact (List.append_nil _).symm
  · obtain ⟨first, rest, whole⟩ := List.exists_cons_of_ne_nil (pieces_ne_nil path)
    exact ⟨first, rest, rest, whole, by rw [folderPieces, if_neg opened, whole], rfl⟩

theorem isAbsolute_join (valid : IsName name) (some : path ≠ "") :
    isAbsolute (join path name) = isAbsolute path := by
  obtain ⟨c, letters, whole⟩ : ∃ c letters, path.toList = c :: letters :=
    List.exists_cons_of_ne_nil fun none => some (String.toList_eq_nil_iff.mp none)
  rw [join_eq valid, isAbsolute, isAbsolute]
  split <;> simp [whole]

/-- Going down to an entry adds one component. -/
theorem components_join (valid : IsPlain name) :
    components (join path name) = components path ++ [name] := by
  have cut : pieces (join path name) = folderPieces path ++ [name] := pieces_join valid.toIsName
  by_cases empty : path = ""
  · subst empty
    have alone : pieces (join "" name) = [name] := cut
    rw [components_eq alone, componentsOf, if_neg valid.notHere, if_neg valid.nonempty]
    rfl
  · obtain ⟨first, rest, rest', whole, folder, same⟩ := exists_folderPieces empty
    rw [folder, List.cons_append] at cut
    rw [components_eq cut, components_eq whole, isAbsolute_join valid.toIsName empty]
    unfold componentsOf
    rw [namesOf_append, namesOf_singleton valid, same]
    split
    · rfl
    · split
      · split <;> rfl
      · rfl

theorem components_descend (valid : ∀ name ∈ names, IsPlain name) :
    components (descend path names) = components path ++ names := by
  induction names generalizing path with
  | nil => simp [descend]
  | cons name names ih =>
    obtain ⟨here, rest⟩ := List.forall_mem_cons.mp valid
    have down : descend path (name :: names) = descend (join path name) names := rfl
    rw [down, ih rest, components_join here, List.append_assoc, List.singleton_append]

theorem mem_of_mem_dropEmptyEnd {pieces : List String} {piece : String}
    (member : piece ∈ dropEmptyEnd pieces) : piece ∈ pieces := by
  induction pieces with
  | nil => exact member
  | cons last rest ih =>
    cases rest with
    | nil => exact member
    | cons =>
      rw [dropEmptyEnd] at member
      · split at member
        · exact List.mem_cons_of_mem _ (ih member)
        · exact member
      · exact List.cons_ne_nil _ _

theorem fileName_join (valid : IsPlain name) : fileName (join path name) = name := by
  have ends (more : List String) : (dropEmptyEnd (name :: more)).head? = some name := by
    cases more with
    | nil => rfl
    | cons => simp [dropEmptyEnd, valid.nonempty, valid.notHere]
  rw [fileName, pieces_join valid.toIsName, List.reverse_append, List.reverse_singleton,
    List.singleton_append, ends]
  simp [valid.nonempty, valid.notHere, valid.notAbove]

/-- The last name on a way down is the one of the path that it makes. -/
theorem fileName_descend (valid : ∀ name ∈ names, IsPlain name) :
    fileName (descend path names) = names.getLast?.getD (fileName path) := by
  rcases List.eq_nil_or_concat names with rfl | ⟨front, last, rfl⟩
  · rfl
  · rw [List.concat_eq_append] at valid ⊢
    have down : descend path (front ++ [last]) = join (descend path front) last :=
      List.foldl_append ..
    rw [down, fileName_join (valid last (by simp))]
    simp

end Inventory.Path
