import Inventory.Proofs.Text.Lowercase

/-! Fields with spaces between them. The text shows where one field ends and the next begins unless
one of the spaces could also be inside of a field, with more than blanks on both of its sides. -/
namespace Inventory.Text

variable {fields rest rest' before after : List (List Char)} {f g s u v x y z : List Char}

def spaced (fields : List (List Char)) : List Char := [' '].intercalate fields

@[simp] theorem spaced_singleton (f : List Char) : spaced [f] = f := by simp [spaced]

theorem spaced_cons (f : List Char) (some : rest ≠ []) :
    spaced (f :: rest) = f ++ ' ' :: spaced rest := by
  obtain ⟨g, more, rfl⟩ := List.exists_cons_of_ne_nil some
  rw [spaced, List.intercalate_cons_cons, List.append_assoc]
  rfl

theorem spaced_append_head (u f : List Char) (rest : List (List Char)) :
    spaced ((u ++ f) :: rest) = u ++ spaced (f :: rest) := by
  by_cases none : rest = []
  · simp [none]
  · rw [spaced_cons _ none, spaced_cons _ none, List.append_assoc]

/-- The text does not show which of two spaces is between two fields. -/
theorem spaced_moved (before : List (List Char)) (x y z : List Char) (after : List (List Char)) :
    spaced (before ++ (x ++ ' ' :: y) :: z :: after) =
      spaced (before ++ x :: (y ++ ' ' :: z) :: after) := by
  induction before with
  | nil =>
    have behind : spaced ((y ++ ' ' :: z) :: after) = y ++ ' ' :: spaced (z :: after) := by
      rw [List.append_cons, spaced_append_head, List.append_assoc, List.singleton_append]
    rw [List.nil_append, List.nil_append, spaced_cons _ (List.cons_ne_nil _ _),
      spaced_cons _ (List.cons_ne_nil _ _), behind, List.append_assoc, List.cons_append]
  | cons f before ih =>
    rw [List.cons_append, List.cons_append, spaced_cons f (by simp), spaced_cons f (by simp), ih]

/-- No space can be taken for the end of another field: it has only blanks in front of it in a
field that is not the last one, and only blanks behind it in one that is not the first. -/
structure Tight (fields : List (List Char)) : Prop where
  left : ∀ before x y z after, fields = before ++ (x ++ ' ' :: y) :: z :: after → Blanks x
  right : ∀ before x y z after, fields = before ++ x :: (y ++ ' ' :: z) :: after → Blanks z

theorem Tight.tail (tight : Tight (f :: rest)) : Tight rest where
  left before x y z after whole := tight.left (f :: before) x y z after (by rw [whole]; rfl)
  right before x y z after whole := tight.right (f :: before) x y z after (by rw [whole]; rfl)

theorem Tight.behind (tight : Tight (f :: rest)) :
    ∀ g ∈ rest, ∀ y z, g = y ++ ' ' :: z → Blanks z := by
  rintro _ member y z rfl
  obtain ⟨before, after, rfl⟩ := List.append_of_mem member
  rcases List.eq_nil_or_concat before with rfl | ⟨front, x, rfl⟩
  · exact tight.right [] f y z after rfl
  · exact tight.right (f :: front) x y z after (by simp)

/-- There are no more fields in the text than there were. -/
theorem Tight.spaced_ne (tight : Tight rest)
    (behind : ∀ g ∈ rest, ∀ y z, g = y ++ ' ' :: z → Blanks z) (some : rest ≠ [])
    (filled : ∀ g ∈ rest, ¬ Blanks g) (filled' : ∀ g ∈ rest', ¬ Blanks g)
    (length : rest.length = rest'.length) (v : List Char) :
    spaced rest ≠ v ++ ' ' :: spaced rest' := by
  induction rest generalizing rest' v with
  | nil => exact absurd rfl some
  | cons g more ih =>
    obtain ⟨r, more', rfl⟩ : ∃ r more', rest' = r :: more' :=
      List.exists_cons_of_length_pos (by rw [← length]; simp)
    have length' : more.length = more'.length := Nat.succ.inj length
    rw [List.forall_mem_cons] at behind filled filled'
    intro same
    cases more with
    | nil =>
      obtain rfl : more' = [] := List.length_eq_zero_iff.mp length'.symm
      rw [spaced_singleton, spaced_singleton] at same
      exact filled'.1 (behind.1 v r same)
    | cons h more =>
      have inner : more' ≠ [] := by
        rintro rfl
        cases length'
      have step := ih tight.tail behind.2 (List.cons_ne_nil _ _) filled.2 filled'.2 length'
      rw [spaced_cons g (List.cons_ne_nil _ _), spaced_cons r inner] at same
      rcases List.append_eq_append_iff.mp same with ⟨w, rfl, here⟩ | ⟨w, rfl, here⟩
      · cases w with
        | nil => exact step r (List.cons.inj here).2
        | cons c w =>
          have later : spaced (h :: more) = w ++ ' ' :: (r ++ ' ' :: spaced more') :=
            (List.cons.inj here).2
          exact step (w ++ ' ' :: r) (by rw [later, List.append_assoc, List.cons_append])
      · cases w with
        | nil => exact step r (List.cons.inj here).2.symm
        | cons c w =>
          obtain ⟨rfl, -⟩ := List.cons.inj here
          have front := tight.left [] v w h more rfl
          have back := behind.1 v w rfl
          exact filled.1 (List.forall_mem_append.mpr ⟨front, List.forall_mem_cons.mpr
            ⟨by decide, back⟩⟩)

/-- A text has one way to be cut into fields that are not blank, if this one is tight. -/
theorem Tight.spaced_inj (tight : Tight fields) (filled : ∀ g ∈ fields, ¬ Blanks g)
    (filled' : ∀ g ∈ rest, ¬ Blanks g) (length : fields.length = rest.length)
    (same : spaced fields = spaced rest) : fields = rest := by
  induction fields generalizing rest with
  | nil => exact (List.length_eq_zero_iff.mp length.symm).symm
  | cons f more ih =>
    obtain ⟨r, more', rfl⟩ : ∃ r more', rest = r :: more' :=
      List.exists_cons_of_length_pos (by rw [← length]; simp)
    have length' : more.length = more'.length := Nat.succ.inj length
    cases more with
    | nil =>
      obtain rfl : more' = [] := List.length_eq_zero_iff.mp length'.symm
      simpa using same
    | cons h more =>
      have inner : more' ≠ [] := by
        rintro rfl
        cases length'
      have behind := tight.behind
      rw [List.forall_mem_cons] at filled filled'
      rw [spaced_cons f (List.cons_ne_nil _ _), spaced_cons r inner] at same
      rcases List.append_eq_append_iff.mp same with ⟨w, rfl, here⟩ | ⟨w, rfl, here⟩
      · cases w with
        | nil => rw [List.append_nil, ih tight.tail filled.2 filled'.2 length' (List.cons.inj here).2]
        | cons c w =>
          exact absurd (List.cons.inj here).2 (tight.tail.spaced_ne behind (List.cons_ne_nil _ _)
            filled.2 filled'.2 length' w)
      · cases w with
        | nil =>
          rw [List.append_nil, ih tight.tail (by simpa using filled.2) filled'.2 length'
            (List.cons.inj here).2.symm]
        | cons c w =>
          obtain ⟨rfl, -⟩ := List.cons.inj here
          exact absurd (tight.left [] r w h more rfl) filled'.1

/-- Fields that are not tight can be cut in another place. -/
theorem exists_moved (filled : ∀ g ∈ fields, ¬ Blanks g) (loose : ¬ Tight fields) :
    ∃ before x y z after, ¬ Blanks x ∧ ¬ Blanks z ∧
      (fields = before ++ (x ++ ' ' :: y) :: z :: after ∨
        fields = before ++ x :: (y ++ ' ' :: z) :: after) := by
  by_contra none
  refine loose ⟨?_, ?_⟩
  · rintro before x y z after rfl
    by_contra some
    exact none ⟨before, x, y, z, after, some, filled z (by simp), .inl rfl⟩
  · rintro before x y z after rfl
    by_contra some
    exact none ⟨before, x, y, z, after, filled x (by simp), some, .inr rfl⟩

/-- Each field has its own image, wherever it stands, and this has the same spaces. -/
structure KeepsSpaces (fold : List Char → List Char) : Prop where
  append : ∀ u v, fold (u ++ ' ' :: v) = fold u ++ ' ' :: fold v
  cut : ∀ s u v, fold s = u ++ ' ' :: v → ∃ u' v', s = u' ++ ' ' :: v' ∧ fold u' = u ∧ fold v' = v
  blanks_iff : ∀ s, Blanks (fold s) ↔ Blanks s

theorem keepsSpaces_id : KeepsSpaces id where
  append _ _ := rfl
  cut _ u v same := ⟨u, v, same, rfl, rfl⟩
  blanks_iff _ := Iff.rfl

theorem keepsSpaces_lower : KeepsSpaces lower where
  append := lower_append_space
  cut _ _ _ := exists_of_lowerAfter
  blanks_iff _ := blanks_lower_iff

namespace KeepsSpaces

variable {fold : List Char → List Char} (keeps : KeepsSpaces fold)

include keeps

theorem map_spaced (some : fields ≠ []) : fold (spaced fields) = spaced (fields.map fold) := by
  induction fields with
  | nil => exact absurd rfl some
  | cons f rest ih =>
    by_cases none : rest = []
    · simp [none]
    · rw [spaced_cons f none, keeps.append, ih none, List.map_cons, spaced_cons _ (by simpa)]

theorem tight_map (tight : Tight fields) : Tight (fields.map fold) where
  left before x y z after whole := by
    obtain ⟨front, back, rfl, -, cut⟩ := List.map_eq_append_iff.mp whole
    obtain ⟨f, back, rfl, here, cut⟩ := List.map_eq_cons_iff.mp cut
    obtain ⟨g, back, rfl, -, -⟩ := List.map_eq_cons_iff.mp cut
    obtain ⟨u, v, rfl, rfl, rfl⟩ := keeps.cut f x y here
    exact (keeps.blanks_iff u).mpr (tight.left front u v g back rfl)
  right before x y z after whole := by
    obtain ⟨front, back, rfl, -, cut⟩ := List.map_eq_append_iff.mp whole
    obtain ⟨f, back, rfl, -, cut⟩ := List.map_eq_cons_iff.mp cut
    obtain ⟨g, back, rfl, here, -⟩ := List.map_eq_cons_iff.mp cut
    obtain ⟨u, v, rfl, rfl, rfl⟩ := keeps.cut g y z here
    exact (keeps.blanks_iff v).mpr (tight.right front f u v back rfl)

/-- Images of fields that are cut in two places differ. -/
theorem map_moved_ne (before : List (List Char)) (x y z : List Char) (after : List (List Char)) :
    (before ++ (x ++ ' ' :: y) :: z :: after).map fold ≠
      (before ++ x :: (y ++ ' ' :: z) :: after).map fold := by
  intro same
  simp only [List.map_append, List.map_cons, List.append_cancel_left_eq, List.cons.injEq,
    keeps.append] at same
  have length := congrArg List.length same.1
  simp at length

end KeepsSpaces

end Inventory.Text
