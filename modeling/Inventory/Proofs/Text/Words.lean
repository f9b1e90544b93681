import Inventory.Proofs.Text.Split

/-! Words and the blanks between them. A text is cut into its words however many blanks stand at
its ends and between them. -/
namespace Inventory.Text

variable {c : Char}

structure Token where
  text : String
  nonempty : text ≠ ""
  unbroken : ∀ c ∈ text.toList, isBlankChar c = false

theorem unbroken_of_all {text : String} (all : text.toList.all (!isBlankChar ·) = true) :
    ∀ c ∈ text.toList, isBlankChar c = false := by
  simpa using all

theorem words_append_cons (blank : isBlankChar c = true) (s t : List Char) :
    words (s ++ c :: t) = words s ++ words t := by
  rw [words, splitWhen_append_cons blank, List.filter_append]
  rfl

theorem words_token (w : Token) : words w.text.toList = [w.text.toList] := by
  have letters : w.text.toList ≠ [] := fun none => w.nonempty (String.toList_eq_nil_iff.mp none)
  rw [words, splitWhen_of_forall w.unbroken]
  simpa using letters

/-- The first word of a text that goes on after a space. -/
theorem words_token_append (w : Token) (rest : String) :
    words (w.text ++ " " ++ rest).toList = w.text.toList :: words rest.toList := by
  have cut : (w.text ++ " " ++ rest).toList = w.text.toList ++ ' ' :: rest.toList := by simp
  rw [cut, words_append_cons (by decide), words_token, List.singleton_append]

end Inventory.Text
