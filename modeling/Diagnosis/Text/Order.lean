/-!
# Sorted texts

Sets of names are shown in ascending order of their code points, where a proper beginning of a
name comes before the name. `sorted` keeps repetitions and `sortedDistinct` drops them.
-/

namespace Diagnosis.Text

/-- The strings in ascending order, repetitions kept. -/
def sorted (texts : List String) : List String :=
  texts.mergeSort fun left right => !decide (right < left)

/-- The strings in ascending order, each of them once. -/
def sortedDistinct (texts : List String) : List String :=
  sorted texts.eraseDups

/-- Sorting keeps the members. -/
@[simp] theorem mem_sorted {text : String} {texts : List String} :
    text ∈ sorted texts ↔ text ∈ texts :=
  (List.mergeSort_perm texts _).mem_iff

/-- Sorting without repetitions keeps the members. -/
@[simp] theorem mem_sortedDistinct {text : String} {texts : List String} :
    text ∈ sortedDistinct texts ↔ text ∈ texts := by
  simp [sortedDistinct]

end Diagnosis.Text
