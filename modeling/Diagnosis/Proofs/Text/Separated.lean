import Mathlib.Data.List.Forall2

/-!
# Separated items

A text that lists items with a separator between them can be read from the left, if it can be seen
where an item ends: the items and what follows the list are determined by the text
(`separated_unique`). For the items it is enough that they are words of a class of characters to
which what follows does not belong (`word_unique`).
-/

namespace Diagnosis.Text

/-- A word of a class of characters ends where a character of another class comes. -/
theorem word_unique {kind : Char → Prop} {word word' r r' : List Char}
    (hword : ∀ c ∈ word, kind c) (hword' : ∀ c ∈ word', kind c) (hr : ∀ c ∈ r.head?, ¬ kind c)
    (hr' : ∀ c ∈ r'.head?, ¬ kind c) (h : word ++ r = word' ++ r') : word = word' ∧ r = r' := by
  induction word generalizing word' with
  | nil =>
      cases word' with
      | nil => exact ⟨rfl, h⟩
      | cons c word' =>
          rw [List.nil_append] at h
          subst h
          exact absurd (hword' c List.mem_cons_self) (hr c rfl)
  | cons c word ih =>
      cases word' with
      | nil =>
          rw [List.nil_append] at h
          subst h
          exact absurd (hword c List.mem_cons_self) (hr' c rfl)
      | cons d word' =>
          obtain ⟨rfl, hrest⟩ := List.cons.inj h
          obtain ⟨rfl, rfl⟩ :=
            ih (List.forall_mem_cons.mp hword).2 (List.forall_mem_cons.mp hword').2 hrest
          exact ⟨rfl, rfl⟩

/-- The first item has no separator before it. -/
theorem intercalate_cons {α : Type*} (sep item : List α) (items : List (List α)) :
    sep.intercalate (item :: items) = item ++ items.flatMap (sep ++ ·) := by
  induction items generalizing item with
  | nil => simp
  | cons next items ih => rw [List.intercalate_cons_cons, ih, List.flatMap_cons]; simp

section Separated

variable {α : Type*} {spell : α → List Char} {R : α → α → Prop} {mark : Char}
  {sep sep' : List Char} {Ends : List Char → Prop}

/-- What may follow an item: the end of the list, or a separator, which starts with the mark. -/
def AfterItem (mark : Char) (Ends : List Char → Prop) (r : List Char) : Prop :=
  Ends r ∨ r.head? = some mark

/-- More items are followed by what may follow an item. -/
theorem afterItem_flatMap {xs : List α} {r : List Char} (hr : Ends r) :
    AfterItem mark Ends (xs.flatMap (fun x => mark :: sep ++ spell x) ++ r) := by
  cases xs with
  | nil => exact .inl hr
  | cons x xs => exact .inr (by simp)

/-- Where each item can be told from the others and from what follows it, up to a relation, so can
the rest of a list, each item with a separator before it. The separators are the same, too. -/
theorem separated_unique {xs ys : List α} {r r' : List Char} (hlength : sep.length = sep'.length)
    (hmark : ∀ r, ¬ Ends (mark :: r))
    (hunique : ∀ x ∈ xs, ∀ y ∈ ys, ∀ r r', AfterItem mark Ends r → AfterItem mark Ends r' →
      spell x ++ r = spell y ++ r' → R x y ∧ r = r')
    (hr : Ends r) (hr' : Ends r')
    (h : xs.flatMap (fun x => mark :: sep ++ spell x) ++ r =
      ys.flatMap (fun y => mark :: sep' ++ spell y) ++ r') :
    List.Forall₂ R xs ys ∧ r = r' ∧ (xs = [] ∨ sep = sep') := by
  induction xs generalizing ys with
  | nil =>
      cases ys with
      | nil => exact ⟨.nil, h, .inl rfl⟩
      | cons y ys =>
          simp only [List.flatMap_nil, List.nil_append, List.flatMap_cons, List.cons_append] at h
          exact absurd (h ▸ hr) (hmark _)
  | cons x xs ih =>
      cases ys with
      | nil =>
          simp only [List.flatMap_nil, List.nil_append, List.flatMap_cons, List.cons_append] at h
          exact absurd (h ▸ hr') (hmark _)
      | cons y ys =>
          simp only [List.flatMap_cons, List.cons_append, List.append_assoc] at h
          obtain ⟨hsep, h⟩ := List.append_inj (List.cons.inj h).2 hlength
          obtain ⟨hxy, hrest⟩ := hunique x List.mem_cons_self y List.mem_cons_self _ _
            (afterItem_flatMap hr) (afterItem_flatMap hr') h
          obtain ⟨hall, hend, -⟩ := ih (fun x hx y hy ↦
            hunique x (List.mem_cons_of_mem _ hx) y (List.mem_cons_of_mem _ hy)) hrest
          exact ⟨.cons hxy hall, hend, .inr hsep⟩

/-- So can a list of items with separators between them. -/
theorem separated_cons_unique {x y : α} {xs ys : List α} {r r' : List Char}
    (hlength : sep.length = sep'.length) (hmark : ∀ r, ¬ Ends (mark :: r))
    (hunique : ∀ x' ∈ x :: xs, ∀ y' ∈ y :: ys, ∀ r r', AfterItem mark Ends r →
      AfterItem mark Ends r' → spell x' ++ r = spell y' ++ r' → R x' y' ∧ r = r')
    (hr : Ends r) (hr' : Ends r')
    (h : spell x ++ xs.flatMap (fun x => mark :: sep ++ spell x) ++ r =
      spell y ++ ys.flatMap (fun y => mark :: sep' ++ spell y) ++ r') :
    List.Forall₂ R (x :: xs) (y :: ys) ∧ r = r' ∧ (xs = [] ∨ sep = sep') := by
  rw [List.append_assoc, List.append_assoc] at h
  obtain ⟨hxy, hrest⟩ := hunique x List.mem_cons_self y List.mem_cons_self _ _
    (afterItem_flatMap hr) (afterItem_flatMap hr') h
  obtain ⟨hall, hend⟩ := separated_unique hlength hmark (fun x hx y hy ↦
    hunique x (List.mem_cons_of_mem _ hx) y (List.mem_cons_of_mem _ hy)) hr hr' hrest
  exact ⟨.cons hxy hall, hend⟩

end Separated

end Diagnosis.Text
