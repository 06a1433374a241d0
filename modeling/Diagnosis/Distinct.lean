/-!
# Lists without repetitions

`enter` puts an element at the end of a list unless it is there already, so that a list that is
built by it alone has every element once, at its first place. Names that were met and formulas that
were found are kept in such lists.
-/

namespace Diagnosis

variable {β : Type}

/-- The list with one more member at its end, unless it is there already. -/
def enter [BEq β] (b : β) (bs : List β) : List β :=
  if bs.contains b then bs else bs ++ [b]

/-- The list with elements entered one after the other. -/
def enterAll [BEq β] (new : List β) (bs : List β) : List β :=
  new.foldl (fun bs b => enter b bs) bs

section EnterAll

variable [BEq β] {b c : β} {bs new more : List β}

@[simp] theorem enterAll_nil (bs : List β) : enterAll [] bs = bs :=
  rfl

@[simp] theorem enterAll_cons (b : β) (new bs : List β) :
    enterAll (b :: new) bs = enterAll new (enter b bs) :=
  rfl

/-- Elements may be entered in two lots. -/
theorem enterAll_append (bs : List β) :
    enterAll (new ++ more) bs = enterAll more (enterAll new bs) :=
  List.foldl_append

variable [LawfulBEq β]

/-- What is in the list is not entered again. -/
theorem enter_of_mem (h : b ∈ bs) : enter b bs = bs :=
  if_pos (List.contains_iff_mem.mpr h)

/-- What is new is put at the end. -/
theorem enter_of_not_mem (h : b ∉ bs) : enter b bs = bs ++ [b] :=
  if_neg fun hcontains => h (List.contains_iff_mem.mp hcontains)

/-- What is in the list with an element entered is in the list, or is the element. -/
theorem mem_enter : c ∈ enter b bs ↔ c ∈ bs ∨ c = b := by
  by_cases h : b ∈ bs
  · rw [enter_of_mem h]
    exact (or_iff_left_of_imp fun hc => hc ▸ h).symm
  · rw [enter_of_not_mem h, List.mem_append, List.mem_singleton]

/-- What is in the list with elements entered is in the list or among the elements. -/
theorem mem_enterAll : c ∈ enterAll new bs ↔ c ∈ bs ∨ c ∈ new := by
  induction new generalizing bs with
  | nil => simp
  | cons b new ih => rw [enterAll_cons, ih, mem_enter, List.mem_cons, or_assoc]

/-- Entering an element repeats none. -/
theorem nodup_enter (h : bs.Nodup) : (enter b bs).Nodup := by
  by_cases hb : b ∈ bs
  · rwa [enter_of_mem hb]
  · rw [enter_of_not_mem hb]
    refine List.nodup_append.mpr ⟨h, by simp, fun c hc d hd => ?_⟩
    rintro rfl
    exact hb (List.mem_singleton.mp hd ▸ hc)

/-- Entering elements repeats none. -/
theorem nodup_enterAll (h : bs.Nodup) : (enterAll new bs).Nodup := by
  induction new generalizing bs with
  | nil => exact h
  | cons b new ih => exact ih (nodup_enter h)

/-- What is entered are the new elements, each at its first place. -/
theorem enterAll_eq_append (new bs : List β) :
    enterAll new bs = bs ++ (new.filter fun b => !bs.contains b).eraseDups := by
  induction new generalizing bs with
  | nil => simp
  | cons b new ih =>
    rw [enterAll_cons, ih]
    by_cases hb : b ∈ bs
    · rw [enter_of_mem hb, List.filter_cons_of_neg (by simpa using hb)]
    · rw [enter_of_not_mem hb, List.filter_cons_of_pos (by simpa using hb), List.eraseDups_cons,
        List.append_assoc, List.singleton_append, List.filter_filter]
      -- What is new after the element is new before it and differs from it.
      have hnew (c : β) : (!(bs ++ [b]).contains c) = (!c == b && !bs.contains c) := by
        rw [Bool.eq_iff_iff]
        simp [and_comm]
      simp only [hnew]

/-- Entering elements into the empty list drops their repetitions. -/
theorem enterAll_empty (new : List β) : enterAll new [] = new.eraseDups := by
  rw [enterAll_eq_append, List.nil_append]
  exact congrArg List.eraseDups (List.filter_eq_self.mpr fun _ _ => rfl)

/-- Each element is kept at its first place only. -/
theorem nodup_eraseDups (bs : List β) : bs.eraseDups.Nodup :=
  enterAll_empty bs ▸ nodup_enterAll List.nodup_nil

/-- Where nothing is repeated, everything is entered. -/
theorem enterAll_of_nodup (h : (bs ++ new).Nodup) : enterAll new bs = bs ++ new := by
  induction new generalizing bs with
  | nil => simp
  | cons b new ih =>
    have hb : b ∉ bs := fun hmem => (List.nodup_append.mp h).2.2 b hmem b List.mem_cons_self rfl
    rw [enterAll_cons, enter_of_not_mem hb, ih (by simpa using h), List.append_assoc,
      List.singleton_append]

end EnterAll

end Diagnosis
