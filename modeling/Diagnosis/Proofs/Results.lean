import Diagnosis.Error
import Mathlib.Data.List.Forall2

/-!
# Results of operations that may fail

An operation in `Except` is followed step by step: `bind_eq_ok_iff` takes a composed operation
apart, and `mapM_eq_ok_iff` says that a list is processed if each of its members is. Otherwise the
first member that fails has the error (`mapM_eq_error_iff`). `FailsOnly` bounds the errors of an
operation by those of its steps.
-/

namespace Diagnosis

variable {ε α β : Type}

/-- A composed operation succeeds if both of its steps do. -/
theorem bind_eq_ok_iff {x : Except ε α} {step : α → Except ε β} {b : β} :
    x >>= step = .ok b ↔ ∃ a, x = .ok a ∧ step a = .ok b := by
  cases x with
  | error e => simp [bind, Except.bind]
  | ok a => simp [bind, Except.bind]

/-- A fault that is taken for an error is no result. -/
@[simp] theorem liftFault_eq_ok_iff {x : Except Fault α} {a : α} :
    liftFault x = .ok a ↔ x = .ok a := by
  cases x with
  | error e => simp [liftFault, Except.mapError]
  | ok a' => simp [liftFault, Except.mapError]

/-- Processing a list succeeds if it does so at every member. -/
theorem mapM_eq_ok_iff {step : α → Except ε β} {xs : List α} {ys : List β} :
    xs.mapM step = .ok ys ↔ List.Forall₂ (fun x y ↦ step x = .ok y) xs ys := by
  induction xs generalizing ys with
  | nil =>
      rw [List.mapM_nil, List.forall₂_nil_left_iff]
      exact ⟨fun h ↦ (Except.ok.inj h).symm, fun h ↦ h ▸ rfl⟩
  | cons x xs ih =>
      rw [List.mapM_cons, bind_eq_ok_iff, List.forall₂_cons_left_iff]
      refine exists_congr fun y ↦ ?_
      rw [bind_eq_ok_iff]
      constructor
      · rintro ⟨hx, ys', hrest, hys⟩
        exact ⟨ys', hx, ih.mp hrest, (Except.ok.inj hys).symm⟩
      · rintro ⟨ys', hx, hrest, rfl⟩
        exact ⟨hx, ys', ih.mpr hrest, rfl⟩

/-- A test that a list passes is passed by every member. -/
theorem forM_eq_ok {test : α → Except ε Unit} {xs : List α} {u : Unit}
    (h : xs.forM test = .ok u) : ∀ x ∈ xs, test x = .ok () := by
  induction xs with
  | nil => simp
  | cons x xs ih =>
      obtain ⟨_, hx, hrest⟩ := bind_eq_ok_iff.mp h
      exact List.forall_mem_cons.mpr ⟨hx, ih hrest⟩

/-- Processing a list into lists that are joined goes member by member. -/
theorem flatten_mapM_cons {step : α → Except ε (List β)} {x : α} {xs : List α} :
    List.flatten <$> (x :: xs).mapM step = do
      let ys ← step x
      return ys ++ (← List.flatten <$> xs.mapM step) := by
  rw [List.mapM_cons]
  cases step x with
  | error e => rfl
  | ok ys =>
      cases xs.mapM step with
      | error e => rfl
      | ok yss => rfl

/-- The lists of the members are joined if every member has one. -/
theorem flatten_mapM_eq_ok_iff {step : α → Except ε (List β)} {xs : List α} {zs : List β} :
    List.flatten <$> xs.mapM step = .ok zs ↔ ∃ yss, xs.mapM step = .ok yss ∧ yss.flatten = zs := by
  cases xs.mapM step <;> simp [Functor.map, Except.map]

/-- Otherwise joining them has the error of the member that has none. -/
theorem flatten_mapM_eq_error_iff {step : α → Except ε (List β)} {xs : List α} {e : ε} :
    List.flatten <$> xs.mapM step = .error e ↔ xs.mapM step = .error e := by
  cases xs.mapM step <;> simp [Functor.map, Except.map]

/-- If every member has a result with a property, the list has such results. -/
theorem exists_mapM {step : α → Except ε β} {P : β → Prop} {R : α → β → Prop} {xs : List α}
    (h : ∀ x ∈ xs, ∃ y, step x = .ok y ∧ P y ∧ R x y) :
    ∃ ys, xs.mapM step = .ok ys ∧ (∀ y ∈ ys, P y) ∧ List.Forall₂ R xs ys := by
  induction xs with
  | nil => exact ⟨[], rfl, by simp, .nil⟩
  | cons x xs ih =>
      obtain ⟨y, hy, hP, hR⟩ := h x List.mem_cons_self
      obtain ⟨ys, hys, hPs, hRs⟩ := ih fun x hx ↦ h x (List.mem_cons_of_mem _ hx)
      exact ⟨y :: ys, mapM_eq_ok_iff.mpr (.cons hy (mapM_eq_ok_iff.mp hys)),
        List.forall_mem_cons.mpr ⟨hP, hPs⟩, .cons hR hRs⟩

/-- What amounts to the same at a member and at its result occurs in both lists or in neither. -/
theorem exists_iff_of_forall₂ {R : α → β → Prop} {P : α → Prop} {Q : β → Prop} {xs : List α}
    {ys : List β} (h : List.Forall₂ R xs ys) (hR : ∀ x y, R x y → (P x ↔ Q y)) :
    (∃ x ∈ xs, P x) ↔ ∃ y ∈ ys, Q y := by
  induction h with
  | nil => simp
  | cons hxy _ ih => rw [List.exists_mem_cons_iff, List.exists_mem_cons_iff, hR _ _ hxy, ih]

/-- What amounts to the same at a member and at its result is so in all of one list or in all of the
other. -/
theorem forall_iff_of_forall₂ {R : α → β → Prop} {P : α → Prop} {Q : β → Prop} {xs : List α}
    {ys : List β} (h : List.Forall₂ R xs ys) (hR : ∀ x ∈ xs, ∀ y, R x y → (P x ↔ Q y)) :
    (∀ x ∈ xs, P x) ↔ ∀ y ∈ ys, Q y := by
  induction h with
  | nil => simp
  | cons hxy _ ih =>
      obtain ⟨hx, hxs⟩ := List.forall_mem_cons.mp hR
      rw [List.forall_mem_cons, List.forall_mem_cons, hx _ hxy, ih hxs]

/-- What is the same of a member and of its result is the same of both lists. -/
theorem map_eq_map_of_forall₂ {γ : Type} {g : β → γ} {g' : α → γ} {xs : List α} {ys : List β}
    (h : List.Forall₂ (fun x y ↦ g' x = g y) xs ys) : xs.map g' = ys.map g := by
  induction h with
  | nil => rfl
  | cons hxy _ ih => rw [List.map_cons, List.map_cons, hxy, ih]

/-- If every member has a result with a property of its own, the list has such results. -/
theorem exists_mapM_all {step : α → Except ε β} {P : β → Prop} {xs : List α}
    (h : ∀ x ∈ xs, ∃ y, step x = .ok y ∧ P y) :
    ∃ ys, xs.mapM step = .ok ys ∧ ∀ y ∈ ys, P y := by
  obtain ⟨ys, hys, hP, -⟩ := exists_mapM (R := fun _ _ ↦ True)
    fun x hx ↦ (h x hx).imp fun y hy ↦ ⟨hy.1, hy.2, trivial⟩
  exact ⟨ys, hys, hP⟩

/-- If every member has a result that is related to it, the list has such results. -/
theorem exists_mapM_forall₂ {step : α → Except ε β} {R : α → β → Prop} {xs : List α}
    (h : ∀ x ∈ xs, ∃ y, step x = .ok y ∧ R x y) :
    ∃ ys, xs.mapM step = .ok ys ∧ List.Forall₂ R xs ys := by
  obtain ⟨ys, hys, -, hR⟩ := exists_mapM (P := fun _ ↦ True)
    fun x hx ↦ (h x hx).imp fun y hy ↦ ⟨hy.1, trivial, hy.2⟩
  exact ⟨ys, hys, hR⟩

/-- Where every member has a result, the list has. -/
theorem exists_mapM_ok {step : α → Except ε β} {xs : List α}
    (h : ∀ x ∈ xs, ∃ y, step x = .ok y) : ∃ ys, xs.mapM step = .ok ys := by
  obtain ⟨ys, hys, -⟩ := exists_mapM_all (P := fun _ ↦ True)
    fun x hx ↦ (h x hx).imp fun y hy ↦ ⟨hy, trivial⟩
  exact ⟨ys, hys⟩

/-- Every result comes from a member. -/
theorem exists_of_forall₂ {R : α → β → Prop} {xs : List α} {ys : List β}
    (h : List.Forall₂ R xs ys) {y : β} (hy : y ∈ ys) : ∃ x ∈ xs, R x y := by
  induction h with
  | nil => cases hy
  | @cons x y' xs ys hR _ ih =>
      rcases List.mem_cons.mp hy with rfl | hy
      · exact ⟨x, List.mem_cons_self, hR⟩
      · obtain ⟨x', hx', hR'⟩ := ih hy
        exact ⟨x', List.mem_cons_of_mem _ hx', hR'⟩

/-! ## First members -/

/-- The element is the first member of the list with the property. -/
inductive First (P : α → Prop) : List α → α → Prop where
  | here {x : α} {xs : List α} (hx : P x) : First P (x :: xs) x
  | later {x y : α} {xs : List α} (hx : ¬ P x) (hrest : First P xs y) : First P (x :: xs) y

section First

variable {P Q : α → Prop} {x y : α} {xs : List α}

theorem first_cons_iff : First P (x :: xs) y ↔ P x ∧ y = x ∨ ¬ P x ∧ First P xs y := by
  constructor
  · intro h
    cases h with
    | here hx => exact .inl ⟨hx, rfl⟩
    | later hx hrest => exact .inr ⟨hx, hrest⟩
  · rintro (⟨hx, rfl⟩ | ⟨hx, hrest⟩)
    · exact .here hx
    · exact .later hx hrest

/-- The first member with a property has it. -/
theorem First.holds (h : First P xs x) : P x := by
  induction h with
  | here hx => exact hx
  | later _ _ ih => exact ih

/-- A first member is a member. -/
theorem First.mem (h : First P xs x) : x ∈ xs := by
  induction h with
  | here _ => exact List.mem_cons_self
  | later _ _ ih => exact List.mem_cons_of_mem _ ih

/-- There is one first member. -/
theorem First.eq (h : First P xs x) (h' : First P xs y) : x = y := by
  induction h with
  | here hx =>
      cases h' with
      | here _ => rfl
      | later hx' _ => exact absurd hx hx'
  | later hx _ ih =>
      cases h' with
      | here hx' => exact absurd hx' hx
      | later _ hrest => exact ih hrest

/-- There is a first member with a property if there is one. -/
theorem exists_first_iff : (∃ x, First P xs x) ↔ ∃ x ∈ xs, P x := by
  induction xs with
  | nil => exact iff_of_false (fun ⟨_, h⟩ ↦ nomatch h) (by simp)
  | cons x xs ih =>
      rw [List.exists_mem_cons_iff, ← ih]
      simp only [first_cons_iff, exists_or, exists_and_left, exists_eq, and_true]
      by_cases hx : P x
      · exact iff_of_true (.inl hx) (.inl hx)
      · rw [and_iff_right hx]

/-- Which member is first depends on which members have the property. -/
theorem first_congr (h : ∀ x ∈ xs, (P x ↔ Q x)) : First P xs y ↔ First Q xs y := by
  induction xs with
  | nil => exact ⟨nofun, nofun⟩
  | cons x xs ih =>
      obtain ⟨hx, hxs⟩ := List.forall_mem_cons.mp h
      rw [first_cons_iff, first_cons_iff, hx, ih hxs]

/-- The first among the members that pass a test passes it and has the property, and none before it
does both. -/
theorem first_filter {p : α → Bool} :
    First P (xs.filter p) y ↔ First (fun x ↦ p x = true ∧ P x) xs y := by
  induction xs with
  | nil => exact ⟨nofun, nofun⟩
  | cons x xs ih =>
      rw [first_cons_iff, ← ih]
      cases hp : p x with
      | true => simp [hp, first_cons_iff]
      | false => simp [hp]

end First

/-! ## Failures -/

/-- A composed operation fails in its first step or, after it, in the second. -/
theorem bind_eq_error_iff {x : Except ε α} {step : α → Except ε β} {e : ε} :
    x >>= step = .error e ↔ x = .error e ∨ ∃ a, x = .ok a ∧ step a = .error e := by
  cases x with
  | error e' => simp [bind, Except.bind]
  | ok a => simp [bind, Except.bind]

/-- Of the first member to fail, the error is that of the head or, where the head has a result,
that of a later member. -/
theorem exists_first_error_cons {step : α → Except ε β} {x : α} {xs : List α} {e : ε} :
    (∃ y, First (fun y ↦ ∃ e, step y = .error e) (x :: xs) y ∧ step y = .error e) ↔
      step x = .error e ∨
        (∃ b, step x = .ok b) ∧
          ∃ y, First (fun y ↦ ∃ e, step y = .error e) xs y ∧ step y = .error e := by
  simp only [first_cons_iff]
  cases hx : step x with
  | error e' => simp [hx]
  | ok b => simp

/-- Processing a list fails with the error of the first member that fails. -/
theorem mapM_eq_error_iff {step : α → Except ε β} {xs : List α} {e : ε} :
    xs.mapM step = .error e ↔
      ∃ x, First (fun x ↦ ∃ e, step x = .error e) xs x ∧ step x = .error e := by
  induction xs with
  | nil => exact iff_of_false (fun h ↦ nomatch h) fun ⟨_, h, _⟩ ↦ nomatch h
  | cons x xs ih =>
      have hrest (y : β) : (xs.mapM step >>= fun ys ↦ pure (y :: ys)) = .error e ↔
          xs.mapM step = .error e := by
        rw [bind_eq_error_iff]
        exact or_iff_left fun ⟨_, _, h⟩ ↦ nomatch h
      rw [List.mapM_cons, bind_eq_error_iff, exists_first_error_cons, ← ih]
      simp only [hrest, exists_and_right]

/-- Testing a list fails with the error of the first member that fails. -/
theorem forM_eq_error_iff {test : α → Except ε Unit} {xs : List α} {e : ε} :
    xs.forM test = .error e ↔
      ∃ x, First (fun x ↦ ∃ e, test x = .error e) xs x ∧ test x = .error e := by
  induction xs with
  | nil => exact iff_of_false (fun h ↦ nomatch h) fun ⟨_, h, _⟩ ↦ nomatch h
  | cons x xs ih =>
      have hcons : (x :: xs).forM test = test x >>= fun _ ↦ xs.forM test := rfl
      rw [hcons, bind_eq_error_iff, exists_first_error_cons, ← ih]
      simp only [exists_and_right]

/-- What has no result fails. -/
theorem exists_eq_error_iff {x : Except ε α} :
    (∃ e, x = .error e) ↔ ¬ ∃ a, x = .ok a := by
  cases x with
  | error e => simp
  | ok a => simp

/-- If the operation fails, then with an error of this kind. -/
def FailsOnly (P : ε → Prop) (x : Except ε α) : Prop :=
  ∀ e, x = .error e → P e

section FailsOnly

variable {P Q : ε → Prop}

/-- Errors of one kind are errors of a wider one. -/
theorem FailsOnly.mono {x : Except ε α} (h : FailsOnly P x) (hPQ : ∀ e, P e → Q e) :
    FailsOnly Q x :=
  fun e he ↦ hPQ e (h e he)

/-- What has a result does not fail. -/
theorem FailsOnly.of_ok {x : Except ε α} (h : ∃ a, x = .ok a) : FailsOnly P x := by
  rintro e rfl
  obtain ⟨a, ha⟩ := h
  cases ha

/-- What has failed fails with this error only. -/
theorem FailsOnly.of_error {x : Except ε α} {e : ε} (h : x = .error e) (he : P e) :
    FailsOnly P x := by
  rintro e' h'
  cases h.symm.trans h'
  exact he

/-- A composed operation fails in its first step or, after it, in the second. -/
theorem FailsOnly.bind {x : Except ε α} {step : α → Except ε β} (hx : FailsOnly P x)
    (hstep : ∀ a, x = .ok a → FailsOnly P (step a)) : FailsOnly P (x >>= step) := by
  cases x with
  | error e =>
      intro e' h
      cases h
      exact hx e rfl
  | ok a => exact hstep a rfl

/-- Processing a list fails at one of its members. -/
theorem FailsOnly.mapM {step : α → Except ε β} {xs : List α}
    (h : ∀ x ∈ xs, FailsOnly P (step x)) : FailsOnly P (xs.mapM step) := by
  induction xs with
  | nil => exact .of_ok ⟨[], rfl⟩
  | cons x xs ih =>
      obtain ⟨hx, hxs⟩ := List.forall_mem_cons.mp h
      rw [List.mapM_cons]
      exact hx.bind fun y _ ↦ (ih hxs).bind fun ys _ ↦ .of_ok ⟨y :: ys, rfl⟩

/-- Testing a list fails at one of its members. -/
theorem FailsOnly.forM {test : α → Except ε Unit} {xs : List α}
    (h : ∀ x ∈ xs, FailsOnly P (test x)) : FailsOnly P (xs.forM test) := by
  induction xs with
  | nil => exact .of_ok ⟨(), rfl⟩
  | cons x xs ih =>
      obtain ⟨hx, hxs⟩ := List.forall_mem_cons.mp h
      exact hx.bind fun _ _ ↦ ih hxs

end FailsOnly

end Diagnosis
