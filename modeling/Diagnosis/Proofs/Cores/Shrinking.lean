import Diagnosis.Proofs.Cores.Consistency

/-!
# Shrinking keeps a core and makes it minimal

Dropping members one at a time stays within the members (`dropEach_sublist`), keeps them
conflicting (`dropEach_conflicting`) and, unless some answer was unknown, leaves only members that
are needed (`dropEach_needed`). A member that was needed once stays so, because the members only
become fewer; so one scan over the candidates is enough, whatever cores the solver names.
-/

namespace Diagnosis.Cores.Search

variable {W : Type*} {holds : W → Nat → Prop} {σ : Type} {s : Search σ}

/-- Dropping candidates leaves a part of the members. -/
theorem dropEach_sublist (candidates members : List Nat) (p : Progress σ) :
    (s.dropEach candidates members p).1.Sublist members := by
  fun_induction s.dropEach candidates members p with
  | case1 members p => exact List.Sublist.refl members
  | case2 i rest members p hi core p' hask ih =>
      exact ih.trans ((ask_core_sublist hask).trans List.filter_sublist)
  | case3 i rest members p hi p' hask ih => exact ih
  | case4 i rest members p hi reason p' hask ih => exact ih
  | case5 i rest members p hi ih => exact ih

/-- Dropping candidates keeps conflicting members conflicting. -/
theorem dropEach_conflicting (hsound : s.oracle.Sound holds s.frame.size)
    (candidates members : List Nat) (p : Progress σ)
    (hconflict : s.frame.Conflicting holds members) :
    s.frame.Conflicting holds (s.dropEach candidates members p).1 := by
  fun_induction s.dropEach candidates members p with
  | case1 members p => exact hconflict
  | case2 i rest members p hi core p' hask ih =>
      exact ih (ask_right hsound hask).2
  | case3 i rest members p hi p' hask ih => exact ih hconflict
  | case4 i rest members p hi reason p' hask ih => exact ih hconflict
  | case5 i rest members p hi ih => exact ih hconflict

/-- A search that is complete after dropping was complete before. -/
theorem complete_of_dropEach (candidates members : List Nat) (p : Progress σ)
    (hcomplete : (s.dropEach candidates members p).2.complete = true) : p.complete = true := by
  fun_induction s.dropEach candidates members p with
  | case1 members p => exact hcomplete
  | case2 i rest members p hi core p' hask ih =>
      exact ask_complete hask ▸ ih hcomplete
  | case3 i rest members p hi p' hask ih =>
      exact ask_complete hask ▸ ih hcomplete
  | case4 i rest members p hi reason p' hask ih => exact absurd (ih hcomplete) (by simp)
  | case5 i rest members p hi ih => exact ih hcomplete

/-- If no answer was unknown and the members that are no candidates are needed, then all members
that are left are needed. -/
theorem dropEach_needed (hsound : s.oracle.Sound holds s.frame.size)
    (candidates members : List Nat) (p : Progress σ)
    (hcomplete : (s.dropEach candidates members p).2.complete = true)
    (hneeded : ∀ i ∈ members, i ∉ candidates → s.frame.Needed holds members i) :
    ∀ i ∈ (s.dropEach candidates members p).1,
      s.frame.Needed holds (s.dropEach candidates members p).1 i := by
  fun_induction s.dropEach candidates members p with
  | case1 members p => exact fun i hi ↦ hneeded i hi List.not_mem_nil
  | case2 i rest members p hi core p' hask ih =>
      have hcore : core ⊆ members.filter (· != i) := (ask_core_sublist hask).subset
      -- What was needed before stays needed, as the core may have lost more than the candidate.
      apply ih hcomplete
      intro j hj hrest
      obtain ⟨hmember, hne⟩ := List.mem_filter.mp (hcore hj)
      have hcandidate : j ∉ i :: rest :=
        List.not_mem_cons_of_ne_of_not_mem (by simpa using hne) hrest
      exact (hneeded j hmember hcandidate).mono
        (List.Subset.trans hcore (List.filter_subset_self _))
  | case3 i rest members p hi p' hask ih =>
      apply ih hcomplete
      intro j hj hrest
      -- The candidate just tried is needed: without it the members were satisfiable.
      rcases eq_or_ne j i with rfl | hne
      · exact ask_right hsound hask
      · exact hneeded j hj (List.not_mem_cons_of_ne_of_not_mem hne hrest)
  | case4 i rest members p hi reason p' hask ih =>
      exact absurd (complete_of_dropEach _ _ _ hcomplete) (by simp)
  | case5 i rest members p hi ih =>
      apply ih hcomplete
      intro j hj hrest
      apply hneeded j hj
      rintro hmem
      rcases List.mem_cons.mp hmem with rfl | hmem
      · exact hi (List.contains_iff_mem.mpr hj)
      · exact hrest hmem

/-! ## Shrinking -/

/-- A shrunk core is a part of the core. -/
theorem shrink_sublist (core : List Nat) (p : Progress σ) :
    (s.shrink core p).1.Sublist core :=
  dropEach_sublist core core p

/-- A shrunk core still conflicts. -/
theorem shrink_conflicting (hsound : s.oracle.Sound holds s.frame.size) {core : List Nat}
    (p : Progress σ) (hconflict : s.frame.Conflicting holds core) :
    s.frame.Conflicting holds (s.shrink core p).1 :=
  dropEach_conflicting hsound core core p hconflict

/-- A search that is complete after shrinking was complete before. -/
theorem complete_of_shrink {core : List Nat} {p : Progress σ}
    (hcomplete : (s.shrink core p).2.complete = true) : p.complete = true :=
  complete_of_dropEach core core p hcomplete

/-- A core that is shrunk without unknown answers is minimal. -/
theorem shrink_minimal (hsound : s.oracle.Sound holds s.frame.size) (hordered : s.frame.Ordered)
    {core : List Nat} {p : Progress σ} (htracked : core.Sublist s.frame.tracked)
    (hconflict : s.frame.Conflicting holds core)
    (hcomplete : (s.shrink core p).2.complete = true) :
    s.frame.MinimalCore holds (s.shrink core p).1 := by
  apply Frame.MinimalCore.of_needed hordered ((shrink_sublist core p).trans htracked)
    (shrink_conflicting hsound p hconflict)
  exact dropEach_needed hsound core core p hcomplete fun i hi hnot ↦ absurd hi hnot

end Diagnosis.Cores.Search
