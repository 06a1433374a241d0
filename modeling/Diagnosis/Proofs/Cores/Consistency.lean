import Diagnosis.Cores.Attempt
import Mathlib.Data.List.Basic

/-!
# Consistency of tracked premises

Worlds say which premises are true in them; positions are consistent if some world makes all of
them true. An oracle is sound if its definite verdicts are right in this sense. It may give up on
any question, name any unsatisfiable part as a core, and let its answers depend on its state.

`Search.ask_right` carries soundness from verdicts on positions to answers about tracked premises
over the background. It is all that the search for cores needs to know of its solver.
-/

namespace Diagnosis.Cores

variable {W : Type*} (holds : W → Nat → Prop) {σ : Type}

/-- Some world makes the premises at all of the positions true. -/
def Consistent (positions : List Nat) : Prop :=
  ∃ w, ∀ i ∈ positions, holds w i

/-- What is definite in a verdict on positions is right. A core that comes with the verdict lies
within the positions and is inconsistent on its own. -/
def Verdict.Right (positions : List Nat) : Verdict → Prop
  | .sat => Consistent holds positions
  | .unsat none => ¬ Consistent holds positions
  | .unsat (some core) => core ⊆ positions ∧ ¬ Consistent holds core
  | .unknown _ => True

/-- Every definite verdict of the oracle is right, whatever state it is in. -/
def Oracle.Sound (size : Nat) (oracle : Oracle σ) : Prop :=
  ∀ positions state, positions.Sublist (List.range size) →
    (oracle positions state).1.Right holds positions

variable {holds}

/-- A part of consistent premises is consistent. -/
theorem Consistent.mono {fewer more : List Nat} (h : Consistent holds more)
    (hsub : fewer ⊆ more) : Consistent holds fewer := by
  obtain ⟨w, hw⟩ := h
  exact ⟨w, fun i hi ↦ hw i (hsub hi)⟩

/-! ## Tracked premises over the background -/

namespace Frame

variable {frame : Frame} {members part : List Nat} {i : Nat}

/-- The tracked premises are listed in ascending order and within the list of premises. -/
def Ordered (frame : Frame) : Prop :=
  frame.tracked.Sublist (List.range frame.size)

/-- A question is about the given tracked premises and all that are not tracked. -/
@[simp] theorem mem_withBackground :
    i ∈ frame.withBackground members ↔ i < frame.size ∧ (i ∈ members ∨ i ∉ frame.tracked) := by
  simp [withBackground]

/-- A question lists its positions in ascending order. -/
theorem withBackground_sublist (frame : Frame) (members : List Nat) :
    (frame.withBackground members).Sublist (List.range frame.size) :=
  List.filter_sublist

/-- More tracked premises make a larger question. -/
theorem withBackground_mono (hsub : part ⊆ members) :
    frame.withBackground part ⊆ frame.withBackground members := by
  intro i hi
  rw [mem_withBackground] at hi ⊢
  exact ⟨hi.1, hi.2.imp_left (@hsub i)⟩

variable (holds) in
/-- The members contradict each other or the background. -/
def Conflicting (frame : Frame) (members : List Nat) : Prop :=
  ¬ Consistent holds (frame.withBackground members)

/-- What contains conflicting members is conflicting. -/
theorem Conflicting.mono (h : frame.Conflicting holds part) (hsub : part ⊆ members) :
    frame.Conflicting holds members :=
  fun hmembers ↦ h (hmembers.mono (withBackground_mono hsub))

variable (holds) in
/-- The core is a minimal set of conflicting tracked premises. -/
structure MinimalCore (frame : Frame) (core : List Nat) : Prop where
  tracked : core.Sublist frame.tracked
  conflicting : frame.Conflicting holds core
  minimal : ∀ part : List Nat, part.Sublist frame.tracked → frame.Conflicting holds part →
    part ⊆ core → part = core

variable (holds) in
/-- Without the member `i` the members are no longer conflicting. -/
def Needed (frame : Frame) (members : List Nat) (i : Nat) : Prop :=
  ¬ frame.Conflicting holds (members.filter (· != i))

/-- What is needed in some members is needed in every part of them. -/
theorem Needed.mono (h : frame.Needed holds members i) (hsub : part ⊆ members) :
    frame.Needed holds part i := by
  intro hpart
  apply h
  apply hpart.mono
  intro j hj
  rw [List.mem_filter] at hj ⊢
  exact ⟨hsub hj.1, hj.2⟩

/-- Tracked premises are known by their members. -/
theorem Ordered.ext (hordered : frame.Ordered) (hpart : part.Sublist frame.tracked)
    (hmembers : members.Sublist frame.tracked) (h : ∀ i, i ∈ part ↔ i ∈ members) :
    part = members := by
  have hascending {l : List Nat} (hl : l.Sublist frame.tracked) : l.Pairwise (· < ·) :=
    List.pairwise_lt_range.sublist (hl.trans hordered)
  have hnodup {l : List Nat} (hl : l.Sublist frame.tracked) : l.Nodup :=
    List.nodup_range.sublist (hl.trans hordered)
  have hperm : part.Perm members :=
    (List.perm_ext_iff_of_nodup (hnodup hpart) (hnodup hmembers)).mpr h
  exact hperm.eq_of_pairwise (fun i j _ _ hlt hgt ↦ absurd hlt (Nat.lt_asymm hgt))
    (hascending hpart) (hascending hmembers)

/-- Conflicting tracked premises that are all needed are a minimal core. -/
theorem MinimalCore.of_needed (hordered : frame.Ordered) (htracked : members.Sublist frame.tracked)
    (hconflict : frame.Conflicting holds members)
    (hneeded : ∀ i ∈ members, frame.Needed holds members i) :
    frame.MinimalCore holds members := by
  refine ⟨htracked, hconflict, fun part hpart hconflict' hsub ↦ ?_⟩
  apply hordered.ext hpart htracked
  refine fun i ↦ ⟨@hsub i, fun hi ↦ ?_⟩
  by_contra hmissing
  apply hneeded i hi
  apply hconflict'.mono
  intro j hj
  rw [List.mem_filter, bne_iff_ne]
  refine ⟨hsub hj, ?_⟩
  rintro rfl
  exact hmissing hj

end Frame

/-! ## Answers -/

variable (holds) in
/-- What is definite in an answer about tracked premises is right. The core that comes with it lies
within the premises asked about. -/
def Answer.Right (frame : Frame) (members : List Nat) : Answer → Prop
  | .sat => ¬ frame.Conflicting holds members
  | .unsat core => core.Sublist members ∧ frame.Conflicting holds core
  | .unknown _ => True

namespace Search

variable {s : Search σ}

/-- Cutting a core down to the premises asked about keeps it inconsistent with the background. -/
theorem restrict_right {frame : Frame} {members : List Nat} {verdict : Verdict}
    (h : verdict.Right holds (frame.withBackground members)) :
    (restrict members verdict).Right holds frame members := by
  cases verdict with
  | sat => exact not_not_intro h
  | unknown reason => trivial
  | unsat core =>
      cases core with
      | none => exact ⟨List.Sublist.refl members, h⟩
      | some core =>
          refine ⟨List.filter_sublist, fun hconsistent ↦ h.2 (hconsistent.mono ?_)⟩
          intro i hi
          obtain ⟨hrange, hmember⟩ := Frame.mem_withBackground.mp (h.1 hi)
          rw [Frame.mem_withBackground, List.mem_filter, List.contains_iff_mem]
          exact ⟨hrange, hmember.imp_left fun hmember ↦ ⟨hmember, hi⟩⟩

/-- A core is cut down to the premises asked about. -/
theorem restrict_core_sublist {members core : List Nat} {verdict : Verdict}
    (h : restrict members verdict = .unsat core) : core.Sublist members := by
  cases verdict with
  | sat => cases h
  | unknown reason => cases h
  | unsat named =>
      cases named with
      | none =>
          cases h
          exact List.Sublist.refl _
      | some named =>
          cases h
          exact List.filter_sublist

/-- The answers of a sound solver are right; over the budget there is none. -/
theorem ask_right (hsound : s.oracle.Sound holds s.frame.size) {members : List Nat}
    {answer : Answer} {p p' : Progress σ} (h : s.ask members p = (answer, p')) :
    answer.Right holds s.frame members := by
  unfold ask at h
  split at h
  · cases h
    trivial
  · cases h
    exact restrict_right (hsound _ _ (s.frame.withBackground_sublist members))

/-- The core that comes with an answer lies within the premises asked about, also when the verdict
is wrong. -/
theorem ask_core_sublist {members core : List Nat} {p p' : Progress σ}
    (h : s.ask members p = (.unsat core, p')) : core.Sublist members := by
  unfold ask at h
  split at h
  · cases h
  · injection h with hanswer
    exact restrict_core_sublist hanswer

/-- A question does not change whether the search is complete. -/
theorem ask_complete {members : List Nat} {answer : Answer} {p p' : Progress σ}
    (h : s.ask members p = (answer, p')) : p'.complete = p.complete := by
  unfold ask at h
  split at h <;> cases h <;> rfl

end Search

end Diagnosis.Cores
