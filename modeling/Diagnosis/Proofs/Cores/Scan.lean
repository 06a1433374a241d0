import Diagnosis.Proofs.Cores.Exactness
import Mathlib.Data.List.Nodup
import Mathlib.Logic.Relation

/-!
# Shrinking is one scan

Shrinking goes through the members that a core has at the start. A scan knows only the members that
are left and how many of them it has passed: it drops the member at that place for a trial, and
where the rest is still unsatisfiable it goes on in the core that the answer names, at the place
after the members below the one it has dropped. Both are the same (`scans_shrink`).

With a sound solver that never gives up and enough questions, the members that a scan has passed
are needed at every step, whatever cores are named (`ScanSound`): they were needed in more members,
and none of those that are left behind the place has been passed before. So nothing has to be tried
twice, and a question is asked at most once for each member of the core.
-/

namespace Diagnosis.Cores

/-! ## Places in ascending lists -/

section Ascending

variable {members : List Nat} {i place : Nat}

/-- In an ascending list, the members below a bound come before the other ones. -/
theorem filter_lt_append (hascending : members.Pairwise (· < ·)) (i : Nat) :
    members.filter (· < i) ++ members.filter (i ≤ ·) = members := by
  induction members with
  | nil => rfl
  | cons j rest ih =>
      obtain ⟨hj, hrest⟩ := List.pairwise_cons.mp hascending
      by_cases hji : j < i
      · rw [List.filter_cons_of_pos (by simpa using hji),
          List.filter_cons_of_neg (by simpa using hji), List.cons_append, ih hrest]
      · have hlarge : ∀ k ∈ j :: rest, i ≤ k :=
          List.forall_mem_cons.mpr ⟨by omega, fun k hk ↦ by have := hj k hk; omega⟩
        rw [List.filter_eq_nil_iff.mpr fun k hk ↦ by simpa using hlarge k hk, List.nil_append,
          List.filter_eq_self.mpr fun k hk ↦ by simpa using hlarge k hk]

/-- As many members as are below a bound are taken: these members. -/
theorem take_countP_lt (hascending : members.Pairwise (· < ·)) (i : Nat) :
    members.take (members.countP (· < i)) = members.filter (· < i) := by
  have hsplit := filter_lt_append hascending i
  rw [List.countP_eq_length_filter]
  generalize members.filter (· < i) = small at hsplit ⊢
  rw [← hsplit, List.take_left]

/-- As many members as are below a bound are dropped: the other ones are left. -/
theorem drop_countP_lt (hascending : members.Pairwise (· < ·)) (i : Nat) :
    members.drop (members.countP (· < i)) = members.filter (i ≤ ·) := by
  have hsplit := filter_lt_append hascending i
  rw [List.countP_eq_length_filter]
  generalize members.filter (· < i) = small at hsplit ⊢
  generalize members.filter (i ≤ ·) = large at hsplit ⊢
  rw [← hsplit, List.drop_left]

/-- A member of an ascending list stands between the smaller and the larger ones. -/
theorem ascending_at (hascending : members.Pairwise (· < ·)) (hi : members[place]? = some i) :
    (∀ j, j ∈ members.take place ↔ j ∈ members ∧ j < i) ∧
      ∀ j, j ∈ members.drop (place + 1) ↔ j ∈ members ∧ i < j := by
  obtain ⟨hplace, rfl⟩ := List.getElem?_eq_some_iff.mp hi
  have hsplit : members = members.take place ++ members[place] :: members.drop (place + 1) := by
    rw [← List.drop_eq_getElem_cons hplace, List.take_append_drop]
  have hmem (j : Nat) : j ∈ members ↔
      j ∈ members.take place ∨ j = members[place] ∨ j ∈ members.drop (place + 1) := by
    conv_lhs => rw [hsplit]
    rw [List.mem_append, List.mem_cons]
  have hordered := hascending
  rw [hsplit, List.pairwise_append, List.pairwise_cons] at hordered
  have hbelow (j : Nat) (hj : j ∈ members.take place) : j < members[place] :=
    hordered.2.2 j hj _ List.mem_cons_self
  have habove := hordered.2.1.1
  refine ⟨fun j ↦ ⟨fun hj ↦ ⟨List.mem_of_mem_take hj, hbelow j hj⟩, fun ⟨hj, hlt⟩ ↦ ?_⟩,
    fun j ↦ ⟨fun hj ↦ ⟨List.mem_of_mem_drop hj, habove j hj⟩, fun ⟨hj, hlt⟩ ↦ ?_⟩⟩
  · refine ((hmem j).mp hj).resolve_right fun hother ↦ ?_
    rcases hother with rfl | hdrop
    · exact Nat.lt_irrefl _ hlt
    · exact Nat.lt_asymm hlt (habove j hdrop)
  · rcases (hmem j).mp hj with htake | rfl | hdrop
    · exact absurd (hbelow j htake) (Nat.lt_asymm hlt)
    · exact absurd hlt (Nat.lt_irrefl _)
    · exact hdrop

/-- Taking a member out of an ascending list leaves the other ones. -/
theorem eraseIdx_eq_filter (hascending : members.Pairwise (· < ·))
    (hi : members[place]? = some i) : members.eraseIdx place = members.filter (· != i) := by
  obtain ⟨hplace, rfl⟩ := List.getElem?_eq_some_iff.mp hi
  have hnodup : members.Nodup := hascending.imp Nat.ne_of_lt
  rw [← hnodup.erase_getElem, hnodup.erase_eq_filter]

end Ascending

/-! ## Scans -/

/-- A scan over a core: the members that are left, how many of them it has passed, and the progress
of the search. -/
structure Scan (σ : Type) where
  members : List Nat
  passed : Nat
  progress : Progress σ

namespace Search

variable {W : Type*} {holds : W → Nat → Prop} {σ : Type} {s : Search σ} {scan next last : Scan σ}

/-- One step of a scan: the member at its place is dropped for a trial. If what is left is
unsatisfiable, the scan goes on in the core that the answer names, after the members below the one
that was dropped. Otherwise it passes the member, and an unknown answer leaves the search
incomplete. -/
def scanStep (s : Search σ) (scan : Scan σ) : Option (Scan σ) :=
  scan.members[scan.passed]?.map fun dropped =>
    match s.ask (scan.members.eraseIdx scan.passed) scan.progress with
    | (.unsat core, p) => { members := core, passed := core.countP (· < dropped), progress := p }
    | (.sat, p) => { scan with passed := scan.passed + 1, progress := p }
    | (.unknown _, p) =>
      { scan with passed := scan.passed + 1, progress := { p with complete := false } }

/-- A scan comes from one state to another by any number of steps. -/
def Scans (s : Search σ) : Scan σ → Scan σ → Prop :=
  Relation.ReflTransGen fun scan next => s.scanStep scan = some next

/-- What can be a step of a scan. -/
inductive ScanSteps (s : Search σ) (scan : Scan σ) (dropped : Nat) : Scan σ → Prop where
  /-- What is left is unsatisfiable, and a core in it is named. -/
  | shrinks {core : List Nat} {p : Progress σ}
      (hask : s.ask (scan.members.filter (· != dropped)) scan.progress = (.unsat core, p)) :
      ScanSteps s scan dropped
        { members := core, passed := core.countP (· < dropped), progress := p }
  /-- What is left is satisfiable. -/
  | passes {p : Progress σ}
      (hask : s.ask (scan.members.filter (· != dropped)) scan.progress = (.sat, p)) :
      ScanSteps s scan dropped { scan with passed := scan.passed + 1, progress := p }
  /-- There is no answer. -/
  | givesUp {reason : String} {p : Progress σ}
      (hask : s.ask (scan.members.filter (· != dropped)) scan.progress = (.unknown reason, p)) :
      ScanSteps s scan dropped
        { scan with passed := scan.passed + 1, progress := { p with complete := false } }

/-- Every step is one of these. -/
theorem exists_scanSteps (hascending : scan.members.Pairwise (· < ·))
    (hstep : s.scanStep scan = some next) :
    ∃ dropped, scan.members[scan.passed]? = some dropped ∧ ScanSteps s scan dropped next := by
  obtain ⟨dropped, hdropped, rfl⟩ := Option.map_eq_some_iff.mp hstep
  refine ⟨dropped, hdropped, ?_⟩
  rw [eraseIdx_eq_filter hascending hdropped]
  split
  case h_1 core p hask => exact .shrinks hask
  case h_2 p hask => exact .passes hask
  case h_3 reason p hask => exact .givesUp hask

/-! ## Shrinking is a scan -/

/-- The candidates are what is left to try: they are above the members that the scan has passed, and
those that it has not are among them. -/
structure Awaits (members : List Nat) (passed : Nat) (candidates : List Nat) : Prop where
  below : ∀ j ∈ members.take passed, ∀ i ∈ candidates, j < i
  listed : ∀ j ∈ members.drop passed, j ∈ candidates

section Awaits

variable {i passed : Nat} {rest members core : List Nat}

/-- A candidate that still is a member stands at the place of the scan. -/
theorem Awaits.place (h : Awaits members passed (i :: rest)) (hi : i ∈ members)
    (hcandidates : (i :: rest).Pairwise (· < ·)) (hmembers : members.Pairwise (· < ·)) :
    members[passed]? = some i := by
  have hsplit := List.take_append_drop passed members
  rw [← hsplit, List.mem_append] at hi
  have hdrop : i ∈ members.drop passed :=
    hi.resolve_left fun htake ↦ Nat.lt_irrefl i (h.below i htake i List.mem_cons_self)
  rw [← hsplit, List.pairwise_append] at hmembers
  have hafter := hmembers.2.1
  have hlisted := h.listed
  rw [← List.head?_drop]
  generalize members.drop passed = later at hdrop hafter hlisted ⊢
  cases later with
  | nil => cases hdrop
  | cons j later =>
      -- The first of these members is a candidate, and no candidate is below the first one.
      rcases List.mem_cons.mp hdrop with rfl | hlater
      · rfl
      · have hji := (List.pairwise_cons.mp hafter).1 i hlater
        rcases List.mem_cons.mp (hlisted j List.mem_cons_self) with rfl | hrest
        · rfl
        · have hij := (List.pairwise_cons.mp hcandidates).1 j hrest
          omega

/-- A candidate that is not a member any more is left out. -/
theorem Awaits.skip (h : Awaits members passed (i :: rest)) (hi : i ∉ members) :
    Awaits members passed rest where
  below := fun j hj k hk ↦ h.below j hj k (List.mem_cons_of_mem i hk)
  listed := by
    intro j hj
    refine (List.mem_cons.mp (h.listed j hj)).resolve_left ?_
    rintro rfl
    exact hi (List.mem_of_mem_drop hj)

/-- The scan passes the first candidate. -/
theorem Awaits.pass (h : Awaits members passed (i :: rest)) (hi : members[passed]? = some i)
    (hcandidates : (i :: rest).Pairwise (· < ·)) (hmembers : members.Pairwise (· < ·)) :
    Awaits members (passed + 1) rest where
  below := by
    intro j hj k hk
    rw [List.take_add_one, hi, Option.toList_some, List.mem_append, List.mem_singleton] at hj
    rcases hj with hj | rfl
    · exact h.below j hj k (List.mem_cons_of_mem i hk)
    · exact (List.pairwise_cons.mp hcandidates).1 k hk
  listed := by
    intro j hj
    have hij := (((ascending_at hmembers hi).2 j).mp hj).2
    have hdrop : j ∈ members.drop passed := by
      rw [← List.drop_drop] at hj
      exact List.mem_of_mem_drop hj
    exact (List.mem_cons.mp (h.listed j hdrop)).resolve_left (Nat.ne_of_gt hij)

/-- The scan goes on in a core without the first candidate. -/
theorem Awaits.shrink (h : Awaits members passed (i :: rest))
    (hcore : core.Sublist (members.filter (· != i)))
    (hcandidates : (i :: rest).Pairwise (· < ·)) (hmembers : members.Pairwise (· < ·)) :
    Awaits core (core.countP (· < i)) rest := by
  have hascending : core.Pairwise (· < ·) := hmembers.sublist (hcore.trans List.filter_sublist)
  refine ⟨fun j hj k hk ↦ ?_, fun j hj ↦ ?_⟩
  · rw [take_countP_lt hascending, List.mem_filter, decide_eq_true_eq] at hj
    exact Nat.lt_trans hj.2 ((List.pairwise_cons.mp hcandidates).1 k hk)
  · rw [drop_countP_lt hascending, List.mem_filter, decide_eq_true_eq] at hj
    obtain ⟨hmember, hne⟩ := List.mem_filter.mp (hcore.subset hj.1)
    rw [← List.take_append_drop passed members, List.mem_append] at hmember
    rcases hmember with htake | hdrop
    · exact absurd (h.below j htake i List.mem_cons_self) (Nat.not_lt.mpr hj.2)
    · exact (List.mem_cons.mp (h.listed j hdrop)).resolve_left (by simpa using hne)

end Awaits

/-- What a step is where the member at the place is known. -/
theorem scanStep_eq {members : List Nat} {passed dropped : Nat} {p : Progress σ}
    (hmembers : members.Pairwise (· < ·)) (hdropped : members[passed]? = some dropped) :
    s.scanStep { members, passed, progress := p } =
      some (match s.ask (members.filter (· != dropped)) p with
        | (.unsat core, p) =>
          { members := core, passed := core.countP (· < dropped), progress := p }
        | (.sat, p) => { members, passed := passed + 1, progress := p }
        | (.unknown _, p) =>
          { members, passed := passed + 1, progress := { p with complete := false } }) := by
  simp only [scanStep, hdropped, Option.map_some, eraseIdx_eq_filter hmembers hdropped]

/-- Dropping the candidates is what the scan does from here to its end. -/
theorem scans_dropEach {candidates members : List Nat} {p : Progress σ} {passed : Nat}
    (hcandidates : candidates.Pairwise (· < ·)) (hmembers : members.Pairwise (· < ·))
    (hawaits : Awaits members passed candidates) :
    ∃ last : Scan σ, s.Scans { members, passed, progress := p } last ∧
      s.scanStep last = none ∧
      (last.members, last.progress) = s.dropEach candidates members p := by
  fun_induction s.dropEach candidates members p generalizing passed with
  | case1 members p =>
      refine ⟨_, .refl, ?_, rfl⟩
      have hnone : members.drop passed = [] :=
        List.eq_nil_iff_forall_not_mem.mpr fun j hj ↦ List.not_mem_nil (hawaits.listed j hj)
      rw [scanStep, List.getElem?_eq_none (List.drop_eq_nil_iff.mp hnone), Option.map_none]
  | case2 i rest members p hi core p' hask ih =>
      have hplace := hawaits.place (List.contains_iff_mem.mp hi) hcandidates hmembers
      have hcore := ask_core_sublist hask
      obtain ⟨last, hscans, hend⟩ := ih hcandidates.of_cons
        (hmembers.sublist (hcore.trans List.filter_sublist))
        (hawaits.shrink hcore hcandidates hmembers)
      refine ⟨last, hscans.head ?_, hend⟩
      rw [scanStep_eq hmembers hplace, hask]
  | case3 i rest members p hi p' hask ih =>
      have hplace := hawaits.place (List.contains_iff_mem.mp hi) hcandidates hmembers
      obtain ⟨last, hscans, hend⟩ := ih hcandidates.of_cons hmembers
        (hawaits.pass hplace hcandidates hmembers)
      refine ⟨last, hscans.head ?_, hend⟩
      rw [scanStep_eq hmembers hplace, hask]
  | case4 i rest members p hi reason p' hask ih =>
      have hplace := hawaits.place (List.contains_iff_mem.mp hi) hcandidates hmembers
      obtain ⟨last, hscans, hend⟩ := ih hcandidates.of_cons hmembers
        (hawaits.pass hplace hcandidates hmembers)
      refine ⟨last, hscans.head ?_, hend⟩
      rw [scanStep_eq hmembers hplace, hask]
  | case5 i rest members p hi ih =>
      have hmissing : i ∉ members := fun hmem ↦ hi (List.contains_iff_mem.mpr hmem)
      exact ih hcandidates.of_cons hmembers (hawaits.skip hmissing)

/-- Shrinking a core is the scan over it. -/
theorem scans_shrink {core : List Nat} (hcore : core.Pairwise (· < ·)) (p : Progress σ) :
    ∃ last : Scan σ, s.Scans { members := core, passed := 0, progress := p } last ∧
      s.scanStep last = none ∧ (last.members, last.progress) = s.shrink core p :=
  scans_dropEach hcore hcore ⟨by simp, by simp⟩

/-! ## What a scan keeps -/

variable (holds) in
/-- What holds at every step of a scan over a core with a sound solver that never gives up: the
members still conflict, those that the scan has passed are needed, and no more questions have been
asked than the core has members that the scan has done with. -/
structure ScanSound (s : Search σ) (core : List Nat) (p : Progress σ) (scan : Scan σ) : Prop where
  within : scan.members.Sublist core
  conflicting : s.frame.Conflicting holds scan.members
  needed : ∀ i ∈ scan.members.take scan.passed, s.frame.Needed holds scan.members i
  questions : scan.progress.log.length + (scan.members.drop scan.passed).length ≤
    p.log.length + core.length
  complete : scan.progress.complete = p.complete

section Sound

variable {core : List Nat} {p : Progress σ}

/-- A step of a scan keeps that. -/
theorem ScanSound.step (h : ScanSound holds s core p scan) (hcore : core.Pairwise (· < ·))
    (hsound : s.oracle.Sound holds s.frame.size) (hdefinite : s.oracle.Definite s.frame.size)
    (hchecks : ((p.log.length + core.length : Nat) : Int) ≤ s.limits.checks)
    (hstep : s.scanStep scan = some next) : ScanSound holds s core p next := by
  have hascending : scan.members.Pairwise (· < ·) := hcore.sublist h.within
  obtain ⟨dropped, hdropped, hsteps⟩ := exists_scanSteps hascending hstep
  obtain ⟨htake, hdrop⟩ := ascending_at hascending hdropped
  have hlength : (scan.members.drop scan.passed).length =
      (scan.members.drop (scan.passed + 1)).length + 1 := by
    obtain ⟨hplace, -⟩ := List.getElem?_eq_some_iff.mp hdropped
    rw [List.drop_eq_getElem_cons hplace, List.length_cons]
  have hquestions := h.questions
  cases hsteps with
  | @shrinks core' p' hask =>
      obtain ⟨hcore', hconflict⟩ := ask_right hsound hask
      have hone := length_log_ask hask
      have hmembers := hcore'.trans List.filter_sublist
      have hascending' : core'.Pairwise (· < ·) := hascending.sublist hmembers
      refine ⟨hmembers.trans h.within, hconflict, fun i hi ↦ ?_, ?_,
        (ask_complete hask).trans h.complete⟩
      · -- What is below the dropped member has been passed already, in more members.
        rw [take_countP_lt hascending', List.mem_filter, decide_eq_true_eq] at hi
        exact (h.needed i ((htake i).mpr ⟨hmembers.subset hi.1, hi.2⟩)).mono hmembers.subset
      · -- What is left to try was so before, without the dropped member.
        have hfewer : core'.filter (dropped ≤ ·) ⊆ scan.members.drop (scan.passed + 1) := by
          intro j hj
          rw [List.mem_filter, decide_eq_true_eq] at hj
          obtain ⟨hmem, hne⟩ := List.mem_filter.mp (hcore'.subset hj.1)
          exact (hdrop j).mpr ⟨hmem, Nat.lt_of_le_of_ne hj.2 (bne_iff_ne.mp hne).symm⟩
        have hnodup : (core'.filter (dropped ≤ ·)).Nodup :=
          (hascending'.sublist List.filter_sublist).imp Nat.ne_of_lt
        have hlength' := (hnodup.subperm hfewer).length_le
        rw [drop_countP_lt hascending']
        dsimp only
        omega
  | @passes p' hask =>
      have hone := length_log_ask hask
      refine ⟨h.within, h.conflicting, fun i hi ↦ ?_, ?_, (ask_complete hask).trans h.complete⟩
      · rw [List.take_add_one, hdropped, Option.toList_some, List.mem_append,
          List.mem_singleton] at hi
        rcases hi with hi | rfl
        · exact h.needed i hi
        · exact ask_right hsound hask
      · dsimp only
        omega
  | @givesUp reason p' hask =>
      -- The solver never gives up, and the budget is not spent.
      have hspent : s.limits.checks ≤ scan.progress.log.length :=
        (spent_of_ask_unknown hdefinite hask).1
      omega

/-- What a step keeps, the whole scan keeps. -/
theorem ScanSound.scans (hcore : core.Pairwise (· < ·))
    (hsound : s.oracle.Sound holds s.frame.size) (hdefinite : s.oracle.Definite s.frame.size)
    (hconflict : s.frame.Conflicting holds core)
    (hchecks : ((p.log.length + core.length : Nat) : Int) ≤ s.limits.checks)
    (hscans : s.Scans { members := core, passed := 0, progress := p } scan) :
    ScanSound holds s core p scan := by
  induction hscans with
  | refl => exact ⟨List.Sublist.refl core, hconflict, by simp, by simp, rfl⟩
  | tail _ hstep ih => exact ih.step hcore hsound hdefinite hchecks hstep

/-- Where a scan ends, it has passed all the members that are left. -/
theorem take_passed_of_end (hend : s.scanStep scan = none) :
    scan.members.take scan.passed = scan.members := by
  rw [scanStep, Option.map_eq_none_iff, List.getElem?_eq_none_iff] at hend
  exact List.take_of_length_le hend

end Sound

end Search

end Diagnosis.Cores
