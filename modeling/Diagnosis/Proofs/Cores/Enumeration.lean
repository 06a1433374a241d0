import Diagnosis.Proofs.Cores.Shrinking

/-!
# The hitting-set tree finds every minimal core

`Visits` lists what a visit can make of a node, and every invariant of the walk is derived from it:
what a visit keeps, a level keeps and the whole walk keeps (`walk_preserves`).

A walk that comes to its end has found every minimal core (`mem_cores_of_walk`): as long as a
minimal core is missing, some path on the current level avoids it. The premises that such a path
leaves contain the core, so the path does not close, and the core it is expanded by has a member
outside the missing one, which leads to a path on the next level that avoids it too.
-/

namespace Diagnosis.Cores

variable {W : Type*} {holds : W → Nat → Prop} {σ : Type} {s : Search σ}

/-! ## Paths -/

/-- The tracked premises that a path leaves. -/
def Frame.without (frame : Frame) (path : Path) : List Nat :=
  frame.tracked.filter fun i => !path.contains i

@[simp] theorem Frame.mem_without {frame : Frame} {path : Path} {i : Nat} :
    i ∈ frame.without path ↔ i ∈ frame.tracked ∧ i ∉ path := by
  simp [without]

/-- Tracked premises that avoid a path are among those it leaves. -/
theorem Frame.subset_without {frame : Frame} {path : Path} {members : List Nat}
    (htracked : members.Sublist frame.tracked) (havoids : members.Disjoint path) :
    members ⊆ frame.without path :=
  fun _ hi ↦ Frame.mem_without.mpr ⟨htracked.subset hi, fun hpath ↦ havoids hi hpath⟩

@[simp] theorem mem_insertAscending {i j : Nat} {path : Path} :
    j ∈ insertAscending i path ↔ j = i ∨ j ∈ path := by
  induction path with
  | nil => simp [insertAscending]
  | cons k path ih => grind [insertAscending]

/-- The tree that a visit leaves. -/
def Visit.tree : Visit σ → Tree σ
  | .closes tree => tree
  | .expands _ tree => tree
  | .stops tree => tree

namespace Search

/-- The next level gains a child for every member of the core and loses nothing. -/
theorem mem_addChildren {path child : Path} {core : List Nat} {next : List Path} :
    child ∈ addChildren path core next ↔
      child ∈ next ∨ ∃ i ∈ core, child = insertAscending i path := by
  induction core generalizing next with
  | nil => simp [addChildren]
  | cons i core ih =>
      have hstep : addChildren path (i :: core) next = addChildren path core
          (if next.contains (insertAscending i path) then next
            else next ++ [insertAscending i path]) := rfl
      rw [hstep, ih]
      grind

/-! ## What a visit can do -/

/-- The visits that are possible at a node. -/
inductive Visits (s : Search σ) (path : Path) (tree : Tree σ) : Visit σ → Prop where
  /-- The path contains a closed one. -/
  | pruned {closed : Path} (hclosed : closed ∈ tree.closed) (hsub : closed ⊆ path) :
      Visits s path tree (.closes tree)
  /-- A core found before avoids the path. -/
  | reused {core : List Nat} (hcore : core ∈ tree.cores) (havoids : core.Disjoint path) :
      Visits s path tree (.expands core tree)
  /-- What the path leaves is satisfiable. -/
  | satisfied {progress : Progress σ} (hnew : ∀ core ∈ tree.cores, ¬ core.Disjoint path)
      (hask : s.ask (s.frame.without path) tree.progress = (.sat, progress)) :
      Visits s path tree (.closes { tree with closed := tree.closed ++ [path], progress })
  /-- The solver gives up. -/
  | gaveUp {reason : String} {progress : Progress σ}
      (hnew : ∀ core ∈ tree.cores, ¬ core.Disjoint path)
      (hask : s.ask (s.frame.without path) tree.progress = (.unknown reason, progress)) :
      Visits s path tree (.stops { tree with progress })
  /-- There is one more core than may be reported. -/
  | spent {core : List Nat} {progress : Progress σ}
      (hnew : ∀ core ∈ tree.cores, ¬ core.Disjoint path)
      (hask : s.ask (s.frame.without path) tree.progress = (.unsat core, progress))
      (hlimit : s.limits.refutations ≤ tree.cores.length) :
      Visits s path tree (.stops { tree with progress })
  /-- A new core is found and shrunk. -/
  | found {core least : List Nat} {progress progress' : Progress σ}
      (hnew : ∀ core ∈ tree.cores, ¬ core.Disjoint path)
      (hask : s.ask (s.frame.without path) tree.progress = (.unsat core, progress))
      (hlimit : tree.cores.length < s.limits.refutations)
      (hshrink : s.shrink core progress = (least, progress')) :
      Visits s path tree
        (.expands least { tree with cores := tree.cores ++ [least], progress := progress' })

/-- Every visit is one of these. -/
theorem visits_of_visit {path : Path} {tree : Tree σ} {result : Visit σ}
    (h : s.visit path tree = result) : Visits s path tree result := by
  subst h
  unfold visit
  split
  case isTrue hany =>
    obtain ⟨closed, hclosed, hall⟩ := List.any_eq_true.mp hany
    exact .pruned hclosed fun i hi ↦ List.contains_iff_mem.mp (List.all_eq_true.mp hall i hi)
  case isFalse hany =>
    split
    case h_1 core hfind =>
      have havoids := List.find?_some hfind
      refine .reused (List.mem_of_find?_eq_some hfind) fun i hi hpath ↦ ?_
      simpa [hpath] using List.all_eq_true.mp havoids i hi
    case h_2 hfind =>
      have hnew : ∀ core ∈ tree.cores, ¬ core.Disjoint path := by
        intro core hcore havoids
        apply List.find?_eq_none.mp hfind core hcore
        simp only [List.all_eq_true, Bool.not_eq_true', List.contains_eq_mem,
          decide_eq_false_iff_not]
        exact fun i hi hpath ↦ havoids hi hpath
      split
      case h_1 progress hask => exact .satisfied hnew hask
      case h_2 reason progress hask => exact .gaveUp hnew hask
      case h_3 core progress hask =>
        split
        case isTrue hlimit => exact .spent hnew hask hlimit
        case isFalse hlimit => exact .found hnew hask (Int.not_le.mp hlimit) rfl

/-! ## What the walk keeps -/

/-- What every visit keeps, the visits of a level keep. -/
theorem visitLevel_preserves {I : Tree σ → Prop}
    (hstep : ∀ {path tree visit}, Visits s path tree visit → I tree → I visit.tree)
    (level next : List Path) (tree : Tree σ) (hI : I tree) :
    I (s.visitLevel level next tree).2 := by
  fun_induction s.visitLevel level next tree with
  | case1 next tree => exact hI
  | case2 path level next tree tree' hvisit ih =>
      exact ih (hstep (visits_of_visit hvisit) hI)
  | case3 path level next tree core tree' hvisit ih =>
      exact ih (hstep (visits_of_visit hvisit) hI)
  | case4 path level next tree tree' hvisit =>
      exact hstep (visits_of_visit hvisit) hI

/-- What every visit keeps, the walk over the levels keeps. -/
theorem walkLevels_preserves {I : Tree σ → Prop}
    (hstep : ∀ {path tree visit}, Visits s path tree visit → I tree → I visit.tree)
    (n : Nat) (level : List Path) (tree : Tree σ) (hI : I tree) :
    I (s.walkLevels n level tree).2 := by
  fun_induction s.walkLevels n level tree with
  | case1 n tree => exact hI
  | case2 path level tree => exact hI
  | case3 n path level tree next tree' hlevel ih =>
      have hkept := visitLevel_preserves hstep (path :: level) [] tree hI
      rw [hlevel] at hkept
      exact ih hkept
  | case4 n path level tree tree' hlevel =>
      have hkept := visitLevel_preserves hstep (path :: level) [] tree hI
      rwa [hlevel] at hkept

/-- What every visit keeps, the walk keeps. -/
theorem walk_preserves {I : Tree σ → Prop}
    (hstep : ∀ {path tree visit}, Visits s path tree visit → I tree → I visit.tree)
    (tree : Tree σ) (hI : I tree) : I (s.walk tree).2 :=
  walkLevels_preserves hstep _ _ tree hI

/-- A visit adds cores at the end. -/
theorem Visits.keeps_cores {path : Path} {tree : Tree σ} {visit : Visit σ}
    (h : Visits s path tree visit) : tree.cores <+: visit.tree.cores := by
  cases h with
  | found => exact List.prefix_append _ _
  | _ => exact List.prefix_rfl

/-- A level adds cores at the end. -/
theorem visitLevel_keeps_cores {level next : List Path} {tree tree' : Tree σ}
    {result : Option (List Path)} (h : s.visitLevel level next tree = (result, tree')) :
    tree.cores <+: tree'.cores := by
  have hkept := visitLevel_preserves (s := s) (I := fun reached ↦ tree.cores <+: reached.cores)
    (fun hvisit hkept ↦ hkept.trans hvisit.keeps_cores) level next tree List.prefix_rfl
  rwa [h] at hkept

/-- The walk over the levels adds cores at the end. -/
theorem walkLevels_keeps_cores {n : Nat} {level : List Path} {tree tree' : Tree σ}
    {finished : Bool} (h : s.walkLevels n level tree = (finished, tree')) :
    tree.cores <+: tree'.cores := by
  have hkept := walkLevels_preserves (s := s) (I := fun reached ↦ tree.cores <+: reached.cores)
    (fun hvisit hkept ↦ hkept.trans hvisit.keeps_cores) n level tree List.prefix_rfl
  rwa [h] at hkept

/-- The walk adds cores at the end. -/
theorem walk_keeps_cores {tree tree' : Tree σ} {finished : Bool}
    (h : s.walk tree = (finished, tree')) : tree.cores <+: tree'.cores :=
  walkLevels_keeps_cores h

/-- A search that is complete after a visit was complete before. -/
theorem Visits.complete_of {path : Path} {tree : Tree σ} {visit : Visit σ}
    (h : Visits s path tree visit) (hcomplete : visit.tree.progress.complete = true) :
    tree.progress.complete = true := by
  cases h with
  | pruned => exact hcomplete
  | reused => exact hcomplete
  | satisfied hnew hask => exact ask_complete hask ▸ hcomplete
  | gaveUp hnew hask => exact ask_complete hask ▸ hcomplete
  | spent hnew hask hlimit => exact ask_complete hask ▸ hcomplete
  | found hnew hask hlimit hshrink =>
      rw [← ask_complete hask]
      apply complete_of_shrink
      rw [hshrink]
      exact hcomplete

/-- A core that comes with the answer at a node is made of premises that the path leaves. -/
theorem shrink_sublist_without {path : Path} {core least : List Nat} {p p' p'' : Progress σ}
    (hask : s.ask (s.frame.without path) p = (.unsat core, p'))
    (hshrink : s.shrink core p' = (least, p'')) : least.Sublist (s.frame.without path) := by
  have hleast := shrink_sublist (s := s) core p'
  rw [hshrink] at hleast
  exact hleast.trans (ask_core_sublist hask)

end Search

/-! ## Invariants of the tree -/

/-- The cores are tracked premises, and no core contains one that was found before it. This is so
whatever the solver answers. -/
structure Tree.Listed (frame : Frame) (tree : Tree σ) : Prop where
  tracked : ∀ core ∈ tree.cores, core.Sublist frame.tracked
  distinct : tree.cores.Pairwise fun earlier later => ¬ earlier ⊆ later

/-- The cores are cores and, in a complete search, minimal ones; what a closed path leaves is
satisfiable. -/
structure Tree.Sound (holds : W → Nat → Prop) (frame : Frame) (tree : Tree σ) : Prop where
  conflicting : ∀ core ∈ tree.cores, frame.Conflicting holds core
  minimal : tree.progress.complete = true → ∀ core ∈ tree.cores, frame.MinimalCore holds core
  closed : ∀ path ∈ tree.closed, ¬ frame.Conflicting holds (frame.without path)

namespace Search

/-- A visit keeps the cores tracked and distinct: a new core avoids a path that every earlier one
meets. -/
theorem Visits.listed {path : Path} {tree : Tree σ} {visit : Visit σ}
    (h : Visits s path tree visit) (htree : tree.Listed s.frame) : visit.tree.Listed s.frame := by
  cases h with
  | pruned | reused | satisfied | gaveUp | spent => exact ⟨htree.tracked, htree.distinct⟩
  | @found core least progress progress' hnew hask hlimit hshrink =>
      have hleast := shrink_sublist_without hask hshrink
      constructor
      · intro core' hcore'
        rcases List.mem_append.mp hcore' with hold | hlast
        · exact htree.tracked core' hold
        · rw [List.mem_singleton.mp hlast]
          exact hleast.trans List.filter_sublist
      · refine List.pairwise_append.mpr ⟨htree.distinct, List.pairwise_singleton _ _, ?_⟩
        intro earlier hearlier later hlater hsub
        -- The new core avoids the path, and the earlier one would then avoid it too.
        rw [List.mem_singleton] at hlater
        subst hlater
        apply hnew earlier hearlier
        exact fun i hi hpath ↦ (Frame.mem_without.mp (hleast.subset (hsub hi))).2 hpath

/-- With a sound solver a visit keeps the tree sound. -/
theorem Visits.sound (hsound : s.oracle.Sound holds s.frame.size) (hordered : s.frame.Ordered)
    {path : Path} {tree : Tree σ} {visit : Visit σ} (h : Visits s path tree visit)
    (htree : tree.Sound holds s.frame) : visit.tree.Sound holds s.frame := by
  have hcomplete := h.complete_of
  cases h with
  | pruned | reused => exact htree
  | gaveUp | spent =>
      exact ⟨htree.conflicting, fun hc ↦ htree.minimal (hcomplete hc), htree.closed⟩
  | satisfied hnew hask =>
      refine ⟨htree.conflicting, fun hc ↦ htree.minimal (hcomplete hc), ?_⟩
      intro closed hclosed
      rcases List.mem_append.mp hclosed with hold | hlast
      · exact htree.closed closed hold
      · rw [List.mem_singleton.mp hlast]
        exact ask_right hsound hask
  | @found core least progress progress' hnew hask hlimit hshrink =>
      obtain ⟨hcore, hconflict⟩ := ask_right hsound hask
      have hleast := shrink_conflicting hsound progress hconflict
      have hminimal := shrink_minimal hsound hordered (p := progress)
        (hcore.trans List.filter_sublist) hconflict
      rw [hshrink] at hleast hminimal
      refine ⟨fun core' hcore' ↦ ?_, fun hc core' hcore' ↦ ?_, htree.closed⟩
      · rcases List.mem_append.mp hcore' with hold | hlast
        · exact htree.conflicting core' hold
        · exact List.mem_singleton.mp hlast ▸ hleast
      · rcases List.mem_append.mp hcore' with hold | hlast
        · exact htree.minimal (hcomplete hc) core' hold
        · exact List.mem_singleton.mp hlast ▸ hminimal hc

/-! ## Completeness -/

/-- A path that avoids conflicting tracked premises does not close: the premises it leaves are
unsatisfiable. -/
theorem Visits.not_closes (hsound : s.oracle.Sound holds s.frame.size) {path : Path}
    {tree tree' : Tree σ} (h : Visits s path tree (.closes tree'))
    (htree : tree.Sound holds s.frame) {members : List Nat}
    (htracked : members.Sublist s.frame.tracked) (hconflict : s.frame.Conflicting holds members)
    (havoids : members.Disjoint path) : False := by
  cases h with
  | @pruned closed hclosed hsub =>
      apply htree.closed closed hclosed
      apply hconflict.mono
      exact Frame.subset_without htracked fun i hi hpath ↦ havoids hi (hsub hpath)
  | satisfied hnew hask =>
      apply ask_right hsound hask
      exact hconflict.mono (Frame.subset_without htracked havoids)

/-- The core that a node is expanded by is one of those found. -/
theorem Visits.mem_cores {path : Path} {tree tree' : Tree σ} {core : List Nat}
    (h : Visits s path tree (.expands core tree')) : core ∈ tree'.cores := by
  cases h with
  | reused hcore => exact hcore
  | found => exact List.mem_append_right _ (List.mem_singleton_self _)

/-- A node that a missing minimal core avoids has a child that it avoids too. -/
theorem Visits.child_avoiding {path : Path} {tree tree' : Tree σ} {core missing : List Nat}
    (h : Visits s path tree (.expands core tree')) (htree' : tree'.Listed s.frame)
    (hsound' : tree'.Sound holds s.frame) (hmissing : s.frame.MinimalCore holds missing)
    (hnot : missing ∉ tree'.cores) (havoids : missing.Disjoint path) (next : List Path) :
    ∃ child ∈ addChildren path core next, missing.Disjoint child := by
  have hcore := h.mem_cores
  -- The core cannot lie within the missing one, which is minimal and another one.
  obtain ⟨i, hi, hout⟩ : ∃ i ∈ core, i ∉ missing := by
    by_contra! hsub
    apply hnot
    rw [← hmissing.minimal core (htree'.tracked core hcore) (hsound'.conflicting core hcore) hsub]
    exact hcore
  refine ⟨insertAscending i path, mem_addChildren.mpr (.inr ⟨i, hi, rfl⟩), ?_⟩
  intro j hj hchild
  rcases mem_insertAscending.mp hchild with rfl | hpath
  · exact hout hj
  · exact havoids hj hpath

/-- If a missing minimal core avoids some path on a level, it avoids some path on the next one. -/
theorem visitLevel_avoiding (hsound : s.oracle.Sound holds s.frame.size)
    (hordered : s.frame.Ordered) {missing : List Nat} (hmissing : s.frame.MinimalCore holds missing)
    {level next next' : List Path} {tree tree' : Tree σ}
    (hlevel : s.visitLevel level next tree = (some next', tree'))
    (hlisted : tree.Listed s.frame) (htree : tree.Sound holds s.frame)
    (hnot : missing ∉ tree'.cores) (havoids : ∃ path ∈ level ++ next, missing.Disjoint path) :
    ∃ path ∈ next', missing.Disjoint path := by
  -- Paths move from the level to the next one, so the two are taken together.
  induction level generalizing next tree with
  | nil =>
      cases hlevel
      exact havoids
  | cons path level ih =>
      rw [visitLevel] at hlevel
      cases hvisit : s.visit path tree with
      | closes tree₁ =>
          rw [hvisit] at hlevel
          have hvisits := visits_of_visit hvisit
          refine ih hlevel (hvisits.listed hlisted) (hvisits.sound hsound hordered htree) ?_
          obtain ⟨other, hother, hdisjoint⟩ := havoids
          rcases List.mem_cons.mp hother with rfl | hother
          · exact (hvisits.not_closes hsound htree hmissing.tracked hmissing.conflicting
              hdisjoint).elim
          · exact ⟨other, hother, hdisjoint⟩
      | expands core tree₁ =>
          rw [hvisit] at hlevel
          have hvisits := visits_of_visit hvisit
          have hlisted₁ := hvisits.listed hlisted
          have htree₁ := hvisits.sound hsound hordered htree
          refine ih hlevel hlisted₁ htree₁ ?_
          -- Cores are never lost, so what is missing in the end is missing here.
          have hnot₁ : missing ∉ tree₁.cores :=
            fun hmem ↦ hnot ((visitLevel_keeps_cores hlevel).subset hmem)
          obtain ⟨other, hother, hdisjoint⟩ := havoids
          rcases List.mem_cons.mp hother with rfl | hother
          · obtain ⟨child, hchild, hdisjoint'⟩ :=
              hvisits.child_avoiding hlisted₁ htree₁ hmissing hnot₁ hdisjoint next
            exact ⟨child, List.mem_append_right _ hchild, hdisjoint'⟩
          · refine ⟨other, ?_, hdisjoint⟩
            rcases List.mem_append.mp hother with hlater | hnext
            · exact List.mem_append_left _ hlater
            · exact List.mem_append_right _ (mem_addChildren.mpr (.inl hnext))
      | stops tree₁ =>
          rw [hvisit] at hlevel
          cases hlevel

/-- A walk that comes to its end from a level with a path that a minimal core avoids has found
that core. -/
theorem mem_cores_of_walkLevels (hsound : s.oracle.Sound holds s.frame.size)
    (hordered : s.frame.Ordered) {core : List Nat} (hcore : s.frame.MinimalCore holds core)
    {n : Nat} {level : List Path} {tree tree' : Tree σ}
    (hwalk : s.walkLevels n level tree = (true, tree'))
    (hlisted : tree.Listed s.frame) (htree : tree.Sound holds s.frame)
    (havoids : ∃ path ∈ level, core.Disjoint path) : core ∈ tree'.cores := by
  induction n generalizing level tree with
  | zero =>
      -- Out of levels, the walk ends only where no path is left.
      cases level with
      | nil => simp at havoids
      | cons path level => cases hwalk
  | succ n ih =>
      cases level with
      | nil => simp at havoids
      | cons path level =>
          rw [walkLevels] at hwalk
          have hlisted₁ := visitLevel_preserves Visits.listed (path :: level) [] tree hlisted
          have htree₁ := visitLevel_preserves (Visits.sound hsound hordered) (path :: level) [] tree
            htree
          cases hlevel : s.visitLevel (path :: level) [] tree with
          | mk result tree₁ =>
              rw [hlevel] at hwalk hlisted₁ htree₁
              cases result with
              | none => cases hwalk
              | some next =>
                  by_contra hnot
                  have hnot₁ : core ∉ tree₁.cores :=
                    fun hmem ↦ hnot ((walkLevels_keeps_cores hwalk).subset hmem)
                  apply hnot
                  apply ih hwalk hlisted₁ htree₁
                  apply visitLevel_avoiding hsound hordered hcore hlevel hlisted htree hnot₁
                  simpa using havoids

/-- A walk that comes to its end has found every minimal core. -/
theorem mem_cores_of_walk (hsound : s.oracle.Sound holds s.frame.size)
    (hordered : s.frame.Ordered) {core : List Nat} (hcore : s.frame.MinimalCore holds core)
    {tree tree' : Tree σ} (hwalk : s.walk tree = (true, tree'))
    (hlisted : tree.Listed s.frame) (htree : tree.Sound holds s.frame) : core ∈ tree'.cores :=
  mem_cores_of_walkLevels hsound hordered hcore hwalk hlisted htree
    ⟨[], List.mem_singleton_self _, List.disjoint_nil_right _⟩

end Search

end Diagnosis.Cores
