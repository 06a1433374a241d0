import Diagnosis.Proofs.Cores.Exactness

/-!
# The tree closes at the minimal hitting sets

A path hits the minimal cores if it has a member of each of them. What it leaves is then
satisfiable, and only then (`Frame.hits_iff`). The walk closes a path only if it is a minimal one of
this kind, and none of them twice.

`Stage` is what holds between two visits. Every minimal hitting set that is not closed has a path
below it that is still to be visited: a node with a minimal hitting set above it is expanded by a
core, and the set has a member of that core. All paths to be visited are at least as long as the one
at hand, so a path that closes has no smaller one below it, and closing it is no loss.
-/

namespace Diagnosis.Cores

variable {W : Type*} {holds : W → Nat → Prop} {σ : Type} {s : Search σ}

/-! ## Hitting sets -/

namespace Frame

variable {frame : Frame} {path larger members part : List Nat}

/-- Tracked premises that are not fewer than those they lie within are all of them. -/
theorem Ordered.eq_of_subset (hordered : frame.Ordered) (hpart : part.Sublist frame.tracked)
    (hmembers : members.Sublist frame.tracked) (hsub : part ⊆ members)
    (hlength : members.length ≤ part.length) : part = members := by
  have hnodup : part.Nodup := (hordered.pairwise.sublist hpart).imp Nat.ne_of_lt
  have hperm := (List.subperm_of_subset hnodup hsub).perm_of_length_le hlength
  exact hordered.ext hpart hmembers fun i ↦ hperm.mem_iff

variable (holds) in
/-- The path has a member of every minimal core. -/
def Hits (frame : Frame) (path : Path) : Prop :=
  ∀ core, frame.MinimalCore holds core → ¬ core.Disjoint path

variable (holds) in
/-- The path is a minimal set of tracked premises that has a member of every minimal core. -/
structure MinimalHit (frame : Frame) (path : Path) : Prop where
  tracked : path.Sublist frame.tracked
  hits : frame.Hits holds path
  minimal : ∀ part : List Nat, part.Sublist frame.tracked → frame.Hits holds part →
    part ⊆ path → part = path

/-- A path hits the minimal cores if and only if what it leaves is satisfiable. -/
theorem hits_iff (hordered : frame.Ordered) :
    frame.Hits holds path ↔ ¬ frame.Conflicting holds (frame.without path) := by
  constructor
  · intro hhits hconflict
    obtain ⟨core, hcore, hsub⟩ := hconflict.exists_minimalCore hordered List.filter_sublist
    exact hhits core hcore fun i hi hpath ↦ (mem_without.mp (hsub hi)).2 hpath
  · intro hconsistent core hcore havoids
    exact hconsistent (hcore.conflicting.mono (subset_without hcore.tracked havoids))

/-- A path that hits the minimal cores hits everything that conflicts. -/
theorem Hits.exists_mem (h : frame.Hits holds path) (hordered : frame.Ordered)
    (htracked : members.Sublist frame.tracked) (hconflict : frame.Conflicting holds members) :
    ∃ i ∈ members, i ∈ path := by
  by_contra! havoids
  exact (hits_iff hordered).mp h (hconflict.mono (subset_without htracked havoids))

/-- A path that hits the minimal cores contains a minimal one that does. -/
theorem Hits.exists_minimalHit (h : frame.Hits holds path) (hordered : frame.Ordered)
    (htracked : path.Sublist frame.tracked) : ∃ hit, frame.MinimalHit holds hit ∧ hit ⊆ path := by
  induction hlength : path.length using Nat.strong_induction_on generalizing path with
  | _ n ih =>
      by_cases hminimal : ∀ part : List Nat, part.Sublist frame.tracked →
        frame.Hits holds part → part ⊆ path → part = path
      case pos => exact ⟨path, ⟨htracked, h, hminimal⟩, List.Subset.refl path⟩
      case neg =>
        push Not at hminimal
        obtain ⟨part, hpart, hhits, hsub, hne⟩ := hminimal
        have hfewer : part.length < n := by
          by_contra hmany
          exact hne (hordered.eq_of_subset hpart htracked hsub (by omega))
        obtain ⟨hit, hhit, hwithin⟩ := ih _ hfewer hhits hpart rfl
        exact ⟨hit, hhit, List.Subset.trans hwithin hsub⟩

end Frame

/-! ## What holds between two visits -/

/-- The closed paths are minimal hitting sets, and none of them is closed twice. -/
structure Tree.Exact (holds : W → Nat → Prop) (frame : Frame) (tree : Tree σ) : Prop where
  nodup : tree.closed.Nodup
  minimal : ∀ path ∈ tree.closed, frame.MinimalHit holds path

/-- Only the closed paths matter. -/
theorem Tree.Exact.of_closed {frame : Frame} {tree tree' : Tree σ} (h : tree.Exact holds frame)
    (hclosed : tree'.closed = tree.closed) : tree'.Exact holds frame :=
  ⟨hclosed ▸ h.nodup, hclosed ▸ h.minimal⟩

/-- One more minimal hitting set is closed. -/
theorem Tree.Exact.close {frame : Frame} {tree : Tree σ} {path : Path} {progress : Progress σ}
    (h : tree.Exact holds frame) (hminimal : frame.MinimalHit holds path)
    (hnew : path ∉ tree.closed) :
    Tree.Exact holds frame { tree with closed := tree.closed ++ [path], progress } := by
  refine ⟨List.nodup_append.mpr ⟨h.nodup, List.nodup_singleton _, ?_⟩, fun closed hclosed ↦ ?_⟩
  · intro closed hclosed last hlast heq
    exact hnew (List.mem_singleton.mp hlast ▸ heq ▸ hclosed)
  · rcases List.mem_append.mp hclosed with hold | hlast
    · exact h.minimal closed hold
    · exact List.mem_singleton.mp hlast ▸ hminimal

/-- Every minimal hitting set is closed or has one of the paths below it. -/
def Tree.Covers (holds : W → Nat → Prop) (frame : Frame) (tree : Tree σ) (paths : List Path) :
    Prop :=
  ∀ hit, frame.MinimalHit holds hit → hit ∈ tree.closed ∨ ∃ path ∈ paths, path ⊆ hit

/-- A part of level `k` is left to be visited, and the paths of the next level that the other part
led to are gathered. No minimal hitting set is lost sight of. -/
structure Stage (holds : W → Nat → Prop) (frame : Frame) (k : Nat) (level next : List Path)
    (tree : Tree σ) : Prop where
  left : Level frame k level
  gathered : Level frame (k + 1) next
  listed : tree.Listed frame
  sound : tree.Sound holds frame
  exact : tree.Exact holds frame
  covers : tree.Covers holds frame (level ++ next)

namespace Search

/-- A path that contains a closed one is pruned. -/
theorem visit_of_closed {path closed : Path} {tree : Tree σ} (hclosed : closed ∈ tree.closed)
    (hsub : closed ⊆ path) : s.visit path tree = .closes tree := by
  rw [visit, if_pos]
  refine List.any_eq_true.mpr ⟨closed, hclosed, List.all_eq_true.mpr fun i hi ↦ ?_⟩
  exact List.contains_iff_mem.mpr (hsub hi)

/-- A path that is closed contains no path that was closed before. -/
theorem not_subset_of_visit {path closed : Path} {tree : Tree σ} {progress : Progress σ}
    (h : s.visit path tree = .closes { tree with closed := tree.closed ++ [path], progress })
    (hclosed : closed ∈ tree.closed) : ¬ closed ⊆ path := by
  intro hsub
  rw [visit_of_closed hclosed hsub] at h
  injection h with htree
  have hlength := congrArg (fun tree ↦ tree.closed.length) htree
  simp at hlength

/-- A node that is expanded closes no path. -/
theorem Visits.closed_of_expands {path : Path} {tree tree' : Tree σ} {core : List Nat}
    (h : Visits s path tree (.expands core tree')) : tree'.closed = tree.closed := by
  cases h <;> rfl

/-- A node that stops the walk closes no path. -/
theorem Visits.closed_of_stops {path : Path} {tree tree' : Tree σ}
    (h : Visits s path tree (.stops tree')) : tree'.closed = tree.closed := by
  cases h <;> rfl

/-- A node below a path that hits the minimal cores has a child below it: the core conflicts, so one
of its members belongs to the path. -/
theorem Visits.child_below {path hit : Path} {tree tree' : Tree σ} {core : List Nat}
    (h : Visits s path tree (.expands core tree')) (hordered : s.frame.Ordered)
    (hlisted : tree'.Listed s.frame) (hsound : tree'.Sound holds s.frame)
    (hhits : s.frame.Hits holds hit) (hbelow : path ⊆ hit) (next : List Path) :
    ∃ child ∈ addChildren path core next, child ⊆ hit := by
  have hcore := h.mem_cores
  obtain ⟨i, hi, hmem⟩ := hhits.exists_mem hordered (hlisted.tracked core hcore)
    (hsound.conflicting core hcore)
  refine ⟨insertAscending i path, mem_addChildren.mpr (.inr ⟨i, hi, rfl⟩), fun j hj ↦ ?_⟩
  rcases mem_insertAscending.mp hj with rfl | hj
  · exact hmem
  · exact hbelow hj

end Search

namespace Stage

open Search

variable {k : Nat} {path : Path} {level next : List Path} {tree tree' : Tree σ}

/-- The paths to be visited are tracked premises, and none is shorter than the first one. -/
theorem tracked_length (h : Stage holds s.frame k (path :: level) next tree) {other : Path}
    (hother : other ∈ path :: level ++ next) :
    other.Sublist s.frame.tracked ∧ path.length ≤ other.length := by
  rw [h.left.length path List.mem_cons_self]
  rcases List.mem_append.mp hother with hleft | hgathered
  · exact ⟨h.left.tracked other hleft, (h.left.length other hleft).ge⟩
  · refine ⟨h.gathered.tracked other hgathered, ?_⟩
    rw [h.gathered.length other hgathered]
    exact Nat.le_succ k

/-- A path that hits the minimal cores and contains no closed one is a minimal hitting set. -/
theorem minimalHit (h : Stage holds s.frame k (path :: level) next tree)
    (hordered : s.frame.Ordered) (hnew : ∀ closed ∈ tree.closed, ¬ closed ⊆ path)
    (hhits : s.frame.Hits holds path) : s.frame.MinimalHit holds path := by
  have htracked := h.left.tracked path List.mem_cons_self
  obtain ⟨hit, hhit, hsub⟩ := hhits.exists_minimalHit hordered htracked
  rcases h.covers hit hhit with hclosed | ⟨other, hother, hbelow⟩
  · exact absurd hsub (hnew hit hclosed)
  · -- The path below the hitting set lies within this one and is not shorter.
    obtain ⟨hother, hlength⟩ := h.tracked_length hother
    obtain rfl := hordered.eq_of_subset hother htracked (List.Subset.trans hbelow hsub) hlength
    rwa [hhit.minimal other htracked hhits hbelow]

/-- Where a minimal hitting set is closed that lies within the first path, no other one lies above
this path, and it need not be covered any more. -/
theorem covers_closed (h : Stage holds s.frame k (path :: level) next tree)
    (hkept : tree.closed ⊆ tree'.closed) {closed : Path} (hclosed : closed ∈ tree'.closed)
    (hminimal : s.frame.MinimalHit holds closed) (hsub : closed ⊆ path) :
    tree'.Covers holds s.frame (level ++ next) := by
  intro hit hhit
  rcases h.covers hit hhit with hold | ⟨other, hother, hbelow⟩
  · exact .inl (hkept hold)
  rcases List.mem_cons.mp hother with rfl | hother
  · have heq := hhit.minimal closed hminimal.tracked hminimal.hits (List.Subset.trans hsub hbelow)
    exact .inl (heq ▸ hclosed)
  · exact .inr ⟨other, hother, hbelow⟩

/-- The stage at the end of a level, from where the walk turns to the next one. -/
theorem turns (h : Stage holds s.frame k [] next tree) :
    Stage holds s.frame (k + 1) next [] tree where
  left := h.gathered
  gathered := .nil _ _
  listed := h.listed
  sound := h.sound
  exact := h.exact
  covers := by simpa using h.covers

variable (hsound : s.oracle.Sound holds s.frame.size) (hordered : s.frame.Ordered)

include hsound hordered

/-- The stage after a path has closed. -/
theorem closes (h : Stage holds s.frame k (path :: level) next tree)
    (hvisit : s.visit path tree = .closes tree') : Stage holds s.frame k level next tree' := by
  have hvisits := visits_of_visit hvisit
  have hlisted := hvisits.listed h.listed
  have htree := hvisits.sound hsound hordered h.sound
  cases hvisits with
  | pruned hclosed hsub =>
      exact ⟨h.left.tail, h.gathered, hlisted, htree, h.exact,
        h.covers_closed (List.Subset.refl _) hclosed (h.exact.minimal _ hclosed) hsub⟩
  | satisfied _ hask =>
      have hnew : ∀ closed ∈ tree.closed, ¬ closed ⊆ path :=
        fun closed hclosed ↦ not_subset_of_visit hvisit hclosed
      have hhits := (Frame.hits_iff hordered).mpr (ask_right hsound hask)
      have hminimal := h.minimalHit hordered hnew hhits
      have hfresh : path ∉ tree.closed := fun hclosed ↦ hnew path hclosed (List.Subset.refl path)
      refine ⟨h.left.tail, h.gathered, hlisted, htree, h.exact.close hminimal hfresh, ?_⟩
      exact h.covers_closed (List.subset_append_left _ _)
        (List.mem_append_right _ (List.mem_singleton_self path)) hminimal (List.Subset.refl path)

/-- The stage after a node has been expanded. -/
theorem expands {core : List Nat} (h : Stage holds s.frame k (path :: level) next tree)
    (hvisit : s.visit path tree = .expands core tree') :
    Stage holds s.frame k level (addChildren path core next) tree' := by
  have hvisits := visits_of_visit hvisit
  have hlisted := hvisits.listed h.listed
  have htree := hvisits.sound hsound hordered h.sound
  have hclosed := hvisits.closed_of_expands
  obtain ⟨hcore, havoids⟩ := hvisits.core_avoids h.listed
  refine ⟨h.left.tail, h.gathered.addChildren hordered ?_ ?_ hcore havoids, hlisted, htree,
    h.exact.of_closed hclosed, fun hit hhit ↦ ?_⟩
  · exact h.left.tracked path List.mem_cons_self
  · exact h.left.length path List.mem_cons_self
  · rw [hclosed]
    rcases h.covers hit hhit with hold | ⟨other, hother, hbelow⟩
    · exact .inl hold
    rcases List.mem_cons.mp hother with rfl | hother
    · obtain ⟨child, hchild, hbelow'⟩ :=
        hvisits.child_below hordered hlisted htree hhit.hits hbelow next
      exact .inr ⟨child, List.mem_append_right _ hchild, hbelow'⟩
    · refine .inr ⟨other, ?_, hbelow⟩
      rcases List.mem_append.mp hother with hleft | hgathered
      · exact List.mem_append_left _ hleft
      · exact List.mem_append_right _ (mem_addChildren.mpr (.inl hgathered))

end Stage

end Diagnosis.Cores
