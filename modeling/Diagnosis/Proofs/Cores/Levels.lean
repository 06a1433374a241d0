import Diagnosis.Proofs.Cores.Enumeration
import Mathlib.Data.List.Sort
import Mathlib.Data.List.Sublists

/-!
# The levels of the hitting-set tree

A level has every path once, and its paths are sets of tracked premises, as many in each as the
level is deep (`visitLevel_level`). So there are only finitely many paths, whatever the solver
answers, and the walk comes to an end of its own: `Walks` is the walk without a bound on the
levels, and the bound that `Search.walk` is given is never what ends it (`walks_walkLevels`).
-/

namespace Diagnosis.Cores

variable {σ : Type} {frame : Frame} {s : Search σ}

/-! ## Paths in order -/

/-- A new premise makes a path longer by one. -/
theorem length_insertAscending {i : Nat} {path : Path} (hi : i ∉ path) :
    (insertAscending i path).length = path.length + 1 := by
  induction path with
  | nil => rfl
  | cons j path ih =>
      obtain ⟨hne, hrest⟩ := List.ne_and_not_mem_of_not_mem_cons hi
      rw [insertAscending]
      split
      case isTrue => rfl
      case isFalse => rw [List.length_cons, ih hrest, List.length_cons]

/-- An ascending path stays ascending. -/
theorem pairwise_insertAscending {path : Path} (i : Nat) (hpath : path.Pairwise (· < ·)) :
    (insertAscending i path).Pairwise (· < ·) := by
  induction path with
  | nil => exact List.pairwise_singleton _ i
  | cons j path ih =>
      obtain ⟨hfirst, hrest⟩ := List.pairwise_cons.mp hpath
      rw [insertAscending]
      split
      case isTrue hlt =>
        refine List.pairwise_cons.mpr ⟨fun k hk ↦ ?_, hpath⟩
        rcases List.mem_cons.mp hk with rfl | hk
        · exact hlt
        · exact Nat.lt_trans hlt (hfirst k hk)
      case isFalse hnlt =>
        split
        case isTrue => exact hpath
        case isFalse hne =>
          refine List.pairwise_cons.mpr ⟨fun k hk ↦ ?_, ih hrest⟩
          rcases mem_insertAscending.mp hk with rfl | hk
          · omega
          · exact hfirst k hk

/-- Tracked premises are listed in ascending order. -/
theorem Frame.Ordered.pairwise (hordered : frame.Ordered) : frame.tracked.Pairwise (· < ·) :=
  List.pairwise_lt_range.sublist hordered

/-- A path that gives up one more tracked premise is a path of tracked premises. -/
theorem insertAscending_sublist (hordered : frame.Ordered) {i : Nat} {path : Path}
    (hpath : path.Sublist frame.tracked) (hi : i ∈ frame.tracked) :
    (insertAscending i path).Sublist frame.tracked := by
  have hascending := pairwise_insertAscending i (hordered.pairwise.sublist hpath)
  refine List.sublist_of_subperm_of_pairwise ?_ hascending hordered.pairwise
  refine List.subperm_of_subset (hascending.imp Nat.ne_of_lt) fun j hj ↦ ?_
  rcases mem_insertAscending.mp hj with rfl | hj
  · exact hi
  · exact hpath.subset hj

/-! ## Levels -/

/-- The paths of level `k`: each once, and each with `k` tracked premises. -/
structure Level (frame : Frame) (k : Nat) (paths : List Path) : Prop where
  nodup : paths.Nodup
  tracked : ∀ path ∈ paths, path.Sublist frame.tracked
  length : ∀ path ∈ paths, path.length = k

namespace Level

variable {k : Nat} {paths next : List Path}

/-- Before any node is visited the next level is empty. -/
theorem nil (frame : Frame) (k : Nat) : Level frame k [] :=
  ⟨List.nodup_nil, by simp, by simp⟩

/-- The first level has the path that gives up nothing. -/
theorem root (frame : Frame) : Level frame 0 [[]] :=
  ⟨List.nodup_singleton _, by simp, by simp⟩

/-- A part of a level. -/
theorem tail {path : Path} (h : Level frame k (path :: paths)) : Level frame k paths :=
  ⟨h.nodup.of_cons, fun other hother ↦ h.tracked other (List.mem_cons_of_mem _ hother),
    fun other hother ↦ h.length other (List.mem_cons_of_mem _ hother)⟩

/-- There are no more paths on a level than sets of so many tracked premises. -/
theorem length_le (h : Level frame k paths) : paths.length ≤ frame.tracked.length.choose k := by
  rw [← List.length_sublistsLen]
  refine (List.subperm_of_subset h.nodup fun path hpath ↦ ?_).length_le
  exact List.mem_sublistsLen.mpr ⟨h.tracked path hpath, h.length path hpath⟩

/-- A level that is deeper than there are tracked premises is empty. -/
theorem eq_nil (h : Level frame k paths) (hdeep : frame.tracked.length < k) : paths = [] := by
  rw [← List.length_eq_zero_iff, ← Nat.le_zero, ← Nat.choose_eq_zero_of_lt hdeep]
  exact h.length_le

/-- The children of a node belong to the next level if the core avoids the path. -/
theorem addChildren (hordered : frame.Ordered) (h : Level frame (k + 1) next) {path : Path}
    {core : List Nat} (hpath : path.Sublist frame.tracked) (hlength : path.length = k)
    (hcore : core ⊆ frame.tracked) (havoids : core.Disjoint path) :
    Level frame (k + 1) (Search.addChildren path core next) := by
  refine ⟨?_, fun child hchild ↦ ?_, fun child hchild ↦ ?_⟩
  · have hnodup := h.nodup
    clear h hcore havoids
    -- A child that is there already is not added again.
    induction core generalizing next with
    | nil => exact hnodup
    | cons i core ih =>
        apply ih
        dsimp only
        split
        case isTrue => exact hnodup
        case isFalse hnew =>
          rw [List.contains_iff_mem] at hnew
          refine List.nodup_append.mpr ⟨hnodup, List.nodup_singleton _, ?_⟩
          rintro child hchild _ hlast rfl
          exact hnew (List.mem_singleton.mp hlast ▸ hchild)
  · rcases Search.mem_addChildren.mp hchild with hold | ⟨i, hi, rfl⟩
    · exact h.tracked child hold
    · exact insertAscending_sublist hordered hpath (hcore hi)
  · rcases Search.mem_addChildren.mp hchild with hold | ⟨i, hi, rfl⟩
    · exact h.length child hold
    · rw [length_insertAscending fun hmem ↦ havoids hi hmem, hlength]

end Level

namespace Search

/-- The core that a node is expanded by consists of tracked premises that the path leaves. -/
theorem Visits.core_avoids {path : Path} {tree tree' : Tree σ} {core : List Nat}
    (h : Visits s path tree (.expands core tree')) (hlisted : tree.Listed s.frame) :
    core ⊆ s.frame.tracked ∧ core.Disjoint path := by
  cases h with
  | reused hcore havoids => exact ⟨(hlisted.tracked core hcore).subset, havoids⟩
  | found hnew hask hlimit hshrink =>
      have hleft := (shrink_sublist_without hask hshrink).subset
      exact ⟨fun i hi ↦ (Frame.mem_without.mp (hleft hi)).1,
        fun i hi hpath ↦ (Frame.mem_without.mp (hleft hi)).2 hpath⟩

/-- Visiting a level gathers the next one. -/
theorem visitLevel_level (hordered : s.frame.Ordered) {k : Nat} {level next next' : List Path}
    {tree tree' : Tree σ} (hlevel : Level s.frame k level) (hnext : Level s.frame (k + 1) next)
    (hlisted : tree.Listed s.frame) (h : s.visitLevel level next tree = (some next', tree')) :
    Level s.frame (k + 1) next' := by
  induction level generalizing next tree with
  | nil =>
      cases h
      exact hnext
  | cons path level ih =>
      rw [visitLevel] at h
      split at h
      case h_1 tree₁ hvisit =>
        exact ih hlevel.tail hnext ((visits_of_visit hvisit).listed hlisted) h
      case h_2 core tree₁ hvisit =>
        have hvisits := visits_of_visit hvisit
        obtain ⟨hcore, havoids⟩ := hvisits.core_avoids hlisted
        refine ih hlevel.tail (hnext.addChildren hordered ?_ ?_ hcore havoids)
          (hvisits.listed hlisted) h
        · exact hlevel.tracked path List.mem_cons_self
        · exact hlevel.length path List.mem_cons_self
      case h_3 => cases h

/-! ## The end of the walk -/

/-- A walk over the levels from the given one on, however deep they are, with the tree it ends
with. It comes to its end where no path is left. -/
inductive Walks (s : Search σ) : List Path → Tree σ → Bool → Tree σ → Prop where
  /-- No path is left. -/
  | ends {tree : Tree σ} : Walks s [] tree true tree
  /-- A node stops the walk. -/
  | stops {path : Path} {level : List Path} {tree tree' : Tree σ}
      (hlevel : s.visitLevel (path :: level) [] tree = (none, tree')) :
      Walks s (path :: level) tree false tree'
  /-- The walk goes on with the next level. -/
  | descends {path : Path} {level next : List Path} {tree tree' final : Tree σ} {finished : Bool}
      (hlevel : s.visitLevel (path :: level) [] tree = (some next, tree'))
      (hrest : Walks s next tree' finished final) : Walks s (path :: level) tree finished final

/-- Where there are fewer tracked premises than levels may be walked, the walk ends by itself. -/
theorem walks_walkLevels (hordered : s.frame.Ordered) {n k : Nat} {level : List Path}
    {tree : Tree σ} (hlevel : Level s.frame k level) (hlisted : tree.Listed s.frame)
    (hdeep : s.frame.tracked.length < k + n) :
    Walks s level tree (s.walkLevels n level tree).1 (s.walkLevels n level tree).2 := by
  induction n generalizing k level tree with
  | zero =>
      rw [hlevel.eq_nil hdeep]
      exact .ends
  | succ n ih =>
      cases level with
      | nil => exact .ends
      | cons path level =>
          rw [walkLevels]
          split
          case h_1 next tree' hvisit =>
            refine .descends hvisit (ih (k := k + 1) ?_ ?_ (by omega))
            · exact visitLevel_level hordered hlevel (.nil _ _) hlisted hvisit
            · have hkept := visitLevel_preserves Visits.listed (path :: level) [] tree hlisted
              rwa [hvisit] at hkept
          case h_2 tree' hvisit => exact .stops hvisit

/-- The walk ends by itself. -/
theorem walks_walk (hordered : s.frame.Ordered) {tree : Tree σ} (hlisted : tree.Listed s.frame) :
    Walks s [[]] tree (s.walk tree).1 (s.walk tree).2 :=
  walks_walkLevels hordered (.root _) hlisted (by omega)

/-- A level that is not visited to its end has a node that stops the walk. -/
theorem exists_stop_of_visitLevel {level next : List Path} {tree tree' : Tree σ}
    (h : s.visitLevel level next tree = (none, tree')) :
    ∃ path tree₁, Visits s path tree₁ (.stops tree') := by
  induction level generalizing next tree with
  | nil => cases h
  | cons path level ih =>
      rw [visitLevel] at h
      split at h
      case h_1 => exact ih h
      case h_2 => exact ih h
      case h_3 tree₁ hvisit =>
        cases h
        exact ⟨path, tree, visits_of_visit hvisit⟩

/-- A walk that does not come to its end was stopped at a node. -/
theorem Walks.exists_stop {level : List Path} {tree tree' : Tree σ}
    (h : Walks s level tree false tree') : ∃ path tree₁, Visits s path tree₁ (.stops tree') := by
  generalize hfinished : false = finished at h
  induction h with
  | ends => cases hfinished
  | stops hlevel => exact exists_stop_of_visitLevel hlevel
  | descends hlevel hrest ih => exact ih hfinished

end Search

end Diagnosis.Cores
