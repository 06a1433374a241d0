import Diagnosis.Proofs.Cores.Attempt

/-!
# Searches under larger budgets

Two searches that differ in their budgets alone go the same way until one of them is refused a
question or one core more. A search that is refused a core, or a question at a node of the tree,
stops there. A search that runs out of questions while it shrinks a core keeps what is left of that
core and walks on, but it can find nothing more (`CutShort`). So a search under smaller budgets ends
like the other one or falls behind it, and then its cores are the first ones of the other, the last
of them perhaps not shrunk as far (`run_under`). What the solver answers does not matter.
-/

namespace Diagnosis.Cores

variable {σ : Type}

/-- Budgets are compared one by one. -/
instance : LE Limits where
  le small large := small.checks ≤ large.checks ∧ small.refutations ≤ large.refutations

/-! ## Cores that another search extends -/

/-- The other search found the same cores first, except that it may have shrunk the last of them
further. -/
inductive Truncates : List (List Nat) → List (List Nat) → Prop where
  /-- The other search went on. -/
  | stopped {fewer more : List (List Nat)} (hmore : fewer <+: more) : Truncates fewer more
  /-- The other search shrunk the last core further, and may have gone on. -/
  | unshrunk {before more : List (List Nat)} {core least : List Nat}
      (hmore : before ++ [least] <+: more) (hsub : least.Sublist core) :
      Truncates (before ++ [core]) more

namespace Truncates

variable {fewer more further : List (List Nat)}

/-- What extends an extension is one. -/
theorem trans_prefix (h : Truncates fewer more) (hmore : more <+: further) :
    Truncates fewer further := by
  cases h with
  | stopped hfewer => exact .stopped (hfewer.trans hmore)
  | unshrunk hbefore hsub => exact .unshrunk (hbefore.trans hmore) hsub

/-- The other search found at least as many cores. -/
theorem length_le (h : Truncates fewer more) : fewer.length ≤ more.length := by
  cases h with
  | stopped hmore => exact hmore.length_le
  | unshrunk hmore hsub => simpa using hmore.length_le

/-- Before the last core both searches found the same ones. -/
theorem getElem?_eq (h : Truncates fewer more) {i : Nat} (hi : i + 1 < fewer.length) :
    more[i]? = fewer[i]? := by
  cases h with
  | stopped hmore =>
      obtain ⟨rest, rfl⟩ := hmore
      exact List.getElem?_append_left (by omega)
  | @unshrunk before more core least hmore hsub =>
      obtain ⟨rest, rfl⟩ := hmore
      have hbefore : i < before.length := by
        simp only [List.length_append, List.length_singleton] at hi
        omega
      rw [List.append_assoc, List.getElem?_append_left hbefore, List.getElem?_append_left hbefore]

/-- The last core contains the core that the other search found in its place. -/
theorem exists_last (h : Truncates fewer more) {core : List Nat}
    (hlast : fewer.getLast? = some core) :
    ∃ least, more[fewer.length - 1]? = some least ∧ least ⊆ core := by
  cases h with
  | stopped hmore =>
      obtain ⟨rest, rfl⟩ := hmore
      have hlt : fewer.length - 1 < fewer.length := by
        have hpos := List.length_pos_of_mem (List.mem_of_getLast? hlast)
        omega
      refine ⟨core, ?_, List.Subset.refl core⟩
      rw [List.getElem?_append_left hlt, ← List.getLast?_eq_getElem?, hlast]
  | @unshrunk before more core' least hmore hsub =>
      obtain ⟨rest, rfl⟩ := hmore
      rw [List.getLast?_concat, Option.some.injEq] at hlast
      subst hlast
      exact ⟨least, by simp, hsub.subset⟩

end Truncates

namespace Search

variable {s : Search σ} {small large : Limits}

/-- The search under other budgets. -/
def under (s : Search σ) (limits : Limits) : Search σ :=
  { s with limits }

/-! ## Questions that are refused -/

/-- All questions have been asked that the budget allows. -/
def Spent (s : Search σ) (p : Progress σ) : Prop :=
  s.limits.checks ≤ p.log.length

/-- A question was refused while a core was shrunk. -/
structure CutShort (s : Search σ) (p : Progress σ) : Prop where
  spent : s.Spent p
  incomplete : p.complete = false

/-- Without questions left there is no answer. -/
theorem ask_of_spent {p : Progress σ} (h : s.Spent p) (members : List Nat) :
    s.ask members p = (.unknown budgetReason, p) :=
  if_pos h

/-- A question that the smaller budget allows has the same answer under the larger one. -/
theorem ask_under (hle : small ≤ large) {p : Progress σ} (hroom : ¬ (s.under small).Spent p)
    (members : List Nat) : (s.under small).ask members p = (s.under large).ask members p := by
  have hroom' : ¬ (s.under large).Spent p :=
    fun hspent ↦ hroom (Int.le_trans hle.1 hspent)
  exact (if_neg hroom).trans (if_neg hroom').symm

/-! ## Shrinking -/

/-- Without questions left nothing is dropped. -/
theorem dropEach_of_spent (candidates members : List Nat) {p : Progress σ} (h : s.Spent p) :
    (s.dropEach candidates members p).1 = members ∧
      s.Spent (s.dropEach candidates members p).2 := by
  induction candidates generalizing p with
  | nil => exact ⟨rfl, h⟩
  | cons i rest ih =>
      rw [dropEach, ask_of_spent h]
      split
      · exact @ih { p with complete := false } h
      · exact ih h

/-- Shrinking goes the same way under both budgets, or it is cut short under the smaller one and
leaves at least what it leaves under the larger one. -/
theorem dropEach_under (hle : small ≤ large) (candidates members : List Nat) (p : Progress σ) :
    (s.under small).dropEach candidates members p = (s.under large).dropEach candidates members p ∨
      (s.under small).CutShort ((s.under small).dropEach candidates members p).2 ∧
        ((s.under large).dropEach candidates members p).1.Sublist
          ((s.under small).dropEach candidates members p).1 := by
  induction candidates generalizing members p with
  | nil => exact .inl rfl
  | cons i rest ih =>
      by_cases hi : members.contains i = true
      case neg =>
        simp only [dropEach, if_neg hi]
        exact ih members p
      case pos =>
        by_cases hspent : (s.under small).Spent p
        case neg =>
          simp only [dropEach, if_pos hi, ask_under hle hspent]
          -- Both got the same answer.
          cases (s.under large).ask (members.filter (· != i)) p with
          | mk answer p' =>
              cases answer with
              | sat | unsat | unknown => exact ih _ _
        case pos =>
          refine .inr ?_
          have hcut : (s.under small).dropEach (i :: rest) members p =
              (s.under small).dropEach rest members { p with complete := false } := by
            simp only [dropEach, if_pos hi, ask_of_spent hspent]
          obtain ⟨hmembers, hspent'⟩ := dropEach_of_spent rest members
            (p := { p with complete := false }) hspent
          rw [hcut, hmembers]
          refine ⟨⟨hspent', ?_⟩, dropEach_sublist _ _ _⟩
          rw [← Bool.not_eq_true]
          exact fun hcomplete ↦ Bool.false_ne_true (complete_of_dropEach _ _ _ hcomplete)

/-! ## The walk -/

/-- A search that was cut short finds nothing at a node. -/
theorem Visits.of_cutShort {path : Path} {tree : Tree σ} {visit : Visit σ}
    (h : Visits s path tree visit) (hcut : s.CutShort tree.progress) :
    visit.tree.cores = tree.cores ∧ s.CutShort visit.tree.progress := by
  cases h with
  | pruned | reused => exact ⟨rfl, hcut⟩
  | gaveUp hnew hask =>
      rw [ask_of_spent hcut.spent] at hask
      cases hask
      exact ⟨rfl, hcut⟩
  | satisfied hnew hask | spent hnew hask | found hnew hask =>
      rw [ask_of_spent hcut.spent] at hask
      cases hask

/-- A search that was cut short finds nothing on a level. -/
theorem visitLevel_of_cutShort (level next : List Path) {tree : Tree σ}
    (hcut : s.CutShort tree.progress) :
    (s.visitLevel level next tree).2.cores = tree.cores ∧
      s.CutShort (s.visitLevel level next tree).2.progress := by
  refine visitLevel_preserves
    (I := fun reached ↦ reached.cores = tree.cores ∧ s.CutShort reached.progress)
    (fun hvisit hreached ↦ ?_) level next tree ⟨rfl, hcut⟩
  obtain ⟨hcores, hcut'⟩ := hvisit.of_cutShort hreached.2
  exact ⟨hcores.trans hreached.1, hcut'⟩

/-- A search that was cut short finds nothing in the rest of the walk. -/
theorem walkLevels_of_cutShort (n : Nat) (level : List Path) {tree : Tree σ}
    (hcut : s.CutShort tree.progress) :
    (s.walkLevels n level tree).2.cores = tree.cores ∧
      s.CutShort (s.walkLevels n level tree).2.progress := by
  refine walkLevels_preserves
    (I := fun reached ↦ reached.cores = tree.cores ∧ s.CutShort reached.progress)
    (fun hvisit hreached ↦ ?_) n level tree ⟨rfl, hcut⟩
  obtain ⟨hcores, hcut'⟩ := hvisit.of_cutShort hreached.2
  exact ⟨hcores.trans hreached.1, hcut'⟩

/-- How the visits of one node under smaller and under larger budgets may differ. -/
inductive Parts (s : Search σ) (tree : Tree σ) : Visit σ → Visit σ → Prop where
  /-- Under the smaller budgets the walk stops. -/
  | stops {tree' : Tree σ} {other : Visit σ} (hcores : tree'.cores = tree.cores) :
      Parts s tree (.stops tree') other
  /-- Under the smaller budgets the new core is not shrunk as far. -/
  | expands {core least : List Nat} {tree' other : Tree σ} (hcut : s.CutShort tree'.progress)
      (hcores : tree'.cores = tree.cores ++ [core]) (hother : other.cores = tree.cores ++ [least])
      (hsub : least.Sublist core) : Parts s tree (.expands core tree') (.expands least other)

/-- The visits of a node are the same under both budgets or part in one of these ways. -/
theorem visit_under (hle : small ≤ large) (path : Path) (tree : Tree σ) :
    (s.under small).visit path tree = (s.under large).visit path tree ∨
      Parts (s.under small) tree ((s.under small).visit path tree)
        ((s.under large).visit path tree) := by
  unfold visit
  split
  case isTrue => exact .inl rfl
  case isFalse =>
    cases tree.cores.find? fun core => core.all fun i => !path.contains i with
    | some core => exact .inl rfl
    | none =>
        by_cases hspent : (s.under small).Spent tree.progress
        case pos =>
          simp only [ask_of_spent hspent]
          exact .inr (.stops rfl)
        case neg =>
          simp only [ask_under hle hspent]
          have hframe : (s.under large).frame = (s.under small).frame := rfl
          rw [hframe]
          cases (s.under large).ask ((s.under small).frame.tracked.filter fun i =>
              !path.contains i) tree.progress with
          | mk answer progress =>
              cases answer with
              | sat | unknown => exact .inl rfl
              | unsat core =>
                  dsimp only
                  by_cases hlimit : (s.under small).limits.refutations ≤ tree.cores.length
                  case pos =>
                    rw [if_pos hlimit]
                    exact .inr (.stops rfl)
                  case neg =>
                    have hlimit' : ¬ (s.under large).limits.refutations ≤ tree.cores.length :=
                      fun hreached ↦ hlimit (Int.le_trans hle.2 hreached)
                    rw [if_neg hlimit, if_neg hlimit']
                    rcases dropEach_under (s := s) hle core core progress with heq | ⟨hcut, hsub⟩
                    · rw [shrink, shrink, heq]
                      exact .inl rfl
                    · exact .inr (.expands hcut rfl rfl hsub)

/-- Under both budgets the visits of a level go the same way, or under the smaller ones the walk
stops or is cut short with cores that it has in common with the other one. -/
theorem visitLevel_under (hle : small ≤ large) (level next : List Path) (tree : Tree σ) :
    (s.under small).visitLevel level next tree = (s.under large).visitLevel level next tree ∨
      (((s.under small).visitLevel level next tree).1 = none ∨
          (s.under small).CutShort ((s.under small).visitLevel level next tree).2.progress) ∧
        Truncates ((s.under small).visitLevel level next tree).2.cores
          ((s.under large).visitLevel level next tree).2.cores := by
  induction level generalizing next tree with
  | nil => exact .inl rfl
  | cons path level ih =>
      -- Under the larger budgets no core is lost.
      have hkept : tree.cores <+: ((s.under large).visitLevel (path :: level) next tree).2.cores :=
        visitLevel_keeps_cores rfl
      rcases visit_under (s := s) hle path tree with heq | hparts
      · simp only [visitLevel, heq]
        cases (s.under large).visit path tree with
        | closes tree' => exact ih next tree'
        | expands core tree' => exact ih (addChildren path core next) tree'
        | stops tree' => exact .inl rfl
      · refine .inr ?_
        simp only [visitLevel] at hkept ⊢
        generalize (s.under small).visit path tree = visit at hparts ⊢
        generalize (s.under large).visit path tree = other at hparts hkept ⊢
        cases hparts with
        | stops hcores => exact ⟨.inl rfl, .stopped (hcores ▸ hkept)⟩
        | @expands core least tree' other hcut hcores hother hsub =>
            obtain ⟨hsame, hcut'⟩ := visitLevel_of_cutShort level (addChildren path core next) hcut
            refine ⟨.inr hcut', ?_⟩
            dsimp only
            rw [hsame, hcores]
            refine .unshrunk ?_ hsub
            exact hother ▸ visitLevel_keeps_cores rfl

/-- Under both budgets the walk goes the same way, or under the smaller ones it does not come to its
end or is cut short. -/
theorem walkLevels_under (hle : small ≤ large) (n : Nat) (level : List Path) (tree : Tree σ) :
    (s.under small).walkLevels n level tree = (s.under large).walkLevels n level tree ∨
      (((s.under small).walkLevels n level tree).1 = false ∨
          (s.under small).CutShort ((s.under small).walkLevels n level tree).2.progress) ∧
        Truncates ((s.under small).walkLevels n level tree).2.cores
          ((s.under large).walkLevels n level tree).2.cores := by
  induction n generalizing level tree with
  | zero =>
      cases level with
      | nil | cons => exact .inl rfl
  | succ n ih =>
      cases level with
      | nil => exact .inl rfl
      | cons path level =>
          have hkept : ((s.under large).visitLevel (path :: level) [] tree).2.cores <+:
              ((s.under large).walkLevels (n + 1) (path :: level) tree).2.cores := by
            rw [walkLevels]
            split
            case h_1 next tree' hlevel => exact hlevel ▸ walkLevels_keeps_cores rfl
            case h_2 tree' hlevel => exact hlevel ▸ List.prefix_rfl
          rcases visitLevel_under (s := s) hle (path :: level) [] tree with heq | ⟨hends, hcores⟩
          · simp only [walkLevels, heq]
            split
            case h_1 next tree' hlevel => exact ih next tree'
            case h_2 tree' hlevel => exact .inl rfl
          · refine .inr ?_
            have hcores' := hcores.trans_prefix hkept
            rw [walkLevels]
            split
            case h_1 next tree' hlevel =>
              rw [hlevel] at hends hcores'
              obtain ⟨hsame, hcut⟩ := walkLevels_of_cutShort n next (hends.resolve_left (by simp))
              exact ⟨.inr hcut, hsame ▸ hcores'⟩
            case h_2 tree' hlevel =>
              rw [hlevel] at hcores'
              exact ⟨.inl rfl, hcores'⟩

/-! ## Runs -/

/-- The tree that the walk starts from, once the solver has named a first core. -/
def firstTree (s : Search σ) (core : List Nat) (p : Progress σ) : Tree σ where
  cores := [(s.shrink core p).1]
  progress := (s.shrink core p).2

/-- From the first core on, the search goes the same way under both budgets, or under the smaller
ones it does not come to its end or is cut short. -/
theorem walk_firstTree_under (hle : small ≤ large) (core : List Nat) (p : Progress σ) :
    (s.under small).walk ((s.under small).firstTree core p) =
        (s.under large).walk ((s.under large).firstTree core p) ∨
      (((s.under small).walk ((s.under small).firstTree core p)).1 = false ∨
          (s.under small).CutShort
            ((s.under small).walk ((s.under small).firstTree core p)).2.progress) ∧
        Truncates ((s.under small).walk ((s.under small).firstTree core p)).2.cores
          ((s.under large).walk ((s.under large).firstTree core p)).2.cores := by
  rcases dropEach_under (s := s) hle core core p with heq | ⟨hcut, hsub⟩
  · have hfirst : (s.under small).firstTree core p = (s.under large).firstTree core p := by
      rw [firstTree, firstTree, shrink, shrink, heq]
    rw [hfirst]
    exact walkLevels_under hle _ [[]] _
  · have hstart : (s.under small).CutShort ((s.under small).firstTree core p).progress := hcut
    obtain ⟨hsame, hcut'⟩ := walkLevels_of_cutShort ((s.under small).frame.tracked.length + 1) [[]]
      hstart
    have hfirst : Truncates ([] ++ [((s.under small).shrink core p).1])
        ((s.under large).firstTree core p).cores := .unshrunk List.prefix_rfl hsub
    rw [walk, hsame]
    exact .inr ⟨.inr hcut', hfirst.trans_prefix (walk_keeps_cores (Prod.eta _).symm)⟩

/-- Under larger budgets a search tells the same, or what it told under the smaller ones was not
complete and its cores are extended. -/
theorem run_under (hle : small ≤ large) (start : σ) :
    ((s.under small).run start).1 = ((s.under large).run start).1 ∨
      ((s.under small).run start).1.complete = false ∧
        Truncates ((s.under small).run start).1.cores ((s.under large).run start).1.cores := by
  by_cases hspent : (s.under small).Spent { solver := start }
  case pos =>
    rw [run, ask_of_spent hspent]
    exact .inr ⟨rfl, .stopped List.nil_prefix⟩
  case neg =>
    have hframe : (s.under large).frame = (s.under small).frame := rfl
    unfold run
    rw [ask_under hle hspent, hframe]
    cases (s.under large).ask (s.under small).frame.tracked { solver := start } with
    | mk answer p =>
        cases answer with
        | sat | unknown => exact .inl rfl
        | unsat core =>
            rcases walk_firstTree_under (s := s) hle core p with heq | ⟨hends, hcores⟩
            · simp only [firstTree] at heq
              exact .inl (by simp only [heq])
            · refine .inr ⟨?_, hcores⟩
              rcases hends with hstopped | hcut
              · exact Bool.and_eq_false_iff.mpr (.inr hstopped)
              · exact Bool.and_eq_false_iff.mpr (.inl hcut.incomplete)

end Search

end Diagnosis.Cores
