import Diagnosis.Proofs.Problem.Refusals

/-!
# What grounding does not support

A statement can be grounded over a sort if it is closed and either has no quantifier or is universal
over the sort with a body that has none (`Groundable`). A well-formed description is refused exactly
if one of its statements cannot be grounded. The statements without quantifiers are looked at first,
so that the first open one among them is blamed and, where all are closed, the first quantified
statement that does not fit (`Blamed`). Components play no part in it (`ground_blames`).
-/

namespace Diagnosis.Formula

variable {sort : String} {f : Formula} {description : List Formula}

/-- The statement can be grounded over the sort: it is closed and has no quantifier, or it is
universal over the sort, with a body that has no quantifier and nothing free besides the
variable. -/
inductive Groundable (sort : String) : Formula → Prop where
  | plain {f : Formula} (hplain : f.containsQuantifier = false) (hclosed : f.isClosed = true) :
      Groundable sort f
  | universal {x : String} {body : Formula} (hplain : body.containsQuantifier = false)
      (hclosed : (univ x body sort).isClosed = true) : Groundable sort (univ x body sort)

/-- The statement has no quantifier, and a variable is free in it. -/
def OpenPlain (f : Formula) : Prop :=
  f.containsQuantifier = false ∧ f.isClosed = false

/-- The statement has a quantifier and cannot be grounded over the sort. -/
def Unfit (sort : String) (f : Formula) : Prop :=
  f.containsQuantifier = true ∧ ¬ f.Groundable sort

/-- The statement is the first open one without quantifiers or, where there is none, the first
quantified one that does not fit. -/
def Blamed (sort : String) (description : List Formula) (f : Formula) : Prop :=
  First OpenPlain description f ∨
    (∀ g ∈ description, ¬ g.OpenPlain) ∧ First (Unfit sort) description f

/-! ## Single statements -/

/-- A statement without quantifiers can be grounded if it is closed. -/
theorem groundable_iff_isClosed (hplain : f.containsQuantifier = false) :
    f.Groundable sort ↔ f.isClosed = true := by
  refine ⟨fun h ↦ ?_, .plain hplain⟩
  cases h with
  | plain _ hclosed => exact hclosed
  | universal _ hclosed => exact hclosed

/-- A closed universal statement with a plain body passes the check. -/
theorem checkGroundable_univ {x : String} {body : Formula}
    (hplain : body.containsQuantifier = false) (hclosed : (univ x body sort).isClosed = true) :
    (univ x body sort).checkGroundable sort = .ok () := by
  have huniversal : (univ x body sort).connective = some .universal := rfl
  have hsort : (univ x body sort).sort = some sort := rfl
  rw [checkGroundable, if_neg (not_not.mpr huniversal)]
  refine bind_eq_ok_iff.mpr ⟨body, rfl, ?_⟩
  rw [if_neg (Bool.eq_false_iff.mp hplain), if_neg (not_not.mpr hsort), if_pos hclosed]
  rfl

/-- The check of a quantified statement passes if the statement can be grounded. -/
theorem WellFormed.checkGroundable_eq_ok_iff (hf : f.WellFormed)
    (hquantified : f.containsQuantifier = true) :
    (∃ u, f.checkGroundable sort = .ok u) ↔ f.Groundable sort := by
  constructor
  · rintro ⟨u, h⟩
    obtain ⟨huniversal, ⟨body, hbody, hplain⟩, hsort, hclosed⟩ := checkGroundable_eq_ok h
    obtain ⟨x, body', sort', rfl, -⟩ := hf.eq_univ huniversal
    obtain rfl : body' = body := Except.ok.inj hbody
    obtain rfl : sort' = sort := Option.some.inj hsort
    exact .universal hplain hclosed
  · intro h
    cases h with
    | plain hplain _ => cases hplain.symm.trans hquantified
    | universal hplain hclosed => exact ⟨(), checkGroundable_univ hplain hclosed⟩

/-- Among the quantified statements the check fails at those that do not fit. -/
theorem WellFormed.checkGroundable_eq_error_iff (hf : f.WellFormed) :
    (f.containsQuantifier = true ∧ ∃ e, f.checkGroundable sort = .error e) ↔ f.Unfit sort := by
  refine and_congr_right fun hquantified ↦ ?_
  rw [exists_eq_error_iff, hf.checkGroundable_eq_ok_iff hquantified]

/-- Among the statements without quantifiers the check fails at those with a free variable. -/
theorem checkPlain_eq_error_iff {f : Formula} :
    (f.containsQuantifier = false ∧ ∃ e, f.checkPlain = .error e) ↔ f.OpenPlain := by
  refine and_congr_right fun _ ↦ ?_
  rw [exists_eq_error_iff, checkPlain]
  cases hclosed : f.isClosed with
  | true => simp
  | false => simp

/-! ## Descriptions -/

/-- One statement is to be blamed. -/
theorem Blamed.eq {g : Formula} (h : Blamed sort description f)
    (h' : Blamed sort description g) : f = g := by
  rcases h with h | ⟨hclosed, h⟩
  · rcases h' with h' | ⟨hclosed', _⟩
    · exact h.eq h'
    · exact absurd h.holds (hclosed' f h.mem)
  · rcases h' with h' | ⟨_, h'⟩
    · exact absurd h'.holds (hclosed g h'.mem)
    · exact h.eq h'

/-- The plain statements are tested up to the first open one. -/
theorem forM_checkPlain_eq_error_iff {e : Error} :
    (description.filter (!containsQuantifier ·)).forM checkPlain = .error e ↔
      ∃ f, First OpenPlain description f ∧ f.checkPlain = .error e := by
  rw [forM_eq_error_iff]
  refine exists_congr fun f ↦ and_congr_left' ?_
  rw [first_filter]
  refine first_congr fun g _ ↦ ?_
  rw [Bool.not_eq_true']
  exact checkPlain_eq_error_iff

/-- The quantified statements are instantiated up to the first one that does not fit. -/
theorem mapM_instances_eq_error_iff (hdescription : ∀ f ∈ description, f.WellFormed)
    (components : List String) {e : Error} :
    (description.filter containsQuantifier).mapM (instances sort components) = .error e ↔
      ∃ f, First (Unfit sort) description f ∧ f.checkGroundable sort = .error e := by
  have herror (f : Formula) (hf : f ∈ description) (e : Error) :
      f.instances sort components = .error e ↔ f.checkGroundable sort = .error e :=
    (hdescription f hf).instances_eq_error_iff components
  have hfirst (f : Formula) : First (fun f ↦ ∃ e, f.instances sort components = .error e)
      (description.filter containsQuantifier) f ↔ First (Unfit sort) description f := by
    rw [first_filter]
    refine first_congr fun g hg ↦ ?_
    rw [← (hdescription g hg).checkGroundable_eq_error_iff]
    exact and_congr_right' (exists_congr (herror g hg))
  rw [mapM_eq_error_iff]
  refine exists_congr fun f ↦ ?_
  rw [hfirst]
  exact and_congr_right fun h ↦ herror f h.mem e

/-- The plain statements pass if none of them is open. -/
theorem exists_forM_checkPlain_eq_ok_iff :
    (∃ u, (description.filter (!containsQuantifier ·)).forM checkPlain = .ok u) ↔
      ∀ g ∈ description, ¬ g.OpenPlain := by
  rw [← not_iff_not, ← exists_eq_error_iff]
  simp only [forM_checkPlain_eq_error_iff]
  push Not
  rw [← exists_first_iff]
  constructor
  · rintro ⟨e, f, hfirst, _⟩
    exact ⟨f, hfirst⟩
  · rintro ⟨f, hfirst⟩
    obtain ⟨_, e, he⟩ := checkPlain_eq_error_iff.mpr hfirst.holds
    exact ⟨e, f, hfirst, he⟩

/-- The error of grounding is that of the first open statement without quantifiers or, where there
is none, that of the first quantified statement that does not fit. -/
theorem ground_eq_error_iff (hdescription : ∀ f ∈ description, f.WellFormed)
    (components : List String) {e : Error} :
    ground description components sort = .error e ↔
      (∃ f, First OpenPlain description f ∧ f.checkPlain = .error e) ∨
      (∀ g ∈ description, ¬ g.OpenPlain) ∧
        ∃ f, First (Unfit sort) description f ∧ f.checkGroundable sort = .error e := by
  simp only [ground, partitionStatements, List.partition_eq_filter_filter]
  rw [bind_eq_error_iff]
  refine or_congr forM_checkPlain_eq_error_iff ?_
  rw [← exists_forM_checkPlain_eq_ok_iff, ← mapM_instances_eq_error_iff hdescription components,
    ← exists_and_right]
  refine exists_congr fun u ↦ and_congr_right fun _ ↦ ?_
  rw [bind_eq_error_iff]
  refine or_iff_left ?_
  rintro ⟨fss, _, h⟩
  cases h

/-- Some statement is blamed if some statement cannot be grounded. -/
theorem exists_blamed_iff :
    (∃ f, Blamed sort description f) ↔ ∃ f ∈ description, ¬ f.Groundable sort := by
  simp only [Blamed, exists_or, exists_and_left, exists_first_iff]
  constructor
  · rintro (⟨f, hf, hplain, hopen⟩ | ⟨_, f, hf, _, hunfit⟩)
    · refine ⟨f, hf, ?_⟩
      rw [groundable_iff_isClosed hplain, hopen]
      exact Bool.false_ne_true
    · exact ⟨f, hf, hunfit⟩
  · rintro ⟨f, hf, hunfit⟩
    by_cases hopen : ∃ g ∈ description, g.OpenPlain
    · exact .inl hopen
    · push Not at hopen
      refine .inr ⟨hopen, f, hf, ?_, hunfit⟩
      -- Without a quantifier the statement would be open.
      by_contra hplain
      rw [Bool.not_eq_true] at hplain
      rw [groundable_iff_isClosed hplain, Bool.not_eq_true] at hunfit
      exact hopen f hf ⟨hplain, hunfit⟩

/-- The error of grounding blames the statement that is to be blamed. -/
theorem exists_blamed_of_ground_eq_error (hdescription : ∀ f ∈ description, f.WellFormed)
    {components : List String} {e : Error} (h : ground description components sort = .error e) :
    ∃ f, Blamed sort description f ∧ e.Blames f := by
  rcases (ground_eq_error_iff hdescription components).mp h with
    ⟨f, hfirst, he⟩ | ⟨hclosed, f, hfirst, he⟩
  · exact ⟨f, .inl hfirst, (hdescription f hfirst.mem).checkPlain_failsOnly e he⟩
  · exact ⟨f, .inr ⟨hclosed, hfirst⟩,
      (hdescription f hfirst.mem).checkGroundable_failsOnly e he⟩

/-- Where a statement is to be blamed, grounding fails. -/
theorem exists_ground_eq_error (hdescription : ∀ f ∈ description, f.WellFormed)
    (components : List String) (h : Blamed sort description f) :
    ∃ e, ground description components sort = .error e := by
  simp only [ground_eq_error_iff hdescription components]
  rcases h with hfirst | ⟨hclosed, hfirst⟩
  · obtain ⟨_, e, he⟩ := checkPlain_eq_error_iff.mpr hfirst.holds
    exact ⟨e, .inl ⟨f, hfirst, he⟩⟩
  · obtain ⟨_, e, he⟩ :=
      (hdescription f hfirst.mem).checkGroundable_eq_error_iff.mpr hfirst.holds
    exact ⟨e, .inr ⟨hclosed, f, hfirst, he⟩⟩

/-- Grounding a well-formed description blames a statement exactly if some statement is neither
closed without quantifiers nor a closed universal over the sort with a plain body. It has no other
errors, the statement is the first open one without quantifiers or else the first quantified one
that does not fit, and with any other components the error is the same. -/
theorem ground_blames (hdescription : ∀ f ∈ description, f.WellFormed) (sort : String) :
    (∀ components : List String,
      (∃ defect f written,
        ground description components sort = .error (.ungroundable defect f written)) ↔
          ∃ f ∈ description, ¬ f.Groundable sort) ∧
    ∀ (components : List String) (e : Error), ground description components sort = .error e →
      (∃ defect f written, e = .ungroundable defect f written ∧ Blamed sort description f) ∧
        ∀ others, ground description others sort = .error e := by
  refine ⟨fun components ↦ ?_, fun components e h ↦ ⟨?_, fun others ↦ ?_⟩⟩
  · rw [← exists_blamed_iff]
    constructor
    · rintro ⟨defect, f, written, h⟩
      obtain ⟨g, hblamed, _⟩ := exists_blamed_of_ground_eq_error hdescription h
      exact ⟨g, hblamed⟩
    · rintro ⟨f, hblamed⟩
      obtain ⟨e, h⟩ := exists_ground_eq_error hdescription components hblamed
      obtain ⟨g, _, defect, written, rfl⟩ := exists_blamed_of_ground_eq_error hdescription h
      exact ⟨defect, g, written, h⟩
  · obtain ⟨f, hblamed, defect, written, rfl⟩ := exists_blamed_of_ground_eq_error hdescription h
    exact ⟨defect, f, written, rfl, hblamed⟩
  · rw [ground_eq_error_iff hdescription] at h ⊢
    exact h

/-- A statement about all components that does not fit, for its body has a quantifier of the same
variable, followed by two open statements. -/
def unsupportedDescription : List Formula :=
  [univ "?x" (imp (atom "on" ["?x"]) (exist "?x" (atom "next" ["?x"]))), atom "on" ["a", "?y"],
    atom "on" ["?z"]]

/-- The first open statement is blamed, with any components and with none. -/
theorem unsupportedDescription_blamed :
    (∀ f ∈ unsupportedDescription, f.WellFormed) ∧
    (¬ (atom "on" ["a", "?y"]).Groundable componentSort) ∧
    ∃ defect written, ∀ components, ground unsupportedDescription components componentSort =
      .error (.ungroundable defect (atom "on" ["a", "?y"]) written) := by
  have hdescription : ∀ f ∈ unsupportedDescription, f.WellFormed := by
    simp only [unsupportedDescription, List.forall_mem_cons]
    exact ⟨.univ (.imp (.atom _) (.exist (.atom _))), .atom _, .atom _, by simp⟩
  have hopen : (atom "on" ["a", "?y"]).OpenPlain := ⟨by decide, by decide⟩
  have hunfit : ¬ (atom "on" ["a", "?y"]).Groundable componentSort := by
    rw [groundable_iff_isClosed hopen.1, hopen.2]
    exact Bool.false_ne_true
  have hblamed : Blamed componentSort unsupportedDescription (atom "on" ["a", "?y"]) :=
    .inl (.later (fun h ↦ absurd h.1 (by decide)) (.here hopen))
  obtain ⟨hraises, hblames⟩ := ground_blames hdescription componentSort
  obtain ⟨defect, f, written, h⟩ := (hraises []).mpr
    ⟨atom "on" ["a", "?y"], by simp [unsupportedDescription], hunfit⟩
  obtain ⟨⟨defect', f', written', he, hblamed'⟩, hothers⟩ := hblames [] _ h
  obtain ⟨rfl, rfl, rfl⟩ := Error.ungroundable.inj he
  obtain rfl := hblamed'.eq hblamed
  exact ⟨hdescription, hunfit, defect, written, hothers⟩

end Diagnosis.Formula
