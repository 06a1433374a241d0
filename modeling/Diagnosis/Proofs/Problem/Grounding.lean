import Diagnosis.Problem.Grounding
import Diagnosis.Proofs.Formula.Substitution
import Diagnosis.Proofs.Results

/-!
# What grounding yields

What a description is grounded to has no quantifiers and no free variables, provided that the
components are constants (`ground_of_ground`). It says what the description says when quantifiers
range over the components (`holdsIn_ground`). Both together, with the number of the formulas and the
form of what is quantified, are the finite-domain reading of a description (`ground_reading`).
-/

namespace Diagnosis

namespace Formula

variable {sort : String} {statement : Formula}

/-- No statement is refused with a result. -/
@[simp] theorem ungroundable_ne_ok {α : Type} {defect : GroundingDefect} {a : α} :
    statement.ungroundable defect ≠ .ok a := by
  rw [ungroundable, ne_eq, bind_eq_ok_iff]
  rintro ⟨_, _, h⟩
  cases h

/-- What fits the grounding scheme is a universal statement over a plain body, closed and over the
expected sort. -/
theorem checkGroundable_eq_ok {u : Unit} (h : statement.checkGroundable sort = .ok u) :
    statement.connective = some .universal ∧
      (∃ f, statement.body = .ok f ∧ f.containsQuantifier = false) ∧
      statement.sort = some sort ∧ statement.isClosed = true := by
  unfold checkGroundable at h
  split at h
  case isTrue => exact absurd h ungroundable_ne_ok
  case isFalse huniversal =>
    obtain ⟨f, hbody, h⟩ := bind_eq_ok_iff.mp h
    rw [liftFault_eq_ok_iff] at hbody
    split at h
    case isTrue => exact absurd h ungroundable_ne_ok
    case isFalse hplain =>
      split at h
      case isTrue => exact absurd h ungroundable_ne_ok
      case isFalse hsort =>
        split at h
        case isTrue hclosed =>
          exact ⟨not_not.mp huniversal, ⟨f, hbody, Bool.not_eq_true _ ▸ hplain⟩, not_not.mp hsort,
            hclosed⟩
        case isFalse => exact absurd h ungroundable_ne_ok

/-- What passes as a plain statement is closed. -/
theorem checkPlain_eq_ok {u : Unit} (h : statement.checkPlain = .ok u) :
    statement.isClosed = true := by
  unfold checkPlain at h
  split at h
  case isTrue hclosed => exact hclosed
  case isFalse => exact absurd h ungroundable_ne_ok

/-- A well-formed universal statement quantifies a well-formed body. -/
theorem WellFormed.eq_univ (hf : statement.WellFormed)
    (huniversal : statement.connective = some .universal) :
    ∃ x f sort, statement = Formula.univ x f sort ∧ f.WellFormed := by
  cases hf with
  | univ body => exact ⟨_, _, _, rfl, body⟩
  | _ => cases huniversal

/-- The instances of a well-formed statement are its plain body with each component in the place of
the only variable that is free in it. -/
theorem instances_eq_ok {components : List String} {fs : List Formula} (hf : statement.WellFormed)
    (h : statement.instances sort components = .ok fs) :
    ∃ x f sort', statement = Formula.univ x f sort' ∧ f.Propositional anyConnective ∧
      (∀ y ∈ f.freeVariables, y = x) ∧
        fs = components.map fun c => f.substitute [(some x, c)] := by
  obtain ⟨_, hcheck, h⟩ := bind_eq_ok_iff.mp h
  obtain ⟨huniversal, ⟨body, hbody, hplain⟩, _, hclosed⟩ := checkGroundable_eq_ok hcheck
  obtain ⟨x, body', sort', rfl, hwellFormed⟩ := hf.eq_univ huniversal
  obtain rfl : body' = body := Except.ok.inj hbody
  refine ⟨x, body', sort', rfl, hwellFormed.propositional hplain, ?_, ?_⟩
  · simpa [isClosed, List.isEmpty_iff, List.filter_eq_nil_iff] using hclosed
  · have hfs : List.Forall₂ (fun c f ↦ body'.substitute [(some x, c)] = f) components fs := by
      refine (mapM_eq_ok_iff.mp h).imp fun c f hinstance ↦ ?_
      rw [liftFault_eq_ok_iff] at hinstance
      exact Except.ok.inj hinstance
    rw [← List.forall₂_map_left_iff (f := fun c => body'.substitute [(some x, c)]),
      List.forall₂_eq_eq_eq] at hfs
    exact hfs.symm

/-- A well-formed description is grounded to the instances of its quantified statements, followed
by the others, which are closed. -/
theorem ground_eq_ok {description grounded : List Formula} {components : List String}
    (h : ground description components sort = .ok grounded) :
    ∃ fss, List.Forall₂ (fun statement fs ↦ statement.instances sort components = .ok fs)
        (description.filter containsQuantifier) fss ∧
      (∀ f ∈ description.filter (!containsQuantifier ·), f.isClosed = true) ∧
        grounded = fss.flatten ++ description.filter (!containsQuantifier ·) := by
  simp only [ground, partitionStatements, List.partition_eq_filter_filter, bind_eq_ok_iff] at h
  obtain ⟨_, hplain, fss, hinstances, hgrounded⟩ := h
  exact ⟨fss, mapM_eq_ok_iff.mp hinstances, fun f hf ↦ checkPlain_eq_ok (forM_eq_ok hplain f hf),
    (Except.ok.inj hgrounded).symm⟩

/-- What is an instance of a statement. -/
theorem mem_instances {components : List String} {fs : List Formula} {f : Formula}
    (h : statement.instances sort components = .ok fs) :
    f ∈ fs ↔ ∃ c ∈ components, statement.instantiate c = .ok f := by
  obtain ⟨_, _, h⟩ := bind_eq_ok_iff.mp h
  have hfs := mapM_eq_ok_iff.mp h
  simp only [liftFault_eq_ok_iff] at hfs
  rw [exists_iff_of_forall₂ (Q := fun g ↦ f = g) hfs fun c g hc ↦ by simp [hc, eq_comm]]
  simp

/-- What a description is grounded to: the instances of its quantified statements, and the others.
Neither the order of the statements and of the components nor repetitions matter. -/
theorem mem_ground {description grounded : List Formula} {components : List String} {f : Formula}
    (h : ground description components sort = .ok grounded) :
    f ∈ grounded ↔
      (∃ statement ∈ description, statement.containsQuantifier = true ∧
        ∃ c ∈ components, statement.instantiate c = .ok f) ∨
      f ∈ description ∧ f.containsQuantifier = false := by
  obtain ⟨fss, hinstances, _, rfl⟩ := ground_eq_ok h
  have hquantified : f ∈ fss.flatten ↔ ∃ statement ∈ description.filter containsQuantifier,
      ∃ c ∈ components, statement.instantiate c = .ok f := by
    rw [List.mem_flatten]
    exact (exists_iff_of_forall₂ hinstances fun statement fs hfs ↦ (mem_instances hfs).symm).symm
  rw [List.mem_append, hquantified, List.mem_filter, Bool.not_eq_true']
  simp only [List.mem_filter, and_assoc]

/-! ## Ground formulas -/

/-- The instances of a statement that fits the grounding scheme are ground. -/
theorem ground_of_instances {components : List String} {fs : List Formula}
    (hcomponents : ∀ c ∈ components, isVariable c = false) (hf : statement.WellFormed)
    (h : statement.instances sort components = .ok fs) : ∀ f ∈ fs, f.Ground := by
  obtain ⟨x, body, sort', rfl, hbody, hfree, rfl⟩ := instances_eq_ok hf h
  rw [List.forall_mem_map]
  exact fun c hc ↦ (hbody.substitute _).ground (hbody.isClosed_substitute hfree (hcomponents c hc))

/-- What a well-formed description is grounded to is ground. -/
theorem ground_of_ground {description grounded : List Formula} {components : List String}
    (hcomponents : ∀ c ∈ components, isVariable c = false)
    (hdescription : ∀ f ∈ description, f.WellFormed)
    (h : ground description components sort = .ok grounded) : ∀ f ∈ grounded, f.Ground := by
  obtain ⟨fss, hinstances, hclosed, rfl⟩ := ground_eq_ok h
  intro f hf
  rcases List.mem_append.mp hf with hf | hf
  · obtain ⟨fs, hfs, hf⟩ := List.mem_flatten.mp hf
    obtain ⟨statement, hstatement, hfs⟩ := exists_of_forall₂ hinstances hfs
    exact ground_of_instances hcomponents
      (hdescription statement (List.mem_of_mem_filter hstatement)) hfs f hf
  · obtain ⟨hmem, hnone⟩ := List.mem_filter.mp hf
    exact ⟨hdescription f hmem, by simpa using hnone, hclosed f hf⟩

/-! ## Truth -/

variable {components others : List String} {truth : Atom → Prop}

/-- A term in the place of a variable is read as the value of the variable. -/
theorem under_single (x term : String) :
    Environment.under id [(some x, term)] = Environment.update id x term := by
  rw [Environment.under_eq]
  funext y
  by_cases hyx : y = x
  · simp [Substitution.image, Environment.update, hyx]
  · simp [Substitution.image, Keyed.lookup_entry, Environment.update, hyx]

/-- The instances of a statement say what the statement says of the components. -/
theorem holdsIn_instances {fs : List Formula} (hf : statement.WellFormed)
    (h : statement.instances sort components = .ok fs) :
    (∀ f ∈ fs, f.HoldsIn others truth) ↔ statement.HoldsIn components truth := by
  obtain ⟨x, body, sort', rfl, hbody, _, rfl⟩ := instances_eq_ok hf h
  rw [List.forall_mem_map, HoldsIn, holds_univ]
  refine forall₂_congr fun c _ ↦ ?_
  rw [HoldsIn, hbody.wellFormed.holds_substitute (hbody.captureFree _),
    hbody.holds_range _ (· ∈ components), under_single]

/-- What a description is grounded to says what the description says of the components. -/
theorem holdsIn_ground {description grounded : List Formula}
    (hdescription : ∀ f ∈ description, f.WellFormed)
    (h : ground description components sort = .ok grounded) :
    (∀ f ∈ grounded, f.HoldsIn others truth) ↔ ∀ f ∈ description, f.HoldsIn components truth := by
  obtain ⟨fss, hinstances, _, rfl⟩ := ground_eq_ok h
  have hquantified : (∀ f ∈ fss.flatten, f.HoldsIn others truth) ↔
      ∀ f ∈ description.filter containsQuantifier, f.HoldsIn components truth := by
    rw [List.forall_mem_flatten]
    refine (forall_iff_of_forall₂ hinstances fun statement hstatement fs hfs ↦ ?_).symm
    have hwellFormed := hdescription statement (List.mem_of_mem_filter hstatement)
    exact (holdsIn_instances hwellFormed hfs).symm
  have hplain : (∀ f ∈ description.filter (!containsQuantifier ·), f.HoldsIn others truth) ↔
      ∀ f ∈ description.filter (!containsQuantifier ·), f.HoldsIn components truth := by
    refine forall₂_congr fun f hf ↦ ?_
    obtain ⟨hmem, hnone⟩ := List.mem_filter.mp hf
    exact ((hdescription f hmem).propositional (by simpa using hnone)).holds_range _ _
  rw [List.forall_mem_append, hquantified, hplain, ← List.forall_mem_append]
  refine forall_congr' fun f ↦ imp_congr_left ?_
  cases hf : f.containsQuantifier <;> simp [hf]

/-! ## The finite-domain reading -/

/-- A well-formed statement that has instances is universal over the expected sort, and its body has
no quantifier. -/
theorem eq_univ_of_instances {fs : List Formula} (hf : statement.WellFormed)
    (h : statement.instances sort components = .ok fs) :
    ∃ x body, statement = univ x body sort ∧ body.containsQuantifier = false := by
  obtain ⟨_, hcheck, _⟩ := bind_eq_ok_iff.mp h
  obtain ⟨huniversal, ⟨body, hbody, hplain⟩, hsort, _⟩ := checkGroundable_eq_ok hcheck
  obtain ⟨x, body', sort', rfl, _⟩ := hf.eq_univ huniversal
  obtain rfl : body' = body := Except.ok.inj hbody
  obtain rfl : sort' = sort := Option.some.inj hsort
  exact ⟨x, body', rfl, hplain⟩

/-- What is quantified in a well-formed description that can be grounded is universal over the
expected sort, and its body has no quantifier. -/
theorem eq_univ_of_ground {description grounded : List Formula}
    (hdescription : ∀ f ∈ description, f.WellFormed)
    (h : ground description components sort = .ok grounded) {f : Formula} (hf : f ∈ description)
    (hquantified : f.containsQuantifier = true) :
    ∃ x body, f = univ x body sort ∧ body.containsQuantifier = false := by
  obtain ⟨fss, hinstances, _⟩ := ground_eq_ok h
  have hflip : List.Forall₂ (fun fs statement ↦ statement.instances sort components = .ok fs) fss
      (description.filter containsQuantifier) := hinstances.flip
  obtain ⟨fs, _, hfs⟩ := exists_of_forall₂ hflip (List.mem_filter.mpr ⟨hf, hquantified⟩)
  exact eq_univ_of_instances (hdescription f hf) hfs

/-- A statement has one instance for each component in the list. -/
theorem length_instances {fs : List Formula}
    (h : statement.instances sort components = .ok fs) : fs.length = components.length := by
  obtain ⟨_, _, h⟩ := bind_eq_ok_iff.mp h
  exact (mapM_eq_ok_iff.mp h).length_eq.symm

/-- Every quantified statement leads to as many formulas as there are components in the list, and
every other one to itself. -/
theorem length_ground {description grounded : List Formula}
    (h : ground description components sort = .ok grounded) :
    grounded.length = description.countP containsQuantifier * components.length +
      description.countP (!containsQuantifier ·) := by
  obtain ⟨fss, hinstances, _, rfl⟩ := ground_eq_ok h
  have hlengths : fss.map List.length = List.replicate fss.length components.length := by
    rw [← List.map_const', List.map_inj_left]
    intro fs hfs
    obtain ⟨statement, _, hstatement⟩ := exists_of_forall₂ hinstances hfs
    exact length_instances hstatement
  rw [List.length_append, List.length_flatten, hlengths, List.sum_replicate_nat,
    ← hinstances.length_eq, List.countP_eq_length_filter, List.countP_eq_length_filter]

/-- What a well-formed description is grounded to, for every list of constants as components, also
if it is empty or repeats some, or if a component is named like another constant or like a bound
variable. All formulas are closed and without quantifiers, and for each quantified statement there
are as many as components. What is quantified is universal over a plain body. An assignment to atoms
makes the formulas true if and only if it makes the plain statements true and every such body, with
its variable read as any of the components. -/
theorem ground_reading {description grounded : List Formula}
    (hdescription : ∀ f ∈ description, f.WellFormed)
    (hcomponents : ∀ c ∈ components, isVariable c = false)
    (h : ground description components sort = .ok grounded) :
    (∀ f ∈ grounded, f.isClosed = true ∧ f.containsQuantifier = false) ∧
    grounded.length = description.countP containsQuantifier * components.length +
      description.countP (!containsQuantifier ·) ∧
    (∀ f ∈ description, f.containsQuantifier = true →
      ∃ x body, f = univ x body sort ∧ body.containsQuantifier = false) ∧
    ∀ truth : Atom → Prop, (∀ f ∈ grounded, f.HoldsIn [] truth) ↔
      (∀ f ∈ description, f.containsQuantifier = false → f.HoldsIn [] truth) ∧
      ∀ x body, univ x body sort ∈ description → ∀ c ∈ components,
        body.Holds (· ∈ components) (fun name args ↦ truth { name, args })
          (Environment.update id x c) := by
  have hground := ground_of_ground hcomponents hdescription h
  have hscheme (f : Formula) (hf : f ∈ description) := eq_univ_of_ground hdescription h hf
  refine ⟨fun f hf ↦ ⟨(hground f hf).closed, (hground f hf).plain⟩, length_ground h, hscheme,
    fun truth ↦ ?_⟩
  rw [holdsIn_ground hdescription h]
  constructor
  · intro hall
    refine ⟨fun f hf hplain ↦ ?_, fun x body hmem ↦ hall _ hmem⟩
    exact (((hdescription f hf).propositional hplain).holds_range _ _).mp (hall f hf)
  · rintro ⟨hplain, hbodies⟩ f hf
    cases hquantified : f.containsQuantifier with
    | false =>
        have hpropositional := (hdescription f hf).propositional hquantified
        exact (hpropositional.holds_range _ _).mp (hplain f hf hquantified)
    | true =>
        obtain ⟨x, body, rfl, _⟩ := hscheme f hf hquantified
        exact hbodies x body hf

/-- A statement about all components, one whose bound variable is named like a component, and a
plain statement about that component. -/
def collidingDescription : List Formula :=
  [univ "?x" (imp (atom "on" ["?x"]) (atom "lit" ["?x"])), univ "a" (atom "next" ["a", "b"]),
    atom "on" ["a"]]

/-- The bound variable takes the place of the component of its name, as in the formula that says
that b is next to itself, but the plain statement keeps it. -/
theorem collidingDescription_reading :
    let components := ["a", "b", "a"]
    let grounded := [imp (atom "on" ["a"]) (atom "lit" ["a"]),
      imp (atom "on" ["b"]) (atom "lit" ["b"]), imp (atom "on" ["a"]) (atom "lit" ["a"]),
      atom "next" ["a", "b"], atom "next" ["b", "b"], atom "next" ["a", "b"], atom "on" ["a"]]
    (∀ f ∈ collidingDescription, f.WellFormed) ∧ (∀ c ∈ components, isVariable c = false) ∧
      ground collidingDescription components componentSort = .ok grounded ∧
      grounded.length = 2 * 3 + 1 ∧
      ∀ truth : Atom → Prop, (∀ f ∈ grounded, f.HoldsIn [] truth) →
        truth { name := "next", args := ["b", "b"] } ∧ truth { name := "on", args := ["a"] } := by
  intro components grounded
  have hdescription : ∀ f ∈ collidingDescription, f.WellFormed := by
    simp only [collidingDescription, List.forall_mem_cons]
    exact ⟨.univ (.imp (.atom _) (.atom _)), .univ (.atom _), .atom _, by simp⟩
  have hcomponents : ∀ c ∈ components, isVariable c = false := by decide
  have hgrounded : ground collidingDescription components componentSort = .ok grounded := by rfl
  obtain ⟨_, hlength, _, hreading⟩ := ground_reading hdescription hcomponents hgrounded
  refine ⟨hdescription, hcomponents, hgrounded, hlength, fun truth htruth ↦ ?_⟩
  obtain ⟨hplain, hbodies⟩ := (hreading truth).mp htruth
  exact ⟨hbodies "a" (atom "next" ["a", "b"]) (by decide) "b" (by decide),
    hplain (atom "on" ["a"]) (by decide) (by decide)⟩

end Formula

end Diagnosis
