import Diagnosis.Proofs.Problem.Mining

/-!
# Mining premise by premise

A refutation is clausified as a whole, but its premises stay apart: the conflict clauses of a
conjunction are those of its parts, one part after the other (`conflictClauses_conj`). So the
conflict read off a refutation is the union of the conflicts read off its premises. It depends on
which premises there are and on nothing else, and more premises can only blame more components
(`premisewise_mining`).
-/

namespace Diagnosis

namespace Formula

variable {fs : List Formula} {sss : List (List Sequent)}

/-- Formulas with conflict clauses have clauses, from which the conflict clauses are taken. -/
theorem exists_clauses_of_conflictClauses (h : fs.mapM conflictClauses = .ok sss) :
    (∀ f ∈ fs, f.containsQuantifier = false) ∧ ∃ css, fs.mapM clauses = .ok css ∧
      css.map (fun cs ↦ (cs.map Sequent.ofLiterals).filter Sequent.isConflict) = sss := by
  rw [mapM_eq_ok_iff] at h
  induction h with
  | nil => exact ⟨by simp, [], rfl, rfl⟩
  | cons hf _ ih =>
      obtain ⟨hplain, cs, hcs, hss⟩ := conflictClauses_eq_ok_iff.mp hf
      obtain ⟨hrest, css, hcss, hsss⟩ := ih
      refine ⟨List.forall_mem_cons.mpr ⟨hplain, hrest⟩, cs :: css, ?_, ?_⟩
      · exact mapM_eq_ok_iff.mpr (.cons hcs (mapM_eq_ok_iff.mp hcss))
      · rw [List.map_cons, hss, hsss]

/-- The conflict clauses of a conjunction are those of its parts, one part after the other. This is
so for all trees. -/
theorem conflictClauses_conj (h : fs.mapM conflictClauses = .ok sss) :
    (conj fs).conflictClauses = .ok sss.flatten := by
  obtain ⟨hplain, css, hcss, rfl⟩ := exists_clauses_of_conflictClauses h
  refine conflictClauses_eq_ok_iff.mpr ⟨plain_conj.mpr hplain, _, clauses_conj hcss, ?_⟩
  rw [List.map_flatten, List.filter_flatten, List.map_map]
  rfl

/-- A propositional formula has conflict clauses. -/
theorem Propositional.exists_conflictClauses {f : Formula} (hf : f.Propositional anyConnective) :
    ∃ ss, f.conflictClauses = .ok ss := by
  obtain ⟨cs, hcs, -⟩ := hf.clauses
  exact ⟨_, conflictClauses_eq_ok_iff.mpr ⟨hf.plain, cs, hcs, rfl⟩⟩

end Formula

/-- The premises are built by the constructors and have no quantifiers. -/
def Refutation.Plain (r : Refutation) : Prop :=
  ∀ f ∈ r.premises, f.WellFormed ∧ f.containsQuantifier = false

namespace Refutation

variable {abnormal : String} {r r' : Refutation} {conflict conflict' : Conflict}

/-- Such premises are propositional. -/
theorem Plain.propositional (hr : r.Plain) :
    ∀ f ∈ r.premises, f.Propositional Formula.anyConnective :=
  fun f hf ↦ (hr f hf).1.propositional (hr f hf).2

/-- A single premise has a conflict, which consists of the constants that it blames. -/
theorem exists_conflict_of_mem (abnormal : String) (hr : r.Plain) {f : Formula}
    (hf : f ∈ r.premises) :
    ∃ part, Refutation.conflict abnormal { premises := [f] } = .ok part ∧
      ∀ component, f.Blames abnormal component ∧ isVariable component = false ↔
        component ∈ part := by
  have hsingle : ∀ g ∈ [f], g.Propositional Formula.anyConnective :=
    List.forall_mem_singleton.mpr (hr.propositional f hf)
  obtain ⟨part, hpart⟩ := exists_conflict (r := { premises := [f] }) abnormal hsingle
  refine ⟨part, hpart, fun component ↦ ?_⟩
  rw [mem_conflict (fun g hg ↦ (hsingle g hg).wellFormed) hpart]
  simp [and_comm]

/-- Premises that are among others have a smaller conflict. -/
theorem conflict_subset (hr' : r'.Plain) (hsub : r.premises ⊆ r'.premises)
    (h : r.conflict abnormal = .ok conflict) (h' : r'.conflict abnormal = .ok conflict') :
    conflict ⊆ conflict' := by
  intro component hmem
  rw [mem_conflict (fun f hf ↦ (hr' f (hsub hf)).1) h] at hmem
  rw [mem_conflict (fun f hf ↦ (hr' f hf).1) h']
  obtain ⟨hconstant, f, hf, hblames⟩ := hmem
  exact ⟨hconstant, f, hsub hf, hblames⟩

/-- The same premises have the same conflict, in whatever order and however often they occur. -/
theorem conflict_congr (hr : r.Plain) (hsame : ∀ f, f ∈ r'.premises ↔ f ∈ r.premises) :
    r'.conflict abnormal = r.conflict abnormal := by
  have hr' : r'.Plain := fun f hf ↦ hr f ((hsame f).mp hf)
  obtain ⟨conflict, h⟩ := exists_conflict abnormal hr.propositional
  obtain ⟨conflict', h'⟩ := exists_conflict abnormal hr'.propositional
  have hmem (component : String) : component ∈ conflict' ↔ component ∈ conflict :=
    ⟨fun hc ↦ conflict_subset hr (fun f ↦ (hsame f).mp) h' h hc,
      fun hc ↦ conflict_subset hr' (fun f ↦ (hsame f).mpr) h h' hc⟩
  rw [h, h', (conflict_eq_ok h').2.1.eq_of_mem_iff (conflict_eq_ok h).2.1 hmem]

/-- The conflict of the premises together is the union of their conflicts. -/
theorem conflict_union (abnormal : String) (hr : r.Plain) : ∃ conflict parts,
    r.conflict abnormal = .ok conflict ∧
      (r.premises.mapM fun f ↦ Refutation.conflict abnormal { premises := [f] }) = .ok parts ∧
      conflict = Conflict.union parts := by
  obtain ⟨conflict, h⟩ := exists_conflict abnormal hr.propositional
  obtain ⟨parts, hparts, hall⟩ :=
    exists_mapM_forall₂ fun f hf ↦ exists_conflict_of_mem abnormal hr hf
  refine ⟨conflict, parts, h, hparts, (ofList_eq (conflict_eq_ok h).2.1 fun component ↦ ?_).symm⟩
  rw [mem_conflict (fun f hf ↦ (hr f hf).1) h, List.mem_flatten,
    ← exists_iff_of_forall₂ hall fun f part hpart ↦ hpart component]
  constructor
  · rintro ⟨f, hf, hblames, hconstant⟩
    exact ⟨hconstant, f, hf, hblames⟩
  · rintro ⟨hconstant, f, hf, hblames⟩
    exact ⟨f, hf, hblames, hconstant⟩

/-- Premises without quantifiers are mined one by one: the conflict clauses of the refutation are
those of its premises in their order, and its conflict is the union of the conflicts of its
premises. A refutation with the same premises in another order or with repetitions has the same
conflict, and one with further premises has a conflict that is no smaller. -/
theorem premisewise_mining (abnormal : String) (hr : r.Plain) :
    (∃ sss, r.premises.mapM Formula.conflictClauses = .ok sss ∧
      r.formula.conflictClauses = .ok sss.flatten) ∧
    (∃ conflict parts, r.conflict abnormal = .ok conflict ∧
      (r.premises.mapM fun f ↦ Refutation.conflict abnormal { premises := [f] }) = .ok parts ∧
      conflict = Conflict.union parts) ∧
    (∀ r' : Refutation, (∀ f, f ∈ r'.premises ↔ f ∈ r.premises) →
      r'.conflict abnormal = r.conflict abnormal) ∧
    ∀ r' : Refutation, r'.Plain → r.premises ⊆ r'.premises → ∃ conflict conflict',
      r.conflict abnormal = .ok conflict ∧ r'.conflict abnormal = .ok conflict' ∧
        conflict ⊆ conflict' := by
  refine ⟨?_, conflict_union abnormal hr, fun r' hsame ↦ conflict_congr hr hsame,
    fun r' hr' hsub ↦ ?_⟩
  · obtain ⟨sss, hsss⟩ := exists_mapM_ok fun f hf ↦ (hr.propositional f hf).exists_conflictClauses
    exact ⟨sss, hsss, Formula.conflictClauses_conj hsss⟩
  · obtain ⟨conflict, h⟩ := exists_conflict abnormal hr.propositional
    obtain ⟨conflict', h'⟩ := exists_conflict abnormal hr'.propositional
    exact ⟨conflict, conflict', h, h', conflict_subset hr' hsub h h'⟩

/-- Premises that blame two components in different places: one below truth and another conjunction,
beside a clause about another atom, and one behind an implication from truth. Falsity blames
nobody. -/
def scatteredRefutation : Refutation where
  premises :=
    [.conj [.top, .conj [normality "ab" "a2", .neg (.atom "out" ["x"])]], .bottom,
      .imp .top (normality "ab" "a1"), .disj [.atom "p" [], normality "ab" "a3"]]

/-- The clauses of the premises are mined in the order of the premises, and two components are
blamed. Mining the premises backwards and once more in their order changes nothing, and another
premise takes no component away. -/
theorem scatteredRefutation_mined :
    scatteredRefutation.Plain ∧
      scatteredRefutation.formula.conflictClauses = .ok
        [⟨[.atom ⟨"ab", ["a2"]⟩], []⟩, ⟨[.atom ⟨"out", ["x"]⟩], []⟩,
          ⟨[.atom ⟨"ab", ["a1"]⟩], []⟩] ∧
      scatteredRefutation.conflict "ab" = .ok ["a1", "a2"] ∧
      Refutation.conflict "ab"
          { premises := scatteredRefutation.premises.reverse ++ scatteredRefutation.premises } =
        .ok ["a1", "a2"] ∧
      ∃ conflict, Refutation.conflict "ab"
          { premises := normality "ab" "a4" :: scatteredRefutation.premises } = .ok conflict ∧
        ["a1", "a2"] ⊆ conflict := by
  have hnormal (component : String) : (normality "ab" component).WellFormed := .neg (.atom _)
  have hplain : scatteredRefutation.Plain := by
    simp only [Plain, scatteredRefutation, List.forall_mem_cons]
    refine ⟨⟨.conj ?_, by decide⟩, ⟨.disj (by simp), by decide⟩,
      ⟨.imp (.conj (by simp)) (hnormal "a1"), by decide⟩, ⟨.disj ?_, by decide⟩, by simp⟩
    · simp only [List.forall_mem_cons]
      refine ⟨.conj (by simp), .conj ?_, by simp⟩
      simp only [List.forall_mem_cons]
      exact ⟨hnormal "a2", .neg (.atom _), by simp⟩
    · simp only [List.forall_mem_cons]
      exact ⟨.atom _, hnormal "a3", by simp⟩
  obtain ⟨⟨sss, hsss, hclauses⟩, -, hsame, hmore⟩ := premisewise_mining "ab" hplain
  cases hsss
  have hmined : scatteredRefutation.conflict "ab" = .ok ["a1", "a2"] :=
    calc
      scatteredRefutation.conflict "ab" = .ok (Conflict.ofList ["a2", "a1"]) := rfl
      _ = .ok ["a1", "a2"] :=
        congrArg _ (ofList_eq (by decide) fun _ ↦ List.Perm.mem_iff (by decide))
  obtain ⟨conflict, conflict', h, h', hsub⟩ := hmore
    { premises := normality "ab" "a4" :: scatteredRefutation.premises }
    (List.forall_mem_cons.mpr ⟨⟨hnormal "a4", by decide⟩, hplain⟩) (List.subset_cons_self _ _)
  obtain rfl := Except.ok.inj (hmined.symm.trans h)
  exact ⟨hplain, hclauses, hmined, (hsame _ (by simp)).trans hmined, conflict', h', hsub⟩

end Refutation

end Diagnosis
