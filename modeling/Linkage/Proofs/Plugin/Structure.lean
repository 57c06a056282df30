import Linkage.Plugin.Structure
import Linkage.Proofs.Table

/-!
# Valid packages

The report on a package has what was found when it was read and what each rule complains of. So a
package without errors is one of which no rule complains.

* **`StructureRules.errors_validate`** — where the errors of a report come from;
* **`StructureRules.isWellFormedName_of_valid`** — the names of classes in a valid package;
* **`StructureRules.id_ne_of_valid`** — a valid package does not depend on itself.
-/

namespace Linkage.StructureRules

variable {rules : StructureRules} {p : Plugin}

theorem errors_foldl (rules : List StructureRule) (report : StructureReport) :
    (rules.foldl (fun report rule => report.append (rule p)) report).errors =
      report.errors ++ rules.flatMap fun rule => (rule p).errors := by
  induction rules generalizing report with
  | nil => simp
  | cons rule rest ih =>
      rw [List.foldl_cons, ih, List.flatMap_cons, ← List.append_assoc]
      rfl

/-- The errors of a package: those found when it was read, and then those of each rule in turn. -/
theorem errors_validate :
    (rules.validate p).errors = p.structureErrors ++ rules.values.flatMap fun rule => (rule p).errors :=
  errors_foldl rules.values _

/-- No rule has an error to report on a valid package. -/
theorem errors_eq_nil_of_valid (hvalid : (rules.validate p).isValid = true) {rule : StructureRule}
    (hrule : rule ∈ rules.values) : (rule p).errors = [] := by
  have hnone : (rules.validate p).errors = [] := List.isEmpty_iff.mp hvalid
  rw [List.eq_nil_iff_forall_not_mem]
  intro e he
  have hmem : e ∈ (rules.validate p).errors := by
    rw [errors_validate]
    exact List.mem_append_right _ (List.mem_flatMap.mpr ⟨rule, hrule, he⟩)
  rw [hnone] at hmem
  cases hmem

/-- The classes of a valid package have well-formed names. -/
theorem isWellFormedName_of_valid (hvalid : (default.validate p).isValid = true)
    {c : ClassDefinition} (hc : c ∈ p.classes.classes) :
    StructureRule.isWellFormedName c.name = true := by
  have hrule : StructureRule.classNames ∈ default.values := by
    simp [default, Table.values]
  have hnone := errors_eq_nil_of_valid hvalid hrule
  by_contra hbad
  have hname : c.name ∈ p.classes.names.filter fun n => !StructureRule.isWellFormedName n := by
    refine List.mem_filter.mpr ⟨mem_sortedTexts.mpr (List.mem_map_of_mem hc), ?_⟩
    simpa using hbad
  have herror : StructureError.invalidClassName c.name ∈ (StructureRule.classNames p).errors :=
    List.mem_map_of_mem hname
  rw [hnone] at herror
  cases herror

/-- A valid package does not depend on itself. -/
theorem id_ne_of_valid (hvalid : (default.validate p).isValid = true) {d : Dependency}
    (hd : d ∈ p.dependencies) : d.id ≠ p.info.id := by
  have hrule : StructureRule.noSelfDependency ∈ default.values := by
    simp [default, Table.values]
  have hnone := errors_eq_nil_of_valid hvalid hrule
  intro hself
  have hany : p.dependencies.any (·.id = p.info.id) = true :=
    List.any_eq_true.mpr ⟨d, hd, by simpa using hself⟩
  simp [StructureRule.noSelfDependency, hany, StructureReport.error] at hnone

end Linkage.StructureRules
