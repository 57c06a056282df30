import Linkage.Report

/-!
# What a report leaves out

Missing dependencies can be left out of a report if they are optional. They come up in two places: among
the dependencies that are missing, and among the warnings. A report that leaves some of them out is the
report on the result from which they have been erased.

* **`VerificationResult.without`** — a result without the optional dependencies that a predicate accepts;
* **`ErasedFrom`** — what is erased, and that all else stays as it was;
* **`Report.opening`**, **`Report.remarks`**, **`Report.closing`** — the parts of a report; only the one in
  the middle depends on what is left out;
* **`suppressed_eq_erased`** — leaving out is erasing.
-/

namespace Linkage

/-! ## Results without some dependencies -/

/-- The dependency that a warning says is missing. -/
def Warning.dependency? : Warning → Option Dependency
  | .optionalDependencyNotResolved id _ => some ⟨id, true⟩
  | _ => none

/-- A warning that a dependency which is accepted is missing. -/
def Warning.isAccepted (ignored : Dependency → Bool) (w : Warning) : Bool := w.dependency?.any ignored

/-- A dependency that is missing, optional and accepted. -/
def MissingDependency.isAccepted (ignored : Dependency → Bool) (m : MissingDependency) : Bool :=
  m.dependency.optional && ignored m.dependency

/-- The verdict without the dependencies that are accepted, of the same kind. -/
def Verdict.without (ignored : Dependency → Bool) : Verdict → Verdict
  | .warnings ws => .warnings (ws.filter (!·.isAccepted ignored))
  | .problems ps ws => .problems ps (ws.filter (!·.isAccepted ignored))
  | .missingDependencies ms ps ws =>
    .missingDependencies (ms.filter (!·.isAccepted ignored)) ps (ws.filter (!·.isAccepted ignored))
  | v => v

/-- The result without the dependencies that are accepted. -/
def VerificationResult.without (ignored : Dependency → Bool) (r : VerificationResult) :
    VerificationResult :=
  { r with verdict := r.verdict.without ignored }

/-- The warnings of a verdict, of any kind. -/
def Verdict.warningsLeft (v : Verdict) : List Warning := v.warnings?.getD []

/-- From a verdict the dependencies that are accepted have been erased, and nothing else. -/
structure ErasedFrom (ignored : Dependency → Bool) (v v' : Verdict) : Prop where
  kind : v'.kind = v.kind
  problems : v'.problems? = v.problems?
  needed : v'.missing.filter (!·.dependency.optional) = v.missing.filter (!·.dependency.optional)
  missing : v'.missing = v.missing.filter (!·.isAccepted ignored)
  warnings : v'.warningsLeft = v.warningsLeft.filter (!·.isAccepted ignored)
  otherWarnings : v'.warningsLeft.filter (·.dependency?.isNone) =
    v.warningsLeft.filter (·.dependency?.isNone)

section Without

variable (ignored : Dependency → Bool)

/-- Dependencies that are needed are not erased. -/
theorem filter_needed_without (ms : List MissingDependency) :
    (ms.filter (!·.isAccepted ignored)).filter (!·.dependency.optional) =
      ms.filter (!·.dependency.optional) := by
  rw [List.filter_filter]
  refine List.filter_congr fun m _ => ?_
  unfold MissingDependency.isAccepted
  cases m.dependency.optional <;> simp

/-- Warnings about other things are not erased. -/
theorem filter_other_without (ws : List Warning) :
    (ws.filter (!·.isAccepted ignored)).filter (·.dependency?.isNone) =
      ws.filter (·.dependency?.isNone) := by
  rw [List.filter_filter]
  refine List.filter_congr fun w _ => ?_
  unfold Warning.isAccepted
  cases w.dependency? <;> simp

theorem erasedFrom_without (v : Verdict) : ErasedFrom ignored v (v.without ignored) := by
  cases v with
  | warnings ws => exact ⟨rfl, rfl, rfl, rfl, rfl, filter_other_without ignored ws⟩
  | problems _ ws => exact ⟨rfl, rfl, rfl, rfl, rfl, filter_other_without ignored ws⟩
  | missingDependencies ms _ ws =>
      exact ⟨rfl, rfl, filter_needed_without ignored ms, rfl, rfl, filter_other_without ignored ws⟩
  | _ => exact ⟨rfl, rfl, rfl, rfl, rfl, rfl⟩

/-- Where nothing is accepted nothing is erased. -/
theorem VerificationResult.without_nothing (r : VerificationResult) :
    r.without (fun _ => false) = r := by
  have hmissing : ∀ ms : List MissingDependency, ms.filter (!·.isAccepted fun _ => false) = ms := by
    intro ms
    rw [List.filter_eq_self]
    intro m _
    simp [MissingDependency.isAccepted]
  have hwarnings : ∀ ws : List Warning, ws.filter (!·.isAccepted fun _ => false) = ws := by
    intro ws
    rw [List.filter_eq_self]
    intro w _
    cases w <;> rfl
  obtain ⟨plugin, target, verdict, dynamicStatus⟩ := r
  unfold VerificationResult.without
  congr 1
  cases verdict <;> simp [Verdict.without, hmissing, hwarnings]

end Without

/-! ## The parts of a report -/

namespace Report

/-- The missing dependencies that are needed. -/
def neededLines (missing : List MissingDependency) : List String :=
  titled "    Some problems might have been caused by missing non-optional dependencies:"
    ((missing.filter (!·.dependency.optional)).map (·.display))

/-- The missing dependencies that are optional. -/
def optionalLines (missing : List MissingDependency) : List String :=
  titled "    Missing optional dependencies:"
    ((missing.filter (·.dependency.optional)).map fun m => m.dependency.display ++ ": " ++ m.reason)

/-- Warnings after their number. -/
def listedWarnings (subject : String) : List Warning → List String
  | [] => []
  | w :: rest =>
    (subject ++ " has " ++ counted (rest.length + 1) "warning")
      :: (w :: rest).map fun w => heading w.message

/-- What a report begins with: the dependencies that are needed, or the problems where none is missing, or
all that there is to say. -/
def opening (r : VerificationResult) : List String :=
  match r.verdict with
  | .warnings _ => []
  | .problems problems _ => problemLines (subject r.target r.plugin) problems
  | .missingDependencies missing _ _ => neededLines missing
  | v => verdictLines {} r.plugin r.target v

/-- The optional dependencies that are missing, and the warnings. Where warnings are all that there may be,
and there is none, the plugin is fine. -/
def remarks (r : VerificationResult) : List String :=
  optionalLines r.verdict.missing ++
    match r.verdict with
    | .warnings [] => [okLine (subject r.target r.plugin)]
    | v => listedWarnings (subject r.target r.plugin) v.warningsLeft

/-- What a report ends with: the problems where dependencies are missing, and whether a restart is
needed. -/
def closing (showDynamic : Bool) (r : VerificationResult) : List String :=
  (match r.verdict with
    | .missingDependencies _ problems _ => problemLines (subject r.target r.plugin) problems
    | _ => [])
    ++ if showDynamic then (r.dynamicStatus.map dynamicLines).getD [] else []

theorem isHidden_eq (options : ReportOptions) (w : Warning) :
    isHidden options w = w.isAccepted options.ignored := by
  cases w <;> rfl

theorem warningLines_eq (options : ReportOptions) (subject : String) (warnings : List Warning) :
    warningLines options subject warnings =
      listedWarnings subject (warnings.filter (!·.isAccepted options.ignored)) := by
  unfold warningLines
  simp only [isHidden_eq]
  cases warnings.filter (!·.isAccepted options.ignored) <;> rfl

theorem missingLines_eq (options : ReportOptions) (missing : List MissingDependency) :
    missingLines options missing =
      neededLines missing ++ optionalLines (missing.filter (!·.isAccepted options.ignored)) := by
  have hleft : missing.filter (fun m => m.dependency.optional && !options.ignored m.dependency) =
      (missing.filter (!·.isAccepted options.ignored)).filter (·.dependency.optional) := by
    rw [List.filter_filter]
    refine List.filter_congr fun m _ => ?_
    unfold MissingDependency.isAccepted
    cases m.dependency.optional <;> simp
  unfold missingLines neededLines optionalLines
  rw [hleft]

/-- Of the parts of a report only the remarks depend on what is left out. -/
theorem lines_eq (options : ReportOptions) (r : VerificationResult) :
    lines options r = opening r ++ remarks (r.without options.ignored) ++ closing options.showDynamic r := by
  obtain ⟨plugin, target, verdict, dynamicStatus⟩ := r
  unfold lines closing
  rw [← List.append_assoc]
  congr 1
  cases verdict with
  | warnings ws =>
      simp only [verdictLines, opening, remarks, VerificationResult.without, Verdict.without, warningLines_eq,
        Verdict.missing, Verdict.warningsLeft, Verdict.warnings?, List.nil_append, List.append_nil]
      -- the one verdict that has a line of its own where no warning is left
      cases ws.filter (!·.isAccepted options.ignored) with
      | nil => rfl
      | cons w rest => simp [optionalLines, titled, listedWarnings]
  | problems ps ws =>
      simp [verdictLines, opening, remarks, VerificationResult.without, Verdict.without, warningLines_eq,
        Verdict.missing, Verdict.warningsLeft, Verdict.warnings?, optionalLines, titled]
  | missingDependencies ms ps ws =>
      simp [verdictLines, opening, remarks, VerificationResult.without, Verdict.without, warningLines_eq,
        missingLines_eq, Verdict.missing, Verdict.warningsLeft, Verdict.warnings?]
  | _ =>
      simp [verdictLines, opening, remarks, VerificationResult.without, Verdict.without, Verdict.missing,
        Verdict.warningsLeft, Verdict.warnings?, optionalLines, titled, listedWarnings]

theorem opening_without (ignored : Dependency → Bool) (r : VerificationResult) :
    opening (r.without ignored) = opening r := by
  obtain ⟨plugin, target, verdict, dynamicStatus⟩ := r
  cases verdict with
  | missingDependencies ms _ _ =>
      simp only [opening, VerificationResult.without, Verdict.without, neededLines,
        filter_needed_without ignored ms]
  | _ => rfl

theorem closing_without (ignored : Dependency → Bool) (showDynamic : Bool) (r : VerificationResult) :
    closing showDynamic (r.without ignored) = closing showDynamic r := by
  obtain ⟨plugin, target, verdict, dynamicStatus⟩ := r
  cases verdict <;> rfl

/-- The lines on a result without what is left out are those on the result from which that is erased. -/
theorem lines_without (ignored : Dependency → Bool) (showDynamic : Bool) (r : VerificationResult) :
    lines ⟨ignored, showDynamic⟩ r = lines { showDynamic } (r.without ignored) := by
  rw [lines_eq, lines_eq, VerificationResult.without_nothing, opening_without, closing_without]

theorem text_without (ignored : Dependency → Bool) (showDynamic : Bool)
    (results : List VerificationResult) :
    text ⟨ignored, showDynamic⟩ results = text { showDynamic } (results.map (·.without ignored)) := by
  have hlines : lines ⟨ignored, showDynamic⟩ = fun r => lines { showDynamic } (r.without ignored) :=
    funext (lines_without ignored showDynamic)
  unfold text
  rw [List.flatMap_map, hlines]

end Report

/-! ## Leaving out is erasing -/

/-- What holds of leaving out the dependencies that are accepted. -/
structure SuppressionLaws (ignored : Dependency → Bool) (showDynamic : Bool) (r : VerificationResult) :
    Prop where
  /-- The report is that on the result from which they are erased. -/
  text : Report.text ⟨ignored, showDynamic⟩ [r] = Report.text { showDynamic } [r.without ignored]
  /-- Nothing else is erased from the verdict, -/
  verdict : ErasedFrom ignored r.verdict (r.without ignored).verdict
  /-- and nothing from the rest of the result. -/
  rest : { r.without ignored with verdict := r.verdict } = r
  /-- The report begins and ends as it would if nothing were left out. -/
  between : Report.lines { showDynamic } r =
      Report.opening r ++ Report.remarks r ++ Report.closing showDynamic r ∧
    Report.lines ⟨ignored, showDynamic⟩ r =
      Report.opening r ++ Report.remarks (r.without ignored) ++ Report.closing showDynamic r
  /-- A verdict of warnings that are all left out reads as that without findings. -/
  quiet : ∀ ws, r.verdict = .warnings ws → (∀ w ∈ ws, w.isAccepted ignored = true) →
    Report.text ⟨ignored, showDynamic⟩ [r] = Report.text ⟨ignored, showDynamic⟩ [{ r with verdict := .ok }]

theorem Report.text_quiet {ignored : Dependency → Bool} {r : VerificationResult} {ws : List Warning}
    (hr : r.verdict = .warnings ws) (hall : ∀ w ∈ ws, w.isAccepted ignored = true) (showDynamic : Bool) :
    text ⟨ignored, showDynamic⟩ [r] = text ⟨ignored, showDynamic⟩ [{ r with verdict := .ok }] := by
  have hnone : ws.filter (!·.isAccepted ignored) = [] := by
    rw [List.filter_eq_nil_iff]
    intro w hw
    simp [hall w hw]
  have hleft : r.without ignored = { r with verdict := .warnings [] } := by
    unfold VerificationResult.without
    rw [hr, Verdict.without, hnone]
  rw [text_without, text_without, List.map_singleton, hleft]
  rfl

/-- A report that leaves out the optional dependencies which a predicate accepts is the report on the result
from which they have been erased. Nothing else is erased, and nothing else changes in the report. -/
theorem suppressed_eq_erased (ignored : Dependency → Bool) (showDynamic : Bool)
    (r : VerificationResult) : SuppressionLaws ignored showDynamic r where
  text := Report.text_without ignored showDynamic [r]
  verdict := erasedFrom_without ignored r.verdict
  rest := rfl
  between := by
    refine ⟨?_, Report.lines_eq ⟨ignored, showDynamic⟩ r⟩
    rw [Report.lines_eq, VerificationResult.without_nothing]
  quiet ws hr hall := Report.text_quiet hr hall showDynamic

/-- A result with this verdict. -/
def resultWith (v : Verdict) : VerificationResult :=
  ⟨⟨"p", "1.0", none⟩, ⟨"241.1", "17"⟩, v, some .maybeDynamic⟩

/-- Of two optional dependencies that are missing, one is left out, and so is the warning about it. Where
there are no other warnings, the plugin is fine. -/
theorem suppressed_eq_erased_extra :
    Report.text ⟨fun d => d.id == "extra", true⟩ [resultWith (.missingDependencies
          [⟨"p", ⟨"lib", false⟩, "gone"⟩, ⟨"p", ⟨"lang", true⟩, "gone"⟩, ⟨"p", ⟨"extra", true⟩, "gone"⟩]
          [.finalClassInherited "p/A" "h/Final"]
          [.optionalDependencyNotResolved "extra" "gone", .pluginStructure "odd"])] =
        Report.text ⟨fun _ => false, true⟩ [resultWith (.missingDependencies
          [⟨"p", ⟨"lib", false⟩, "gone"⟩, ⟨"p", ⟨"lang", true⟩, "gone"⟩]
          [.finalClassInherited "p/A" "h/Final"] [.pluginStructure "odd"])] ∧
      Report.text ⟨fun d => d.id == "extra", true⟩
          [resultWith (.warnings [.optionalDependencyNotResolved "extra" "gone"])] =
        Report.text ⟨fun d => d.id == "extra", true⟩ [resultWith .ok] := by
  constructor
  · exact (suppressed_eq_erased (fun d => d.id == "extra") true _).text
  · refine (suppressed_eq_erased (fun d => d.id == "extra") true _).quiet _ rfl ?_
    intro w hw
    rw [List.mem_singleton.mp hw]
    decide

end Linkage
