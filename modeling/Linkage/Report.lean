import Linkage.Verdict

/-!
# Reports

Results as text, one line after the other. Problems stand in groups under what they have in common.
Dependencies that may be missing can be left out of the text; the verdict stays what it is.
-/

namespace Linkage

/-- What a report shows. -/
structure ReportOptions where
  /-- The dependencies of which nothing is said if they are optional and missing. -/
  ignored : Dependency → Bool := fun _ => false
  /-- Whether to tell if a restart is needed. -/
  showDynamic : Bool := false

namespace Report

/-- `1 problem`, `2 problems`. -/
def counted (n : Nat) (word : String) : String :=
  toString n ++ " " ++ (if n = 1 then word else word ++ "s")

/-- The beginning of the lines on a result. -/
def subject (target : Target) (plugin : PluginInfo) : String :=
  "With " ++ target.display ++ " the plugin " ++ plugin.display

/-- An indented line. -/
def item (s : String) : String := "        " ++ s

/-- A line that heads a group or says a single thing. -/
def heading (s : String) : String := "    #" ++ s

/-- Whether a warning is left out. -/
def isHidden (options : ReportOptions) : Warning → Bool
  | .optionalDependencyNotResolved dependency _ => options.ignored ⟨dependency, true⟩
  | _ => false

/-- The lines on the warnings that are not left out; none if there are none. -/
def warningLines (options : ReportOptions) (subject : String) (warnings : List Warning) :
    List String :=
  match warnings.filter (fun w => !isHidden options w) with
  | [] => []
  | visible =>
    (subject ++ " has " ++ counted visible.length "warning")
      :: visible.map (fun w => heading w.message)

/-- Adds a problem to the group with its heading. -/
def addToGroup (groups : Table String (List String)) (p : Problem) : Table String (List String) :=
  groups.put p.heading ((groups.get? p.heading).getD [] ++ [p.message])

/-- The problems by heading, in order of first occurrence. -/
def groups (problems : List Problem) : Table String (List String) :=
  problems.foldl addToGroup Table.empty

/-- The lines on problems. -/
def problemLines (subject : String) (problems : List Problem) : List String :=
  (subject ++ " has " ++ counted problems.length "problem")
    :: (groups problems).entries.flatMap fun g => heading g.1 :: g.2.map item

/-- A heading with items under it, or nothing if there are no items. -/
def titled (title : String) : List String → List String
  | [] => []
  | items => title :: items.map item

/-- The lines on missing dependencies, the needed ones first. -/
def missingLines (options : ReportOptions) (missing : List MissingDependency) : List String :=
  let needed := missing.filter (!·.dependency.optional)
  let optional := missing.filter fun m => m.dependency.optional && !options.ignored m.dependency
  titled "    Some problems might have been caused by missing non-optional dependencies:"
      (needed.map (·.display))
    ++ titled "    Missing optional dependencies:"
      (optional.map fun m => m.dependency.display ++ ": " ++ m.reason)

/-- The line on a plugin without findings. -/
def okLine (subject : String) : String := subject ++ " is OK"

/-- The lines on a verdict. -/
def verdictLines (options : ReportOptions) (plugin : PluginInfo) (target : Target) :
    Verdict → List String
  | .ok => [okLine (subject target plugin)]
  | .warnings warnings =>
    match warningLines options (subject target plugin) warnings with
    | [] => [okLine (subject target plugin)]
    | lines => lines
  | .problems problems warnings =>
    problemLines (subject target plugin) problems
      ++ warningLines options (subject target plugin) warnings
  | .missingDependencies missing problems warnings =>
    missingLines options missing
      ++ warningLines options (subject target plugin) warnings
      ++ problemLines (subject target plugin) problems
  | .bad errors =>
    ["The plugin " ++ plugin.display ++ " is broken: "
      ++ Text.join ", " (errors.map StructureError.message)]
  | .notFound reason => ["The plugin " ++ plugin.display ++ " is not found: " ++ reason]
  | .failedToDownload reason =>
    ["The plugin " ++ plugin.display ++ " is not downloaded from the repository: " ++ reason]

/-- The lines on loading without a restart. -/
def dynamicLines : DynamicStatus → List String
  | .maybeDynamic => ["    Plugin can probably be enabled or disabled without restart"]
  | .notDynamic reasons =>
    "    Plugin cannot be loaded or unloaded without restart:" :: reasons.map item

/-- The lines on a result. -/
def lines (options : ReportOptions) (r : VerificationResult) : List String :=
  verdictLines options r.plugin r.target r.verdict
    ++ (if options.showDynamic then (r.dynamicStatus.map dynamicLines).getD [] else [])

/-- The report on a list of results, each line ended. -/
def text (options : ReportOptions) (results : List VerificationResult) : String :=
  String.join ((results.flatMap (lines options)).map (· ++ "\n"))

end Report

end Linkage
