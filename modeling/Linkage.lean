import Linkage.Class.Descriptor
import Linkage.ClassFile.Record
import Linkage.Service.Command
import Linkage.Cache.Record
import Linkage.Text.Hex
import Linkage.Proofs.Cache.Ownership
import Linkage.Proofs.Task.Batch
import Linkage.Proofs.Task.Conduct
import Linkage.Proofs.Cache.Invalidation
import Linkage.Proofs.Recheck.Results
import Linkage.Proofs.Recheck.Rounds
import Linkage.Proofs.Recheck.InFlight
import Linkage.Proofs.Hierarchy.Walks
import Linkage.Proofs.Verification.Findings
import Linkage.Proofs.Plugin.Dependencies
import Linkage.Proofs.Verification.Precedence
import Linkage.Proofs.ClassFile.Bytes
import Linkage.Proofs.ClassFile.Entries
import Linkage.Proofs.ClassFile.Interning
import Linkage.Proofs.ClassFile.Layout
import Linkage.Proofs.ClassFile.Header
import Linkage.Proofs.ClassFile.References
import Linkage.Proofs.ClassFile.Merging
import Linkage.Proofs.ClassFile.Truncation
import Linkage.Proofs.Hierarchy.Agreement
import Linkage.Proofs.Rule.MemberReferences
import Linkage.Proofs.Check.Conversation
import Linkage.Proofs.Verification.Invocations
import Linkage.Proofs.Service.Outcomes
import Linkage.Proofs.Rule.MissingBodies
import Linkage.Proofs.Rule.HiddenDefaults
import Linkage.Proofs.Rule.DeprecatedMembers
import Linkage.Proofs.Cache.References
import Linkage.Proofs.Cache.Counts
import Linkage.Proofs.Cache.Occupancy
import Linkage.Proofs.ClassFile.Coverage
import Linkage.Proofs.Rule.ReferencedClasses
import Linkage.Proofs.Service.Precancelled
import Linkage.Proofs.Rule.ChainAgreement
import Linkage.Proofs.Rule.Visibility
import Linkage.Proofs.ClassFile.Numbering
import Linkage.Proofs.Report.Suppression
import Linkage.Proofs.Rule.FinalMethods
import Linkage.Proofs.Artifact.Targets
import Linkage.Proofs.Rule.DescribedTypes
import Linkage.Proofs.Report.Grouping
import Linkage.Proofs.ClassFile.Entering
import Linkage.Proofs.ClassFile.Oversized
import Linkage.Proofs.Service.Housekeeping
