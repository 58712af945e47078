import ClassCatalog.Annotation.Render
import ClassCatalog.Bytes.Numbers
import ClassCatalog.ClassFile.Blueprint
import ClassCatalog.Container.Scripted
import ClassCatalog.Main
import ClassCatalog.Proofs.Blob.Reads
import ClassCatalog.Proofs.Blob.RoundTrip
import ClassCatalog.Proofs.Blob.Damage
import ClassCatalog.Proofs.View.Reachability
import ClassCatalog.Proofs.View.Closure
import ClassCatalog.Proofs.View.SuperChain
import ClassCatalog.Proofs.View.Chosen
import ClassCatalog.Proofs.Text.ByteOrder
import ClassCatalog.Proofs.Query.Outcome
import ClassCatalog.Proofs.Query.Answers
import ClassCatalog.Proofs.Query.Strictness
import ClassCatalog.Proofs.View.Shadowing
import ClassCatalog.Proofs.View.Hidden
import ClassCatalog.Proofs.Cache.Loading
import ClassCatalog.Proofs.Cache.Transparency
import ClassCatalog.Proofs.Cache.Untouched
import ClassCatalog.Proofs.Cache.Slot
import ClassCatalog.Proofs.Cache.Reloading
import ClassCatalog.Proofs.Cache.Owed
import ClassCatalog.Proofs.ClassFile.Reads
import ClassCatalog.Proofs.Text.ModifiedUtf8
import ClassCatalog.Proofs.Text.BrokenSequences
import ClassCatalog.Proofs.ClassFile.Descriptor
import ClassCatalog.Proofs.ClassFile.Emit
import ClassCatalog.Proofs.ClassFile.Annotation
import ClassCatalog.Proofs.ClassFile.Attribute
import ClassCatalog.Proofs.ClassFile.Body
import ClassCatalog.Proofs.ClassFile.Record
import ClassCatalog.Proofs.ClassFile.Assemble
import ClassCatalog.Proofs.ClassFile.Takes
import ClassCatalog.Proofs.ClassFile.Truncation
import ClassCatalog.Proofs.Container.Digest
import ClassCatalog.Cache.Callers
import ClassCatalog.Proofs.Callers.Cells
import ClassCatalog.Engine.SideBySide
import ClassCatalog.Proofs.Callers.SharedFlight
import ClassCatalog.Proofs.Callers.Alone
import ClassCatalog.Proofs.Callers.SingleFlight
import ClassCatalog.Proofs.Callers.JoinedIdentity
import ClassCatalog.Proofs.Callers.Invalidation
import ClassCatalog.Proofs.Callers.NoTrace
import ClassCatalog.Proofs.Engine.Invalidation
import ClassCatalog.Proofs.Index.Filled
import ClassCatalog.Proofs.Index.Scanned
import ClassCatalog.Proofs.Index.Bookkeeping
import ClassCatalog.Proofs.Cache.Rebuild
import ClassCatalog.Proofs.Engine.Schedule
import ClassCatalog.Proofs.Store.Agreement
import ClassCatalog.Proofs.Store.Overlap
import ClassCatalog.Proofs.Store.Reopening
import ClassCatalog.Proofs.Callers.Described
import ClassCatalog.Proofs.View.Appended
import ClassCatalog.Proofs.Engine.Calls
import ClassCatalog.Proofs.Cache.Disabled
import ClassCatalog.Proofs.Cache.Refusals
import ClassCatalog.Proofs.Engine.Release
import ClassCatalog.Proofs.Engine.Stranded
import ClassCatalog.Proofs.Engine.Twins
import ClassCatalog.Proofs.Engine.NoWrite
import ClassCatalog.Proofs.Engine.OnDisk
import ClassCatalog.Proofs.CommandLine.ReadOnly
import ClassCatalog.Proofs.Disk.Removal
import ClassCatalog.Proofs.Store.Emptying
import ClassCatalog.Proofs.CommandLine.Clearing
import ClassCatalog.Proofs.Engine.StoredBytes
import ClassCatalog.Proofs.Engine.Reopened
import ClassCatalog.Proofs.ClassFile.Format
import ClassCatalog.Proofs.ClassFile.Survey
import ClassCatalog.Proofs.ClassFile.Bearers
import ClassCatalog.Proofs.ClassFile.PartialRecord
import ClassCatalog.Proofs.ClassFile.Losses
import ClassCatalog.Proofs.Annotation.Distinct
import ClassCatalog.Proofs.ClassFile.ElementNames
import ClassCatalog.Proofs.ClassFile.TooDeep
import ClassCatalog.Proofs.ClassFile.NestingLimit
import ClassCatalog.Proofs.ClassFile.Steps
import ClassCatalog.Proofs.ClassFile.Numbering
import ClassCatalog.Proofs.Query.Packages
import ClassCatalog.Proofs.Container.TextForm
import ClassCatalog.Proofs.ClassFile.Interning
import ClassCatalog.Proofs.Disk.Archives
import ClassCatalog.Proofs.Cache.Accounts
