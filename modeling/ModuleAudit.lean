import ModuleAudit.Archive.Checksum
import ModuleAudit.Archive.Entry
import ModuleAudit.Archive.Inflate
import ModuleAudit.Archive.Zip
import ModuleAudit.Audit.Report
import ModuleAudit.Audit.UnusedDependencies
import ModuleAudit.Audit.UnusedModules
import ModuleAudit.Audit.Usage
import ModuleAudit.Bytes
import ModuleAudit.ClassFile.Annotations
import ModuleAudit.ClassFile.Code
import ModuleAudit.ClassFile.ConstantPool
import ModuleAudit.ClassFile.Descriptor
import ModuleAudit.ClassFile.Event
import ModuleAudit.ClassFile.Failure
import ModuleAudit.ClassFile.Reader
import ModuleAudit.ClassFile.Scan
import ModuleAudit.CommandLine.Options
import ModuleAudit.CommandLine.Run
import ModuleAudit.Dependency
import ModuleAudit.FileTree.Basic
import ModuleAudit.FileTree.Path
import ModuleAudit.Filter.Glob
import ModuleAudit.Filter.PathFilter
import ModuleAudit.Index.Basic
import ModuleAudit.Index.Build
import ModuleAudit.Index.Ingest
import ModuleAudit.Index.NamePool
import ModuleAudit.Index.Records
import ModuleAudit.Index.Supertypes
import ModuleAudit.Index.Visibility
import ModuleAudit.Log
import ModuleAudit.Main
import ModuleAudit.Markup.Attributes
import ModuleAudit.Markup.Element
import ModuleAudit.Markup.Span
import ModuleAudit.Markup.Token
import ModuleAudit.ModuleDescriptor.Basic
import ModuleAudit.ModuleDescriptor.Fault
import ModuleAudit.ModuleName
import ModuleAudit.Ordered.Map
import ModuleAudit.Ordered.Set
import ModuleAudit.Pattern.Basic
import ModuleAudit.Pattern.Bracket
import ModuleAudit.Pattern.CharSet
import ModuleAudit.Pattern.Escape
import ModuleAudit.Pattern.Flags
import ModuleAudit.Pattern.Parse
import ModuleAudit.Pattern.Property
import ModuleAudit.Pattern.Weight
import ModuleAudit.Proofs.Aliases
import ModuleAudit.Proofs.Audit.Checked
import ModuleAudit.Proofs.Audit.Classified
import ModuleAudit.Proofs.Audit.Fixing
import ModuleAudit.Proofs.Audit.Links
import ModuleAudit.Proofs.Audit.Pruning
import ModuleAudit.Proofs.Audit.Reordered
import ModuleAudit.Proofs.Audit.Reported
import ModuleAudit.Proofs.Audit.SecondRun
import ModuleAudit.Proofs.Audit.Unneeded
import ModuleAudit.Proofs.Audit.Unreadable
import ModuleAudit.Proofs.Build.Accounts
import ModuleAudit.Proofs.Build.Ancestors
import ModuleAudit.Proofs.Build.Changes
import ModuleAudit.Proofs.Build.Complete
import ModuleAudit.Proofs.Build.Contents
import ModuleAudit.Proofs.Build.Core
import ModuleAudit.Proofs.Build.Edges
import ModuleAudit.Proofs.Build.Filed
import ModuleAudit.Proofs.Build.Gather
import ModuleAudit.Proofs.Build.InRange
import ModuleAudit.Proofs.Build.Ingested
import ModuleAudit.Proofs.Build.Lineage
import ModuleAudit.Proofs.Build.Mirror
import ModuleAudit.Proofs.Build.Pool
import ModuleAudit.Proofs.Build.Preorder
import ModuleAudit.Proofs.Build.ReExports
import ModuleAudit.Proofs.Build.Recorded
import ModuleAudit.Proofs.Build.References
import ModuleAudit.Proofs.Build.Relate
import ModuleAudit.Proofs.Build.Supertypes
import ModuleAudit.Proofs.Build.Tallied
import ModuleAudit.Proofs.Build.WellFormed
import ModuleAudit.Proofs.ClassFile.AnnotationTrees
import ModuleAudit.Proofs.ClassFile.Annotations
import ModuleAudit.Proofs.ClassFile.Calls
import ModuleAudit.Proofs.ClassFile.Constants
import ModuleAudit.Proofs.ClassFile.Division
import ModuleAudit.Proofs.ClassFile.Instructions
import ModuleAudit.Proofs.ClassFile.Reads
import ModuleAudit.Proofs.ClassFile.Resolution
import ModuleAudit.Proofs.ClassFile.RoundTrip
import ModuleAudit.Proofs.ClassFile.Truncation
import ModuleAudit.Proofs.Descriptor
import ModuleAudit.Proofs.FileTree
import ModuleAudit.Proofs.Filter.Glob
import ModuleAudit.Proofs.Filter.Masks
import ModuleAudit.Proofs.Markup.Nodes
import ModuleAudit.Proofs.Markup.Recognized
import ModuleAudit.Proofs.Markup.Tags
import ModuleAudit.Proofs.Markup.Traversal
import ModuleAudit.Proofs.ModuleName
import ModuleAudit.Proofs.NamePool
import ModuleAudit.Proofs.Naming
import ModuleAudit.Proofs.Ordered
import ModuleAudit.Proofs.Prune.BelowRoots
import ModuleAudit.Proofs.Prune.Children
import ModuleAudit.Proofs.Prune.Comments
import ModuleAudit.Proofs.Prune.Compose
import ModuleAudit.Proofs.Prune.Cut
import ModuleAudit.Proofs.Prune.Decisions
import ModuleAudit.Proofs.Prune.Effects
import ModuleAudit.Proofs.Prune.Entries
import ModuleAudit.Proofs.Prune.Layout
import ModuleAudit.Proofs.Prune.Local
import ModuleAudit.Proofs.Prune.Marks
import ModuleAudit.Proofs.Prune.Meaning
import ModuleAudit.Proofs.Prune.Runs
import ModuleAudit.Proofs.Prune.Shelves
import ModuleAudit.Proofs.Prune.Siblings
import ModuleAudit.Proofs.Repository.Declared
import ModuleAudit.Proofs.ServiceFile
import ModuleAudit.Proofs.Utf8
import ModuleAudit.Proofs.Visibility.Closure
import ModuleAudit.Proofs.Visibility.Coherent
import ModuleAudit.Proofs.Visibility.Marked
import ModuleAudit.Proofs.Visibility.Repeated
import ModuleAudit.Proofs.Visibility.SameView
import ModuleAudit.Proofs.Visibility.Settle
import ModuleAudit.Proofs.Visibility.Step
import ModuleAudit.Proofs.Visibility.Thinned
import ModuleAudit.Proofs.Visibility.Transposed
import ModuleAudit.Proofs.Visibility.View
import ModuleAudit.Prune.Edit
import ModuleAudit.Prune.Fix
import ModuleAudit.Prune.FixError
import ModuleAudit.Prune.Locate
import ModuleAudit.Prune.Sibling
import ModuleAudit.Repository.Basic
import ModuleAudit.Repository.Disk
import ModuleAudit.Repository.LoadError
import ModuleAudit.Repository.Memory
import ModuleAudit.ServiceFile
import ModuleAudit.Settings.Basic
import ModuleAudit.Settings.Load
import ModuleAudit.Settings.Toml
import ModuleAudit.Settings.Yaml
import ModuleAudit.Settings.Yaml.Cursor
import ModuleAudit.Settings.Yaml.Document
import ModuleAudit.Settings.Yaml.Scalar
import ModuleAudit.Settings.Yaml.Token
import ModuleAudit.Tally
import ModuleAudit.Text.Alphabetic
import ModuleAudit.Text.Blank
import ModuleAudit.Text.CaseFolding
import ModuleAudit.Text.CodePage437
import ModuleAudit.Text.GeneralCategory
import ModuleAudit.Text.Numeral
import ModuleAudit.Text.Script
import ModuleAudit.Text.Split
import ModuleAudit.Text.Utf8
