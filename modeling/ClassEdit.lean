import ClassEdit.Class.Draft
import ClassEdit.Cursor
import ClassEdit.Scan.Session
import ClassEdit.Settings.Document
import ClassEdit.Tweak.Default
import ClassEdit.Proofs.ControlFlow
import ClassEdit.Proofs.Heights
import ClassEdit.Proofs.Edit
import ClassEdit.Proofs.Turns
import ClassEdit.Proofs.ScanFrame
import ClassEdit.Proofs.ScanHeights
import ClassEdit.Proofs.DescriptorGrammar
import ClassEdit.Proofs.Annotated
import ClassEdit.Proofs.Assembly
import ClassEdit.Proofs.Splice
import ClassEdit.Proofs.SplicedHeights
import ClassEdit.Proofs.Plans
import ClassEdit.Proofs.Neutral
import ClassEdit.Proofs.Advice
import ClassEdit.Proofs.Section
import ClassEdit.Proofs.Script
import ClassEdit.Proofs.Hygiene
import ClassEdit.Proofs.Rollback
import ClassEdit.Proofs.Matching
import ClassEdit.Proofs.Scripted
import ClassEdit.Proofs.Blind
import ClassEdit.Proofs.ScaledScan
import ClassEdit.Proofs.TweakScripts
import ClassEdit.Proofs.SharedRules
import ClassEdit.Proofs.Disabling
import ClassEdit.Proofs.FrameRate
import ClassEdit.Proofs.Spoofing
import ClassEdit.Proofs.FailingBlock
import ClassEdit.Proofs.AssembledBody
import ClassEdit.Proofs.Firing
import ClassEdit.Proofs.Counting
import ClassEdit.Proofs.Journal
import ClassEdit.Proofs.Batch
import ClassEdit.Proofs.Audit
import ClassEdit.Proofs.Unobserved
import ClassEdit.Proofs.Loading
import ClassEdit.Proofs.Exchange
import ClassEdit.Proofs.Replacement
import ClassEdit.Proofs.Relabeling
import ClassEdit.Proofs.ExitCopies
import ClassEdit.Proofs.Staged
import ClassEdit.Proofs.PlacedTargets
import ClassEdit.Proofs.SplicedSites
import ClassEdit.Proofs.ExitPaths
import ClassEdit.Proofs.Removal
import ClassEdit.Proofs.Stub
import ClassEdit.Proofs.Independent
import ClassEdit.Proofs.Numbering
import ClassEdit.Proofs.Searching
import ClassEdit.Proofs.FieldTypes
import ClassEdit.Proofs.OptionProblems
import ClassEdit.Proofs.Declared
import ClassEdit.Proofs.Resolution
import ClassEdit.Proofs.ConstantPool
import ClassEdit.Proofs.SearchLength
