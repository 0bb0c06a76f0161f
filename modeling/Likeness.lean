import Likeness.Command.Run
import Likeness.Components.Compare
import Likeness.Duplicates.Registry
import Likeness.Functions.Index
import Likeness.Main
import Likeness.Modules.Module
import Likeness.Proofs.Command.Overridden
import Likeness.Proofs.Components.Calls
import Likeness.Proofs.Components.Cut
import Likeness.Proofs.Components.Inline
import Likeness.Proofs.Components.Overall
import Likeness.Proofs.Components.Rendered
import Likeness.Proofs.Components.Setter
import Likeness.Proofs.Components.Symmetric
import Likeness.Proofs.Duplicates.Refinement
import Likeness.Proofs.Duplicates.Reported
import Likeness.Proofs.Duplicates.Unordered
import Likeness.Proofs.Functions.Digested
import Likeness.Proofs.Functions.Edited
import Likeness.Proofs.Functions.Raised
import Likeness.Proofs.Modules.Flagged
import Likeness.Proofs.Modules.Overlap
import Likeness.Proofs.Modules.Sweep
import Likeness.Proofs.Number.Double
import Likeness.Proofs.Report.Lines
import Likeness.Proofs.Resources.Looser
import Likeness.Proofs.Resources.Rearranged
import Likeness.Proofs.Resources.Reordered
import Likeness.Proofs.Resources.Same
import Likeness.Proofs.Resources.Supported
import Likeness.Proofs.Resources.Traversal
import Likeness.Proofs.Scan.Backed
import Likeness.Proofs.Scan.Bracketed
import Likeness.Proofs.Scan.Classified
import Likeness.Proofs.Scan.Independent
import Likeness.Proofs.Scan.Justified
import Likeness.Proofs.Scan.Skipped
import Likeness.Proofs.Scan.Walked
import Likeness.Proofs.Settings.Rendered
import Likeness.Proofs.Similarity.Formula
import Likeness.Proofs.Similarity.Mean
import Likeness.Proofs.Similarity.Symmetric
import Likeness.Proofs.Syntax.Preorder
import Likeness.Proofs.Yaml.Kept
import Likeness.Report.Text
import Likeness.Resources.Document
import Likeness.Scan.Run
import Likeness.Settings.Layers
import Likeness.Similarity.Score
import Likeness.Syntax.Fault
