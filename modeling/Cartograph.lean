import Cartograph.Main
import Cartograph.Proofs.Analysis.DependencyUsage
import Cartograph.Proofs.Analysis.LayerCycles
import Cartograph.Proofs.Analysis.LayerViolations
import Cartograph.Proofs.Cache.Maintenance
import Cartograph.Proofs.Cache.Refinement
import Cartograph.Proofs.Cache.Sharing
import Cartograph.Proofs.Config.Validity
import Cartograph.Proofs.Glob.Pattern
import Cartograph.Proofs.Path.Composition
import Cartograph.Proofs.Report.Consistency
import Cartograph.Proofs.Report.RoundTrip
import Cartograph.Proofs.Resolution.Subpath
import Cartograph.Proofs.Run.Encodings
import Cartograph.Proofs.Run.Guard
import Cartograph.Proofs.Run.Idempotence
import Cartograph.Proofs.Run.MissingDependencies
import Cartograph.Proofs.Run.Spelling
import Cartograph.Proofs.TypeScript.Comments
import Cartograph.Proofs.TypeScript.ImportPositions
import Cartograph.Proofs.Workspace.KeyLines
import Cartograph.Proofs.Workspace.Selection
