import SolidityImports.Compiler.Installed
import SolidityImports.Import.Resolver
import SolidityImports.Proofs.Link.Placeholder
import SolidityImports.Proofs.Import.Clean
import SolidityImports.Proofs.Import.Directory
import SolidityImports.Proofs.Import.Failure
import SolidityImports.Proofs.Import.Growth
import SolidityImports.Proofs.Import.InsideProject
import SolidityImports.Proofs.Import.Merging
import SolidityImports.Proofs.Record.File
import SolidityImports.Proofs.Source.Discovery
import SolidityImports.Settings
import SolidityImports.Source.Header
import SolidityImports.Proofs.Import.Hint
import SolidityImports.Proofs.Source.ParentDirectory
import SolidityImports.Proofs.Import.HiddenBindings
import SolidityImports.Proofs.Import.LineEnds
import SolidityImports.Proofs.Path.CommonAncestor
import SolidityImports.Proofs.Import.Tier
import SolidityImports.Proofs.Path.CleanJoin
import SolidityImports.Proofs.Compiler.Version
import SolidityImports.Proofs.Compiler.Installed
import SolidityImports.Proofs.Source.Header
import SolidityImports.Proofs.Import.Iteration
import SolidityImports.Proofs.Path.SourceName
import SolidityImports.Proofs.Text.BlankLines
