import Iloc.Main
import Iloc.Proofs.Filling
import Iloc.Proofs.Grammar
import Iloc.Proofs.Resumption
import Iloc.Proofs.Lexemes
import Iloc.Proofs.MaximalMunch
import Iloc.Proofs.SourceLayout
import Iloc.Proofs.ParsedNodes
import Iloc.Proofs.ScannedTokens
import Iloc.Proofs.Printing
import Iloc.Proofs.Blocks
import Iloc.Proofs.Locality
import Iloc.Proofs.Deletion
import Iloc.Proofs.Numbering
import Iloc.Proofs.Concatenation
import Iloc.Proofs.ReportOrder
import Iloc.Proofs.Extension
import Iloc.Proofs.ReportLines
import Iloc.Proofs.Modes
import Iloc.Proofs.ScanListing
import Iloc.Proofs.Renderings
import Iloc.Proofs.Verbosity
import Iloc.Proofs.LogLines
import Iloc.Proofs.Tallies
import Iloc.Proofs.Blanking
import Iloc.Proofs.Comments
import Iloc.Proofs.CarriageReturns
import Iloc.Proofs.Respacing
import Iloc.Proofs.MisplacedComments
import Iloc.Proofs.LostNodes
import Iloc.Proofs.SharedDiagnostics
import Iloc.Proofs.Grids
import Iloc.Proofs.TableGeometry
import Iloc.Proofs.FlagOrder
