import SheetLedger.CellRecord
import SheetLedger.Main
import SheetLedger.Program.Machine
import SheetLedger.Proofs.Bounds
import SheetLedger.Proofs.Codec
import SheetLedger.Proofs.Edit.Consistency
import SheetLedger.Proofs.Formula.Grammar
import SheetLedger.Proofs.Merging
import SheetLedger.Proofs.Revert.Restoration
import SheetLedger.Proofs.Run.Past
import SheetLedger.Proofs.Run.Provenance
import SheetLedger.Proofs.Run.Updates
import SheetLedger.Proofs.Store.Agreement
import SheetLedger.Proofs.Store.Session
import SheetLedger.Store.Faulty
import SheetLedger.Proofs.Edit.Current
import SheetLedger.Proofs.Cascade.Locality
import SheetLedger.Proofs.Edit.Independence
import SheetLedger.Proofs.Store.Faulty
import SheetLedger.Proofs.Edit.Failure
import SheetLedger.Proofs.Edit.FirstLevel
import SheetLedger.Proofs.Revert.Failure
import SheetLedger.Proofs.Formula.Sum
import SheetLedger.Proofs.Token.WellFormed
import SheetLedger.Proofs.Edit.Replacement
import SheetLedger.Proofs.Clock
import SheetLedger.Proofs.CommandLine
import SheetLedger.Proofs.Token.Quotation
