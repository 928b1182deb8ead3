import TraceDisasm.Config.Json
import TraceDisasm.Proofs.AccessOrder
import TraceDisasm.Proofs.BankSpelling
import TraceDisasm.Proofs.CartridgeSwap
import TraceDisasm.Proofs.CheckedListing
import TraceDisasm.Proofs.CheckedRun
import TraceDisasm.Proofs.ConfigReading
import TraceDisasm.Proofs.EarlierRows
import TraceDisasm.Proofs.Encoding
import TraceDisasm.Proofs.Evidence
import TraceDisasm.Proofs.Handover
import TraceDisasm.Proofs.HiddenCode
import TraceDisasm.Proofs.ImageLayout
import TraceDisasm.Proofs.Independence
import TraceDisasm.Proofs.InstructionText
import TraceDisasm.Proofs.KeptTiling
import TraceDisasm.Proofs.LabelHistory
import TraceDisasm.Proofs.LineColumns
import TraceDisasm.Proofs.Notifier
import TraceDisasm.Proofs.PageBranches
import TraceDisasm.Proofs.Partition
import TraceDisasm.Proofs.RamListing
import TraceDisasm.Proofs.Refusals
import TraceDisasm.Proofs.RegistrationLog
import TraceDisasm.Proofs.RowLimits
import TraceDisasm.Proofs.SingleAccess
import TraceDisasm.Proofs.StaleLabels
import TraceDisasm.Session
import TraceDisasm.Proofs.RowByRow
