import TiffDirectory.EntryReader.Pattern
import TiffDirectory.Session
import TiffDirectory.Word.IntType
import TiffDirectory.Word.Lemmas
import TiffDirectory.Proofs.ByteReversal
import TiffDirectory.Proofs.TwosComplement
import TiffDirectory.Proofs.Storage
import TiffDirectory.Proofs.FieldRuns
import TiffDirectory.Proofs.Layout
import TiffDirectory.Proofs.StoredForms
import TiffDirectory.Proofs.Traffic
import TiffDirectory.Proofs.ShownBytes
import TiffDirectory.Proofs.MemoryRuns
import TiffDirectory.Proofs.RoundTrip
import TiffDirectory.Proofs.Rows
import TiffDirectory.Proofs.SharedFields
import TiffDirectory.Proofs.SplitReads
import TiffDirectory.Proofs.StoredWords
import TiffDirectory.Proofs.Remaining
import TiffDirectory.Proofs.ClosedReaders
import TiffDirectory.Proofs.Kept
import TiffDirectory.Proofs.Openings
import TiffDirectory.Proofs.Ledger
import TiffDirectory.Proofs.FileLives
import TiffDirectory.Proofs.FieldCalls
import TiffDirectory.Proofs.HeldBytes
import TiffDirectory.Proofs.Matched
import TiffDirectory.Proofs.Traces
import TiffDirectory.Proofs.Interchange
import TiffDirectory.Proofs.Alone
import TiffDirectory.Proofs.FileChanges
import TiffDirectory.Proofs.OpenFiles
import TiffDirectory.Proofs.Splits
import TiffDirectory.Proofs.Counts
import TiffDirectory.Proofs.RandomAccess
import TiffDirectory.Proofs.Marks
import TiffDirectory.Proofs.Locality
import TiffDirectory.Proofs.OppositeOrders
import TiffDirectory.Proofs.Walks
import TiffDirectory.Proofs.FilledReads
import TiffDirectory.Proofs.ReaderCalls
