import RedisDump.ByteMeaning
import RedisDump.Deferred.Rehearsal
import RedisDump.Entry.Steps
import RedisDump.Input.Steps
import RedisDump.Packed.Steps
import RedisDump.Session.Harvest
import RedisDump.Session.Steps
import RedisDump.Proofs.Questions
import RedisDump.Proofs.Bytewise
import RedisDump.Proofs.Delivery
import RedisDump.Proofs.Lockstep
import RedisDump.Proofs.Twins
import RedisDump.Proofs.Extension
import RedisDump.Proofs.Buffering
import RedisDump.Proofs.Finality
import RedisDump.Proofs.Wire.Number
import RedisDump.Proofs.Wire.Reads
import RedisDump.Proofs.Wire.Text
import RedisDump.Proofs.Wire.Value
import RedisDump.Proofs.Wire.Record
import RedisDump.Proofs.Wire.Snapshot
import RedisDump.Proofs.Outcome.Basic
import RedisDump.Proofs.Outcome.Reading
import RedisDump.Proofs.Outcome.Elements
import RedisDump.Proofs.Outcome.Sessions
import RedisDump.Proofs.Outcome.Containers
import RedisDump.Proofs.Safety
import RedisDump.Proofs.Pairing
import RedisDump.Proofs.Boundary
import RedisDump.Proofs.Wire.Given
import RedisDump.Proofs.Metadata
import RedisDump.Proofs.Shift
import RedisDump.Proofs.Later
import RedisDump.Proofs.Resumption
import RedisDump.Proofs.Inquiry
import RedisDump.Proofs.Lifecycle
import RedisDump.Proofs.Leads
import RedisDump.Proofs.Gating
import RedisDump.Proofs.Blind
import RedisDump.Proofs.Envelope
import RedisDump.Proofs.Laziness
import RedisDump.Proofs.Packed.Scanning
import RedisDump.Proofs.Packed.Ziplist
import RedisDump.Proofs.Packed.Listpack
import RedisDump.Proofs.Packed.Zipmap
import RedisDump.Proofs.Packed.Intset
import RedisDump.Proofs.Packed.EndMark
import RedisDump.Proofs.Scores
import RedisDump.Proofs.Representation
import RedisDump.Proofs.Relaxing
import RedisDump.Proofs.Expansion
import RedisDump.Proofs.Outcome.Sizes
import RedisDump.Proofs.Wire.Excess
import RedisDump.Proofs.SizeGuards
import RedisDump.Proofs.Consumption
import RedisDump.Proofs.Iterations
import RedisDump.Proofs.Accounts
import RedisDump.Proofs.Deferral
import RedisDump.Proofs.Realization
import RedisDump.Proofs.Feeding
import RedisDump.Proofs.Lzf.Tokens
import RedisDump.Proofs.Lzf.Exactness
import RedisDump.Proofs.Lzf.Buffered
import RedisDump.Proofs.Lzf.Lengths
import RedisDump.Proofs.Packed.ListpackGrammar
import RedisDump.Proofs.Packed.ZiplistGrammar
import RedisDump.Proofs.Packed.StoredCount
import RedisDump.Proofs.Wire.Strings
import RedisDump.Proofs.Receipts
import RedisDump.Proofs.Decimal
import RedisDump.Proofs.Packed.ZipmapGrammar
import RedisDump.Proofs.Packed.IntsetGrammar
import RedisDump.Proofs.Binary64.Rounding
import RedisDump.Proofs.Binary64.Shortest
import RedisDump.Proofs.Binary64.Numeral
import RedisDump.Proofs.Binary64.Lossless
import RedisDump.Proofs.Packed.CheckedReads
import RedisDump.Proofs.CanonicalScores
import RedisDump.Proofs.Packed.Nodes
import RedisDump.Proofs.EntryEquality
import RedisDump.Proofs.Packed.Loops
import RedisDump.Proofs.Packed.Stopping
import RedisDump.Proofs.SignedIntegers
