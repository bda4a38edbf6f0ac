import TilePack.Byte
import TilePack.Record
import TilePack.Scanner
import TilePack.Encoding
import TilePack.Scanner.Bank
import TilePack.Unpacking
import TilePack.Block
import TilePack.Settings
import TilePack.Fault.SystemText
import TilePack.Fault
import TilePack.Decimal
import TilePack.Packing
import TilePack.Checked
import TilePack.Stream
import TilePack.FileSystem
import TilePack.Terminal
import TilePack.Command
import TilePack.Command.Arguments
import TilePack.Main
import TilePack.Proofs.Scanning
import TilePack.Proofs.WireFormat
import TilePack.Proofs.PackedSize
import TilePack.Proofs.Committing
import TilePack.Proofs.Cursors
import TilePack.Proofs.Delivery
import TilePack.Proofs.Packing
import TilePack.Proofs.Paths
import TilePack.Proofs.FilePacking
import TilePack.Proofs.Feeds
import TilePack.Proofs.Jobs
import TilePack.Proofs.CommandLine
import TilePack.Proofs.Sessions
import TilePack.Proofs.Tallies
import TilePack.Proofs.Blocks
import TilePack.Proofs.Concatenation
import TilePack.Proofs.SizeBounds
import TilePack.Proofs.FixedPoints
import TilePack.Proofs.Bounds
import TilePack.Proofs.Suspension
import TilePack.Proofs.CheckedPacking
import TilePack.Proofs.NamedSettings
import TilePack.Proofs.Rounding
