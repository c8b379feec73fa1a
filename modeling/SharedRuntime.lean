import SharedRuntime.Archive.ByteStream
import SharedRuntime.Archive.Bzip2
import SharedRuntime.Archive.Bzip2.Block
import SharedRuntime.Archive.Bzip2.Scramble
import SharedRuntime.Archive.Decoding
import SharedRuntime.Archive.Gzip
import SharedRuntime.Archive.Inflate
import SharedRuntime.Archive.Lzma
import SharedRuntime.Archive.Lzma.Chunks
import SharedRuntime.Archive.PrefixCode
import SharedRuntime.Archive.Tar.Header
import SharedRuntime.Archive.Tar.Members
import SharedRuntime.Archive.Tar.Unpack
import SharedRuntime.Archive.Xz
import SharedRuntime.Archive.Zip.Archive
import SharedRuntime.Archive.Zip.Directory
import SharedRuntime.Archive.Zip.Fault
import SharedRuntime.Archive.Zip.Writer
import SharedRuntime.Archive.Zstd
import SharedRuntime.Archive.Zstd.BackwardBits
import SharedRuntime.Archive.Zstd.Literals
import SharedRuntime.Archive.Zstd.Sequences
import SharedRuntime.Archive.Zstd.StateTable
import SharedRuntime.Artifact.Identity
import SharedRuntime.Artifact.Installation
import SharedRuntime.Artifact.Packing
import SharedRuntime.Artifact.Payload
import SharedRuntime.Artifact.SignerBlock
import SharedRuntime.Artifact.Unpacking
import SharedRuntime.Artifact.Verification
import SharedRuntime.Bytes
import SharedRuntime.CommandLine.Arguments
import SharedRuntime.CommandLine.Commands
import SharedRuntime.CommandLine.Disk
import SharedRuntime.CommandLine.Fault
import SharedRuntime.CommandLine.Network
import SharedRuntime.CommandLine.Program
import SharedRuntime.CommandLine.Reach
import SharedRuntime.CommandLine.Terminal
import SharedRuntime.Digest.Chunks
import SharedRuntime.Digest.Crc32
import SharedRuntime.Digest.Sha256
import SharedRuntime.Digest.Sha512
import SharedRuntime.Digest.XxHash64
import SharedRuntime.Ed25519
import SharedRuntime.FileSystem.Basic
import SharedRuntime.FileSystem.Changes
import SharedRuntime.FileSystem.Fault
import SharedRuntime.FileSystem.Operations
import SharedRuntime.FileSystem.Path
import SharedRuntime.FileSystem.Script
import SharedRuntime.FileSystem.Walk
import SharedRuntime.Hex
import SharedRuntime.Host.Config
import SharedRuntime.Host.Layout
import SharedRuntime.Host.Metadata
import SharedRuntime.Host.Store
import SharedRuntime.Http.Address
import SharedRuntime.Http.Reply
import SharedRuntime.Installed.Marker
import SharedRuntime.Installed.Status
import SharedRuntime.Json.Basic
import SharedRuntime.Json.Decode
import SharedRuntime.Json.Reader
import SharedRuntime.Json.Writer
import SharedRuntime.Main
import SharedRuntime.Proofs.Archive.ByteStream
import SharedRuntime.Proofs.Archive.Contents
import SharedRuntime.Proofs.Archive.Decoding
import SharedRuntime.Proofs.Archive.Directory
import SharedRuntime.Proofs.Archive.Gzip
import SharedRuntime.Proofs.Archive.Inflate
import SharedRuntime.Proofs.Archive.Tar
import SharedRuntime.Proofs.Archive.TarActs
import SharedRuntime.Proofs.Archive.ZipWriter
import SharedRuntime.Proofs.Artifact.Containment
import SharedRuntime.Proofs.Artifact.Correspondence
import SharedRuntime.Proofs.Artifact.Decompressing
import SharedRuntime.Proofs.Artifact.Enclosed
import SharedRuntime.Proofs.Artifact.Entries
import SharedRuntime.Proofs.Artifact.EntryActs
import SharedRuntime.Proofs.Artifact.EntryOrder
import SharedRuntime.Proofs.Artifact.Extracting
import SharedRuntime.Proofs.Artifact.FailedInstallation
import SharedRuntime.Proofs.Artifact.FirstMember
import SharedRuntime.Proofs.Artifact.Identity
import SharedRuntime.Proofs.Artifact.InstalledStatus
import SharedRuntime.Proofs.Artifact.Marker
import SharedRuntime.Proofs.Artifact.Packing
import SharedRuntime.Proofs.Artifact.PayloadEntries
import SharedRuntime.Proofs.Artifact.Placing
import SharedRuntime.Proofs.Artifact.Probing
import SharedRuntime.Proofs.Artifact.SignedBytes
import SharedRuntime.Proofs.Artifact.Stamp
import SharedRuntime.Proofs.Artifact.Stamping
import SharedRuntime.Proofs.Artifact.Unpacking
import SharedRuntime.Proofs.Artifact.Verification
import SharedRuntime.Proofs.CommandLine.EventLines
import SharedRuntime.Proofs.CommandLine.Updating
import SharedRuntime.Proofs.Failing
import SharedRuntime.Proofs.FileSystem.Acts
import SharedRuntime.Proofs.FileSystem.Alike
import SharedRuntime.Proofs.FileSystem.Confined
import SharedRuntime.Proofs.FileSystem.Directories
import SharedRuntime.Proofs.FileSystem.Effects
import SharedRuntime.Proofs.FileSystem.FitsIn
import SharedRuntime.Proofs.FileSystem.Links
import SharedRuntime.Proofs.FileSystem.MakeDirs
import SharedRuntime.Proofs.FileSystem.Operations
import SharedRuntime.Proofs.FileSystem.Overlay
import SharedRuntime.Proofs.FileSystem.Path
import SharedRuntime.Proofs.FileSystem.Pictures
import SharedRuntime.Proofs.FileSystem.Removing
import SharedRuntime.Proofs.FileSystem.Reordering
import SharedRuntime.Proofs.FileSystem.Replacing
import SharedRuntime.Proofs.FileSystem.Script
import SharedRuntime.Proofs.FileSystem.Siblings
import SharedRuntime.Proofs.FileSystem.Texts
import SharedRuntime.Proofs.FileSystem.Vacant
import SharedRuntime.Proofs.FileSystem.Walk
import SharedRuntime.Proofs.Host.Architecture
import SharedRuntime.Proofs.Host.CleanUp
import SharedRuntime.Proofs.Host.Config
import SharedRuntime.Proofs.Host.Metadata
import SharedRuntime.Proofs.Installed.Marker
import SharedRuntime.Proofs.Installed.RoundTrip
import SharedRuntime.Proofs.Installed.Saving
import SharedRuntime.Proofs.Json.Lexemes
import SharedRuntime.Proofs.Json.OneLine
import SharedRuntime.Proofs.Json.Reordered
import SharedRuntime.Proofs.Json.RoundTrip
import SharedRuntime.Proofs.Json.Tagged
import SharedRuntime.Proofs.Text.Ascii
import SharedRuntime.Proofs.Text.Decimal
import SharedRuntime.Proofs.Text.Hex
import SharedRuntime.Proofs.Text.Utf8
import SharedRuntime.Proofs.Time.Rfc3339
import SharedRuntime.Proofs.Update.Alone
import SharedRuntime.Proofs.Update.Attempts
import SharedRuntime.Proofs.Update.Background
import SharedRuntime.Proofs.Update.Cancelling
import SharedRuntime.Proofs.Update.Choices
import SharedRuntime.Proofs.Update.Coherence
import SharedRuntime.Proofs.Update.Deliveries
import SharedRuntime.Proofs.Update.Dialogs
import SharedRuntime.Proofs.Update.Disposal
import SharedRuntime.Proofs.Update.Draining
import SharedRuntime.Proofs.Update.Effects
import SharedRuntime.Proofs.Update.Events
import SharedRuntime.Proofs.Update.Fifo
import SharedRuntime.Proofs.Update.Foreground
import SharedRuntime.Proofs.Update.Gate
import SharedRuntime.Proofs.Update.HandOff
import SharedRuntime.Proofs.Update.Ledger
import SharedRuntime.Proofs.Update.Life
import SharedRuntime.Proofs.Update.Normalisation
import SharedRuntime.Proofs.Update.Percentages
import SharedRuntime.Proofs.Update.Phase
import SharedRuntime.Proofs.Update.Platform
import SharedRuntime.Proofs.Update.Queues
import SharedRuntime.Proofs.Update.Reading
import SharedRuntime.Proofs.Update.SingleFlight
import SharedRuntime.Proofs.Update.Steps
import SharedRuntime.Proofs.Update.Strays
import SharedRuntime.Proofs.Update.Transfers
import SharedRuntime.Text.Ascii
import SharedRuntime.Text.Blank
import SharedRuntime.Text.CodePage437
import SharedRuntime.Text.Quoted
import SharedRuntime.Text.Size
import SharedRuntime.Text.Utf8
import SharedRuntime.Time.Instant
import SharedRuntime.Time.Rfc3339
import SharedRuntime.Update.Background
import SharedRuntime.Update.Coordinator
import SharedRuntime.Update.Download
import SharedRuntime.Update.Failure
import SharedRuntime.Update.Presentation
import SharedRuntime.Update.Session
import SharedRuntime.Update.State
import SharedRuntime.Update.Transfer
