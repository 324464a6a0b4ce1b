import ConstDb.Builder
import ConstDb.Bytes
import ConstDb.Command
import ConstDb.Command.Arguments
import ConstDb.Command.Usage
import ConstDb.Config
import ConstDb.Database
import ConstDb.Database.Lookup
import ConstDb.Database.Records
import ConstDb.Database.Values
import ConstDb.Disk
import ConstDb.Disk.Directory
import ConstDb.Disk.File
import ConstDb.Disk.Opened
import ConstDb.Disk.Path
import ConstDb.Draft
import ConstDb.Effect
import ConstDb.Error
import ConstDb.Fate
import ConstDb.Hash
import ConstDb.Index.Buckets
import ConstDb.Index.SlotTable
import ConstDb.Layout
import ConstDb.Lines
import ConstDb.Main
import ConstDb.Pair
import ConstDb.Position
import ConstDb.Proofs.Aborted
import ConstDb.Proofs.Agreement
import ConstDb.Proofs.Arrivals
import ConstDb.Proofs.Books
import ConstDb.Proofs.BrokenIngestion
import ConstDb.Proofs.BuildInStep
import ConstDb.Proofs.Builder
import ConstDb.Proofs.Bytes
import ConstDb.Proofs.Calls
import ConstDb.Proofs.CommandLine
import ConstDb.Proofs.Containment
import ConstDb.Proofs.Cursors
import ConstDb.Proofs.Disk
import ConstDb.Proofs.Disk.Confined
import ConstDb.Proofs.Disk.File
import ConstDb.Proofs.Disk.Places
import ConstDb.Proofs.Disk.Steady
import ConstDb.Proofs.Disk.Suffix
import ConstDb.Proofs.Disk.Unfinished
import ConstDb.Proofs.Draft
import ConstDb.Proofs.Dump
import ConstDb.Proofs.DumpInStep
import ConstDb.Proofs.Effect
import ConstDb.Proofs.Faults
import ConstDb.Proofs.HeaderLast
import ConstDb.Proofs.Image
import ConstDb.Proofs.InStep
import ConstDb.Proofs.Independence
import ConstDb.Proofs.Index.Buckets
import ConstDb.Proofs.Index.Filling
import ConstDb.Proofs.Index.Partition
import ConstDb.Proofs.Index.SlotTable
import ConstDb.Proofs.Layout
import ConstDb.Proofs.Limit
import ConstDb.Proofs.LineFormat
import ConstDb.Proofs.LineInput
import ConstDb.Proofs.LineRecords
import ConstDb.Proofs.Lines
import ConstDb.Proofs.Lookup
import ConstDb.Proofs.LookupInStep
import ConstDb.Proofs.Machine
import ConstDb.Proofs.Making
import ConstDb.Proofs.Making.Steady
import ConstDb.Proofs.Output
import ConstDb.Proofs.Plain
import ConstDb.Proofs.Progress
import ConstDb.Proofs.Publication
import ConstDb.Proofs.Reading
import ConstDb.Proofs.Retry
import ConstDb.Proofs.Rivals
import ConstDb.Proofs.RoundTrip
import ConstDb.Proofs.Sessions
import ConstDb.Proofs.Snapshot
import ConstDb.Proofs.Stream
import ConstDb.Proofs.TextRoundTrip
import ConstDb.Proofs.Truncation
import ConstDb.Proofs.Walk
import ConstDb.Proofs.Watched
import ConstDb.Proofs.World
import ConstDb.Record
import ConstDb.Sink
import ConstDb.Sink.Buffered
import ConstDb.Sink.Memory
import ConstDb.Sink.Tally
import ConstDb.Source
import ConstDb.Source.Sparse
import ConstDb.Walk
