import SqluxProfiler.Event.Codec
import SqluxProfiler.Data.AddrMap
import SqluxProfiler.Data.ProfilerData
import SqluxProfiler.Data.Conservation
import SqluxProfiler.Data.Edges
import SqluxProfiler.Data.Return
import SqluxProfiler.Data.Nesting
import SqluxProfiler.Data.CallTree
import SqluxProfiler.Data.JumpTree
import SqluxProfiler.Grouping.Convert
import SqluxProfiler.Grouping.Partition
import SqluxProfiler.Grouping.Entries
import SqluxProfiler.Grouping.RootEntries
import SqluxProfiler.Callgrind.Text
import SqluxProfiler.Callgrind.Serializer
import SqluxProfiler.Callgrind.Decode
import SqluxProfiler.Callgrind.TreeProfile
import SqluxProfiler.Pipeline.Model
import SqluxProfiler.Pipeline.Ownership
import SqluxProfiler.Pipeline.Progress
import SqluxProfiler.Pipeline.Words
import SqluxProfiler.Pipeline.Client
import SqluxProfiler.Check.Invariants
import SqluxProfiler.Pipeline.Flush
import SqluxProfiler.Emulator.Profile
