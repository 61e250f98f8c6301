import SqluxProfiler.Data.JumpTree
import SqluxProfiler.Callgrind.Decode

namespace SqluxProfiler

end SqluxProfiler
