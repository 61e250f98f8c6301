import SqluxProfiler.Callgrind.Text
import SqluxProfiler.Grouping.Convert

namespace SqluxProfiler

/-- `Cycles = Instructions + InstructionFetch * 3 + DataReads * 3 + DataWrites * 3`, in
`uint64_t`. -/
def cycles (instructions instrFetches dataReads dataWrites : BitVec 64) : BitVec 64 :=
  instructions + instrFetches * 3 + dataReads * 3 + dataWrites * 3

def selfColumns (cost : InstructionCost) : Columns :=
  ⟨(cycles cost.selfCost cost.instrFetches cost.dataReads cost.dataWrites).toNat,
    cost.selfCost.toNat, cost.dataReads.toNat, cost.dataWrites.toNat⟩

def callColumns (call : FunctionCall) : Columns :=
  ⟨(cycles call.inclusiveInstructions call.inclusiveInstrFetches call.inclusiveDataReads
      call.inclusiveDataWrites).toNat,
    call.inclusiveInstructions.toNat, call.inclusiveDataReads.toNat, call.inclusiveDataWrites.toNat⟩

/-- The summary: the self totals of all functions, with their cycles. -/
def summaryColumns (data : GroupedProfilerData) : Columns :=
  let totalInstructions := data.functions.sum (·.totalSelfInstructions)
  let totalInstrFetches := data.functions.sum (·.totalSelfInstrFetches)
  let totalDataReads := data.functions.sum (·.totalSelfDataReads)
  let totalDataWrites := data.functions.sum (·.totalSelfDataWrites)
  ⟨(cycles totalInstructions totalInstrFetches totalDataReads totalDataWrites).toNat,
    totalInstructions.toNat, totalDataReads.toNat, totalDataWrites.toNat⟩

def writeHeader (data : GroupedProfilerData) : List Line :=
  [.text "# callgrind format".toList, .text "version: 1".toList,
    .text "creator: sqlux-profiler".toList, .text "cmd: sqlux".toList, .text [],
    .text "positions: instr".toList, .text "events: Cycles Instructions DataReads DataWrites".toList,
    .record (.summary (summaryColumns data)), .text []]

/-- The first field of a self-cost line: absolute, a delta within ±1000, or `*`; the difference is
taken in `int64_t`. -/
def positionField (lastAddress address : Nat) : Position :=
  if lastAddress = 0 then .absolute address
  else
    let diff : Int := address - lastAddress
    if 0 < diff ∧ diff ≤ 1000 then .plus diff.toNat
    else if diff < 0 ∧ -1000 ≤ diff then .minus diff.natAbs
    else if diff = 0 then .same
    else .absolute address

/-- `calls_by_address`: the calls of a function under their caller address, in order. -/
def callsByAddress (calls : List FunctionCall) : AddrMap (List FunctionCall) :=
  calls.foldl (fun m call => m.alter call.callerAddress [] (· ++ [call])) .empty

def callLines (call : FunctionCall) : List Line :=
  [.record (.cfn call.targetFunction), .record (.calls call.callCount.toNat call.targetFunction),
    .record (.cost (.absolute call.callerAddress) (callColumns call))]

/-- One pass of the loop over a function's instructions, threading the lines and `last_address`. -/
def writeInstruction (byAddress : AddrMap (List FunctionCall)) (acc : List Line × Nat)
    (instr : GroupedInstruction) : List Line × Nat :=
  let selfLine : Line :=
    .record (.cost (positionField acc.2 instr.address) (selfColumns instr.cost))
  match byAddress.find? instr.address with
  | none => (acc.1 ++ [selfLine], instr.address)
  | some calls =>
    calls.foldl (fun acc call => (acc.1 ++ callLines call, call.callerAddress))
      (acc.1 ++ [selfLine], instr.address)

def writeFunction (funcAddr : Nat) (func : GroupedFunction) : List Line :=
  .record (.fn funcAddr) ::
    (func.instructions.foldl (writeInstruction (callsByAddress func.calls)) ([], 0)).1 ++ [.text []]

def writeBody (data : GroupedProfilerData) : List Line :=
  if data.functions.entries = [] then []
  else data.functions.entries.flatMap fun p => writeFunction p.1 p.2

/-- The file `WriteToFile` writes. -/
def callgrindText (data : GroupedProfilerData) : List Char :=
  (writeHeader data ++ writeBody data).flatMap fun l => l.render ++ ['\n']

end SqluxProfiler
