import SqluxProfiler.Event.Codec
import SqluxProfiler.Data.AddrMap

namespace SqluxProfiler

/-- `InstructionCost::CallInfo`; the `uint64_t` counters wrap. -/
structure CallInfo where
  callCount : BitVec 64
  inclusiveInstructions : BitVec 64
  inclusiveInstrFetches : BitVec 64
  inclusiveDataReads : BitVec 64
  inclusiveDataWrites : BitVec 64
  deriving DecidableEq, Repr

/-- `CallInfo()`. -/
def CallInfo.zero : CallInfo := ⟨0, 0, 0, 0, 0⟩

structure InstructionCost where
  selfCost : BitVec 64
  instrFetches : BitVec 64
  dataReads : BitVec 64
  dataWrites : BitVec 64
  calls : AddrMap CallInfo
  jumps : AddrMap CallInfo
  deriving DecidableEq

/-- `InstructionCost()`. -/
def InstructionCost.zero : InstructionCost := ⟨0, 0, 0, 0, .empty, .empty⟩

/-- The four costs an event can add. -/
inductive Counter where
  | instructions
  | instrFetches
  | dataReads
  | dataWrites
  deriving DecidableEq, Repr

def Counter.eventType : Counter → EventType
  | .instructions => .instrExecute
  | .instrFetches => .instrRead
  | .dataReads => .dataRead
  | .dataWrites => .dataWrite

def Counter.self : Counter → InstructionCost → BitVec 64
  | .instructions, c => c.selfCost
  | .instrFetches, c => c.instrFetches
  | .dataReads, c => c.dataReads
  | .dataWrites, c => c.dataWrites

def Counter.inclusive : Counter → CallInfo → BitVec 64
  | .instructions, ci => ci.inclusiveInstructions
  | .instrFetches, ci => ci.inclusiveInstrFetches
  | .dataReads, ci => ci.inclusiveDataReads
  | .dataWrites, ci => ci.inclusiveDataWrites

def InstructionCost.bumpSelf : Counter → InstructionCost → InstructionCost
  | .instructions, c => { c with selfCost := c.selfCost + 1 }
  | .instrFetches, c => { c with instrFetches := c.instrFetches + 1 }
  | .dataReads, c => { c with dataReads := c.dataReads + 1 }
  | .dataWrites, c => { c with dataWrites := c.dataWrites + 1 }

def CallInfo.bumpInclusive : Counter → CallInfo → CallInfo
  | .instructions, ci => { ci with inclusiveInstructions := ci.inclusiveInstructions + 1 }
  | .instrFetches, ci => { ci with inclusiveInstrFetches := ci.inclusiveInstrFetches + 1 }
  | .dataReads, ci => { ci with inclusiveDataReads := ci.inclusiveDataReads + 1 }
  | .dataWrites, ci => { ci with inclusiveDataWrites := ci.inclusiveDataWrites + 1 }

def CallInfo.bumpCount (ci : CallInfo) : CallInfo := { ci with callCount := ci.callCount + 1 }

/-- `CallFrame`. `jumpRefs` holds the keys `(s, t)` of `jump_refs`, each mapped to
`instruction_costs_[s].jumps[t]`. -/
structure CallFrame where
  address : Nat
  callerPc : Nat
  returnAddress : Nat
  jumpRefs : List (Nat × Nat)
  deriving DecidableEq, Repr

structure ProfilerData where
  instructionCosts : AddrMap InstructionCost
  callStack : List CallFrame
  currentPc : Nat
  totalInstructions : BitVec 64
  deriving DecidableEq

namespace ProfilerData

/-- `ProfilerData()`. -/
def init : ProfilerData := ⟨.empty, [], 0, 0⟩

/-- `Clear()`. -/
def clear (_ : ProfilerData) : ProfilerData := ⟨.empty, [], 0, 0⟩

@[simp] theorem clear_eq (d : ProfilerData) : d.clear = init := rfl

end ProfilerData

/-- `instruction_costs_[s].calls[t]` updated by `f`. -/
def updateCall (costs : AddrMap InstructionCost) (s t : Nat) (f : CallInfo → CallInfo) :
    AddrMap InstructionCost :=
  costs.alter s .zero fun c => { c with calls := c.calls.alter t .zero f }

/-- `instruction_costs_[s].jumps[t]` updated by `f`. -/
def updateJump (costs : AddrMap InstructionCost) (s t : Nat) (f : CallInfo → CallInfo) :
    AddrMap InstructionCost :=
  costs.alter s .zero fun c => { c with jumps := c.jumps.alter t .zero f }

/-- One frame's part of the stack loop: its call edge, then its active jump edges. -/
def bumpFrame (c : Counter) (costs : AddrMap InstructionCost) (f : CallFrame) :
    AddrMap InstructionCost :=
  f.jumpRefs.foldl (fun m e => updateJump m e.1 e.2 (.bumpInclusive c))
    (updateCall costs f.callerPc f.address (.bumpInclusive c))

/-- The loop over `call_stack_` of every event that adds a cost. -/
def bumpStack (c : Counter) (stack : List CallFrame) (costs : AddrMap InstructionCost) :
    AddrMap InstructionCost :=
  stack.foldl (bumpFrame c) costs

/-- The frame pushed on an empty stack. -/
def rootFrame (address : Nat) : CallFrame := ⟨address, 0, 0, []⟩

def processInstructionExecute (d : ProfilerData) (address : Nat) : ProfilerData :=
  let executed := d.instructionCosts.alter address .zero (.bumpSelf .instructions)
  let costs := if d.callStack = [] then updateCall executed 0 address .bumpCount else executed
  let stack := if d.callStack = [] then [rootFrame address] else d.callStack
  { instructionCosts := bumpStack .instructions stack costs
    callStack := stack
    currentPc := address
    totalInstructions := d.totalInstructions + 1 }

/-- `call_stack_.back().jump_refs.insert_or_assign(...)`, nothing on an empty stack. -/
def activateJump : List CallFrame → Nat × Nat → List CallFrame
  | [], _ => []
  | [f], e => [{ f with jumpRefs := f.jumpRefs.insert e }]
  | f :: g :: rest, e => f :: activateJump (g :: rest) e

theorem map_activateJump {α : Type} (g : CallFrame → α)
    (hg : ∀ f r, g { f with jumpRefs := r } = g f) (e : Nat × Nat) :
    ∀ l : List CallFrame, (activateJump l e).map g = l.map g
  | [] => rfl
  | [f] => by simp [activateJump, hg]
  | f :: f' :: rest => by
    rw [activateJump, List.map_cons, map_activateJump g hg e (f' :: rest)]
    rfl

def processJump (d : ProfilerData) (address : Nat) : ProfilerData :=
  { d with
    instructionCosts := updateJump d.instructionCosts d.currentPc address .bumpCount
    callStack := activateJump d.callStack (d.currentPc, address)
    currentPc := address }

/-- The edge is created even from address 0, where its count stays; the return address is computed
in `uint32_t`. -/
def processCall (d : ProfilerData) (address returnOffset : Nat) : ProfilerData :=
  { d with
    instructionCosts := updateCall d.instructionCosts d.currentPc address
      fun ci => if d.currentPc ≠ 0 then ci.bumpCount else ci
    callStack := d.callStack ++ [⟨address, d.currentPc, (d.currentPc + 2 + returnOffset) % 2^32, []⟩]
    currentPc := address }

/-- The downward search of `ProcessReturn` for `frames_to_pop`. -/
def findFramesToPop (stack : List CallFrame) (address : Nat) : Nat → Option Nat
  | 0 => none
  | i + 1 =>
    if (stack[i]?.map (·.returnAddress)) = some address then some (stack.length - i)
    else findFramesToPop stack address i

/-- `n` times `call_stack_.pop_back()`. -/
def popFrames (n : Nat) (stack : List CallFrame) : List CallFrame := List.dropLast^[n] stack

def processReturn (d : ProfilerData) (address : Nat) : ProfilerData :=
  match d.callStack.getLast? with
  | none => { d with currentPc := address }
  | some top =>
    if top.returnAddress = address then
      { d with callStack := d.callStack.dropLast, currentPc := address }
    else
      match findFramesToPop d.callStack address d.callStack.length with
      | some n => { d with callStack := popFrames n d.callStack, currentPc := address }
      | none => { d with callStack := [], currentPc := address }

theorem processReturn_eq_with (d : ProfilerData) (x : Nat) :
    ∃ stack, processReturn d x = { d with callStack := stack, currentPc := x } := by
  unfold processReturn
  split
  · exact ⟨d.callStack, rfl⟩
  · split
    · exact ⟨_, rfl⟩
    · split <;> exact ⟨_, rfl⟩

@[simp] theorem processReturn_instructionCosts (d : ProfilerData) (a : Nat) :
    (processReturn d a).instructionCosts = d.instructionCosts := by
  rw [(processReturn_eq_with d a).choose_spec]

@[simp] theorem processReturn_totalInstructions (d : ProfilerData) (a : Nat) :
    (processReturn d a).totalInstructions = d.totalInstructions := by
  rw [(processReturn_eq_with d a).choose_spec]

/-- `ProcessDataRead`, `ProcessDataWrite` and `ProcessInstrRead`, which differ only in their
counter. -/
def processAccess (c : Counter) (d : ProfilerData) : ProfilerData :=
  let costs :=
    if d.currentPc ≠ 0 then d.instructionCosts.alter d.currentPc .zero (.bumpSelf c)
    else d.instructionCosts
  { d with instructionCosts := bumpStack c d.callStack costs }

def processDataRead (d : ProfilerData) (_address : Nat) : ProfilerData :=
  processAccess .dataReads d

def processDataWrite (d : ProfilerData) (_address : Nat) : ProfilerData :=
  processAccess .dataWrites d

def processInstrRead (d : ProfilerData) (_address : Nat) : ProfilerData :=
  processAccess .instrFetches d

def processEvent (d : ProfilerData) (event : BitVec 32) : ProfilerData :=
  let address := getEventAddress event
  match EventType.ofNat? (getEventType event) with
  | some .instrExecute => processInstructionExecute d address
  | some .jump => processJump d address
  | some .call => processCall d address (getReturnOffset event)
  | some .«return» => processReturn d address
  | some .dataRead => processDataRead d address
  | some .dataWrite => processDataWrite d address
  | some .instrRead => processInstrRead d address
  | none => d

/-- A stream of words fed one by one to `ProcessEvent`. -/
def processEvents (d : ProfilerData) (events : List (BitVec 32)) : ProfilerData :=
  events.foldl processEvent d

@[simp] theorem processEvents_nil (d : ProfilerData) : processEvents d [] = d := rfl

@[simp] theorem processEvents_append (d : ProfilerData) (xs ys : List (BitVec 32)) :
    processEvents d (xs ++ ys) = processEvents (processEvents d xs) ys :=
  List.foldl_append _ _ _ _

@[simp] theorem processEvents_cons (d : ProfilerData) (w : BitVec 32) (ws : List (BitVec 32)) :
    processEvents d (w :: ws) = processEvents (processEvent d w) ws := rfl

section Dispatch

variable (d : ProfilerData) {w : BitVec 32}

theorem processEvent_instrExecute (hw : EventType.ofNat? (getEventType w) = some .instrExecute) :
    processEvent d w = processInstructionExecute d (getEventAddress w) := by
  unfold processEvent; rw [hw]

theorem processEvent_jump (hw : EventType.ofNat? (getEventType w) = some .jump) :
    processEvent d w = processJump d (getEventAddress w) := by
  unfold processEvent; rw [hw]

theorem processEvent_call (hw : EventType.ofNat? (getEventType w) = some .call) :
    processEvent d w = processCall d (getEventAddress w) (getReturnOffset w) := by
  unfold processEvent; rw [hw]

theorem processEvent_return (hw : EventType.ofNat? (getEventType w) = some .«return») :
    processEvent d w = processReturn d (getEventAddress w) := by
  unfold processEvent; rw [hw]

theorem processEvent_dataRead (hw : EventType.ofNat? (getEventType w) = some .dataRead) :
    processEvent d w = processDataRead d (getEventAddress w) := by
  unfold processEvent; rw [hw]

theorem processEvent_dataWrite (hw : EventType.ofNat? (getEventType w) = some .dataWrite) :
    processEvent d w = processDataWrite d (getEventAddress w) := by
  unfold processEvent; rw [hw]

theorem processEvent_instrRead (hw : EventType.ofNat? (getEventType w) = some .instrRead) :
    processEvent d w = processInstrRead d (getEventAddress w) := by
  unfold processEvent; rw [hw]

end Dispatch

end SqluxProfiler
