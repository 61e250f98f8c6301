import SqluxProfiler.Grouping.RootEntries
import SqluxProfiler.Data.Conservation
import Mathlib.Algebra.Order.Ring.Rat
import Mathlib.Tactic.NormNum
import Mathlib.Tactic.Positivity

namespace SqluxProfiler

/-- The test both checkers make on an edge's inclusive counters; they are `uint64_t`, so it never
holds. -/
def anyNegative (instructions instrFetches dataReads dataWrites : BitVec 64) : Bool :=
  decide (instructions < 0) || decide (instrFetches < 0) || decide (dataReads < 0) ||
    decide (dataWrites < 0)

def checkProfilerInvariants (data : ProfilerData) : Bool :=
  let costs := data.instructionCosts
  let totalInstructions := data.totalInstructions
  (costs.sum (·.selfCost) == totalInstructions) &&
    costs.entries.all fun entry =>
      !decide (totalInstructions < entry.2.selfCost) &&
        entry.2.calls.entries.all fun callEntry =>
          !anyNegative callEntry.2.inclusiveInstructions callEntry.2.inclusiveInstrFetches
            callEntry.2.inclusiveDataReads callEntry.2.inclusiveDataWrites

def funcInclusive (func : GroupedFunction) : BitVec 64 :=
  func.calls.foldl (fun s call => s + call.inclusiveInstructions) func.totalSelfInstructions

/-- Invariants 1 and 2 of one function. -/
def checkFunction (functions : AddrMap GroupedFunction) (func : GroupedFunction) : Bool :=
  ((func.instructions.map (·.cost.selfCost)).sum == func.totalSelfInstructions) &&
    func.calls.all fun call =>
      !anyNegative call.inclusiveInstructions call.inclusiveInstrFetches call.inclusiveDataReads
        call.inclusiveDataWrites && (functions.find? call.targetFunction).isSome

def checkGroupedInvariants (data : GroupedProfilerData) : Bool :=
  let functions := data.functions
  let totalInstructions := data.totalInstructions
  let entryPointTotal := data.entryPoints.elems.foldl
    (fun s addr => s + ((functions.find? addr).map funcInclusive).getD 0) 0
  (functions.entries.all fun entry => checkFunction functions entry.2) &&
    (functions.sum (·.totalSelfInstructions) == totalInstructions) &&
    (data.entryPoints.elems.all fun addr => (functions.find? addr).isSome) &&
    !decide ((entryPointTotal.toNat : ℚ) < totalInstructions.toNat * (99 / 100)) &&
    !decide ((entryPointTotal.toNat : ℚ) > totalInstructions.toNat * (101 / 100))

@[simp] theorem anyNegative_eq_false (a b c d : BitVec 64) : anyNegative a b c d = false := by
  simp [anyNegative, BitVec.lt_def]

theorem selfCost_eq_selfAt {costs : AddrMap InstructionCost} {e : Nat × InstructionCost}
    (he : e ∈ costs.entries) : e.2.selfCost = selfAt .instructions costs e.1 := by
  simp [selfAt, (AddrMap.find?_eq_some_iff costs).mpr he, Counter.self]

/-- From the constructor's state, fewer than `2^64` `INSTR_EXECUTE` words leave a table the raw
checker passes. -/
theorem checkProfilerInvariants_processEvents (ws : List (BitVec 32))
    (h : ws.countP (fun w => getEventType w = EventType.instrExecute.toNat) < 2^64) :
    checkProfilerInvariants (processEvents .init ws) = true := by
  obtain ⟨hsum, htotal⟩ := selfTotal_processEvents ws
  simp only [checkProfilerInvariants, Bool.and_eq_true, beq_iff_eq, List.all_eq_true,
    anyNegative_eq_false, Bool.not_false, implies_true, and_true, Bool.not_eq_true',
    decide_eq_false_iff_not]
  refine ⟨hsum, fun e he => ?_⟩
  have hle : ws.countP (fun w => getEventType w = EventType.instrExecute.toNat ∧
      getEventAddress w = e.1) ≤
        ws.countP (fun w => getEventType w = EventType.instrExecute.toNat) :=
    List.countP_mono_left fun _ _ hw => decide_eq_true (of_decide_eq_true hw).1
  rw [selfCost_eq_selfAt he, selfAt_processEvents, htotal, BitVec.lt_def, BitVec.toNat_ofNat,
    BitVec.toNat_ofNat, Nat.mod_eq_of_lt h, Nat.mod_eq_of_lt (lt_of_le_of_lt hle h), not_lt]
  exact hle

theorem checkProfilerInvariants_processEvents_exec :
    [profilerRecordInstructionExecute 0x1000#32].countP
        (fun w => getEventType w = EventType.instrExecute.toNat) < 2^64 ∧
      checkProfilerInvariants (processEvents .init [profilerRecordInstructionExecute 0x1000#32]) :=
  ⟨by decide, checkProfilerInvariants_processEvents _ (by decide)⟩

@[simp] theorem AddrSet.empty_elems : AddrSet.empty.elems = [] := rfl

@[simp] theorem convertToGroupedData_totalInstructions (d : ProfilerData) :
    (convertToGroupedData d).totalInstructions = d.totalInstructions := by
  unfold convertToGroupedData
  split <;> rfl

theorem checkFunction_groupFunctions (costs : AddrMap InstructionCost) {f : Nat}
    {F : GroupedFunction} (hF : (groupFunctions costs).find? f = some F) :
    checkFunction (groupFunctions costs) F = true := by
  simp only [checkFunction, Bool.and_eq_true, beq_iff_eq, List.all_eq_true, anyNegative_eq_false,
    Bool.not_false, Bool.true_and, Option.isSome_iff_exists]
  exact ⟨((groupFunctions_partitions costs).totals f F hF).1.symm, fun fc hfc =>
    (AddrMap.mem_keys_iff _).mp (targetFunction_mem_keys hF hfc)⟩

theorem checkGroupedInvariants_convertToGroupedData (d : ProfilerData)
    (hd : selfTotal .instructions d.instructionCosts = d.totalInstructions) :
    checkGroupedInvariants (convertToGroupedData d) = (d.totalInstructions == 0) := by
  have hfun : ((groupFunctions d.instructionCosts).entries.all fun e =>
      checkFunction (groupFunctions d.instructionCosts) e.2) = true :=
    List.all_eq_true.mpr fun e he =>
      checkFunction_groupFunctions _ ((AddrMap.find?_eq_some_iff _).mpr he)
  have hsum : (groupFunctions d.instructionCosts).sum (·.totalSelfInstructions) =
      d.totalInstructions := (groupFunctions_partitions _).grand.1.trans hd
  simp only [checkGroupedInvariants, convertToGroupedData_functions,
    convertToGroupedData_entryPoints, convertToGroupedData_totalInstructions, hfun, hsum,
    beq_self_eq_true, Bool.true_and]
  rcases eq_or_ne d.totalInstructions 0 with h0 | h0
  · simp [h0]
  · have hT : (0 : ℚ) < d.totalInstructions.toNat :=
      Nat.cast_pos.mpr (Nat.pos_of_ne_zero fun h => h0 (BitVec.eq_of_toNat_eq h))
    have h99 : (0 : ℚ) < d.totalInstructions.toNat * (99 / 100) := mul_pos hT (by norm_num)
    have h101 : (0 : ℚ) ≤ d.totalInstructions.toNat * (101 / 100) := by positivity
    simpa [h99, h101] using h0

/-- After any stream from the constructor's state, the grouped checker passes exactly when the
number of `INSTR_EXECUTE` words is a multiple of `2^64`: `entry_points_` stays empty. -/
theorem checkGroupedInvariants_processEvents (ws : List (BitVec 32)) :
    checkGroupedInvariants (convertToGroupedData (processEvents .init ws)) =
      (ws.countP (fun w => getEventType w = EventType.instrExecute.toNat) % 2^64 == 0) := by
  obtain ⟨hsum, htotal⟩ := selfTotal_processEvents ws
  rw [checkGroupedInvariants_convertToGroupedData _ hsum, htotal, Bool.eq_iff_iff, beq_iff_eq,
    beq_iff_eq, BitVec.toNat_eq, BitVec.toNat_ofNat]
  rfl

end SqluxProfiler
