import SqluxProfiler.Grouping.Convert

namespace SqluxProfiler

section Stages

variable (entries : AddrSet) (costs : AddrMap InstructionCost)

theorem find?_instructionToFunction (a : Nat) :
    ∀ (l : List (Nat × InstructionCost)) (m : AddrMap Nat),
      (l.foldl (fun m p => m.alter p.1 0 fun _ => functionOf entries p.1) m).find? a =
        if a ∈ l.map Prod.fst then some (functionOf entries a) else m.find? a
  | [], m => by simp
  | p :: l, m => by
    rw [List.foldl_cons, find?_instructionToFunction a l, AddrMap.find?_alter]
    by_cases ha : a ∈ l.map Prod.fst
    · simp [ha]
    · by_cases hp : a = p.1 <;> simp [ha, hp]

theorem groupKey_eq {p : Nat × InstructionCost} (hp : p ∈ costs.entries) :
    ((instructionToFunction entries costs.entries).find? p.1).getD 0 = functionOf entries p.1 := by
  rw [instructionToFunction, find?_instructionToFunction,
    if_pos (List.mem_map_of_mem Prod.fst hp)]
  rfl

theorem find?_groupInstructions (f : Nat) :
    (groupInstructions (instructionToFunction entries costs.entries) costs.entries).find? f =
      if (costs.entries.filter (functionOf entries ·.1 = f)).isEmpty then none
      else some (costs.entries.filter (functionOf entries ·.1 = f)) := by
  have hf : costs.entries.filter
      (fun p => ((instructionToFunction entries costs.entries).find? p.1).getD 0 = f) =
      costs.entries.filter (functionOf entries ·.1 = f) :=
    List.filter_congr fun p hp => by rw [groupKey_eq entries costs hp]
  rw [groupInstructions, AddrMap.find?_foldl_append, hf]
  split <;> simp

theorem foldl_addInstruction (toFunction : AddrMap Nat) (cross : List (Nat × Nat)) :
    ∀ (l : List (Nat × InstructionCost)) (F : GroupedFunction),
      l.foldl (addInstruction toFunction cross) F =
        { F with
          instructions := F.instructions ++ l.map fun p => ⟨p.1, p.2⟩
          totalSelfInstructions := F.totalSelfInstructions + (l.map (·.2.selfCost)).sum
          totalSelfInstrFetches := F.totalSelfInstrFetches + (l.map (·.2.instrFetches)).sum
          totalSelfDataReads := F.totalSelfDataReads + (l.map (·.2.dataReads)).sum
          totalSelfDataWrites := F.totalSelfDataWrites + (l.map (·.2.dataWrites)).sum
          calls := F.calls ++ l.flatMap fun p => instructionCalls toFunction cross p.1 p.2 }
  | [], F => by simp
  | p :: l, F => by
    rw [List.foldl_cons, foldl_addInstruction toFunction cross l]
    simp [addInstruction, add_assoc]

theorem buildFunction_eq (toFunction : AddrMap Nat) (cross : List (Nat × Nat)) (f : Nat)
    (l : List (Nat × InstructionCost)) :
    buildFunction toFunction cross f l =
      ⟨f, l.map fun p => ⟨p.1, p.2⟩, l.flatMap fun p => instructionCalls toFunction cross p.1 p.2,
        (l.map (·.2.selfCost)).sum, (l.map (·.2.instrFetches)).sum, (l.map (·.2.dataReads)).sum,
        (l.map (·.2.dataWrites)).sum⟩ := by
  simp [buildFunction, foldl_addInstruction]

theorem groupFunctions_entries :
    (groupFunctions costs).entries =
      (groupInstructions (instructionToFunction (discoverEntries costs).1 costs.entries)
        costs.entries).entries.map fun p =>
          (p.1, buildFunction (instructionToFunction (discoverEntries costs).1 costs.entries)
            (discoverEntries costs).2 p.1 p.2) :=
  AddrMap.foldl_alter_entries _ Prod.fst _ _ (AddrMap.sorted _)

theorem find?_groupFunctions (f : Nat) {F : GroupedFunction} :
    (groupFunctions costs).find? f = some F ↔
      (costs.entries.filter (functionOf (discoverEntries costs).1 ·.1 = f)) ≠ [] ∧
        F = buildFunction (instructionToFunction (discoverEntries costs).1 costs.entries)
          (discoverEntries costs).2 f
          (costs.entries.filter (functionOf (discoverEntries costs).1 ·.1 = f)) := by
  rw [AddrMap.find?_eq_some_iff, groupFunctions_entries, List.mem_map]
  constructor
  · rintro ⟨⟨g, L⟩, hL, he⟩
    obtain ⟨rfl, rfl⟩ := Prod.mk.inj he
    have h := (AddrMap.find?_eq_some_iff _).mpr hL
    rw [find?_groupInstructions] at h
    split at h
    · cases h
    · rename_i hne
      cases h
      exact ⟨fun h' => hne (List.isEmpty_iff.mpr h'), rfl⟩
  · rintro ⟨hne, rfl⟩
    refine ⟨(f, _), (AddrMap.find?_eq_some_iff _).mp ?_, rfl⟩
    rw [find?_groupInstructions, if_neg fun h => hne (List.isEmpty_iff.mp h)]

theorem mem_instructions_of_find? {f : Nat} {F : GroupedFunction}
    (hF : (groupFunctions costs).find? f = some F) (gi : GroupedInstruction) :
    gi ∈ F.instructions ↔
      (gi.address, gi.cost) ∈ costs.entries ∧ functionOf (discoverEntries costs).1 gi.address = f := by
  obtain ⟨-, rfl⟩ := (find?_groupFunctions costs f).mp hF
  rw [buildFunction_eq]
  simp only [List.mem_map, List.mem_filter, decide_eq_true_eq]
  constructor
  · rintro ⟨p, ⟨hp, rfl⟩, rfl⟩
    exact ⟨hp, rfl⟩
  · rintro ⟨hp, hf⟩
    exact ⟨_, ⟨hp, hf⟩, rfl⟩

theorem sum_groupFunctions (total : GroupedFunction → BitVec 64) (g : InstructionCost → BitVec 64)
    (h : ∀ toFunction cross f l, total (buildFunction toFunction cross f l) = (l.map (g ·.2)).sum) :
    (groupFunctions costs).sum total = costs.sum g := by
  have hs := AddrMap.sum_foldl_append
    (fun p => ((instructionToFunction (discoverEntries costs).1 costs.entries).find? p.1).getD 0)
    (g ·.2) costs.entries .empty
  simp only [AddrMap.sum, groupFunctions_entries, List.map_map, Function.comp_def, h] at hs ⊢
  exact hs.trans (zero_add _)

end Stages

/-- The function map partitions the cost table: every address in exactly one function, keyed by its
owner, with sorted members and the self totals summed. -/
structure Partitions (costs : AddrMap InstructionCost) (entries : AddrSet)
    (functions : AddrMap GroupedFunction) : Prop where
  covers : ∀ a cost, costs.find? a = some cost →
    ∃ f F, functions.find? f = some F ∧ (⟨a, cost⟩ : GroupedInstruction) ∈ F.instructions
  unique : ∀ f F f' F' (gi gi' : GroupedInstruction), functions.find? f = some F →
    functions.find? f' = some F' → gi ∈ F.instructions → gi' ∈ F'.instructions →
    gi.address = gi'.address → f = f' ∧ gi = gi'
  sound : ∀ f F, functions.find? f = some F →
    ∀ gi ∈ F.instructions, costs.find? gi.address = some gi.cost
  sorted : ∀ f F, functions.find? f = some F →
    F.instructions ≠ [] ∧ (F.instructions.map (·.address)).Pairwise (· < ·)
  owned : ∀ f F, functions.find? f = some F →
    F.entryAddress = f ∧ ∀ gi ∈ F.instructions, IsOwner entries.elems gi.address f
  totals : ∀ f F, functions.find? f = some F →
    F.totalSelfInstructions = (F.instructions.map (·.cost.selfCost)).sum ∧
      F.totalSelfInstrFetches = (F.instructions.map (·.cost.instrFetches)).sum ∧
      F.totalSelfDataReads = (F.instructions.map (·.cost.dataReads)).sum ∧
      F.totalSelfDataWrites = (F.instructions.map (·.cost.dataWrites)).sum
  grand : functions.sum (·.totalSelfInstructions) = costs.sum (·.selfCost) ∧
    functions.sum (·.totalSelfInstrFetches) = costs.sum (·.instrFetches) ∧
    functions.sum (·.totalSelfDataReads) = costs.sum (·.dataReads) ∧
    functions.sum (·.totalSelfDataWrites) = costs.sum (·.dataWrites)

theorem groupFunctions_partitions (costs : AddrMap InstructionCost) :
    Partitions costs (discoverEntries costs).1 (groupFunctions costs) where
  covers a cost h := by
    have hp := (AddrMap.find?_eq_some_iff costs).mp h
    set f := functionOf (discoverEntries costs).1 a
    have hne : costs.entries.filter (functionOf (discoverEntries costs).1 ·.1 = f) ≠ [] :=
      List.ne_nil_of_mem (List.mem_filter.mpr ⟨hp, by simp [f]⟩)
    have hF := (find?_groupFunctions costs f).mpr ⟨hne, rfl⟩
    exact ⟨f, _, hF, (mem_instructions_of_find? costs hF _).mpr ⟨hp, rfl⟩⟩
  unique f F f' F' gi gi' hF hF' hg hg' ha := by
    obtain ⟨hp, rfl⟩ := (mem_instructions_of_find? costs hF gi).mp hg
    obtain ⟨hp', rfl⟩ := (mem_instructions_of_find? costs hF' gi').mp hg'
    have hc := ((AddrMap.find?_eq_some_iff costs).mpr hp).symm.trans
      (ha ▸ (AddrMap.find?_eq_some_iff costs).mpr hp')
    cases gi
    cases gi'
    simp_all
  sound f F hF gi hg := (AddrMap.find?_eq_some_iff costs).mpr ((mem_instructions_of_find? costs hF gi).mp hg).1
  sorted f F hF := by
    obtain ⟨hne, rfl⟩ := (find?_groupFunctions costs f).mp hF
    rw [buildFunction_eq]
    refine ⟨by simpa using hne, ?_⟩
    rw [List.map_map, List.pairwise_map]
    exact (costs.sorted.sublist (List.filter_sublist _))
  owned f F hF := by
    refine ⟨by obtain ⟨-, rfl⟩ := (find?_groupFunctions costs f).mp hF; rw [buildFunction_eq],
      fun gi hg => ?_⟩
    rw [← ((mem_instructions_of_find? costs hF gi).mp hg).2]
    exact functionOf_isOwner _ _
  totals f F hF := by
    obtain ⟨-, rfl⟩ := (find?_groupFunctions costs f).mp hF
    simp [buildFunction_eq, Function.comp_def]
  grand := by
    refine ⟨?_, ?_, ?_, ?_⟩ <;>
      exact sum_groupFunctions costs _ _ fun _ _ _ _ => by rw [buildFunction_eq]

theorem convertToGroupedData_functions (d : ProfilerData) :
    (convertToGroupedData d).functions = groupFunctions d.instructionCosts := by
  unfold convertToGroupedData
  split
  · rename_i h
    simp [groupFunctions, groupInstructions, h]
    rfl
  · rfl

/-- `ConvertToGroupedData` partitions every cost table. -/
theorem convertToGroupedData_partitions (d : ProfilerData) :
    Partitions d.instructionCosts (discoverEntries d.instructionCosts).1
      (convertToGroupedData d).functions := by
  rw [convertToGroupedData_functions]
  exact groupFunctions_partitions d.instructionCosts

end SqluxProfiler
