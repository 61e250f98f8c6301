import SqluxProfiler.Grouping.Partition

namespace SqluxProfiler

theorem mem_foldl_insert (keys : List Nat) (e : AddrSet) (x : Nat) :
    x ∈ (keys.foldl AddrSet.insert e).elems ↔ x ∈ e.elems ∨ x ∈ keys := by
  induction keys generalizing e with
  | nil => simp
  | cons k keys ih => rw [List.foldl_cons, ih, AddrSet.mem_insert, List.mem_cons]; tauto

theorem mem_addCallTargets (costs : List (Nat × InstructionCost)) (e : AddrSet) (x : Nat) :
    x ∈ (addCallTargets costs e).elems ↔ x ∈ e.elems ∨ ∃ p ∈ costs, x ∈ p.2.calls.keys := by
  induction costs generalizing e with
  | nil => simp [addCallTargets]
  | cons p costs ih =>
    rw [addCallTargets, List.foldl_cons, ← addCallTargets, ih, mem_foldl_insert]
    simp only [List.mem_cons, exists_eq_or_imp]
    tauto

/-- The jump `j` has an entry strictly between its endpoints, or goes from an entry to itself. -/
def Spans (entries : AddrSet) (j : Nat × Nat) : Prop :=
  (∃ e ∈ entries.elems, min j.1 j.2 < e ∧ e < max j.1 j.2) ∨ (j.1 = j.2 ∧ j.1 ∈ entries.elems)

theorem Spans.mono {entries entries' : AddrSet} {j : Nat × Nat}
    (hsub : ∀ x ∈ entries.elems, x ∈ entries'.elems) : Spans entries j → Spans entries' j :=
  Or.imp (fun ⟨e, he, h⟩ => ⟨e, hsub e he, h⟩) fun ⟨h, hm⟩ => ⟨h, hsub _ hm⟩

/-- What the jump pass keeps: it only adds entries, and each jump it records is a table jump that
spans an entry and has its target promoted. -/
structure DiscoveryInv (costs : List (Nat × InstructionCost)) (seed : AddrSet)
    (acc : AddrSet × List (Nat × Nat)) : Prop where
  grows : ∀ x ∈ seed.elems, x ∈ acc.1.elems
  promoted : ∀ j ∈ acc.2, j.2 ∈ acc.1.elems
  recorded : ∀ j ∈ acc.2, ∃ p ∈ costs, p.1 = j.1 ∧ j.2 ∈ p.2.jumps.keys
  spans : ∀ j ∈ acc.2, Spans acc.1 j

theorem discoveryInv_promoteJump {costs : List (Nat × InstructionCost)} {seed : AddrSet}
    {acc : AddrSet × List (Nat × Nat)} {p : Nat × InstructionCost} {t : Nat} (hp : p ∈ costs)
    (ht : t ∈ p.2.jumps.keys) (h : DiscoveryInv costs seed acc) :
    DiscoveryInv costs seed (promoteJump p.1 acc t) := by
  unfold promoteJump
  split
  · rename_i hc
    have hsub : ∀ x ∈ acc.1.elems, x ∈ (acc.1.insert t).elems :=
      fun x hx => AddrSet.mem_insert.mpr (.inr hx)
    refine ⟨fun x hx => hsub x (h.grows x hx), fun j hj => ?_, fun j hj => ?_, fun j hj => ?_⟩
    all_goals rcases List.mem_insert_iff.mp hj with rfl | hj
    · exact AddrSet.mem_insert.mpr (.inl rfl)
    · exact hsub _ (h.promoted j hj)
    · exact ⟨p, hp, rfl, ht⟩
    · exact h.recorded j hj
    · exact Spans.mono hsub ((crosses_iff _ _ _).mp hc)
    · exact Spans.mono hsub (h.spans j hj)
  · exact h

theorem discoveryInv_discoverEntries (costs : AddrMap InstructionCost) :
    DiscoveryInv costs.entries (addCallTargets costs.entries .empty) (discoverEntries costs) :=
  List.foldlRecOn (motive := DiscoveryInv costs.entries _) _ _ _
    ⟨fun _ hx => hx, nofun, nofun, nofun⟩ fun acc hacc _ hp =>
      List.foldlRecOn (motive := DiscoveryInv costs.entries _) _ _ acc hacc
        fun _ hacc _ ht => discoveryInv_promoteJump hp ht hacc

theorem callTarget_mem_entries {costs : AddrMap InstructionCost} {p : Nat × InstructionCost}
    (hp : p ∈ costs.entries) {t : Nat} (ht : t ∈ p.2.calls.keys) :
    t ∈ (discoverEntries costs).1.elems :=
  (discoveryInv_discoverEntries costs).grows t ((mem_addCallTargets _ _ t).mpr (.inr ⟨p, hp, ht⟩))

theorem crossTarget_mem_entries {costs : AddrMap InstructionCost} {j : Nat × Nat}
    (hj : j ∈ (discoverEntries costs).2) : j.2 ∈ (discoverEntries costs).1.elems :=
  (discoveryInv_discoverEntries costs).promoted j hj

/-- A jump marked as crossing is a jump of the table with an entry strictly between its endpoints,
or a jump from an entry onto itself. -/
theorem crossing_jump_spans_entry (costs : AddrMap InstructionCost) {s t : Nat}
    (h : (s, t) ∈ (discoverEntries costs).2) :
    t ∈ ((costs.find? s).map (·.jumps.keys)).getD [] ∧
      ((∃ e ∈ (discoverEntries costs).1.elems, min s t < e ∧ e < max s t) ∨
        (s = t ∧ s ∈ (discoverEntries costs).1.elems)) := by
  obtain ⟨p, hp, rfl, ht⟩ := (discoveryInv_discoverEntries costs).recorded _ h
  rw [(AddrMap.find?_eq_some_iff costs).mpr hp]
  exact ⟨ht, (discoveryInv_discoverEntries costs).spans _ h⟩

/-- A one-instruction loop (`bra *`) at the root entry `0x1000`. -/
def selfLoopRun : ProfilerData :=
  processEvents .init [profilerRecordInstructionExecute 0x1000#32, profilerRecordJump 0x1000#32,
    profilerRecordInstructionExecute 0x1000#32]

theorem crossing_jump_spans_entry_self_loop :
    (0x1000, 0x1000) ∈ (discoverEntries selfLoopRun.instructionCosts).2 ∧
      0x1000 ∈ ((selfLoopRun.instructionCosts.find? 0x1000).map (·.jumps.keys)).getD [] ∧
      ((∃ e ∈ (discoverEntries selfLoopRun.instructionCosts).1.elems,
          min 0x1000 0x1000 < e ∧ e < max 0x1000 0x1000) ∨
        (0x1000 = 0x1000 ∧ 0x1000 ∈ (discoverEntries selfLoopRun.instructionCosts).1.elems)) :=
  have h : (0x1000, 0x1000) ∈ (discoverEntries selfLoopRun.instructionCosts).2 := by decide
  ⟨h, crossing_jump_spans_entry _ h⟩

/-- The self-loop at an entry is marked as crossing and becomes a call of the function to itself. -/
theorem self_jump_at_entry_crosses :
    (0x1000, 0x1000) ∈ (discoverEntries selfLoopRun.instructionCosts).2 ∧
      ((convertToGroupedData selfLoopRun).functions.find? 0x1000).map (·.calls) =
        some [⟨0x1000, 0x1000, 1#64, 1#64, 0#64, 0#64, 0#64⟩] := by
  decide

/-- The jump `0x12 → 0x50` is examined before `0x200 → 0x30` promotes `0x30`, which lies between its
ends. -/
def lateEntryRun : ProfilerData :=
  processEvents .init [profilerRecordInstructionExecute 0x10#32,
    profilerRecordCall 0x100#32 0#32, profilerRecordInstructionExecute 0x100#32,
    profilerRecordReturn 0x12#32, profilerRecordInstructionExecute 0x12#32,
    profilerRecordJump 0x50#32, profilerRecordInstructionExecute 0x50#32,
    profilerRecordJump 0x200#32, profilerRecordInstructionExecute 0x200#32,
    profilerRecordJump 0x30#32, profilerRecordInstructionExecute 0x30#32]

/-- The single pass never promotes `0x50`, and the function of `0x12` gets no call to it. -/
theorem single_pass_misses_late_entry :
    0x50 ∈ ((lateEntryRun.instructionCosts.find? 0x12).map (·.jumps.keys)).getD [] ∧
      0x30 ∈ (discoverEntries lateEntryRun.instructionCosts).1.elems ∧
      0x50 ∈ lateEntryRun.instructionCosts.keys ∧
      0x50 ∉ (discoverEntries lateEntryRun.instructionCosts).1.elems ∧
      (0x12, 0x50) ∉ (discoverEntries lateEntryRun.instructionCosts).2 ∧
      ((convertToGroupedData lateEntryRun).functions.find? 0x10).map
        (·.calls.map (·.targetFunction)) = some [0x100] := by
  decide

/-- The `FunctionCall`s of one instruction: each call edge, then each crossing jump, to an address
of the table. -/
def edgeCalls (costs : AddrMap InstructionCost) (cross : List (Nat × Nat)) (s : Nat)
    (cost : InstructionCost) : List FunctionCall :=
  (cost.calls.entries.filter (·.1 ∈ costs.keys)).map (fun p => .ofCallInfo s p.1 p.2) ++
    (cost.jumps.entries.filter fun p => (s, p.1) ∈ cross ∧ p.1 ∈ costs.keys).map
      fun p => .ofCallInfo s p.1 p.2

private theorem filterMap_eq_map_filter {α β : Type} (f : α → Option β) (P : α → Bool)
    (g : α → β) : ∀ {l : List α}, (∀ a ∈ l, f a = if P a then some (g a) else none) →
      l.filterMap f = (l.filter P).map g
  | [], _ => rfl
  | a :: l, h => by
    rw [List.filterMap_cons, h a (List.mem_cons_self _ _),
      filterMap_eq_map_filter f P g fun b hb => h b (List.mem_cons_of_mem _ hb)]
    cases hP : P a <;> simp [List.filter_cons, hP]

theorem find?_instructionToFunction_eq (costs : AddrMap InstructionCost) (entries : AddrSet)
    (t : Nat) : (instructionToFunction entries costs.entries).find? t =
      if t ∈ costs.keys then some (functionOf entries t) else none := by
  rw [instructionToFunction, find?_instructionToFunction, AddrMap.find?_empty]
  rfl

theorem instructionCalls_eq_edgeCalls (costs : AddrMap InstructionCost)
    {p : Nat × InstructionCost} (hp : p ∈ costs.entries) :
    instructionCalls (instructionToFunction (discoverEntries costs).1 costs.entries)
        (discoverEntries costs).2 p.1 p.2 =
      edgeCalls costs (discoverEntries costs).2 p.1 p.2 := by
  unfold instructionCalls edgeCalls
  congr 1
  · refine filterMap_eq_map_filter _ _ _ fun q hq => ?_
    have hE := callTarget_mem_entries hp (List.mem_map_of_mem Prod.fst hq)
    rw [find?_instructionToFunction_eq, functionOf_of_mem hE]
    split <;> simp_all
  · refine filterMap_eq_map_filter _ _ _ fun q _ => ?_
    by_cases hc : (p.1, q.1) ∈ (discoverEntries costs).2
    · rw [find?_instructionToFunction_eq, functionOf_of_mem (crossTarget_mem_entries hc)]
      split <;> simp_all
    · simp [hc]

theorem mem_edgeCalls {costs : AddrMap InstructionCost} {cross : List (Nat × Nat)} {s : Nat}
    {cost : InstructionCost} {fc : FunctionCall} (h : fc ∈ edgeCalls costs cross s cost) :
    fc.callerAddress = s ∧ fc.targetFunction ∈ costs.keys := by
  simp only [edgeCalls, List.mem_append, List.mem_map, List.mem_filter, decide_eq_true_eq] at h
  rcases h with ⟨q, ⟨-, hq⟩, rfl⟩ | ⟨q, ⟨-, -, hq⟩, rfl⟩ <;> exact ⟨rfl, hq⟩

theorem mem_keys_groupFunctions {costs : AddrMap InstructionCost} {t : Nat}
    (hE : t ∈ (discoverEntries costs).1.elems) (ht : t ∈ costs.keys) :
    t ∈ (groupFunctions costs).keys := by
  obtain ⟨cost, hc⟩ := (AddrMap.mem_keys_iff costs).mp ht
  obtain ⟨f, F, hF, hg⟩ := (groupFunctions_partitions costs).covers t cost hc
  have hf := ((mem_instructions_of_find? costs hF _).mp hg).2
  rw [functionOf_of_mem hE] at hf
  exact (AddrMap.mem_keys_iff _).mpr ⟨F, hf ▸ hF⟩

theorem filter_flatMap_member (X : GroupedInstruction → List FunctionCall)
    (hX : ∀ gi, ∀ fc ∈ X gi, fc.callerAddress = gi.address) :
    ∀ {l : List GroupedInstruction}, (l.map (·.address)).Pairwise (· < ·) → ∀ {gi}, gi ∈ l →
      (l.flatMap X).filter (·.callerAddress = gi.address) = X gi
  | [], _, _, h => absurd h (List.not_mem_nil _)
  | g :: l, hs, gi, h => by
    rw [List.map_cons, List.pairwise_cons] at hs
    have hl : ∀ g' ∈ l, g.address < g'.address := fun g' hg' => hs.1 _ (List.mem_map_of_mem _ hg')
    rw [List.flatMap_cons, List.filter_append]
    rcases List.mem_cons.mp h with rfl | h
    · rw [List.filter_eq_self.mpr fun fc hfc => by simp [hX _ fc hfc],
        List.filter_eq_nil_iff.mpr fun fc hfc => ?_, List.append_nil]
      obtain ⟨g', hg', hfc⟩ := List.mem_flatMap.mp hfc
      have := hl g' hg'
      simp [hX _ fc hfc]
      omega
    · have := hl gi h
      rw [List.filter_eq_nil_iff.mpr fun fc hfc => by simp [hX _ fc hfc]; omega, List.nil_append,
        filter_flatMap_member X hX hs.2 h]

theorem calls_of_find?_groupFunctions {costs : AddrMap InstructionCost} {f : Nat}
    {F : GroupedFunction} (hF : (groupFunctions costs).find? f = some F) :
    F.calls = F.instructions.flatMap fun gi =>
      edgeCalls costs (discoverEntries costs).2 gi.address gi.cost := by
  obtain ⟨-, rfl⟩ := (find?_groupFunctions costs f).mp hF
  rw [buildFunction_eq, List.flatMap_map]
  exact List.flatMap_congr fun p hp =>
    instructionCalls_eq_edgeCalls costs (List.mem_filter.mp hp).1

theorem filter_calls_of_member {costs : AddrMap InstructionCost} {f : Nat} {F : GroupedFunction}
    (hF : (groupFunctions costs).find? f = some F) {gi : GroupedInstruction}
    (hgi : gi ∈ F.instructions) :
    F.calls.filter (·.callerAddress = gi.address) =
      edgeCalls costs (discoverEntries costs).2 gi.address gi.cost := by
  rw [calls_of_find?_groupFunctions hF]
  exact filter_flatMap_member _ (fun _ _ h => (mem_edgeCalls h).1)
    ((groupFunctions_partitions costs).sorted f F hF).2 hgi

theorem targetFunction_mem_keys {costs : AddrMap InstructionCost} {f : Nat} {F : GroupedFunction}
    (hF : (groupFunctions costs).find? f = some F) {fc : FunctionCall} (hfc : fc ∈ F.calls) :
    fc.targetFunction ∈ (groupFunctions costs).keys := by
  rw [calls_of_find?_groupFunctions hF] at hfc
  obtain ⟨gi, hgi, hfc⟩ := List.mem_flatMap.mp hfc
  refine mem_keys_groupFunctions ?_ (mem_edgeCalls hfc).2
  simp only [edgeCalls, List.mem_append, List.mem_map, List.mem_filter, decide_eq_true_eq] at hfc
  rcases hfc with ⟨q, ⟨hq, -⟩, rfl⟩ | ⟨q, ⟨hq, hx, -⟩, rfl⟩
  · exact callTarget_mem_entries ((mem_instructions_of_find? costs hF gi).mp hgi).1
      (List.mem_map_of_mem Prod.fst hq)
  · exact crossTarget_mem_entries hx

theorem callerAddress_of_mem_calls {costs : AddrMap InstructionCost} {f : Nat}
    {F : GroupedFunction} (hF : (groupFunctions costs).find? f = some F) {fc : FunctionCall}
    (hfc : fc ∈ F.calls) : ∃ gi ∈ F.instructions, fc.callerAddress = gi.address := by
  rw [calls_of_find?_groupFunctions hF] at hfc
  obtain ⟨gi, hgi, hfc⟩ := List.mem_flatMap.mp hfc
  exact ⟨gi, hgi, (mem_edgeCalls hfc).1⟩

theorem filter_calls_of_not_member {costs : AddrMap InstructionCost} {f f' : Nat}
    {F F' : GroupedFunction} (hF : (groupFunctions costs).find? f = some F)
    {gi : GroupedInstruction} (hgi : gi ∈ F.instructions)
    (hF' : (groupFunctions costs).find? f' = some F') (hne : f' ≠ f) :
    F'.calls.filter (·.callerAddress = gi.address) = [] :=
  List.filter_eq_nil_iff.mpr fun fc hfc heq => by
    obtain ⟨gi', hgi', hc⟩ := callerAddress_of_mem_calls hF' hfc
    exact hne ((groupFunctions_partitions costs).unique f' F' f F gi' gi hF' hF hgi' hgi
      (hc.symm.trans (of_decide_eq_true heq))).1

/-- Each call of a grouped function comes from a member and targets a function; the calls from a
member are exactly its edges, in no other function, and each address is a member of its owner's
function. -/
theorem convertToGroupedData_calls (d : ProfilerData) :
    (∀ f F, (convertToGroupedData d).functions.find? f = some F →
      (∀ fc ∈ F.calls, fc.targetFunction ∈ (convertToGroupedData d).functions.keys ∧
          fc.callerAddress ∈ F.instructions.map (·.address)) ∧
      ∀ gi ∈ F.instructions, F.calls.filter (·.callerAddress = gi.address) =
          edgeCalls d.instructionCosts (discoverEntries d.instructionCosts).2 gi.address gi.cost ∧
        ∀ f' F', (convertToGroupedData d).functions.find? f' = some F' → f' ≠ f →
          F'.calls.filter (·.callerAddress = gi.address) = []) ∧
    ∀ s cost, d.instructionCosts.find? s = some cost →
      ∃ F, (convertToGroupedData d).functions.find?
        (functionOf (discoverEntries d.instructionCosts).1 s) = some F ∧
          (⟨s, cost⟩ : GroupedInstruction) ∈ F.instructions := by
  rw [convertToGroupedData_functions]
  refine ⟨fun f F hF => ⟨fun fc hfc => ?_, fun gi hgi => ⟨filter_calls_of_member hF hgi,
    fun _ _ hF' hne => filter_calls_of_not_member hF hgi hF' hne⟩⟩, fun s cost hc => ?_⟩
  · obtain ⟨gi, hgi, hs⟩ := callerAddress_of_mem_calls hF hfc
    exact ⟨targetFunction_mem_keys hF hfc, hs ▸ List.mem_map_of_mem _ hgi⟩
  · obtain ⟨f, F, hF, hg⟩ := (groupFunctions_partitions _).covers s cost hc
    have hf := ((mem_instructions_of_find? _ hF _).mp hg).2
    exact ⟨F, hf ▸ hF, hg⟩

end SqluxProfiler
