import SqluxProfiler.Data.Edges
import SqluxProfiler.Grouping.Entries

namespace SqluxProfiler

/-- A recorder call of the emulator: `Profiler_RecordInstructionExecute` in `ExecuteLoop`, or
`Profiler_RecordDataRead` or `Profiler_RecordDataWrite` in the accessors. -/
inductive EmulatorRecord where
  | instructionExecute (pc : BitVec 32)
  | dataRead (addr : BitVec 32)
  | dataWrite (addr : BitVec 32)
  deriving DecidableEq, Repr

def EmulatorRecord.word : EmulatorRecord → BitVec 32
  | .instructionExecute pc => profilerRecordInstructionExecute pc
  | .dataRead addr => profilerRecordDataRead addr
  | .dataWrite addr => profilerRecordDataWrite addr

/-- The address `ProcessEvent` executes for the record, if it is an instruction. -/
def EmulatorRecord.executed : EmulatorRecord → Option Nat
  | .instructionExecute pc => some (pc &&& 0xffffff#32).toNat
  | _ => none

@[simp] theorem processEvent_executeRecord (d : ProfilerData) (pc : BitVec 32) :
    processEvent d (EmulatorRecord.instructionExecute pc).word =
      processInstructionExecute d (pc &&& 0xffffff#32).toNat := by
  obtain ⟨ht, ha, -⟩ := profilerRecord_roundtrip .instrExecute pc 0 (by decide)
  exact (processEvent_instrExecute d ht).trans (by rw [ha])

@[simp] theorem processEvent_dataReadRecord (d : ProfilerData) (addr : BitVec 32) :
    processEvent d (EmulatorRecord.dataRead addr).word = processAccess .dataReads d :=
  processEvent_dataRead d (profilerRecord_roundtrip .dataRead addr 0 (by decide)).1

@[simp] theorem processEvent_dataWriteRecord (d : ProfilerData) (addr : BitVec 32) :
    processEvent d (EmulatorRecord.dataWrite addr).word = processAccess .dataWrites d :=
  processEvent_dataWrite d (profilerRecord_roundtrip .dataWrite addr 0 (by decide)).1

/-- The targets of the edges of kind `k` out of `s`. -/
def edgeTargets (k : EdgeKind) (m : AddrMap InstructionCost) (s : Nat) : List Nat :=
  ((m.find? s).map fun x => (k.edges x).keys).getD []

section Targets

variable {k : EdgeKind} {m : AddrMap InstructionCost} {s s' t' : Nat}

theorem edgeTargets_alter_of_edges {f : InstructionCost → InstructionCost}
    (hf : ∀ x, k.edges (f x) = k.edges x) :
    edgeTargets k (m.alter s' .zero f) s = edgeTargets k m s := by
  simp only [edgeTargets, AddrMap.find?_alter]
  split_ifs with h
  · subst h
    cases m.find? s <;> simp [hf]; rfl
  · rfl

theorem edgeTargets_updateCall_of_mem (g : CallInfo → CallInfo)
    (h : t' ∈ edgeTargets .call m s') :
    edgeTargets k (updateCall m s' t' g) s = edgeTargets k m s := by
  cases k
  case jump => exact edgeTargets_alter_of_edges fun _ => rfl
  case call =>
    simp only [edgeTargets, updateCall, AddrMap.find?_alter]
    split_ifs with hs
    · subst hs
      cases hx : m.find? s with
      | none => simp [edgeTargets, hx] at h
      | some x =>
        simp only [edgeTargets, hx, Option.map_some', Option.getD_some] at h
        simpa [EdgeKind.edges] using AddrMap.keys_alter_of_mem _ _ _ h
    · rfl

end Targets

/-- The table of a run whose first executed address is `a₀`: one call edge, `0 → a₀`, and no jump
edge. -/
structure FlatCosts (a₀ : Nat) (m : AddrMap InstructionCost) : Prop where
  calls : ∀ s, edgeTargets .call m s = if s = 0 then [a₀] else []
  jumps : ∀ s, edgeTargets .jump m s = []
  executed : a₀ ∈ m.keys

/-- The state of such a run: the root frame of `a₀`, a flat table, and the root edge called once and
charged with every instruction. -/
structure FlatProfile (a₀ : Nat) (d : ProfilerData) : Prop where
  stack : d.callStack = [rootFrame a₀]
  costs : FlatCosts a₀ d.instructionCosts
  rootCount : (edgeInfo .call d.instructionCosts 0 a₀).callCount = 1
  rootInclusive : (edgeInfo .call d.instructionCosts 0 a₀).inclusiveInstructions =
    d.totalInstructions

theorem bumpStack_rootFrame (c : Counter) (a : Nat) (m : AddrMap InstructionCost) :
    bumpStack c [rootFrame a] m = updateCall m 0 a (.bumpInclusive c) := rfl

section Steps

variable {a₀ : Nat} {m : AddrMap InstructionCost}

theorem FlatCosts.bumpSelf (h : FlatCosts a₀ m) (a : Nat) (c : Counter) :
    FlatCosts a₀ (m.alter a .zero (.bumpSelf c)) where
  calls s := (edgeTargets_alter_of_edges (EdgeKind.edges_bumpSelf .call c)).trans (h.calls s)
  jumps s := (edgeTargets_alter_of_edges (EdgeKind.edges_bumpSelf .jump c)).trans (h.jumps s)
  executed := (AddrMap.mem_keys_alter _ _ _ _).mpr (.inr h.executed)

theorem FlatCosts.bumpRoot (h : FlatCosts a₀ m) (c : Counter) :
    FlatCosts a₀ (bumpStack c [rootFrame a₀] m) := by
  have hroot : a₀ ∈ edgeTargets .call m 0 := by simp [h.calls 0]
  rw [bumpStack_rootFrame]
  exact ⟨fun s => (edgeTargets_updateCall_of_mem _ hroot).trans (h.calls s),
    fun s => (edgeTargets_updateCall_of_mem _ hroot).trans (h.jumps s),
    (AddrMap.mem_keys_alter _ _ _ _).mpr (.inr h.executed)⟩

theorem edgeInfo_bumpStack_root (c : Counter) (m : AddrMap InstructionCost) :
    edgeInfo .call (bumpStack c [rootFrame a₀] m) 0 a₀ =
      (edgeInfo .call m 0 a₀).bumpInclusive c := by
  rw [bumpStack_rootFrame, edgeInfo_updateCall, if_pos ⟨rfl, rfl, rfl⟩]

variable {d : ProfilerData}

theorem FlatProfile.execute (h : FlatProfile a₀ d) (a : Nat) :
    FlatProfile a₀ (processInstructionExecute d a) := by
  have he : SqluxProfiler.processInstructionExecute d a =
      ⟨bumpStack .instructions [rootFrame a₀]
        (d.instructionCosts.alter a .zero (.bumpSelf .instructions)), [rootFrame a₀], a,
        d.totalInstructions + 1⟩ := by
    simp [SqluxProfiler.processInstructionExecute, h.stack]
  have hr : edgeInfo .call (d.instructionCosts.alter a .zero (.bumpSelf .instructions)) 0 a₀ =
      edgeInfo .call d.instructionCosts 0 a₀ :=
    edgeInfo_alter_of_edges (EdgeKind.edges_bumpSelf .call _)
  rw [he]
  refine ⟨rfl, (h.costs.bumpSelf a _).bumpRoot _, ?_, ?_⟩ <;>
    simp only [edgeInfo_bumpStack_root, hr]
  · rw [CallInfo.callCount_bumpInclusive, h.rootCount]
  · rw [← h.rootInclusive]
    rfl

theorem FlatProfile.access (h : FlatProfile a₀ d) {c : Counter}
    (hc : c ≠ .instructions) : FlatProfile a₀ (processAccess c d) := by
  have hi : ∀ ci : CallInfo,
      (ci.bumpInclusive c).inclusiveInstructions = ci.inclusiveInstructions := fun ci => by
    cases c <;> first | exact absurd rfl hc | rfl
  -- the access charges `current_pc_` unless it is 0, which leaves the table flat and the root edge
  obtain ⟨m, hm, hr, he⟩ : ∃ m, FlatCosts a₀ m ∧
      edgeInfo .call m 0 a₀ = edgeInfo .call d.instructionCosts 0 a₀ ∧
      (processAccess c d).instructionCosts = bumpStack c [rootFrame a₀] m := by
    by_cases hp : d.currentPc = 0
    · exact ⟨_, h.costs, rfl, by simp [SqluxProfiler.processAccess, hp, h.stack]⟩
    · exact ⟨_, h.costs.bumpSelf d.currentPc c,
        edgeInfo_alter_of_edges (EdgeKind.edges_bumpSelf .call c), by simp [SqluxProfiler.processAccess, hp, h.stack]⟩
  refine ⟨h.stack, he ▸ hm.bumpRoot c, ?_, ?_⟩ <;> rw [he, edgeInfo_bumpStack_root, hr]
  · rw [CallInfo.callCount_bumpInclusive, h.rootCount]
  · rw [hi, h.rootInclusive]
    rfl

theorem FlatProfile.records (h : FlatProfile a₀ d) (rs : List EmulatorRecord) :
    FlatProfile a₀ (processEvents d (rs.map (·.word))) := by
  induction rs generalizing d with
  | nil => exact h
  | cons r rs ih =>
    rw [List.map_cons, processEvents_cons]
    cases r with
    | instructionExecute pc => rw [processEvent_executeRecord]; exact ih (h.execute _)
    | dataRead _ => rw [processEvent_dataReadRecord]; exact ih (h.access (by decide))
    | dataWrite _ => rw [processEvent_dataWriteRecord]; exact ih (h.access (by decide))

end Steps

theorem mem_edgeTargets {k : EdgeKind} {m : AddrMap InstructionCost} {s t : Nat} :
    t ∈ edgeTargets k m s ↔ ∃ c, (s, c) ∈ m.entries ∧ t ∈ (k.edges c).keys := by
  simp only [edgeTargets, ← AddrMap.find?_eq_some_iff]
  cases m.find? s <;> simp

private theorem eq_singleton_of_pairwise_lt {f : Nat} :
    ∀ {l : List Nat}, l.Pairwise (· < ·) → l ≠ [] → (∀ x ∈ l, x = f) → l = [f]
  | [], _, hne, _ => absurd rfl hne
  | x :: rest, hs, _, hl => by
    have hx := hl x (List.mem_cons_self _ _)
    have hr : rest = [] := List.eq_nil_iff_forall_not_mem.mpr fun y hy =>
      absurd (List.rel_of_pairwise_cons hs hy) (by rw [hx, hl y (List.mem_cons_of_mem _ hy)]; omega)
    rw [hx, hr]

theorem functionOf_of_single {E : AddrSet} {a₀ : Nat} (hE : ∀ x, x ∈ E.elems ↔ x = a₀) (a : Nat) :
    functionOf E a = if a₀ ≤ a then a₀ else a := by
  rcases functionOf_isOwner E a with ⟨ho, hle, -⟩ | ⟨heq, hall⟩
  · have h0 := (hE _).mp ho
    rw [h0] at hle ⊢
    rw [if_pos hle]
  · rw [if_neg (not_le.mpr (hall a₀ ((hE a₀).mpr rfl))), heq]

section Grouping

variable {a₀ : Nat} {m : AddrMap InstructionCost}

theorem FlatCosts.root_mem_entries (h : FlatCosts a₀ m) :
    ∃ c, (0, c) ∈ m.entries ∧ a₀ ∈ (EdgeKind.call.edges c).keys :=
  mem_edgeTargets.mp (by simp [h.calls 0])

theorem FlatCosts.discoverEntries (h : FlatCosts a₀ m) :
    (∀ x, x ∈ (discoverEntries m).1.elems ↔ x = a₀) ∧ (discoverEntries m).2 = [] := by
  have hj : ∀ l : List (Nat × InstructionCost), (∀ p ∈ l, p.2.jumps.keys = []) →
      ∀ acc, promoteJumps l acc = acc := by
    intro l
    induction l with
    | nil => exact fun _ _ => rfl
    | cons p l ih =>
      intro hl acc
      rw [promoteJumps, List.foldl_cons, hl p (List.mem_cons_self _ _), List.foldl_nil,
        ← promoteJumps, ih fun q hq => hl q (List.mem_cons_of_mem _ hq)]
  have hnj : ∀ p ∈ m.entries, p.2.jumps.keys = [] := fun p hp =>
    List.eq_nil_iff_forall_not_mem.mpr fun t ht => by
      simpa [h.jumps] using (mem_edgeTargets (k := .jump)).mpr ⟨p.2, hp, ht⟩
  rw [SqluxProfiler.discoverEntries, hj _ hnj]
  refine ⟨fun x => ?_, rfl⟩
  rw [mem_addCallTargets]
  constructor
  · rintro (hx | ⟨p, hp, hx⟩)
    · exact absurd hx (List.not_mem_nil _)
    · have := (mem_edgeTargets (k := .call)).mpr ⟨p.2, hp, hx⟩
      rw [h.calls] at this
      split_ifs at this
      · exact List.mem_singleton.mp this
      · exact absurd this (List.not_mem_nil _)
  · intro hx
    obtain ⟨c, hc, hx'⟩ := h.root_mem_entries
    exact .inr ⟨(0, c), hc, hx ▸ hx'⟩

theorem FlatCosts.edgeCalls (h : FlatCosts a₀ m) {s : Nat} {c : InstructionCost}
    (hp : (s, c) ∈ m.entries) :
    edgeCalls m [] s c = if s = 0 then [.ofCallInfo 0 a₀ (edgeInfo .call m 0 a₀)] else [] := by
  have hk : c.calls.keys = if s = 0 then [a₀] else [] := by
    rw [← h.calls s, edgeTargets, (AddrMap.find?_eq_some_iff m).mpr hp]
    rfl
  have hjumps : SqluxProfiler.edgeCalls m [] s c =
      (c.calls.entries.filter (·.1 ∈ m.keys)).map fun p => .ofCallInfo s p.1 p.2 := by
    simp [SqluxProfiler.edgeCalls]
  rw [hjumps]
  split_ifs at hk ⊢ with hs
  · subst hs
    cases hc : c.calls.entries with
    | nil => simp [AddrMap.keys, hc] at hk
    | cons p rest =>
      rw [AddrMap.keys, hc, List.map_cons, List.cons.injEq, List.map_eq_nil_iff] at hk
      obtain ⟨ht, rfl⟩ := hk
      have hv : edgeInfo .call m 0 a₀ = p.2 := by
        have hpc : c.calls.find? p.1 = some p.2 :=
          (AddrMap.find?_eq_some_iff _).mpr (by rw [hc]; exact List.mem_singleton_self _)
        simp [edgeInfo, (AddrMap.find?_eq_some_iff m).mpr hp, EdgeKind.edges, ← ht, hpc]
      simp [ht, h.executed, hv]
  · rw [AddrMap.keys, List.map_eq_nil_iff] at hk
    simp [hk]

private theorem flatMap_at_address {x : FunctionCall} :
    ∀ {l : List GroupedInstruction}, (l.map (·.address)).Pairwise (· < ·) →
      l.flatMap (fun gi => if gi.address = 0 then [x] else []) =
        if 0 ∈ l.map (·.address) then [x] else []
  | [], _ => rfl
  | g :: l, hs => by
    rw [List.map_cons, List.pairwise_cons] at hs
    rw [List.flatMap_cons, flatMap_at_address hs.2, List.map_cons]
    by_cases hg : g.address = 0
    · have : 0 ∉ l.map (·.address) := fun h0 => absurd (hs.1 0 h0) (by omega)
      simp [hg, this]
    · simp [hg, Ne.symm hg]

theorem FlatCosts.groupFunctions (h : FlatCosts a₀ m) {f : Nat} {F : GroupedFunction}
    (hF : (groupFunctions m).find? f = some F) :
    ((f = a₀ ∧ F.instructions.map (·.address) = m.keys.filter (a₀ ≤ ·)) ∨
        (f < a₀ ∧ F.instructions.map (·.address) = [f])) ∧
      F.calls = if 0 ∈ F.instructions.map (·.address) then
        [.ofCallInfo 0 a₀ (edgeInfo .call m 0 a₀)] else [] := by
  obtain ⟨hE, hX⟩ := h.discoverEntries
  have hs := (groupFunctions_partitions m).sorted f F hF
  have haddr : F.instructions.map (·.address) =
      m.keys.filter fun a => (if a₀ ≤ a then a₀ else a) = f := by
    obtain ⟨-, rfl⟩ := (find?_groupFunctions m f).mp hF
    simp only [buildFunction_eq, List.map_map, AddrMap.keys, List.filter_map,
      ← functionOf_of_single hE]
    rfl
  refine ⟨?_, ?_⟩
  · by_cases hf : f = a₀
    · refine .inl ⟨hf, haddr.trans (List.filter_congr fun a _ => ?_)⟩
      by_cases ha : a₀ ≤ a
      · simp [ha, hf]
      · simp only [ha, if_false, hf, decide_eq_decide]
        exact iff_false_intro (by omega)
    · have hlt : ∀ a ∈ F.instructions.map (·.address), a = f ∧ a < a₀ := fun a ha => by
        rw [haddr, List.mem_filter, decide_eq_true_eq] at ha
        split_ifs at ha with h1
        · exact absurd ha.2.symm hf
        · exact ⟨ha.2, by omega⟩
      obtain ⟨gi, hgi⟩ := List.exists_mem_of_ne_nil _ hs.1
      have hfa := hlt _ (List.mem_map_of_mem _ hgi)
      exact .inr ⟨hfa.1 ▸ hfa.2, eq_singleton_of_pairwise_lt hs.2 (by simpa using hs.1)
        fun a ha => (hlt a ha).1⟩
  · rw [calls_of_find?_groupFunctions hF, hX, List.flatMap_congr fun gi hgi =>
      h.edgeCalls ((mem_instructions_of_find? m hF gi).mp hgi).1]
    exact flatMap_at_address hs.2

end Grouping

end SqluxProfiler
