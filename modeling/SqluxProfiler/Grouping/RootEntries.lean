import SqluxProfiler.Grouping.Entries
import SqluxProfiler.Data.Return

namespace SqluxProfiler

/-- The addresses executed while the call stack was empty: what `entry_points_` is declared to hold.
-/
def rootExecutes (d : ProfilerData) : List (BitVec 32) → List Nat
  | [] => []
  | w :: ws =>
    (if EventType.ofNat? (getEventType w) = some .instrExecute ∧ d.callStack = [] then
      [getEventAddress w] else []) ++ rootExecutes (processEvent d w) ws

theorem convertToGroupedData_entryPoints (d : ProfilerData) :
    (convertToGroupedData d).entryPoints = .empty := by
  unfold convertToGroupedData
  split <;> rfl

/-- After a top-level `INSTR_EXECUTE`, `GetEntryPoints` of the grouped data is still empty. -/
theorem entry_points_left_empty :
    rootExecutes .init [profilerRecordInstructionExecute 0x1000#32] = [0x1000] ∧
      (convertToGroupedData
        (processEvents .init [profilerRecordInstructionExecute 0x1000#32])).entryPoints.elems = [] :=
  ⟨by decide, by rw [convertToGroupedData_entryPoints]; rfl⟩

def CostsGrow (m m' : AddrMap InstructionCost) : Prop :=
  ∀ k c, m.find? k = some c → ∃ c', m'.find? k = some c' ∧ ∀ t ∈ c.calls.keys, t ∈ c'.calls.keys

theorem CostsGrow.refl (m : AddrMap InstructionCost) : CostsGrow m m :=
  fun _ c h => ⟨c, h, fun _ => id⟩

theorem CostsGrow.trans {m₁ m₂ m₃ : AddrMap InstructionCost} (h₁ : CostsGrow m₁ m₂)
    (h₂ : CostsGrow m₂ m₃) : CostsGrow m₁ m₃ := fun k c h => by
  obtain ⟨c₂, h₂', hc₂⟩ := h₁ k c h
  obtain ⟨c₃, h₃, hc₃⟩ := h₂ k c₂ h₂'
  exact ⟨c₃, h₃, fun t ht => hc₃ t (hc₂ t ht)⟩

theorem costsGrow_alter (m : AddrMap InstructionCost) (k : Nat) (d : InstructionCost)
    {f : InstructionCost → InstructionCost} (hf : ∀ c, ∀ t ∈ c.calls.keys, t ∈ (f c).calls.keys) :
    CostsGrow m (m.alter k d f) := fun k' c h => by
  rw [AddrMap.find?_alter]
  split
  · rename_i hk
    subst hk
    exact ⟨_, rfl, by rw [h]; exact hf c⟩
  · exact ⟨c, h, fun _ => id⟩

theorem costsGrow_updateCall (m : AddrMap InstructionCost) (s t : Nat) (f : CallInfo → CallInfo) :
    CostsGrow m (updateCall m s t f) :=
  costsGrow_alter m s _ fun _ _ h => (AddrMap.mem_keys_alter _ _ _ _).mpr (.inr h)

theorem costsGrow_updateJump (m : AddrMap InstructionCost) (s t : Nat) (f : CallInfo → CallInfo) :
    CostsGrow m (updateJump m s t f) :=
  costsGrow_alter m s _ fun _ _ => id

theorem costsGrow_bumpSelf (m : AddrMap InstructionCost) (k : Nat) (c : Counter) :
    CostsGrow m (m.alter k .zero (.bumpSelf c)) :=
  costsGrow_alter m k _ fun _ _ h => by cases c <;> exact h

theorem costsGrow_bumpFrame (c : Counter) (m : AddrMap InstructionCost) (f : CallFrame) :
    CostsGrow m (bumpFrame c m f) := by
  unfold bumpFrame
  refine (costsGrow_updateCall m f.callerPc f.address (.bumpInclusive c)).trans ?_
  generalize updateCall m f.callerPc f.address (.bumpInclusive c) = m'
  induction f.jumpRefs generalizing m' with
  | nil => exact .refl _
  | cons e refs ih => exact (costsGrow_updateJump _ _ _ _).trans (ih _)

theorem costsGrow_bumpStack (c : Counter) (stack : List CallFrame) (m : AddrMap InstructionCost) :
    CostsGrow m (bumpStack c stack m) := by
  unfold bumpStack
  induction stack generalizing m with
  | nil => exact .refl m
  | cons f stack ih => exact (costsGrow_bumpFrame c m f).trans (ih _)

theorem costsGrow_processEvent (d : ProfilerData) (w : BitVec 32) :
    CostsGrow d.instructionCosts (processEvent d w).instructionCosts := by
  unfold processEvent
  cases EventType.ofNat? (getEventType w) with
  | none => exact .refl _
  | some t =>
    cases t
    case instrExecute =>
      show CostsGrow _ (processInstructionExecute d (getEventAddress w)).instructionCosts
      refine (costsGrow_bumpSelf _ (getEventAddress w) .instructions).trans
        (.trans ?_ (costsGrow_bumpStack _ _ _))
      split
      · exact costsGrow_updateCall _ _ _ _
      · exact .refl _
    case jump => exact costsGrow_updateJump _ _ _ _
    case call => exact costsGrow_updateCall _ _ _ _
    case «return» =>
      show CostsGrow _ (processReturn d (getEventAddress w)).instructionCosts
      rw [(processReturn_eq_with d _).choose_spec]
      exact .refl _
    all_goals
      show CostsGrow _ (processAccess _ d).instructionCosts
      refine .trans ?_ (costsGrow_bumpStack _ _ _)
      split
      · exact costsGrow_bumpSelf _ _ _
      · exact .refl _

theorem costsGrow_processEvents (d : ProfilerData) (ws : List (BitVec 32)) :
    CostsGrow d.instructionCosts (processEvents d ws).instructionCosts := by
  induction ws generalizing d with
  | nil => exact .refl _
  | cons w ws ih => exact (costsGrow_processEvent d w).trans (ih _)

/-- `a` is in the table and the target of a call edge from address 0. -/
def RootEdge (m : AddrMap InstructionCost) (a : Nat) : Prop :=
  a ∈ m.keys ∧ ∃ c, m.find? 0 = some c ∧ a ∈ c.calls.keys

theorem RootEdge.grow {m m' : AddrMap InstructionCost} {a : Nat} (hm : CostsGrow m m')
    (h : RootEdge m a) : RootEdge m' a := by
  obtain ⟨ha, c, hc, hac⟩ := h
  obtain ⟨v, hv⟩ := (AddrMap.mem_keys_iff m).mp ha
  obtain ⟨v', hv', -⟩ := hm a v hv
  obtain ⟨c', hc', hcc⟩ := hm 0 c hc
  exact ⟨(AddrMap.mem_keys_iff m').mpr ⟨v', hv'⟩, c', hc', hcc a hac⟩

theorem rootEdge_processInstructionExecute {d : ProfilerData} (h : d.callStack = []) (a : Nat) :
    RootEdge (processInstructionExecute d a).instructionCosts a := by
  simp only [processInstructionExecute, h, if_true]
  refine RootEdge.grow (costsGrow_bumpStack _ _ _) ⟨?_, _, by simp [updateCall]; rfl, ?_⟩
  · exact (AddrMap.mem_keys_alter _ _ _ _).mpr (.inr ((AddrMap.mem_keys_alter _ _ _ _).mpr (.inl rfl)))
  · exact (AddrMap.mem_keys_alter _ _ _ _).mpr (.inl rfl)

theorem rootEdge_of_mem_rootExecutes {a : Nat} :
    ∀ (d : ProfilerData) (ws : List (BitVec 32)), a ∈ rootExecutes d ws →
      RootEdge (processEvents d ws).instructionCosts a
  | _, [], h => absurd h (List.not_mem_nil a)
  | d, w :: ws, h => by
    rw [rootExecutes, List.mem_append] at h
    rcases h with h | h
    · split at h
      · rename_i hw
        rw [List.mem_singleton] at h
        subst h
        exact (rootEdge_processInstructionExecute hw.2 _).grow
          (processEvent_instrExecute d hw.1 ▸ costsGrow_processEvents _ ws)
      · exact absurd h (List.not_mem_nil a)
    · exact rootEdge_of_mem_rootExecutes _ ws h

/-- Every address executed while the call stack was empty keys a function of the grouped data. -/
theorem rootExecutes_mem_functions (d : ProfilerData) (ws : List (BitVec 32)) {a : Nat}
    (ha : a ∈ rootExecutes d ws) :
    a ∈ (convertToGroupedData (processEvents d ws)).functions.keys := by
  rw [convertToGroupedData_functions]
  obtain ⟨hk, c, hc, ht⟩ := rootEdge_of_mem_rootExecutes d ws ha
  exact mem_keys_groupFunctions (callTarget_mem_entries ((AddrMap.find?_eq_some_iff _).mp hc) ht) hk

theorem rootExecutes_mem_functions_reset :
    0x2000 ∈ (convertToGroupedData (processEvents .init
      [profilerRecordInstructionExecute 0x1000#32, profilerRecordReturn 0#32,
        profilerRecordInstructionExecute 0x2000#32])).functions.keys :=
  rootExecutes_mem_functions _ _ (by decide)

end SqluxProfiler
