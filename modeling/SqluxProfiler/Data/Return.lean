import SqluxProfiler.Data.ProfilerData

namespace SqluxProfiler

theorem popFrames_eq_take (n : Nat) (stack : List CallFrame) :
    popFrames n stack = stack.take (stack.length - n) := by
  induction n generalizing stack with
  | zero => simp [popFrames]
  | succ n ih =>
    rw [popFrames, Function.iterate_succ_apply, ← popFrames, ih, List.dropLast_eq_take,
      List.take_take, List.length_take]
    congr 1
    omega

theorem findFramesToPop_of_match {stack : List CallFrame} {x i : Nat}
    (hi : stack[i]?.map (·.returnAddress) = some x) :
    ∀ k, i < k → (∀ j, i < j → j < k → stack[j]?.map (·.returnAddress) ≠ some x) →
      findFramesToPop stack x k = some (stack.length - i)
  | 0, h, _ => absurd h (Nat.not_lt_zero _)
  | k + 1, h, hj => by
    rw [findFramesToPop]
    by_cases hk : k = i
    · subst hk
      rw [if_pos hi]
    · rw [if_neg (hj k (by omega) (by omega))]
      exact findFramesToPop_of_match hi k (by omega) fun j h₁ h₂ => hj j h₁ (by omega)

theorem findFramesToPop_of_none {stack : List CallFrame} {x : Nat} :
    ∀ k, (∀ j < k, stack[j]?.map (·.returnAddress) ≠ some x) → findFramesToPop stack x k = none
  | 0, _ => rfl
  | k + 1, h => by
    rw [findFramesToPop, if_neg (h k (Nat.lt_succ_self k))]
    exact findFramesToPop_of_none k fun j hj => h j (Nat.lt_succ_of_lt hj)

/-- With a frame returning to `x`, `ProcessReturn` keeps the frames below the innermost one. -/
theorem processReturn_of_match {d : ProfilerData} {x i : Nat} (hi : i < d.callStack.length)
    (hx : d.callStack[i].returnAddress = x)
    (hlast : ∀ j (hj : j < d.callStack.length), i < j → d.callStack[j].returnAddress ≠ x) :
    processReturn d x = { d with callStack := d.callStack.take i, currentPc := x } := by
  have htop : d.callStack.getLast? = some d.callStack[d.callStack.length - 1] := by
    rw [List.getLast?_eq_getElem?, List.getElem?_eq_getElem]
  unfold processReturn
  rw [htop]
  dsimp only
  split
  · rename_i htx
    have hi' : i = d.callStack.length - 1 := by
      by_contra hne
      exact hlast _ (by omega) (by omega) htx
    rw [List.dropLast_eq_take, hi']
  · have hsearch := @findFramesToPop_of_match d.callStack x i
      (by rw [List.getElem?_eq_getElem hi]; exact congrArg some hx) _ hi fun j h₁ h₂ => by
        rw [List.getElem?_eq_getElem h₂]
        exact fun h => hlast j h₂ h₁ (Option.some_injective _ h)
    simp only [hsearch, popFrames_eq_take]
    congr 2
    omega

theorem processReturn_of_top {d : ProfilerData} {x : Nat} {rest : List CallFrame} {top : CallFrame}
    (hs : d.callStack = rest ++ [top]) (hx : top.returnAddress = x) :
    processReturn d x = { d with callStack := rest, currentPc := x } := by
  unfold processReturn
  rw [hs, List.getLast?_append_of_ne_nil _ (List.cons_ne_nil _ _)]
  simp [hx]

theorem processReturn_of_no_match {d : ProfilerData} {x : Nat}
    (h : ∀ f ∈ d.callStack, f.returnAddress ≠ x) :
    processReturn d x = { d with callStack := [], currentPc := x } := by
  unfold processReturn
  split
  · rename_i hn
    rw [List.getLast?_eq_none_iff.mp hn]
  · rename_i top htop
    rw [if_neg (h top (List.mem_of_getLast?_eq_some htop)), findFramesToPop_of_none]
    intro j _
    cases hj : d.callStack[j]? with
    | none => simp
    | some f => simpa using h f (List.getElem?_mem hj)

/-- A `RETURN` to `x` sets `current_pc_` to `x`, leaves the costs alone, and keeps exactly the
frames below the innermost frame returning to `x`, or none without one. -/
theorem return_unwinds_to_innermost_match (d : ProfilerData) (w : BitVec 32)
    (hw : EventType.ofNat? (getEventType w) = some .«return») :
    (processEvent d w).currentPc = getEventAddress w ∧
      (processEvent d w).instructionCosts = d.instructionCosts ∧
      (processEvent d w).totalInstructions = d.totalInstructions ∧
      (∀ i (hi : i < d.callStack.length), d.callStack[i].returnAddress = getEventAddress w →
        (∀ j (hj : j < d.callStack.length), i < j →
          d.callStack[j].returnAddress ≠ getEventAddress w) →
        (processEvent d w).callStack = d.callStack.take i) ∧
      ((∀ f ∈ d.callStack, f.returnAddress ≠ getEventAddress w) →
        (processEvent d w).callStack = []) := by
  rw [processEvent_return d hw]
  obtain ⟨stack, h⟩ := processReturn_eq_with d (getEventAddress w)
  exact ⟨by rw [h], by rw [h], by rw [h], fun i hi hx hlast => by
    rw [processReturn_of_match hi hx hlast], fun h => by rw [processReturn_of_no_match h]⟩

theorem return_unwinds_to_innermost_match_call :
    EventType.ofNat? (getEventType (profilerRecordReturn 0x1002#32)) = some .«return» ∧
      (processEvent (processEvents .init
          [profilerRecordInstructionExecute 0x1000#32, profilerRecordCall 0x2000#32 0#32])
        (profilerRecordReturn 0x1002#32)).callStack = [rootFrame 0x1000] := by
  have hw : EventType.ofNat? (getEventType (profilerRecordReturn 0x1002#32)) = some .«return» := by
    decide
  exact ⟨hw, (return_unwinds_to_innermost_match _ _ hw).2.2.2.1 1 (by decide) (by decide)
    (by decide)⟩

end SqluxProfiler
