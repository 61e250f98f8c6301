import SqluxProfiler.Data.ProfilerData

namespace SqluxProfiler

/-- `Σ self_c` over the table, in `uint64_t`. -/
def selfTotal (c : Counter) (costs : AddrMap InstructionCost) : BitVec 64 := costs.sum c.self

/-- The self counter `c` of one address, zero without an entry. -/
def selfAt (c : Counter) (costs : AddrMap InstructionCost) (a : Nat) : BitVec 64 :=
  ((costs.find? a).map c.self).getD 0

/-- The inclusive counter `c` summed over the root call edges `instruction_costs_[0].calls`. -/
def rootInclusive (c : Counter) (costs : AddrMap InstructionCost) : BitVec 64 :=
  ((costs.find? 0).getD .zero).calls.sum c.inclusive

@[simp] theorem Counter.self_zero (c : Counter) : c.self .zero = 0 := by cases c <;> rfl

@[simp] theorem Counter.inclusive_zero (c : Counter) : c.inclusive .zero = 0 := by cases c <;> rfl

@[simp] theorem Counter.self_with_calls (c : Counter) (x : InstructionCost) (m : AddrMap CallInfo) :
    c.self { x with calls := m } = c.self x := by cases c <;> rfl

@[simp] theorem Counter.self_with_jumps (c : Counter) (x : InstructionCost) (m : AddrMap CallInfo) :
    c.self { x with jumps := m } = c.self x := by cases c <;> rfl

theorem Counter.self_bumpSelf (c c' : Counter) (x : InstructionCost) :
    c.self (x.bumpSelf c') = c.self x + if c = c' then 1 else 0 := by
  cases c <;> cases c' <;> simp [Counter.self, InstructionCost.bumpSelf]

theorem Counter.inclusive_bumpInclusive (c c' : Counter) (ci : CallInfo) :
    c.inclusive (ci.bumpInclusive c') = c.inclusive ci + if c = c' then 1 else 0 := by
  cases c <;> cases c' <;> simp [Counter.inclusive, CallInfo.bumpInclusive]

@[simp] theorem Counter.inclusive_bumpCount (c : Counter) (ci : CallInfo) :
    c.inclusive ci.bumpCount = c.inclusive ci := by cases c <;> rfl

@[simp] theorem InstructionCost.bumpSelf_calls (c : Counter) (x : InstructionCost) :
    (x.bumpSelf c).calls = x.calls := by cases c <;> rfl

private theorem foldl_eq_of_step {α β γ : Type} (g : β → γ) (f : β → α → β)
    (h : ∀ b a, g (f b a) = g b) : ∀ (l : List α) (b : β), g (l.foldl f b) = g b
  | [], _ => rfl
  | a :: l, b => (foldl_eq_of_step g f h l (f b a)).trans (h b a)

theorem foldl_add_of_step {α β : Type} (g : β → BitVec 64) (f : β → α → β)
    (δ : α → BitVec 64) (h : ∀ b a, g (f b a) = g b + δ a) :
    ∀ (l : List α) (b : β), g (l.foldl f b) = g b + (l.map δ).sum
  | [], _ => by simp
  | a :: l, b => by
    rw [List.foldl_cons, foldl_add_of_step g f δ h l, h, List.map_cons, List.sum_cons, add_assoc]

section Alter

variable {c : Counter} {m : AddrMap InstructionCost} {k : Nat}
  {f : InstructionCost → InstructionCost}

theorem selfTotal_alter (δ : BitVec 64) (hf : ∀ x, c.self (f x) = c.self x + δ) :
    selfTotal c (m.alter k .zero f) = selfTotal c m + δ :=
  AddrMap.sum_alter m _ k _ f δ hf (Counter.self_zero c)

theorem selfTotal_alter_of_eq (hf : ∀ x, c.self (f x) = c.self x) :
    selfTotal c (m.alter k .zero f) = selfTotal c m :=
  AddrMap.sum_alter_of_eq m _ k _ f hf (Counter.self_zero c)

theorem selfAt_alter (hf : ∀ x, c.self (f x) = c.self x) (a : Nat) :
    selfAt c (m.alter k .zero f) a = selfAt c m a := by
  simp only [selfAt, AddrMap.find?_alter]
  split_ifs with h
  · subst h
    cases m.find? a <;> simp [hf]
  · rfl

theorem selfAt_alter_bumpSelf (a : Nat) :
    selfAt c (m.alter k .zero (.bumpSelf c)) a = selfAt c m a + if a = k then 1 else 0 := by
  simp only [selfAt, AddrMap.find?_alter]
  split_ifs with h
  · subst h
    cases m.find? a <;> simp [Counter.self_bumpSelf]
  · simp

theorem rootInclusive_alter_of_calls (hf : ∀ x, (f x).calls = x.calls) :
    rootInclusive c (m.alter k .zero f) = rootInclusive c m := by
  simp only [rootInclusive, AddrMap.find?_alter]
  split_ifs with h
  · subst h
    cases m.find? 0 <;> simp [hf, InstructionCost.zero]
  · rfl

theorem rootInclusive_alter_of_ne (hk : k ≠ 0) :
    rootInclusive c (m.alter k .zero f) = rootInclusive c m := by
  simp [rootInclusive, Ne.symm hk]

end Alter

section Edges

variable {c : Counter} {m : AddrMap InstructionCost} {s t : Nat} {g : CallInfo → CallInfo}

theorem selfTotal_updateCall : selfTotal c (updateCall m s t g) = selfTotal c m :=
  selfTotal_alter_of_eq fun _ => Counter.self_with_calls _ _ _

theorem selfAt_updateCall (a : Nat) : selfAt c (updateCall m s t g) a = selfAt c m a :=
  selfAt_alter (fun _ => Counter.self_with_calls _ _ _) a

theorem selfTotal_updateJump : selfTotal c (updateJump m s t g) = selfTotal c m :=
  selfTotal_alter_of_eq fun _ => Counter.self_with_jumps _ _ _

theorem selfAt_updateJump (a : Nat) : selfAt c (updateJump m s t g) a = selfAt c m a :=
  selfAt_alter (fun _ => Counter.self_with_jumps _ _ _) a

theorem rootInclusive_updateJump : rootInclusive c (updateJump m s t g) = rootInclusive c m :=
  rootInclusive_alter_of_calls fun _ => rfl

theorem rootInclusive_updateCall (δ : BitVec 64) (hg : ∀ ci, c.inclusive (g ci) = c.inclusive ci + δ) :
    rootInclusive c (updateCall m s t g) = rootInclusive c m + if s = 0 then δ else 0 := by
  by_cases hs : s = 0
  · subst hs
    simp only [rootInclusive, updateCall, AddrMap.find?_alter, if_true, Option.getD_some]
    exact AddrMap.sum_alter _ _ t _ g δ hg (Counter.inclusive_zero c)
  · rw [if_neg hs, add_zero]
    exact rootInclusive_alter_of_ne hs

theorem rootInclusive_updateCall_of_eq (hg : ∀ ci, c.inclusive (g ci) = c.inclusive ci) :
    rootInclusive c (updateCall m s t g) = rootInclusive c m := by
  simpa using rootInclusive_updateCall 0 (by simpa using hg) (m := m) (s := s) (t := t)

/-- The frames whose call edge leaves address 0. -/
def rootShare (c c' : Counter) (f : CallFrame) : BitVec 64 :=
  if f.callerPc = 0 ∧ c = c' then 1 else 0

variable (c' : Counter)

private theorem jumpLoop_eq {β : Type} (q : AddrMap InstructionCost → β)
    (hq : ∀ m s t, q (updateJump m s t (.bumpInclusive c')) = q m) (l : List (Nat × Nat)) :
    q (l.foldl (fun m e => updateJump m e.1 e.2 (.bumpInclusive c')) m) = q m :=
  foldl_eq_of_step q _ (fun m e => hq m e.1 e.2) l m

theorem selfTotal_bumpStack (st : List CallFrame) :
    selfTotal c (bumpStack c' st m) = selfTotal c m :=
  foldl_eq_of_step (selfTotal c) _ (fun m f => by
    rw [bumpFrame, jumpLoop_eq c' (selfTotal c) (fun _ _ _ => selfTotal_updateJump),
      selfTotal_updateCall]) st m

theorem selfAt_bumpStack (st : List CallFrame) (a : Nat) :
    selfAt c (bumpStack c' st m) a = selfAt c m a :=
  foldl_eq_of_step (selfAt c · a) _ (fun m f => by
    show selfAt c (bumpFrame c' m f) a = selfAt c m a
    rw [bumpFrame, jumpLoop_eq c' (selfAt c · a) (fun _ _ _ => selfAt_updateJump a),
      selfAt_updateCall]) st m

theorem rootInclusive_bumpStack (st : List CallFrame) :
    rootInclusive c (bumpStack c' st m) = rootInclusive c m + (st.map (rootShare c c')).sum :=
  foldl_add_of_step (rootInclusive c) _ _ (fun m f => by
    rw [bumpFrame, jumpLoop_eq c' (rootInclusive c) (fun _ _ _ => rootInclusive_updateJump),
      rootInclusive_updateCall _ fun ci => Counter.inclusive_bumpInclusive c c' ci, rootShare]
    by_cases h : f.callerPc = 0 <;> by_cases h' : c = c' <;> simp [h, h']) st m

end Edges

/-- Whether event `w` in state `d` adds one to a self counter `c`: an `INSTR_EXECUTE` always, an
access of `c`'s kind unless `current_pc_` is 0. -/
def selfCharged (c : Counter) (d : ProfilerData) (w : BitVec 32) : Bool :=
  getEventType w == c.eventType.toNat && (c == .instructions || d.currentPc != 0)

section Events

variable (c : Counter) (d : ProfilerData)

theorem selfTotal_processInstructionExecute (a : Nat) :
    selfTotal c (processInstructionExecute d a).instructionCosts =
      selfTotal c d.instructionCosts + if c = .instructions then 1 else 0 := by
  have h := selfTotal_alter (m := d.instructionCosts) (k := a) _
    fun x => Counter.self_bumpSelf c .instructions x
  by_cases hs : d.callStack = [] <;>
    simp only [processInstructionExecute, selfTotal_bumpStack, hs, ↓reduceIte,
      selfTotal_updateCall, h]

theorem selfAt_processInstructionExecute_self (a a' : Nat) :
    selfAt .instructions (processInstructionExecute d a).instructionCosts a' =
      selfAt .instructions d.instructionCosts a' + if a' = a then 1 else 0 := by
  by_cases hs : d.callStack = [] <;>
    simp only [processInstructionExecute, selfAt_bumpStack, hs, ↓reduceIte, selfAt_updateCall,
      selfAt_alter_bumpSelf]

theorem processJump_costs (a : Nat) :
    selfTotal c (processJump d a).instructionCosts = selfTotal c d.instructionCosts ∧
      ∀ a', selfAt c (processJump d a).instructionCosts a' = selfAt c d.instructionCosts a' :=
  ⟨selfTotal_updateJump, selfAt_updateJump⟩

theorem processCall_costs (a r : Nat) :
    selfTotal c (processCall d a r).instructionCosts = selfTotal c d.instructionCosts ∧
      ∀ a', selfAt c (processCall d a r).instructionCosts a' = selfAt c d.instructionCosts a' :=
  ⟨selfTotal_updateCall, selfAt_updateCall⟩

theorem selfTotal_processAccess (c' : Counter) :
    selfTotal c (processAccess c' d).instructionCosts =
      selfTotal c d.instructionCosts + if c = c' ∧ d.currentPc ≠ 0 then 1 else 0 := by
  by_cases hp : d.currentPc = 0
  · simp [processAccess, selfTotal_bumpStack, hp]
  · simp [processAccess, selfTotal_bumpStack, hp,
      selfTotal_alter _ fun x => Counter.self_bumpSelf c c' x]

theorem selfAt_processAccess {c' : Counter} (hc : c ≠ c') (a : Nat) :
    selfAt c (processAccess c' d).instructionCosts a = selfAt c d.instructionCosts a := by
  simp only [processAccess, selfAt_bumpStack]
  split_ifs
  · exact selfAt_alter (fun x => by simp [Counter.self_bumpSelf, hc]) a
  · rfl

theorem selfTotal_processEvent_charged (w : BitVec 32) :
    selfTotal c (processEvent d w).instructionCosts =
      selfTotal c d.instructionCosts + if selfCharged c d w then 1 else 0 := by
  unfold processEvent
  cases h : EventType.ofNat? (getEventType w) with
  | none => simp [selfCharged, EventType.ne_toNat_of_ofNat? h]
  | some e =>
    rw [EventType.ofNat?_eq_some] at h
    cases e <;> cases c <;>
      simp [h, selfCharged, Counter.eventType, EventType.toNat,
        selfTotal_processInstructionExecute, (processJump_costs _ _ _).1,
        (processCall_costs _ _ _ _).1, processDataRead, processDataWrite, processInstrRead,
        selfTotal_processAccess]

theorem selfTotal_processEvent (w : BitVec 32) :
    selfTotal .instructions (processEvent d w).instructionCosts =
      selfTotal .instructions d.instructionCosts +
        if getEventType w = EventType.instrExecute.toNat then 1 else 0 := by
  rw [selfTotal_processEvent_charged]
  simp [selfCharged, Counter.eventType]

theorem totalInstructions_processEvent (w : BitVec 32) :
    (processEvent d w).totalInstructions =
      d.totalInstructions + if getEventType w = EventType.instrExecute.toNat then 1 else 0 := by
  unfold processEvent
  cases h : EventType.ofNat? (getEventType w) with
  | none => simp [EventType.ne_toNat_of_ofNat? h]
  | some t =>
    rw [EventType.ofNat?_eq_some] at h
    cases t <;> simp [h, EventType.toNat, processInstructionExecute, processJump, processCall,
      processDataRead, processDataWrite, processInstrRead, processAccess]

theorem selfAt_processEvent (w : BitVec 32) (hw : getEventType w ≠ EventType.instrExecute.toNat)
    (a : Nat) :
    selfAt .instructions (processEvent d w).instructionCosts a =
      selfAt .instructions d.instructionCosts a := by
  unfold processEvent
  cases h : EventType.ofNat? (getEventType w) with
  | none => rfl
  | some t =>
    rw [EventType.ofNat?_eq_some] at h
    cases t
    case instrExecute => exact absurd h hw
    all_goals simp [(processJump_costs _ _ _).2, (processCall_costs _ _ _ _).2, processDataRead,
      processDataWrite, processInstrRead, selfAt_processAccess]

theorem selfAt_processEvent_instructions (w : BitVec 32) (a : Nat) :
    selfAt .instructions (processEvent d w).instructionCosts a =
      selfAt .instructions d.instructionCosts a +
        if getEventType w = EventType.instrExecute.toNat ∧ getEventAddress w = a then 1 else 0 := by
  by_cases hw : getEventType w = EventType.instrExecute.toNat
  · rw [processEvent_instrExecute d (by rw [hw, EventType.ofNat?_toNat]),
      selfAt_processInstructionExecute_self]
    simp [hw, eq_comm]
  · rw [selfAt_processEvent d w hw]
    simp [hw]

end Events

section Root

variable (c : Counter) (d : ProfilerData)

theorem rootInclusive_processInstructionExecute (a : Nat) :
    rootInclusive c (processInstructionExecute d a).instructionCosts =
      rootInclusive c d.instructionCosts +
        ((processInstructionExecute d a).callStack.map (rootShare c .instructions)).sum := by
  have h := rootInclusive_alter_of_calls (c := c) (m := d.instructionCosts) (k := a)
    (f := InstructionCost.bumpSelf .instructions) (InstructionCost.bumpSelf_calls _)
  by_cases hs : d.callStack = [] <;>
    simp only [processInstructionExecute, rootInclusive_bumpStack, hs, ↓reduceIte,
      rootInclusive_updateCall_of_eq (Counter.inclusive_bumpCount c), h]

theorem rootInclusive_processJump (a : Nat) :
    rootInclusive c (processJump d a).instructionCosts = rootInclusive c d.instructionCosts :=
  rootInclusive_updateJump

theorem rootInclusive_processCall (a r : Nat) :
    rootInclusive c (processCall d a r).instructionCosts = rootInclusive c d.instructionCosts :=
  rootInclusive_updateCall_of_eq fun ci => by split <;> simp

theorem rootInclusive_processAccess (c' : Counter) :
    rootInclusive c (processAccess c' d).instructionCosts =
      rootInclusive c d.instructionCosts + (d.callStack.map (rootShare c c')).sum := by
  simp only [processAccess, rootInclusive_bumpStack]
  split_ifs
  · rw [rootInclusive_alter_of_calls (InstructionCost.bumpSelf_calls _)]
  · rfl

end Root

/-- The bottom frame, if any, is a root frame, and no other frame's call edge leaves address 0. -/
def RootFramed : List CallFrame → Prop
  | [] => True
  | f :: rest => f.callerPc = 0 ∧ f.returnAddress = 0 ∧ ∀ g ∈ rest, g.callerPc ≠ 0

theorem RootFramed.rootShare_sum {st : List CallFrame} (h : RootFramed st) (hne : st ≠ [])
    (c c' : Counter) : (st.map (rootShare c c')).sum = if c = c' then 1 else 0 := by
  obtain _ | ⟨f, rest⟩ := st
  · exact absurd rfl hne
  obtain ⟨hf, -, hrest⟩ := h
  have hzero : (rest.map (rootShare c c')).sum = 0 :=
    List.sum_eq_zero fun x hx => by
      obtain ⟨g, hg, rfl⟩ := List.mem_map.mp hx
      simp [rootShare, hrest g hg]
  simp [rootShare, hf, hzero]

theorem RootFramed.of_prefixOf {l₁ l₂ : List CallFrame} (hp : l₁ <+: l₂) (h : RootFramed l₂) :
    RootFramed l₁ := by
  obtain ⟨t, rfl⟩ := hp
  obtain _ | ⟨f, rest⟩ := l₁
  · trivial
  · obtain ⟨h1, h2, h3⟩ := h
    exact ⟨h1, h2, fun g hg => h3 g (List.mem_append_left _ hg)⟩

theorem RootFramed.push {st : List CallFrame} (h : RootFramed st) (hne : st ≠ []) {f : CallFrame}
    (hf : f.callerPc ≠ 0) : RootFramed (st ++ [f]) := by
  obtain _ | ⟨g, rest⟩ := st
  · exact absurd rfl hne
  · obtain ⟨h1, h2, h3⟩ := h
    refine ⟨h1, h2, fun x hx => ?_⟩
    rcases List.mem_append.mp hx with hx | hx
    · exact h3 x hx
    · rw [List.mem_singleton.mp hx]; exact hf

theorem activateJump_frames (e : Nat × Nat) : ∀ st : List CallFrame,
    (activateJump st e).map (fun f => (f.callerPc, f.returnAddress)) =
      st.map (fun f => (f.callerPc, f.returnAddress)) :=
  map_activateJump (fun f => (f.callerPc, f.returnAddress)) (fun _ _ => rfl) e

theorem RootFramed.of_frames {st st' : List CallFrame}
    (hm : st'.map (fun f => (f.callerPc, f.returnAddress)) =
      st.map (fun f => (f.callerPc, f.returnAddress))) (h : RootFramed st) : RootFramed st' := by
  obtain _ | ⟨f, rest⟩ := st <;> obtain _ | ⟨f', rest'⟩ := st'
  · trivial
  · cases hm
  · trivial
  · simp only [List.map_cons, List.cons.injEq, Prod.mk.injEq] at hm
    obtain ⟨⟨h1, h2⟩, hr⟩ := hm
    obtain ⟨k1, k2, k3⟩ := h
    refine ⟨h1 ▸ k1, h2 ▸ k2, fun g hg => ?_⟩
    have hx : (g.callerPc, g.returnAddress) ∈ rest.map (fun f => (f.callerPc, f.returnAddress)) :=
      hr ▸ List.mem_map_of_mem _ hg
    obtain ⟨g', hg', he⟩ := List.mem_map.mp hx
    simp only [Prod.mk.injEq] at he
    exact he.1 ▸ k3 g' hg'

theorem popFrames_prefixOf (st : List CallFrame) : ∀ n, popFrames n st <+: st
  | 0 => List.prefix_rfl
  | n + 1 => by
    rw [popFrames, Function.iterate_succ_apply', ← popFrames]
    exact (List.dropLast_prefix _).trans (popFrames_prefixOf st n)

theorem processReturn_prefixOf (d : ProfilerData) (a : Nat) :
    (processReturn d a).callStack <+: d.callStack := by
  unfold processReturn
  split
  · exact List.prefix_rfl
  · split
    · exact List.dropLast_prefix _
    · split
      · exact popFrames_prefixOf _ _
      · exact List.nil_prefix

theorem processEvents_count (g : ProfilerData → BitVec 64) (p : BitVec 32 → Prop)
    [DecidablePred p] (h : ∀ d w, g (processEvent d w) = g d + if p w then 1 else 0) :
    ∀ (ws : List (BitVec 32)) (d : ProfilerData),
      g (processEvents d ws) = g d + BitVec.ofNat 64 (ws.countP fun w => p w)
  | [], d => by simp
  | w :: ws, d => by
    rw [processEvents_cons, processEvents_count g p h ws, h, List.countP_cons, BitVec.ofNat_add]
    by_cases hw : p w <;> simp [hw, add_assoc, add_comm]

@[simp] theorem selfTotal_init (c : Counter) : selfTotal c ProfilerData.init.instructionCosts = 0 :=
  rfl

theorem selfAt_processEvents (ws : List (BitVec 32)) (a : Nat) :
    selfAt .instructions (processEvents .init ws).instructionCosts a =
      BitVec.ofNat 64 (ws.countP fun w =>
        getEventType w = EventType.instrExecute.toNat ∧ getEventAddress w = a) :=
  (processEvents_count (fun d => selfAt .instructions d.instructionCosts a) _
    (fun d w => selfAt_processEvent_instructions d w a) ws .init).trans (zero_add _)

theorem selfTotal_processEvents (ws : List (BitVec 32)) :
    selfTotal .instructions (processEvents .init ws).instructionCosts =
        (processEvents .init ws).totalInstructions ∧
      (processEvents .init ws).totalInstructions =
        BitVec.ofNat 64 (ws.countP fun w => getEventType w = EventType.instrExecute.toNat) := by
  have hs := processEvents_count (fun d => selfTotal .instructions d.instructionCosts) _
    (selfTotal_processEvent) ws .init
  have ht := processEvents_count ProfilerData.totalInstructions _
    (totalInstructions_processEvent) ws .init
  exact ⟨hs.trans ht.symm, ht.trans (zero_add _)⟩

/-- Over every stream from the constructor's state, `Σ self_cost` and `total_instructions` both
count the `INSTR_EXECUTE` words modulo `2^64`; from any state, no other word moves either. -/
theorem selfCost_sum_eq_totalInstructions (ws : List (BitVec 32)) :
    selfTotal .instructions (processEvents .init ws).instructionCosts =
        (processEvents .init ws).totalInstructions ∧
      (processEvents .init ws).totalInstructions =
        BitVec.ofNat 64 (ws.countP fun w => getEventType w = EventType.instrExecute.toNat) ∧
      ∀ (d : ProfilerData) (w : BitVec 32), getEventType w ≠ EventType.instrExecute.toNat →
        (processEvent d w).totalInstructions = d.totalInstructions ∧
          ∀ a, selfAt .instructions (processEvent d w).instructionCosts a =
            selfAt .instructions d.instructionCosts a :=
  ⟨(selfTotal_processEvents ws).1, (selfTotal_processEvents ws).2, fun d w hw =>
    ⟨by simp [totalInstructions_processEvent, hw], selfAt_processEvent d w hw⟩⟩

/-- A frame on the stack and a nonzero `current_pc_`, as an `INSTR_EXECUTE` leaves them. -/
def Armed (d : ProfilerData) : Prop := d.callStack ≠ [] ∧ d.currentPc ≠ 0

/-- The stack is root-framed and every root inclusive total equals its self total. -/
def RootBalanced (d : ProfilerData) : Prop :=
  RootFramed d.callStack ∧ ∀ c, rootInclusive c d.instructionCosts = selfTotal c d.instructionCosts

theorem armed_processEvent {d : ProfilerData} {w : BitVec 32} (ha : getEventAddress w ≠ 0)
    (hr : EventType.ofNat? (getEventType w) ≠ some .«return»)
    (h : Armed d ∨ EventType.ofNat? (getEventType w) = some .instrExecute) :
    Armed (processEvent d w) := by
  unfold processEvent
  cases hk : EventType.ofNat? (getEventType w) with
  | none => simpa [hk] using h
  | some t =>
    cases t
    case instrExecute =>
      refine ⟨?_, ha⟩
      by_cases hs : d.callStack = [] <;> simp [processInstructionExecute, hs]
    case jump =>
      obtain ⟨hs, -⟩ := h.resolve_right (by simp [hk])
      refine ⟨fun he => hs ?_, ha⟩
      have hl := congrArg List.length (activateJump_frames (d.currentPc, getEventAddress w) d.callStack)
      simp only [List.length_map] at hl
      exact List.eq_nil_of_length_eq_zero (hl ▸ congrArg List.length he)
    case call => exact ⟨by simp [processCall], ha⟩
    case «return» => exact absurd hk hr
    all_goals exact h.resolve_right (by simp [hk])

theorem armed_processEvents {d : ProfilerData} (hd : Armed d) : ∀ {p : List (BitVec 32)},
    (∀ x ∈ p, getEventAddress x ≠ 0 ∧ EventType.ofNat? (getEventType x) ≠ some .«return») →
      Armed (processEvents d p)
  | [], _ => hd
  | x :: p, hp => by
    obtain ⟨hx, hr⟩ := hp x (List.mem_cons_self _ _)
    exact armed_processEvents (armed_processEvent hx hr (.inl hd))
      fun y hy => hp y (List.mem_cons_of_mem _ hy)

theorem armed_of_history (d : ProfilerData) {e : BitVec 32} {p : List (BitVec 32)}
    (he : EventType.ofNat? (getEventType e) = some .instrExecute)
    (hnz : ∀ x ∈ e :: p, getEventAddress x ≠ 0)
    (hnr : ∀ x ∈ p, EventType.ofNat? (getEventType x) ≠ some .«return») :
    Armed (processEvents d (e :: p)) :=
  armed_processEvents (armed_processEvent (hnz e (List.mem_cons_self _ _)) (by simp [he]) (.inr he))
    fun x hx => ⟨hnz x (List.mem_cons_of_mem _ hx), hnr x hx⟩

theorem rootBalanced_processEvent {d : ProfilerData} {w : BitVec 32} (hd : RootBalanced d)
    (hctx : EventType.ofNat? (getEventType w) ∈
      [some .call, some .dataRead, some .dataWrite, some .instrRead] → Armed d) :
    RootBalanced (processEvent d w) := by
  obtain ⟨hf, hb⟩ := hd
  unfold processEvent
  cases hk : EventType.ofNat? (getEventType w) with
  | none => exact ⟨hf, hb⟩
  | some t =>
    rw [hk] at hctx
    cases t
    case instrExecute =>
      have hst : RootFramed (processInstructionExecute d (getEventAddress w)).callStack ∧
          (processInstructionExecute d (getEventAddress w)).callStack ≠ [] := by
        by_cases hs : d.callStack = []
        · simp [processInstructionExecute, hs, RootFramed, rootFrame]
        · simp [processInstructionExecute, hs, hf]
      refine ⟨hst.1, fun c => ?_⟩
      rw [rootInclusive_processInstructionExecute, hst.1.rootShare_sum hst.2,
        selfTotal_processInstructionExecute, hb]
    case jump =>
      exact ⟨hf.of_frames (activateJump_frames _ _), fun c => by
        rw [rootInclusive_processJump, (processJump_costs c d _).1, hb]⟩
    case call =>
      obtain ⟨hs, hp⟩ := hctx (by simp)
      exact ⟨hf.push hs hp, fun c => by
        rw [rootInclusive_processCall, (processCall_costs c d _ _).1, hb]⟩
    case «return» =>
      exact ⟨hf.of_prefixOf (processReturn_prefixOf d _), fun c => by simp [hb]⟩
    all_goals
      obtain ⟨hs, hp⟩ := hctx (by simp)
      refine ⟨hf, fun c => ?_⟩
      simp only [processDataRead, processDataWrite, processInstrRead]
      rw [rootInclusive_processAccess, hf.rootShare_sum hs, selfTotal_processAccess, hb]
      simp [hp]

/-- Root call edges balance the table: with no event at address 0 and every call or access after an
`INSTR_EXECUTE` with no return between, each inclusive counter summed over the root edges equals the
matching self total. -/
theorem root_edges_balance_self_costs (ws : List (BitVec 32))
    (hnz : ∀ w ∈ ws, getEventAddress w ≠ 0)
    (hctx : ∀ pre w post, ws = pre ++ w :: post →
      EventType.ofNat? (getEventType w) ∈
        [some .call, some .dataRead, some .dataWrite, some .instrRead] →
      ∃ p₁ e p₂, pre = p₁ ++ e :: p₂ ∧ EventType.ofNat? (getEventType e) = some .instrExecute ∧
        ∀ x ∈ p₂, EventType.ofNat? (getEventType x) ≠ some .«return») :
    RootFramed (processEvents .init ws).callStack ∧
      (∀ c, rootInclusive c (processEvents .init ws).instructionCosts =
        selfTotal c (processEvents .init ws).instructionCosts) ∧
      selfTotal .instructions (processEvents .init ws).instructionCosts =
        (processEvents .init ws).totalInstructions := by
  suffices h : ∀ pre post, ws = pre ++ post → RootBalanced (processEvents .init pre) by
    obtain ⟨hf, hb⟩ := h ws [] (List.append_nil ws).symm
    exact ⟨hf, hb, (selfTotal_processEvents ws).1⟩
  intro pre
  induction pre using List.reverseRecOn with
  | nil => exact fun _ _ => ⟨trivial, fun c => rfl⟩
  | append_singleton pre w ih =>
    intro post hws
    have hws' : ws = pre ++ w :: post := by simp [hws]
    rw [processEvents_append]
    refine rootBalanced_processEvent (ih _ hws') fun hk => ?_
    obtain ⟨p₁, e, p₂, rfl, he, hnr⟩ := hctx pre w post hws' hk
    rw [processEvents_append]
    exact armed_of_history _ he
      (fun x hx => hnz x (hws' ▸ List.mem_append_left _ (List.mem_append_right _ hx))) hnr

theorem root_edges_balance_exec_read :
    let ws := [profilerRecordInstructionExecute 0x1000#32, profilerRecordDataRead 0x2000#32]
    (∀ w ∈ ws, getEventAddress w ≠ 0) ∧
      (∀ pre w post, ws = pre ++ w :: post →
        EventType.ofNat? (getEventType w) ∈
          [some .call, some .dataRead, some .dataWrite, some .instrRead] →
        ∃ p₁ e p₂, pre = p₁ ++ e :: p₂ ∧ EventType.ofNat? (getEventType e) = some .instrExecute ∧
          ∀ x ∈ p₂, EventType.ofNat? (getEventType x) ≠ some .«return») ∧
      RootFramed (processEvents .init ws).callStack ∧
      (∀ c, rootInclusive c (processEvents .init ws).instructionCosts =
        selfTotal c (processEvents .init ws).instructionCosts) ∧
      selfTotal .instructions (processEvents .init ws).instructionCosts =
        (processEvents .init ws).totalInstructions := by
  intro ws
  refine ⟨?hnz, ?hctx, root_edges_balance_self_costs ws ?hnz ?hctx⟩
  case hnz =>
    intro w hw
    simp only [ws, List.mem_cons, List.mem_singleton, List.not_mem_nil, or_false] at hw
    rcases hw with rfl | rfl <;> decide
  case hctx =>
    intro pre w post h hk
    match pre, h with
    | [], h =>
      obtain ⟨rfl, -⟩ := List.cons.inj h
      exact absurd hk (by decide)
    | [x], h =>
      obtain ⟨rfl, -⟩ := List.cons.inj h
      exact ⟨[], _, [], rfl, by decide, by simp⟩
    | _ :: _ :: _, h => simp [ws] at h

end SqluxProfiler
