import SqluxProfiler.Data.Conservation
import Mathlib.Algebra.BigOperators.Ring
import Mathlib.Algebra.Order.Ring.Nat

namespace SqluxProfiler

/-- The two edge maps of an `InstructionCost`. -/
inductive EdgeKind
  | call
  | jump
  deriving DecidableEq, Repr

def EdgeKind.edges : EdgeKind → InstructionCost → AddrMap CallInfo
  | .call, x => x.calls
  | .jump, x => x.jumps

/-- The edge `s → t` of kind `k`, or `CallInfo()` when the table has none. -/
def edgeInfo (k : EdgeKind) (costs : AddrMap InstructionCost) (s t : Nat) : CallInfo :=
  ((costs.find? s).bind fun x => (k.edges x).find? t).getD .zero

/-- How often the stack loop charges an edge through one frame. -/
def frameCharges : EdgeKind → CallFrame → Nat → Nat → Nat
  | .call, f, s, t => if f.callerPc = s ∧ f.address = t then 1 else 0
  | .jump, f, s, t => f.jumpRefs.count (s, t)

def chargedFrames (k : EdgeKind) (st : List CallFrame) (s t : Nat) : Nat :=
  (st.map fun f => frameCharges k f s t).sum

/-- Whether event `w` in state `d` counts a call along the edge `s → t`. -/
def callsAlong (k : EdgeKind) (d : ProfilerData) (w : BitVec 32) (s t : Nat) : Bool :=
  match k with
  | .call =>
    getEventType w == EventType.call.toNat && d.currentPc == s && getEventAddress w == t &&
        d.currentPc != 0 ||
      getEventType w == EventType.instrExecute.toNat && s == 0 && getEventAddress w == t &&
        d.callStack.isEmpty
  | .jump => getEventType w == EventType.jump.toNat && d.currentPc == s && getEventAddress w == t

/-- Each word of a stream with the state it finds and the state it leaves. -/
def eventSteps (d : ProfilerData) :
    List (BitVec 32) → List (ProfilerData × BitVec 32 × ProfilerData)
  | [] => []
  | w :: ws => (d, w, processEvent d w) :: eventSteps (processEvent d w) ws

@[simp] theorem EdgeKind.edges_zero (k : EdgeKind) : k.edges .zero = .empty := by cases k <;> rfl

@[simp] theorem InstructionCost.zero_calls : InstructionCost.zero.calls = .empty := rfl

@[simp] theorem InstructionCost.zero_jumps : InstructionCost.zero.jumps = .empty := rfl

@[simp] theorem InstructionCost.bumpSelf_jumps (c : Counter) (x : InstructionCost) :
    (x.bumpSelf c).jumps = x.jumps := by cases c <;> rfl

@[simp] theorem EdgeKind.edges_bumpSelf (k : EdgeKind) (c : Counter) (x : InstructionCost) :
    k.edges (x.bumpSelf c) = k.edges x := by cases k <;> simp [EdgeKind.edges]

@[simp] theorem CallInfo.callCount_bumpInclusive (c : Counter) (ci : CallInfo) :
    (ci.bumpInclusive c).callCount = ci.callCount := by cases c <;> rfl

@[simp] theorem processAccess_callStack (c : Counter) (d : ProfilerData) :
    (processAccess c d).callStack = d.callStack := rfl

section Updates

variable {k : EdgeKind} {m : AddrMap InstructionCost} {s t s' t' : Nat}

theorem edgeInfo_alter_of_edges {f : InstructionCost → InstructionCost}
    (hf : ∀ x, k.edges (f x) = k.edges x) :
    edgeInfo k (m.alter s' .zero f) s t = edgeInfo k m s t := by
  simp only [edgeInfo, AddrMap.find?_alter]
  split_ifs with h
  · subst h
    cases m.find? s <;> simp [hf]
  · rfl

theorem edgeInfo_alter_edge {f : InstructionCost → InstructionCost} {g : CallInfo → CallInfo}
    (hf : ∀ x, k.edges (f x) = (k.edges x).alter t' .zero g) :
    edgeInfo k (m.alter s' .zero f) s t =
      if s' = s ∧ t' = t then g (edgeInfo k m s t) else edgeInfo k m s t := by
  simp only [edgeInfo, AddrMap.find?_alter]
  by_cases hs : s' = s
  · subst hs
    by_cases ht : t' = t
    · subst ht
      cases m.find? s' <;> simp [hf]
    · cases m.find? s' <;> simp [hf, ht, Ne.symm ht]
  · simp [hs, Ne.symm hs]

theorem edgeInfo_updateCall (g : CallInfo → CallInfo) :
    edgeInfo k (updateCall m s' t' g) s t =
      if k = .call ∧ s' = s ∧ t' = t then g (edgeInfo k m s t) else edgeInfo k m s t := by
  cases k
  · simp only [true_and]
    exact edgeInfo_alter_edge fun _ => rfl
  · rw [if_neg fun h => nomatch h.1]
    exact edgeInfo_alter_of_edges fun _ => rfl

theorem edgeInfo_updateJump (g : CallInfo → CallInfo) :
    edgeInfo k (updateJump m s' t' g) s t =
      if k = .jump ∧ s' = s ∧ t' = t then g (edgeInfo k m s t) else edgeInfo k m s t := by
  cases k
  · rw [if_neg fun h => nomatch h.1]
    exact edgeInfo_alter_of_edges fun _ => rfl
  · simp only [true_and]
    exact edgeInfo_alter_edge fun _ => rfl

end Updates

theorem sum_map_ite_countP {α : Type} (p : α → Bool) (δ : BitVec 64) : ∀ l : List α,
    (l.map fun a => if p a then δ else 0).sum = δ * BitVec.ofNat 64 (l.countP p)
  | [] => by simp
  | a :: l => by
    rw [List.map_cons, List.sum_cons, sum_map_ite_countP p δ l, List.countP_cons]
    cases p a <;> simp [BitVec.ofNat_add, mul_add, add_comm]

theorem ofNat_sum_map {α : Type} (g : α → Nat) (l : List α) :
    BitVec.ofNat 64 (l.map g).sum = (l.map fun a => BitVec.ofNat 64 (g a)).sum := by
  rw [← BitVec.natCast_eq_ofNat, Nat.cast_list_sum, List.map_map]
  rfl

section Stack

variable (π : CallInfo → BitVec 64) {δ : Counter → BitVec 64}
  (hπ : ∀ c ci, π (ci.bumpInclusive c) = π ci + δ c) {k : EdgeKind} {s t : Nat}
include hπ

theorem edgeCounter_bumpFrame (c : Counter) (m : AddrMap InstructionCost) (f : CallFrame) :
    π (edgeInfo k (bumpFrame c m f) s t) =
      π (edgeInfo k m s t) + δ c * BitVec.ofNat 64 (frameCharges k f s t) := by
  have hjump : ∀ (m : AddrMap InstructionCost) (e : Nat × Nat),
      π (edgeInfo k (updateJump m e.1 e.2 (.bumpInclusive c)) s t) =
        π (edgeInfo k m s t) + if k = .jump ∧ e = (s, t) then δ c else 0 := fun m e => by
    rw [edgeInfo_updateJump]
    by_cases he : e = (s, t)
    · subst he
      by_cases hk : k = .jump <;> simp [hk, hπ]
    · have : ¬(e.1 = s ∧ e.2 = t) := fun ⟨h1, h2⟩ => he (Prod.ext h1 h2)
      simp [he, this]
  refine (foldl_add_of_step (fun m => π (edgeInfo k m s t)) _ _ hjump _ _).trans ?_
  rw [edgeInfo_updateCall]
  cases k
  · have hz : (f.jumpRefs.map fun e => if EdgeKind.call = .jump ∧ e = (s, t) then δ c else 0) =
        f.jumpRefs.map fun _ => 0 := List.map_congr_left fun _ _ => if_neg fun h => nomatch h.1
    rw [hz, List.map_const', List.sum_replicate, nsmul_zero, add_zero]
    by_cases h : f.callerPc = s ∧ f.address = t <;> simp [frameCharges, h, hπ]
  · simpa [frameCharges] using sum_map_ite_countP (· == (s, t)) (δ c) f.jumpRefs

theorem edgeCounter_bumpStack (c : Counter) (st : List CallFrame) (m : AddrMap InstructionCost) :
    π (edgeInfo k (bumpStack c st m) s t) =
      π (edgeInfo k m s t) + δ c * BitVec.ofNat 64 (chargedFrames k st s t) := by
  refine (foldl_add_of_step (fun m => π (edgeInfo k m s t)) _ _
    (edgeCounter_bumpFrame π hπ c) st m).trans ?_
  rw [List.sum_map_mul_left, chargedFrames, ofNat_sum_map]

end Stack

section Handlers

variable (π : CallInfo → BitVec 64) {δ : Counter → BitVec 64} {ε : BitVec 64}
  (hπ : ∀ c ci, π (ci.bumpInclusive c) = π ci + δ c)
  (hε : ∀ ci, π ci.bumpCount = π ci + ε) (k : EdgeKind) (d : ProfilerData) (s t : Nat)

include hπ hε in
theorem edgeCounter_processInstructionExecute (a : Nat) :
    π (edgeInfo k (processInstructionExecute d a).instructionCosts s t) =
      π (edgeInfo k d.instructionCosts s t) +
        (if k = .call ∧ s = 0 ∧ a = t ∧ d.callStack = [] then ε else 0) +
        δ .instructions *
          BitVec.ofNat 64 (chargedFrames k (processInstructionExecute d a).callStack s t) := by
  have hx : edgeInfo k (d.instructionCosts.alter a .zero (.bumpSelf .instructions)) s t =
      edgeInfo k d.instructionCosts s t := edgeInfo_alter_of_edges (EdgeKind.edges_bumpSelf k _)
  simp only [processInstructionExecute, edgeCounter_bumpStack π hπ]
  by_cases hs : d.callStack = []
  · simp only [hs, if_true, edgeInfo_updateCall, hx, and_true, @eq_comm _ 0 s]
    split_ifs <;> simp [hε]
  · simp [hs, hx]

include hε in
theorem edgeCounter_processJump (a : Nat) :
    π (edgeInfo k (processJump d a).instructionCosts s t) =
      π (edgeInfo k d.instructionCosts s t) +
        if k = .jump ∧ d.currentPc = s ∧ a = t then ε else 0 := by
  show π (edgeInfo k (updateJump _ _ _ _) s t) = _
  rw [edgeInfo_updateJump]
  split_ifs <;> simp [hε]

include hε in
theorem edgeCounter_processCall (a r : Nat) :
    π (edgeInfo k (processCall d a r).instructionCosts s t) =
      π (edgeInfo k d.instructionCosts s t) +
        if k = .call ∧ d.currentPc = s ∧ a = t ∧ d.currentPc ≠ 0 then ε else 0 := by
  show π (edgeInfo k (updateCall _ _ _ _) s t) = _
  rw [edgeInfo_updateCall]
  by_cases hp : d.currentPc = 0
  · simp [hp]
  · split_ifs with h₁ h₂ h₂ <;> simp_all

include hπ in
theorem edgeCounter_processAccess (c : Counter) :
    π (edgeInfo k (processAccess c d).instructionCosts s t) =
      π (edgeInfo k d.instructionCosts s t) +
        δ c * BitVec.ofNat 64 (chargedFrames k d.callStack s t) := by
  simp only [processAccess, edgeCounter_bumpStack π hπ]
  split_ifs
  · rw [edgeInfo_alter_of_edges (EdgeKind.edges_bumpSelf k _)]
  · rfl

end Handlers

section Events

variable (k : EdgeKind) (d : ProfilerData) (s t : Nat)

theorem inclusive_processEvent (c : Counter) (w : BitVec 32) :
    c.inclusive (edgeInfo k (processEvent d w).instructionCosts s t) =
      c.inclusive (edgeInfo k d.instructionCosts s t) +
        BitVec.ofNat 64 (if getEventType w = c.eventType.toNat then
          chargedFrames k (processEvent d w).callStack s t else 0) := by
  have hπ := Counter.inclusive_bumpInclusive c
  have hε : ∀ ci, c.inclusive ci.bumpCount = c.inclusive ci + 0 := by simp
  unfold processEvent
  cases h : EventType.ofNat? (getEventType w) with
  | none => simp [EventType.ne_toNat_of_ofNat? h]
  | some e =>
    rw [EventType.ofNat?_eq_some] at h
    cases e <;> cases c <;>
      simp [h, Counter.eventType, EventType.toNat, edgeCounter_processInstructionExecute _ hπ hε,
        edgeCounter_processJump _ hε, edgeCounter_processCall _ hε, processDataRead,
        processDataWrite, processInstrRead, edgeCounter_processAccess _ hπ]

theorem callCount_processEvent (w : BitVec 32) :
    (edgeInfo k (processEvent d w).instructionCosts s t).callCount =
      (edgeInfo k d.instructionCosts s t).callCount + if callsAlong k d w s t then 1 else 0 := by
  have hπ : ∀ c ci, (CallInfo.bumpInclusive c ci).callCount = ci.callCount + 0 := by simp
  have hε : ∀ ci : CallInfo, ci.bumpCount.callCount = ci.callCount + 1 := fun _ => rfl
  unfold processEvent
  cases h : EventType.ofNat? (getEventType w) with
  | none => cases k <;> simp [callsAlong, EventType.ne_toNat_of_ofNat? h]
  | some e =>
    rw [EventType.ofNat?_eq_some] at h
    cases e <;> cases k <;>
      simp [h, callsAlong, EventType.toNat, and_assoc,
        edgeCounter_processInstructionExecute _ hπ hε, edgeCounter_processJump _ hε,
        edgeCounter_processCall _ hε, processDataRead, processDataWrite, processInstrRead,
        edgeCounter_processAccess _ hπ]

end Events

/-- A quantity each event moves by an amount read off its step moves, over a stream, by their sum.
-/
theorem processEvents_steps (g : ProfilerData → BitVec 64)
    (δ : ProfilerData × BitVec 32 × ProfilerData → BitVec 64)
    (h : ∀ d w, g (processEvent d w) = g d + δ (d, w, processEvent d w)) :
    ∀ (ws : List (BitVec 32)) (d : ProfilerData),
      g (processEvents d ws) = g d + ((eventSteps d ws).map δ).sum
  | [], d => by simp [eventSteps]
  | w :: ws, d => by
    rw [processEvents_cons, processEvents_steps g δ h ws, h, eventSteps, List.map_cons,
      List.sum_cons, add_assoc]

/-- Over any stream, the inclusive counter `c` of an edge grows, modulo `2^64`, by the frames each
event of `c`'s kind charges it through on the stack it leaves. -/
theorem edge_inclusive_counts (c : Counter) (k : EdgeKind) (s t : Nat) (ws : List (BitVec 32))
    (d : ProfilerData) :
    c.inclusive (edgeInfo k (processEvents d ws).instructionCosts s t) =
      c.inclusive (edgeInfo k d.instructionCosts s t) +
        BitVec.ofNat 64 ((eventSteps d ws).map fun e =>
          if getEventType e.2.1 = c.eventType.toNat then chargedFrames k e.2.2.callStack s t
          else 0).sum := by
  rw [ofNat_sum_map]
  exact processEvents_steps (fun d => c.inclusive (edgeInfo k d.instructionCosts s t))
    (fun e => BitVec.ofNat 64 (if getEventType e.2.1 = c.eventType.toNat then
      chargedFrames k e.2.2.callStack s t else 0))
    (fun d w => inclusive_processEvent k d s t c w) ws d

example : Counter.instructions.inclusive (edgeInfo .call (processEvents .init
    [profilerRecordInstructionExecute 0x100#32, profilerRecordCall 0x200#32 0#32,
      profilerRecordInstructionExecute 0x204#32, profilerRecordCall 0x200#32 0#32,
      profilerRecordInstructionExecute 0x204#32, profilerRecordCall 0x200#32 0#32,
      profilerRecordInstructionExecute 0x200#32]).instructionCosts 0x204 0x200) = 3 := by
  decide

/-- Over any stream, the `call_count` of an edge counts, modulo `2^64`, the events that call along
it. -/
theorem edge_callCount_counts (k : EdgeKind) (s t : Nat) (ws : List (BitVec 32))
    (d : ProfilerData) :
    (edgeInfo k (processEvents d ws).instructionCosts s t).callCount =
      (edgeInfo k d.instructionCosts s t).callCount +
        BitVec.ofNat 64 ((eventSteps d ws).countP fun e => callsAlong k e.1 e.2.1 s t) := by
  rw [processEvents_steps (fun d => (edgeInfo k d.instructionCosts s t).callCount)
    (fun e => if callsAlong k e.1 e.2.1 s t then 1 else 0)
    (fun d w => callCount_processEvent k d s t w) ws d, sum_map_ite_countP, one_mul]

/-- Over any stream, each self total grows, modulo `2^64`, by the events that charge it; an access
found at address 0 is in no self counter. -/
theorem self_total_counts (c : Counter) (ws : List (BitVec 32)) (d : ProfilerData) :
    selfTotal c (processEvents d ws).instructionCosts =
      selfTotal c d.instructionCosts +
        BitVec.ofNat 64 ((eventSteps d ws).countP fun e => selfCharged c e.1 e.2.1) := by
  rw [processEvents_steps (fun d => selfTotal c d.instructionCosts)
    (fun e => if selfCharged c e.1 e.2.1 then 1 else 0)
    (fun d w => selfTotal_processEvent_charged c d w) ws d, sum_map_ite_countP, one_mul]

example : selfTotal .dataReads (processEvents .init
    [profilerRecordDataRead 0x20000#32, profilerRecordInstructionExecute 0x1000#32,
      profilerRecordDataRead 0x20000#32]).instructionCosts = 1 := by
  decide

end SqluxProfiler
