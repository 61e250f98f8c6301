import SqluxProfiler.Data.Edges
import SqluxProfiler.Data.Nesting

namespace SqluxProfiler

/-- A run of the emulated program: each call holds its callee's run, up to the return. -/
inductive CallTree where
  | exec (address : Nat)
  | access (c : Counter) (hc : c ≠ .instructions)
  | jump (target : Nat)
  | call (target returnOffset : Nat) (body : List CallTree)

namespace CallTree

def pcAfter (pc : Nat) : CallTree → Nat
  | .exec a => a
  | .access .. => pc
  | .jump a => a
  | .call _ r _ => naturalReturn pc r

def pcAfterList (pc : Nat) : List CallTree → Nat
  | [] => pc
  | x :: xs => pcAfterList (x.pcAfter pc) xs

mutual

/-- The words a run from `pc` records: a call is its `CALL`, its callee's words and its `RETURN`. -/
def words : Nat → CallTree → List (BitVec 32)
  | _, .exec a => [profilerRecordInstructionExecute (.ofNat 32 a)]
  | _, .access c _ => [profilerRecord c.eventType 0 0]
  | _, .jump a => [profilerRecordJump (.ofNat 32 a)]
  | pc, .call t r body => profilerRecordCall (.ofNat 32 t) (.ofNat 32 r) :: wordsList t body ++
      [profilerRecordReturn (.ofNat 32 (naturalReturn pc r))]

def wordsList : Nat → List CallTree → List (BitVec 32)
  | _, [] => []
  | pc, x :: xs => words pc x ++ wordsList (x.pcAfter pc) xs

end

mutual

/-- Addresses fit 24 bits, offsets 4 bits, and no call returns past the 24-bit top. -/
def fits : Nat → CallTree → Bool
  | _, .exec a => a < 2^24
  | _, .access .. => true
  | _, .jump a => a < 2^24
  | pc, .call t r body => t < 2^24 && r < 16 && pc + 2 + r < 2^24 && fitsList t body

def fitsList : Nat → List CallTree → Bool
  | _, [] => true
  | pc, x :: xs => fits pc x && fitsList (x.pcAfter pc) xs

end

mutual

def cost (c : Counter) : CallTree → Nat
  | .exec _ => if c = .instructions then 1 else 0
  | .access c' _ => if c' = c then 1 else 0
  | .jump _ => 0
  | .call _ _ body => costList c body

def costList (c : Counter) : List CallTree → Nat
  | [] => 0
  | x :: xs => cost c x + costList c xs

end

mutual

/-- The inclusive cost `c` of the call edge `s → t`: the events of each call's callee, nested calls
counted again. -/
def inclusive (c : Counter) (s t : Nat) : Nat → CallTree → Nat
  | pc, .call t' _ body =>
    (if pc = s ∧ t' = t then costList c body else 0) + inclusiveList c s t t' body
  | _, _ => 0

def inclusiveList (c : Counter) (s t : Nat) : Nat → List CallTree → Nat
  | _, [] => 0
  | pc, x :: xs => inclusive c s t pc x + inclusiveList c s t (x.pcAfter pc) xs

end

mutual

def calls (s t : Nat) : Nat → CallTree → Nat
  | pc, .call t' _ body => (if pc = s ∧ t' = t then 1 else 0) + callsList s t t' body
  | _, _ => 0

def callsList (s t : Nat) : Nat → List CallTree → Nat
  | _, [] => 0
  | pc, x :: xs => calls s t pc x + callsList s t (x.pcAfter pc) xs

end

end CallTree

theorem profilerRecord_decode_fit (e : EventType) {a r : Nat} (ha : a < 2^24) (hr : r < 16) :
    EventType.ofNat? (getEventType (profilerRecord e (.ofNat 32 a) (.ofNat 32 r))) = some e ∧
      getEventAddress (profilerRecord e (.ofNat 32 a) (.ofNat 32 r)) = a ∧
      getReturnOffset (profilerRecord e (.ofNat 32 a) (.ofNat 32 r)) =
        if e = .call then r else 0 := by
  have hr' : (BitVec.ofNat 32 r).toNat < 16 := by rw [BitVec.toNat_ofNat]; omega
  obtain ⟨ht, ho, hadr⟩ := profilerRecord_decode e (.ofNat 32 a) (.ofNat 32 r) hr'
  refine ⟨by rw [ht, EventType.ofNat?_toNat], ?_, ?_⟩
  · rw [hadr, BitVec.toNat_ofNat]; omega
  · rw [ho, BitVec.toNat_ofNat, Nat.mod_eq_of_lt (by omega : r < 2^32)]

theorem Counter.eventType_inj {c c' : Counter} : c.eventType = c'.eventType ↔ c = c' := by
  cases c <;> cases c' <;> decide

theorem EventType.toNat_inj {e e' : EventType} : e.toNat = e'.toNat ↔ e = e' :=
  ⟨fun h => Option.some.inj (by rw [← EventType.ofNat?_toNat, h, EventType.ofNat?_toNat]),
    congrArg _⟩

/-- The frame without its `jump_refs`. -/
def CallFrame.key (f : CallFrame) : Nat × Nat × Nat := (f.address, f.callerPc, f.returnAddress)

theorem chargedFrames_call_congr {st st' : List CallFrame}
    (h : st.map CallFrame.key = st'.map CallFrame.key) (s t : Nat) :
    chargedFrames .call st s t = chargedFrames .call st' s t := by
  have hk : ∀ l : List CallFrame, chargedFrames .call l s t =
      ((l.map CallFrame.key).map fun k => if k.2.1 = s ∧ k.1 = t then 1 else 0).sum := fun l => by
    simp [chargedFrames, frameCharges, CallFrame.key, Function.comp_def]
  rw [hk, hk, h]

@[simp] theorem map_key_activateJump (e : Nat × Nat) :
    ∀ l : List CallFrame, (activateJump l e).map CallFrame.key = l.map CallFrame.key :=
  map_activateJump CallFrame.key (fun _ _ => rfl) e

/-- The words of a run take `d` to `d'`, keeping the frames' keys and adding the run's costs to
every call edge. -/
structure Runs (d d' : ProfilerData) (pc : Nat) (cost : Counter → Nat)
    (incl : Counter → Nat → Nat → Nat) (calls : Nat → Nat → Nat) : Prop where
  pc_eq : d'.currentPc = pc
  frames : d'.callStack.map CallFrame.key = d.callStack.map CallFrame.key
  inclusive : ∀ c s t, c.inclusive (edgeInfo .call d'.instructionCosts s t) =
    c.inclusive (edgeInfo .call d.instructionCosts s t) +
      BitVec.ofNat 64 (incl c s t + cost c * chargedFrames .call d.callStack s t)
  callCount : ∀ s t, (edgeInfo .call d'.instructionCosts s t).callCount =
    (edgeInfo .call d.instructionCosts s t).callCount +
      BitVec.ofNat 64 (if s = 0 then 0 else calls s t)

section Runs

variable {d d₁ d₂ : ProfilerData} {pc₁ pc₂ : Nat} {cost₁ cost₂ : Counter → Nat}
  {incl₁ incl₂ : Counter → Nat → Nat → Nat} {calls₁ calls₂ : Nat → Nat → Nat}

theorem Runs.trans (h₁ : Runs d d₁ pc₁ cost₁ incl₁ calls₁)
    (h₂ : Runs d₁ d₂ pc₂ cost₂ incl₂ calls₂) :
    Runs d d₂ pc₂ (fun c => cost₁ c + cost₂ c) (fun c s t => incl₁ c s t + incl₂ c s t)
      (fun s t => calls₁ s t + calls₂ s t) where
  pc_eq := h₂.pc_eq
  frames := h₂.frames.trans h₁.frames
  inclusive c s t := by
    rw [h₂.inclusive, h₁.inclusive, chargedFrames_call_congr h₁.frames, add_assoc,
      ← BitVec.ofNat_add]
    congr 2
    rw [Nat.add_mul]
    omega
  callCount s t := by
    rw [h₂.callCount, h₁.callCount, add_assoc, ← BitVec.ofNat_add]
    split_ifs <;> rfl

theorem Runs.word {w : BitVec 32} {e : EventType} {pc : Nat} {cost : Counter → Nat}
    (he : getEventType w = e.toNat) (hpc : (processEvent d w).currentPc = pc)
    (hcost : ∀ c, cost c = if c.eventType = e then 1 else 0)
    (hf : (processEvent d w).callStack.map CallFrame.key = d.callStack.map CallFrame.key)
    (hcalls : ∀ s t, callsAlong .call d w s t = false) :
    Runs d (processEvent d w) pc cost (fun _ _ _ => 0) (fun _ _ => 0) where
  pc_eq := hpc
  frames := hf
  inclusive c s t := by
    rw [inclusive_processEvent, he, chargedFrames_call_congr hf, hcost]
    by_cases hc : c.eventType = e
    · simp [hc]
    · have : e.toNat ≠ c.eventType.toNat := fun h => hc (EventType.toNat_inj.mp h).symm
      simp [hc, this]
  callCount s t := by
    rw [callCount_processEvent, hcalls]
    simp

end Runs

section Nodes

variable {d : ProfilerData}

theorem processEvent_access {c : Counter} (hc : c ≠ .instructions) {w : BitVec 32}
    (hw : EventType.ofNat? (getEventType w) = some c.eventType) :
    processEvent d w = processAccess c d := by
  cases c
  · exact absurd rfl hc
  all_goals unfold processEvent; rw [hw]; rfl

theorem processEvent_executeWord {a : Nat} (ha : a < 2^24) :
    processEvent d (profilerRecordInstructionExecute (.ofNat 32 a)) =
      processInstructionExecute d a := by
  obtain ⟨ht, haddr, -⟩ := profilerRecord_decode_fit .instrExecute ha (by decide : 0 < 16)
  exact (processEvent_instrExecute d ht).trans (by rw [haddr])

theorem processEvent_jumpWord {a : Nat} (ha : a < 2^24) :
    processEvent d (profilerRecordJump (.ofNat 32 a)) = processJump d a := by
  obtain ⟨ht, haddr, -⟩ := profilerRecord_decode_fit .jump ha (by decide : 0 < 16)
  exact (processEvent_jump d ht).trans (by rw [haddr])

theorem getEventType_profilerRecord (e : EventType) (a : BitVec 32) :
    getEventType (profilerRecord e a 0) = e.toNat :=
  (profilerRecord_decode e a 0 (by decide)).1

theorem processEvent_accessWord {c : Counter} (hc : c ≠ .instructions) :
    processEvent d (profilerRecord c.eventType 0 0) = processAccess c d :=
  processEvent_access hc (by rw [getEventType_profilerRecord, EventType.ofNat?_toNat])

theorem runs_exec (hne : d.callStack ≠ []) {a : Nat} (ha : a < 2^24) :
    Runs d (processEvent d (profilerRecordInstructionExecute (.ofNat 32 a))) a
      (fun c => if c = .instructions then 1 else 0) (fun _ _ _ => 0) (fun _ _ => 0) := by
  have hp := processEvent_executeWord (d := d) ha
  have he : getEventType (profilerRecordInstructionExecute (.ofNat 32 a)) =
      EventType.instrExecute.toNat := getEventType_profilerRecord .instrExecute _
  refine Runs.word he (by rw [hp]; rfl) (fun c => by cases c <;> rfl)
    (by simp [hp, processInstructionExecute, hne]) fun s t => ?_
  simp [callsAlong, he, EventType.toNat, hne]

theorem runs_access {c' : Counter} (hc' : c' ≠ .instructions) :
    Runs d (processEvent d (profilerRecord c'.eventType 0 0)) d.currentPc
      (fun c => if c' = c then 1 else 0) (fun _ _ _ => 0) (fun _ _ => 0) := by
  have he := getEventType_profilerRecord c'.eventType 0
  have hp := processEvent_accessWord (d := d) hc'
  refine Runs.word he (by rw [hp]; rfl) (fun c => by simp [Counter.eventType_inj, eq_comm])
    (by rw [hp]; rfl) fun s t => ?_
  cases c' <;> simp_all [callsAlong, Counter.eventType, EventType.toNat]

theorem runs_jump {a : Nat} (ha : a < 2^24) :
    Runs d (processEvent d (profilerRecordJump (.ofNat 32 a))) a (fun _ => 0) (fun _ _ _ => 0)
      (fun _ _ => 0) := by
  have hp := processEvent_jumpWord (d := d) ha
  have he : getEventType (profilerRecordJump (.ofNat 32 a)) = EventType.jump.toNat :=
    getEventType_profilerRecord .jump _
  refine Runs.word he (by rw [hp]; rfl) (fun c => by cases c <;> rfl)
    (by rw [hp]; exact map_key_activateJump _ _) fun s t => ?_
  simp [callsAlong, he, EventType.toNat]

theorem processEvent_callWord {t r : Nat} (ht : t < 2^24) (hr : r < 16) :
    processEvent d (profilerRecordCall (.ofNat 32 t) (.ofNat 32 r)) = processCall d t r := by
  obtain ⟨hty, haddr, hoff⟩ := profilerRecord_decode_fit .call ht hr
  exact (processEvent_call d hty).trans (by rw [haddr, hoff, if_pos rfl])

theorem processEvent_returnWord {x : Nat} (hx : x < 2^24) :
    processEvent d (profilerRecordReturn (.ofNat 32 x)) = processReturn d x := by
  obtain ⟨hty, haddr, -⟩ := profilerRecord_decode_fit .«return» hx (by decide : 0 < 16)
  exact (processEvent_return d hty).trans (by rw [haddr])

theorem Runs.call {t r : Nat} (hret : d.currentPc + 2 + r < 2^24)
    {d₂ : ProfilerData} {pc₂ : Nat} {cost : Counter → Nat} {incl : Counter → Nat → Nat → Nat}
    {calls : Nat → Nat → Nat} (hbody : Runs (processCall d t r) d₂ pc₂ cost incl calls) :
    Runs d (processReturn d₂ (naturalReturn d.currentPc r)) (naturalReturn d.currentPc r) cost
      (fun c s t' => (if d.currentPc = s ∧ t = t' then cost c else 0) + incl c s t')
      (fun s t' => (if d.currentPc = s ∧ t = t' then 1 else 0) + calls s t') := by
  obtain ⟨rest, top, hs, hrest, htop⟩ : ∃ rest top, d₂.callStack = rest ++ [top] ∧
      rest.map CallFrame.key = d.callStack.map CallFrame.key ∧
      top.returnAddress = naturalReturn d.currentPc r := by
    have h := hbody.frames
    simp only [processCall, List.map_append, List.map_singleton] at h
    obtain ⟨l₁, l₂, hs, h₁, h₂⟩ := List.map_eq_append_iff.mp h
    obtain ⟨top, l₃, rfl, htop, h₃⟩ := List.map_eq_cons_iff.mp h₂
    rw [List.map_eq_nil_iff] at h₃
    subst h₃
    refine ⟨l₁, top, hs, h₁, ?_⟩
    have := congrArg (·.2.2) htop
    simp only [CallFrame.key] at this
    rw [this, naturalReturn]
    omega
  have hp := processReturn_of_top hs htop
  have hcharge : ∀ s t', chargedFrames .call (processCall d t r).callStack s t' =
      chargedFrames .call d.callStack s t' + if d.currentPc = s ∧ t = t' then 1 else 0 := by
    intro s t'
    simp [processCall, chargedFrames, frameCharges]
  refine ⟨by rw [hp], by rw [hp]; exact hrest, fun c s t' => ?_, fun s t' => ?_⟩
  · have hpush := edgeCounter_processCall c.inclusive (ε := 0) (by simp) .call d s t' t r
    rw [hp, hbody.inclusive, hpush, hcharge]
    simp only [add_zero, ite_self, add_assoc, ← BitVec.ofNat_add]
    congr 2
    rw [Nat.mul_add]
    split_ifs <;> omega
  · have hpush :=
      edgeCounter_processCall CallInfo.callCount (ε := 1) (fun _ => rfl) .call d s t' t r
    -- the `CALL` counts itself unless it comes from the root address 0
    have hcount : (if EdgeKind.call = .call ∧ d.currentPc = s ∧ t = t' ∧ d.currentPc ≠ 0 then
        (1 : BitVec 64) else 0) =
          BitVec.ofNat 64 (if s = 0 then 0 else if d.currentPc = s ∧ t = t' then 1 else 0) := by
      by_cases h0 : s = 0
      · rw [if_pos h0, if_neg fun h => h.2.2.2 (h.2.1.trans h0)]
        rfl
      · by_cases hc : d.currentPc = s ∧ t = t'
        · rw [if_neg h0, if_pos hc, if_pos ⟨rfl, hc.1, hc.2, fun h => h0 (hc.1 ▸ h)⟩]
          rfl
        · rw [if_neg h0, if_neg hc, if_neg fun h => hc ⟨h.2.1, h.2.2.1⟩]
          rfl
    rw [hp, hbody.callCount, hpush, hcount, add_assoc, ← BitVec.ofNat_add]
    congr 2
    split_ifs <;> rfl

end Nodes

mutual

theorem runs_words : ∀ (x : CallTree) (d : ProfilerData), x.fits d.currentPc = true →
    d.callStack ≠ [] →
    Runs d (processEvents d (x.words d.currentPc)) (x.pcAfter d.currentPc) (x.cost ·)
      (fun c s t => x.inclusive c s t d.currentPc) (fun s t => x.calls s t d.currentPc)
  | .exec a, d, hf, hne => runs_exec hne (of_decide_eq_true hf)
  | .access c hc, d, _, _ => runs_access hc
  | .jump a, d, hf, _ => runs_jump (of_decide_eq_true hf)
  | .call t r body, d, hf, hne => by
    simp only [CallTree.fits, Bool.and_eq_true, decide_eq_true_eq] at hf
    obtain ⟨⟨⟨ht, hr⟩, hret⟩, hbody⟩ := hf
    have hb : Runs (processCall d t r)
        (processEvents (processCall d t r) (CallTree.wordsList t body)) (CallTree.pcAfterList t body) (CallTree.costList · body)
        (fun c s t' => CallTree.inclusiveList c s t' t body)
        (fun s t' => CallTree.callsList s t' t body) :=
      runs_wordsList body (processCall d t r) hbody (by simp [processCall])
    have hx : naturalReturn d.currentPc r < 2^24 := Nat.mod_lt _ (by decide)
    simp only [CallTree.words, List.cons_append, processEvents_cons, processEvents_append,
      processEvents_nil]
    rw [processEvent_callWord ht hr, processEvent_returnWord hx]
    exact Runs.call hret hb

theorem runs_wordsList : ∀ (xs : List CallTree) (d : ProfilerData),
    CallTree.fitsList d.currentPc xs = true → d.callStack ≠ [] →
    Runs d (processEvents d (CallTree.wordsList d.currentPc xs))
      (CallTree.pcAfterList d.currentPc xs) (CallTree.costList · xs)
      (fun c s t => CallTree.inclusiveList c s t d.currentPc xs)
      (fun s t => CallTree.callsList s t d.currentPc xs)
  | [], d, _, _ => ⟨rfl, rfl,
      fun c s t => by simp [CallTree.wordsList, CallTree.inclusiveList, CallTree.costList],
      fun s t => by simp [CallTree.wordsList, CallTree.callsList]⟩
  | x :: xs, d, hf, hne => by
    simp only [CallTree.fitsList, Bool.and_eq_true] at hf
    have h₁ := runs_words x d hf.1 hne
    have hne₁ : (processEvents d (x.words d.currentPc)).callStack ≠ [] := fun h => hne (by
      simpa [h] using h₁.frames.symm)
    have h₂ := runs_wordsList xs _ (h₁.pc_eq ▸ hf.2) hne₁
    rw [h₁.pc_eq] at h₂
    rw [CallTree.wordsList, processEvents_append]
    exact h₁.trans h₂

end

/-- The words of a run that starts at `a₀`: the first `INSTR_EXECUTE`, then the run's nodes. -/
def CallTree.recordedRun (a₀ : Nat) (ts : List CallTree) : List (BitVec 32) :=
  profilerRecordInstructionExecute (.ofNat 32 a₀) :: CallTree.wordsList a₀ ts

@[simp] theorem edgeInfo_init (k : EdgeKind) (s t : Nat) :
    edgeInfo k ProfilerData.init.instructionCosts s t = .zero := rfl

theorem chargedFrames_rootFrame (a₀ s t : Nat) :
    chargedFrames .call [rootFrame a₀] s t = if s = 0 ∧ t = a₀ then 1 else 0 := by
  simp [chargedFrames, frameCharges, rootFrame, eq_comm]

section FirstWord

variable {a₀ : Nat}

theorem inclusive_firstExecute (c : Counter) (s t : Nat) :
    c.inclusive (edgeInfo .call (processInstructionExecute .init a₀).instructionCosts s t) =
      BitVec.ofNat 64 (if s = 0 ∧ t = a₀ then CallTree.cost c (.exec a₀) else 0) := by
  have hε : ∀ ci, c.inclusive ci.bumpCount = c.inclusive ci + 0 := by simp
  rw [edgeCounter_processInstructionExecute c.inclusive (Counter.inclusive_bumpInclusive c) hε,
    edgeInfo_init, Counter.inclusive_zero, ite_self, zero_add, zero_add]
  show _ * BitVec.ofNat 64 (chargedFrames .call [rootFrame a₀] s t) = _
  rw [chargedFrames_rootFrame, CallTree.cost]
  split_ifs <;> rfl

theorem callCount_firstExecute (s t : Nat) :
    (edgeInfo .call (processInstructionExecute .init a₀).instructionCosts s t).callCount =
      BitVec.ofNat 64 (if s = 0 ∧ t = a₀ then 1 else 0) := by
  have hπ : ∀ c ci, (CallInfo.bumpInclusive c ci).callCount = ci.callCount + 0 := by simp
  rw [edgeCounter_processInstructionExecute CallInfo.callCount hπ (fun _ => rfl), edgeInfo_init,
    zero_mul, add_zero]
  by_cases h : s = 0 ∧ t = a₀
  · rw [if_pos ⟨rfl, h.1, h.2.symm, rfl⟩, if_pos h]
    rfl
  · rw [if_neg fun h' => h ⟨h'.2.1, h'.2.2.1.symm⟩, if_neg h]
    rfl

end FirstWord

def CallInfo.ofCounters (count : Nat) (incl : Counter → Nat) : CallInfo :=
  ⟨.ofNat 64 count, .ofNat 64 (incl .instructions), .ofNat 64 (incl .instrFetches),
    .ofNat 64 (incl .dataReads), .ofNat 64 (incl .dataWrites)⟩

@[simp] theorem CallInfo.callCount_ofCounters (count : Nat) (incl : Counter → Nat) :
    (CallInfo.ofCounters count incl).callCount = .ofNat 64 count := rfl

@[simp] theorem Counter.inclusive_ofCounters (c : Counter) (count : Nat) (incl : Counter → Nat) :
    c.inclusive (CallInfo.ofCounters count incl) = .ofNat 64 (incl c) := by
  cases c <;> rfl

theorem CallInfo.ext_counters {a b : CallInfo} (h : a.callCount = b.callCount)
    (hc : ∀ c : Counter, c.inclusive a = c.inclusive b) : a = b := by
  cases a
  cases b
  simp only [CallInfo.mk.injEq]
  exact ⟨h, hc .instructions, hc .instrFetches, hc .dataReads, hc .dataWrites⟩

/-- What the call tree of a run from `a₀` gives the call edge `s → t`. -/
def CallTree.callEdgeInfo (a₀ : Nat) (ts : List CallTree) (s t : Nat) : CallInfo :=
  .ofCounters (if s = 0 then (if t = a₀ then 1 else 0) else callsList s t a₀ ts) fun c =>
    inclusiveList c s t a₀ ts + if s = 0 ∧ t = a₀ then costList c (.exec a₀ :: ts) else 0

theorem edgeInfo_call_recordedRun {a₀ : Nat} {ts : List CallTree} (ha : a₀ < 2^24)
    (hfit : CallTree.fitsList a₀ ts = true) (s t : Nat) :
    edgeInfo .call (processEvents .init (CallTree.recordedRun a₀ ts)).instructionCosts s t =
      CallTree.callEdgeInfo a₀ ts s t := by
  have hr := runs_wordsList ts (processInstructionExecute .init a₀) hfit (List.cons_ne_nil _ _)
  have hpc : (processInstructionExecute .init a₀).currentPc = a₀ := rfl
  have hst : (processInstructionExecute .init a₀).callStack = [rootFrame a₀] := rfl
  rw [hpc] at hr
  rw [CallTree.recordedRun, processEvents_cons, processEvent_executeWord ha]
  refine CallInfo.ext_counters ?_ fun c => ?_
  · rw [hr.callCount, callCount_firstExecute, ← BitVec.ofNat_add, CallTree.callEdgeInfo,
      CallInfo.callCount_ofCounters]
    congr 1
    by_cases hs : s = 0 <;> simp [hs]
  · rw [hr.inclusive, hst, chargedFrames_rootFrame, inclusive_firstExecute, ← BitVec.ofNat_add,
      CallTree.callEdgeInfo, Counter.inclusive_ofCounters, CallTree.costList]
    congr 1
    split_ifs <;> omega

/-- Recorded from the start, a run leaves on every call edge `s → t` its call tree's costs: the
events of each call from `s` to `t`, and their number, except from address 0; the root edge holds
the whole run once. -/
theorem callTree_edge_counters (a₀ : Nat) (ts : List CallTree) (ha : a₀ < 2^24)
    (hfit : CallTree.fitsList a₀ ts = true) (c : Counter) (s t : Nat) :
    c.inclusive (edgeInfo .call
        (processEvents .init (CallTree.recordedRun a₀ ts)).instructionCosts s t) =
        BitVec.ofNat 64 (CallTree.inclusiveList c s t a₀ ts +
          if s = 0 ∧ t = a₀ then CallTree.costList c (.exec a₀ :: ts) else 0) ∧
      (edgeInfo .call (processEvents .init (CallTree.recordedRun a₀ ts)).instructionCosts s t).callCount =
        BitVec.ofNat 64 (if s = 0 then (if t = a₀ then 1 else 0) else CallTree.callsList s t a₀ ts) := by
  rw [edgeInfo_call_recordedRun ha hfit]
  exact ⟨Counter.inclusive_ofCounters _ _ _, rfl⟩

/-- A call to `0x200` whose callee reads data and calls `0x300`. -/
def nestedCallRun : List CallTree :=
  [.exec 0x102,
   .call 0x200 0 [.exec 0x200, .access .dataReads (by decide), .call 0x300 2 [.exec 0x300],
     .exec 0x202],
   .exec 0x104]

theorem callTree_edge_counters_nested :
    0x100 < 2^24 ∧ CallTree.fitsList 0x100 nestedCallRun = true ∧
      (Counter.instructions.inclusive (edgeInfo .call
          (processEvents .init (CallTree.recordedRun 0x100 nestedCallRun)).instructionCosts
            0x102 0x200) =
          BitVec.ofNat 64 (CallTree.inclusiveList .instructions 0x102 0x200 0x100 nestedCallRun +
            if 0x102 = 0 ∧ 0x200 = 0x100 then
              CallTree.costList .instructions (.exec 0x100 :: nestedCallRun) else 0) ∧
        (edgeInfo .call (processEvents .init (CallTree.recordedRun 0x100 nestedCallRun)).instructionCosts
            0x102 0x200).callCount =
          BitVec.ofNat 64 (if 0x102 = 0 then (if 0x200 = 0x100 then 1 else 0)
            else CallTree.callsList 0x102 0x200 0x100 nestedCallRun)) :=
  ⟨by decide, by decide, callTree_edge_counters 0x100 nestedCallRun (by decide) (by decide) _ _ _⟩

example : CallTree.inclusiveList .instructions 0x102 0x200 0x100 nestedCallRun = 3 := by decide

end SqluxProfiler
