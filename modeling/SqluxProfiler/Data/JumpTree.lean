import SqluxProfiler.Data.CallTree

namespace SqluxProfiler

namespace CallTree

def takesJump (s t pc : Nat) : CallTree → Bool
  | .jump a => pc == s && a == t
  | _ => false

/-- Whether a frame holds the jump edge `s → t` after the nodes `xs`. -/
def holdsJumpList (s t : Nat) : Nat → Bool → List CallTree → Bool
  | _, held, [] => held
  | pc, held, x :: xs => holdsJumpList s t (x.pcAfter pc) (held || x.takesJump s t pc) xs

mutual

/-- The inclusive cost `c` of the jump edge `s → t`: a node's events while its frame holds the edge,
and what a callee's own frame adds. -/
def jumpInclusive (c : Counter) (s t : Nat) : Nat → Bool → CallTree → Nat
  | _, held, .exec a => if held then cost c (.exec a) else 0
  | _, held, .access c' hc => if held then cost c (.access c' hc) else 0
  | _, _, .jump _ => 0
  | _, held, .call t' _ body =>
    (if held then costList c body else 0) + jumpInclusiveList c s t t' false body

def jumpInclusiveList (c : Counter) (s t : Nat) : Nat → Bool → List CallTree → Nat
  | _, _, [] => 0
  | pc, held, x :: xs =>
    jumpInclusive c s t pc held x +
      jumpInclusiveList c s t (x.pcAfter pc) (held || x.takesJump s t pc) xs

end

mutual

def jumps (s t : Nat) : Nat → CallTree → Nat
  | pc, .jump a => if pc = s ∧ a = t then 1 else 0
  | _, .call t' _ body => jumpsList s t t' body
  | _, _ => 0

def jumpsList (s t : Nat) : Nat → List CallTree → Nat
  | _, [] => 0
  | pc, x :: xs => jumps s t pc x + jumpsList s t (x.pcAfter pc) xs

end

end CallTree

theorem chargedFrames_append (k : EdgeKind) (l₁ l₂ : List CallFrame) (s t : Nat) :
    chargedFrames k (l₁ ++ l₂) s t = chargedFrames k l₁ s t + chargedFrames k l₂ s t := by
  simp [chargedFrames]

theorem chargedFrames_jump_singleton (f : CallFrame) (s t : Nat) :
    chargedFrames .jump [f] s t = f.jumpRefs.count (s, t) := by
  simp [chargedFrames, frameCharges]

theorem count_insert_of_held {l : List (Nat × Nat)} {x : Nat × Nat} {held : Bool}
    (h : l.count x = if held then 1 else 0) (e : Nat × Nat) :
    (l.insert e).count x = if held = true ∨ e = x then 1 else 0 := by
  by_cases hm : e ∈ l
  · rw [List.insert_of_mem hm]
    by_cases hx : e = x
    · subst hx
      have hpos := List.count_pos_iff.mpr hm
      cases held <;> simp_all
    · simp [h, hx]
  · rw [List.insert_of_not_mem hm]
    by_cases hx : e = x
    · subst hx
      rw [List.count_cons_self, List.count_eq_zero_of_not_mem hm]
      simp
    · rw [List.count_cons_of_ne (Ne.symm hx), h]
      simp [hx]

/-- The words of a run at one level take `d` to `d'`, keeping the frames below, marking the jump
edge in the top frame at most once, and adding the run's costs to it. -/
structure JumpRuns (s t : Nat) (S : List CallFrame) (f : CallFrame) (d d' : ProfilerData) (pc : Nat)
    (held' : Bool) (cost incl : Counter → Nat) (count : Nat) : Prop where
  pc_eq : d'.currentPc = pc
  top : ∃ f', d'.callStack = S ++ [f'] ∧ f'.key = f.key ∧
    f'.jumpRefs.count (s, t) = if held' then 1 else 0
  inclusive : ∀ c, c.inclusive (edgeInfo .jump d'.instructionCosts s t) =
    c.inclusive (edgeInfo .jump d.instructionCosts s t) +
      BitVec.ofNat 64 (incl c + cost c * chargedFrames .jump S s t)
  callCount : (edgeInfo .jump d'.instructionCosts s t).callCount =
    (edgeInfo .jump d.instructionCosts s t).callCount + BitVec.ofNat 64 count

section Runs

variable {s t : Nat} {S : List CallFrame} {f f₁ : CallFrame} {d d₁ d₂ : ProfilerData}
  {pc₁ pc₂ : Nat} {held held₁ held₂ : Bool} {cost₁ cost₂ incl₁ incl₂ : Counter → Nat}
  {count₁ count₂ : Nat}

theorem JumpRuns.trans (h₁ : JumpRuns s t S f d d₁ pc₁ held₁ cost₁ incl₁ count₁)
    (hk : f₁.key = f.key) (h₂ : JumpRuns s t S f₁ d₁ d₂ pc₂ held₂ cost₂ incl₂ count₂) :
    JumpRuns s t S f d d₂ pc₂ held₂ (fun c => cost₁ c + cost₂ c) (fun c => incl₁ c + incl₂ c)
      (count₁ + count₂) where
  pc_eq := h₂.pc_eq
  top := let ⟨f₂, hs, hk₂, hc⟩ := h₂.top; ⟨f₂, hs, hk₂.trans hk, hc⟩
  inclusive c := by
    rw [h₂.inclusive, h₁.inclusive, add_assoc, ← BitVec.ofNat_add]
    congr 2
    rw [Nat.add_mul]
    omega
  callCount := by rw [h₂.callCount, h₁.callCount, add_assoc, ← BitVec.ofNat_add]

theorem JumpRuns.word {w : BitVec 32} {e : EventType} {pc : Nat} {cost : Counter → Nat}
    (hd : d.callStack = S ++ [f]) (hon : f.jumpRefs.count (s, t) = if held then 1 else 0)
    (he : getEventType w = e.toNat) (hj : e ≠ .jump) (hpc : (processEvent d w).currentPc = pc)
    (hst : (processEvent d w).callStack = d.callStack)
    (hcost : ∀ c, cost c = if c.eventType = e then 1 else 0) :
    JumpRuns s t S f d (processEvent d w) pc held cost (fun c => if held then cost c else 0) 0 where
  pc_eq := hpc
  top := ⟨f, hst.trans hd, rfl, hon⟩
  inclusive c := by
    rw [inclusive_processEvent, he, hst, hd, chargedFrames_append, chargedFrames_jump_singleton,
      hon, hcost]
    by_cases hc : c.eventType = e
    · rw [if_pos (congrArg EventType.toNat hc.symm), if_pos hc]
      congr 2
      split_ifs <;> omega
    · have : e.toNat ≠ c.eventType.toNat := fun h => hc (EventType.toNat_inj.mp h).symm
      simp [hc, this]
  callCount := by
    have : e.toNat ≠ EventType.jump.toNat := fun h => hj (EventType.toNat_inj.mp h)
    rw [callCount_processEvent]
    simp [callsAlong, he, this]

end Runs

section Nodes

variable {s t : Nat} {S : List CallFrame} {f : CallFrame} {d : ProfilerData} {held : Bool}
  (hd : d.callStack = S ++ [f]) (hon : f.jumpRefs.count (s, t) = if held then 1 else 0)

include hd hon

theorem jumpRuns_exec {a : Nat} (ha : a < 2^24) :
    JumpRuns s t S f d (processEvent d (profilerRecordInstructionExecute (.ofNat 32 a))) a held
      (fun c => if c = .instructions then 1 else 0)
      (fun c => if held then (if c = .instructions then 1 else 0) else 0) 0 := by
  have hp := processEvent_executeWord (d := d) ha
  refine JumpRuns.word hd hon (getEventType_profilerRecord .instrExecute _) (by decide)
    (by rw [hp]; rfl) ?_ fun c => by cases c <;> rfl
  simp [hp, processInstructionExecute, hd]

theorem jumpRuns_access {c' : Counter} (hc' : c' ≠ .instructions) :
    JumpRuns s t S f d (processEvent d (profilerRecord c'.eventType 0 0)) d.currentPc held
      (fun c => if c' = c then 1 else 0) (fun c => if held then (if c' = c then 1 else 0) else 0)
      0 := by
  have hp := processEvent_accessWord (d := d) hc'
  refine JumpRuns.word hd hon (getEventType_profilerRecord _ _) ?_ (by rw [hp]; rfl)
    (by rw [hp]; rfl) fun c => by simp [Counter.eventType_inj, eq_comm]
  cases c' <;> simp_all [Counter.eventType]

theorem jumpRuns_jump {a : Nat} (ha : a < 2^24) :
    JumpRuns s t S f d (processEvent d (profilerRecordJump (.ofNat 32 a))) a
      (held || (CallTree.jump a).takesJump s t d.currentPc) (fun _ => 0) (fun _ => 0)
      (if d.currentPc = s ∧ a = t then 1 else 0) := by
  have hp := processEvent_jumpWord (d := d) ha
  have he : getEventType (profilerRecordJump (.ofNat 32 a)) = EventType.jump.toNat :=
    getEventType_profilerRecord .jump _
  refine ⟨by rw [hp]; rfl, ⟨{ f with jumpRefs := f.jumpRefs.insert (d.currentPc, a) }, ?_, rfl, ?_⟩,
    fun c => ?_, ?_⟩
  · rw [hp, processJump, hd, activateJump_append S (List.cons_ne_nil _ _)]
    rfl
  · rw [count_insert_of_held hon]
    simp [CallTree.takesJump, Prod.ext_iff]
  · have : EventType.jump.toNat ≠ c.eventType.toNat := by cases c <;> decide
    rw [inclusive_processEvent, he, if_neg this]
    simp
  · have haddr : getEventAddress (profilerRecordJump (.ofNat 32 a)) = a :=
      (profilerRecord_decode_fit .jump ha (by decide : 0 < 16)).2.1
    rw [callCount_processEvent]
    by_cases h : d.currentPc = s ∧ a = t
    · obtain ⟨rfl, rfl⟩ := h
      simp [callsAlong, he, haddr]
    · simp [callsAlong, he, haddr, h]

omit hd in
theorem JumpRuns.call {t' r : Nat} (hret : d.currentPc + 2 + r < 2^24) {d₂ : ProfilerData}
    {pc₂ : Nat} {held₂ : Bool} {cost incl : Counter → Nat} {count : Nat}
    (hbody : JumpRuns s t (S ++ [f]) ⟨t', d.currentPc, (d.currentPc + 2 + r) % 2^32, []⟩
      (processCall d t' r) d₂ pc₂ held₂ cost incl count) :
    JumpRuns s t S f d (processReturn d₂ (naturalReturn d.currentPc r))
      (naturalReturn d.currentPc r) held cost (fun c => (if held then cost c else 0) + incl c) count := by
  obtain ⟨f₁, hs, hk, -⟩ := hbody.top
  have hx : f₁.returnAddress = naturalReturn d.currentPc r := by
    have := congrArg (·.2.2) hk
    simp only [CallFrame.key] at this
    rw [this, naturalReturn]
    omega
  have hp := processReturn_of_top hs hx
  refine ⟨by rw [hp], ⟨f, by rw [hp], rfl, hon⟩, fun c => ?_, ?_⟩
  · have hpush := edgeCounter_processCall c.inclusive (ε := 0) (by simp) .jump d s t t' r
    rw [hp, hbody.inclusive, hpush, chargedFrames_append, chargedFrames_jump_singleton, hon]
    simp only [ite_self, add_zero, add_assoc, ← BitVec.ofNat_add]
    congr 2
    rw [Nat.mul_add]
    split_ifs <;> omega
  · have hpush :=
      edgeCounter_processCall CallInfo.callCount (ε := 1) (fun _ => rfl) .jump d s t t' r
    rw [hp, hbody.callCount, hpush]
    simp

end Nodes

section Whole

variable {s t : Nat}

mutual

theorem jumpRuns_words : ∀ (x : CallTree) (d : ProfilerData) (S : List CallFrame) (f : CallFrame)
    (held : Bool), x.fits d.currentPc = true → d.callStack = S ++ [f] →
    f.jumpRefs.count (s, t) = (if held then 1 else 0) →
    JumpRuns s t S f d (processEvents d (x.words d.currentPc)) (x.pcAfter d.currentPc)
      (held || x.takesJump s t d.currentPc) (x.cost ·)
      (fun c => x.jumpInclusive c s t d.currentPc held) (x.jumps s t d.currentPc)
  | .exec a, d, S, f, held, hf, hd, hon => by
    simpa [CallTree.takesJump] using jumpRuns_exec hd hon (of_decide_eq_true hf)
  | .access c hc, d, S, f, held, _, hd, hon => by
    simpa [CallTree.takesJump] using jumpRuns_access hd hon hc
  | .jump a, d, S, f, held, hf, hd, hon => jumpRuns_jump hd hon (of_decide_eq_true hf)
  | .call t' r body, d, S, f, held, hf, hd, hon => by
    simp only [CallTree.fits, Bool.and_eq_true, decide_eq_true_eq] at hf
    obtain ⟨⟨⟨ht, hr⟩, hret⟩, hbody⟩ := hf
    have hb : JumpRuns s t (S ++ [f]) ⟨t', d.currentPc, (d.currentPc + 2 + r) % 2^32, []⟩
        (processCall d t' r) (processEvents (processCall d t' r) (CallTree.wordsList t' body))
        (CallTree.pcAfterList t' body) (CallTree.holdsJumpList s t t' false body)
        (CallTree.costList · body) (fun c => CallTree.jumpInclusiveList c s t t' false body)
        (CallTree.jumpsList s t t' body) :=
      jumpRuns_wordsList body (processCall d t' r) (S ++ [f]) _ false hbody
        (by simp [processCall, hd]) rfl
    have hx : naturalReturn d.currentPc r < 2^24 := Nat.mod_lt _ (by decide)
    simp only [CallTree.words, List.cons_append, processEvents_cons, processEvents_append,
      processEvents_nil]
    rw [processEvent_callWord ht hr, processEvent_returnWord hx]
    simpa [CallTree.takesJump] using JumpRuns.call hon hret hb

theorem jumpRuns_wordsList : ∀ (xs : List CallTree) (d : ProfilerData) (S : List CallFrame)
    (f : CallFrame) (held : Bool), CallTree.fitsList d.currentPc xs = true →
    d.callStack = S ++ [f] → f.jumpRefs.count (s, t) = (if held then 1 else 0) →
    JumpRuns s t S f d (processEvents d (CallTree.wordsList d.currentPc xs))
      (CallTree.pcAfterList d.currentPc xs) (CallTree.holdsJumpList s t d.currentPc held xs)
      (CallTree.costList · xs) (fun c => CallTree.jumpInclusiveList c s t d.currentPc held xs)
      (CallTree.jumpsList s t d.currentPc xs)
  | [], d, S, f, held, _, hd, hon => ⟨rfl, ⟨f, hd, rfl, hon⟩,
      fun c => by simp [CallTree.wordsList, CallTree.jumpInclusiveList, CallTree.costList],
      by simp [CallTree.wordsList, CallTree.jumpsList]⟩
  | x :: xs, d, S, f, held, hf, hd, hon => by
    simp only [CallTree.fitsList, Bool.and_eq_true] at hf
    have h₁ := jumpRuns_words x d S f held hf.1 hd hon
    obtain ⟨f₁, hs₁, hk₁, hc₁⟩ := h₁.top
    have h₂ := jumpRuns_wordsList xs _ S f₁ _ (h₁.pc_eq ▸ hf.2) hs₁ hc₁
    rw [h₁.pc_eq] at h₂
    rw [CallTree.wordsList, processEvents_append]
    exact h₁.trans hk₁ h₂

end

end Whole

theorem edgeInfo_jump_firstExecute (a₀ s t : Nat) :
    edgeInfo .jump (processInstructionExecute .init a₀).instructionCosts s t = .zero := by
  simp [processInstructionExecute, ProfilerData.init, bumpStack, bumpFrame, rootFrame,
    edgeInfo_updateCall, edgeInfo_alter_of_edges]
  rfl

/-- What the call tree of a run from `a₀` gives the jump edge `s → t`. -/
def CallTree.jumpEdgeInfo (a₀ : Nat) (ts : List CallTree) (s t : Nat) : CallInfo :=
  .ofCounters (jumpsList s t a₀ ts) fun c => jumpInclusiveList c s t a₀ false ts

theorem edgeInfo_jump_recordedRun {a₀ : Nat} {ts : List CallTree} (ha : a₀ < 2^24)
    (hfit : CallTree.fitsList a₀ ts = true) (s t : Nat) :
    edgeInfo .jump (processEvents .init (CallTree.recordedRun a₀ ts)).instructionCosts s t =
      CallTree.jumpEdgeInfo a₀ ts s t := by
  have hr := jumpRuns_wordsList (s := s) (t := t) ts (processInstructionExecute .init a₀) []
    (rootFrame a₀) false hfit rfl rfl
  have hpc : (processInstructionExecute .init a₀).currentPc = a₀ := rfl
  rw [hpc] at hr
  rw [CallTree.recordedRun, processEvents_cons, processEvent_executeWord ha]
  refine CallInfo.ext_counters ?_ fun c => ?_
  · rw [hr.callCount, edgeInfo_jump_firstExecute]
    exact zero_add _
  · rw [hr.inclusive, edgeInfo_jump_firstExecute, Counter.inclusive_zero, zero_add]
    simp [chargedFrames, CallTree.jumpEdgeInfo]

/-- Recorded from the start, a run leaves on every jump edge `s → t` the events each frame has from
its first taking of the jump to its return, callees included, and the number of jumps. -/
theorem callTree_jump_counters (a₀ : Nat) (ts : List CallTree) (ha : a₀ < 2^24)
    (hfit : CallTree.fitsList a₀ ts = true) (c : Counter) (s t : Nat) :
    c.inclusive (edgeInfo .jump
        (processEvents .init (CallTree.recordedRun a₀ ts)).instructionCosts s t) =
        BitVec.ofNat 64 (CallTree.jumpInclusiveList c s t a₀ false ts) ∧
      (edgeInfo .jump (processEvents .init (CallTree.recordedRun a₀ ts)).instructionCosts s t).callCount =
        BitVec.ofNat 64 (CallTree.jumpsList s t a₀ ts) := by
  rw [edgeInfo_jump_recordedRun ha hfit]
  exact ⟨Counter.inclusive_ofCounters _ _ _, rfl⟩

/-- A loop that jumps from `0x102` to `0x110`, calls `0x200`, and jumps again. -/
def loopRun : List CallTree :=
  [.jump 0x110, .exec 0x110, .call 0x200 0 [.exec 0x200, .exec 0x202], .exec 0x102, .jump 0x110,
   .exec 0x110]

theorem callTree_jump_counters_loop :
    0x102 < 2^24 ∧ CallTree.fitsList 0x102 loopRun = true ∧
      (Counter.instructions.inclusive (edgeInfo .jump
          (processEvents .init (CallTree.recordedRun 0x102 loopRun)).instructionCosts 0x102 0x110) =
          BitVec.ofNat 64 (CallTree.jumpInclusiveList .instructions 0x102 0x110 0x102 false loopRun) ∧
        (edgeInfo .jump (processEvents .init (CallTree.recordedRun 0x102 loopRun)).instructionCosts
            0x102 0x110).callCount =
          BitVec.ofNat 64 (CallTree.jumpsList 0x102 0x110 0x102 loopRun)) :=
  ⟨by decide, by decide, callTree_jump_counters 0x102 loopRun (by decide) (by decide) _ _ _⟩

example : CallTree.jumpInclusiveList .instructions 0x102 0x110 0x102 false loopRun = 5 ∧
    CallTree.jumpsList 0x102 0x110 0x102 loopRun = 2 := by decide

end SqluxProfiler
