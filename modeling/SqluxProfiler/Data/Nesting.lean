import SqluxProfiler.Data.Return

namespace SqluxProfiler

/-- The 24-bit return address a `RETURN` word carries for a call at `pc` with offset `r`. -/
def naturalReturn (pc r : Nat) : Nat := (pc + 2 + r) % 2^24

/-- `current_pc_` after `ProcessEvent`. -/
def pcAfter (pc : Nat) (w : BitVec 32) : Nat :=
  match EventType.ofNat? (getEventType w) with
  | some .instrExecute | some .jump | some .call | some .«return» => getEventAddress w
  | _ => pc

/-- The words from `pc` nest their calls and returns over the `pending` returns, each return
carrying its call's 24-bit return address. -/
def balancedFrom (pc : Nat) (pending : List Nat) : List (BitVec 32) → Bool
  | [] => pending.isEmpty
  | w :: ws =>
    match EventType.ofNat? (getEventType w), pending with
    | some .call, _ =>
      balancedFrom (pcAfter pc w) (naturalReturn pc (getReturnOffset w) :: pending) ws
    | some .«return», e :: rest => getEventAddress w == e && balancedFrom (pcAfter pc w) rest ws
    | some .«return», [] => false
    | some _, _ => balancedFrom (pcAfter pc w) pending ws
    | none, _ => false

/-- No call among the words from `pc` returns past the top of the 24-bit address space. -/
def callsClearTop (pc : Nat) : List (BitVec 32) → Bool
  | [] => true
  | w :: ws =>
    (EventType.ofNat? (getEventType w) != some .call || pc + 2 + getReturnOffset w < 2^24) &&
      callsClearTop (pcAfter pc w) ws

theorem currentPc_processEvent (d : ProfilerData) (w : BitVec 32) :
    (processEvent d w).currentPc = pcAfter d.currentPc w := by
  unfold processEvent pcAfter
  cases EventType.ofNat? (getEventType w) with
  | none => rfl
  | some t =>
    cases t
    case «return» => exact congrArg ProfilerData.currentPc (processReturn_eq_with d _).choose_spec
    all_goals rfl

theorem activateJump_append (S : List CallFrame) {l : List CallFrame} (hl : l ≠ [])
    (e : Nat × Nat) : activateJump (S ++ l) e = S ++ activateJump l e := by
  induction S with
  | nil => rfl
  | cons f S ih =>
    obtain ⟨g, rest, h⟩ := List.exists_cons_of_ne_nil (List.append_ne_nil_of_right_ne_nil S hl)
    rw [List.cons_append, h, activateJump, ← h, ih, List.cons_append]

@[simp] theorem map_returnAddress_activateJump (e : Nat × Nat) :
    ∀ l : List CallFrame, (activateJump l e).map (·.returnAddress) = l.map (·.returnAddress) :=
  map_activateJump (·.returnAddress) (fun _ _ => rfl) e

section Balanced

variable (S : List CallFrame) (R : Nat)

theorem balanced_keeps_caller : ∀ (ws : List (BitVec 32)) (d : ProfilerData) (F : CallFrame)
    (U : List CallFrame), balancedFrom d.currentPc ((U.map (·.returnAddress)).reverse) ws →
    callsClearTop d.currentPc ws → d.callStack = S ++ F :: U → F.returnAddress = R →
    ∃ F', (processEvents d ws).callStack = S ++ [F'] ∧ F'.returnAddress = R
  | [], d, F, U, hb, _, hs, hF => by
    have hU : U = [] := by simpa [balancedFrom] using hb
    exact ⟨F, by rw [processEvents_nil, hs, hU], hF⟩
  | w :: ws, d, F, U, hb, hc, hs, hF => by
    rw [processEvents_cons]
    simp only [callsClearTop, Bool.and_eq_true, ← currentPc_processEvent] at hc
    obtain ⟨hclear, hc⟩ := hc
    have hpc := currentPc_processEvent d w
    simp only [balancedFrom, ← hpc] at hb
    cases hk : EventType.ofNat? (getEventType w) with
    | none => simp [hk] at hb
    | some t =>
      simp only [hk] at hb hclear
      cases t
      case instrExecute =>
        exact balanced_keeps_caller ws _ F U hb hc
          (by simp [processEvent_instrExecute d hk, processInstructionExecute, hs]) hF
      case jump =>
        have hmap := map_returnAddress_activateJump (d.currentPc, getEventAddress w) (F :: U)
        obtain ⟨F', U', hFU⟩ : ∃ F' U', activateJump (F :: U) (d.currentPc, getEventAddress w) =
            F' :: U' := List.exists_cons_of_ne_nil fun h => by simp [h] at hmap
        rw [hFU, List.map_cons, List.map_cons, List.cons.injEq] at hmap
        refine balanced_keeps_caller ws _ F' U' (by rwa [hmap.2]) hc ?_ (hmap.1.trans hF)
        rw [processEvent_jump d hk, processJump, hs, activateJump_append S (List.cons_ne_nil _ _), hFU]
      case call =>
        have hlt : d.currentPc + 2 + getReturnOffset w < 2^24 := by simpa using hclear
        refine balanced_keeps_caller ws _ F
          (U ++ [⟨getEventAddress w, d.currentPc, (d.currentPc + 2 + getReturnOffset w) % 2^32, []⟩])
          ?_ hc (by rw [processEvent_call d hk, processCall, hs]; simp) hF
        have hret : (d.currentPc + 2 + getReturnOffset w) % 2^32 =
            naturalReturn d.currentPc (getReturnOffset w) := by
          simp only [naturalReturn]; omega
        simpa only [List.map_append, List.map_singleton, List.reverse_append,
          List.reverse_singleton, List.singleton_append, hret] using hb
      case «return» =>
        rcases List.eq_nil_or_concat' U with rfl | ⟨U₀, g, rfl⟩
        · simp at hb
        · simp only [List.map_append, List.map_cons, List.map_nil, List.reverse_append,
            List.reverse_cons, List.reverse_nil, List.nil_append, List.singleton_append,
            Bool.and_eq_true, beq_iff_eq] at hb
          have htop : d.callStack = (S ++ F :: U₀) ++ [g] := by rw [hs]; simp
          have he : processEvent d w =
              { d with callStack := S ++ F :: U₀, currentPc := getEventAddress w } := by
            rw [processEvent_return d hk, processReturn_of_top htop hb.1.symm]
          rw [he] at hb hc ⊢
          exact balanced_keeps_caller ws _ F U₀ hb.2 hc rfl hF
      all_goals
        have he : (processEvent d w).callStack = d.callStack := by
          unfold processEvent; rw [hk]; rfl
        exact balanced_keeps_caller ws _ F U hb hc (he.trans hs) hF

end Balanced

/-- A call, a balanced sequence from the callee's entry and the return to the call's return address
leave the caller's stack as it was, provided no call returns past the 24-bit top. -/
theorem call_return_restores_stack (d : ProfilerData) (t r : BitVec 32) (w : List (BitVec 32))
    (hr : r.toNat < 16) (hp : d.currentPc + 2 + r.toNat < 2^24)
    (hw : balancedFrom (t.toNat % 2^24) [] w) (hc : callsClearTop (t.toNat % 2^24) w) :
    (processEvents d (profilerRecordCall t r :: w ++
        [profilerRecordReturn (.ofNat 32 (naturalReturn d.currentPc r.toNat))])).callStack =
        d.callStack ∧
      (processEvents d (profilerRecordCall t r :: w ++
        [profilerRecordReturn (.ofNat 32 (naturalReturn d.currentPc r.toNat))])).currentPc =
        naturalReturn d.currentPc r.toNat := by
  have hnat : naturalReturn d.currentPc r.toNat = d.currentPc + 2 + r.toNat := Nat.mod_eq_of_lt hp
  obtain ⟨hct, hco, hca⟩ := profilerRecord_decode .call t r hr
  obtain ⟨hrt, -, hra⟩ :=
    profilerRecord_decode .«return» (.ofNat 32 (naturalReturn d.currentPc r.toNat)) 0 (by decide)
  have hcall : processEvent d (profilerRecordCall t r) = processCall d (t.toNat % 2^24) r.toNat :=
    (processEvent_call d ((congrArg EventType.ofNat? hct).trans (EventType.ofNat?_toNat _))).trans
      (congrArg₂ (processCall d) hca hco)
  have hret (d' : ProfilerData) :
      processEvent d' (profilerRecordReturn (.ofNat 32 (naturalReturn d.currentPc r.toNat))) =
        processReturn d' (naturalReturn d.currentPc r.toNat) :=
    (processEvent_return d' ((congrArg EventType.ofNat? hrt).trans (EventType.ofNat?_toNat _))).trans
      (congrArg (processReturn d') (by rw [hra, BitVec.toNat_ofNat]; omega))
  obtain ⟨F', hF', hR⟩ := balanced_keeps_caller d.callStack (d.currentPc + 2 + r.toNat) w
    (processCall d (t.toNat % 2^24) r.toNat)
    ⟨t.toNat % 2^24, d.currentPc, (d.currentPc + 2 + r.toNat) % 2^32, []⟩ [] hw hc rfl
    (Nat.mod_eq_of_lt (by omega))
  rw [processEvents_append, processEvents_cons d, hcall, processEvents_cons, processEvents_nil, hret,
    processReturn_of_top hF' (hR.trans hnat.symm)]
  exact ⟨rfl, rfl⟩

theorem call_return_restores_stack_nested :
    (processEvents (processEvents .init [profilerRecordInstructionExecute 0x1000#32])
      (profilerRecordCall 0x2000#32 2#32 ::
        [profilerRecordInstructionExecute 0x2000#32, profilerRecordJump 0x2010#32,
          profilerRecordCall 0x3000#32 0#32, profilerRecordInstructionExecute 0x3000#32,
          profilerRecordReturn 0x2012#32, profilerRecordDataRead 0x5000#32] ++
        [profilerRecordReturn (.ofNat 32 (naturalReturn 0x1000 2))])).callStack =
      [rootFrame 0x1000] :=
  (call_return_restores_stack _ _ _ _ (by decide) (by decide) (by decide) (by decide)).1

/-- A call whose return address passes the 24-bit top: the `RETURN` word carries `0x000001`, no
frame matches, and the caller's root frame is popped as well. -/
theorem call_near_top_unwinds_caller :
    naturalReturn 0xFFFFFF 0 = 1 ∧ balancedFrom 0x1000 [] [] = true ∧
      (processEvents .init [profilerRecordInstructionExecute 0xFFFFFF#32]).callStack =
        [rootFrame 0xFFFFFF] ∧
      (processEvents .init [profilerRecordInstructionExecute 0xFFFFFF#32,
        profilerRecordCall 0x1000#32 0#32, profilerRecordReturn 0x000001#32]).callStack = [] := by
  decide

end SqluxProfiler
