import SqluxProfiler.Pipeline.Ownership

namespace SqluxProfiler

variable {s : Pipeline}

theorem run_append : ∀ (s : Pipeline) (l₁ l₂ : List Action),
    run s (l₁ ++ l₂) = (run s l₁).bind (run · l₂)
  | _, [], _ => rfl
  | s, a :: l₁, l₂ => by
    rw [List.cons_append, run, run]
    cases step s a with
    | none => rfl
    | some s₁ => exact run_append s₁ l₁ l₂

/-- Some schedule from `s` ends in a state satisfying `P`. -/
def CanReach (s : Pipeline) (P : Pipeline → Prop) : Prop :=
  ∃ l s', run s l = some s' ∧ P s'

namespace CanReach

variable {P Q : Pipeline → Prop}

theorem of (h : P s) : CanReach s P := ⟨[], s, rfl, h⟩

theorem step {a : Action} {s₁ : Pipeline} (hs : step s a = some s₁) (h : CanReach s₁ P) :
    CanReach s P :=
  let ⟨l, s', hl, hp⟩ := h
  ⟨a :: l, s', by rw [run, hs, Option.some_bind, hl], hp⟩

theorem trans (h : CanReach s P) (hq : ∀ s', P s' → CanReach s' Q) : CanReach s Q :=
  let ⟨l, s', hl, hp⟩ := h
  let ⟨l', s'', hl', hq'⟩ := hq s' hp
  ⟨l ++ l', s'', by rw [run_append, hl, Option.some_bind, hl'], hq'⟩

end CanReach

section Enabled

theorem step_check_of (h : s.consumer = .loopHead) :
    step s .check = some { s with consumer := if s.running then .waiting else .exited } := by
  simp [step, h]

theorem step_wake_cons {b : Fin 16} {rest : List (Fin 16)} (h : s.consumer = .waiting)
    (hf : s.filledBuffers = b :: rest) :
    step s .wake = some { s with filledBuffers := rest, consumer := .processing b } := by
  simp [step, h, hf]

theorem step_wake_nil (h : s.consumer = .waiting) (hf : s.filledBuffers = []) :
    step s .wake = some { s with consumer := .loopHead } := by
  simp [step, h, hf]

theorem step_process_of {b : Fin 16} (h : s.consumer = .processing b) :
    ∃ s', step s .process = some s' ∧ s'.consumer = .returning b ∧
      s'.producer = s.producer ∧ s'.running = s.running ∧ s'.emptyBuffers = s.emptyBuffers := by
  simp [step, h]

theorem step_giveBack_of {b : Fin 16} (h : s.consumer = .returning b) :
    step s .giveBack =
      some { s with emptyBuffers := s.emptyBuffers ++ [b], consumer := .loopHead } := by
  simp [step, h]

theorem step_acquire_of (hp : s.producer = .switching)
    (he : s.emptyBuffers ≠ [] ∨ s.running = false) :
    ∃ s', step s .acquire = some s' ∧ s'.producer = .recording := by
  rcases hb : s.emptyBuffers with _ | ⟨b, rest⟩
  · simp only [hb, ne_eq, not_true_eq_false, false_or] at he
    simp [step, hp, hb, he]
  · simp [step, hp, hb]

theorem step_cleanup_of (hp : s.producer = .recording) :
    ∃ s', step s .cleanup = some s' ∧ s'.producer = .stopping := by
  simp only [step, hp, if_true]
  split
  · split <;> exact ⟨_, rfl, rfl⟩
  · exact ⟨_, rfl, rfl⟩

theorem step_stop_of (hp : s.producer = .stopping) :
    step s .stop = some { s with running := false, producer := .joining } := by
  simp [step, hp]

theorem step_join_of (hp : s.producer = .joining) (hc : s.consumer = .exited) :
    step s .join = some { s with producer := .stopped } := by
  simp [step, hp, hc]

end Enabled

/-- `running_` is clear exactly once `Stop` has cleared it, and `ThreadFunc` returns only after. -/
structure Running (s : Pipeline) : Prop where
  running_iff : s.running = false ↔ s.producer = .joining ∨ s.producer = .stopped
  running_of_exited : s.consumer = .exited → s.running = false

theorem running_step {s' : Pipeline} {a : Action} (h : Running s) (hs : step s a = some s') :
    Running s' := by
  cases a with
  | record w =>
    obtain ⟨b, hpr, -, ⟨-, rfl⟩ | ⟨-, rfl⟩⟩ := step_record_inv hs <;>
      exact ⟨by simpa [hpr] using h.1, h.2⟩
  | acquire =>
    obtain ⟨hpr, ⟨b, rest, -, rfl⟩ | ⟨-, -, rfl⟩⟩ := step_acquire_inv hs <;>
      exact ⟨by simpa [hpr] using h.1, h.2⟩
  | cleanup =>
    obtain ⟨hpr, ⟨b, -, -, rfl⟩ | ⟨b, -, -, rfl⟩ | ⟨-, rfl⟩⟩ :=
      step_cleanup_inv hs <;>
      exact ⟨by simpa [hpr] using h.1, h.2⟩
  | stop => obtain ⟨-, rfl⟩ := step_stop_inv hs; exact ⟨by simp, fun _ => rfl⟩
  | join =>
    obtain ⟨hpr, -, rfl⟩ := step_join_inv hs
    exact ⟨by simpa [hpr] using h.1, h.2⟩
  | check =>
    obtain ⟨-, rfl⟩ := step_check_inv hs
    refine ⟨h.1, fun hc => ?_⟩
    cases hr : s.running
    · rfl
    · simp [hr] at hc
  | wake =>
    obtain ⟨-, ⟨b, rest, -, rfl⟩ | ⟨-, rfl⟩⟩ := step_wake_inv hs <;>
      exact ⟨h.1, fun hc => nomatch hc⟩
  | process => obtain ⟨b, -, rfl⟩ := step_process_inv hs; exact ⟨h.1, fun hc => nomatch hc⟩
  | giveBack =>
    obtain ⟨b, -, rfl⟩ := step_giveBack_inv hs
    exact ⟨h.1, fun hc => nomatch hc⟩

theorem running_of_reachable (h : Reachable s) : Running s :=
  h.induction (fun _ => ⟨by simp [Pipeline.start], fun h => nomatch h⟩)
    fun _ _ _ _ hr hs => running_step hr hs

section Exit

variable (hr : s.running = false)
include hr

theorem canExit_loopHead (hc : s.consumer = .loopHead) :
    CanReach s fun s' => s'.consumer = .exited ∧ s'.producer = s.producer :=
  .step (step_check_of hc) (.of ⟨by simp [hr], rfl⟩)

theorem canExit_returning {b : Fin 16} (hc : s.consumer = .returning b) :
    CanReach s fun s' => s'.consumer = .exited ∧ s'.producer = s.producer :=
  .step (step_giveBack_of hc) (canExit_loopHead hr rfl)

theorem canExit_processing {b : Fin 16} (hc : s.consumer = .processing b) :
    CanReach s fun s' => s'.consumer = .exited ∧ s'.producer = s.producer := by
  obtain ⟨s₁, h₁, hc₁, hp₁, hr₁, -⟩ := step_process_of hc
  exact .step h₁ (hp₁ ▸ canExit_returning (hr₁.trans hr) hc₁)

theorem canExit : CanReach s fun s' => s'.consumer = .exited ∧ s'.producer = s.producer := by
  cases hc : s.consumer with
  | loopHead => exact canExit_loopHead hr hc
  | waiting =>
    cases hf : s.filledBuffers with
    | nil => exact .step (step_wake_nil hc hf) (canExit_loopHead hr rfl)
    | cons b rest => exact .step (step_wake_cons hc hf) (canExit_processing hr rfl)
  | processing b => exact canExit_processing hr hc
  | returning b => exact canExit_returning hr hc
  | exited => exact .of ⟨hc, rfl⟩

end Exit

section Acquire

variable (hp : s.producer = .switching)
include hp

theorem filled_ne_nil (ho : s.Owned) (he : s.emptyBuffers = []) (hc : s.consumer.buffer = none) :
    s.filledBuffers ≠ [] := fun hf => by
  have h := ho.count_owners 0
  have hh : s.held = none := Pipeline.held_of_ne (by rw [hp]; decide)
  simp [Pipeline.owners, he, hf, hc, hh, ho.dropped_eq (.inr hp)] at h

theorem canAcquire_returning {b : Fin 16} (hc : s.consumer = .returning b) :
    CanReach s fun s' => s'.producer = .recording := by
  obtain ⟨_, h₁, hp₁⟩ := step_acquire_of (s := { s with
    emptyBuffers := s.emptyBuffers ++ [b], consumer := .loopHead }) hp (.inl (by simp))
  exact .step (step_giveBack_of hc) (.step h₁ (.of hp₁))

theorem canAcquire_processing {b : Fin 16} (hc : s.consumer = .processing b) :
    CanReach s fun s' => s'.producer = .recording := by
  obtain ⟨s₁, h₁, hc₁, hp₁, -⟩ := step_process_of hc
  exact .step h₁ (canAcquire_returning (hp₁.trans hp) hc₁)

theorem canAcquire_waiting (ho : s.Owned) (he : s.emptyBuffers = []) (hc : s.consumer = .waiting) :
    CanReach s fun s' => s'.producer = .recording := by
  obtain ⟨b, rest, hf⟩ :=
    List.exists_cons_of_ne_nil (filled_ne_nil hp ho he (by simp [hc, ConsumerPc.buffer]))
  exact .step (step_wake_cons hc hf) (canAcquire_processing hp rfl)

/-- The emulator thread in `GetEmptyBuffer` can always get a buffer. -/
theorem canAcquire (ho : s.Owned) (hrun : Running s) :
    CanReach s fun s' => s'.producer = .recording := by
  by_cases hgo : s.emptyBuffers ≠ [] ∨ s.running = false
  · obtain ⟨s', hs', hp'⟩ := step_acquire_of hp hgo
    exact .step hs' (.of hp')
  obtain ⟨he, hr⟩ : s.emptyBuffers = [] ∧ s.running = true := by simpa using hgo
  cases hc : s.consumer with
  | loopHead =>
    have ho₁ : Pipeline.Owned { s with consumer := if s.running then .waiting else .exited } :=
      owned_step ho (step_check_of hc)
    exact .step (step_check_of hc) (canAcquire_waiting hp ho₁ he (by simp [hr]))
  | waiting => exact canAcquire_waiting hp ho he hc
  | processing b => exact canAcquire_processing hp hc
  | returning b => exact canAcquire_returning hp hc
  | exited => simp [hrun.running_of_exited hc] at hr

end Acquire

section Shutdown

theorem canStop_joining (hp : s.producer = .joining) (hr : s.running = false) :
    CanReach s fun s' => s'.producer = .stopped :=
  (canExit hr).trans fun _ ⟨hc, hp'⟩ => .step (step_join_of (hp'.trans hp) hc) (.of rfl)

theorem canStop_recording (hp : s.producer = .recording) :
    CanReach s fun s' => s'.producer = .stopped :=
  let ⟨_, h₁, hp₁⟩ := step_cleanup_of hp
  .step h₁ (.step (step_stop_of hp₁) (canStop_joining rfl rfl))

/-- Shutdown never deadlocks: from every reachable state some schedule brings `Stop`'s join back. -/
theorem shutdown_can_complete (h : Reachable s) :
    ∃ l s', run s l = some s' ∧ s'.producer = .stopped := by
  have hrun := running_of_reachable h
  cases hp : s.producer with
  | recording => exact canStop_recording hp
  | switching =>
    exact (canAcquire hp (owned_of_reachable h) hrun).trans fun _ => canStop_recording
  | stopping => exact CanReach.step (step_stop_of hp) (canStop_joining rfl rfl)
  | joining => exact canStop_joining hp (hrun.1.mpr (.inl hp))
  | stopped => exact CanReach.of hp

theorem shutdown_can_complete_blocked :
    ∃ s, Reachable s ∧ s.producer = .switching ∧ s.emptyBuffers = [] ∧ s.running = true ∧
      ∃ l s', run s l = some s' ∧ s'.producer = .stopped :=
  let ⟨s, hs, hp, he, _, hr, _⟩ := reachable_all_filled
  ⟨s, hs, hp, he, hr, shutdown_can_complete hs⟩

end Shutdown

end SqluxProfiler
