import SqluxProfiler.Data.ProfilerData

namespace SqluxProfiler

/-- `BUFFER_SIZE`: events per buffer. -/
def bufferSize : Nat := 8192

/-- Where the emulator thread is: recording, in `GetEmptyBuffer` inside `SwitchBuffer`, after
`CleanupClient`, waiting for the join, or stopped. -/
inductive ProducerPc
  | recording
  | switching
  | stopping
  | joining
  | stopped
  deriving DecidableEq, Repr

/-- Where `ThreadFunc` is: at its loop test, in `wait_for`, processing or pushing back a buffer, or
returned. -/
inductive ConsumerPc
  | loopHead
  | waiting
  | processing (b : Fin 16)
  | returning (b : Fin 16)
  | exited
  deriving DecidableEq, Repr

def ConsumerPc.buffer : ConsumerPc → Option (Fin 16)
  | .processing b => some b
  | .returning b => some b
  | _ => none

/-- The shared state. A buffer is its index in `buffer_pool_`; `cursor` is
`profiler_current_buffer_ptr - current_buffer_->events`; `recorded`, `processed` and `dropped` are
ghost. -/
structure Pipeline where
  events : Fin 16 → Nat → BitVec 32
  count : Fin 16 → Nat
  emptyBuffers : List (Fin 16)
  filledBuffers : List (Fin 16)
  running : Bool
  currentBuffer : Option (Fin 16)
  cursor : Nat
  producer : ProducerPc
  consumer : ConsumerPc
  data : ProfilerData
  recorded : List (BitVec 32)
  processed : List (BitVec 32)
  dropped : Option (Fin 16)

namespace Pipeline

/-- The state after `Profiler_Initialize`, from the initial contents of the buffers. -/
def start (events : Fin 16 → Nat → BitVec 32) : Pipeline :=
  ⟨events, fun _ => 0, (List.finRange 16).tail, [], true, some 0, 0, .recording, .loopHead,
    .init, [], [], none⟩

/-- The words `ProcessBuffer` reads: `events[0 .. count)`. -/
def bufferWords (s : Pipeline) (b : Fin 16) : List (BitVec 32) :=
  (List.range (s.count b)).map (s.events b)

/-- The buffer the recorders write through, outside `SwitchBuffer`. -/
def held (s : Pipeline) : Option (Fin 16) :=
  if s.producer = .recording then s.currentBuffer else none

end Pipeline

/-- One step of one thread: a recorder call (with `SwitchBuffer`'s push at the last slot),
`GetEmptyBuffer` returning, `CleanupClient`, `Stop` clearing `running_`, the join returning, and
`ThreadFunc`'s loop test, `wait_for` with its pop, `ProcessBuffer` and the push back. -/
inductive Action
  | record (word : BitVec 32)
  | acquire
  | cleanup
  | stop
  | join
  | check
  | wake
  | process
  | giveBack
  deriving DecidableEq, Repr

open Function in
/-- One step of one thread; `none` when the action is not enabled. -/
def step (s : Pipeline) : Action → Option Pipeline
  | .record w =>
    match s.producer, s.currentBuffer with
    | .recording, some b =>
      let s' := { s with
        events := update s.events b (update (s.events b) s.cursor w)
        cursor := s.cursor + 1
        recorded := s.recorded ++ [w] }
      if s.cursor + 1 = bufferSize then
        some { s' with
          count := update s.count b bufferSize
          filledBuffers := s.filledBuffers ++ [b]
          producer := .switching }
      else some s'
    | _, _ => none
  | .acquire =>
    if s.producer = .switching then
      match s.emptyBuffers with
      | b :: rest =>
        some { s with
          emptyBuffers := rest
          currentBuffer := some b
          cursor := 0
          producer := .recording }
      | [] =>
        if s.running then none
        else some { s with currentBuffer := none, producer := .recording }
    else none
  | .cleanup =>
    if s.producer = .recording then
      match s.currentBuffer with
      | some b =>
        if 0 < s.cursor then
          some { s with
            count := update s.count b s.cursor
            filledBuffers := s.filledBuffers ++ [b]
            currentBuffer := none
            producer := .stopping }
        else
          some { s with
            count := update s.count b s.cursor
            currentBuffer := none
            dropped := some b
            producer := .stopping }
      | none => some { s with producer := .stopping }
    else none
  | .stop => if s.producer = .stopping then some { s with running := false, producer := .joining }
    else none
  | .join =>
    if s.producer = .joining ∧ s.consumer = .exited then some { s with producer := .stopped }
    else none
  | .check =>
    if s.consumer = .loopHead then
      some { s with consumer := if s.running then .waiting else .exited }
    else none
  | .wake =>
    if s.consumer = .waiting then
      match s.filledBuffers with
      | b :: rest => some { s with filledBuffers := rest, consumer := .processing b }
      | [] => some { s with consumer := .loopHead }
    else none
  | .process =>
    match s.consumer with
    | .processing b =>
      some { s with
        processed := s.processed ++ s.bufferWords b
        data := processEvents s.data (s.bufferWords b)
        count := update s.count b 0
        consumer := .returning b }
    | _ => none
  | .giveBack =>
    match s.consumer with
    | .returning b => some { s with emptyBuffers := s.emptyBuffers ++ [b], consumer := .loopHead }
    | _ => none

section Inversion

open Function

variable {s s' : Pipeline}

theorem step_record_inv {w : BitVec 32} (h : step s (.record w) = some s') :
    ∃ b, s.producer = .recording ∧ s.currentBuffer = some b ∧
      (s.cursor + 1 = bufferSize ∧
        s' = { s with
          events := update s.events b (update (s.events b) s.cursor w)
          cursor := s.cursor + 1
          recorded := s.recorded ++ [w]
          count := update s.count b bufferSize
          filledBuffers := s.filledBuffers ++ [b]
          producer := .switching } ∨
      s.cursor + 1 ≠ bufferSize ∧
        s' = { s with
          events := update s.events b (update (s.events b) s.cursor w)
          cursor := s.cursor + 1
          recorded := s.recorded ++ [w] }) := by
  simp only [step] at h
  split at h
  · rename_i b hpr hcb
    split at h <;> cases h
    · exact ⟨b, hpr, hcb, .inl ⟨‹_›, rfl⟩⟩
    · exact ⟨b, hpr, hcb, .inr ⟨‹_›, rfl⟩⟩
  · cases h

theorem step_acquire_inv (h : step s .acquire = some s') :
    s.producer = .switching ∧
      ((∃ b rest, s.emptyBuffers = b :: rest ∧ s' = { s with
          emptyBuffers := rest, currentBuffer := some b, cursor := 0, producer := .recording }) ∨
        s.emptyBuffers = [] ∧ s.running = false ∧
          s' = { s with currentBuffer := none, producer := .recording }) := by
  simp only [step] at h
  split at h
  · split at h
    · cases h
      exact ⟨‹_›, .inl ⟨_, _, ‹_›, rfl⟩⟩
    · rename_i he
      split at h <;> cases h
      exact ⟨‹_›, .inr ⟨he, by simpa using ‹¬s.running = true›, rfl⟩⟩
  · cases h

theorem step_cleanup_inv (h : step s .cleanup = some s') :
    s.producer = .recording ∧
      ((∃ b, s.currentBuffer = some b ∧ 0 < s.cursor ∧ s' = { s with
          count := update s.count b s.cursor, filledBuffers := s.filledBuffers ++ [b],
          currentBuffer := none, producer := .stopping }) ∨
        (∃ b, s.currentBuffer = some b ∧ s.cursor = 0 ∧ s' = { s with
          count := update s.count b s.cursor, currentBuffer := none, dropped := some b,
          producer := .stopping }) ∨
        s.currentBuffer = none ∧ s' = { s with producer := .stopping }) := by
  simp only [step] at h
  split at h
  · split at h
    · split at h <;> cases h
      · exact ⟨‹_›, .inl ⟨_, ‹_›, ‹_›, rfl⟩⟩
      · exact ⟨‹_›, .inr (.inl ⟨_, ‹_›, by omega, rfl⟩)⟩
    · cases h
      exact ⟨‹_›, .inr (.inr ⟨‹_›, rfl⟩)⟩
  · cases h

theorem step_stop_inv (h : step s .stop = some s') :
    s.producer = .stopping ∧ s' = { s with running := false, producer := .joining } := by
  simp only [step] at h
  split at h <;> cases h
  exact ⟨‹_›, rfl⟩

theorem step_join_inv (h : step s .join = some s') :
    s.producer = .joining ∧ s.consumer = .exited ∧ s' = { s with producer := .stopped } := by
  simp only [step] at h
  split at h <;> cases h
  exact ⟨(‹_› : _ ∧ _).1, (‹_› : _ ∧ _).2, rfl⟩

theorem step_check_inv (h : step s .check = some s') :
    s.consumer = .loopHead ∧
      s' = { s with consumer := if s.running then .waiting else .exited } := by
  simp only [step] at h
  split at h <;> cases h
  exact ⟨‹_›, rfl⟩

theorem step_wake_inv (h : step s .wake = some s') :
    s.consumer = .waiting ∧
      ((∃ b rest, s.filledBuffers = b :: rest ∧
          s' = { s with filledBuffers := rest, consumer := .processing b }) ∨
        s.filledBuffers = [] ∧ s' = { s with consumer := .loopHead }) := by
  simp only [step] at h
  split at h
  · split at h <;> cases h
    · exact ⟨‹_›, .inl ⟨_, _, ‹_›, rfl⟩⟩
    · exact ⟨‹_›, .inr ⟨‹_›, rfl⟩⟩
  · cases h

theorem step_process_inv (h : step s .process = some s') :
    ∃ b, s.consumer = .processing b ∧ s' = { s with
      processed := s.processed ++ s.bufferWords b
      data := processEvents s.data (s.bufferWords b)
      count := update s.count b 0
      consumer := .returning b } := by
  simp only [step] at h
  split at h <;> cases h
  exact ⟨_, ‹_›, rfl⟩

theorem step_giveBack_inv (h : step s .giveBack = some s') :
    ∃ b, s.consumer = .returning b ∧
      s' = { s with emptyBuffers := s.emptyBuffers ++ [b], consumer := .loopHead } := by
  simp only [step] at h
  split at h <;> cases h
  exact ⟨_, ‹_›, rfl⟩

end Inversion

/-- The states some interleaving reaches from `Profiler_Initialize`. -/
inductive Reachable : Pipeline → Prop
  | start (events : Fin 16 → Nat → BitVec 32) : Reachable (.start events)
  | next {s s' : Pipeline} {a : Action} : Reachable s → step s a = some s' → Reachable s'

def run : Pipeline → List Action → Option Pipeline
  | s, [] => some s
  | s, a :: rest => (step s a).bind (run · rest)

theorem reachable_of_run : ∀ {s s' : Pipeline} (l : List Action), Reachable s →
    run s l = some s' → Reachable s'
  | _, _, [], hs, h => by cases h; exact hs
  | s, _, a :: rest, hs, h => by
    cases hst : step s a with
    | none => simp [run, hst] at h
    | some s₁ =>
      rw [run, hst, Option.some_bind] at h
      exact reachable_of_run rest (.next hs hst) h

theorem Reachable.induction {P : Pipeline → Prop} (hstart : ∀ events, P (.start events))
    (hstep : ∀ s s' a, Reachable s → P s → step s a = some s' → P s') {s : Pipeline}
    (h : Reachable s) : P s := by
  induction h with
  | start events => exact hstart events
  | next hs hst ih => exact hstep _ _ _ hs ih hst

theorem Reachable.fill {b : Fin 16} :
    ∀ (n : Nat) {s : Pipeline}, Reachable s → s.producer = .recording →
      s.currentBuffer = some b → s.cursor + n + 1 = bufferSize →
      ∃ s', Reachable s' ∧ s'.producer = .switching ∧ s'.filledBuffers = s.filledBuffers ++ [b] ∧
        s'.emptyBuffers = s.emptyBuffers ∧ s'.running = s.running ∧ s'.consumer = s.consumer
  | n, s, hs, hp, hb, hc => by
    obtain ⟨s₁, h₁⟩ : ∃ s₁, step s (.record 0) = some s₁ := by
      simp only [step, hp, hb]
      split <;> exact ⟨_, rfl⟩
    obtain ⟨b', -, hb', ⟨-, rfl⟩ | ⟨hmid, rfl⟩⟩ := step_record_inv h₁ <;>
      obtain rfl := Option.some_injective _ (hb.symm.trans hb')
    · exact ⟨_, .next hs h₁, rfl, rfl, rfl, rfl, rfl⟩
    · match n with
      | 0 => exact absurd hc hmid
      | n + 1 =>
        obtain ⟨s', h⟩ :=
          Reachable.fill n (.next hs h₁) hp hb (by show s.cursor + 1 + n + 1 = _; omega)
        exact ⟨s', h⟩

theorem Reachable.fillAll :
    ∀ (l : List (Fin 16)) {s : Pipeline}, Reachable s → s.producer = .switching →
      s.emptyBuffers = l → s.running = true →
      ∃ s', Reachable s' ∧ s'.producer = .switching ∧ s'.emptyBuffers = [] ∧
        s'.filledBuffers = s.filledBuffers ++ l ∧ s'.running = true ∧ s'.consumer = s.consumer
  | [], s, hs, hp, he, hr => ⟨s, hs, hp, he, (List.append_nil _).symm, hr, rfl⟩
  | b :: l, s, hs, hp, he, hr => by
    have h₁ : step s .acquire = some { s with
        emptyBuffers := l, currentBuffer := some b, cursor := 0, producer := .recording } := by
      simp [step, hp, he]
    obtain ⟨s₂, hs₂, hp₂, hf₂, he₂, hr₂, hc₂⟩ :=
      Reachable.fill (bufferSize - 1) (.next hs h₁) rfl rfl (by simp [bufferSize])
    obtain ⟨s₃, hs₃, hp₃, he₃, hf₃, hr₃, hc₃⟩ := Reachable.fillAll l hs₂ hp₂ he₂ (hr₂.trans hr)
    exact ⟨s₃, hs₃, hp₃, he₃, by simp [hf₃, hf₂], hr₃, hc₃.trans hc₂⟩

/-- The emulator thread can queue all 16 buffers and block in `GetEmptyBuffer` before the consumer
wakes. -/
theorem reachable_all_filled :
    ∃ s, Reachable s ∧ s.producer = .switching ∧ s.emptyBuffers = [] ∧
      s.filledBuffers = List.finRange 16 ∧ s.running = true ∧ s.consumer = .loopHead := by
  obtain ⟨s₁, hs₁, hp₁, hf₁, he₁, hr₁, hc₁⟩ :=
    Reachable.fill (bufferSize - 1) (.start fun _ _ => 0) rfl rfl (by decide)
  obtain ⟨s₂, hs₂, hp₂, he₂, hf₂, hr₂, hc₂⟩ := Reachable.fillAll _ hs₁ hp₁ he₁ hr₁
  exact ⟨s₂, hs₂, hp₂, he₂, by rw [hf₂, hf₁]; rfl, hr₂, hc₂.trans hc₁⟩

end SqluxProfiler
