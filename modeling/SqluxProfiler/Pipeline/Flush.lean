import SqluxProfiler.Pipeline.Words
import SqluxProfiler.Callgrind.Decode

namespace SqluxProfiler

/-- Where `ThreadFunc` is in its flush check: outside it, at it, before `FlushToFile`, or before
clearing `should_flush_`. -/
inductive FlushPc
  | idle
  | checking
  | writing
  | clearing
  deriving DecidableEq, Repr

/-- The pipeline with `should_flush_` and the output file's contents. `filed`, `flushed` and
`requested` are ghost: the processed words behind the file, at the last `FlushToFile`, and at the
last `Flush()`. -/
structure Flushing where
  pipe : Pipeline
  shouldFlush : Bool
  flushPc : FlushPc
  file : Option (List Char)
  filed : List (BitVec 32)
  flushed : List (BitVec 32)
  requested : List (BitVec 32)

/-- One step: a pipeline step other than the join, the join with the final `FlushToFile`, `Flush()`,
the flush check (`due` after thirty seconds), `FlushToFile` (`ok` when the file opens), or the
clearing of `should_flush_`. -/
inductive FlushAction
  | pipe (a : Action)
  | join (ok : Bool)
  | request
  | check (due : Bool)
  | write (ok : Bool)
  | clear

def Action.byConsumer : Action → Bool
  | .check | .wake | .process | .giveBack => true
  | _ => false

/-- `FlushToFile`: `Finalize()` does nothing, and `WriteToFile` writes the Callgrind text. -/
def flushToFile (data : ProfilerData) : List Char := callgrindText (convertToGroupedData data)

namespace Flushing

/-- The state after `Profiler_Initialize`; `Start` has cleared `should_flush_`. -/
def start (events : Fin 16 → Nat → BitVec 32) : Flushing :=
  ⟨.start events, false, .idle, none, [], [], []⟩

/-- One `FlushToFile`; the file keeps its old contents when it does not open. -/
def writeFile (ok : Bool) (s : Flushing) : Flushing :=
  { s with
    flushed := s.pipe.processed
    file := if ok then some (flushToFile s.pipe.data) else s.file
    filed := if ok then s.pipe.processed else s.filed }

end Flushing

open Flushing

/-- One step of one thread; `none` when the action is not enabled. -/
def flushStep (s : Flushing) : FlushAction → Option Flushing
  | .pipe a =>
    if a = .join ∨ (a.byConsumer ∧ s.flushPc ≠ .idle) then none
    else (step s.pipe a).map fun p =>
      { s with
        pipe := p
        flushPc := if a = .giveBack ∨ (a = .wake ∧ p.consumer = .loopHead) then .checking
          else s.flushPc }
  | .join ok => (step s.pipe .join).map fun p => writeFile ok { s with pipe := p }
  | .request => some { s with shouldFlush := true, requested := s.pipe.processed }
  | .check due =>
    if s.flushPc = .checking then
      some { s with flushPc := if s.shouldFlush || due then .writing else .idle }
    else none
  | .write ok => if s.flushPc = .writing then some { writeFile ok s with flushPc := .clearing }
    else none
  | .clear => if s.flushPc = .clearing then some { s with shouldFlush := false, flushPc := .idle }
    else none

/-- The states some interleaving reaches from `Profiler_Initialize`. -/
inductive FlushReachable : Flushing → Prop
  | start (events : Fin 16 → Nat → BitVec 32) : FlushReachable (.start events)
  | next {s s' : Flushing} {a : FlushAction} : FlushReachable s → flushStep s a = some s' →
      FlushReachable s'

section Processed

variable {s s' : Pipeline} {a : Action}

theorem processed_step (h : step s a = some s') :
    s'.processed = s.processed ∨
      a = .process ∧ ∃ b, s'.processed = s.processed ++ s.bufferWords b := by
  cases a with
  | record w =>
    obtain ⟨_, _, _, ⟨_, rfl⟩ | ⟨_, rfl⟩⟩ := step_record_inv h <;> exact .inl rfl
  | acquire =>
    obtain ⟨_, ⟨_, _, _, rfl⟩ | ⟨_, _, rfl⟩⟩ := step_acquire_inv h <;> exact .inl rfl
  | cleanup =>
    obtain ⟨_, ⟨_, _, _, rfl⟩ | ⟨_, _, _, rfl⟩ | ⟨_, rfl⟩⟩ := step_cleanup_inv h <;>
      exact .inl rfl
  | stop => obtain ⟨_, rfl⟩ := step_stop_inv h; exact .inl rfl
  | join => obtain ⟨_, _, rfl⟩ := step_join_inv h; exact .inl rfl
  | check => obtain ⟨_, rfl⟩ := step_check_inv h; exact .inl rfl
  | wake => obtain ⟨_, ⟨_, _, _, rfl⟩ | ⟨_, rfl⟩⟩ := step_wake_inv h <;> exact .inl rfl
  | process => obtain ⟨b, _, rfl⟩ := step_process_inv h; exact .inr ⟨rfl, b, rfl⟩
  | giveBack => obtain ⟨_, _, rfl⟩ := step_giveBack_inv h; exact .inl rfl

theorem processed_prefix_step (h : step s a = some s') : s.processed <+: s'.processed := by
  rcases processed_step h with he | ⟨-, b, he⟩
  · exact he ▸ List.prefix_rfl
  · exact he ▸ List.prefix_append _ _

end Processed

section Inversion

variable {s s' : Flushing}

theorem flushStep_pipe_inv {a : Action} (h : flushStep s (.pipe a) = some s') :
    (a.byConsumer → s.flushPc = .idle) ∧ ∃ p, step s.pipe a = some p ∧ s' = { s with
      pipe := p
      flushPc := if a = .giveBack ∨ (a = .wake ∧ p.consumer = .loopHead) then .checking
        else s.flushPc } := by
  simp only [flushStep] at h
  split at h
  · cases h
  · rename_i hg
    simp only [not_or, not_and, not_not] at hg
    obtain ⟨p, hp, rfl⟩ := Option.map_eq_some'.mp h
    exact ⟨hg.2, p, hp, rfl⟩

theorem flushStep_join_inv {ok : Bool} (h : flushStep s (.join ok) = some s') :
    ∃ p, step s.pipe .join = some p ∧ s' = writeFile ok { s with pipe := p } :=
  let ⟨p, hp, he⟩ := Option.map_eq_some'.mp h
  ⟨p, hp, he.symm⟩

theorem flushStep_check_inv {due : Bool} (h : flushStep s (.check due) = some s') :
    s.flushPc = .checking ∧
      s' = { s with flushPc := if s.shouldFlush || due then .writing else .idle } := by
  simp only [flushStep] at h
  split at h <;> cases h
  exact ⟨‹_›, rfl⟩

theorem flushStep_write_inv {ok : Bool} (h : flushStep s (.write ok) = some s') :
    s.flushPc = .writing ∧ s' = { writeFile ok s with flushPc := .clearing } := by
  simp only [flushStep] at h
  split at h <;> cases h
  exact ⟨‹_›, rfl⟩

theorem flushStep_clear_inv (h : flushStep s .clear = some s') :
    s.flushPc = .clearing ∧ s' = { s with shouldFlush := false, flushPc := .idle } := by
  simp only [flushStep] at h
  split at h <;> cases h
  exact ⟨‹_›, rfl⟩

end Inversion

/-- What every interleaving keeps: the ghost words are prefixes of the processed ones, the file is
their text, and a clear `should_flush_` means the last request was flushed. -/
structure FlushInv (s : Flushing) : Prop where
  reachable : Reachable s.pipe
  requested_prefix : s.requested <+: s.pipe.processed
  flushed_prefix : s.flushed <+: s.pipe.processed
  filed_prefix : s.filed <+: s.pipe.processed
  file_eq : ∀ t ∈ s.file, t = flushToFile (processEvents .init s.filed)
  flushed_of_clearing : s.flushPc = .clearing → s.flushed = s.pipe.processed
  requested_flushed : s.shouldFlush = false → s.requested <+: s.flushed

section Invariant

variable {s s' : Flushing}

theorem flushInv_start (events : Fin 16 → Nat → BitVec 32) : FlushInv (.start events) :=
  ⟨.start events, List.prefix_rfl, List.prefix_rfl, List.prefix_rfl, fun _ h => (nomatch h),
    fun h => (nomatch h), fun _ => List.prefix_rfl⟩

theorem FlushInv.writeFile (ok : Bool) (hi : FlushInv s) : FlushInv (writeFile ok s) := by
  have hdata := (accounted_of_reachable hi.reachable).data_eq
  refine ⟨hi.reachable, hi.requested_prefix, List.prefix_rfl, ?_, ?_, fun _ => rfl,
    fun _ => hi.requested_prefix⟩ <;> cases ok
  · exact hi.filed_prefix
  · exact List.prefix_rfl
  · exact hi.file_eq
  · rintro t ⟨⟩
    simp only [Flushing.writeFile, ite_true, hdata]

theorem FlushInv.pipe {a : Action} (hi : FlushInv s) (h : flushStep s (.pipe a) = some s') :
    FlushInv s' := by
  obtain ⟨hc, p, hp, rfl⟩ := flushStep_pipe_inv h
  have hpre := processed_prefix_step hp
  refine ⟨.next hi.reachable hp, hi.requested_prefix.trans hpre, hi.flushed_prefix.trans hpre,
    hi.filed_prefix.trans hpre, hi.file_eq, fun hcl => ?_, hi.requested_flushed⟩
  have hs : s.flushPc = .clearing := by
    dsimp only at hcl
    split_ifs at hcl
    exact hcl
  rcases processed_step hp with he | ⟨rfl, -⟩
  · exact (hi.flushed_of_clearing hs).trans he.symm
  · exact nomatch (hc rfl).symm.trans hs

theorem FlushInv.step {a : FlushAction} (hi : FlushInv s) (h : flushStep s a = some s') :
    FlushInv s' := by
  cases a with
  | pipe a => exact hi.pipe h
  | join ok =>
    obtain ⟨p, hp, rfl⟩ := flushStep_join_inv h
    obtain ⟨-, -, rfl⟩ := step_join_inv hp
    exact FlushInv.writeFile ok { hi with reachable := .next hi.reachable hp }
  | request =>
    cases h
    exact { hi with requested_prefix := List.prefix_rfl, requested_flushed := fun h => (nomatch h) }
  | check due =>
    obtain ⟨-, rfl⟩ := flushStep_check_inv h
    refine { hi with flushed_of_clearing := fun hcl => ?_ }
    dsimp only at hcl
    split at hcl <;> cases hcl
  | write ok =>
    obtain ⟨-, rfl⟩ := flushStep_write_inv h
    exact { hi.writeFile ok with flushed_of_clearing := fun _ => rfl }
  | clear =>
    obtain ⟨hcl, rfl⟩ := flushStep_clear_inv h
    exact { hi with
      flushed_of_clearing := fun h => nomatch h
      requested_flushed := fun _ => hi.flushed_of_clearing hcl ▸ hi.requested_prefix }

theorem flushInv_of_reachable (h : FlushReachable s) : FlushInv s := by
  induction h with
  | start events => exact flushInv_start events
  | next _ hst ih => exact ih.step hst

end Invariant

def flushRun : Flushing → List FlushAction → Option Flushing
  | s, [] => some s
  | s, a :: rest => (flushStep s a).bind (flushRun · rest)

theorem flushReachable_of_run : ∀ {s s' : Flushing} (l : List FlushAction), FlushReachable s →
    flushRun s l = some s' → FlushReachable s'
  | _, _, [], hs, h => by cases h; exact hs
  | _, _, _ :: rest, hs, h => by
    obtain ⟨s₁, h₁, h⟩ := Option.bind_eq_some.mp h
    exact flushReachable_of_run rest (.next hs h₁) h

/-- One word is recorded and processed, and the flush check finds thirty seconds passed. -/
def periodicFlush : List FlushAction :=
  [.pipe (.record (profilerRecordInstructionExecute 0x1000#32)), .pipe .cleanup, .pipe .check,
    .pipe .wake, .pipe .process, .pipe .giveBack, .check true, .write true]

/-- `Stop`'s final `FlushToFile` writes the profile of the recorded words but those of the buffers
left in `filled_buffers_`. -/
theorem final_flush_file {s s' : Flushing} (h : FlushReachable s)
    (hj : flushStep s (.join true) = some s') :
    ∃ p, s'.pipe.recorded = p ++ s'.pipe.filledBuffers.flatMap s'.pipe.bufferWords ∧
      s'.file = some (callgrindText (convertToGroupedData (processEvents .init p))) := by
  obtain ⟨p, hp, rfl⟩ := flushStep_join_inv hj
  have ha := accounted_of_reachable (.next (flushInv_of_reachable h).reachable hp)
  obtain ⟨-, -, rfl⟩ := step_join_inv hp
  have hd : s.pipe.data = processEvents .init s.pipe.processed := ha.data_eq
  exact ⟨_, ha.recorded_of_stopped rfl, by simp [Flushing.writeFile, flushToFile, hd]⟩

/-- `wait_for` returns empty before `CleanupClient` queues the only buffer, and the next loop test
comes after `Stop`. -/
def lateShutdownFlush : List FlushAction :=
  [.pipe .check, .pipe (.record (profilerRecordInstructionExecute 0x1000#32)), .pipe .wake,
    .check false, .pipe .cleanup, .pipe .stop, .pipe .check]

theorem final_flush_file_late :
    ∃ s s', flushRun (.start fun _ _ => 0) lateShutdownFlush = some s ∧
      flushStep s (.join true) = some s' ∧
      ∃ p, s'.pipe.recorded = p ++ s'.pipe.filledBuffers.flatMap s'.pipe.bufferWords ∧
        s'.file = some (callgrindText (convertToGroupedData (processEvents .init p))) :=
  ⟨_, _, rfl, rfl,
    final_flush_file (flushReachable_of_run lateShutdownFlush (.start _) rfl) rfl⟩

/-- No `Flush()` is lost to the clearing of `should_flush_`: when it is clear, the last
`FlushToFile` saw the words processed at the last request. -/
theorem flush_request_not_lost {s : Flushing} (h : FlushReachable s) (hc : s.shouldFlush = false) :
    s.requested <+: s.flushed :=
  (flushInv_of_reachable h).requested_flushed hc

/-- A signal's `Flush()` comes between the periodic `FlushToFile` and the clearing, before
`HandleSignal` raises it again. -/
def signalDuringFlush : List FlushAction :=
  periodicFlush ++ [.request, .clear]

theorem flush_request_not_lost_signal :
    ∃ s, flushRun (.start fun _ _ => 0) signalDuringFlush = some s ∧ s.shouldFlush = false ∧
      s.requested = [profilerRecordInstructionExecute 0x1000#32] ∧ s.requested <+: s.flushed :=
  ⟨_, rfl, rfl, rfl,
    flush_request_not_lost (flushReachable_of_run signalDuringFlush (.start _) rfl) rfl⟩

end SqluxProfiler
