import SqluxProfiler.Pipeline.Ownership

namespace SqluxProfiler

namespace Pipeline

def inProcessWords (s : Pipeline) : List (BitVec 32) :=
  match s.consumer with
  | .processing b => s.bufferWords b
  | _ => []

def heldWords (s : Pipeline) : List (BitVec 32) :=
  match s.held with
  | some b => (List.range s.cursor).map (s.events b)
  | none => []

/-- The recorded words not yet passed to `ProcessEvent`, in recording order. -/
def pendingWords (s : Pipeline) : List (BitVec 32) :=
  s.inProcessWords ++ s.filledBuffers.flatMap s.bufferWords ++ s.heldWords

/-- The words are accounted for, `data` is what `ProcessEvent` made of the processed ones, and the
producer stops only after the consumer. -/
structure Accounted (s : Pipeline) : Prop where
  recorded_eq : s.recorded = s.processed ++ s.pendingWords
  data_eq : s.data = processEvents .init s.processed
  exited_of_stopped : s.producer = .stopped → s.consumer = .exited

theorem bufferWords_congr {s s' : Pipeline} {b : Fin 16} (he : s'.events b = s.events b)
    (hc : s'.count b = s.count b) : s'.bufferWords b = s.bufferWords b := by
  simp only [bufferWords, he, hc]

theorem flatMap_bufferWords_congr {s s' : Pipeline} {l : List (Fin 16)}
    (h : ∀ b ∈ l, s'.events b = s.events b ∧ s'.count b = s.count b) :
    l.flatMap s'.bufferWords = l.flatMap s.bufferWords :=
  List.flatMap_congr fun b hb => bufferWords_congr (h b hb).1 (h b hb).2

theorem inProcessWords_congr {s s' : Pipeline} (hc : s'.consumer = s.consumer)
    (h : ∀ b, s.consumer.buffer = some b → s'.events b = s.events b ∧ s'.count b = s.count b) :
    s'.inProcessWords = s.inProcessWords := by
  unfold inProcessWords
  rw [hc]
  split
  · rename_i b hb
    exact bufferWords_congr (h b (by simp [hb, ConsumerPc.buffer])).1
      (h b (by simp [hb, ConsumerPc.buffer])).2
  · rfl

theorem map_range_update (f : Nat → BitVec 32) (n : Nat) (w : BitVec 32) :
    (List.range (n + 1)).map (Function.update f n w) = (List.range n).map f ++ [w] := by
  rw [List.range_succ, List.map_append, List.map_singleton, Function.update_same]
  exact congrArg (· ++ [w]) (List.map_congr_left fun i hi =>
    Function.update_noteq (Nat.ne_of_lt (List.mem_range.mp hi)) _ _)

theorem pendingWords_congr {s s' : Pipeline} (hi : s'.inProcessWords = s.inProcessWords)
    (hf : s'.filledBuffers = s.filledBuffers) (hb : s'.bufferWords = s.bufferWords)
    (hh : s'.heldWords = s.heldWords) : s'.pendingWords = s.pendingWords := by
  rw [pendingWords, pendingWords, hi, hf, hb, hh]

theorem Accounted.of_pending {s s' : Pipeline} (h : s.Accounted)
    (hp : s'.pendingWords = s.pendingWords) (hrec : s'.recorded = s.recorded)
    (hproc : s'.processed = s.processed) (hdata : s'.data = s.data)
    (hstop : s'.producer = .stopped → s'.consumer = .exited) : s'.Accounted :=
  ⟨by rw [hrec, hproc, hp]; exact h.recorded_eq, by rw [hdata, hproc]; exact h.data_eq, hstop⟩

theorem Accounted.not_stopped {s : Pipeline} (h : s.Accounted) (hc : s.consumer ≠ .exited) :
    s.producer ≠ .stopped := fun hs => hc (h.exited_of_stopped hs)

theorem Owned.frame_held {s s' : Pipeline} {b : Fin 16} (ho : s.Owned) (hh : s.held = some b)
    (hc : s'.consumer = s.consumer)
    (hev : ∀ b' ≠ b, s'.events b' = s.events b' ∧ s'.count b' = s.count b') :
    s'.inProcessWords = s.inProcessWords ∧
      s.filledBuffers.flatMap s'.bufferWords = s.filledBuffers.flatMap s.bufferWords :=
  ⟨inProcessWords_congr hc fun b' hb => hev b' fun e => ho.consumer_ne_of_held hh (e ▸ hb),
    flatMap_bufferWords_congr fun b' hf => hev b' fun e => ho.not_mem_filled_of_held hh (e ▸ hf)⟩

end Pipeline

open Pipeline

theorem accounted_start (events : Fin 16 → Nat → BitVec 32) : (Pipeline.start events).Accounted :=
  ⟨rfl, rfl, nofun⟩

theorem accounted_step {s s' : Pipeline} {a : Action} (ho : s.Owned) (h : s.Accounted)
    (hs : step s a = some s') : s'.Accounted := by
  cases a with
  | record w =>
    obtain ⟨b, hpr, hcb, hs'⟩ := step_record_inv hs
    have hh : s.held = some b := by rw [held_eq hpr, hcb]
    have hw : (List.range (s.cursor + 1)).map (Function.update (s.events b) s.cursor w) =
        s.heldWords ++ [w] := by
      rw [heldWords, hh]
      exact map_range_update _ _ _
    rcases hs' with ⟨hfull, hs'⟩ | ⟨-, hs'⟩
    · -- at the last slot the buffer's words move from the recorders to the filled queue
      obtain ⟨hinp, hfw⟩ := ho.frame_held hh (by rw [hs'] : s'.consumer = s.consumer) fun b' hb' => by
        rw [hs']; exact ⟨Function.update_noteq hb' _ _, Function.update_noteq hb' _ _⟩
      subst hs'
      refine ⟨?_, h.data_eq, nofun⟩
      simp only [pendingWords, hinp, List.flatMap_append, hfw, List.flatMap_singleton]
      simp only [h.recorded_eq, pendingWords, heldWords, held, hpr, hcb, reduceCtorEq, ↓reduceIte,
        List.append_nil, bufferWords, Function.update_same, ← hfull, hw, List.append_assoc]
    · obtain ⟨hinp, hfw⟩ := ho.frame_held hh (by rw [hs'] : s'.consumer = s.consumer) fun b' hb' => by
        rw [hs']; exact ⟨Function.update_noteq hb' _ _, rfl⟩
      subst hs'
      refine ⟨?_, h.data_eq, by simp [hpr]⟩
      simp only [pendingWords, hinp, hfw]
      simp only [h.recorded_eq, pendingWords, heldWords, held, hpr, hcb, ↓reduceIte,
        Function.update_same, hw, List.append_assoc]
  | acquire =>
    obtain ⟨hpr, ⟨b, rest, -, rfl⟩ | ⟨-, -, rfl⟩⟩ := step_acquire_inv hs <;>
      exact h.of_pending (pendingWords_congr rfl rfl rfl (by simp [heldWords, held, hpr])) rfl rfl
        rfl nofun
  | cleanup =>
    obtain ⟨hpr, ⟨b, hcb, -, hs'⟩ | ⟨b, hcb, hc0, hs'⟩ | ⟨hcb, rfl⟩⟩ := step_cleanup_inv hs
    · -- the buffer's words move from the recorders to the filled queue
      have hh : s.held = some b := by rw [held_eq hpr, hcb]
      obtain ⟨hinp, hfw⟩ := ho.frame_held hh (by rw [hs'] : s'.consumer = s.consumer) fun b' hb' => by
        rw [hs']; exact ⟨rfl, Function.update_noteq hb' _ _⟩
      subst hs'
      refine h.of_pending ?_ rfl rfl rfl nofun
      simp only [pendingWords, hinp, List.flatMap_append, hfw, List.flatMap_singleton, heldWords,
        held, hpr, hcb, reduceCtorEq, ↓reduceIte, bufferWords, Function.update_same,
        List.append_nil, List.append_assoc]
    · -- an empty buffer is dropped, and no word with it
      have hh : s.held = some b := by rw [held_eq hpr, hcb]
      obtain ⟨hinp, hfw⟩ := ho.frame_held hh (by rw [hs'] : s'.consumer = s.consumer) fun b' hb' => by
        rw [hs']; exact ⟨rfl, Function.update_noteq hb' _ _⟩
      subst hs'
      refine h.of_pending ?_ rfl rfl rfl nofun
      simp only [pendingWords, hinp, hfw]
      simp [heldWords, held, hpr, hcb, hc0]
    · exact h.of_pending (pendingWords_congr rfl rfl rfl (by simp [heldWords, held, hpr, hcb]))
        rfl rfl rfl nofun
  | stop =>
    obtain ⟨hpr, rfl⟩ := step_stop_inv hs
    exact h.of_pending (pendingWords_congr rfl rfl rfl (by simp [heldWords, held, hpr])) rfl rfl
      rfl nofun
  | join =>
    obtain ⟨hpr, hc, rfl⟩ := step_join_inv hs
    exact h.of_pending (pendingWords_congr rfl rfl rfl (by simp [heldWords, held, hpr])) rfl rfl
      rfl fun _ => hc
  | check =>
    obtain ⟨hc, rfl⟩ := step_check_inv hs
    exact h.of_pending
      (pendingWords_congr (by cases s.running <;> simp [inProcessWords, hc]) rfl rfl rfl) rfl rfl
      rfl fun hst => absurd hst (h.not_stopped (by simp [hc]))
  | wake =>
    obtain ⟨hc, ⟨b, rest, hf, rfl⟩ | ⟨-, rfl⟩⟩ := step_wake_inv hs
    · refine h.of_pending ?_ rfl rfl rfl fun hst => absurd hst (h.not_stopped (by simp [hc]))
      simp only [pendingWords, inProcessWords, hc, hf, List.flatMap_cons, List.nil_append,
        List.append_assoc]
      rfl
    · exact h.of_pending (pendingWords_congr (by simp [inProcessWords, hc]) rfl rfl rfl) rfl rfl
        rfl fun hst => absurd hst (h.not_stopped (by simp [hc]))
  | process =>
    obtain ⟨b, hc, hs'⟩ := step_process_inv hs
    have hcb : s.consumer.buffer = some b := by simp [hc, ConsumerPc.buffer]
    have hfw : s.filledBuffers.flatMap s'.bufferWords = s.filledBuffers.flatMap s.bufferWords :=
      flatMap_bufferWords_congr fun b' hf => by
        rw [hs']
        exact ⟨rfl, Function.update_noteq
          (ne_of_mem_of_not_mem hf (ho.not_mem_filled_of_consumer hcb)) _ _⟩
    subst hs'
    refine ⟨?_, by simp [h.data_eq], fun hst => absurd hst (h.not_stopped (by simp [hc]))⟩
    simp only [pendingWords, hfw]
    simp only [h.recorded_eq, pendingWords, inProcessWords, hc, heldWords, held, List.nil_append,
      List.append_assoc]
  | giveBack =>
    obtain ⟨b, hc, rfl⟩ := step_giveBack_inv hs
    exact h.of_pending (pendingWords_congr (by simp [inProcessWords, hc]) rfl rfl rfl) rfl rfl rfl
      fun hst => absurd hst (h.not_stopped (by simp [hc]))

theorem accounted_of_reachable {s : Pipeline} (h : Reachable s) : s.Accounted :=
  h.induction accounted_start fun _ _ _ hr ha hs => accounted_step (owned_of_reachable hr) ha hs

/-- `wait_for` returns just before `CleanupClient` pushes the last buffer, and the next loop test
comes after `Stop`. -/
def lateShutdown : List Action :=
  [.check, .record (profilerRecordInstructionExecute 0x1000#32), .wake, .cleanup, .stop, .check,
    .join]

/-- Under `lateShutdown`, `ThreadFunc` returns with the last buffer queued, and the final
`FlushToFile` sees none of its words. -/
theorem shutdown_leaves_filled_buffer :
    ∃ s, run (.start fun _ _ => 0) lateShutdown = some s ∧ Reachable s ∧
      s.producer = .stopped ∧ s.recorded = [profilerRecordInstructionExecute 0x1000#32] ∧
      s.processed = [] ∧ s.filledBuffers = [0] :=
  ⟨_, rfl, reachable_of_run lateShutdown (.start fun _ _ => 0) rfl, rfl, by decide, rfl, rfl⟩

theorem Pipeline.Accounted.recorded_of_stopped {s : Pipeline} (h : s.Accounted)
    (hs : s.producer = .stopped) :
    s.recorded = s.processed ++ s.filledBuffers.flatMap s.bufferWords := by
  rw [h.recorded_eq]
  simp [Pipeline.pendingWords, Pipeline.inProcessWords, Pipeline.heldWords, Pipeline.held, hs,
    h.exited_of_stopped hs]

/-- At every reachable state the recorded words are the processed ones, then the waiting ones, and
`data` is what `ProcessEvent` made of the processed ones; once stopped, the waiting words are those
of `filled_buffers_`. -/
theorem pipeline_words_accounted {s : Pipeline} (h : Reachable s) :
    s.recorded = s.processed ++ s.pendingWords ∧ s.data = processEvents .init s.processed ∧
      (s.producer = .stopped →
        s.recorded = s.processed ++ s.filledBuffers.flatMap s.bufferWords) :=
  let ha := accounted_of_reachable h
  ⟨ha.recorded_eq, ha.data_eq, ha.recorded_of_stopped⟩

theorem pipeline_words_accounted_late_shutdown :
    ∃ s, run (.start fun _ _ => 0) lateShutdown = some s ∧
      s.recorded = s.processed ++ s.filledBuffers.flatMap s.bufferWords :=
  ⟨_, rfl, (pipeline_words_accounted (reachable_of_run lateShutdown (.start fun _ _ => 0) rfl)).2.2
    rfl⟩

end SqluxProfiler
