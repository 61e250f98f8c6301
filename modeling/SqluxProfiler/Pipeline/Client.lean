import SqluxProfiler.Pipeline.Words

namespace SqluxProfiler

/-- What one `PushFilledBuffer` received: the buffer, its `count`, and `events[0 .. count)`. -/
structure PushedBuffer where
  buffer : Fin 16
  count : Nat
  events : List (BitVec 32)
  deriving DecidableEq

/-- The pool's contents and counts, `current_buffer_`, and the two global pointers; `acquired`,
`switches` and `pushed` are ghost. -/
structure Client where
  events : Fin 16 → Nat → BitVec 32
  count : Fin 16 → Nat
  currentBuffer : Option (Fin 16)
  currentPtr : Option (Fin 16 × Nat)
  endPtr : Option (Fin 16 × Nat)
  acquired : Nat
  switches : Nat
  pushed : List PushedBuffer

namespace Client

variable (supply : Nat → Fin 16)

/-- `current_buffer_ = profiler->GetEmptyBuffer()`. -/
def getEmptyBuffer (c : Client) : Client :=
  { c with currentBuffer := some (supply c.acquired), acquired := c.acquired + 1 }

def updateGlobalPointers (c : Client) : Client :=
  match c.currentBuffer with
  | some b => { c with currentPtr := some (b, 0), endPtr := some (b, bufferSize) }
  | none => { c with currentPtr := none, endPtr := none }

/-- `ClientBufferManager::SwitchBuffer`; `none` where the source's pointer difference is undefined.
-/
def switchBuffer (c : Client) : Option Client :=
  match c.currentBuffer, c.currentPtr with
  | some b, some (b', i) =>
    if b' = b then
      some (updateGlobalPointers (getEmptyBuffer supply { c with
        count := Function.update c.count b i
        switches := c.switches + 1
        pushed := c.pushed ++ [⟨b, i, (List.range i).map (c.events b)⟩] }))
    else none
  | some _, none => none
  | none, _ => some (updateGlobalPointers (getEmptyBuffer supply { c with switches := c.switches + 1 }))

/-- The body every `Profiler_Record*` shares; `none` when the write would land outside the buffer.
-/
def recordWord (c : Client) (word : BitVec 32) : Option Client :=
  match c.currentPtr with
  | some (b, i) =>
    if i < bufferSize then
      let c' := { c with
        events := Function.update c.events b (Function.update (c.events b) i word)
        currentPtr := some (b, i + 1) }
      if c'.currentPtr = c'.endPtr then switchBuffer supply c' else some c'
    else none
  | none => none

/-- `Profiler_Initialize`: `InitializeEmptyBuffers`, then the client's constructor. -/
def profilerInitialize (events : Fin 16 → Nat → BitVec 32) : Client :=
  updateGlobalPointers (getEmptyBuffer supply ⟨events, fun _ => 0, none, none, none, 0, 0, []⟩)

def recordAll (c : Client) (words : List (BitVec 32)) : Option Client :=
  words.foldlM (recordWord supply) c

/-- The state after the words `ws`: full pushed buffers of 8192 consecutive words, and the rest in
the current buffer. -/
structure Recorded (c : Client) (ws : List (BitVec 32)) : Prop where
  switches_eq : c.switches = ws.length / bufferSize
  acquired_eq : c.acquired = ws.length / bufferSize + 1
  pushed_eq : c.pushed = (List.range (ws.length / bufferSize)).map fun k =>
    ⟨supply k, bufferSize, (ws.drop (bufferSize * k)).take bufferSize⟩
  current_eq : c.currentBuffer = some (supply (ws.length / bufferSize))
  ptr_eq : c.currentPtr = some (supply (ws.length / bufferSize), ws.length % bufferSize)
  end_eq : c.endPtr = some (supply (ws.length / bufferSize), bufferSize)
  held_eq : (List.range (ws.length % bufferSize)).map (c.events (supply (ws.length / bufferSize))) =
    ws.drop (bufferSize * (ws.length / bufferSize))

end Client

open Client

theorem recorded_profilerInitialize (supply : Nat → Fin 16) (events : Fin 16 → Nat → BitVec 32) :
    Recorded supply (profilerInitialize supply events) [] :=
  ⟨rfl, rfl, rfl, rfl, rfl, rfl, rfl⟩

theorem chunk_append {ws : List (BitVec 32)} (w : BitVec 32) {j : Nat}
    (h : bufferSize * j + bufferSize ≤ ws.length) :
    ((ws ++ [w]).drop (bufferSize * j)).take bufferSize = (ws.drop (bufferSize * j)).take bufferSize := by
  rw [List.drop_append_of_le_length (by omega),
    List.take_append_of_le_length (by rw [List.length_drop]; omega)]

theorem recorded_step {supply : Nat → Fin 16} {c : Client} {ws : List (BitVec 32)}
    (h : Recorded supply c ws) (w : BitVec 32) :
    ∃ c', recordWord supply c w = some c' ∧ Recorded supply c' (ws ++ [w]) := by
  obtain ⟨hsw, hacq, hpush, hcur, hptr, hend, hheld⟩ := h
  have hlen : (ws ++ [w]).length = ws.length + 1 := by simp
  have hlt : ws.length % bufferSize < bufferSize := Nat.mod_lt _ (by decide)
  have hwrite : (List.range (ws.length % bufferSize + 1)).map
      (Function.update (c.events (supply (ws.length / bufferSize))) (ws.length % bufferSize) w) =
      (ws ++ [w]).drop (bufferSize * (ws.length / bufferSize)) := by
    rw [Pipeline.map_range_update, hheld,
      List.drop_append_of_le_length (by simp only [bufferSize]; omega)]
  have hold : ∀ j ∈ List.range (ws.length / bufferSize),
      ((ws ++ [w]).drop (bufferSize * j)).take bufferSize =
        (ws.drop (bufferSize * j)).take bufferSize := fun j hj =>
    chunk_append w (by have := List.mem_range.mp hj; simp only [bufferSize] at *; omega)
  simp only [recordWord, hptr, if_pos hlt, hend, Option.some.injEq, Prod.mk.injEq, true_and]
  by_cases hfull : ws.length % bufferSize + 1 = bufferSize
  · have hk : (ws ++ [w]).length / bufferSize = ws.length / bufferSize + 1 := by
      rw [hlen]; simp only [bufferSize] at *; omega
    have hm : (ws ++ [w]).length % bufferSize = 0 := by
      rw [hlen]; simp only [bufferSize] at *; omega
    rw [if_pos hfull]
    simp only [switchBuffer, hcur, if_true, getEmptyBuffer, updateGlobalPointers]
    refine ⟨_, rfl, ⟨?_, ?_, ?_, ?_, ?_, ?_, ?_⟩⟩ <;> dsimp only <;> rw [hk] <;>
      try rw [hacq]
    · rw [hsw]
    · rw [hpush, Function.update_same, hwrite, List.range_succ (ws.length / bufferSize),
        List.map_append, List.map_singleton,
        List.take_of_length_le (by rw [List.length_drop, hlen]; simp only [bufferSize] at *; omega),
        hfull]
      exact congrArg (· ++ _) (List.map_congr_left fun j hj => by rw [hold j hj])
    · rw [hm]
    · rw [hm, List.drop_of_length_le (by rw [hlen]; simp only [bufferSize] at *; omega)]
      rfl
  · have hk : (ws ++ [w]).length / bufferSize = ws.length / bufferSize := by
      rw [hlen]; simp only [bufferSize] at *; omega
    have hm : (ws ++ [w]).length % bufferSize = ws.length % bufferSize + 1 := by
      rw [hlen]; simp only [bufferSize] at *; omega
    rw [if_neg hfull]
    refine ⟨_, rfl, ⟨?_, ?_, ?_, ?_, ?_, ?_, ?_⟩⟩ <;> dsimp only <;> rw [hk]
    · exact hsw
    · exact hacq
    · rw [hpush]
      exact List.map_congr_left fun j hj => by rw [hold j hj]
    · exact hcur
    · rw [hm]
    · rw [hm, Function.update_same, hwrite]

theorem recordAll_recorded (supply : Nat → Fin 16) {c₀ : Client} (h₀ : Recorded supply c₀ [])
    (ws : List (BitVec 32)) : ∃ c, recordAll supply c₀ ws = some c ∧ Recorded supply c ws := by
  induction ws using List.reverseRecOn with
  | nil => exact ⟨c₀, rfl, h₀⟩
  | append_singleton ws w ih =>
    obtain ⟨c, hc, h⟩ := ih
    obtain ⟨c', hc', h'⟩ := recorded_step h w
    refine ⟨c', ?_, h'⟩
    rw [recordAll, List.foldlM_append, ← recordAll, hc]
    simpa using hc'

/-- After `Profiler_Initialize` and the recorder calls storing `ws`, with a buffer always free: no
write lands outside a buffer, and the `k`-th pushed buffer holds words `8192k` to `8192k + 8191` in
order. -/
theorem recorders_fill_whole_buffers (supply : Nat → Fin 16) (events : Fin 16 → Nat → BitVec 32)
    (ws : List (BitVec 32)) :
    ∃ c, recordAll supply (profilerInitialize supply events) ws = some c ∧
      c.switches = ws.length / bufferSize ∧
      c.pushed = (List.range (ws.length / bufferSize)).map (fun k =>
        ⟨supply k, bufferSize, (ws.drop (bufferSize * k)).take bufferSize⟩) ∧
      c.currentPtr = some (supply (ws.length / bufferSize), ws.length % bufferSize) ∧
      c.endPtr = some (supply (ws.length / bufferSize), bufferSize) ∧ c.currentPtr ≠ c.endPtr := by
  obtain ⟨c, hc, h⟩ := recordAll_recorded supply (recorded_profilerInitialize supply events) ws
  refine ⟨c, hc, h.switches_eq, h.pushed_eq, h.ptr_eq, h.end_eq, ?_⟩
  rw [h.ptr_eq, h.end_eq]
  simpa using Nat.ne_of_lt (Nat.mod_lt _ (by decide))

/-- The client's pointers are the pipeline's cursor into its current buffer. -/
structure Tracks (c : Client) (s : Pipeline) : Prop where
  events_eq : c.events = s.events
  current_eq : c.currentBuffer = s.currentBuffer
  ptr_eq : c.currentPtr = s.currentBuffer.map fun b => (b, s.cursor)
  end_eq : c.endPtr = s.currentBuffer.map fun b => (b, bufferSize)

/-- One `Profiler_Record*` call is one `record` step of the pipeline, and the `acquire` that follows
a switch puts the two back in step. -/
theorem recordWord_simulates_record {supply : Nat → Fin 16} {c : Client} {s : Pipeline}
    {b : Fin 16} (ht : Tracks c s) (hp : s.producer = .recording) (hb : s.currentBuffer = some b)
    (hc : s.cursor < bufferSize) (w : BitVec 32) :
    ∃ c' s', recordWord supply c w = some c' ∧ step s (.record w) = some s' ∧
      s'.recorded = s.recorded ++ [w] ∧
      ((s'.producer = .recording ∧ Tracks c' s' ∧ c'.pushed = c.pushed) ∨
        (s'.producer = .switching ∧ s'.filledBuffers = s.filledBuffers ++ [b] ∧
          c'.pushed = c.pushed ++ [⟨b, bufferSize, s'.bufferWords b⟩] ∧
          ∀ rest, s'.emptyBuffers = supply c.acquired :: rest →
            ∃ s'', step s' .acquire = some s'' ∧ Tracks c' s'')) := by
  obtain ⟨hev, hcur, hptr, hend⟩ := ht
  rw [hb] at hcur hptr hend
  simp only [Option.map_some'] at hptr hend
  simp only [recordWord, hptr, if_pos hc, hend, Option.some.injEq, Prod.mk.injEq, true_and]
  rw [step.eq_1]
  simp only [hp, hb]
  by_cases hfull : s.cursor + 1 = bufferSize
  · simp only [if_pos hfull, switchBuffer, hcur, if_true, getEmptyBuffer, updateGlobalPointers]
    refine ⟨_, _, rfl, rfl, rfl, .inr ⟨rfl, rfl, ?_, fun rest he => ?_⟩⟩
    · simp only [Pipeline.bufferWords, Function.update_same, hev, hfull]
    · dsimp only at he
      rw [step.eq_2]
      dsimp only
      rw [if_pos rfl, he]
      exact ⟨_, rfl, ⟨by rw [hev], rfl, rfl, rfl⟩⟩
  · rw [if_neg hfull, if_neg hfull]
    exact ⟨_, _, rfl, rfl, rfl, .inl ⟨rfl, ⟨by rw [hev], hcur, rfl, rfl⟩, rfl⟩⟩

theorem recordWord_simulates_record_start :
    Tracks (profilerInitialize (fun _ => 0) fun _ _ => 0) (Pipeline.start fun _ _ => 0) ∧
      ∃ c' s', recordWord (fun _ => 0) (profilerInitialize (fun _ => 0) fun _ _ => 0) 7#32 = some c' ∧
        step (Pipeline.start fun _ _ => 0) (.record 7#32) = some s' := by
  have ht : Tracks (profilerInitialize (fun _ => 0) fun _ _ => 0) (Pipeline.start fun _ _ => 0) :=
    ⟨rfl, rfl, rfl, rfl⟩
  obtain ⟨c', s', h₁, h₂, -⟩ := recordWord_simulates_record ht rfl rfl (by decide) 7#32
  exact ⟨ht, c', s', h₁, h₂⟩

end SqluxProfiler
