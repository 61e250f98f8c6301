import SqluxProfiler.Pipeline.Model

namespace SqluxProfiler

namespace Pipeline

/-- How many of the four places hold `b`. -/
def places (s : Pipeline) (b : Fin 16) : Nat :=
  s.emptyBuffers.count b + s.filledBuffers.count b + s.consumer.buffer.toList.count b +
    s.held.toList.count b

/-- The buffers of the four places and the one `CleanupClient` dropped. -/
def owners (s : Pipeline) : List (Fin 16) :=
  s.emptyBuffers ++ s.filledBuffers ++ s.consumer.buffer.toList ++ s.held.toList ++
    s.dropped.toList

/-- Every buffer has exactly one owner, and a buffer is dropped only once the recorders are done. -/
structure Owned (s : Pipeline) : Prop where
  count_owners : ∀ b, s.owners.count b = 1
  dropped_eq : s.producer = .recording ∨ s.producer = .switching → s.dropped = none

theorem count_owners_eq (s : Pipeline) (b : Fin 16) :
    s.owners.count b = s.places b + s.dropped.toList.count b := by
  simp only [owners, places, List.count_append]

theorem held_eq {s : Pipeline} (h : s.producer = .recording) : s.held = s.currentBuffer := if_pos h

@[simp] theorem count_toList (o : Option (Fin 16)) (b : Fin 16) :
    o.toList.count b = if o = some b then 1 else 0 := by
  cases o with
  | none => simp
  | some a => by_cases h : a = b <;> simp [h, List.count_singleton]

theorem held_of_ne {s : Pipeline} (h : s.producer ≠ .recording) : s.held = none := if_neg h

theorem Owned.of_count {s s' : Pipeline} (h : s.Owned) (hc : ∀ b, s'.owners.count b = s.owners.count b)
    (hd : s'.producer = .recording ∨ s'.producer = .switching → s'.dropped = none) : s'.Owned :=
  ⟨fun b => (hc b).trans (h.count_owners b), hd⟩

end Pipeline

open Pipeline

theorem owned_start (events : Fin 16 → Nat → BitVec 32) : (Pipeline.start events).Owned := by
  have h : ∀ b : Fin 16, (Pipeline.start fun _ _ => 0).owners.count b = 1 := by decide
  exact ⟨fun b => h b, fun _ => rfl⟩

theorem owned_step {s s' : Pipeline} {a : Action} (h : s.Owned) (hs : step s a = some s') :
    s'.Owned := by
  cases a with
  | record w =>
    obtain ⟨b, hpr, hcb, ⟨-, rfl⟩ | ⟨-, rfl⟩⟩ := step_record_inv hs
    · refine h.of_count (fun b' => ?_) fun _ => h.dropped_eq (.inl hpr)
      simp only [owners, held, hpr, hcb, List.count_append, reduceCtorEq, ↓reduceIte,
        Option.toList, List.count_nil]
      omega
    · exact h.of_count (fun b' => by simp only [owners, held]) fun _ => h.dropped_eq (.inl hpr)
  | acquire =>
    obtain ⟨hpr, ⟨b, rest, he, rfl⟩ | ⟨-, -, rfl⟩⟩ := step_acquire_inv hs
    · refine h.of_count (fun b' => ?_) fun _ => h.dropped_eq (.inr hpr)
      simp only [owners, held, hpr, he, List.count_append, List.count_cons, reduceCtorEq,
        ↓reduceIte, Option.toList, List.count_nil]
      omega
    · exact h.of_count (fun b' => by simp [owners, held, hpr]) fun _ => h.dropped_eq (.inr hpr)
  | cleanup =>
    obtain ⟨hpr, ⟨b, hcb, -, rfl⟩ | ⟨b, hcb, -, rfl⟩ | ⟨hcb, rfl⟩⟩ := step_cleanup_inv hs <;>
      refine h.of_count (fun b' => ?_) (by simp) <;>
      simp only [owners, held, hpr, hcb, h.dropped_eq (.inl hpr), List.count_append, reduceCtorEq,
        ↓reduceIte, Option.toList, List.count_nil] <;>
      omega
  | stop =>
    obtain ⟨hpr, rfl⟩ := step_stop_inv hs
    exact h.of_count (fun b' => by simp [owners, held, hpr]) (by simp)
  | join =>
    obtain ⟨hpr, -, rfl⟩ := step_join_inv hs
    exact h.of_count (fun b' => by simp [owners, held, hpr]) (by simp)
  | check =>
    obtain ⟨hc, rfl⟩ := step_check_inv hs
    exact h.of_count (fun b' => by cases s.running <;> simp [owners, held, hc, ConsumerPc.buffer])
      h.dropped_eq
  | wake =>
    obtain ⟨hc, ⟨b, rest, hf, rfl⟩ | ⟨-, rfl⟩⟩ := step_wake_inv hs
    · refine h.of_count (fun b' => ?_) h.dropped_eq
      simp only [owners, held, hc, hf, ConsumerPc.buffer, List.count_append, List.count_cons,
        Option.toList, List.count_nil]
      omega
    · exact h.of_count (fun b' => by simp [owners, held, hc, ConsumerPc.buffer]) h.dropped_eq
  | process =>
    obtain ⟨b, hc, rfl⟩ := step_process_inv hs
    exact h.of_count (fun b' => by simp [owners, held, hc, ConsumerPc.buffer]) h.dropped_eq
  | giveBack =>
    obtain ⟨b, hc, rfl⟩ := step_giveBack_inv hs
    refine h.of_count (fun b' => ?_) h.dropped_eq
    simp only [owners, held, hc, ConsumerPc.buffer, List.count_append, Option.toList,
      List.count_nil]
    omega

namespace Pipeline.Owned

variable {s : Pipeline} (h : s.Owned) {b : Fin 16}
include h

theorem not_mem_filled_of_held (hb : s.held = some b) : b ∉ s.filledBuffers := fun hf => by
  have := h.count_owners b
  have := List.count_pos_iff.mpr hf
  simp only [owners, List.count_append, hb, count_toList, if_true] at *
  omega

theorem not_mem_empty_of_held (hb : s.held = some b) : b ∉ s.emptyBuffers := fun he => by
  have := h.count_owners b
  have := List.count_pos_iff.mpr he
  simp only [owners, List.count_append, hb, count_toList, if_true] at *
  omega

theorem consumer_ne_of_held (hb : s.held = some b) : s.consumer.buffer ≠ some b := fun hc => by
  have := h.count_owners b
  simp only [owners, List.count_append, hb, hc, count_toList, if_true] at this
  omega

theorem not_mem_filled_of_consumer (hc : s.consumer.buffer = some b) : b ∉ s.filledBuffers :=
  fun hf => by
    have := h.count_owners b
    have := List.count_pos_iff.mpr hf
    simp only [owners, List.count_append, hc, count_toList, if_true] at *
    omega

end Pipeline.Owned

theorem owned_of_reachable {s : Pipeline} (h : Reachable s) : s.Owned :=
  h.induction owned_start fun _ _ _ _ ho hs => owned_step ho hs

/-- At every reachable state each buffer is in exactly one of the four places, except an empty
buffer `CleanupClient` left unpushed, in none; no queue holds a buffer twice or the recorders'
buffer. -/
theorem pipeline_buffers_owned {s : Pipeline} (h : Reachable s) :
    (∀ b, s.places b = if s.dropped = some b then 0 else 1) ∧
      (s.emptyBuffers ++ s.filledBuffers).Nodup ∧
      ∀ b, s.held = some b →
        b ∉ s.emptyBuffers ∧ b ∉ s.filledBuffers ∧ s.consumer.buffer ≠ some b := by
  have ho := owned_of_reachable h
  have hplaces : ∀ b, s.places b = if s.dropped = some b then 0 else 1 := fun b => by
    have := ho.count_owners b
    rw [count_owners_eq, count_toList] at this
    split at this <;> simp_all
  have hnodup : (s.emptyBuffers ++ s.filledBuffers).Nodup :=
    List.nodup_iff_count_le_one.mpr fun b => by
      have := hplaces b
      simp only [places, List.count_append] at this ⊢
      split at this <;> omega
  exact ⟨hplaces, hnodup, fun b hb => ⟨ho.not_mem_empty_of_held hb, ho.not_mem_filled_of_held hb,
    ho.consumer_ne_of_held hb⟩⟩

theorem pipeline_buffers_owned_blocked :
    ∃ s, Reachable s ∧ s.producer = .switching ∧ s.emptyBuffers = [] ∧
      s.filledBuffers = List.finRange 16 ∧
      (∀ b, s.places b = if s.dropped = some b then 0 else 1) ∧
      (s.emptyBuffers ++ s.filledBuffers).Nodup ∧
      ∀ b, s.held = some b →
        b ∉ s.emptyBuffers ∧ b ∉ s.filledBuffers ∧ s.consumer.buffer ≠ some b :=
  let ⟨s, hs, hp, he, hf, _⟩ := reachable_all_filled
  ⟨s, hs, hp, he, hf, pipeline_buffers_owned hs⟩

/-- `CleanupClient` right after `Profiler_Initialize` leaves the empty current buffer in no place.
-/
theorem cleanup_leaves_empty_buffer_unplaced :
    ∃ s, run (.start fun _ _ => 0) [.cleanup] = some s ∧ Reachable s ∧ s.places 0 = 0 :=
  ⟨_, rfl, reachable_of_run [.cleanup] (.start fun _ _ => 0) rfl, by decide⟩

end SqluxProfiler
