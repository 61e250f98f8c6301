import SqluxProfiler.Data.ProfilerData

namespace SqluxProfiler

/-- A `std::set<uint32_t>`: its elements in ascending order. -/
structure AddrSet where
  elems : List Nat
  sorted : elems.Pairwise (· < ·)
  deriving DecidableEq

namespace AddrSet

def empty : AddrSet := ⟨[], .nil⟩

def insertList (k : Nat) : List Nat → List Nat
  | [] => [k]
  | j :: rest => if k < j then k :: j :: rest else if k = j then j :: rest else j :: insertList k rest

theorem mem_insertList {k x : Nat} : ∀ {l : List Nat}, x ∈ insertList k l ↔ x = k ∨ x ∈ l
  | [] => by simp [insertList]
  | j :: rest => by
    simp only [insertList]
    split_ifs with h1 h2
    · simp
    · subst h2; simp
    · simp only [List.mem_cons, mem_insertList]; tauto

theorem insertList_sorted {k : Nat} : ∀ {l : List Nat}, l.Pairwise (· < ·) →
    (insertList k l).Pairwise (· < ·)
  | [], _ => List.pairwise_singleton _ _
  | j :: rest, h => by
    have hj : ∀ b ∈ rest, j < b := fun b hb => List.rel_of_pairwise_cons h hb
    simp only [insertList]
    split_ifs with h1 h2
    · exact List.Pairwise.cons (fun b hb => by
        rcases List.mem_cons.mp hb with rfl | hb
        · exact h1
        · exact Nat.lt_trans h1 (hj b hb)) h
    · exact h
    · refine List.Pairwise.cons (fun b hb => ?_) (insertList_sorted h.of_cons)
      rcases mem_insertList.mp hb with rfl | hb
      · omega
      · exact hj b hb

/-- `set.insert(k)`. -/
def insert (s : AddrSet) (k : Nat) : AddrSet := ⟨insertList k s.elems, insertList_sorted s.sorted⟩

@[simp] theorem mem_insert {s : AddrSet} {k x : Nat} : x ∈ (s.insert k).elems ↔ x = k ∨ x ∈ s.elems :=
  mem_insertList

/-- `upper_bound(k)`: the position of the first element above `k`. -/
def upperBound (s : AddrSet) (k : Nat) : Nat := s.elems.findIdx fun e => k < e

/-- `lower_bound(k)`: the position of the first element not below `k`. -/
def lowerBound (s : AddrSet) (k : Nat) : Nat := s.elems.findIdx fun e => k ≤ e

end AddrSet

structure FunctionCall where
  callerAddress : Nat
  targetFunction : Nat
  callCount : BitVec 64
  inclusiveInstructions : BitVec 64
  inclusiveInstrFetches : BitVec 64
  inclusiveDataReads : BitVec 64
  inclusiveDataWrites : BitVec 64
  deriving DecidableEq, Repr

structure GroupedInstruction where
  address : Nat
  cost : InstructionCost
  deriving DecidableEq

structure GroupedFunction where
  entryAddress : Nat
  instructions : List GroupedInstruction
  calls : List FunctionCall
  totalSelfInstructions : BitVec 64
  totalSelfInstrFetches : BitVec 64
  totalSelfDataReads : BitVec 64
  totalSelfDataWrites : BitVec 64
  deriving DecidableEq

/-- The value-initialised `functions_[entry]`. -/
def GroupedFunction.zero : GroupedFunction := ⟨0, [], [], 0, 0, 0, 0⟩

structure GroupedProfilerData where
  functions : AddrMap GroupedFunction
  entryPoints : AddrSet
  totalInstructions : BitVec 64

def FunctionCall.ofCallInfo (caller target : Nat) (ci : CallInfo) : FunctionCall :=
  ⟨caller, target, ci.callCount, ci.inclusiveInstructions, ci.inclusiveInstrFetches,
    ci.inclusiveDataReads, ci.inclusiveDataWrites⟩

/-- Seeds `function_entries` with every call target of the table. -/
def addCallTargets (costs : List (Nat × InstructionCost)) (entries : AddrSet) : AddrSet :=
  costs.foldl (fun e p => (p.2.calls.keys).foldl AddrSet.insert e) entries

/-- The crossing test: `upper_bound(min)` and `lower_bound(max)` differ. -/
def crosses (entries : AddrSet) (s t : Nat) : Bool :=
  entries.upperBound (min s t) != entries.lowerBound (max s t)

/-- One jump of the single ascending pass: a crossing jump promotes its target and is recorded. -/
def promoteJump (s : Nat) (acc : AddrSet × List (Nat × Nat)) (t : Nat) :
    AddrSet × List (Nat × Nat) :=
  if crosses acc.1 s t then (acc.1.insert t, acc.2.insert (s, t)) else acc

def promoteJumps (costs : List (Nat × InstructionCost)) (acc : AddrSet × List (Nat × Nat)) :
    AddrSet × List (Nat × Nat) :=
  costs.foldl (fun acc p => (p.2.jumps.keys).foldl (promoteJump p.1) acc) acc

/-- `function_entries` and `cross_boundary_jumps` after both discovery loops. -/
def discoverEntries (costs : AddrMap InstructionCost) : AddrSet × List (Nat × Nat) :=
  promoteJumps costs.entries (addCallTargets costs.entries .empty, [])

/-- The entry owning `address`: the element before `upper_bound(address)`, or the address itself. -/
def functionOf (entries : AddrSet) (address : Nat) : Nat :=
  match entries.upperBound address with
  | 0 => address
  | i + 1 => entries.elems.getD i address

/-- `instruction_to_function`. -/
def instructionToFunction (entries : AddrSet) (costs : List (Nat × InstructionCost)) :
    AddrMap Nat :=
  costs.foldl (fun m p => m.alter p.1 0 fun _ => functionOf entries p.1) .empty

/-- `temp_functions`: each instruction appended to the list of its function. -/
def groupInstructions (toFunction : AddrMap Nat) (costs : List (Nat × InstructionCost)) :
    AddrMap (List (Nat × InstructionCost)) :=
  costs.foldl (fun m p => m.alter ((toFunction.find? p.1).getD 0) [] (· ++ [p])) .empty

/-- The calls emitted for one instruction: its call edges, then its recorded crossing jumps. -/
def instructionCalls (toFunction : AddrMap Nat) (cross : List (Nat × Nat)) (addr : Nat)
    (cost : InstructionCost) : List FunctionCall :=
  cost.calls.entries.filterMap (fun p =>
      (toFunction.find? p.1).map fun f => .ofCallInfo addr f p.2) ++
    cost.jumps.entries.filterMap (fun p =>
      if (addr, p.1) ∈ cross then (toFunction.find? p.1).map fun f => .ofCallInfo addr f p.2
      else none)

/-- The loop body over one function's instructions. -/
def addInstruction (toFunction : AddrMap Nat) (cross : List (Nat × Nat)) (func : GroupedFunction)
    (instr : Nat × InstructionCost) : GroupedFunction :=
  { func with
    instructions := func.instructions ++ [⟨instr.1, instr.2⟩]
    totalSelfInstructions := func.totalSelfInstructions + instr.2.selfCost
    totalSelfInstrFetches := func.totalSelfInstrFetches + instr.2.instrFetches
    totalSelfDataReads := func.totalSelfDataReads + instr.2.dataReads
    totalSelfDataWrites := func.totalSelfDataWrites + instr.2.dataWrites
    calls := func.calls ++ instructionCalls toFunction cross instr.1 instr.2 }

def buildFunction (toFunction : AddrMap Nat) (cross : List (Nat × Nat)) (funcAddr : Nat)
    (instrs : List (Nat × InstructionCost)) : GroupedFunction :=
  instrs.foldl (addInstruction toFunction cross) ⟨funcAddr, [], [], 0, 0, 0, 0⟩

/-- One `AddFunction` per entry of `temp_functions`. -/
def groupFunctions (costs : AddrMap InstructionCost) : AddrMap GroupedFunction :=
  let discovered := discoverEntries costs
  let toFunction := instructionToFunction discovered.1 costs.entries
  (groupInstructions toFunction costs.entries).entries.foldl
    (fun m p => m.alter p.1 .zero fun _ => buildFunction toFunction discovered.2 p.1 p.2) .empty

/-- `o` owns `a`: the largest entry not above `a`, or `a` itself when every entry is above it. -/
def IsOwner (entries : List Nat) (a o : Nat) : Prop :=
  (o ∈ entries ∧ o ≤ a ∧ ∀ e ∈ entries, e ≤ a → e ≤ o) ∨ (o = a ∧ ∀ e ∈ entries, a < e)

private theorem findIdx_cons_ite (p : Nat → Prop) [DecidablePred p] (e : Nat) (l : List Nat) :
    (e :: l).findIdx (fun x => decide (p x)) =
      if p e then 0 else l.findIdx (fun x => decide (p x)) + 1 := by
  simp [List.findIdx_cons, Bool.cond_decide]

private theorem findIdx_gt_eq_zero {a : Nat} :
    ∀ {l : List Nat}, l.Pairwise (· < ·) → (l.findIdx (fun e => a < e) = 0 ↔ ∀ e ∈ l, a < e)
  | [], _ => by simp
  | e :: l, hs => by
    rw [findIdx_cons_ite]
    by_cases h : a < e
    · simp only [h, if_true, List.mem_cons, forall_eq_or_imp, true_and, true_iff]
      exact fun x hx => Nat.lt_trans h (List.rel_of_pairwise_cons hs hx)
    · simp [h]

private theorem ownerList_isOwner (a : Nat) : ∀ {l : List Nat}, l.Pairwise (· < ·) →
    IsOwner l a (match l.findIdx (fun e => a < e) with
      | 0 => a
      | i + 1 => l.getD i a)
  | [], _ => .inr ⟨rfl, by simp⟩
  | e :: l, hs => by
    have he : ∀ x ∈ l, e < x := fun x hx => List.rel_of_pairwise_cons hs hx
    rw [findIdx_cons_ite]
    by_cases h : a < e
    · rw [if_pos h]
      exact .inr ⟨rfl, List.forall_mem_cons.mpr ⟨h, fun x hx => Nat.lt_trans h (he x hx)⟩⟩
    rw [if_neg h]
    have ih := ownerList_isOwner a hs.of_cons
    generalize hk : l.findIdx (fun e => a < e) = k at ih
    cases k with
    | zero =>
      have hl := (findIdx_gt_eq_zero hs.of_cons).mp hk
      exact .inl ⟨List.mem_cons_self _ _, Nat.le_of_not_lt h, List.forall_mem_cons.mpr
        ⟨fun _ => le_refl e, fun x hx hxa => absurd (hl x hx) (by omega)⟩⟩
    | succ i =>
      rcases ih with ⟨ho, hoa, hmax⟩ | ⟨-, hall⟩
      · exact .inl ⟨List.mem_cons_of_mem _ ho, hoa,
          List.forall_mem_cons.mpr ⟨fun _ => (he _ ho).le, hmax⟩⟩
      · exact absurd ((findIdx_gt_eq_zero hs.of_cons).mpr hall) (by omega)

theorem functionOf_isOwner (entries : AddrSet) (a : Nat) :
    IsOwner entries.elems a (functionOf entries a) :=
  ownerList_isOwner a entries.sorted

theorem functionOf_of_mem {entries : AddrSet} {a : Nat} (h : a ∈ entries.elems) :
    functionOf entries a = a := by
  rcases functionOf_isOwner entries a with ⟨-, hle, hmax⟩ | ⟨heq, -⟩
  · exact le_antisymm hle (hmax a h (le_refl a))
  · exact heq

private theorem findIdx_bounds_ne {lo hi : Nat} (hlh : lo ≤ hi) : ∀ {l : List Nat},
    l.Pairwise (· < ·) →
      (l.findIdx (fun e => lo < e) ≠ l.findIdx (fun e => hi ≤ e) ↔
        (∃ e ∈ l, lo < e ∧ e < hi) ∨ (lo = hi ∧ lo ∈ l))
  | [], _ => by simp
  | e :: l, hs => by
    have hge : ∀ x ∈ e :: l, e ≤ x := fun x hx =>
      (List.mem_cons.mp hx).elim Eq.ge fun hx => (List.rel_of_pairwise_cons hs hx).le
    rw [findIdx_cons_ite, findIdx_cons_ite]
    by_cases h1 : lo < e <;> by_cases h2 : hi ≤ e
    · rw [if_pos h1, if_pos h2]
      refine iff_of_false (fun h => h rfl) ?_
      rintro (⟨x, hx, -, hxh⟩ | ⟨rfl, hx⟩) <;> have := hge _ hx <;> omega
    · rw [if_pos h1, if_neg h2]
      exact iff_of_true (by omega) (.inl ⟨e, List.mem_cons_self _ _, h1, by omega⟩)
    · rw [if_neg h1, if_pos h2]
      exact iff_of_true (by omega) (.inr ⟨by omega, by
        rw [show lo = e by omega]; exact List.mem_cons_self _ _⟩)
    · rw [if_neg h1, if_neg h2, ne_eq, Nat.add_right_cancel_iff, ← ne_eq,
        findIdx_bounds_ne hlh hs.of_cons]
      rw [List.exists_mem_cons_iff, List.mem_cons]
      simp only [h1, false_and, false_or]
      exact or_congr_right (and_congr_right fun h => (or_iff_right (by omega)).symm)

theorem crosses_iff (entries : AddrSet) (s t : Nat) :
    crosses entries s t = true ↔
      (∃ e ∈ entries.elems, min s t < e ∧ e < max s t) ∨ (s = t ∧ s ∈ entries.elems) := by
  have h := findIdx_bounds_ne (le_of_lt_or_eq (lt_or_eq_of_le (min_le_max (a := s) (b := t))))
    entries.sorted
  simp only [crosses, AddrSet.upperBound, AddrSet.lowerBound, bne_iff_ne, ne_eq] at h ⊢
  rw [h]
  constructor
  · rintro (h | ⟨h, hm⟩)
    · exact .inl h
    · have hst : s = t := by omega
      subst hst
      exact .inr ⟨rfl, by simpa using hm⟩
  · rintro (h | ⟨rfl, hm⟩)
    · exact .inl h
    · exact .inr ⟨by simp, by simpa using hm⟩

/-- `ConvertToGroupedData`. Nothing in it fills `entry_points_`. -/
def convertToGroupedData (data : ProfilerData) : GroupedProfilerData :=
  if data.instructionCosts.entries = [] then ⟨.empty, .empty, data.totalInstructions⟩
  else ⟨groupFunctions data.instructionCosts, .empty, data.totalInstructions⟩

end SqluxProfiler
