import SqluxProfiler.Callgrind.Serializer
import SqluxProfiler.Grouping.Entries
import Mathlib.Tactic.Ring
import Mathlib.Algebra.BigOperators.Ring.List

namespace SqluxProfiler

structure DecodedCall where
  function : Nat
  target : Nat
  count : Nat
  position : Nat
  columns : Columns
  deriving DecidableEq, Repr

structure DecodedLine where
  address : Nat
  columns : Columns
  calls : List DecodedCall
  deriving DecidableEq, Repr

structure DecodedBlock where
  function : Nat
  lines : List DecodedLine
  deriving DecidableEq, Repr

structure Decoded where
  summary : Option Columns
  blocks : List DecodedBlock
  deriving DecidableEq, Repr

/-- The reader's state: the summary, the blocks read, the block being read, its last position, the
last `cfn=`, and a pending `calls=`. -/
structure DecodeState where
  summary : Option Columns
  blocks : List DecodedBlock
  current : Option DecodedBlock
  position : Option Nat
  cfn : Option Nat
  pendingCall : Option (Nat × Nat)

def DecodeState.init : DecodeState := ⟨none, [], none, none, none, none⟩

def resolve : Position → Option Nat → Option Nat
  | .absolute a, _ => some a
  | .plus n, p => p.map (· + n)
  | .minus n, p => p.bind fun p => if n ≤ p then some (p - n) else none
  | .same, p => p

def decodeRecord (st : DecodeState) : Record → Option DecodeState
  | .other => some st
  | .summary c => some { st with summary := some c }
  | .fn f =>
    some { st with
      blocks := st.blocks ++ st.current.toList
      current := some ⟨f, []⟩
      position := none
      cfn := none
      pendingCall := none }
  | .cfn f => st.current.map fun _ => { st with cfn := some f }
  | .calls n t => st.current.map fun _ => { st with pendingCall := some (n, t) }
  | .cost p c => do
    let b ← st.current
    let a ← resolve p st.position
    match st.pendingCall with
    | none =>
      some { st with
        current := some { b with lines := b.lines ++ [⟨a, c, []⟩] }
        position := some a }
    | some (n, t) =>
      let f ← st.cfn
      let line ← b.lines.getLast?
      some { st with
        current := some { b with
          lines := b.lines.dropLast ++ [{ line with calls := line.calls ++ [⟨f, t, n, a, c⟩] }] }
        position := some a
        pendingCall := none }

def decodeCallgrind (text : List Char) : Option Decoded := do
  let records ← (text.splitOn '\n').mapM parseLine
  let st ← records.foldlM decodeRecord .init
  if st.pendingCall.isSome then none else some ⟨st.summary, st.blocks ++ st.current.toList⟩

def costColumns (instructions instrFetches dataReads dataWrites : BitVec 64) : Columns :=
  ⟨(instructions + 3 * (instrFetches + dataReads + dataWrites)).toNat, instructions.toNat,
    dataReads.toNat, dataWrites.toNat⟩

def expectedCall (call : FunctionCall) : DecodedCall :=
  ⟨call.targetFunction, call.targetFunction, call.callCount.toNat, call.callerAddress,
    costColumns call.inclusiveInstructions call.inclusiveInstrFetches call.inclusiveDataReads
      call.inclusiveDataWrites⟩

/-- An instruction's line: its address, its self costs and its calls. -/
def expectedLine (func : GroupedFunction) (instr : GroupedInstruction) : DecodedLine :=
  ⟨instr.address,
    costColumns instr.cost.selfCost instr.cost.instrFetches instr.cost.dataReads instr.cost.dataWrites,
    (func.calls.filter (·.callerAddress = instr.address)).map expectedCall⟩

def expectedBlocks (data : GroupedProfilerData) : List DecodedBlock :=
  data.functions.entries.map fun p => ⟨p.1, p.2.instructions.map (expectedLine p.2)⟩

/-- The column sums, modulo 2^64, of the self-cost lines of all blocks. -/
def columnSum (blocks : List DecodedBlock) : Columns :=
  let lines := blocks.flatMap (·.lines)
  ⟨(lines.map (·.columns.cycles)).sum % 2 ^ 64, (lines.map (·.columns.instructions)).sum % 2 ^ 64,
    (lines.map (·.columns.dataReads)).sum % 2 ^ 64, (lines.map (·.columns.dataWrites)).sum % 2 ^ 64⟩

theorem cycles_eq (i f r w : BitVec 64) : cycles i f r w = i + 3 * (f + r + w) := by
  unfold cycles; ring

theorem selfColumns_eq (cost : InstructionCost) :
    selfColumns cost =
      costColumns cost.selfCost cost.instrFetches cost.dataReads cost.dataWrites := by
  simp [selfColumns, costColumns, cycles_eq]

theorem callColumns_eq (call : FunctionCall) :
    callColumns call = costColumns call.inclusiveInstructions call.inclusiveInstrFetches
      call.inclusiveDataReads call.inclusiveDataWrites := by
  simp [callColumns, costColumns, cycles_eq]

def callRecords (call : FunctionCall) : List Record :=
  [.cfn call.targetFunction, .calls call.callCount.toNat call.targetFunction,
    .cost (.absolute call.callerAddress) (callColumns call)]

def instrRecords (calls : List FunctionCall) : Nat → List GroupedInstruction → List Record
  | _, [] => []
  | last, instr :: instrs =>
    .cost (positionField last instr.address) (selfColumns instr.cost) ::
      (calls.filter (·.callerAddress = instr.address)).flatMap callRecords ++
        instrRecords calls instr.address instrs

theorem find?_callsByAddress (calls : List FunctionCall) (a : Nat) :
    ((callsByAddress calls).find? a).getD [] = calls.filter (·.callerAddress = a) := by
  rw [callsByAddress, AddrMap.find?_foldl_append]
  split
  · rename_i h
    simp only [AddrMap.find?_empty, Option.getD_none]
    exact (List.isEmpty_iff.mp h).symm
  · simp

theorem foldl_callLines (a : Nat) :
    ∀ (cs : List FunctionCall) (ls : List Line), (∀ c ∈ cs, c.callerAddress = a) →
      cs.foldl (fun acc call => (acc.1 ++ callLines call, call.callerAddress)) (ls, a) =
        (ls ++ (cs.flatMap callRecords).map .record, a)
  | [], ls, _ => by simp
  | c :: cs, ls, h => by
    rw [List.foldl_cons, h c (List.mem_cons_self _ _),
      foldl_callLines a cs _ fun c hc => h c (List.mem_cons_of_mem _ hc)]
    simp [callLines, callRecords]

theorem foldl_writeInstruction (calls : List FunctionCall) :
    ∀ (instrs : List GroupedInstruction) (ls : List Line) (last : Nat),
      (instrs.foldl (writeInstruction (callsByAddress calls)) (ls, last)).1 =
        ls ++ (instrRecords calls last instrs).map .record
  | [], ls, last => by simp [instrRecords]
  | i :: instrs, ls, last => by
    have hf := find?_callsByAddress calls i.address
    have hc : ∀ c ∈ calls.filter (·.callerAddress = i.address), c.callerAddress = i.address :=
      fun c hc => of_decide_eq_true (List.mem_filter.mp hc).2
    have hw : writeInstruction (callsByAddress calls) (ls, last) i =
        (ls ++ (.cost (positionField last i.address) (selfColumns i.cost) ::
          (calls.filter (·.callerAddress = i.address)).flatMap callRecords).map .record,
          i.address) := by
      unfold writeInstruction
      split
      · rename_i hn
        rw [hn] at hf
        simp [← hf]
      · rename_i cs hs
        rw [hs, Option.getD_some] at hf
        subst hf
        rw [foldl_callLines _ _ _ hc]
        simp
    rw [List.foldl_cons, hw, foldl_writeInstruction calls instrs, instrRecords]
    simp

theorem writeFunction_eq (f : Nat) (F : GroupedFunction) :
    writeFunction f F = .record (.fn f) ::
      (instrRecords F.calls 0 F.instructions).map .record ++ [.text []] := by
  rw [writeFunction, foldl_writeInstruction, List.nil_append]

theorem writeBody_eq (data : GroupedProfilerData) :
    writeBody data = data.functions.entries.flatMap fun p => writeFunction p.1 p.2 := by
  unfold writeBody
  split <;> simp_all

/-- Reading the records `rs` from `st` ends in a state with `P`. -/
def ReadsTo (st : DecodeState) (rs : List Record) (P : DecodeState → Prop) : Prop :=
  ∃ st', rs.foldlM decodeRecord st = some st' ∧ P st'

theorem ReadsTo.append {st : DecodeState} {rs rs' : List Record} {P Q : DecodeState → Prop}
    (h : ReadsTo st rs P) (h' : ∀ st', P st' → ReadsTo st' rs' Q) :
    ReadsTo st (rs ++ rs') Q := by
  obtain ⟨st₁, h₁, hP⟩ := h
  obtain ⟨st₂, h₂, hQ⟩ := h' st₁ hP
  exact ⟨st₂, by rw [List.foldlM_append, h₁]; exact h₂, hQ⟩

theorem ReadsTo.cons {st t : DecodeState} {r : Record} {rs : List Record}
    {P : DecodeState → Prop} (h : decodeRecord st r = some t) (h' : ReadsTo t rs P) :
    ReadsTo st (r :: rs) P := by
  obtain ⟨st₂, h₂, hP⟩ := h'
  exact ⟨st₂, by rw [List.foldlM_cons, h]; exact h₂, hP⟩

structure InBlock (summary : Option Columns) (blocks : List DecodedBlock) (f : Nat)
    (lines : List DecodedLine) (last : Nat) (st : DecodeState) : Prop where
  summary_eq : st.summary = summary
  blocks_eq : st.blocks = blocks
  current_eq : st.current = some ⟨f, lines⟩
  pending_eq : st.pendingCall = none
  position_eq : last ≠ 0 → st.position = some last

structure BlocksRead (summary : Option Columns) (blocks : List DecodedBlock) (st : DecodeState) :
    Prop where
  summary_eq : st.summary = summary
  blocks_eq : st.blocks ++ st.current.toList = blocks
  pending_eq : st.pendingCall = none

theorem resolve_positionField {last : Nat} (a : Nat) {pos : Option Nat}
    (h : last ≠ 0 → pos = some last) : resolve (positionField last a) pos = some a := by
  unfold positionField
  split
  · rfl
  · rename_i h0
    rw [h h0]
    dsimp only
    split_ifs <;> simp [resolve] <;> omega

variable {S : Option Columns} {B : List DecodedBlock} {f : Nat} {st : DecodeState}

theorem readsTo_self {lines : List DecodedLine} {last : Nat} (h : InBlock S B f lines last st)
    (a : Nat) (c : Columns) :
    ReadsTo st [.cost (positionField last a) c] (InBlock S B f (lines ++ [⟨a, c, []⟩]) a) :=
  .cons (t := { st with current := some ⟨f, lines ++ [⟨a, c, []⟩]⟩, position := some a })
    (by simp [decodeRecord, h.current_eq, resolve_positionField a h.position_eq, h.pending_eq])
    ⟨_, rfl, h.summary_eq, h.blocks_eq, rfl, h.pending_eq, fun _ => rfl⟩

theorem readsTo_callRecords {lines : List DecodedLine} {line : DecodedLine} {last : Nat}
    (h : InBlock S B f (lines ++ [line]) last st) (call : FunctionCall) :
    ReadsTo st (callRecords call)
      (InBlock S B f (lines ++ [{ line with calls := line.calls ++ [expectedCall call] }])
        call.callerAddress) := by
  refine ⟨{ st with
      current := some ⟨f, lines ++ [{ line with calls := line.calls ++ [expectedCall call] }]⟩
      position := some call.callerAddress
      cfn := some call.targetFunction
      pendingCall := none }, ?_, h.summary_eq, h.blocks_eq, rfl, rfl, fun _ => rfl⟩
  simp [callRecords, decodeRecord, h.current_eq, resolve, expectedCall, callColumns_eq]

theorem readsTo_calls {lines : List DecodedLine} {a : Nat} :
    ∀ (cs : List FunctionCall) (line : DecodedLine) {st : DecodeState},
      (∀ c ∈ cs, c.callerAddress = a) → InBlock S B f (lines ++ [line]) a st →
      ReadsTo st (cs.flatMap callRecords)
        (InBlock S B f (lines ++ [{ line with calls := line.calls ++ cs.map expectedCall }]) a)
  | [], line, st, _, h => ⟨st, rfl, by simpa using h⟩
  | c :: cs, line, _, hc, h => by
    rw [List.flatMap_cons]
    refine (readsTo_callRecords h c).append fun st' h' => ?_
    rw [hc c (List.mem_cons_self _ _)] at h'
    simpa using readsTo_calls cs _ (fun c' hc' => hc c' (List.mem_cons_of_mem _ hc')) h'

theorem readsTo_instrRecords (F : GroupedFunction) :
    ∀ (instrs : List GroupedInstruction) (lines : List DecodedLine) (last : Nat)
      {st : DecodeState}, InBlock S B f lines last st →
      ReadsTo st (instrRecords F.calls last instrs)
        fun st' => ∃ last', InBlock S B f (lines ++ instrs.map (expectedLine F)) last' st'
  | [], lines, last, st, h => ⟨st, rfl, last, by simpa using h⟩
  | i :: instrs, lines, last, _, h => by
    rw [instrRecords, ← List.singleton_append]
    refine (readsTo_self h i.address _).append fun st₁ h₁ => ?_
    refine (readsTo_calls _ _ (fun c hc => of_decide_eq_true (List.mem_filter.mp hc).2) h₁).append
      fun st₂ h₂ => ?_
    have e : lines ++ [{ (⟨i.address, selfColumns i.cost, []⟩ : DecodedLine) with
        calls := [] ++ (F.calls.filter (·.callerAddress = i.address)).map expectedCall }] =
        lines ++ [expectedLine F i] := by
      simp [expectedLine, selfColumns_eq]
    rw [e] at h₂
    simpa using readsTo_instrRecords F instrs _ _ h₂

theorem readsTo_function (h : BlocksRead S B st) (f : Nat) (F : GroupedFunction) :
    ReadsTo st ((writeFunction f F).map Line.toRecord)
      (BlocksRead S (B ++ [⟨f, F.instructions.map (expectedLine F)⟩])) := by
  rw [writeFunction_eq, List.map_append, List.map_cons, List.map_map, List.cons_append]
  refine .cons (t := { st with
      blocks := st.blocks ++ st.current.toList
      current := some ⟨f, []⟩
      position := none
      cfn := none
      pendingCall := none }) rfl ?_
  have h₁ : InBlock S B f [] 0 { st with
      blocks := st.blocks ++ st.current.toList
      current := some ⟨f, []⟩
      position := none
      cfn := none
      pendingCall := none } :=
    ⟨h.summary_eq, h.blocks_eq, rfl, rfl, fun h0 => absurd rfl h0⟩
  have hid : Line.toRecord ∘ Line.record = id := rfl
  rw [hid, List.map_id]
  refine (readsTo_instrRecords F _ _ _ h₁).append fun st₂ ⟨_, h₂⟩ => ⟨st₂, rfl, ?_⟩
  exact ⟨h₂.summary_eq, by simp [h₂.blocks_eq, h₂.current_eq], h₂.pending_eq⟩

theorem readsTo_functions :
    ∀ (entries : List (Nat × GroupedFunction)) {B : List DecodedBlock} {st : DecodeState},
      BlocksRead S B st →
      ReadsTo st ((entries.flatMap fun p => writeFunction p.1 p.2).map Line.toRecord)
        (BlocksRead S (B ++ entries.map fun p => ⟨p.1, p.2.instructions.map (expectedLine p.2)⟩))
  | [], _, st, h => ⟨st, rfl, by simpa using h⟩
  | p :: entries, _, _, h => by
    rw [List.flatMap_cons, List.map_append]
    refine (readsTo_function h p.1 p.2).append fun st' h' => ?_
    simpa using readsTo_functions entries h'

theorem flatMap_append_newline : ∀ ls : List (List Char),
    ls.flatMap (· ++ ['\n']) = ['\n'].intercalate (ls ++ [[]])
  | [] => rfl
  | l :: ls => by
    obtain ⟨b, t, e⟩ := List.exists_cons_of_ne_nil (List.append_ne_nil_of_right_ne_nil ls
      (List.cons_ne_nil ([] : List Char) []))
    rw [List.flatMap_cons, flatMap_append_newline ls, List.cons_append, e]
    simp [List.intercalate]

theorem splitOn_newline {ls : List (List Char)} (h : ∀ l ∈ ls, '\n' ∉ l) :
    (ls.flatMap (· ++ ['\n'])).splitOn '\n' = ls ++ [[]] := by
  rw [flatMap_append_newline]
  refine List.splitOn_intercalate _ '\n' (fun l hl => ?_) (by simp)
  rcases List.mem_append.mp hl with hl | hl
  · exact h l hl
  · rw [List.mem_singleton.mp hl]; exact List.not_mem_nil _

def Line.Readable (l : Line) : Prop := parseLine l.render = some l.toRecord ∧ '\n' ∉ l.render

theorem Line.readable_record (r : Record) : (Line.record r).Readable :=
  ⟨parseLine_render r, newline_not_mem_render r⟩

theorem readable_callgrindLines (data : GroupedProfilerData) :
    ∀ l ∈ writeHeader data ++ writeBody data, l.Readable := by
  intro l hl
  rcases List.mem_append.mp hl with hl | hl
  · simp only [writeHeader, List.mem_cons, List.mem_singleton, List.not_mem_nil, or_false] at hl
    rcases hl with rfl | rfl | rfl | rfl | rfl | rfl | rfl | rfl | rfl
    all_goals first | exact Line.readable_record _ | exact ⟨by decide, by decide⟩
  · rw [writeBody_eq] at hl
    obtain ⟨p, -, hp⟩ := List.mem_flatMap.mp hl
    simp only [writeFunction_eq, List.mem_append, List.mem_cons, List.mem_map, List.mem_singleton,
      List.not_mem_nil, or_false] at hp
    rcases hp with (rfl | ⟨r, -, rfl⟩) | rfl
    · exact Line.readable_record _
    · exact Line.readable_record _
    · exact ⟨rfl, List.not_mem_nil _⟩

theorem mapM_parseLine : ∀ ls : List Line, (∀ l ∈ ls, l.Readable) →
    (ls.map Line.render ++ [[]]).mapM parseLine = some (ls.map Line.toRecord ++ [.other])
  | [], _ => rfl
  | l :: ls, h => by
    rw [List.map_cons, List.cons_append, List.mapM_cons, (h l (List.mem_cons_self _ _)).1,
      mapM_parseLine ls fun l hl => h l (List.mem_cons_of_mem _ hl)]
    rfl

/-- The file reads back as the data: one block per function, each self-cost line with its costs and
calls, and the summary. -/
theorem decodeCallgrind_callgrindText (data : GroupedProfilerData) :
    decodeCallgrind (callgrindText data) =
      some ⟨some (summaryColumns data), expectedBlocks data⟩ := by
  have hr := readable_callgrindLines data
  have hs : (callgrindText data).splitOn '\n' =
      (writeHeader data ++ writeBody data).map Line.render ++ [[]] := by
    rw [callgrindText, show (writeHeader data ++ writeBody data).flatMap
        (fun l => l.render ++ ['\n']) =
        ((writeHeader data ++ writeBody data).map Line.render).flatMap (· ++ ['\n']) by
      rw [List.flatMap_map]]
    exact splitOn_newline fun l hl => by
      obtain ⟨l', hl', rfl⟩ := List.mem_map.mp hl
      exact (hr l' hl').2
  obtain ⟨st, hst, hB⟩ : ReadsTo .init
      ((writeHeader data ++ writeBody data).map Line.toRecord ++ [.other])
      (BlocksRead (some (summaryColumns data)) (expectedBlocks data)) := by
    rw [List.map_append, writeBody_eq, List.append_assoc]
    refine ReadsTo.append (P := BlocksRead (some (summaryColumns data)) [])
      ⟨_, rfl, rfl, rfl, rfl⟩ fun st h => ?_
    exact (readsTo_functions _ h).append fun st' h' => ⟨st', rfl, by simpa [expectedBlocks] using h'⟩
  simp only [decodeCallgrind, hs, mapM_parseLine _ hr, Option.bind_eq_bind, Option.some_bind, hst,
    hB.pending_eq, Option.isSome_none, Bool.false_eq_true, if_false, hB.summary_eq, hB.blocks_eq]

theorem toNat_sum_map {α : Type} (g : α → BitVec 64) :
    ∀ l : List α, (l.map g).sum.toNat = (l.map fun a => (g a).toNat).sum % 2 ^ 64
  | [] => rfl
  | a :: l => by
    rw [List.map_cons, List.sum_cons, BitVec.toNat_add, toNat_sum_map g l, List.map_cons,
      List.sum_cons, Nat.add_mod_mod]

theorem sum_map_flatMap {α β : Type} {M : Type} [AddCommMonoid M] (l : List α) (f : α → List β)
    (g : β → M) : ((l.flatMap f).map g).sum = (l.map fun a => ((f a).map g).sum).sum := by
  induction l with
  | nil => rfl
  | cons a l ih => simp [List.flatMap_cons, ih]

theorem summaryColumns_eq_columnSum (data : GroupedProfilerData)
    (h : ∀ p ∈ data.functions.entries,
      p.2.totalSelfInstructions = (p.2.instructions.map (·.cost.selfCost)).sum ∧
      p.2.totalSelfInstrFetches = (p.2.instructions.map (·.cost.instrFetches)).sum ∧
      p.2.totalSelfDataReads = (p.2.instructions.map (·.cost.dataReads)).sum ∧
      p.2.totalSelfDataWrites = (p.2.instructions.map (·.cost.dataWrites)).sum) :
    summaryColumns data = columnSum (expectedBlocks data) := by
  set is := data.functions.entries.flatMap (·.2.instructions)
  have htotal : ∀ (x : GroupedFunction → BitVec 64) (y : InstructionCost → BitVec 64),
      (∀ p ∈ data.functions.entries, x p.2 = (p.2.instructions.map (y ·.cost)).sum) →
      data.functions.sum x = (is.map (y ·.cost)).sum := fun x y hxy => by
    rw [AddrMap.sum, List.map_congr_left hxy, sum_map_flatMap]
  have hlines : ∀ (z : Columns → Nat),
      (((expectedBlocks data).flatMap (·.lines)).map (z ·.columns)).sum = (is.map fun i =>
        z (costColumns i.cost.selfCost i.cost.instrFetches i.cost.dataReads i.cost.dataWrites)).sum :=
    fun z => by simp [expectedBlocks, is, sum_map_flatMap, expectedLine, Function.comp_def]
  simp only [summaryColumns, columnSum, hlines, costColumns,
    htotal _ _ fun p hp => (h p hp).1, htotal _ _ fun p hp => (h p hp).2.1,
    htotal _ _ fun p hp => (h p hp).2.2.1, htotal _ _ fun p hp => (h p hp).2.2.2,
    ← toNat_sum_map, cycles_eq, List.sum_map_add, List.sum_map_mul_left]

/-- `ConvertToGroupedData`'s file decodes back to its data: one block per function in entry order,
each call after its caller's line with its counters, each once, and the summary equal to the column
sums. -/
theorem callgrind_roundtrip (d : ProfilerData) :
    decodeCallgrind (callgrindText (convertToGroupedData d)) =
        some ⟨some (columnSum (expectedBlocks (convertToGroupedData d))),
          expectedBlocks (convertToGroupedData d)⟩ ∧
      ∀ f F, (convertToGroupedData d).functions.find? f = some F →
        (F.instructions.flatMap fun gi => F.calls.filter (·.callerAddress = gi.address)) =
          F.calls := by
  have hP := groupFunctions_partitions d.instructionCosts
  refine ⟨?_, fun f F hF => ?_⟩
  · rw [decodeCallgrind_callgrindText, ← summaryColumns_eq_columnSum]
    intro p hp
    rw [convertToGroupedData_functions] at hp
    exact hP.totals p.1 p.2 ((AddrMap.find?_eq_some_iff _).mpr hp)
  · rw [convertToGroupedData_functions] at hF
    exact (List.flatMap_congr fun gi hgi => filter_calls_of_member hF hgi).trans
      (calls_of_find?_groupFunctions hF).symm

end SqluxProfiler
