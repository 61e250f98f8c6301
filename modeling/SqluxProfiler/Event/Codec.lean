import Mathlib.Data.BitVec

namespace SqluxProfiler

/-- `Profiler::EventType`, an enum over `uint8_t` with the values 0 to 6. -/
inductive EventType where
  | instrExecute
  | jump
  | call
  | «return»
  | dataRead
  | dataWrite
  | instrRead
  deriving DecidableEq, Repr

def EventType.toNat : EventType → Nat
  | instrExecute => 0x00
  | jump => 0x01
  | call => 0x02
  | «return» => 0x03
  | dataRead => 0x04
  | dataWrite => 0x05
  | instrRead => 0x06

/-- The enumerator a decoded type value names; 7 to 15 name none. -/
def EventType.ofNat? : Nat → Option EventType
  | 0 => some instrExecute
  | 1 => some jump
  | 2 => some call
  | 3 => some «return»
  | 4 => some dataRead
  | 5 => some dataWrite
  | 6 => some instrRead
  | _ => none

@[simp] theorem EventType.ofNat?_toNat (t : EventType) : EventType.ofNat? t.toNat = some t := by
  cases t <;> rfl

theorem EventType.toNat_lt (t : EventType) : t.toNat < 7 := by
  cases t <;> decide

theorem EventType.ofNat?_eq_some {n : Nat} {t : EventType} :
    EventType.ofNat? n = some t ↔ n = t.toNat := by
  constructor
  · intro h
    match n, h with
    | 0, h | 1, h | 2, h | 3, h | 4, h | 5, h | 6, h => cases h; rfl
  · rintro rfl
    exact EventType.ofNat?_toNat t

theorem EventType.ne_toNat_of_ofNat? {n : Nat} (h : EventType.ofNat? n = none) (e : EventType) :
    n ≠ e.toNat := fun he => by
  rw [he, EventType.ofNat?_toNat] at h
  cases h

def getEventType (event : BitVec 32) : Nat := ((event >>> 28) &&& 0xF#32).toNat

def getReturnOffset (event : BitVec 32) : Nat := ((event >>> 24) &&& 0xF#32).toNat

def getEventAddress (event : BitVec 32) : Nat := (event &&& 0x00FFFFFF#32).toNat

/-- `MakeEvent`: the type goes to bits 24 to 27, which `GetReturnOffset` reads. -/
def makeEvent (type : EventType) (address : BitVec 32) : BitVec 32 :=
  (BitVec.ofNat 32 type.toNat <<< 24) ||| (address &&& 0x00FFFFFF#32)

/-- The word a `Profiler_Record*` recorder stores. -/
def recordedWord (tag address : BitVec 32) : BitVec 32 := (address &&& 0xffffff#32) ||| tag

def profilerRecordInstructionExecute (address : BitVec 32) : BitVec 32 :=
  recordedWord 0x00000000#32 address

def profilerRecordJump (address : BitVec 32) : BitVec 32 := recordedWord 0x10000000#32 address

/-- The call recorder also ors in the return offset at bit 24. -/
def profilerRecordCall (address returnOffset : BitVec 32) : BitVec 32 :=
  (address &&& 0xffffff#32) ||| 0x20000000#32 ||| (returnOffset <<< 24)

def profilerRecordReturn (address : BitVec 32) : BitVec 32 := recordedWord 0x30000000#32 address

def profilerRecordDataRead (address : BitVec 32) : BitVec 32 := recordedWord 0x40000000#32 address

def profilerRecordDataWrite (address : BitVec 32) : BitVec 32 := recordedWord 0x50000000#32 address

def profilerRecordInstrRead (address : BitVec 32) : BitVec 32 := recordedWord 0x60000000#32 address

/-- The recorder for an event of kind `type`. -/
def profilerRecord (type : EventType) (address returnOffset : BitVec 32) : BitVec 32 :=
  match type with
  | .instrExecute => profilerRecordInstructionExecute address
  | .jump => profilerRecordJump address
  | .call => profilerRecordCall address returnOffset
  | .«return» => profilerRecordReturn address
  | .dataRead => profilerRecordDataRead address
  | .dataWrite => profilerRecordDataWrite address
  | .instrRead => profilerRecordInstrRead address

private theorem and_fifteen (n : Nat) : n &&& 15 = n % 16 := Nat.and_pow_two_sub_one_eq_mod n 4

private theorem and_mask24 (n : Nat) : n &&& 16777215 = n % 2^24 :=
  Nat.and_pow_two_sub_one_eq_mod n 24

theorem decode_fields (w : BitVec 32) :
    getEventType w = w.toNat / 2^28 % 16 ∧ getReturnOffset w = w.toNat / 2^24 % 16 ∧
      getEventAddress w = w.toNat % 2^24 := by
  simp only [getEventType, getReturnOffset, getEventAddress, BitVec.toNat_and,
    BitVec.toNat_ushiftRight, Nat.shiftRight_eq_div_pow]
  refine ⟨?_, ?_, ?_⟩ <;> simp [and_fifteen, and_mask24]

theorem decode_of_layout {w : BitVec 32} {k x : Nat} (hx : x < 2^24)
    (hw : w.toNat = 2^24 * k + x) :
    getEventType w = k / 16 ∧ getReturnOffset w = k % 16 ∧ getEventAddress w = x := by
  obtain ⟨ht, hr, ha⟩ := decode_fields w
  have hlt := w.isLt
  refine ⟨?_, ?_, ?_⟩ <;> omega

private theorem or_high (x k i : Nat) (hx : x < 2^i) : x ||| 2^i * k = 2^i * k + x := by
  rw [Nat.or_comm, ← Nat.mul_add_lt_is_or hx]

private theorem or_high_add {x i : Nat} (hx : x < 2^i) (k j : Nat) :
    (2^i * k + x) ||| 2^i * j = 2^i * (k ||| j) + x := by
  apply Nat.eq_of_testBit_eq
  intro n
  have hj : 2^i * j = 2^i * j + 0 := rfl
  rw [Nat.testBit_or, hj, Nat.testBit_mul_pow_two_add _ hx,
    Nat.testBit_mul_pow_two_add _ (Nat.two_pow_pos i), Nat.testBit_mul_pow_two_add _ hx]
  split <;> simp

theorem recordedWord_toNat (tag a : BitVec 32) {t : Nat} (ht : tag.toNat = 2^24 * t) :
    (recordedWord tag a).toNat = 2^24 * t + a.toNat % 2^24 := by
  simp only [recordedWord, BitVec.toNat_or, BitVec.toNat_and, BitVec.toNat_ofNat, Nat.reducePow,
    Nat.reduceMod, and_mask24, ht]
  exact or_high _ _ 24 (Nat.mod_lt _ (Nat.two_pow_pos 24))

theorem profilerRecordCall_toNat (a r : BitVec 32) (hr : r.toNat < 16) :
    (profilerRecordCall a r).toNat = 2^24 * (32 + r.toNat) + a.toNat % 2^24 := by
  have ha : a.toNat % 2^24 < 2^24 := Nat.mod_lt _ (Nat.two_pow_pos _)
  simp only [profilerRecordCall, BitVec.toNat_or, BitVec.toNat_and, BitVec.toNat_shiftLeft,
    Nat.shiftLeft_eq, BitVec.toNat_ofNat, Nat.reducePow, Nat.reduceMod, and_mask24]
  rw [show (16777216 : Nat) = 2^24 from rfl, show (536870912 : Nat) = 2^24 * 32 from rfl,
    or_high _ _ _ ha, Nat.mod_eq_of_lt (by omega : r.toNat * 2^24 < 4294967296),
    Nat.mul_comm _ (2^24), or_high_add ha, Nat.or_comm,
    show r.toNat ||| 32 = 32 + r.toNat from or_high _ 1 5 (by omega)]

theorem profilerRecord_toNat (t : EventType) (a r : BitVec 32) (hr : r.toNat < 16) :
    (profilerRecord t a r).toNat =
      2^24 * (16 * t.toNat + if t = .call then r.toNat else 0) + a.toNat % 2^24 := by
  cases t
  case call => simpa using profilerRecordCall_toNat a r hr
  all_goals exact recordedWord_toNat _ a rfl

theorem profilerRecord_decode (t : EventType) (a r : BitVec 32) (hr : r.toNat < 16) :
    getEventType (profilerRecord t a r) = t.toNat ∧
      getReturnOffset (profilerRecord t a r) = (if t = .call then r.toNat else 0) ∧
      getEventAddress (profilerRecord t a r) = a.toNat % 2^24 := by
  have hoff : (if t = .call then r.toNat else 0) < 16 := by split <;> omega
  obtain ⟨ht, ho, ha⟩ :=
    decode_of_layout (Nat.mod_lt _ (Nat.two_pow_pos 24)) (profilerRecord_toNat t a r hr)
  exact ⟨by omega, by omega, ha⟩

/-- Every recorder's word decodes to its kind, its address masked to 24 bits and its return offset.
-/
theorem profilerRecord_roundtrip (t : EventType) (a r : BitVec 32) (hr : r.toNat < 16) :
    EventType.ofNat? (getEventType (profilerRecord t a r)) = some t ∧
      getEventAddress (profilerRecord t a r) = (a &&& 0xFFFFFF#32).toNat ∧
      getReturnOffset (profilerRecord t a r) = (if t = .call then r.toNat else 0) := by
  obtain ⟨ht, ho, ha⟩ := profilerRecord_decode t a r hr
  refine ⟨by rw [ht, EventType.ofNat?_toNat], ?_, ho⟩
  rw [ha, BitVec.toNat_and, BitVec.toNat_ofNat]
  exact (and_mask24 _).symm

theorem profilerRecord_roundtrip_call :
    (3 : BitVec 32).toNat < 16 ∧
      EventType.ofNat? (getEventType (profilerRecord .call 0x1234567#32 3)) = some .call ∧
      getEventAddress (profilerRecord .call 0x1234567#32 3) = (0x1234567#32 &&& 0xFFFFFF#32).toNat ∧
      getReturnOffset (profilerRecord .call 0x1234567#32 3) =
        (if EventType.call = .call then (3 : BitVec 32).toNat else 0) :=
  ⟨by decide, profilerRecord_roundtrip .call 0x1234567#32 3 (by decide)⟩

/-- Every word `MakeEvent` builds reads back as `INSTR_EXECUTE`. -/
theorem makeEvent_decode (t : EventType) (a : BitVec 32) :
    getEventType (makeEvent t a) = 0 ∧ getReturnOffset (makeEvent t a) = t.toNat ∧
      getEventAddress (makeEvent t a) = a.toNat % 2^24 := by
  have hlt := t.toNat_lt
  have hw : (makeEvent t a).toNat = 2^24 * t.toNat + a.toNat % 2^24 := by
    simp only [makeEvent, BitVec.toNat_or, BitVec.toNat_and, BitVec.toNat_shiftLeft,
      Nat.shiftLeft_eq, BitVec.toNat_ofNat, Nat.reducePow, Nat.reduceMod, and_mask24]
    rw [Nat.mod_eq_of_lt (by omega : t.toNat < 4294967296),
      Nat.mod_eq_of_lt (by omega : t.toNat * 16777216 < 4294967296), Nat.or_comm,
      show t.toNat * 16777216 = 2^24 * t.toNat by omega]
    exact or_high _ _ 24 (Nat.mod_lt _ (Nat.two_pow_pos 24))
  obtain ⟨ht, ho, ha⟩ := decode_of_layout (Nat.mod_lt _ (Nat.two_pow_pos 24)) hw
  exact ⟨by omega, by omega, ha⟩

theorem makeEvent_jump_decodes_as_instrExecute :
    EventType.ofNat? (getEventType (makeEvent .jump 0x1000#32)) = some .instrExecute := by
  rw [(makeEvent_decode .jump 0x1000#32).1]
  rfl

end SqluxProfiler
