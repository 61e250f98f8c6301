import Mathlib.Data.List.Basic
import Mathlib.Data.Nat.Digits

namespace SqluxProfiler

/-- The value of a lowercase hexadecimal digit. -/
def digitValue (c : Char) : Option Nat :=
  if '0' ≤ c ∧ c ≤ '9' then some (c.toNat - '0'.toNat)
  else if 'a' ≤ c ∧ c ≤ 'f' then some (c.toNat - 'a'.toNat + 10)
  else none

def readDigits (base acc : Nat) : List Char → Option Nat
  | [] => some acc
  | c :: cs =>
    match digitValue c with
    | some d => if d < base then readDigits base (acc * base + d) cs else none
    | none => none

def readNumeral (base : Nat) (cs : List Char) : Option Nat :=
  if cs = [] then none else readDigits base 0 cs

/-- What `"0x" << std::hex << n` prints. -/
def hexText (n : Nat) : List Char := '0' :: 'x' :: Nat.toDigits 16 n

def readHex : List Char → Option Nat
  | '0' :: 'x' :: cs => readNumeral 16 cs
  | _ => none

def fieldChars : List Char :=
  ['0', '1', '2', '3', '4', '5', '6', '7', '8', '9', 'a', 'b', 'c', 'd', 'e', 'f', 'x', '+', '-',
    '*']

theorem digitValue_digitChar {d : Nat} (h : d < 16) : digitValue (Nat.digitChar d) = some d := by
  have : ∀ d < 16, digitValue (Nat.digitChar d) = some d := by decide
  exact this d h

theorem digitChar_mem_fieldChars {d : Nat} (h : d < 16) : Nat.digitChar d ∈ fieldChars := by
  have : ∀ d < 16, Nat.digitChar d ∈ fieldChars := by decide
  exact this d h

section Numerals

variable {base : Nat} (h2 : 2 ≤ base) (h16 : base ≤ 16)
include h2 h16

theorem readDigits_toDigitsCore :
    ∀ fuel n ds, n < fuel →
      readDigits base 0 (Nat.toDigitsCore base fuel n ds) = readDigits base n ds
  | 0, _, _, h => absurd h (Nat.not_lt_zero _)
  | fuel + 1, n, ds, h => by
    have hm : n % base < base := Nat.mod_lt _ (by omega)
    have hd : ∀ acc, readDigits base acc (Nat.digitChar (n % base) :: ds) =
        readDigits base (acc * base + n % base) ds := fun acc => by
      simp only [readDigits, digitValue_digitChar (show n % base < 16 by omega), if_pos hm]
    dsimp only [Nat.toDigitsCore]
    split
    · rename_i h0
      rw [hd, Nat.zero_mul, Nat.zero_add, Nat.mod_eq_of_lt ((Nat.div_eq_zero_iff (by omega)).mp h0)]
    · rename_i h0
      have hlt : n / base < fuel := by
        have hn : 0 < n := Nat.pos_of_ne_zero fun h => h0 (by simp [h])
        have := Nat.div_lt_self hn (by omega : 1 < base)
        omega
      rw [readDigits_toDigitsCore fuel (n / base) _ hlt, hd, Nat.div_add_mod']

theorem readNumeral_toDigits (n : Nat) : readNumeral base (Nat.toDigits base n) = some n := by
  have h : readDigits base 0 (Nat.toDigits base n) = some n :=
    readDigits_toDigitsCore h2 h16 (n + 1) n [] (Nat.lt_succ_self n)
  unfold readNumeral
  split
  · rename_i he
    rw [he] at h
    obtain rfl : n = 0 := by simpa [readDigits] using h.symm
    simp [Nat.toDigits, Nat.toDigitsCore] at he
  · exact h

theorem mem_toDigitsCore {c : Char} :
    ∀ fuel n ds, c ∈ Nat.toDigitsCore base fuel n ds → c ∈ ds ∨ c ∈ fieldChars
  | 0, _, _, h => .inl h
  | fuel + 1, n, ds, h => by
    have hd : Nat.digitChar (n % base) ∈ fieldChars :=
      digitChar_mem_fieldChars (by have := Nat.mod_lt n (by omega : 0 < base); omega)
    dsimp only [Nat.toDigitsCore] at h
    split at h
    · rcases List.mem_cons.mp h with rfl | h
      · exact .inr hd
      · exact .inl h
    · rcases mem_toDigitsCore fuel _ _ h with h | h
      · rcases List.mem_cons.mp h with rfl | h
        · exact .inr hd
        · exact .inl h
      · exact .inr h

theorem mem_toDigits {c : Char} (n : Nat) (h : c ∈ Nat.toDigits base n) : c ∈ fieldChars :=
  (mem_toDigitsCore h2 h16 _ _ _ h).resolve_left (List.not_mem_nil _)

end Numerals

@[simp] theorem readNumeral_decimal (n : Nat) : readNumeral 10 (Nat.toDigits 10 n) = some n :=
  readNumeral_toDigits (by decide) (by decide) n

@[simp] theorem readHex_hexText (n : Nat) : readHex (hexText n) = some n :=
  readNumeral_toDigits (by decide) (by decide) n

theorem mem_decimal {c : Char} {n : Nat} (h : c ∈ Nat.toDigits 10 n) : c ∈ fieldChars :=
  mem_toDigits (by decide) (by decide) n h

theorem mem_hexText {c : Char} {n : Nat} (h : c ∈ hexText n) : c ∈ fieldChars := by
  rcases List.mem_cons.mp h with rfl | h
  · decide
  rcases List.mem_cons.mp h with rfl | h
  · decide
  exact mem_toDigits (by decide) (by decide) n h

inductive Position
  | absolute (address : Nat)
  | plus (n : Nat)
  | minus (n : Nat)
  | same
  deriving DecidableEq, Repr

/-- The four numbers of a cost line, in the order of `events:`. -/
structure Columns where
  cycles : Nat
  instructions : Nat
  dataReads : Nat
  dataWrites : Nat
  deriving DecidableEq, Repr

/-- A line as a reader of the format classifies it. -/
inductive Record
  | fn (address : Nat)
  | cfn (address : Nat)
  | calls (count target : Nat)
  | cost (position : Position) (columns : Columns)
  | summary (columns : Columns)
  | other
  deriving DecidableEq, Repr

def Position.render : Position → List Char
  | .absolute a => hexText a
  | .plus n => '+' :: Nat.toDigits 10 n
  | .minus n => '-' :: Nat.toDigits 10 n
  | .same => ['*']

def Columns.fields (c : Columns) : List (List Char) :=
  [Nat.toDigits 10 c.cycles, Nat.toDigits 10 c.instructions, Nat.toDigits 10 c.dataReads,
    Nat.toDigits 10 c.dataWrites]

/-- A line the serializer writes: fixed text, or a line of a classified form. -/
inductive Line
  | text (s : List Char)
  | record (r : Record)

/-- The characters `out <<` writes for a line, without its newline. -/
def Record.render : Record → List Char
  | .fn a => ['f', 'n', '='] ++ hexText a
  | .cfn a => ['c', 'f', 'n', '='] ++ hexText a
  | .calls n t => ['c', 'a', 'l', 'l', 's', '='] ++ Nat.toDigits 10 n ++ ' ' :: hexText t
  | .cost p c => [' '].intercalate (p.render :: c.fields)
  | .summary c => ['s', 'u', 'm', 'm', 'a', 'r', 'y', ':', ' '] ++ [' '].intercalate c.fields
  | .other => []

def Line.render : Line → List Char
  | .text s => s
  | .record r => r.render

def readPosition : List Char → Option Position
  | '0' :: 'x' :: cs => (readNumeral 16 cs).map .absolute
  | '+' :: cs => (readNumeral 10 cs).map .plus
  | '-' :: cs => (readNumeral 10 cs).map .minus
  | ['*'] => some .same
  | _ => none

def readColumns : List (List Char) → Option Columns
  | [a, b, c, d] => do
    return ⟨← readNumeral 10 a, ← readNumeral 10 b, ← readNumeral 10 c, ← readNumeral 10 d⟩
  | _ => none

def parseCostLine (l : List Char) : Option Record :=
  match l.splitOn ' ' with
  | p :: cs => do return .cost (← readPosition p) (← readColumns cs)
  | [] => none

def parseCallsLine (r : List Char) : Option Record :=
  match r.splitOn ' ' with
  | [n, t] => do return .calls (← readNumeral 10 n) (← readHex t)
  | _ => none

def parseOtherLine (l : List Char) : Option Record :=
  if ':' ∈ l then some .other else parseCostLine l

/-- Classifies one line of a Callgrind file; a header or a comment carries no cost. -/
def parseLine : List Char → Option Record
  | [] => some .other
  | '#' :: _ => some .other
  | 'f' :: 'n' :: '=' :: r => (readHex r).map .fn
  | 'c' :: 'f' :: 'n' :: '=' :: r => (readHex r).map .cfn
  | 'c' :: 'a' :: 'l' :: 'l' :: 's' :: '=' :: r => parseCallsLine r
  | 's' :: 'u' :: 'm' :: 'm' :: 'a' :: 'r' :: 'y' :: ':' :: ' ' :: r =>
    (readColumns (r.splitOn ' ')).map .summary
  | l => parseOtherLine l

def Line.toRecord : Line → Record
  | .text _ => .other
  | .record r => r

theorem mem_position_render {c : Char} {p : Position} (h : c ∈ p.render) : c ∈ fieldChars := by
  cases p with
  | absolute a => exact mem_hexText h
  | plus n =>
    rcases List.mem_cons.mp h with rfl | h
    · decide
    · exact mem_decimal h
  | minus n =>
    rcases List.mem_cons.mp h with rfl | h
    · decide
    · exact mem_decimal h
  | same => rcases List.mem_singleton.mp h with rfl; decide

theorem mem_fields {c : Char} {cols : Columns} {f : List Char} (hf : f ∈ cols.fields)
    (h : c ∈ f) : c ∈ fieldChars := by
  simp only [Columns.fields, List.mem_cons, List.mem_singleton, List.not_mem_nil, or_false] at hf
  rcases hf with rfl | rfl | rfl | rfl <;> exact mem_decimal h

theorem readPosition_render (p : Position) : readPosition p.render = some p := by
  cases p with
  | absolute a => exact congrArg (Option.map _) (readHex_hexText a)
  | plus n => simp [Position.render, readPosition]
  | minus n => simp [Position.render, readPosition]
  | same => rfl

theorem readColumns_fields (c : Columns) : readColumns c.fields = some c := by
  simp [Columns.fields, readColumns]

theorem splitOn_fields {l : List (List Char)} (h : ∀ f ∈ l, ∀ c ∈ f, c ∈ fieldChars)
    (hne : l ≠ []) : ([' '].intercalate l).splitOn ' ' = l :=
  List.splitOn_intercalate l ' ' (fun f hf hs => absurd (h f hf ' ' hs) (by decide)) hne

theorem parseCostLine_render (p : Position) (c : Columns) :
    parseCostLine (Record.cost p c).render = some (.cost p c) := by
  have hf : ∀ f ∈ p.render :: c.fields, ∀ x ∈ f, x ∈ fieldChars := fun f hf x hx => by
    rcases List.mem_cons.mp hf with rfl | hf
    · exact mem_position_render hx
    · exact mem_fields hf hx
  rw [Record.render, parseCostLine, splitOn_fields hf (List.cons_ne_nil _ _)]
  simp [readPosition_render, readColumns_fields]

theorem mem_intercalate_space {c : Char} :
    ∀ {L : List (List Char)}, c ∈ [' '].intercalate L → c = ' ' ∨ ∃ f ∈ L, c ∈ f
  | [], h => by simp [List.intercalate] at h
  | [a], h => .inr ⟨a, List.mem_singleton_self _, by simpa [List.intercalate] using h⟩
  | a :: b :: L, h => by
    have e : [' '].intercalate (a :: b :: L) = a ++ ' ' :: [' '].intercalate (b :: L) := by
      simp [List.intercalate]
    rw [e, List.mem_append, List.mem_cons] at h
    rcases h with h | h | h
    · exact .inr ⟨a, List.mem_cons_self _ _, h⟩
    · exact .inl h
    · exact (mem_intercalate_space h).imp_right fun ⟨f, hf, hc⟩ =>
        ⟨f, List.mem_cons_of_mem _ hf, hc⟩

theorem mem_cost_render {c : Char} {p : Position} {cols : Columns}
    (h : c ∈ (Record.cost p cols).render) : c = ' ' ∨ c ∈ fieldChars :=
  (mem_intercalate_space h).imp_right fun ⟨f, hf, hc⟩ => by
    rcases List.mem_cons.mp hf with rfl | hf
    · exact mem_position_render hc
    · exact mem_fields hf hc

theorem position_render_head (p : Position) :
    ∃ x r, p.render = x :: r ∧ x ∈ ['0', '+', '-', '*'] := by
  cases p <;> exact ⟨_, _, rfl, by decide⟩

theorem parseLine_of_head {x : Char} (r : List Char) (hx : x ∈ ['0', '+', '-', '*']) :
    parseLine (x :: r) = parseOtherLine (x :: r) := by
  simp only [List.mem_cons, List.mem_singleton, List.not_mem_nil, or_false] at hx
  rcases hx with rfl | rfl | rfl | rfl <;> rfl

/-- Every line the serializer can print reads back as itself. -/
theorem parseLine_render (r : Record) : parseLine r.render = some r := by
  cases r with
  | fn a =>
    show (readHex (hexText a)).map Record.fn = _
    rw [readHex_hexText]; rfl
  | cfn a =>
    show (readHex (hexText a)).map Record.cfn = _
    rw [readHex_hexText]; rfl
  | calls n t =>
    have h := splitOn_fields (l := [Nat.toDigits 10 n, hexText t]) (fun f hf c hc => by
      simp only [List.mem_cons, List.mem_singleton, List.not_mem_nil, or_false] at hf
      rcases hf with rfl | rfl
      · exact mem_decimal hc
      · exact mem_hexText hc) (List.cons_ne_nil _ _)
    simp only [List.intercalate, List.intersperse_cons₂, List.intersperse_single,
      List.flatten_cons, List.flatten_nil, List.append_nil, List.singleton_append] at h
    show parseCallsLine (Nat.toDigits 10 n ++ ' ' :: hexText t) = _
    simp [parseCallsLine, h]
  | cost p c =>
    obtain ⟨x, rest, hp, hx⟩ := position_render_head p
    have e : (Record.cost p c).render = x :: (rest ++ ' ' :: [' '].intercalate c.fields) := by
      simp [Record.render, Columns.fields, List.intercalate, hp]
    have hcolon : ':' ∉ (Record.cost p c).render := fun h =>
      (mem_cost_render h).elim (by decide) (by decide)
    rw [e, parseLine_of_head _ hx, parseOtherLine, if_neg (e ▸ hcolon), ← e,
      parseCostLine_render]
  | summary c =>
    show (readColumns (([' '].intercalate c.fields).splitOn ' ')).map Record.summary = _
    rw [splitOn_fields (fun f hf x hx => mem_fields hf hx) (List.cons_ne_nil _ _),
      readColumns_fields]
    rfl
  | other => rfl

theorem newline_not_mem_render (r : Record) : '\n' ∉ r.render := by
  have hf : '\n' ∉ fieldChars := by decide
  cases r with
  | fn a => simpa [Record.render] using fun h => hf (mem_hexText h)
  | cfn a => simpa [Record.render] using fun h => hf (mem_hexText h)
  | calls n t =>
    simpa [Record.render] using ⟨fun h => hf (mem_decimal h), fun h => hf (mem_hexText h)⟩
  | cost p c => exact fun h => (mem_cost_render h).elim (by decide) hf
  | summary c =>
    simp only [Record.render, List.mem_append]
    rintro (h | h)
    · exact absurd h (by decide)
    · exact (mem_intercalate_space h).elim (by decide) fun ⟨f, hm, hx⟩ => hf (mem_fields hm hx)
  | other => exact List.not_mem_nil _

end SqluxProfiler
