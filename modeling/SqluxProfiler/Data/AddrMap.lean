import Mathlib.Algebra.BigOperators.Group.List
import Mathlib.Data.List.Sort

namespace SqluxProfiler

/-- A `std::map` keyed by addresses: its bindings in ascending key order. -/
structure AddrMap (α : Type) where
  entries : List (Nat × α)
  sorted : entries.Pairwise (fun a b => a.1 < b.1)
  deriving DecidableEq

namespace AddrMap

variable {α : Type}

def empty : AddrMap α := ⟨[], List.Pairwise.nil⟩

def keys (m : AddrMap α) : List Nat := m.entries.map Prod.fst

def findList (k : Nat) : List (Nat × α) → Option α
  | [] => none
  | (j, v) :: rest => if j = k then some v else findList k rest

/-- `map.find(k)`. -/
def find? (m : AddrMap α) (k : Nat) : Option α := findList k m.entries

/-- `map[k]` followed by an update; a missing key is first bound to `d`. -/
def alterList (k : Nat) (d : α) (f : α → α) : List (Nat × α) → List (Nat × α)
  | [] => [(k, f d)]
  | (j, v) :: rest =>
      if k < j then (k, f d) :: (j, v) :: rest
      else if k = j then (j, f v) :: rest
      else (j, v) :: alterList k d f rest

theorem mem_alterList_fst {k : Nat} {d : α} {f : α → α} :
    ∀ {l : List (Nat × α)} {p : Nat × α}, p ∈ alterList k d f l → p.1 = k ∨ ∃ v, (p.1, v) ∈ l
  | [], p, h => .inl (by simp only [alterList, List.mem_singleton] at h; simp [h])
  | (j, v) :: rest, p, h => by
    simp only [alterList] at h
    split_ifs at h with h1 h2
    · rcases List.mem_cons.mp h with rfl | h
      · exact .inl rfl
      · exact .inr ⟨p.2, h⟩
    · rcases List.mem_cons.mp h with rfl | h
      · exact .inr ⟨v, by simp [h2]⟩
      · exact .inr ⟨p.2, List.mem_cons_of_mem _ h⟩
    · rcases List.mem_cons.mp h with rfl | h
      · exact .inr ⟨v, List.mem_cons_self _ _⟩
      · rcases mem_alterList_fst h with h | ⟨w, hw⟩
        · exact .inl h
        · exact .inr ⟨w, List.mem_cons_of_mem _ hw⟩

theorem alterList_sorted {k : Nat} {d : α} {f : α → α} :
    ∀ {l : List (Nat × α)}, l.Pairwise (fun a b => a.1 < b.1) →
      (alterList k d f l).Pairwise (fun a b => a.1 < b.1)
  | [], _ => List.pairwise_singleton _ _
  | (j, v) :: rest, h => by
    have hj : ∀ b ∈ rest, j < b.1 := fun b hb => List.rel_of_pairwise_cons h hb
    have hr := h.of_cons
    simp only [alterList]
    split_ifs with h1 h2
    · exact List.Pairwise.cons (fun b hb => by
        rcases List.mem_cons.mp hb with rfl | hb
        · exact h1
        · exact Nat.lt_trans h1 (hj b hb)) h
    · exact List.Pairwise.cons (fun b hb => hj b hb) hr
    · refine List.Pairwise.cons (fun b hb => ?_) (alterList_sorted hr)
      rcases mem_alterList_fst hb with hb | ⟨w, hw⟩
      · omega
      · exact hj (b.1, w) hw

def alter (m : AddrMap α) (k : Nat) (d : α) (f : α → α) : AddrMap α :=
  ⟨alterList k d f m.entries, alterList_sorted m.sorted⟩

def sum {β : Type} [AddCommMonoid β] (g : α → β) (m : AddrMap α) : β :=
  (m.entries.map fun p => g p.2).sum

section Lemmas

variable {β : Type} [AddCommMonoid β]

theorem findList_of_lt {k : Nat} :
    ∀ {l : List (Nat × α)}, (∀ p ∈ l, k < p.1) → findList k l = none
  | [], _ => rfl
  | (j, v) :: rest, h => by
    have hj : k < j := h (j, v) (List.mem_cons_self _ _)
    rw [findList, if_neg (by omega), findList_of_lt fun p hp => h p (List.mem_cons_of_mem _ hp)]

theorem findList_alterList (k k' : Nat) (d : α) (f : α → α) :
    ∀ {l : List (Nat × α)}, l.Pairwise (fun a b => a.1 < b.1) → findList k' (alterList k d f l) =
      if k' = k then some (f ((findList k l).getD d)) else findList k' l
  | [], _ => by
    by_cases h : k' = k
    · simp [alterList, findList, h]
    · simp [alterList, findList, h, Ne.symm h]
  | (j, v) :: rest, hs => by
    have hj : ∀ p ∈ rest, j < p.1 := fun p hp => List.rel_of_pairwise_cons hs hp
    simp only [alterList]
    by_cases h1 : k < j
    · have hk : findList k ((j, v) :: rest) = none :=
        findList_of_lt (List.forall_mem_cons.mpr ⟨h1, fun p hp => Nat.lt_trans h1 (hj p hp)⟩)
      by_cases h : k' = k
      · rw [if_pos h1, if_pos h, hk]
        simp [findList, h]
      · simp [findList, h1, h, Ne.symm h]
    by_cases h2 : k = j
    · subst h2
      by_cases h : k' = k
      · simp [findList, h]
      · simp [findList, h, Ne.symm h]
    · rw [if_neg h1, if_neg h2, findList, findList_alterList k k' d f hs.of_cons]
      by_cases h : k' = k
      · simp [findList, h, h2, Ne.symm h2]
      · simp [findList, h]

@[simp] theorem find?_alter (m : AddrMap α) (k k' : Nat) (d : α) (f : α → α) :
    (m.alter k d f).find? k' = if k' = k then some (f ((m.find? k).getD d)) else m.find? k' :=
  findList_alterList k k' d f m.sorted

theorem sum_alterList (g : α → β) (k : Nat) (d : α) (f : α → α) (δ : β)
    (hf : ∀ v, g (f v) = g v + δ) (hd : g d = 0) :
    ∀ l : List (Nat × α),
      ((alterList k d f l).map fun p => g p.2).sum = (l.map fun p => g p.2).sum + δ
  | [] => by simp [alterList, hf, hd]
  | (j, v) :: rest => by
    simp only [alterList]
    split_ifs
    · simp [hf, hd, add_comm]
    · simp [hf, add_right_comm]
    · simp [sum_alterList g k d f δ hf hd rest, add_assoc]

theorem sum_alter (m : AddrMap α) (g : α → β) (k : Nat) (d : α) (f : α → α) (δ : β)
    (hf : ∀ v, g (f v) = g v + δ) (hd : g d = 0) :
    (m.alter k d f).sum g = m.sum g + δ :=
  sum_alterList g k d f δ hf hd m.entries

theorem sum_alter_of_eq (m : AddrMap α) (g : α → β) (k : Nat) (d : α) (f : α → α)
    (hf : ∀ v, g (f v) = g v) (hd : g d = 0) : (m.alter k d f).sum g = m.sum g := by
  simpa using sum_alter m g k d f 0 (by simpa using hf) hd

@[simp] theorem find?_empty (k : Nat) : (empty : AddrMap α).find? k = none := rfl

theorem findList_eq_some_iff {k : Nat} {v : α} :
    ∀ {l : List (Nat × α)}, l.Pairwise (fun a b => a.1 < b.1) →
      (findList k l = some v ↔ (k, v) ∈ l)
  | [], _ => by simp [findList]
  | (j, w) :: rest, hs => by
    have hj : ∀ p ∈ rest, j < p.1 := fun p hp => List.rel_of_pairwise_cons hs hp
    rw [findList, List.mem_cons]
    by_cases h : j = k
    · subst h
      have hn : (j, v) ∉ rest := fun h => absurd (hj _ h) (lt_irrefl _)
      simp [hn, eq_comm]
    · simp [h, Ne.symm h, findList_eq_some_iff hs.of_cons]

theorem find?_eq_some_iff (m : AddrMap α) {k : Nat} {v : α} :
    m.find? k = some v ↔ (k, v) ∈ m.entries :=
  findList_eq_some_iff m.sorted

theorem mem_keys_iff (m : AddrMap α) {k : Nat} : k ∈ m.keys ↔ ∃ v, m.find? k = some v := by
  simp [keys, find?_eq_some_iff]

theorem mem_keys_alter (m : AddrMap α) (k : Nat) (d : α) (f : α → α) {k' : Nat} :
    k' ∈ (m.alter k d f).keys ↔ k' = k ∨ k' ∈ m.keys := by
  rw [mem_keys_iff, mem_keys_iff, find?_alter]
  by_cases h : k' = k <;> simp [h]

theorem alterList_of_lt {k : Nat} {d : α} {f : α → α} :
    ∀ {l : List (Nat × α)}, (∀ p ∈ l, p.1 < k) → alterList k d f l = l ++ [(k, f d)]
  | [], _ => rfl
  | (j, v) :: rest, h => by
    have hj : j < k := h (j, v) (List.mem_cons_self _ _)
    rw [alterList, if_neg (by omega), if_neg (by omega),
      alterList_of_lt fun p hp => h p (List.mem_cons_of_mem _ hp), List.cons_append]

theorem keys_alterList_of_mem {k : Nat} {d : α} {f : α → α} :
    ∀ {l : List (Nat × α)}, l.Pairwise (fun a b => a.1 < b.1) → k ∈ l.map Prod.fst →
      (alterList k d f l).map Prod.fst = l.map Prod.fst
  | [], _, h => absurd h (List.not_mem_nil _)
  | (j, v) :: rest, hs, h => by
    have hj : ∀ b ∈ rest, j < b.1 := fun b hb => List.rel_of_pairwise_cons hs hb
    simp only [List.map_cons, List.mem_cons, List.mem_map] at h
    simp only [alterList]
    split_ifs with h1 h2
    · rcases h with rfl | ⟨b, hb, rfl⟩
      · exact absurd h1 (lt_irrefl _)
      · exact absurd (hj b hb) (lt_asymm h1)
    · simp [h2]
    · rcases h with rfl | ⟨b, hb, rfl⟩
      · exact absurd rfl h2
      · rw [List.map_cons, List.map_cons, keys_alterList_of_mem hs.of_cons (List.mem_map_of_mem _ hb)]

theorem keys_alter_of_mem (m : AddrMap α) {k : Nat} (d : α) (f : α → α) (h : k ∈ m.keys) :
    (m.alter k d f).keys = m.keys :=
  keys_alterList_of_mem m.sorted h

theorem foldl_alter_entries {β : Type} (d : α) (key : β → Nat) (val : β → α) :
    ∀ (l : List β), l.Pairwise (fun a b => key a < key b) →
      (l.foldl (fun m p => m.alter (key p) d fun _ => val p) empty).entries =
        l.map fun p => (key p, val p) := by
  intro l
  induction l using List.reverseRecOn with
  | nil => intro _; rfl
  | append_singleton l p ih =>
    intro hs
    have hl := (List.pairwise_append.mp hs).1
    have hp : ∀ q ∈ l, key q < key p := fun q hq =>
      (List.pairwise_append.mp hs).2.2 q hq p (List.mem_singleton_self _)
    rw [List.foldl_append, List.foldl_cons, List.foldl_nil]
    change alterList _ _ _ _ = _
    rw [ih hl, alterList_of_lt (fun q hq => by
      obtain ⟨q', hq', rfl⟩ := List.mem_map.mp hq
      exact hp q' hq'), List.map_append, List.map_singleton]

theorem find?_foldl_append {β : Type} (key : β → Nat) (k : Nat) :
    ∀ (l : List β) (m : AddrMap (List β)),
      (l.foldl (fun m p => m.alter (key p) [] (· ++ [p])) m).find? k =
        if (l.filter (key · = k)).isEmpty then m.find? k
        else some ((m.find? k).getD [] ++ l.filter (key · = k))
  | [], m => by simp
  | p :: l, m => by
    rw [List.foldl_cons, find?_foldl_append key k l, find?_alter, List.filter_cons]
    by_cases hp : key p = k
    · subst hp
      cases h : (l.filter (key · = key p)).isEmpty
      · simp [h]
      · simp [List.isEmpty_iff.mp h]
    · simp [hp, Ne.symm hp]

theorem sum_foldl_append {β γ : Type} [AddCommMonoid γ] (key : β → Nat) (g : β → γ) :
    ∀ (l : List β) (m : AddrMap (List β)),
      (l.foldl (fun m p => m.alter (key p) [] (· ++ [p])) m).sum (fun L => (L.map g).sum) =
        m.sum (fun L => (L.map g).sum) + (l.map g).sum
  | [], m => by simp
  | p :: l, m => by
    rw [List.foldl_cons, sum_foldl_append key g l,
      sum_alter m (fun L => (L.map g).sum) (key p) [] (· ++ [p]) (g p) (by simp) rfl,
      List.map_cons, List.sum_cons, add_assoc]

end Lemmas

end AddrMap

end SqluxProfiler
