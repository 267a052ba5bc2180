import Mathlib.Tactic.Common

/-!
# Ordered maps

`BTreeMap` is modelled by the extensional tree map of the standard library. Pairs are
ordered lexicographically, as `Ord` is derived for tuples.
-/

namespace OpenaiRs.Rust

/-- The lexicographic order on pairs. -/
def lexOrder (a b : Nat × Nat) : Ordering := compareLex (compareOn Prod.fst) (compareOn Prod.snd) a b

theorem lexOrder_lt_iff (a b : Nat × Nat) :
    lexOrder a b = .lt ↔ a.1 < b.1 ∨ (a.1 = b.1 ∧ a.2 < b.2) := by
  rw [lexOrder, compareLex, Ordering.then_eq_lt]
  simp only [compareOn, Nat.compare_eq_lt, Nat.compare_eq_eq]

instance : Std.TransCmp lexOrder :=
  inferInstanceAs (Std.TransCmp (compareLex (compareOn Prod.fst) (compareOn Prod.snd)))

instance : Std.LawfulEqCmp lexOrder where
  eq_of_compare {a b} h := by
    rw [lexOrder, compareLex_eq_eq] at h
    simp only [compareOn, Nat.compare_eq_eq] at h
    exact Prod.ext h.1 h.2

section Maps

variable {κ β : Type} {cmp : κ → κ → Ordering} [Std.TransCmp cmp] [Std.LawfulEqCmp cmp]

/-- The values of a map in the order of their keys. -/
def values (m : Std.ExtTreeMap κ β cmp) : List β := m.toList.map Prod.snd

/-- Looking up a key after an insertion. -/
theorem getElem?_insert_eq [DecidableEq κ] (m : Std.ExtTreeMap κ β cmp) (key other : κ) (value : β) :
    (m.insert key value)[other]? = if key = other then some value else m[other]? := by
  rw [Std.ExtTreeMap.getElem?_insert]
  by_cases heq : key = other
  · rw [if_pos heq, heq, if_pos Std.ReflCmp.compare_self]
  · rw [if_neg heq, if_neg (fun h => heq (Std.LawfulEqCmp.eq_of_compare h))]

/-- What is found after a sequence of insertions is what was inserted last under the key. -/
theorem getElem?_foldl_insert [DecidableEq κ] (entries : List (κ × β)) (m : Std.ExtTreeMap κ β cmp) (key : κ) :
    (entries.foldl (fun m entry => m.insert entry.1 entry.2) m)[key]? =
      ((entries.reverse.find? (·.1 = key)).map Prod.snd).or m[key]? := by
  induction entries generalizing m with
  | nil => rfl
  | cons entry rest ih =>
      rw [List.foldl_cons, ih, getElem?_insert_eq, List.reverse_cons, List.find?_append]
      cases rest.reverse.find? (·.1 = key) with
      | some found => rfl
      | none =>
          by_cases heq : entry.1 = key
          · simp [heq]
          · simp [heq]

/-- The members of a set after a sequence of insertions. -/
theorem mem_foldl_insert {items : List κ} {s : Std.ExtTreeSet κ cmp} {item : κ} :
    item ∈ items.foldl (fun s item => s.insert item) s ↔ item ∈ items ∨ item ∈ s := by
  induction items generalizing s with
  | nil => simp
  | cons first rest ih =>
      rw [List.foldl_cons, ih, Std.ExtTreeSet.mem_insert, Std.LawfulEqCmp.compare_eq_iff_eq, List.mem_cons, eq_comm]
      tauto

/-- The values are those of the keys, in the order of the keys. -/
theorem values_eq_keys (m : Std.ExtTreeMap κ β cmp) {γ : Type} (f : β → γ) (missing : γ) :
    (values m).map f = m.keys.map fun key => (m[key]?.map f).getD missing := by
  rw [values, ← Std.ExtTreeMap.map_fst_toList_eq_keys, List.map_map, List.map_map]
  apply List.map_congr_left
  rintro ⟨key, value⟩ hmem
  rw [Std.ExtTreeMap.mem_toList_iff_getElem?_eq_some] at hmem
  simp [hmem]

end Maps

section Entries

variable {κ σ α : Type} {cmp : κ → κ → Ordering} [Std.TransCmp cmp] [Std.LawfulEqCmp cmp]
variable (key : α → κ) (observe : σ → α → σ) (start : σ)

/-- `entry(key).or_default()` followed by an update of the entry. -/
def foldEntry (m : Std.ExtTreeMap κ σ cmp) (x : α) : Std.ExtTreeMap κ σ cmp :=
  m.insert (key x) (observe (m[key x]?.getD start) x)

/-- Fold deltas into the entries they are addressed to, in order. -/
def foldEntries (m : Std.ExtTreeMap κ σ cmp) (deltas : List α) : Std.ExtTreeMap κ σ cmp :=
  deltas.foldl (foldEntry key observe start) m

variable [DecidableEq κ] {key observe start}

/-- An entry sees the deltas that are addressed to it, in order, and no others. -/
theorem getElem?_foldEntries (m : Std.ExtTreeMap κ σ cmp) (deltas : List α) (k : κ) :
    (foldEntries key observe start m deltas)[k]? =
      (deltas.filter (key · = k)).foldl (fun state x => some (observe (state.getD start) x)) m[k]? := by
  induction deltas generalizing m with
  | nil => rfl
  | cons x rest ih =>
      rw [foldEntries, List.foldl_cons]
      change (foldEntries key observe start (foldEntry key observe start m x) rest)[k]? = _
      rw [ih, foldEntry, getElem?_insert_eq]
      by_cases hkey : key x = k
      · rw [List.filter_cons_of_pos (by simpa using hkey), List.foldl_cons, if_pos hkey, hkey]
      · rw [List.filter_cons_of_neg (by simpa using hkey), if_neg hkey]

/-- Folding into an entry that may be missing. -/
theorem foldl_some (state : Option σ) (deltas : List α) :
    deltas.foldl (fun state x => some (observe (state.getD start) x)) state =
      if deltas = [] then state else some (deltas.foldl observe (state.getD start)) := by
  have hsome : ∀ (rest : List α) (state : σ),
      rest.foldl (fun state x => some (observe (state.getD start) x)) (some state) =
        some (rest.foldl observe state) := by
    intro rest
    induction rest with
    | nil => exact fun _ => rfl
    | cons x rest ih => exact fun state => ih (observe state x)
  cases deltas with
  | nil => rfl
  | cons x rest =>
      rw [if_neg (by simp)]
      exact hsome rest (observe (state.getD start) x)

/-- The keys are those that were there and those of the deltas. -/
theorem mem_foldEntries {m : Std.ExtTreeMap κ σ cmp} {deltas : List α} {k : κ} :
    k ∈ foldEntries key observe start m deltas ↔ k ∈ m ∨ ∃ x ∈ deltas, key x = k := by
  rw [Std.ExtTreeMap.mem_iff_isSome_getElem?, Std.ExtTreeMap.mem_iff_isSome_getElem?,
    getElem?_foldEntries, foldl_some]
  split
  · rename_i hnil
    rw [List.filter_eq_nil_iff] at hnil
    simp only [decide_eq_true_eq] at hnil
    constructor
    · exact Or.inl
    · rintro (hmem | ⟨x, hx, hkey⟩)
      · exact hmem
      · exact absurd hkey (hnil x hx)
  · rename_i hne
    rw [List.filter_eq_nil_iff] at hne
    simp only [decide_eq_true_eq, not_forall, not_not] at hne
    obtain ⟨x, hmem, hkey⟩ := hne
    exact ⟨fun _ => .inr ⟨x, hmem, hkey⟩, fun _ => rfl⟩

/-- The fold only depends on the deltas of every single entry. -/
theorem foldEntries_congr {m : Std.ExtTreeMap κ σ cmp} {deltas deltas' : List α}
    (h : ∀ k, deltas.filter (key · = k) = deltas'.filter (key · = k)) :
    foldEntries key observe start m deltas = foldEntries key observe start m deltas' := by
  apply Std.ExtTreeMap.ext_getElem?
  intro k
  rw [getElem?_foldEntries, getElem?_foldEntries, h]

/-- Swapping adjacent deltas of different entries keeps the deltas of every entry. -/
theorem filter_swap {before after : List α} {x y : α} (hne : key x ≠ key y) (k : κ) :
    (before ++ x :: y :: after).filter (key · = k) = (before ++ y :: x :: after).filter (key · = k) := by
  rw [List.filter_append, List.filter_append]
  congr 1
  by_cases hx : key x = k
  · have hy : ¬ key y = k := fun hy => hne (hx.trans hy.symm)
    simp [hx, hy]
  · simp [hx, List.filter_cons]

end Entries

end OpenaiRs.Rust
