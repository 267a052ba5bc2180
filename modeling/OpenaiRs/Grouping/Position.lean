import Mathlib.Data.List.Dedup
import Mathlib.Data.List.Perm.Basic

/-!
# Grouping entries by position

Entries come in batches, and each has an index. The first batch with entries opens a group for each of
them. A later entry goes to the group at the position that its index names, and opens a group at the end
when there is none. It is decided here when the groups are those of the indices.
-/

namespace OpenaiRs.Grouping

variable {E F : Type*} (index : E → ℕ)

section Definitions

def place (groups : List (List E)) (entry : E) : List (List E) :=
  match groups[index entry]? with
  | some group => groups.set (index entry) (group ++ [entry])
  | none => groups ++ [[entry]]

def absorb (groups : List (List E)) (batch : List E) : List (List E) :=
  if groups.isEmpty then batch.map fun entry => [entry] else batch.foldl (place index) groups

/-- The groups of all batches. -/
def grouped (batches : List (List E)) : List (List E) := batches.foldl (absorb index) []

/-- The entries of each of some indices, in order. -/
def groupsOver (slots : List ℕ) (entries : List E) : List (List E) :=
  slots.map fun i => entries.filter fun entry => index entry = i

def groupsByIndex (entries : List E) : List (List E) := groupsOver index (entries.map index).dedup entries

/-- Behind groups with the indices `slots`, an index names a position where it stands, or it is new and
names none. -/
def Follows : List ℕ → List ℕ → Prop
  | _, [] => True
  | slots, i :: rest =>
      if i < slots.length then slots[i]? = some i ∧ Follows slots rest
      else i ∉ slots ∧ Follows (slots ++ [i]) rest

/-- The first batch with entries has no index twice, and the later entries follow it. -/
def InStep : List (List ℕ) → Prop
  | [] => True
  | [] :: batches => InStep batches
  | (i :: first) :: batches => (i :: first).Nodup ∧ Follows (i :: first) batches.flatten

instance instDecidableFollows : (slots indices : List ℕ) → Decidable (Follows slots indices)
  | _, [] => isTrue trivial
  | slots, i :: rest =>
      haveI := instDecidableFollows slots rest
      haveI := instDecidableFollows (slots ++ [i]) rest
      inferInstanceAs (Decidable (if i < slots.length then _ else _))

instance instDecidableInStep : (batches : List (List ℕ)) → Decidable (InStep batches)
  | [] => isTrue trivial
  | [] :: batches => instDecidableInStep batches
  | (_ :: _) :: _ => inferInstanceAs (Decidable (_ ∧ _))

end Definitions

section Steps

variable {index} {groups : List (List E)} {entry : E}

theorem place_of_some {group : List E} (h : groups[index entry]? = some group) :
    place index groups entry = groups.set (index entry) (group ++ [entry]) := by
  rw [place, h]

theorem place_of_le (h : groups.length ≤ index entry) :
    place index groups entry = groups ++ [[entry]] := by
  rw [place, List.getElem?_eq_none h]

/-- Entries of another kind with the same indices are grouped in the same way. -/
theorem place_map (f : F → E) (groups : List (List F)) (entry : F) :
    place index (groups.map (List.map f)) (f entry) =
      (place (fun entry => index (f entry)) groups entry).map (List.map f) := by
  cases hgroup : groups[index (f entry)]? with
  | none =>
      rw [place, List.getElem?_map, hgroup, place, hgroup]
      simp only [Option.map_none, List.map_append, List.map_cons, List.map_nil]
  | some group =>
      rw [place, List.getElem?_map, hgroup, place, hgroup]
      simp only [Option.map_some, List.map_set, List.map_append, List.map_cons, List.map_nil]

theorem foldl_place_map (f : F → E) (groups : List (List F)) (batch : List F) :
    (batch.map f).foldl (place index) (groups.map (List.map f)) =
      (batch.foldl (place fun entry => index (f entry)) groups).map (List.map f) := by
  induction batch generalizing groups with
  | nil => rfl
  | cons entry batch ih => rw [List.map_cons, List.foldl_cons, List.foldl_cons, place_map, ih]

theorem absorb_map (f : F → E) (groups : List (List F)) (batch : List F) :
    absorb index (groups.map (List.map f)) (batch.map f) =
      (absorb (fun entry => index (f entry)) groups batch).map (List.map f) := by
  rw [absorb, absorb, List.isEmpty_map]
  split
  · simp only [List.map_map, Function.comp_def, List.map_cons, List.map_nil]
  · exact foldl_place_map f groups batch

theorem grouped_map (f : F → E) (batches : List (List F)) :
    grouped index (batches.map (List.map f)) =
      (grouped (fun entry => index (f entry)) batches).map (List.map f) := by
  rw [grouped, grouped, List.foldl_map]
  have hrun : ∀ groups : List (List F),
      batches.foldl (fun groups batch => absorb index groups (batch.map f)) (groups.map (List.map f)) =
        (batches.foldl (absorb fun entry => index (f entry)) groups).map (List.map f) := by
    induction batches with
    | nil => exact fun groups => rfl
    | cons batch batches ih =>
        intro groups
        rw [List.foldl_cons, List.foldl_cons, absorb_map, ih]
  exact hrun []

theorem groupsByIndex_map (f : F → E) (entries : List F) :
    groupsByIndex index (entries.map f) =
      (groupsByIndex (fun entry => index (f entry)) entries).map (List.map f) := by
  simp only [groupsByIndex, groupsOver, List.map_map, List.filter_map, Function.comp_def]

end Steps

section Sufficient

variable {index} {slots : List ℕ} {seen : List E} {entry : E}

/-- The slots are the indices of the entries so far. -/
structure Keyed (index : E → ℕ) (slots : List ℕ) (seen : List E) : Prop where
  nodup : slots.Nodup
  mem_iff : ∀ i, i ∈ slots ↔ i ∈ seen.map index

theorem Keyed.perm (h : Keyed index slots seen) :
    (groupsOver index slots seen).Perm (groupsByIndex index seen) := by
  refine List.Perm.map _ ?_
  rw [List.perm_ext_iff_of_nodup h.nodup (List.nodup_dedup _)]
  intro i
  rw [h.mem_iff, List.mem_dedup]

/-- An entry whose index stands at its position joins the group of its index. -/
theorem place_groupsOver (hnodup : slots.Nodup) (hslot : slots[index entry]? = some (index entry)) :
    place index (groupsOver index slots seen) entry = groupsOver index slots (seen ++ [entry]) := by
  have hgroup : (groupsOver index slots seen)[index entry]? =
      some (seen.filter fun other => index other = index entry) := by
    rw [groupsOver, List.getElem?_map, hslot]
    rfl
  rw [place_of_some hgroup]
  apply List.ext_getElem?
  intro p
  rw [List.getElem?_set, groupsOver, groupsOver, List.getElem?_map, List.getElem?_map, List.length_map]
  obtain ⟨hlt, hself⟩ := List.getElem?_eq_some_iff.mp hslot
  by_cases hp : index entry = p
  · subst hp
    rw [if_pos rfl, if_pos hlt, hslot]
    simp [List.filter_append]
  · rw [if_neg hp]
    cases hother : slots[p]? with
    | none => rfl
    | some i =>
        -- Another position has another index, so the entry is not in its group.
        have hne : index entry ≠ i := by
          rintro rfl
          obtain ⟨hplt, hi⟩ := List.getElem?_eq_some_iff.mp hother
          exact hp ((hnodup.getElem_inj_iff).mp (hself.trans hi.symm))
        simp [List.filter_append, hne]

/-- An entry with a new index that names no position opens the group of its index. -/
theorem place_groupsOver_new (h : Keyed index slots seen) (hlength : slots.length ≤ index entry)
    (hnew : index entry ∉ slots) :
    place index (groupsOver index slots seen) entry =
      groupsOver index (slots ++ [index entry]) (seen ++ [entry]) := by
  have hbehind : (groupsOver index slots seen).length ≤ index entry := by
    rwa [groupsOver, List.length_map]
  rw [place_of_le hbehind, groupsOver, groupsOver, List.map_append]
  congr 1
  · apply List.map_congr_left
    intro i hi
    have hne : index entry ≠ i := fun heq => hnew (heq ▸ hi)
    simp [List.filter_append, hne]
  · have hnone : (seen.filter fun other => index other = index entry) = [] := by
      rw [List.filter_eq_nil_iff]
      intro other hother heq
      refine hnew ((h.mem_iff _).mpr ?_)
      exact List.mem_map.mpr ⟨other, hother, of_decide_eq_true heq⟩
    simp [List.filter_append, hnone]

theorem Keyed.seen_mem (h : Keyed index slots seen) (hmem : index entry ∈ slots) :
    Keyed index slots (seen ++ [entry]) where
  nodup := h.nodup
  mem_iff i := by
    rw [h.mem_iff, List.map_append, List.mem_append]
    constructor
    · exact Or.inl
    · rintro (hi | hi)
      · exact hi
      · rw [List.map_singleton, List.mem_singleton] at hi
        rw [hi, ← h.mem_iff]
        exact hmem

theorem Keyed.seen_new (h : Keyed index slots seen) (hnew : index entry ∉ slots) :
    Keyed index (slots ++ [index entry]) (seen ++ [entry]) where
  nodup := by
    rw [List.nodup_append]
    refine ⟨h.nodup, List.nodup_singleton _, ?_⟩
    rintro i hi _ hother rfl
    exact hnew (List.mem_singleton.mp hother ▸ hi)
  mem_iff i := by
    rw [List.map_append, List.mem_append, List.mem_append, h.mem_iff]
    rfl

/-- Entries that follow the slots keep each group that of an index. -/
theorem foldl_place_follows (h : Keyed index slots seen) {batch : List E}
    (hfollows : Follows slots (batch.map index)) :
    ∃ slots', Keyed index slots' (seen ++ batch) ∧
      batch.foldl (place index) (groupsOver index slots seen) = groupsOver index slots' (seen ++ batch) := by
  induction batch generalizing slots seen with
  | nil =>
      rw [List.append_nil]
      exact ⟨slots, h, rfl⟩
  | cons entry batch ih =>
      rw [List.foldl_cons, List.append_cons]
      rw [List.map_cons, Follows] at hfollows
      split at hfollows
      · obtain ⟨hslot, hrest⟩ := hfollows
        rw [place_groupsOver h.nodup hslot]
        exact ih (h.seen_mem (List.mem_of_getElem? hslot)) hrest
      · rename_i hlength
        obtain ⟨hnew, hrest⟩ := hfollows
        rw [place_groupsOver_new h (Nat.le_of_not_lt hlength) hnew]
        exact ih (h.seen_new hnew) hrest

theorem keyed_self {batch : List E} (hnodup : (batch.map index).Nodup) :
    Keyed index (batch.map index) batch := ⟨hnodup, fun _ => Iff.rfl⟩

/-- Entries with different indices: each is the group of its index. -/
theorem map_singleton_eq {batch : List E} (hnodup : (batch.map index).Nodup) :
    batch.map (fun entry => [entry]) = groupsOver index (batch.map index) batch := by
  rw [groupsOver, List.map_map]
  apply List.map_congr_left
  intro entry hentry
  rw [Function.comp_apply]
  induction batch with
  | nil => cases hentry
  | cons first batch ih =>
      rw [List.map_cons, List.nodup_cons] at hnodup
      obtain rfl | hrest := List.mem_cons.mp hentry
      · have hnone : (batch.filter fun other => index other = index entry) = [] := by
          rw [List.filter_eq_nil_iff]
          intro other hother heq
          exact hnodup.1 (List.mem_map.mpr ⟨other, hother, of_decide_eq_true heq⟩)
        rw [List.filter_cons_of_pos (by simp), hnone]
      · have hne : index first ≠ index entry := by
          intro heq
          exact hnodup.1 (List.mem_map.mpr ⟨entry, hrest, heq.symm⟩)
        rw [List.filter_cons_of_neg (by simpa using hne)]
        exact ih hnodup.2 hrest

theorem foldl_absorb {groups : List (List E)} (hgroups : groups ≠ []) (batches : List (List E)) :
    batches.foldl (absorb index) groups = batches.flatten.foldl (place index) groups := by
  induction batches generalizing groups with
  | nil => rfl
  | cons batch batches ih =>
      have habsorb : absorb index groups batch = batch.foldl (place index) groups := by
        rw [absorb, List.isEmpty_eq_false_iff.mpr hgroups, if_neg Bool.false_ne_true]
      have hplaced : batch.foldl (place index) groups ≠ [] := by
        clear ih habsorb
        induction batch generalizing groups with
        | nil => exact hgroups
        | cons entry batch ih =>
            apply ih
            rw [place]
            split <;> simp [hgroups]
      rw [List.foldl_cons, habsorb, ih hplaced, List.flatten_cons, List.foldl_append]

theorem grouped_cons {entry : E} {first : List E} (batches : List (List E)) :
    grouped index ((entry :: first) :: batches) =
      batches.flatten.foldl (place index) ((entry :: first).map fun entry => [entry]) :=
  foldl_absorb (List.cons_ne_nil _ _) batches

/-- In step, the groups are those of the indices. -/
theorem grouped_of_inStep {batches : List (List E)} (h : InStep (batches.map (List.map index))) :
    (grouped index batches).Perm (groupsByIndex index batches.flatten) := by
  induction batches with
  | nil => exact List.Perm.refl _
  | cons batch batches ih =>
      cases batch with
      | nil => exact ih h
      | cons entry first =>
          obtain ⟨hnodup, hfollows⟩ := h
          change ((entry :: first).map index).Nodup at hnodup
          have hfirst : (entry :: first).map (fun entry => [entry]) = groupsOver index _ (entry :: first) :=
            map_singleton_eq hnodup
          rw [← List.map_flatten] at hfollows
          rw [grouped_cons, hfirst]
          obtain ⟨slots, hkeyed, hfold⟩ := foldl_place_follows (keyed_self hnodup) hfollows
          rw [hfold]
          exact hkeyed.perm

end Sufficient

section Necessary

variable {index} {groups : List (List E)} {entry : E}

/-- Entries with one index are in one group, and those of a group have one index. -/
structure Separated (index : E → ℕ) (groups : List (List E)) : Prop where
  alike : ∀ group ∈ groups, ∀ e ∈ group, ∀ e' ∈ group, index e = index e'
  apart : groups.Pairwise fun group other => ∀ e ∈ group, ∀ e' ∈ other, index e ≠ index e'

theorem separated_groupsOver {slots : List ℕ} (hnodup : slots.Nodup) (entries : List E) :
    Separated index (groupsOver index slots entries) where
  alike group hgroup e he e' he' := by
    obtain ⟨i, -, rfl⟩ := List.mem_map.mp hgroup
    exact (of_decide_eq_true (List.mem_filter.mp he).2).trans
      (of_decide_eq_true (List.mem_filter.mp he').2).symm
  apart := by
    refine List.pairwise_map.mpr (hnodup.imp ?_)
    intro i j hne e he e' he' heq
    have hi := of_decide_eq_true (List.mem_filter.mp he).2
    have hj := of_decide_eq_true (List.mem_filter.mp he').2
    exact hne (hi.symm.trans (heq.trans hj))

theorem Separated.perm {groups' : List (List E)} (h : Separated index groups)
    (hperm : groups.Perm groups') : Separated index groups' where
  alike group hgroup := h.alike group (hperm.mem_iff.mpr hgroup)
  apart := h.apart.perm hperm fun hne e he e' he' heq => hne e' he' e he heq.symm

/-- The index of a group is that of its first entry. -/
def slot (index : E → ℕ) (group : List E) : ℕ := (group.head?.map index).getD 0

theorem slot_mem (index : E → ℕ) {group : List E} (hgroup : group ≠ []) : ∃ e ∈ group, index e = slot index group := by
  cases group with
  | nil => exact absurd rfl hgroup
  | cons e group => exact ⟨e, List.mem_cons_self, rfl⟩

theorem slots_place (hgroups : [] ∉ groups) :
    (place index groups entry).map (slot index) =
      if index entry < groups.length then groups.map (slot index)
      else groups.map (slot index) ++ [index entry] := by
  split
  · rename_i hlt
    have hget := List.getElem?_eq_getElem hlt
    have hne : groups[index entry] ≠ [] := fun hnil => hgroups (hnil ▸ List.getElem_mem hlt)
    obtain ⟨e, group, hgroup⟩ := List.exists_cons_of_ne_nil hne
    rw [place_of_some hget, List.map_set, hgroup]
    apply List.ext_getElem?
    intro p
    rw [List.getElem?_set]
    split
    · rename_i hp
      subst hp
      rw [List.getElem?_map, hget, hgroup, List.length_map, if_pos hlt]
      rfl
    · rfl
  · rename_i hle
    rw [place_of_le (Nat.le_of_not_lt hle), List.map_append]
    rfl

theorem nil_not_mem_place (hgroups : [] ∉ groups) : [] ∉ place index groups entry := by
  rw [place]
  split
  · intro hmem
    obtain hmem | hnil := List.mem_or_eq_of_mem_set hmem
    · exact hgroups hmem
    · simp at hnil
  · simpa using hgroups

/-- A group never loses an entry. -/
theorem mem_place (index : E → ℕ) (entry : E) {p : ℕ} {group : List E} (hgroup : groups[p]? = some group) :
    ∃ group', (place index groups entry)[p]? = some group' ∧ group ⊆ group' := by
  obtain ⟨hlt, -⟩ := List.getElem?_eq_some_iff.mp hgroup
  rw [place]
  split
  · rename_i other hother
    rw [List.getElem?_set]
    split
    · rename_i hp
      subst hp
      cases hgroup.symm.trans hother
      rw [if_pos hlt]
      exact ⟨_, rfl, List.subset_append_left _ _⟩
    · exact ⟨group, hgroup, List.Subset.refl _⟩
  · rw [List.getElem?_append_left hlt]
    exact ⟨group, hgroup, List.Subset.refl _⟩

theorem Separated.of_place (h : Separated index (place index groups entry)) : Separated index groups where
  alike group hgroup e he e' he' := by
    obtain ⟨p, hp⟩ := List.mem_iff_getElem?.mp hgroup
    obtain ⟨group', hgroup', hsub⟩ := mem_place index entry hp
    exact h.alike group' (List.mem_of_getElem? hgroup') e (hsub he) e' (hsub he')
  apart := by
    rw [List.pairwise_iff_getElem]
    intro p q hp hq hlt e he e' he'
    have hapart := List.pairwise_iff_getElem.mp h.apart
    obtain ⟨group, hgroup, hsub⟩ := mem_place index entry (List.getElem?_eq_getElem hp)
    obtain ⟨group', hgroup', hsub'⟩ := mem_place index entry (List.getElem?_eq_getElem hq)
    obtain ⟨hp', rfl⟩ := List.getElem?_eq_some_iff.mp hgroup
    obtain ⟨hq', rfl⟩ := List.getElem?_eq_some_iff.mp hgroup'
    exact hapart p q hp' hq' hlt e (hsub he) e' (hsub' he')

theorem Separated.of_foldl {batch : List E} (h : Separated index (batch.foldl (place index) groups)) :
    Separated index groups := by
  induction batch generalizing groups with
  | nil => exact h
  | cons entry batch ih => exact (ih h).of_place

/-- Groups that end separated were reached by entries that follow their slots. -/
theorem follows_of_separated {batch : List E} (hgroups : [] ∉ groups)
    (h : Separated index (batch.foldl (place index) groups)) :
    Follows (groups.map (slot index)) (batch.map index) := by
  induction batch generalizing groups with
  | nil => trivial
  | cons entry batch ih =>
      rw [List.foldl_cons] at h
      have hrest := ih (nil_not_mem_place hgroups) h
      rw [slots_place hgroups] at hrest
      have hplaced := h.of_foldl
      rw [List.map_cons, Follows, List.length_map]
      by_cases hlt : index entry < groups.length
      · rw [if_pos hlt] at hrest ⊢
        refine ⟨?_, hrest⟩
        -- The entry is now in the group at its position, so it has the index of that group.
        have hget := List.getElem?_eq_getElem hlt
        have hne : groups[index entry] ≠ [] := fun hnil => hgroups (hnil ▸ List.getElem_mem hlt)
        obtain ⟨e, he, hindex⟩ := slot_mem index hne
        rw [place_of_some hget] at hplaced
        have halike := hplaced.alike _ (List.mem_set hlt _) e (List.mem_append_left _ he) entry
          (List.mem_append_right _ (List.mem_singleton_self _))
        rw [List.getElem?_map, hget, Option.map_some, ← hindex, halike]
      · rw [if_neg hlt] at hrest ⊢
        refine ⟨?_, hrest⟩
        intro hmem
        obtain ⟨group, hgroup, hslot⟩ := List.mem_map.mp hmem
        obtain ⟨e, he, hindex⟩ := slot_mem index (fun hnil : group = [] => hgroups (hnil ▸ hgroup))
        rw [place_of_le (Nat.le_of_not_lt hlt)] at hplaced
        have hapart := (List.pairwise_append.mp hplaced.apart).2.2 group hgroup [entry]
          (List.mem_singleton_self _) e he entry (List.mem_singleton_self _)
        exact hapart (hindex.trans hslot)

theorem inStep_of_grouped {batches : List (List E)}
    (h : (grouped index batches).Perm (groupsByIndex index batches.flatten)) :
    InStep (batches.map (List.map index)) := by
  induction batches with
  | nil => trivial
  | cons batch batches ih =>
      cases batch with
      | nil => exact ih h
      | cons entry first =>
          have hseparated : Separated index (grouped index ((entry :: first) :: batches)) :=
            (separated_groupsOver (List.nodup_dedup _) _).perm h.symm
          rw [grouped_cons] at hseparated
          have hslots : ((entry :: first).map fun entry => [entry]).map (slot index) =
              (entry :: first).map index := by
            rw [List.map_map]
            rfl
          refine ⟨?_, ?_⟩
          · have hfirst := List.pairwise_map.mp hseparated.of_foldl.apart
            change ((entry :: first).map index).Nodup
            refine List.pairwise_map.mpr (hfirst.imp ?_)
            intro e e' hne
            exact hne e (List.mem_singleton_self _) e' (List.mem_singleton_self _)
          · have hfollows := follows_of_separated (by simp) hseparated
            rw [hslots, List.map_flatten] at hfollows
            exact hfollows

/-- The groups are those of the indices exactly when the batches are in step. -/
theorem grouped_perm_iff {batches : List (List E)} :
    (grouped index batches).Perm (groupsByIndex index batches.flatten) ↔
      InStep (batches.map (List.map index)) :=
  ⟨inStep_of_grouped, grouped_of_inStep⟩

end Necessary

section Singletons

variable {index} {entries batch : List E}

theorem nodup_of_singletons (h : ∀ group ∈ groupsByIndex index entries, group.length = 1) :
    (entries.map index).Nodup := by
  rw [List.nodup_iff_count_le_one]
  intro i
  by_cases hmem : i ∈ entries.map index
  · have hgroup := h _ (List.mem_map.mpr ⟨i, List.mem_dedup.mpr hmem, rfl⟩)
    rw [List.count, List.countP_map, List.countP_eq_length_filter]
    exact Nat.le_of_eq hgroup
  · rw [List.count_eq_zero_of_not_mem hmem]
    exact Nat.zero_le 1

/-- Single entries are the groups of the indices only where no index comes twice. -/
theorem singletons_perm (h : (batch.map fun entry => [entry]).Perm (groupsByIndex index entries)) :
    (entries.map index).Nodup ∧ entries.length = batch.length := by
  have hnodup : (entries.map index).Nodup := by
    apply nodup_of_singletons
    intro group hgroup
    obtain ⟨entry, -, rfl⟩ := List.mem_map.mp (h.mem_iff.mpr hgroup)
    rfl
  refine ⟨hnodup, ?_⟩
  have hlength := h.length_eq
  rw [groupsByIndex, hnodup.dedup, groupsOver, List.length_map, List.length_map, List.length_map] at hlength
  exact hlength.symm

theorem singletons_eq (hnodup : (batch.map index).Nodup) :
    batch.map (fun entry => [entry]) = groupsByIndex index batch := by
  rw [groupsByIndex, hnodup.dedup]
  exact map_singleton_eq hnodup

theorem nil_not_mem_singletons : [] ∉ batch.map fun entry => [entry] := by simp

end Singletons

section Nonempty

variable {index} {groups : List (List E)}

theorem nil_not_mem_foldl (hgroups : [] ∉ groups) (batch : List E) :
    [] ∉ batch.foldl (place index) groups := by
  induction batch generalizing groups with
  | nil => exact hgroups
  | cons entry batch ih => exact ih (nil_not_mem_place hgroups)

theorem nil_not_mem_absorb (hgroups : [] ∉ groups) (batch : List E) : [] ∉ absorb index groups batch := by
  rw [absorb]
  split
  · exact nil_not_mem_singletons
  · exact nil_not_mem_foldl hgroups batch

theorem nil_not_mem_grouped (batches : List (List E)) : [] ∉ grouped index batches := by
  rw [grouped]
  have hrun : ∀ groups : List (List E), [] ∉ groups → [] ∉ batches.foldl (absorb index) groups := by
    induction batches with
    | nil => exact fun groups h => h
    | cons batch batches ih => exact fun groups h => ih _ (nil_not_mem_absorb h batch)
  exact hrun [] List.not_mem_nil

theorem nil_not_mem_groupsByIndex (entries : List E) : [] ∉ groupsByIndex index entries := by
  intro hmem
  obtain ⟨i, hi, hnil⟩ := List.mem_map.mp hmem
  obtain ⟨entry, hentry, rfl⟩ := List.mem_map.mp (List.mem_dedup.mp hi)
  exact List.filter_eq_nil_iff.mp hnil entry hentry (decide_eq_true rfl)

end Nonempty

end OpenaiRs.Grouping
