import OpenaiRs.Serde.Value

/-!
# Values without duplicate keys

A `serde_json` object has every key once. The operations of `Map` keep this, and without duplicates the
order of the members does not matter for what is under a key.
-/

namespace OpenaiRs.Serde

namespace Map

theorem get_eq_some_iff_mem {m : Map} (hnodup : (m.map Prod.fst).Nodup) {key : String} {value : Value} :
    m.get key = some value ↔ (key, value) ∈ m := by
  induction m with
  | nil => simp
  | cons member rest ih =>
      obtain ⟨hfresh, hrest⟩ := List.nodup_cons.mp hnodup
      rw [get_cons, List.mem_cons]
      split
      · rename_i heq
        constructor
        · intro h
          exact .inl (Prod.ext heq.symm (Option.some.inj h).symm)
        · rintro (rfl | hmem)
          · rfl
          · exact absurd (List.mem_map.mpr ⟨_, hmem, heq.symm⟩) hfresh
      · rename_i hne
        rw [ih hrest]
        constructor
        · exact .inr
        · rintro (rfl | hmem)
          · exact absurd rfl hne
          · exact hmem

theorem nodup_insert {m : Map} (hnodup : (m.map Prod.fst).Nodup) (key : String) (value : Value) :
    ((m.insert key value).map Prod.fst).Nodup := by
  rw [insert]
  split
  · have hsame : (m.map fun member => if member.1 = key then (key, value) else member).map Prod.fst =
        m.map Prod.fst := by
      rw [List.map_map]
      apply List.map_congr_left
      intro member _
      rw [Function.comp_apply]
      split
      · rename_i heq
        exact heq.symm
      · rfl
    rw [hsame]
    exact hnodup
  · rename_i hnone
    have habsent := containsKey_eq_false_iff.mp (Bool.eq_false_iff.mpr hnone)
    rw [List.map_append]
    refine List.nodup_append.mpr ⟨hnodup, by simp, ?_⟩
    intro name hmem other hother
    obtain ⟨member, hmember, rfl⟩ := List.mem_map.mp hmem
    rw [List.mem_singleton.mp hother]
    exact habsent member hmember

/-- Inserting what is there changes nothing. -/
theorem insert_eq_self {m : Map} (hnodup : (m.map Prod.fst).Nodup) {key : String} {value : Value}
    (h : m.get key = some value) : m.insert key value = m := by
  have hcontains : m.containsKey key = true := by
    rw [containsKey_eq_isSome, h]
    rfl
  rw [insert, if_pos hcontains]
  refine (List.map_congr_left fun member hmem => ?_).trans (List.map_id m)
  split
  · rename_i hkey
    have hsame : m.get key = some member.2 := (get_eq_some_iff_mem hnodup).mpr (hkey ▸ hmem)
    rw [h] at hsame
    exact Prod.ext hkey.symm (Option.some.inj hsame)
  · rfl

/-- The members behind the gap have changed their order. -/
theorem remove_perm {m : Map} (hnodup : (m.map Prod.fst).Nodup) (key : String) :
    (m.remove key).Perm (m.filter (·.1 ≠ key)) := by
  rw [remove]
  split
  · rename_i hempty
    rw [List.getLast?_eq_none_iff.mp hempty]
    exact .refl []
  · rename_i last hlast
    obtain ⟨init, rfl⟩ := List.getLast?_eq_some_iff.mp hlast
    split
    · exact .refl _
    · rename_i hne
      split
      · rename_i hcontains
        obtain ⟨member, hmem, hkey⟩ := List.any_eq_true.mp hcontains
        have hkey : member.1 = key := of_decide_eq_true hkey
        have hinit : member ∈ init := by
          obtain hinit | hlast := List.mem_append.mp hmem
          · exact hinit
          · exact absurd (List.mem_singleton.mp hlast ▸ hkey) hne
        obtain ⟨before, behind, rfl⟩ := List.append_of_mem hinit
        simp only [List.map_append, List.map_cons, List.append_assoc, List.cons_append] at hnodup
        have hbefore : ∀ other ∈ before, other.1 ≠ key := by
          intro other hother heq
          have hdisjoint := (List.nodup_append.mp hnodup).2.2
          exact hdisjoint other.1 (List.mem_map_of_mem hother) member.1 List.mem_cons_self (heq.trans hkey.symm)
        have hbehind : ∀ other ∈ behind, other.1 ≠ key := by
          intro other hother heq
          have hfresh := (List.nodup_cons.mp (List.nodup_append.mp hnodup).2.1).1
          exact hfresh (List.mem_append_left _ (List.mem_map.mpr ⟨other, hother, heq.trans hkey.symm⟩))
        have hmap : ∀ {part : Map}, (∀ other ∈ part, other.1 ≠ key) →
            part.map (fun other => if other.1 = key then last else other) = part := by
          intro part hpart
          refine (List.map_congr_left fun other hother => ?_).trans (List.map_id part)
          exact if_neg (hpart other hother)
        have hfilter : ∀ {part : Map}, (∀ other ∈ part, other.1 ≠ key) → part.filter (·.1 ≠ key) = part := by
          intro part hpart
          exact List.filter_eq_self.mpr fun other hother => decide_eq_true (hpart other hother)
        rw [List.dropLast_concat, List.map_append, List.map_cons, if_pos hkey, hmap hbefore, hmap hbehind,
          List.filter_append, List.filter_append, List.filter_cons_of_neg (by simp [hkey]), hfilter hbefore,
          hfilter hbehind, List.append_assoc, hfilter (by simpa using hne)]
        exact .append_left before (List.perm_append_singleton last behind).symm
      · rename_i hnone
        have habsent := containsKey_eq_false_iff.mp (Bool.eq_false_iff.mpr hnone)
        rw [List.filter_eq_self.mpr fun other hother => decide_eq_true (habsent other hother)]

/-- A member and the other members. -/
theorem perm_of_get {m : Map} (hnodup : (m.map Prod.fst).Nodup) {key : String} {value : Value}
    (h : m.get key = some value) : m.Perm ((key, value) :: m.filter (·.1 ≠ key)) := by
  induction m with
  | nil => cases h
  | cons member rest ih =>
      obtain ⟨hfresh, hrest⟩ := List.nodup_cons.mp hnodup
      rw [get_cons] at h
      split at h
      · rename_i heq
        obtain rfl := heq
        obtain rfl := Option.some.inj h
        have hothers : rest.filter (·.1 ≠ member.1) = rest :=
          List.filter_eq_self.mpr fun other hother => decide_eq_true fun heq =>
            hfresh (List.mem_map.mpr ⟨other, hother, heq⟩)
        rw [List.filter_cons_of_neg (by simp), hothers]
      · rename_i hne
        rw [List.filter_cons_of_pos (by simpa using hne)]
        exact ((ih hrest h).cons member).trans (.swap _ _ _)

/-- What is inserted and the other members. -/
theorem insert_perm {m : Map} (hnodup : (m.map Prod.fst).Nodup) (key : String) (value : Value) :
    (m.insert key value).Perm ((key, value) :: m.filter (·.1 ≠ key)) := by
  have hreplace : ∀ part : Map,
      (part.map fun member => if member.1 = key then (key, value) else member).filter (·.1 ≠ key) =
        part.filter (·.1 ≠ key) := by
    intro part
    induction part with
    | nil => rfl
    | cons member rest ih =>
        rw [List.map_cons, List.filter_cons, List.filter_cons, ih]
        by_cases hkey : member.1 = key
        · simp [hkey]
        · simp [hkey]
  have hothers : (m.insert key value).filter (·.1 ≠ key) = m.filter (·.1 ≠ key) := by
    rw [insert]
    split
    · exact hreplace m
    · rw [List.filter_append, List.filter_cons_of_neg (by simp), List.filter_nil, List.append_nil]
  have hperm := perm_of_get (nodup_insert hnodup key value) (get_insert_self m key value)
  rwa [hothers] at hperm

theorem nodup_remove {m : Map} (hnodup : (m.map Prod.fst).Nodup) (key : String) :
    ((m.remove key).map Prod.fst).Nodup :=
  ((remove_perm hnodup key).map Prod.fst).nodup_iff.mpr (hnodup.sublist (List.filter_sublist.map Prod.fst))

theorem get_remove_of_ne {m : Map} (hnodup : (m.map Prod.fst).Nodup) {key other : String} (hne : other ≠ key)
    {value : Value} (h : m.get other = some value) : (m.remove key).get other = some value := by
  rw [get_eq_some_iff_mem (nodup_remove hnodup key), (remove_perm hnodup key).mem_iff, List.mem_filter]
  exact ⟨(get_eq_some_iff_mem hnodup).mp h, decide_eq_true hne⟩

end Map

/-- No object has a key twice. -/
inductive Value.DistinctKeys : Value → Prop
  | null : DistinctKeys .null
  | bool (b : Bool) : DistinctKeys (.bool b)
  | number (n : Number) : DistinctKeys (.number n)
  | string (s : String) : DistinctKeys (.string s)
  | array {items : List Value} : (∀ item ∈ items, DistinctKeys item) → DistinctKeys (.array items)
  | object {members : Map} : (members.map Prod.fst).Nodup → (∀ member ∈ members, DistinctKeys member.2) →
      DistinctKeys (.object members)

theorem Value.DistinctKeys.nodup {members : Map} (h : DistinctKeys (.object members)) :
    (members.map Prod.fst).Nodup := by
  cases h with
  | object hnodup _ => exact hnodup

theorem Value.DistinctKeys.member {members : Map} (h : DistinctKeys (.object members)) {member : String × Value}
    (hmem : member ∈ members) : member.2.DistinctKeys := by
  cases h with
  | object _ hmembers => exact hmembers member hmem

theorem Value.DistinctKeys.get {members : Map} {key : String} {value : Value} (h : DistinctKeys (.object members))
    (hvalue : members.get key = some value) : value.DistinctKeys := by
  exact h.member ((Map.get_eq_some_iff_mem h.nodup).mp hvalue)

end OpenaiRs.Serde
