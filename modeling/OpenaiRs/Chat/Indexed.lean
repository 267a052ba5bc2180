import OpenaiRs.Chat.Delta
import OpenaiRs.Grouping.Position
import Mathlib.Data.List.Induction

/-!
# Arrays of indexed entries

What `merge_extra` of `openai-rs-client/src/chat_accumulator.rs` makes of a key whose deltas are arrays of
objects with an `index`. An index is the position of an entry in the accumulated array there, so the
entries are merged by their index only as long as the two agree.
-/

namespace OpenaiRs.Chat

open Serde Grouping

section Members

/-- What a delta makes of one member. -/
def mergedMember (key : String) (slot : Option Value) (deltaValue : Value) : Value :=
  if key = "index" ∨ key = "type" then deltaValue
  else
    match slot with
    | none => deltaValue
    | some slot => mergeDeltaValue slot deltaValue

/-- The members of a delta are merged one by one, each into the member with its key. -/
theorem get_mergeDeltaObject {delta : Map} (hdistinct : (delta.map Prod.fst).Nodup) (acc : Map)
    (key : String) :
    (mergeDeltaObject acc delta).get key =
      match delta.get key with
      | none => acc.get key
      | some deltaValue => some (mergedMember key (acc.get key) deltaValue) := by
  induction delta generalizing acc with
  | nil => rw [mergeDeltaObject, Map.get_nil]
  | cons member rest ih =>
      obtain ⟨other, deltaValue⟩ := member
      rw [List.map_cons, List.nodup_cons] at hdistinct
      have hstep : mergeDeltaObject acc ((other, deltaValue) :: rest) =
          mergeDeltaObject (acc.insert other (mergedMember other (acc.get other) deltaValue)) rest := by
        rw [mergeDeltaObject, mergedMember.eq_def]
        split
        · rfl
        · cases acc.get other <;> rfl
      rw [hstep, ih hdistinct.2, Map.get_cons]
      by_cases hkey : other = key
      · subst hkey
        have hrest : Map.get rest other = none := by
          rw [Option.eq_none_iff_forall_ne_some]
          intro value hvalue
          exact hdistinct.1 (List.mem_map.mpr ⟨_, Map.mem_of_get hvalue, rfl⟩)
        rw [hrest, if_pos rfl, Map.get_insert_self]
      · rw [if_neg hkey, Map.get_insert, if_neg hkey]

end Members

section Definitions

/-- Entries merged into one another in order of arrival. -/
def mergeAll (entries : List Value) : Value := entries.foldl mergeDeltaValue .null

/-- The `index` of an entry that has one. -/
def indexOf (entry : Value) : ℕ := (entryIndex entry).getD 0

/-- The delta has an array of indexed objects under the key. -/
structure Carries (key : String) (delta : Map) (entries : List Value) : Prop where
  distinct : (delta.map Prod.fst).Nodup
  array : delta.get key = some (.array entries)
  indexed : ∀ entry ∈ entries, (entryIndex entry).isSome

/-- The accumulated array has one entry for each index, and it is the merge of the entries that came with
this index. Without any delta there is no array. -/
def MergedByIndex (arrays : List (List Value)) (accumulated : Option Value) : Prop :=
  ∃ acc, accumulated.getD (.array []) = .array acc ∧
    acc.Perm ((groupsByIndex indexOf arrays.flatten).map mergeAll)

/-- All entries are in one array without an index twice, and no array follows. -/
def Alone : List (List ℕ) → Prop
  | [] => True
  | [] :: arrays => Alone arrays
  | (i :: first) :: arrays => (i :: first).Nodup ∧ arrays = []

/-- When the indices of the arrays under a key name the positions of their entries. The keys `index` and
`type` are replaced by each delta. -/
def InStepAt (key : String) (arrays : List (List ℕ)) : Prop :=
  if key = "index" ∨ key = "type" then Alone arrays else InStep arrays

instance instDecidableAlone : (arrays : List (List ℕ)) → Decidable (Alone arrays)
  | [] => isTrue trivial
  | [] :: arrays => instDecidableAlone arrays
  | (_ :: _) :: _ => inferInstanceAs (Decidable (_ ∧ _))

instance instDecidableInStepAt (key : String) (arrays : List (List ℕ)) : Decidable (InStepAt key arrays) :=
  inferInstanceAs (Decidable (if key = "index" ∨ key = "type" then _ else _))

variable {E : Type*} (key : String) (index : E → ℕ)

/-- The entries that are merged into each entry of the accumulated array. -/
def groupedAt (batches : List (List E)) : List (List E) :=
  if key = "index" ∨ key = "type" then (batches.getLast?.getD []).map fun entry => [entry]
  else grouped index batches

end Definitions

section Merging

variable {groups : List (List Value)} {batch : List Value}

theorem mergeAll_append (group : List Value) (entry : Value) :
    mergeAll (group ++ [entry]) = mergeDeltaValue (mergeAll group) entry := by
  rw [mergeAll, mergeAll, List.foldl_append]
  rfl

theorem mergeAll_singleton (entry : Value) : mergeAll [entry] = entry := by
  rw [mergeAll, List.foldl_cons, List.foldl_nil, mergeDeltaValue]

theorem exists_object {entry : Value} (h : (entryIndex entry).isSome) :
    ∃ members, entry = .object members := by
  cases entry with
  | object members => exact ⟨members, rfl⟩
  | _ => cases h

/-- Groups with entries, each an indexed object. -/
def Filled (groups : List (List Value)) : Prop :=
  ∀ group ∈ groups, group ≠ [] ∧ ∀ entry ∈ group, (entryIndex entry).isSome

theorem foldl_object {entries : List Value} (hindexed : ∀ entry ∈ entries, (entryIndex entry).isSome)
    (members : Map) : ∃ members', entries.foldl mergeDeltaValue (.object members) = .object members' := by
  induction entries generalizing members with
  | nil => exact ⟨members, rfl⟩
  | cons entry entries ih =>
      obtain ⟨delta, rfl⟩ := exists_object (hindexed entry List.mem_cons_self)
      rw [List.foldl_cons, mergeDeltaValue]
      exact ih (fun other hother => hindexed other (List.mem_cons_of_mem _ hother)) _

theorem mergeAll_object {group : List Value} (hgroup : group ≠ [])
    (hindexed : ∀ entry ∈ group, (entryIndex entry).isSome) :
    ∃ members, mergeAll group = .object members := by
  obtain ⟨entry, rest, rfl⟩ := List.exists_cons_of_ne_nil hgroup
  obtain ⟨members, rfl⟩ := exists_object (hindexed entry List.mem_cons_self)
  rw [mergeAll, List.foldl_cons, mergeDeltaValue]
  exact foldl_object (fun other hother => hindexed other (List.mem_cons_of_mem _ hother)) members

theorem Filled.place (h : Filled groups) {entry : Value} (hentry : (entryIndex entry).isSome) :
    Filled (place indexOf groups entry) := by
  intro group hgroup
  rw [Grouping.place] at hgroup
  split at hgroup
  · rename_i other hother
    obtain hgroup | rfl := List.mem_or_eq_of_mem_set hgroup
    · exact h group hgroup
    · refine ⟨by simp, ?_⟩
      intro e he
      obtain he | he := List.mem_append.mp he
      · exact (h other (List.mem_of_getElem? hother)).2 e he
      · exact List.mem_singleton.mp he ▸ hentry
  · obtain hgroup | hgroup := List.mem_append.mp hgroup
    · exact h group hgroup
    · rw [List.mem_singleton.mp hgroup]
      refine ⟨List.cons_ne_nil _ _, ?_⟩
      intro e he
      exact List.mem_singleton.mp he ▸ hentry

/-- Merging indexed entries into an array is placing them in the groups behind it. -/
theorem mergeEntries_groups (hbatch : ∀ entry ∈ batch, (entryIndex entry).isSome) :
    mergeEntries (groups.map mergeAll) batch =
      (batch.foldl (place indexOf) groups).map mergeAll := by
  induction batch generalizing groups with
  | nil => rw [mergeEntries, List.foldl_nil]
  | cons entry batch ih =>
      obtain ⟨i, hi⟩ := Option.isSome_iff_exists.mp (hbatch entry List.mem_cons_self)
      have hindex : indexOf entry = i := by
        rw [indexOf, hi]
        rfl
      have hrest := fun groups => @ih groups fun other hother => hbatch other (List.mem_cons_of_mem _ hother)
      rw [mergeEntries, hi, List.foldl_cons, ← hrest, place, hindex]
      simp only [List.getElem?_map]
      cases groups[i]? with
      | none =>
          simp only [Option.map_none, List.map_append, List.map_cons, List.map_nil, mergeAll_singleton]
      | some group => simp only [Option.map_some, List.map_set, mergeAll_append]

theorem map_mergeAll_singletons (batch : List Value) :
    (batch.map fun entry => [entry]).map mergeAll = batch := by
  rw [List.map_map]
  refine List.map_id'' ?_ batch
  exact mergeAll_singleton

theorem mergeDeltaArray_groups (h : Filled groups) (hbatch : ∀ entry ∈ batch, (entryIndex entry).isSome) :
    mergeDeltaArray (groups.map mergeAll) batch = (absorb indexOf groups batch).map mergeAll := by
  cases groups with
  | nil =>
      rw [mergeDeltaArray, absorb]
      exact (map_mergeAll_singletons batch).symm
  | cons group groups =>
      obtain ⟨hgroup, hindexed⟩ := h group List.mem_cons_self
      obtain ⟨members, hmembers⟩ := mergeAll_object hgroup hindexed
      have hobject : ((group :: groups).map mergeAll).all isScalar = false := by
        rw [List.map_cons, hmembers]
        rfl
      rw [mergeDeltaArray, hobject, if_neg Bool.false_ne_true, mergeEntries_groups hbatch]
      rfl

theorem Filled.foldl (h : Filled groups) (hbatch : ∀ entry ∈ batch, (entryIndex entry).isSome) :
    Filled (batch.foldl (Grouping.place indexOf) groups) := by
  induction batch generalizing groups with
  | nil => exact h
  | cons entry batch ih =>
      exact ih (h.place (hbatch entry List.mem_cons_self))
        fun other hother => hbatch other (List.mem_cons_of_mem _ hother)

theorem Filled.absorb (h : Filled groups) (hbatch : ∀ entry ∈ batch, (entryIndex entry).isSome) :
    Filled (absorb indexOf groups batch) := by
  rw [Grouping.absorb]
  split
  · intro group hgroup
    obtain ⟨entry, hentry, rfl⟩ := List.mem_map.mp hgroup
    refine ⟨List.cons_ne_nil _ _, ?_⟩
    intro e he
    exact List.mem_singleton.mp he ▸ hbatch entry hentry
  · exact h.foldl hbatch

end Merging

section Folding

variable {key : String} {target : Map} {deltas : List Map} {arrays groups : List (List Value)}

theorem get_mergeExtra {delta : Map} {entries : List Value} (h : Carries key delta entries) (target : Map) :
    (mergeExtra target delta).get key = some (mergedMember key (target.get key) (.array entries)) := by
  rw [mergeExtra, get_mergeDeltaObject h.distinct, h.array]

/-- A key that each delta replaces keeps the last array. -/
theorem foldl_replaced (hkey : key = "index" ∨ key = "type") (h : List.Forall₂ (Carries key) deltas arrays)
    (last : List Value) (hlast : (target.get key).getD (.array []) = .array last) :
    ((deltas.foldl mergeExtra target).get key).getD (.array []) = .array (arrays.getLast?.getD last) := by
  induction h generalizing target last with
  | nil => exact hlast
  | @cons delta entries deltas arrays hcarries _ ih =>
      have hnext : ((mergeExtra target delta).get key).getD (.array []) = .array entries := by
        rw [get_mergeExtra hcarries, mergedMember.eq_def, if_pos hkey]
        rfl
      rw [List.foldl_cons, ih entries hnext, List.getLast?_cons, Option.getD_some]

/-- Another key has the groups of the entries, each merged. -/
theorem foldl_merged (hkey : ¬ (key = "index" ∨ key = "type")) (h : List.Forall₂ (Carries key) deltas arrays)
    (hfilled : Filled groups)
    (hslot : (target.get key).getD (.array []) = .array (groups.map mergeAll)) :
    ((deltas.foldl mergeExtra target).get key).getD (.array []) =
      .array ((arrays.foldl (absorb indexOf) groups).map mergeAll) := by
  induction h generalizing target groups with
  | nil => exact hslot
  | @cons delta entries deltas arrays hcarries _ ih =>
      refine ih (hfilled.absorb hcarries.indexed) ?_
      rw [get_mergeExtra hcarries, mergedMember.eq_def, if_neg hkey, Option.getD_some,
        ← mergeDeltaArray_groups hfilled hcarries.indexed]
      cases hget : target.get key with
      | none =>
          rw [hget] at hslot
          injection hslot with hnil
          rw [← hnil, mergeDeltaArray]
          rfl
      | some slot =>
          rw [hget, Option.getD_some] at hslot
          rw [hslot]
          simp only [mergeDeltaValue]

/-- The accumulated array is made of groups of entries, and each group is merged in order of arrival. -/
theorem foldl_mergeExtra (habsent : target.get key = none) (h : List.Forall₂ (Carries key) deltas arrays) :
    ((deltas.foldl mergeExtra target).get key).getD (.array []) =
      .array ((groupedAt key indexOf arrays).map mergeAll) := by
  have hslot : (target.get key).getD (.array []) = .array [] := by
    rw [habsent]
    rfl
  rw [groupedAt]
  split
  · rename_i hkey
    rw [map_mergeAll_singletons]
    exact foldl_replaced hkey h [] hslot
  · rename_i hkey
    exact foldl_merged hkey h (fun _ hgroup => absurd hgroup (List.not_mem_nil)) hslot

end Folding

section Groups

variable {E F : Type*} {key : String} {index : E → ℕ}

theorem getLast_eq_of_alone {batches : List (List E)} (h : Alone (batches.map (List.map index))) :
    batches.getLast?.getD [] = batches.flatten ∧ (batches.flatten.map index).Nodup := by
  induction batches with
  | nil => exact ⟨rfl, List.nodup_nil⟩
  | cons batch batches ih =>
      cases batch with
      | nil =>
          obtain ⟨hlast, hnodup⟩ := ih h
          rw [List.flatten_cons, List.nil_append, ← hlast, List.getLast?_cons]
          refine ⟨?_, hlast ▸ hnodup⟩
          cases batches.getLast? <;> rfl
      | cons entry first =>
          obtain ⟨hnodup, hrest⟩ := h
          rw [List.map_eq_nil_iff] at hrest
          subst hrest
          simp only [List.flatten_cons, List.flatten_nil, List.append_nil]
          exact ⟨rfl, hnodup⟩

theorem alone_of_getLast {batches : List (List E)} (hnodup : (batches.flatten.map index).Nodup)
    (hlength : batches.flatten.length = (batches.getLast?.getD []).length) :
    Alone (batches.map (List.map index)) := by
  induction batches with
  | nil => trivial
  | cons batch batches ih =>
      cases batch with
      | nil =>
          refine ih hnodup ?_
          rw [List.flatten_cons, List.nil_append, List.getLast?_cons] at hlength
          rw [hlength]
          cases batches.getLast? <;> rfl
      | cons entry first =>
          rw [List.flatten_cons, List.map_append, List.nodup_append] at hnodup
          refine ⟨hnodup.1, ?_⟩
          -- A later array would be the last one, without the first entries.
          cases batches with
          | nil => rfl
          | cons next batches =>
              have hlast : (next :: batches).getLast? = some ((next :: batches).getLast (by simp)) :=
                List.getLast?_eq_some_getLast _
              have hle := (List.sublist_flatten_of_mem (List.getLast_mem (by simp : next :: batches ≠ []))).length_le
              rw [List.getLast?_cons, hlast, List.flatten_cons, List.length_append, List.length_cons] at hlength
              simp only [Option.getD_some] at hlength
              omega

theorem groupedAt_perm_iff {batches : List (List E)} :
    (groupedAt key index batches).Perm (groupsByIndex index batches.flatten) ↔
      InStepAt key (batches.map (List.map index)) := by
  rw [groupedAt, InStepAt]
  split
  · constructor
    · intro h
      obtain ⟨hnodup, hlength⟩ := singletons_perm h
      exact alone_of_getLast hnodup hlength
    · intro h
      obtain ⟨hlast, hnodup⟩ := getLast_eq_of_alone h
      rw [hlast, singletons_eq hnodup]
  · exact grouped_perm_iff

theorem groupedAt_map (f : F → E) (batches : List (List F)) :
    groupedAt key index (batches.map (List.map f)) =
      (groupedAt key (fun entry => index (f entry)) batches).map (List.map f) := by
  rw [groupedAt, groupedAt]
  split
  · rw [List.getLast?_map]
    cases batches.getLast? with
    | none => rfl
    | some last =>
        simp only [Option.map_some, Option.getD_some, List.map_map, Function.comp_def, List.map_cons,
          List.map_nil]
  · exact grouped_map f batches

end Groups

section Marks

/-- An entry that carries its index a second time, where merging keeps it. -/
def marked (i : UInt64) : Value :=
  .object [("index", .number (.posInt i)), ("seen", .array [.number (.posInt i)])]

/-- The merge of marked entries. -/
def markedGroup (group : List UInt64) : Value :=
  .object [("index", ((group.getLast?.map fun i => .number (.posInt i)).getD .null)),
    ("seen", .array (group.map fun i => .number (.posInt i)))]

theorem markedGroup_injective : Function.Injective markedGroup := by
  intro group group' h
  simp only [markedGroup, Value.object.injEq, List.cons.injEq, Prod.mk.injEq, true_and, and_true,
    Value.array.injEq] at h
  refine List.map_injective_iff.mpr ?_ h.2
  intro i j hij
  simpa using hij

theorem mergeDeltaArray_numbers (group : List UInt64) (i : UInt64) :
    mergeDeltaArray (group.map fun i => .number (.posInt i)) [.number (.posInt i)] =
      (group ++ [i]).map fun i => .number (.posInt i) := by
  have hscalar : (group.map fun i => Value.number (.posInt i)).all isScalar = true := by
    rw [List.all_map, List.all_eq_true]
    exact fun i _ => rfl
  rw [mergeDeltaArray, if_pos hscalar, List.map_append]
  rfl

theorem mergeDeltaValue_marked (group : List UInt64) (i : UInt64) :
    mergeDeltaValue (markedGroup group) (marked i) = markedGroup (group ++ [i]) := by
  have hindex : Map.insert
      [("index", ((group.getLast?.map fun i => .number (.posInt i)).getD .null)),
        ("seen", .array (group.map fun i => .number (.posInt i)))] "index" (.number (.posInt i)) =
      [("index", .number (.posInt i)), ("seen", .array (group.map fun i => .number (.posInt i)))] := rfl
  have hseen : Map.get [("index", .number (.posInt i)),
      ("seen", Value.array (group.map fun i => .number (.posInt i)))] "seen" =
      some (.array (group.map fun i => .number (.posInt i))) := rfl
  rw [markedGroup, marked, mergeDeltaValue, mergeDeltaObject, if_pos (Or.inl rfl)]
  simp only [hindex]
  rw [mergeDeltaObject, if_neg (by decide)]
  simp only [hseen, mergeDeltaValue, mergeDeltaArray_numbers, mergeDeltaObject]
  rw [markedGroup, List.getLast?_concat]
  rfl

theorem mergeAll_marked {group : List UInt64} (hgroup : group ≠ []) :
    mergeAll (group.map marked) = markedGroup group := by
  induction group using List.reverseRecOn with
  | nil => exact absurd rfl hgroup
  | append_singleton group i ih =>
      rw [List.map_append, List.map_singleton, mergeAll_append]
      by_cases hnil : group = []
      · subst hnil
        exact mergeAll_singleton (marked i)
      · rw [ih hnil, mergeDeltaValue_marked]

theorem map_mergeAll_marked {groups : List (List UInt64)} (hgroups : [] ∉ groups) :
    (groups.map (List.map marked)).map mergeAll = groups.map markedGroup := by
  rw [List.map_map]
  apply List.map_congr_left
  intro group hgroup
  exact mergeAll_marked fun hnil => hgroups (hnil ▸ hgroup)

theorem nil_not_mem_groupedAt {E : Type*} (key : String) (index : E → ℕ) (batches : List (List E)) :
    [] ∉ groupedAt key index batches := by
  rw [groupedAt]
  split
  · exact nil_not_mem_singletons
  · exact nil_not_mem_grouped batches

/-- Marked entries are merged by their index only in step. -/
theorem inStepAt_of_marked {key : String} {batches : List (List UInt64)}
    (h : MergedByIndex (batches.map (List.map marked))
      (some (.array ((groupedAt key indexOf (batches.map (List.map marked))).map mergeAll)))) :
    InStepAt key (batches.map (List.map UInt64.toNat)) := by
  obtain ⟨acc, hacc, hperm⟩ := h
  injection hacc with hacc
  subst hacc
  rw [groupedAt_map, ← List.map_flatten, groupsByIndex_map,
    map_mergeAll_marked (nil_not_mem_groupedAt key _ batches),
    map_mergeAll_marked (nil_not_mem_groupsByIndex _), List.map_perm_map_iff markedGroup_injective] at hperm
  exact groupedAt_perm_iff.mp hperm

end Marks

section Main

variable {key : String} {target : Map} {deltas : List Map} {arrays : List (List Value)}

/-- The indices of the entries of some arrays. -/
def indices (arrays : List (List Value)) : List (List ℕ) := arrays.map (List.map indexOf)

/-- In step, the accumulated array is merged by index. -/
theorem mergedByIndex_of_inStep (habsent : target.get key = none)
    (h : List.Forall₂ (Carries key) deltas arrays) (hstep : InStepAt key (indices arrays)) :
    MergedByIndex arrays ((deltas.foldl mergeExtra target).get key) :=
  ⟨_, foldl_mergeExtra habsent h, (groupedAt_perm_iff.mpr hstep).map mergeAll⟩

theorem carries_marked (key : String) (batches : List (List UInt64)) :
    List.Forall₂ (Carries key)
      ((batches.map (List.map marked)).map fun entries => [(key, .array entries)])
      (batches.map (List.map marked)) := by
  rw [List.forall₂_map_left_iff, List.forall₂_same]
  intro entries hentries
  refine ⟨List.nodup_singleton _, ?_, ?_⟩
  · rw [Map.get_cons, if_pos rfl]
  · intro entry hentry
    obtain ⟨batch, -, rfl⟩ := List.mem_map.mp hentries
    obtain ⟨i, -, rfl⟩ := List.mem_map.mp hentry
    rfl

theorem indices_marked (batches : List (List UInt64)) :
    indices (batches.map (List.map marked)) = batches.map (List.map UInt64.toNat) := by
  rw [indices, List.map_map]
  apply List.map_congr_left
  intro batch _
  rw [Function.comp_apply, List.map_map]
  rfl

/-- The entries of arrays with some indices are merged by index, whatever they carry, exactly when these
indices are in step. -/
theorem mergedByIndex_iff_inStepAt (key : String) (target : Map) (habsent : target.get key = none)
    (shape : List (List UInt64)) :
    (∀ deltas arrays, List.Forall₂ (Carries key) deltas arrays →
      indices arrays = shape.map (List.map UInt64.toNat) →
        MergedByIndex arrays ((deltas.foldl mergeExtra target).get key)) ↔
      InStepAt key (shape.map (List.map UInt64.toNat)) := by
  constructor
  · intro hall
    obtain ⟨acc, hacc, hperm⟩ := hall _ _ (carries_marked key shape) (indices_marked shape)
    rw [foldl_mergeExtra habsent (carries_marked key shape)] at hacc
    exact inStepAt_of_marked ⟨acc, hacc, hperm⟩
  · intro hstep deltas arrays h hindices
    exact mergedByIndex_of_inStep habsent h (hindices ▸ hstep)

/-- An entry with a text. -/
def textEntry (i : UInt64) (text : String) : Value :=
  .object [("index", .number (.posInt i)), ("text", .string text)]

theorem carries_single (key : String) {entries : List Value}
    (hindexed : ∀ entry ∈ entries, (entryIndex entry).isSome) :
    Carries key [(key, .array entries)] entries where
  distinct := List.nodup_singleton _
  array := by rw [Map.get_cons, if_pos rfl]
  indexed := hindexed

/-- Two parts, the first of which goes on in the second delta. -/
theorem mergedByIndex_iff_inStepAt_parts :
    MergedByIndex [[textEntry 0 "a"], [textEntry 1 "b", textEntry 0 "c"]]
      (([[("parts", .array [textEntry 0 "a"])],
        [("parts", .array [textEntry 1 "b", textEntry 0 "c"])]].foldl mergeExtra []).get "parts") := by
  refine (mergedByIndex_iff_inStepAt "parts" [] rfl [[0], [1, 0]]).mpr (by decide) _ _ ?_ rfl
  refine .cons (carries_single "parts" ?_) (.cons (carries_single "parts" ?_) .nil)
  · intro entry hentry
    obtain rfl := List.mem_singleton.mp hentry
    rfl
  · intro entry hentry
    obtain rfl | rfl := by simpa using hentry
    · rfl
    · rfl

/-- A part with the index 1 that comes first stands at position 0: its continuation becomes an entry of
its own. -/
theorem gap_not_mergedByIndex :
    ¬ MergedByIndex [[textEntry 1 "a"], [textEntry 1 "b"]]
      (([[("parts", .array [textEntry 1 "a"])], [("parts", .array [textEntry 1 "b"])]].foldl
        mergeExtra []).get "parts") := by
  have hcarries : List.Forall₂ (Carries "parts")
      [[("parts", .array [textEntry 1 "a"])], [("parts", .array [textEntry 1 "b"])]]
      [[textEntry 1 "a"], [textEntry 1 "b"]] := by
    refine .cons (carries_single "parts" ?_) (.cons (carries_single "parts" ?_) .nil)
    · intro entry hentry
      obtain rfl := List.mem_singleton.mp hentry
      rfl
    · intro entry hentry
      obtain rfl := List.mem_singleton.mp hentry
      rfl
  rintro ⟨acc, hacc, hperm⟩
  rw [foldl_mergeExtra rfl hcarries] at hacc
  injection hacc with hacc
  have hlength := hperm.length_eq
  rw [← hacc, List.length_map, List.length_map] at hlength
  exact absurd hlength (by decide)

end Main

end OpenaiRs.Chat
