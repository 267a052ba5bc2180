import OpenaiRs.StrictSchema.Reference

/-!
# Round trips of local pointers

What `escape_pointer` writes is read back by `unescape_pointer`, and a pointer that is put together from escaped
keys leads through these keys.
-/

namespace OpenaiRs.StrictSchema

open Serde

section Escaping

/-- The two replacements at one character. -/
def escapeChar (ch : Char) : List Char :=
  if ch = '~' then ['~', '0'] else if ch = '/' then ['~', '1'] else [ch]

/-- The second replacement does not touch what the first one writes. -/
theorem toList_escapePointer (segment : String) : (escapePointer segment).toList = segment.toList.flatMap escapeChar := by
  rw [escapePointer, String.toList_ofList, replace, replace, List.flatMap_assoc]
  congr 1
  funext ch
  by_cases htilde : ch = '~'
  · subst htilde
    rfl
  · by_cases hslash : ch = '/'
    · subst hslash
      rfl
    · simp [escapeChar, htilde, hslash]

theorem unescapeChars_cons {ch : Char} (h : ch ≠ '~') (rest : List Char) :
    unescapeChars (ch :: rest) = (unescapeChars rest).map (ch :: ·) := by
  conv_lhs => unfold unescapeChars
  exact if_neg h

/-- An escaped character is read as one character. -/
theorem unescapeChars_escapeChar (ch : Char) (rest : List Char) :
    unescapeChars (escapeChar ch ++ rest) = (unescapeChars rest).map (ch :: ·) := by
  by_cases htilde : ch = '~'
  · subst htilde
    rfl
  · by_cases hslash : ch = '/'
    · subst hslash
      rfl
    · rw [escapeChar, if_neg htilde, if_neg hslash, List.singleton_append, unescapeChars_cons htilde]

theorem unescapeChars_flatMap (text : List Char) : unescapeChars (text.flatMap escapeChar) = some text := by
  induction text with
  | nil => rfl
  | cons ch rest ih => rw [List.flatMap_cons, unescapeChars_escapeChar, ih, Option.map_some]

theorem unescapePointer_escapePointer (segment : String) :
    unescapePointer (escapePointer segment).toList = some segment := by
  rw [toList_escapePointer, unescapePointer, unescapeChars_flatMap, Option.map_some, String.ofList_toList]

/-- No separator is left in an escaped key. -/
theorem slash_not_mem_escapePointer (segment : String) : '/' ∉ (escapePointer segment).toList := by
  rw [toList_escapePointer]
  intro hmem
  obtain ⟨ch, -, hch⟩ := List.mem_flatMap.mp hmem
  rw [escapeChar] at hch
  split at hch
  · simp at hch
  · split at hch
    · simp at hch
    · rename_i hslash
      exact hslash (List.mem_singleton.mp hch).symm

end Escaping

section Malformed

/-- A `~` that neither `0` nor `1` follows. -/
def Malformed (text : List Char) : Prop :=
  ∃ before after, text = before ++ '~' :: after ∧ after.head? ≠ some '0' ∧ after.head? ≠ some '1'

theorem malformed_cons {ch : Char} {rest : List Char} (h : ch ≠ '~') : Malformed (ch :: rest) ↔ Malformed rest := by
  constructor
  · rintro ⟨before, after, heq, hafter⟩
    cases before with
    | nil =>
        cases heq
        exact absurd rfl h
    | cons other before =>
        obtain ⟨-, heq⟩ := List.cons.inj heq
        exact ⟨before, after, heq, hafter⟩
  · rintro ⟨before, after, rfl, hafter⟩
    exact ⟨ch :: before, after, rfl, hafter⟩

theorem malformed_tilde (rest : List Char) :
    Malformed ('~' :: rest) ↔ (rest.head? ≠ some '0' ∧ rest.head? ≠ some '1') ∨ Malformed rest := by
  constructor
  · rintro ⟨before, after, heq, hafter⟩
    cases before with
    | nil =>
        cases heq
        exact .inl hafter
    | cons other before =>
        obtain ⟨-, heq⟩ := List.cons.inj heq
        exact .inr ⟨before, after, heq, hafter⟩
  · rintro (hrest | ⟨before, after, rfl, hafter⟩)
    · exact ⟨[], rest, rfl, hrest⟩
    · exact ⟨'~' :: before, after, rfl, hafter⟩

/-- Decoding stops at a malformed escape and at nothing else. -/
theorem unescapeChars_eq_none_iff (text : List Char) : unescapeChars text = none ↔ Malformed text := by
  induction text using unescapeChars.induct with
  | case1 =>
      constructor
      · intro h
        cases h
      · rintro ⟨before, after, heq, -⟩
        simp at heq
  | case2 rest ih =>
      rw [unescapeChars, if_pos rfl, Option.map_eq_none_iff, ih, malformed_tilde, malformed_cons (by decide)]
      simp
  | case3 rest ih =>
      rw [unescapeChars, if_pos rfl, Option.map_eq_none_iff, ih, malformed_tilde, malformed_cons (by decide)]
      simp
  | case4 rest hzero hone =>
      refine iff_of_true ?_ ((malformed_tilde rest).mpr (.inl ⟨?_, ?_⟩))
      · unfold unescapeChars
        rw [if_pos rfl]
        split
        · exact (hzero _ rfl).elim
        · exact (hone _ rfl).elim
        · rfl
      · intro hhead
        obtain ⟨tail, rfl⟩ := List.head?_eq_some_iff.mp hhead
        exact hzero tail rfl
      · intro hhead
        obtain ⟨tail, rfl⟩ := List.head?_eq_some_iff.mp hhead
        exact hone tail rfl
  | case5 ch rest htilde ih =>
      rw [unescapeChars_cons htilde, Option.map_eq_none_iff, ih, malformed_cons htilde]

end Malformed

section Pointers

/-- `#/` and the escaped keys with separators between them. -/
def pointerTo (keys : List String) : String := "#/" ++ "/".intercalate (keys.map escapePointer)

theorem pointerOf_pointerTo (keys : List String) :
    pointerOf (pointerTo keys) = some (['/'].intercalate (keys.map fun key => (escapePointer key).toList)) := by
  rw [pointerOf, pointerTo, String.toList_append, String.toList_intercalate, List.map_map]
  rfl

theorem pointerTo_ne_root (keys : List String) : pointerTo keys ≠ "#" := by
  intro h
  have hpointer := pointerOf_pointerTo keys
  rw [h] at hpointer
  cases hpointer

theorem splitOn_intercalate_escaped {keys : List String} (h : keys ≠ []) :
    (['/'].intercalate (keys.map fun key => (escapePointer key).toList)).splitOn '/' =
      keys.map fun key => (escapePointer key).toList := by
  refine List.splitOn_intercalate '/' ?_ (by simpa using h)
  intro segment hmem
  obtain ⟨key, -, rfl⟩ := List.mem_map.mp hmem
  exact slash_not_mem_escapePointer key

theorem mapM_unescapePointer (keys : List String) :
    (keys.map fun key => (escapePointer key).toList).mapM unescapePointer = some keys := by
  induction keys with
  | nil => rfl
  | cons key rest ih => simp [List.mapM_cons, unescapePointer_escapePointer, ih]

/-- A pointer of escaped keys goes through these keys. -/
theorem pointerKeys_pointerTo {keys : List String} (h : keys ≠ []) : pointerKeys (pointerTo keys) = some keys := by
  rw [pointerKeys, if_neg (pointerTo_ne_root keys), pointerOf_pointerTo, Option.bind_some,
    splitOn_intercalate_escaped h, mapM_unescapePointer]

/-- Escaped keys resolve to what nested lookup of the keys finds, escaping is undone, and what is rejected is what
has a malformed escape. -/
theorem pointers_round_trip :
    (∀ (value : Value) (key : String) (keys : List String),
        resolveRef value (pointerTo (key :: keys)) = lookupKeys value (key :: keys)) ∧
      (∀ segment : String, unescapePointer (escapePointer segment).toList = some segment) ∧
      ∀ segment : String, unescapePointer segment.toList = none ↔ Malformed segment.toList := by
  refine ⟨?_, unescapePointer_escapePointer, ?_⟩
  · intro value key keys
    rw [resolveRef_eq, pointerKeys_pointerTo (List.cons_ne_nil key keys), Option.bind_some]
  · intro segment
    rw [unescapePointer, Option.map_eq_none_iff]
    exact unescapeChars_eq_none_iff segment.toList

end Pointers

end OpenaiRs.StrictSchema
