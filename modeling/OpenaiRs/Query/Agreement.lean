import OpenaiRs.Query.Encoders
import OpenaiRs.Rust.FormUrlencoded

/-!
# The query encoders agree

Both encoders write one pair for each leaf that has a text, in the order of the document. The platform one refuses
what is nested deeper than a list of scalars, and where it succeeds both channels send the same URL.
-/

namespace OpenaiRs.Query

open Rust Serde

section Texts

variable (numberText : Number → String)

/-- What a scalar is sent as; `null` and the empty string are not sent. -/
def scalarText : Value → Option String
  | .bool b => some (boolText b)
  | .number n => some (numberText n)
  | .string s => if s.isEmpty then none else some s
  | _ => none

/-- How a step of a path is spelled in the name of a pair. -/
def stepText : PathStep → String
  | .item _ => "[]"
  | .member _ key => "[" ++ key ++ "]"

def pathText : List PathStep → String
  | [] => ""
  | step :: rest => stepText step ++ pathText rest

/-- The pair of a leaf below the value that is called `name`. -/
def leafPair (name : String) (leaf : Leaf) : Option Pair :=
  (scalarText numberText leaf.2).map fun text => (name ++ pathText leaf.1, text)

/-- The pairs of the leaves of the value that is called `name`. -/
def pairsOf (name : String) (value : Value) : List Pair := (leaves value).filterMap (leafPair numberText name)

/-- The name of a leaf of a query starts with the key of its field. -/
def queryName : List PathStep → String
  | .member _ key :: rest => key ++ pathText rest
  | path => pathText path

/-- The pair of a leaf of a query. -/
def queryPair (leaf : Leaf) : Option Pair :=
  (scalarText numberText leaf.2).map fun text => (queryName leaf.1, text)

end Texts

section Leaves

variable {numberText : Number → String} {name : String}

theorem leafPair_below (step : PathStep) (leaf : Leaf) :
    leafPair numberText name (leaf.below step) = leafPair numberText (name ++ stepText step) leaf := by
  rw [leafPair, leafPair, Leaf.below, pathText, String.append_assoc]

theorem filterMap_below (step : PathStep) (below : List Leaf) :
    (below.map (Leaf.below step)).filterMap (leafPair numberText name) =
      below.filterMap (leafPair numberText (name ++ stepText step)) := by
  rw [List.filterMap_map]
  exact List.filterMap_congr fun leaf _ => leafPair_below step leaf

theorem pairsOf_leaf {value : Value} (h : value.isLeaf = true) :
    pairsOf numberText name value = ((scalarText numberText value).map fun text => (name, text)).toList := by
  rw [pairsOf, leaves_leaf h, List.filterMap_cons, leafPair, pathText, String.append_empty]
  cases scalarText numberText value <;> rfl

theorem pairsOf_node {value : Value} (h : ¬ value.isLeaf = true) :
    pairsOf numberText name value =
      value.children.flatMap fun entry => pairsOf numberText (name ++ stepText entry.1) entry.2 := by
  rw [pairsOf, leaves_node h, List.filterMap_flatMap]
  exact List.flatMap_congr fun entry _ => filterMap_below entry.1 (leaves entry.2)

theorem flatMap_zipIdx {α β : Type} (f : α → List β) (entries : List α) (start : ℕ) :
    (entries.zipIdx start).flatMap (fun entry => f entry.1) = entries.flatMap f := by
  induction entries generalizing start with
  | nil => rfl
  | cons entry rest ih => rw [List.zipIdx_cons, List.flatMap_cons, List.flatMap_cons, ih]

theorem not_isLeaf_array (items : List Value) : ¬ (Value.array items).isLeaf = true := Bool.false_ne_true

theorem not_isLeaf_object (members : Map) : ¬ (Value.object members).isLeaf = true := Bool.false_ne_true

theorem pairsOf_array (items : List Value) :
    pairsOf numberText name (.array items) = items.flatMap (pairsOf numberText (name ++ "[]")) := by
  rw [pairsOf_node (not_isLeaf_array items), Value.children, List.flatMap_map]
  exact flatMap_zipIdx (pairsOf numberText (name ++ "[]")) items 0

theorem pairsOf_object (members : Map) :
    pairsOf numberText name (.object members) =
      members.flatMap fun member => pairsOf numberText (name ++ "[" ++ member.1 ++ "]") member.2 := by
  rw [pairsOf_node (not_isLeaf_object members), Value.children, List.flatMap_map,
    ← flatMap_zipIdx (fun member : String × Value => pairsOf numberText (name ++ "[" ++ member.1 ++ "]") member.2)
      members 0]
  apply List.flatMap_congr
  intro entry _
  simp only [stepText, String.append_assoc]

/-- The pairs of the fields are those of the leaves of the query. -/
theorem flatMap_pairsOf (fields : Map) :
    (fields.flatMap fun field => pairsOf numberText field.1 field.2) =
      (leaves (.object fields)).filterMap (queryPair numberText) := by
  rw [leaves_node (not_isLeaf_object fields), List.filterMap_flatMap, Value.children, List.flatMap_map,
    ← flatMap_zipIdx (fun field : String × Value => pairsOf numberText field.1 field.2) fields 0]
  apply List.flatMap_congr
  intro entry _
  rw [List.filterMap_map]
  rfl

end Leaves

section Administration

variable (numberText : Number → String)

mutual

theorem appendQueryValue_eq (pairs : List Pair) (name : String) (value : Value) :
    appendQueryValue numberText pairs name value = .ok (pairs ++ pairsOf numberText name value) :=
  match value with
  | .null => by rw [pairsOf_leaf rfl, appendQueryValue]; simp [scalarText]
  | .bool b => by rw [pairsOf_leaf rfl, appendQueryValue]; rfl
  | .number n => by rw [pairsOf_leaf rfl, appendQueryValue]; rfl
  | .string s => by
      rw [pairsOf_leaf rfl, appendQueryValue, scalarText]
      split <;> simp
  | .array items => by
      rw [appendQueryValue, appendBracketed_eq pairs (name ++ "[]") items, pairsOf_array]
  | .object members => by
      rw [appendQueryValue, appendNested_eq pairs name members, pairsOf_object]

theorem appendBracketed_eq (pairs : List Pair) (bracketed : String) (items : List Value) :
    appendBracketed numberText pairs bracketed items =
      .ok (pairs ++ items.flatMap (pairsOf numberText bracketed)) :=
  match items with
  | [] => by rw [appendBracketed, List.flatMap_nil, List.append_nil]
  | value :: rest => by
      rw [appendBracketed, appendQueryValue_eq pairs bracketed value, List.flatMap_cons, ← List.append_assoc]
      exact appendBracketed_eq _ bracketed rest

theorem appendNested_eq (pairs : List Pair) (name : String) (members : List (String × Value)) :
    appendNested numberText pairs name members = .ok (pairs ++ members.flatMap fun member =>
      pairsOf numberText (name ++ "[" ++ member.1 ++ "]") member.2) :=
  match members with
  | [] => by rw [appendNested, List.flatMap_nil, List.append_nil]
  | (child, value) :: rest => by
      rw [appendNested, appendQueryValue_eq pairs (name ++ "[" ++ child ++ "]") value, List.flatMap_cons,
        ← List.append_assoc]
      exact appendNested_eq _ name rest

end

theorem encodeFields_eq (pairs : List Pair) (fields : Map) :
    encodeFields numberText pairs fields =
      .ok (pairs ++ fields.flatMap fun field => pairsOf numberText field.1 field.2) := by
  induction fields generalizing pairs with
  | nil => rw [encodeFields, List.flatMap_nil, List.append_nil]
  | cons field rest ih =>
      obtain ⟨name, value⟩ := field
      rw [encodeFields, appendQueryValue_eq numberText pairs name value, List.flatMap_cons, ← List.append_assoc]
      exact ih _

/-- Taking what a partial function gives keeps what it is given for. -/
theorem forall₂_filterMap {α β : Type} (f : α → Option β) (entries : List α) :
    List.Forall₂ (fun entry image => f entry = some image) (entries.filter fun entry => (f entry).isSome)
      (entries.filterMap f) := by
  induction entries with
  | nil => exact .nil
  | cons entry rest ih =>
      cases h : f entry with
      | none => simpa [h] using ih
      | some image => simpa [h] using ih

theorem isSome_queryPair {path : List PathStep} {leaf : Value} (hleaf : leaf.isLeaf = true) :
    (queryPair numberText (path, leaf)).isSome = true ↔ leaf ≠ .null ∧ leaf ≠ .string "" := by
  cases leaf with
  | array items => cases hleaf
  | object members => cases hleaf
  | string s =>
      rw [queryPair, Option.isSome_map, scalarText]
      by_cases hs : s = ""
      · simp [hs]
      · simp [hs]
  | _ => simp [queryPair, scalarText]

theorem boolText_ne_empty (b : Bool) : boolText b ≠ "" := by
  cases b <;> decide

theorem ne_empty_of_queryPair (hnumber : ∀ n, numberText n ≠ "") {leaf : Leaf} {pair : Pair}
    (h : queryPair numberText leaf = some pair) : pair.2 ≠ "" := by
  obtain ⟨text, htext, rfl⟩ := Option.map_eq_some_iff.mp h
  obtain ⟨path, value⟩ := leaf
  cases value with
  | bool b =>
      obtain rfl := Option.some.inj htext
      exact boolText_ne_empty b
  | number n =>
      obtain rfl := Option.some.inj htext
      exact hnumber n
  | string s =>
      rw [scalarText] at htext
      split at htext
      · cases htext
      · rename_i hs
        obtain rfl := Option.some.inj htext
        exact fun hempty => hs (String.isEmpty_iff.mpr hempty)
  | _ => cases htext

/-- The Administration encoder takes every object. It writes exactly one pair for each leaf at the end of a path that
is neither `null` nor an empty string, in the order of the document and named by the path, and no value is empty. -/
theorem encodeQuery_leaves (hnumber : ∀ n, numberText n ≠ "") (fields : Map) :
    ∃ pairs, encodeQuery numberText (.ok (.object fields)) = .ok pairs ∧ (∀ pair ∈ pairs, pair.2 ≠ "") ∧
      ∃ sent : List Leaf, List.Forall₂ (fun leaf pair => queryPair numberText leaf = some pair) sent pairs ∧
        (sent.Pairwise fun leaf leaf' => Before leaf.1 leaf'.1) ∧
        ∀ path leaf, (path, leaf) ∈ sent ↔
          (Value.object fields).descend path = some leaf ∧ leaf.isLeaf = true ∧ leaf ≠ .null ∧ leaf ≠ .string "" := by
  refine ⟨(leaves (.object fields)).filterMap (queryPair numberText), ?_, ?_,
    (leaves (.object fields)).filter fun leaf => (queryPair numberText leaf).isSome,
    forall₂_filterMap (queryPair numberText) _, (pairwise_leaves _).filter _, ?_⟩
  · rw [encodeQuery, encodeFields_eq, List.nil_append, flatMap_pairsOf]
  · intro pair hpair
    obtain ⟨leaf, -, hleaf⟩ := List.mem_filterMap.mp hpair
    exact ne_empty_of_queryPair numberText hnumber hleaf
  · intro path leaf
    rw [List.mem_filter, mem_leaves, and_assoc]
    exact and_congr_right fun _ => and_congr_right fun hleaf => isSome_queryPair numberText hleaf

/-- A nested filter beside a list and two fields that are not sent. -/
def auditFilter : Map :=
  [("effective_at", .object [("gt", .string "1"), ("lt", .null)]), ("ids", .array [.string "", .string "user_1"]),
    ("after", .string "")]

theorem encodeQuery_leaves_auditFilter :
    ∃ pairs, encodeQuery (fun _ => "0") (.ok (.object auditFilter)) = .ok pairs ∧ (∀ pair ∈ pairs, pair.2 ≠ "") ∧
      ∃ sent : List Leaf, List.Forall₂ (fun leaf pair => queryPair (fun _ => "0") leaf = some pair) sent pairs ∧
        (sent.Pairwise fun leaf leaf' => Before leaf.1 leaf'.1) ∧
        ∀ path leaf, (path, leaf) ∈ sent ↔
          (Value.object auditFilter).descend path = some leaf ∧ leaf.isLeaf = true ∧ leaf ≠ .null ∧
            leaf ≠ .string "" :=
  encodeQuery_leaves (fun _ => "0") (fun _ => by decide) auditFilter

end Administration

section Platform

variable (numberText : Number → String) (appendPair : Bytes → Pair → Bytes)

/-- A field that the platform encoder can write: a scalar, or a list of scalars. -/
def Flat : Value → Prop
  | .object _ => False
  | .array items => ∀ item ∈ items, item.isLeaf = true
  | _ => True

def Appending.pushAll (state : Appending) (pairs : List Pair) : Appending := pairs.foldl (Appending.push appendPair) state

variable {numberText} {appendPair} {state : Appending} {name : String}

theorem pushAll_append (pairs pairs' : List Pair) :
    state.pushAll appendPair (pairs ++ pairs') = (state.pushAll appendPair pairs).pushAll appendPair pairs' :=
  List.foldl_append

theorem target_pushAll (pairs : List Pair) :
    (state.pushAll appendPair pairs).target = pairs.foldl appendPair state.target := by
  induction pairs generalizing state with
  | nil => rfl
  | cons pair rest ih => exact ih

theorem appended_pushAll (pairs : List Pair) :
    (state.pushAll appendPair pairs).appended = (state.appended || !pairs.isEmpty) := by
  induction pairs generalizing state with
  | nil => simp [Appending.pushAll]
  | cons pair rest ih =>
      refine (@ih (state.push appendPair pair)).trans ?_
      simp [Appending.push]

theorem queryScalar_leaf {value : Value} (h : value.isLeaf = true) :
    queryScalar numberText name value = .ok (scalarText numberText value) := by
  cases value with
  | array items => cases h
  | object members => cases h
  | _ => rfl

theorem queryScalar_node {value : Value} (h : ¬ value.isLeaf = true) :
    ∃ error, queryScalar numberText name value = .error error := by
  cases value with
  | array items => exact ⟨_, rfl⟩
  | object members => exact ⟨_, rfl⟩
  | _ => exact absurd rfl h

theorem appendItems_flat {items : List Value} (h : ∀ item ∈ items, item.isLeaf = true) :
    appendItems numberText appendPair name items state =
      (state.pushAll appendPair (items.flatMap (pairsOf numberText (name ++ "[]"))), .ok ()) := by
  induction items generalizing state with
  | nil => rfl
  | cons value rest ih =>
      obtain ⟨hvalue, hrest⟩ := List.forall_mem_cons.mp h
      rw [appendItems, queryScalar_leaf hvalue, List.flatMap_cons, pairsOf_leaf hvalue]
      cases scalarText numberText value with
      | none => exact ih hrest
      | some text => exact ih hrest

theorem appendItems_nested {items : List Value} (h : ¬ ∀ item ∈ items, item.isLeaf = true) :
    ∃ state' error, appendItems numberText appendPair name items state = (state', .error error) := by
  induction items generalizing state with
  | nil => exact absurd (List.forall_mem_nil _) h
  | cons value rest ih =>
      rw [appendItems]
      by_cases hvalue : value.isLeaf = true
      · have hrest : ¬ ∀ item ∈ rest, item.isLeaf = true := fun hrest => h (List.forall_mem_cons.mpr ⟨hvalue, hrest⟩)
        rw [queryScalar_leaf hvalue]
        cases scalarText numberText value with
        | none => exact ih hrest
        | some text => exact ih hrest
      · obtain ⟨error, herror⟩ : ∃ error, queryScalar numberText name value = .error error := queryScalar_node hvalue
        rw [herror]
        exact ⟨state, error, rfl⟩

theorem appendField_flat {value : Value} (h : Flat value) :
    appendField numberText appendPair name value state = (state.pushAll appendPair (pairsOf numberText name value), .ok ()) := by
  cases value with
  | object members => exact h.elim
  | array items => rw [appendField, appendItems_flat h, pairsOf_array]
  | string s =>
      rw [appendField, pairsOf_leaf rfl, scalarText]
      split <;> rfl
  | null => rw [appendField, pairsOf_leaf rfl]; rfl
  | bool b => rw [appendField, pairsOf_leaf rfl]; rfl
  | number n => rw [appendField, pairsOf_leaf rfl]; rfl

theorem appendField_nested {value : Value} (h : ¬ Flat value) :
    ∃ state' error, appendField numberText appendPair name value state = (state', .error error) := by
  cases value with
  | object members => exact ⟨_, _, rfl⟩
  | array items => exact appendItems_nested h
  | _ => exact absurd trivial h

theorem appendFields_flat {fields : Map} (h : ∀ field ∈ fields, Flat field.2) :
    appendFields numberText appendPair fields state =
      (state.pushAll appendPair (fields.flatMap fun field => pairsOf numberText field.1 field.2), .ok ()) := by
  induction fields generalizing state with
  | nil => rfl
  | cons field rest ih =>
      obtain ⟨name, value⟩ := field
      obtain ⟨hvalue, hrest⟩ := List.forall_mem_cons.mp h
      rw [appendFields, appendField_flat hvalue, List.flatMap_cons, pushAll_append]
      exact ih hrest

theorem appendFields_nested {fields : Map} (h : ¬ ∀ field ∈ fields, Flat field.2) :
    ∃ state' error, appendFields numberText appendPair fields state = (state', .error error) := by
  induction fields generalizing state with
  | nil => exact absurd (List.forall_mem_nil _) h
  | cons field rest ih =>
      obtain ⟨name, value⟩ := field
      rw [appendFields]
      by_cases hvalue : Flat value
      · rw [appendField_flat hvalue]
        exact ih fun hrest => h (List.forall_mem_cons.mpr ⟨hvalue, hrest⟩)
      · obtain ⟨state', error, herror⟩ : ∃ state' error, appendField numberText appendPair name value state = (state', .error error) :=
          appendField_nested hvalue
        rw [herror]
        exact ⟨state', error, rfl⟩

end Platform

section Urls

variable (numberText : Number → String) (appendPair : Bytes → Pair → Bytes)

/-- How the Administration channel writes its pairs into a URL. -/
def Url.withPairs (url : Url) (pairs : List Pair) : Url :=
  if pairs.isEmpty then url
  else { url with query := some (pairs.foldl appendPair (url.query.getD [])) }

/-- What the platform encoder leaves of a URL without query, if all fields are flat. -/
theorem appendQuery_flat {url : Url} (hquery : url.query = none) {fields : Map} (h : ∀ field ∈ fields, Flat field.2) :
    appendQuery numberText appendPair url (.ok (.object fields)) =
      (url.withPairs appendPair (fields.flatMap fun field => pairsOf numberText field.1 field.2), .ok ()) := by
  rw [appendQuery, appendFields_flat h, hquery]
  obtain ⟨front, query, fragment⟩ := url
  cases hquery
  cases hfields : fields with
  | nil => rfl
  | cons field rest =>
      rw [← hfields, if_neg (by simp [hfields])]
      simp only [appended_pushAll, target_pushAll, Url.withPairs, Bool.false_or, Option.getD_none, Bool.not_eq_true']
      cases (fields.flatMap fun field => pairsOf numberText field.1 field.2).isEmpty <;> rfl

theorem appendQuery_nested (url : Url) {fields : Map} (h : ¬ ∀ field ∈ fields, Flat field.2) :
    (appendQuery numberText appendPair url (.ok (.object fields))).2 ≠ .ok () := by
  obtain ⟨state, error, herror⟩ : ∃ state error, appendFields numberText appendPair fields ⟨url.query.getD [], false⟩ =
      (state, .error error) := appendFields_nested h
  rw [appendQuery, herror]
  cases fields with
  | nil => exact absurd (List.forall_mem_nil _) h
  | cons field rest => exact fun hok => by cases hok

/-- On a URL without query the platform encoder succeeds exactly on flat fields, and then leaves the URL that the
Administration channel sends for the same object. -/
theorem appendQuery_agrees (url : Url) (hquery : url.query = none) (fields : Map) :
    ((appendQuery numberText appendPair url (.ok (.object fields))).2 = .ok () ↔ ∀ field ∈ fields, Flat field.2) ∧
      ((appendQuery numberText appendPair url (.ok (.object fields))).2 = .ok () →
        ∃ pairs, encodeQuery numberText (.ok (.object fields)) = .ok pairs ∧
          (appendQuery numberText appendPair url (.ok (.object fields))).1 = url.withPairs appendPair pairs) := by
  by_cases hflat : ∀ field ∈ fields, Flat field.2
  · rw [appendQuery_flat numberText appendPair hquery hflat]
    refine ⟨iff_of_true rfl hflat, fun _ => ⟨_, ?_, rfl⟩⟩
    rw [encodeQuery, encodeFields_eq, List.nil_append]
  · have hfails := appendQuery_nested numberText appendPair url hflat
    exact ⟨iff_of_false hfails hflat, fun hok => absurd hok hfails⟩

/-- A list with something to leave out, and a field that is not sent. -/
def fileFilter : Map :=
  [("active", .bool false), ("ids", .array [.null, .string "", .string "file_1"]), ("metadata", .null)]

def filesUrl : Url := ⟨"https://api.openai.com/v1/files", none, none⟩

theorem appendQuery_agrees_fileFilter :
    ((appendQuery (fun _ => "0") Rust.appendPair filesUrl (.ok (.object fileFilter))).2 = .ok () ↔
        ∀ field ∈ fileFilter, Flat field.2) ∧
      ((appendQuery (fun _ => "0") Rust.appendPair filesUrl (.ok (.object fileFilter))).2 = .ok () →
        ∃ pairs, encodeQuery (fun _ => "0") (.ok (.object fileFilter)) = .ok pairs ∧
          (appendQuery (fun _ => "0") Rust.appendPair filesUrl (.ok (.object fileFilter))).1 =
            filesUrl.withPairs Rust.appendPair pairs) :=
  appendQuery_agrees (fun _ => "0") Rust.appendPair filesUrl rfl fileFilter

end Urls

end OpenaiRs.Query
