import OpenaiRs.Json.Values
import OpenaiRs.Preview.Body

/-!
# Secrets in JSON bodies

JSON texts that differ only in the strings that sensitive keys hold directly: their trees are the same once these
strings are left blank. The redaction by structure does not see what is left blank.

## Implementation notes

The relation is one of texts, by the grammar alone. What `serde_json` reads of a text is the value of its tree, if it
reads the text at all; it refuses numbers beyond `f64`, deep nesting, bytes that are not UTF-8 and lone surrogates.
-/

namespace OpenaiRs.Preview

open Rust Json

section Blank

/-- The name of the member is a sensitive key. -/
def isSensitive (label : Label) : Bool := label.name.decoded.any isSensitiveKey

/-- A string that a sensitive key holds, left blank. -/
def blankHeld (label : Label) : Tree → Tree
  | .mk before (.string string) after =>
      .mk before (.string (if isSensitive label then ⟨[], .nil⟩ else string)) after
  | value => value

mutual

/-- A tree without the strings that sensitive keys hold directly. -/
def blank : Tree → Tree
  | .mk before node after => .mk before (blankNode node) after

def blankNode : Node → Node
  | .array items => .array (blankItems items)
  | .object members => .object (blankMembers members)
  | node => node

def blankItems : ItemTrees → ItemTrees
  | .one value => .one (blank value)
  | .cons value rest => .cons (blank value) (blankItems rest)

def blankMembers : MemberTrees → MemberTrees
  | .one label value => .one label (blankHeld label (blank value))
  | .cons label value rest => .cons label (blankHeld label (blank value)) (blankMembers rest)

end

/-- Two JSON texts that differ only in strings that sensitive keys hold directly. -/
def DifferInSecrets (bytes bytes' : Bytes) : Prop :=
  ∃ tree tree' : Tree, tree.text = bytes ∧ tree'.text = bytes' ∧ blank tree = blank tree'

end Blank

section Redaction

theorem redactMembers_eq_rewrite (members : List (String × Serde.Value)) :
    redactMembers members = Serde.Map.rewrite (fun key value => redactJson value (some key)) members := by
  induction members with
  | nil => rfl
  | cons member rest ih =>
      obtain ⟨key, value⟩ := member
      rw [redactMembers, ih]
      rfl

/-- It does not matter whether members are redacted before they are inserted or after. -/
theorem redactMembers_collect (members : List (String × Serde.Value)) :
    redactMembers (Serde.Map.collect members) = Serde.Map.collect (redactMembers members) := by
  rw [redactMembers_eq_rewrite, redactMembers_eq_rewrite, Serde.Map.rewrite_collect]

theorem redactJson_sensitive {key : String} (h : isSensitiveKey key = true) (value : Serde.Value) :
    redactJson value (some key) = .string "[REDACTED]" := by
  rw [redactJson.eq_def, Option.any_some, if_pos h]

/-- Values that look the same once they are redacted. -/
def SameRedacted (value value' : Serde.Value) : Prop := ∀ key, redactJson value key = redactJson value' key

theorem SameRedacted.array {values values' : List Serde.Value}
    (h : ∀ key, redactItems values key = redactItems values' key) : SameRedacted (.array values) (.array values') := by
  intro key
  rw [redactJson.eq_def, redactJson.eq_def (.array values')]
  split
  · rfl
  · exact congrArg Serde.Value.array (h key)

theorem SameRedacted.object {members members' : List (String × Serde.Value)}
    (h : redactMembers members = redactMembers members') :
    SameRedacted (.object (Serde.Map.collect members)) (.object (Serde.Map.collect members')) := by
  intro key
  rw [redactJson.eq_def, redactJson.eq_def (.object (Serde.Map.collect members'))]
  split
  · rfl
  · dsimp only
    rw [redactMembers_collect, redactMembers_collect, h]

end Redaction

section Trees

variable {number : Bytes → Option Serde.Number} {embedded : String → Option Serde.Value}

theorem decoded_empty : StringText.decoded ⟨[], .nil⟩ = some "" := decoded_plain (List.forall_mem_nil _)

theorem blankHeld_plain {label : Label} (h : isSensitive label = false) (tree : Tree) : blankHeld label tree = tree := by
  obtain ⟨before, node, after⟩ := tree
  cases node with
  | string string => rw [blankHeld, h, if_neg Bool.false_ne_true]
  | _ => rfl

theorem exists_value_blankHeld {label : Label} {key : String} (hkey : label.name.decoded = some key) {tree : Tree}
    {value : Serde.Value} (h : tree.value number embedded = some value) :
    ∃ value', (blankHeld label tree).value number embedded = some value' ∧
      redactJson value' (some key) = redactJson value (some key) := by
  by_cases hsensitive : isSensitiveKey key = true
  · have hheld : ∃ value', (blankHeld label tree).value number embedded = some value' := by
      obtain ⟨before, node, after⟩ := tree
      cases node with
      | string string =>
          have hlabel : isSensitive label = true := by rw [isSensitive, hkey, Option.any_some, hsensitive]
          rw [blankHeld, hlabel, if_pos rfl, Tree.value, Node.value, decoded_empty]
          exact ⟨.string "", rfl⟩
      | _ => exact ⟨value, h⟩
    obtain ⟨value', hvalue'⟩ := hheld
    exact ⟨value', hvalue', by rw [redactJson_sensitive hsensitive, redactJson_sensitive hsensitive]⟩
  · have hlabel : isSensitive label = false := by
      rw [isSensitive, hkey, Option.any_some, Bool.eq_false_iff]
      exact hsensitive
    rw [blankHeld_plain hlabel]
    exact ⟨value, h, rfl⟩

theorem first_blankMembers (members : MemberTrees) : (blankMembers members).first = members.first := by
  cases members with
  | one label value => rfl
  | cons label value rest => rfl

/-- The token of raw values is no sensitive key. -/
theorem onlyString_blankMembers {members : MemberTrees} (h : members.first.name.decoded = some rawValueToken) :
    (blankMembers members).onlyString = members.onlyString := by
  have htoken : isSensitiveKey rawValueToken = false := by decide
  cases members with
  | cons label value rest => rfl
  | one label value =>
      have hlabel : isSensitive label = false := by
        change label.name.decoded = some rawValueToken at h
        rw [isSensitive, h, Option.any_some, htoken]
      rw [blankMembers, blankHeld_plain hlabel]
      obtain ⟨before, node, after⟩ := value
      cases node with
      | _ => rfl

mutual

/-- What is left blank was not seen. -/
theorem exists_value_blank (tree : Tree) {value : Serde.Value} (h : tree.value number embedded = some value) :
    ∃ value', (blank tree).value number embedded = some value' ∧ SameRedacted value' value := by
  obtain ⟨before, node, after⟩ := tree
  exact exists_value_blankNode node h

theorem exists_value_blankNode (node : Node) {value : Serde.Value} (h : node.value number embedded = some value) :
    ∃ value', (blankNode node).value number embedded = some value' ∧ SameRedacted value' value := by
  cases node with
  | array items =>
      obtain ⟨values, hvalues, rfl⟩ := Option.map_eq_some_iff.mp h
      obtain ⟨values', hvalues', hsame⟩ := exists_values_blankItems items hvalues
      refine ⟨.array values', ?_, .array hsame⟩
      rw [blankNode, Node.value, hvalues']
      rfl
  | object members =>
      rw [Node.value] at h
      rw [blankNode, Node.value, first_blankMembers]
      by_cases htoken : members.first.name.decoded = some rawValueToken
      · rw [if_pos htoken] at h ⊢
        rw [onlyString_blankMembers htoken]
        exact ⟨value, h, fun _ => rfl⟩
      · rw [if_neg htoken] at h ⊢
        obtain ⟨values, hvalues, rfl⟩ := Option.map_eq_some_iff.mp h
        obtain ⟨values', hvalues', hsame⟩ := exists_values_blankMembers members hvalues
        rw [hvalues']
        exact ⟨_, rfl, .object hsame⟩
  | _ => exact ⟨value, h, fun _ => rfl⟩

theorem exists_values_blankItems (items : ItemTrees) {values : List Serde.Value}
    (h : items.values number embedded = some values) :
    ∃ values', (blankItems items).values number embedded = some values' ∧
      ∀ key, redactItems values' key = redactItems values key := by
  cases items with
  | one value =>
      obtain ⟨v, hv, rfl⟩ := Option.map_eq_some_iff.mp h
      obtain ⟨v', hv', hsame⟩ := exists_value_blank value hv
      refine ⟨[v'], ?_, fun key => ?_⟩
      · rw [blankItems, ItemTrees.values, hv']
        rfl
      · rw [redactItems, redactItems, hsame key]
        rfl
  | cons value rest =>
      obtain ⟨v, hv, htail⟩ := Option.bind_eq_some_iff.mp h
      obtain ⟨tail, hrest, rfl⟩ := Option.map_eq_some_iff.mp htail
      obtain ⟨v', hv', hsame⟩ := exists_value_blank value hv
      obtain ⟨tail', hrest', htails⟩ := exists_values_blankItems rest hrest
      refine ⟨v' :: tail', ?_, fun key => ?_⟩
      · rw [blankItems, ItemTrees.values, hv', hrest']
        rfl
      · rw [redactItems, redactItems, hsame key, htails key]

theorem exists_values_blankMembers (members : MemberTrees) {values : List (String × Serde.Value)}
    (h : members.values number embedded = some values) :
    ∃ values', (blankMembers members).values number embedded = some values' ∧
      redactMembers values' = redactMembers values := by
  cases members with
  | one label value =>
      obtain ⟨key, hkey, hheld⟩ := Option.bind_eq_some_iff.mp h
      obtain ⟨v, hv, rfl⟩ := Option.map_eq_some_iff.mp hheld
      obtain ⟨v', hv', hsame⟩ := exists_value_blank value hv
      obtain ⟨w, hw, hredacted⟩ := exists_value_blankHeld hkey hv'
      refine ⟨[(key, w)], ?_, ?_⟩
      · rw [blankMembers, MemberTrees.values, hkey, hw]
        rfl
      · rw [redactMembers, redactMembers, hredacted, hsame]
        rfl
  | cons label value rest =>
      obtain ⟨key, hkey, hheld⟩ := Option.bind_eq_some_iff.mp h
      obtain ⟨v, hv, htail⟩ := Option.bind_eq_some_iff.mp hheld
      obtain ⟨tail, hrest, rfl⟩ := Option.map_eq_some_iff.mp htail
      obtain ⟨v', hv', hsame⟩ := exists_value_blank value hv
      obtain ⟨w, hw, hredacted⟩ := exists_value_blankHeld hkey hv'
      obtain ⟨tail', hrest', htails⟩ := exists_values_blankMembers rest hrest
      refine ⟨(key, w) :: tail', ?_, ?_⟩
      · rw [blankMembers, MemberTrees.values, hkey, Option.bind_some, hw, hrest']
        rfl
      · rw [redactMembers, redactMembers, hredacted, hsame, htails]

end

/-- Trees that are the same once they are left blank have values that are the same once they are redacted. -/
theorem sameRedacted_of_blank {node node' : Node} (h : blankNode node = blankNode node') {value value' : Serde.Value}
    (hvalue : node.value number embedded = some value) (hvalue' : node'.value number embedded = some value') :
    SameRedacted value value' := by
  obtain ⟨w, hw, hsame⟩ := exists_value_blankNode node hvalue
  obtain ⟨w', hw', hsame'⟩ := exists_value_blankNode node' hvalue'
  have hww : w = w' := Option.some.inj (by rw [← hw, h, hw'])
  intro key
  rw [← hsame key, hww, hsame' key]

end Trees

section Flat

theorem isSensitive_plain {name : StringText} (h : Plain name.1) :
    isSensitive (plainLabel name) = isSensitiveKey (asciiText name.1) := by
  rw [isSensitive, plainLabel, decoded_plain h, Option.any_some]

/-- Flat objects whose last members hold secrets under one name. -/
theorem blank_flatMembers {name value value' : StringText} (h : isSensitive (plainLabel name) = true)
    (first : StringText × StringText) (more : List (StringText × StringText)) :
    blankMembers (flatMembers first (more ++ [(name, value)])) =
      blankMembers (flatMembers first (more ++ [(name, value')])) := by
  induction more generalizing first with
  | nil => simp only [List.nil_append, flatMembers, bare, blank, blankNode, blankMembers, blankHeld, h, if_true]
  | cons next rest ih => rw [List.cons_append, List.cons_append, flatMembers, flatMembers, blankMembers, blankMembers, ih]

theorem blank_flatTree {name value value' : StringText} (h : isSensitive (plainLabel name) = true)
    (texts : List (StringText × StringText)) :
    blank (flatTree (texts ++ [(name, value)])) = blank (flatTree (texts ++ [(name, value')])) := by
  cases texts with
  | nil => simp only [List.nil_append, flatTree, flatMembers, bare, blank, blankNode, blankMembers, blankHeld, h, if_true]
  | cons first rest =>
      rw [List.cons_append, List.cons_append, flatTree, flatTree, bare, bare, blank, blank, blankNode, blankNode,
        blank_flatMembers h]

/-- Flat objects that differ only in the string of a sensitive key behind all others. -/
theorem differInSecrets_objectText {pairs : List Pair} {name value value' : Bytes}
    (h : PlainPairs (pairs ++ [(name, value)])) (h' : PlainPairs (pairs ++ [(name, value')]))
    (hsensitive : isSensitiveKey (asciiText name) = true) :
    DifferInSecrets (objectText (pairs ++ [(name, value)])) (objectText (pairs ++ [(name, value')])) := by
  have hname : Plain name := (h (name, value) (List.mem_append_right _ List.mem_cons_self)).1
  have hvalue : Plain value := (h (name, value) (List.mem_append_right _ List.mem_cons_self)).2
  have hvalue' : Plain value' := (h' (name, value') (List.mem_append_right _ List.mem_cons_self)).2
  have htexts : plainTexts (pairs ++ [(name, value)]) h =
      plainTexts pairs h.of_append.1 ++ [(⟨name, hname.chars⟩, ⟨value, hvalue.chars⟩)] := plainTexts_append h
  have htexts' : plainTexts (pairs ++ [(name, value')]) h' =
      plainTexts pairs h.of_append.1 ++ [(⟨name, hname.chars⟩, ⟨value', hvalue'.chars⟩)] := plainTexts_append h'
  have hlabel : isSensitive (plainLabel ⟨name, hname.chars⟩) = true := (isSensitive_plain hname).trans hsensitive
  refine ⟨flatTree (plainTexts _ h), flatTree (plainTexts _ h'), text_plainTexts h, text_plainTexts h', ?_⟩
  rw [htexts, htexts']
  exact blank_flatTree hlabel _

end Flat

end OpenaiRs.Preview
