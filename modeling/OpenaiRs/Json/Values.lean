import OpenaiRs.Json.Flat
import OpenaiRs.Json.Quoted
import OpenaiRs.Json.Trees
import OpenaiRs.Rust.Lossy
import OpenaiRs.Serde.Struct

/-!
# The values of JSON texts

The `serde_json::Value` that a JSON text stands for, by recursion on its tree. Strings are decoded, of several members
with one name the last one counts, and an object whose first name is the token of raw values is read again from the
text that it holds.

## Implementation notes

What `serde_json` makes of the text of a number and of the text in a raw value are parameters. There is no value where a
string is not UTF-8 or names half a surrogate pair.
-/

namespace OpenaiRs.Json

open Rust

section Values

/-- The string of what stands between quotation marks. -/
def StringText.decoded (string : StringText) : Option String :=
  match fromUtf8 string.1 with
  | .error _ => none
  | .ok bytes => (Quoted.readString (fromUtf8Lossy bytes ++ ['"'])).map fun (value, _) => String.ofList value

/-- The name by which `RawValue` passes for an object of one member. -/
def rawValueToken : String := "$serde_json::private::RawValue"

namespace MemberTrees

def first : MemberTrees → Label
  | .one label _ => label
  | .cons label _ _ => label

/-- The string of an object that holds nothing else. -/
def onlyString : MemberTrees → Option StringText
  | .one _ (.mk _ (.string string) _) => some string
  | _ => none

end MemberTrees

variable (number : Bytes → Option Serde.Number) (embedded : String → Option Serde.Value)

mutual

def Tree.value : Tree → Option Serde.Value
  | .mk _ node _ => node.value

def Node.value : Node → Option Serde.Value
  | .null => some .null
  | .true => some (.bool Bool.true)
  | .false => some (.bool Bool.false)
  | .number text => (number text.1).map .number
  | .string string => string.decoded.map .string
  | .emptyArray _ => some (.array [])
  | .array items => items.values.map .array
  | .emptyObject _ => some (.object [])
  | .object members =>
      if members.first.name.decoded = some rawValueToken then
        (members.onlyString.bind StringText.decoded).bind embedded
      else members.values.map fun values => .object (Serde.Map.collect values)

def ItemTrees.values : ItemTrees → Option (List Serde.Value)
  | .one value => value.value.map fun value => [value]
  | .cons value rest => value.value.bind fun value => rest.values.map (value :: ·)

def MemberTrees.values : MemberTrees → Option (List (String × Serde.Value))
  | .one label value => label.name.decoded.bind fun name => value.value.map fun value => [(name, value)]
  | .cons label value rest =>
      label.name.decoded.bind fun name => value.value.bind fun value => rest.values.map ((name, value) :: ·)

end

theorem value_eq_node (tree : Tree) : tree.value number embedded = tree.node.value number embedded := by
  obtain ⟨before, node, after⟩ := tree
  rfl

end Values

section Plain

theorem validateFrom_ascii {bytes : Bytes} (h : ∀ b ∈ bytes, b < 0x80) (offset : ℕ) : validateFrom offset bytes = none := by
  induction bytes generalizing offset with
  | nil => rfl
  | cons b rest ih =>
      rw [validateFrom.eq_def]
      dsimp only
      rw [if_pos (h b List.mem_cons_self), ih fun b hb => h b (List.mem_cons_of_mem _ hb)]

/-- The text of ASCII bytes. -/
def asciiText (bytes : Bytes) : String := String.ofList (bytes.map fun b => Char.ofNat b.toNat)

theorem IsPlain.char {b : UInt8} (h : IsPlain b) :
    Char.ofNat b.toNat ≠ '"' ∧ Char.ofNat b.toNat ≠ '\\' ∧ 0x20 ≤ (Char.ofNat b.toNat).toNat := by
  have hchar := toNat_ascii h.2
  have hunescaped := h.1
  simp only [isUnescaped, Bool.and_eq_true, decide_eq_true_eq] at hunescaped
  obtain ⟨⟨hcontrol, hquote⟩, hback⟩ := hunescaped
  refine ⟨fun heq => hquote ?_, fun heq => hback ?_, ?_⟩
  · rw [heq] at hchar
    exact UInt8.toNat.inj hchar.symm
  · rw [heq] at hchar
    exact UInt8.toNat.inj hchar.symm
  · rw [hchar]
    exact UInt8.le_iff_toNat_le.mp hcontrol

theorem spells_plain {text : Bytes} (h : Plain text) :
    Quoted.Spells (text.map fun b => Char.ofNat b.toNat) (text.map fun b => Char.ofNat b.toNat) := by
  induction text with
  | nil => exact .nil
  | cons b rest ih =>
      obtain ⟨hquote, hback, hcontrol⟩ := (h b List.mem_cons_self).char
      exact .plain hquote hback hcontrol (ih fun b hb => h b (List.mem_cons_of_mem _ hb))

/-- A string without escapes stands for itself. -/
theorem decoded_plain {string : StringText} (h : Plain string.1) : string.decoded = some (asciiText string.1) := by
  have hascii : ∀ b ∈ string.1, b < 0x80 := fun b hb => (h b hb).2
  rw [StringText.decoded, fromUtf8, validateFrom_ascii hascii]
  dsimp only
  rw [fromUtf8Lossy_ascii hascii, Quoted.readString_of_spells (spells_plain h) []]
  rfl

/-- A member without white space that holds a string. -/
def plainLabel (name : StringText) : Label := ⟨⟨[], ws_nil⟩, name, ⟨[], ws_nil⟩⟩

def bare (node : Node) : Tree := .mk ⟨[], ws_nil⟩ node ⟨[], ws_nil⟩

/-- The texts of plain pairs. -/
def plainTexts (pairs : List Pair) (h : PlainPairs pairs) : List (StringText × StringText) :=
  pairs.pmap (fun pair hpair => (⟨pair.1, hpair.1.chars⟩, ⟨pair.2, hpair.2.chars⟩)) h

theorem PlainPairs.of_append {pairs more : List Pair} (h : PlainPairs (pairs ++ more)) : PlainPairs pairs ∧ PlainPairs more :=
  ⟨fun pair hpair => h pair (List.mem_append_left _ hpair), fun pair hpair => h pair (List.mem_append_right _ hpair)⟩

theorem plainTexts_append {pairs more : List Pair} (h : PlainPairs (pairs ++ more)) :
    plainTexts (pairs ++ more) h = plainTexts pairs h.of_append.1 ++ plainTexts more h.of_append.2 := by
  induction pairs with
  | nil => rfl
  | cons pair rest ih => exact congrArg (_ :: ·) (ih fun pair hpair => h pair (List.mem_cons_of_mem _ hpair))

def flatMembers (first : StringText × StringText) : List (StringText × StringText) → MemberTrees
  | [] => .one (plainLabel first.1) (bare (.string first.2))
  | next :: rest => .cons (plainLabel first.1) (bare (.string first.2)) (flatMembers next rest)

/-- The tree of a flat object. -/
def flatTree : List (StringText × StringText) → Tree
  | [] => bare (.emptyObject ⟨[], ws_nil⟩)
  | first :: rest => bare (.object (flatMembers first rest))

/-- The bytes between the quotation marks. -/
def pairBytes (texts : StringText × StringText) : Pair := (texts.1.1, texts.2.1)

theorem text_flatMembers (first : StringText × StringText) (rest : List (StringText × StringText)) :
    (flatMembers first rest).text = membersText ((first :: rest).map pairBytes) := by
  induction rest generalizing first with
  | nil => simp [flatMembers, MemberTrees.text, Label.text, plainLabel, StringText.text, bare, Tree.text, Node.text,
      membersText, memberText, pairBytes]
  | cons next rest ih =>
      rw [flatMembers, MemberTrees.text, ih next]
      simp [Label.text, plainLabel, StringText.text, bare, Tree.text, Node.text, membersText, memberText, pairBytes]

theorem text_flatTree (texts : List (StringText × StringText)) :
    (flatTree texts).text = objectText (texts.map pairBytes) := by
  cases texts with
  | nil => rfl
  | cons first rest => simp [flatTree, bare, Tree.text, Node.text, text_flatMembers, objectText]

theorem pairBytes_plainTexts {pairs : List Pair} (h : PlainPairs pairs) : (plainTexts pairs h).map pairBytes = pairs := by
  induction pairs with
  | nil => rfl
  | cons pair rest ih => exact congrArg (pair :: ·) (ih fun pair hpair => h pair (List.mem_cons_of_mem _ hpair))

theorem text_plainTexts {pairs : List Pair} (h : PlainPairs pairs) : (flatTree (plainTexts pairs h)).text = objectText pairs := by
  rw [text_flatTree, pairBytes_plainTexts]

/-- The members of a flat object, in its order. -/
def objectMembers (pairs : List Pair) : List (String × Serde.Value) :=
  pairs.map fun pair => (asciiText pair.1, .string (asciiText pair.2))

variable {number : Bytes → Option Serde.Number} {embedded : String → Option Serde.Value}

theorem values_flatMembers {first : StringText × StringText} {rest : List (StringText × StringText)}
    (h : ∀ texts ∈ first :: rest, Plain texts.1.1 ∧ Plain texts.2.1) :
    (flatMembers first rest).values number embedded = some (objectMembers ((first :: rest).map pairBytes)) := by
  induction rest generalizing first with
  | nil =>
      obtain ⟨hname, hvalue⟩ := h first List.mem_cons_self
      simp [flatMembers, MemberTrees.values, plainLabel, bare, Tree.value, Node.value, decoded_plain hname,
        decoded_plain hvalue, objectMembers, pairBytes]
  | cons next rest ih =>
      obtain ⟨hname, hvalue⟩ := h first List.mem_cons_self
      have hrest := ih fun texts htexts => h texts (List.mem_cons_of_mem _ htexts)
      rw [flatMembers, MemberTrees.values, hrest]
      simp [plainLabel, bare, Tree.value, Node.value, decoded_plain hname, decoded_plain hvalue, objectMembers, pairBytes]

theorem first_flatMembers (first : StringText × StringText) (rest : List (StringText × StringText)) :
    (flatMembers first rest).first = plainLabel first.1 := by
  cases rest with
  | nil => rfl
  | cons next rest => rfl

/-- The value of a flat object. -/
theorem value_flatTree {texts : List (StringText × StringText)} (h : PlainPairs (texts.map pairBytes))
    (htoken : ∀ pair ∈ (texts.map pairBytes).head?, asciiText pair.1 ≠ rawValueToken) :
    (flatTree texts).value number embedded =
      some (.object (Serde.Map.collect (objectMembers (texts.map pairBytes)))) := by
  cases texts with
  | nil => rfl
  | cons first rest =>
      have hplain : ∀ texts ∈ first :: rest, Plain texts.1.1 ∧ Plain texts.2.1 := fun texts htexts =>
        h (pairBytes texts) (List.mem_map_of_mem htexts)
      have hname : (plainLabel first.1).name.decoded ≠ some rawValueToken := by
        rw [plainLabel, decoded_plain (hplain first List.mem_cons_self).1]
        exact fun heq => htoken (pairBytes first) rfl (Option.some.inj heq)
      rw [flatTree, bare, Tree.value, Node.value, first_flatMembers, if_neg hname, values_flatMembers hplain]
      rfl

theorem value_plainTexts {pairs : List Pair} (h : PlainPairs pairs)
    (htoken : ∀ pair ∈ pairs.head?, asciiText pair.1 ≠ rawValueToken) :
    (flatTree (plainTexts pairs h)).value number embedded =
      some (.object (Serde.Map.collect (objectMembers pairs))) := by
  have hpairs := pairBytes_plainTexts h
  rw [value_flatTree (by rwa [hpairs]) (by rwa [hpairs]), hpairs]

end Plain

end OpenaiRs.Json
