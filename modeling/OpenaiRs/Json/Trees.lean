import OpenaiRs.Json.Grammar

/-!
# JSON trees

The concrete syntax trees of the grammar: what a text is made of, its white space included. Every text of the
grammar is the text of a tree, and of one only: a tree is known from the left.

## Implementation notes

Trees are compared from the left, with what follows them. What follows a number must not go on with it, and
what follows a tree must not begin with white space.
-/

namespace OpenaiRs.Json

open Rust

section Trees

abbrev Space := {bytes : Bytes // Ws bytes}

abbrev NumberText := {bytes : Bytes // Number bytes}

/-- What stands between the quotation marks of a string. -/
abbrev StringText := {bytes : Bytes // Chars bytes}

/-- The name of a member. -/
structure Label where
  before : Space
  name : StringText
  after : Space

mutual

/-- A value with white space around it. -/
inductive Tree where
  | mk (before : Space) (node : Node) (after : Space)

inductive Node where
  | null
  | true
  | false
  | number (number : NumberText)
  | string (string : StringText)
  | emptyArray (inner : Space)
  | array (items : ItemTrees)
  | emptyObject (inner : Space)
  | object (members : MemberTrees)

inductive ItemTrees where
  | one (value : Tree)
  | cons (value : Tree) (rest : ItemTrees)

inductive MemberTrees where
  | one (label : Label) (value : Tree)
  | cons (label : Label) (value : Tree) (rest : MemberTrees)

end

def Tree.node : Tree → Node
  | .mk _ node _ => node

def StringText.text (string : StringText) : Bytes := quote :: (string.1 ++ [quote])

def Label.text (label : Label) : Bytes :=
  label.before.1 ++ (label.name.text ++ (label.after.1 ++ [colon]))

mutual

def Tree.text : Tree → Bytes
  | .mk before node after => before.1 ++ (node.text ++ after.1)

def Node.text : Node → Bytes
  | .null => [0x6E, 0x75, 0x6C, 0x6C]
  | .true => [0x74, 0x72, 0x75, 0x65]
  | .false => [0x66, 0x61, 0x6C, 0x73, 0x65]
  | .number number => number.1
  | .string string => string.text
  | .emptyArray inner => beginArray :: (inner.1 ++ [endArray])
  | .array items => beginArray :: (items.text ++ [endArray])
  | .emptyObject inner => beginObject :: (inner.1 ++ [endObject])
  | .object members => beginObject :: (members.text ++ [endObject])

def ItemTrees.text : ItemTrees → Bytes
  | .one value => value.text
  | .cons value rest => value.text ++ comma :: rest.text

def MemberTrees.text : MemberTrees → Bytes
  | .one label value => label.text ++ value.text
  | .cons label value rest => label.text ++ (value.text ++ comma :: rest.text)

end

end Trees

section Texts

theorem StringText.str_text (string : StringText) : Str string.text := .mk string.1 string.2

mutual

/-- The text of a tree is a text of the grammar. -/
theorem Tree.padded_text : (tree : Tree) → Padded tree.text
  | .mk before node after => .mk before.1 node.text after.1 before.2 node.value_text after.2

theorem Node.value_text : (node : Node) → Value node.text
  | .null => .null
  | .true => .true
  | .false => .false
  | .number number => .number number.1 number.2
  | .string string => .string string.text string.str_text
  | .emptyArray inner => .array _ (.empty inner.1 inner.2)
  | .array items => .array _ (.items items.text items.items_text)
  | .emptyObject inner => .object _ (.empty inner.1 inner.2)
  | .object members => .object _ (.members members.text members.members_text)

theorem ItemTrees.items_text : (items : ItemTrees) → Items items.text
  | .one value => .one value.text value.padded_text
  | .cons value rest => .cons value.text rest.text value.padded_text rest.items_text

theorem MemberTrees.members_text : (members : MemberTrees) → Members members.text
  | .one label value => by
      have h := Members.one label.before.1 label.name.text label.after.1 value.text label.before.2 label.name.str_text
        label.after.2 value.padded_text
      simpa [MemberTrees.text, Label.text] using h
  | .cons label value rest => by
      have h := Members.cons label.before.1 label.name.text label.after.1 value.text rest.text label.before.2
        label.name.str_text label.after.2 value.padded_text rest.members_text
      simpa [MemberTrees.text, Label.text] using h

end

theorem Str.exists_text {bytes : Bytes} (h : Str bytes) : ∃ string : StringText, string.text = bytes := by
  obtain ⟨chars, hchars⟩ := h
  exact ⟨⟨chars, hchars⟩, rfl⟩

mutual

/-- Every text of the grammar is the text of a tree. -/
theorem Padded.exists_tree {bytes : Bytes} : Padded bytes → ∃ tree : Tree, tree.text = bytes
  | .mk before _ after hbefore hvalue hafter => by
      obtain ⟨node, rfl⟩ := hvalue.exists_node
      exact ⟨.mk ⟨before, hbefore⟩ node ⟨after, hafter⟩, rfl⟩

theorem Value.exists_node {bytes : Bytes} : Value bytes → ∃ node : Node, node.text = bytes
  | .null => ⟨.null, rfl⟩
  | .true => ⟨.true, rfl⟩
  | .false => ⟨.false, rfl⟩
  | .number bytes h => ⟨.number ⟨bytes, h⟩, rfl⟩
  | .string _ h => by
      obtain ⟨string, rfl⟩ := h.exists_text
      exact ⟨.string string, rfl⟩
  | .array _ h => h.exists_node
  | .object _ h => h.exists_node

theorem Arr.exists_node {bytes : Bytes} : Arr bytes → ∃ node : Node, node.text = bytes
  | .empty ws hws => ⟨.emptyArray ⟨ws, hws⟩, rfl⟩
  | .items _ h => by
      obtain ⟨items, rfl⟩ := h.exists_items
      exact ⟨.array items, rfl⟩

theorem Items.exists_items {bytes : Bytes} : Items bytes → ∃ items : ItemTrees, items.text = bytes
  | .one _ hvalue => by
      obtain ⟨value, rfl⟩ := hvalue.exists_tree
      exact ⟨.one value, rfl⟩
  | .cons _ _ hvalue hrest => by
      obtain ⟨value, rfl⟩ := hvalue.exists_tree
      obtain ⟨rest, rfl⟩ := hrest.exists_items
      exact ⟨.cons value rest, rfl⟩

theorem Object.exists_node {bytes : Bytes} : Object bytes → ∃ node : Node, node.text = bytes
  | .empty ws hws => ⟨.emptyObject ⟨ws, hws⟩, rfl⟩
  | .members _ h => by
      obtain ⟨members, rfl⟩ := h.exists_members
      exact ⟨.object members, rfl⟩

theorem Members.exists_members {bytes : Bytes} : Members bytes → ∃ members : MemberTrees, members.text = bytes
  | .one before _ after _ hbefore hname hafter hvalue => by
      obtain ⟨name, rfl⟩ := hname.exists_text
      obtain ⟨value, rfl⟩ := hvalue.exists_tree
      exact ⟨.one ⟨⟨before, hbefore⟩, name, ⟨after, hafter⟩⟩ value, by simp [MemberTrees.text, Label.text]⟩
  | .cons before _ after _ _ hbefore hname hafter hvalue hrest => by
      obtain ⟨name, rfl⟩ := hname.exists_text
      obtain ⟨value, rfl⟩ := hvalue.exists_tree
      obtain ⟨rest, rfl⟩ := hrest.exists_members
      exact ⟨.cons ⟨⟨before, hbefore⟩, name, ⟨after, hafter⟩⟩ value rest, by simp [MemberTrees.text, Label.text]⟩

end

end Texts

section Spans

variable {α : Type*} {p : α → Bool}

/-- What follows does not begin in a class. -/
def Ended (p : α → Bool) (rest : List α) : Prop := ∀ a ∈ rest.head?, p a = false

theorem ended_cons {a : α} (h : p a = false) (rest : List α) : Ended p (a :: rest) := by
  intro other hother
  cases Option.some.inj hother
  exact h

theorem takeWhile_span {span rest : List α} (h : ∀ a ∈ span, p a = true) (hrest : Ended p rest) :
    (span ++ rest).takeWhile p = span := by
  rw [List.takeWhile_append_of_pos h]
  cases rest with
  | nil => rw [List.takeWhile_nil, List.append_nil]
  | cons a rest =>
      have ha : ¬ p a = true := Bool.eq_false_iff.mp (hrest a rfl)
      rw [List.takeWhile_cons_of_neg ha, List.append_nil]

/-- A text begins with one longest span of a class. -/
theorem span_cancel {span span' rest rest' : List α} (h : ∀ a ∈ span, p a = true) (h' : ∀ a ∈ span', p a = true)
    (hrest : Ended p rest) (hrest' : Ended p rest') (heq : span ++ rest = span' ++ rest') :
    span = span' ∧ rest = rest' := by
  have hspan : span = span' := by
    calc span = (span ++ rest).takeWhile p := (takeWhile_span h hrest).symm
      _ = (span' ++ rest').takeWhile p := by rw [heq]
      _ = span' := takeWhile_span h' hrest'
  subst hspan
  exact ⟨rfl, List.append_cancel_left heq⟩

end Spans

section Pieces

/-- The bytes of numbers. -/
def isNumberByte (b : UInt8) : Bool := isAsciiDigit b || b = point || isExponentMark b || isSign b

theorem Digits.numberBytes {digits : Bytes} (h : Digits digits) : ∀ b ∈ digits, isNumberByte b = true := by
  intro b hb
  rw [isNumberByte, h.2 b hb]
  rfl

theorem Fraction.numberBytes {bytes : Bytes} (h : Fraction bytes) : ∀ b ∈ bytes, isNumberByte b = true := by
  cases h with
  | none => exact List.forall_mem_nil _
  | some digits hdigits => exact List.forall_mem_cons.mpr ⟨rfl, hdigits.numberBytes⟩

theorem isNumberByte_mark {b : UInt8} (h : isExponentMark b = true) : isNumberByte b = true := by
  simp [isNumberByte, h]

theorem isNumberByte_sign {b : UInt8} (h : isSign b = true) : isNumberByte b = true := by
  simp [isNumberByte, h]

theorem Exponent.numberBytes {bytes : Bytes} (h : Exponent bytes) : ∀ b ∈ bytes, isNumberByte b = true := by
  cases h with
  | none => exact List.forall_mem_nil _
  | unsigned mark digits hmark hdigits =>
      exact List.forall_mem_cons.mpr ⟨isNumberByte_mark hmark, hdigits.numberBytes⟩
  | signed mark sign digits hmark hsign hdigits =>
      exact List.forall_mem_cons.mpr ⟨isNumberByte_mark hmark,
        List.forall_mem_cons.mpr ⟨isNumberByte_sign hsign, hdigits.numberBytes⟩⟩

theorem Number.numberBytes {bytes : Bytes} (h : Number bytes) : ∀ b ∈ bytes, isNumberByte b = true := by
  have hunsigned : ∀ int frac exp, Integer int → Fraction frac → Exponent exp →
      ∀ b ∈ int ++ (frac ++ exp), isNumberByte b = true := by
    intro int frac exp hint hfrac hexp
    exact List.forall_mem_append.mpr ⟨hint.1.numberBytes, List.forall_mem_append.mpr ⟨hfrac.numberBytes, hexp.numberBytes⟩⟩
  cases h with
  | positive int frac exp hint hfrac hexp => exact hunsigned int frac exp hint hfrac hexp
  | negative int frac exp hint hfrac hexp =>
      exact List.forall_mem_cons.mpr ⟨rfl, hunsigned int frac exp hint hfrac hexp⟩

/-- A string ends at its first quotation mark that no backslash precedes. -/
theorem Chars.cancel {chars chars' rest rest' : Bytes} (h : Chars chars) (h' : Chars chars')
    (heq : chars ++ quote :: rest = chars' ++ quote :: rest') : chars = chars' ∧ rest = rest' := by
  have hquote : ∀ b, isUnescaped b = true → b ≠ quote := by
    rintro b hb rfl
    exact absurd hb (by decide)
  have hbackslash : ∀ b, isUnescaped b = true → b ≠ backslash := by
    rintro b hb rfl
    exact absurd hb (by decide)
  have hunicode : ∀ b, isEscapable b = true → b ≠ 0x75 := by
    rintro b hb rfl
    exact absurd hb (by decide)
  induction h generalizing chars' with
  | nil =>
      cases h' with
      | nil => exact ⟨rfl, (List.cons.inj heq).2⟩
      | unescaped b _ hb _ => exact absurd (List.cons.inj heq).1.symm (hquote b hb)
      | escape _ _ _ _ => exact absurd (List.cons.inj heq).1 (by decide)
      | unicode _ _ _ _ _ => exact absurd (List.cons.inj heq).1 (by decide)
  | unescaped b tail hb _ ih =>
      cases h' with
      | nil => exact absurd (List.cons.inj heq).1 (hquote b hb)
      | unescaped b' tail' _ htail' =>
          obtain ⟨rfl, htails⟩ := List.cons.inj heq
          obtain ⟨rfl, hrest⟩ := ih htail' htails
          exact ⟨rfl, hrest⟩
      | escape _ _ _ _ => exact absurd (List.cons.inj heq).1 (hbackslash b hb)
      | unicode _ _ _ _ _ => exact absurd (List.cons.inj heq).1 (hbackslash b hb)
  | escape b tail hb _ ih =>
      cases h' with
      | nil => exact absurd (List.cons.inj heq).1 (by decide)
      | unescaped b' _ hb' _ => exact absurd (List.cons.inj heq).1.symm (hbackslash b' hb')
      | escape b' tail' _ htail' =>
          obtain ⟨rfl, htails⟩ := List.cons.inj (List.cons.inj heq).2
          obtain ⟨rfl, hrest⟩ := ih htail' htails
          exact ⟨rfl, hrest⟩
      | unicode _ _ _ _ _ => exact absurd (List.cons.inj (List.cons.inj heq).2).1 (hunicode b hb)
  | unicode hex tail hlength hhex _ ih =>
      cases h' with
      | nil => exact absurd (List.cons.inj heq).1 (by decide)
      | unescaped b' _ hb' _ => exact absurd (List.cons.inj heq).1.symm (hbackslash b' hb')
      | escape b' _ hb' _ => exact absurd (List.cons.inj (List.cons.inj heq).2).1.symm (hunicode b' hb')
      | unicode hex' tail' hlength' _ htail' =>
          have hbehind : hex ++ tail ++ quote :: rest = hex' ++ tail' ++ quote :: rest' :=
            (List.cons.inj (List.cons.inj heq).2).2
          rw [List.append_assoc, List.append_assoc] at hbehind
          obtain ⟨rfl, htails⟩ := List.append_inj hbehind (hlength.trans hlength'.symm)
          obtain ⟨rfl, hrest⟩ := ih htail' htails
          exact ⟨rfl, hrest⟩

theorem Space.cancel {space space' : Space} {rest rest' : Bytes} (hrest : Ended isWs rest) (hrest' : Ended isWs rest')
    (h : space.1 ++ rest = space'.1 ++ rest') : space = space' ∧ rest = rest' := by
  obtain ⟨hspace, heq⟩ := span_cancel space.2 space'.2 hrest hrest' h
  exact ⟨Subtype.ext hspace, heq⟩

theorem StringText.cancel {string string' : StringText} {rest rest' : Bytes}
    (h : string.text ++ rest = string'.text ++ rest') : string = string' ∧ rest = rest' := by
  have hchars : string.1 ++ quote :: rest = string'.1 ++ quote :: rest' := by
    simpa [StringText.text] using h
  obtain ⟨heq, hrest⟩ := string.2.cancel string'.2 hchars
  exact ⟨Subtype.ext heq, hrest⟩

theorem Label.cancel {label label' : Label} {rest rest' : Bytes} (h : label.text ++ rest = label'.text ++ rest') :
    label = label' ∧ rest = rest' := by
  obtain ⟨before, name, after⟩ := label
  obtain ⟨before', name', after'⟩ := label'
  simp only [Label.text, List.append_assoc] at h
  obtain ⟨rfl, hname⟩ := Space.cancel (ended_cons rfl _) (ended_cons rfl _) h
  obtain ⟨rfl, hafter⟩ := StringText.cancel hname
  obtain ⟨rfl, hcolon⟩ := Space.cancel (ended_cons rfl _) (ended_cons rfl _) hafter
  exact ⟨rfl, (List.cons.inj hcolon).2⟩

end Pieces

section Unambiguous

/-- What a value is, as its first byte tells. -/
inductive Kind where
  | null
  | true
  | false
  | number
  | string
  | array
  | object
  deriving DecidableEq

def kindOf (b : UInt8) : Kind :=
  if b = 0x6E then .null
  else if b = 0x74 then .true
  else if b = 0x66 then .false
  else if b = quote then .string
  else if b = beginArray then .array
  else if b = beginObject then .object
  else .number

def Node.kind : Node → Kind
  | .null => .null
  | .true => .true
  | .false => .false
  | .number _ => .number
  | .string _ => .string
  | .emptyArray _ => .array
  | .array _ => .array
  | .emptyObject _ => .object
  | .object _ => .object

/-- Neither white space nor the end of an array or of an object. -/
def isFirst (b : UInt8) : Bool := !isWs b && b ≠ endArray && b ≠ endObject

theorem kindOf_numberByte {b : UInt8} (h : isNumberByte b = Bool.true) : kindOf b = .number ∧ isFirst b = Bool.true := by
  have hother : ∀ other, isNumberByte other = Bool.false → b ≠ other := by
    rintro other hfalse rfl
    rw [h] at hfalse
    cases hfalse
  have hws : isWs b = Bool.false := by
    simp only [isWs, Bool.or_eq_false_iff, decide_eq_false_iff_not]
    exact ⟨⟨⟨hother _ rfl, hother _ rfl⟩, hother _ rfl⟩, hother _ rfl⟩
  rw [kindOf, if_neg (hother _ rfl), if_neg (hother _ rfl), if_neg (hother _ rfl), if_neg (hother _ rfl),
    if_neg (hother _ rfl), if_neg (hother _ rfl), isFirst, hws]
  simp [hother endArray rfl, hother endObject rfl]

theorem Number.exists_head {bytes : Bytes} (h : Number bytes) : ∃ first rest, bytes = first :: rest := by
  cases h with
  | positive int frac exp hint _ _ =>
      obtain ⟨first, rest, rfl⟩ := List.exists_cons_of_ne_nil hint.1.1
      exact ⟨first, rest ++ (frac ++ exp), rfl⟩
  | negative int frac exp _ _ _ => exact ⟨0x2D, int ++ (frac ++ exp), rfl⟩

theorem Node.exists_head (node : Node) :
    ∃ first rest, node.text = first :: rest ∧ kindOf first = node.kind ∧ isFirst first = Bool.true := by
  cases node with
  | number number =>
      obtain ⟨first, rest, heq⟩ := number.2.exists_head
      have hfirst := number.2.numberBytes first (heq ▸ List.mem_cons_self)
      exact ⟨first, rest, heq, kindOf_numberByte hfirst⟩
  | _ => exact ⟨_, _, rfl, rfl, rfl⟩

theorem kind_eq_of_text {node node' : Node} {rest rest' : Bytes} (h : node.text ++ rest = node'.text ++ rest') :
    node.kind = node'.kind := by
  obtain ⟨first, tail, htext, hkind, -⟩ := node.exists_head
  obtain ⟨first', tail', htext', hkind', -⟩ := node'.exists_head
  rw [htext, htext'] at h
  have hfirst : first = first' := (List.cons.inj h).1
  rw [← hkind, hfirst, hkind']

theorem not_ws_of_first {b : UInt8} (h : isFirst b = Bool.true) : isWs b = Bool.false := by
  simp only [isFirst, Bool.and_eq_true, Bool.not_eq_true'] at h
  exact h.1.1

theorem ne_end_of_first {b : UInt8} (h : isFirst b = Bool.true) : endArray ≠ b ∧ endObject ≠ b := by
  constructor <;> (rintro rfl; exact absurd h (by decide))

theorem Node.ended_ws (node : Node) (rest : Bytes) : Ended isWs (node.text ++ rest) := by
  obtain ⟨first, tail, htext, -, hfirst⟩ := node.exists_head
  rw [htext]
  exact ended_cons (not_ws_of_first hfirst) _

/-- A text with something in it: white space, and then the first byte of a value or of a name. -/
def Filled (text : Bytes) : Prop :=
  ∃ (before : Space) (first : UInt8) (tail : Bytes), text = before.1 ++ first :: tail ∧ isFirst first = Bool.true

theorem Filled.append {text : Bytes} (h : Filled text) (rest : Bytes) : Filled (text ++ rest) := by
  obtain ⟨before, first, tail, rfl, hfirst⟩ := h
  exact ⟨before, first, tail ++ rest, List.append_assoc _ _ _, hfirst⟩

theorem Tree.filled (tree : Tree) : Filled tree.text := by
  obtain ⟨before, node, after⟩ := tree
  obtain ⟨first, tail, htext, -, hfirst⟩ := node.exists_head
  exact ⟨before, first, tail ++ after.1, by rw [Tree.text, htext, List.cons_append], hfirst⟩

theorem ItemTrees.filled (items : ItemTrees) : Filled items.text := by
  cases items with
  | one value => exact value.filled
  | cons value rest => exact value.filled.append _

theorem Label.filled (label : Label) : Filled label.text :=
  ⟨label.before, quote, _, rfl, rfl⟩

theorem MemberTrees.filled (members : MemberTrees) : Filled members.text := by
  cases members with
  | one label value => exact label.filled.append _
  | cons label value rest => exact label.filled.append _

/-- White space in front of an end is no text with something in it. -/
theorem not_filled {inner : Space} {last : UInt8} {rest : Bytes} (hlast : last = endArray ∨ last = endObject) :
    ¬ Filled (inner.1 ++ last :: rest) := by
  rintro ⟨before, first, tail, heq, hfirst⟩
  have hws : isWs last = Bool.false := by
    obtain rfl | rfl := hlast <;> rfl
  obtain ⟨-, hsame⟩ := Space.cancel (ended_cons hws _) (ended_cons (not_ws_of_first hfirst) _) heq
  have hne := ne_end_of_first hfirst
  obtain rfl | rfl := hlast
  · exact hne.1 (List.cons.inj hsame).1
  · exact hne.2 (List.cons.inj hsame).1

/-- What may follow a tree. -/
structure Stops (rest : Bytes) : Prop where
  ws : Ended isWs rest
  number : Ended isNumberByte rest

theorem stops_comma (rest : Bytes) : Stops (comma :: rest) := ⟨ended_cons rfl _, ended_cons rfl _⟩

theorem stops_endArray (rest : Bytes) : Stops (endArray :: rest) := ⟨ended_cons rfl _, ended_cons rfl _⟩

theorem stops_endObject (rest : Bytes) : Stops (endObject :: rest) := ⟨ended_cons rfl _, ended_cons rfl _⟩

theorem ended_space {rest : Bytes} (space : Space) (h : Ended isNumberByte rest) :
    Ended isNumberByte (space.1 ++ rest) := by
  obtain ⟨bytes, hws⟩ := space
  cases bytes with
  | nil => exact h
  | cons b tail =>
      have hb := hws b List.mem_cons_self
      refine ended_cons ?_ _
      simp only [isWs, Bool.or_eq_true, decide_eq_true_eq] at hb
      rcases hb with ((rfl | rfl) | rfl) | rfl <;> rfl

theorem enclosed_cancel {first last : UInt8} {inner inner' rest rest' : Bytes}
    (h : first :: (inner ++ [last]) ++ rest = first :: (inner' ++ [last]) ++ rest') :
    inner ++ last :: rest = inner' ++ last :: rest' := by
  simpa using h

mutual

/-- A tree is the only one whose text begins there. -/
theorem Tree.cancel (tree other : Tree) {rest rest' : Bytes} (hrest : Stops rest) (hrest' : Stops rest')
    (h : tree.text ++ rest = other.text ++ rest') : tree = other ∧ rest = rest' := by
  obtain ⟨before, node, after⟩ := tree
  obtain ⟨before', node', after'⟩ := other
  simp only [Tree.text, List.append_assoc] at h
  obtain ⟨rfl, hnode⟩ := Space.cancel (node.ended_ws _) (node'.ended_ws _) h
  obtain ⟨rfl, hafter⟩ := node.cancel node' (fun _ => ended_space after hrest.number)
    (fun _ => ended_space after' hrest'.number) hnode
  obtain ⟨rfl, hrests⟩ := Space.cancel hrest.ws hrest'.ws hafter
  exact ⟨rfl, hrests⟩
termination_by structural tree

/-- What follows a value matters to numbers only. -/
theorem Node.cancel (node other : Node) {rest rest' : Bytes} (hrest : node.kind = .number → Ended isNumberByte rest)
    (hrest' : other.kind = .number → Ended isNumberByte rest') (h : node.text ++ rest = other.text ++ rest') :
    node = other ∧ rest = rest' := by
  have hkind := kind_eq_of_text h
  cases node with
  | null =>
      cases other with
      | null => exact ⟨rfl, List.append_cancel_left h⟩
      | _ => cases hkind
  | true =>
      cases other with
      | true => exact ⟨rfl, List.append_cancel_left h⟩
      | _ => cases hkind
  | false =>
      cases other with
      | false => exact ⟨rfl, List.append_cancel_left h⟩
      | _ => cases hkind
  | number number =>
      cases other with
      | number number' =>
          obtain ⟨hsame, hrests⟩ := span_cancel number.2.numberBytes number'.2.numberBytes (hrest rfl) (hrest' rfl) h
          exact ⟨congrArg Node.number (Subtype.ext hsame), hrests⟩
      | _ => cases hkind
  | string string =>
      cases other with
      | string string' =>
          obtain ⟨rfl, hrests⟩ := StringText.cancel h
          exact ⟨rfl, hrests⟩
      | _ => cases hkind
  | emptyArray inner =>
      cases other with
      | emptyArray inner' =>
          obtain ⟨rfl, hrests⟩ := Space.cancel (ended_cons rfl _) (ended_cons rfl _) (enclosed_cancel h)
          exact ⟨rfl, (List.cons.inj hrests).2⟩
      | array items' => exact absurd (enclosed_cancel h ▸ items'.filled.append _) (not_filled (.inl rfl))
      | _ => cases hkind
  | array items =>
      cases other with
      | emptyArray inner' => exact absurd (enclosed_cancel h ▸ items.filled.append _) (not_filled (.inl rfl))
      | array items' =>
          obtain ⟨rfl, hrests⟩ := items.cancel items' (enclosed_cancel h)
          exact ⟨rfl, hrests⟩
      | _ => cases hkind
  | emptyObject inner =>
      cases other with
      | emptyObject inner' =>
          obtain ⟨rfl, hrests⟩ := Space.cancel (ended_cons rfl _) (ended_cons rfl _) (enclosed_cancel h)
          exact ⟨rfl, (List.cons.inj hrests).2⟩
      | object members' => exact absurd (enclosed_cancel h ▸ members'.filled.append _) (not_filled (.inr rfl))
      | _ => cases hkind
  | object members =>
      cases other with
      | emptyObject inner' => exact absurd (enclosed_cancel h ▸ members.filled.append _) (not_filled (.inr rfl))
      | object members' =>
          obtain ⟨rfl, hrests⟩ := members.cancel members' (enclosed_cancel h)
          exact ⟨rfl, hrests⟩
      | _ => cases hkind
termination_by structural node

theorem ItemTrees.cancel (items other : ItemTrees) {rest rest' : Bytes}
    (h : items.text ++ endArray :: rest = other.text ++ endArray :: rest') : items = other ∧ rest = rest' := by
  cases items with
  | one value =>
      cases other with
      | one value' =>
          obtain ⟨rfl, hrests⟩ := value.cancel value' (stops_endArray _) (stops_endArray _) h
          exact ⟨rfl, (List.cons.inj hrests).2⟩
      | cons value' tail' =>
          simp only [ItemTrees.text, List.append_assoc, List.cons_append] at h
          obtain ⟨-, hrests⟩ := value.cancel value' (stops_endArray _) (stops_comma _) h
          exact absurd (List.cons.inj hrests).1 (by decide)
  | cons value tail =>
      cases other with
      | one value' =>
          simp only [ItemTrees.text, List.append_assoc, List.cons_append] at h
          obtain ⟨-, hrests⟩ := value.cancel value' (stops_comma _) (stops_endArray _) h
          exact absurd (List.cons.inj hrests).1 (by decide)
      | cons value' tail' =>
          simp only [ItemTrees.text, List.append_assoc, List.cons_append] at h
          obtain ⟨rfl, hrests⟩ := value.cancel value' (stops_comma _) (stops_comma _) h
          obtain ⟨rfl, hends⟩ := tail.cancel tail' (List.cons.inj hrests).2
          exact ⟨rfl, hends⟩
termination_by structural items

theorem MemberTrees.cancel (members other : MemberTrees) {rest rest' : Bytes}
    (h : members.text ++ endObject :: rest = other.text ++ endObject :: rest') : members = other ∧ rest = rest' := by
  cases members with
  | one label value =>
      cases other with
      | one label' value' =>
          simp only [MemberTrees.text, List.append_assoc] at h
          obtain ⟨rfl, hvalue⟩ := Label.cancel h
          obtain ⟨rfl, hrests⟩ := value.cancel value' (stops_endObject _) (stops_endObject _) hvalue
          exact ⟨rfl, (List.cons.inj hrests).2⟩
      | cons label' value' tail' =>
          simp only [MemberTrees.text, List.append_assoc, List.cons_append] at h
          obtain ⟨-, hvalue⟩ := Label.cancel h
          obtain ⟨-, hrests⟩ := value.cancel value' (stops_endObject _) (stops_comma _) hvalue
          exact absurd (List.cons.inj hrests).1 (by decide)
  | cons label value tail =>
      cases other with
      | one label' value' =>
          simp only [MemberTrees.text, List.append_assoc, List.cons_append] at h
          obtain ⟨-, hvalue⟩ := Label.cancel h
          obtain ⟨-, hrests⟩ := value.cancel value' (stops_comma _) (stops_endObject _) hvalue
          exact absurd (List.cons.inj hrests).1 (by decide)
      | cons label' value' tail' =>
          simp only [MemberTrees.text, List.append_assoc, List.cons_append] at h
          obtain ⟨rfl, hvalue⟩ := Label.cancel h
          obtain ⟨rfl, hrests⟩ := value.cancel value' (stops_comma _) (stops_comma _) hvalue
          obtain ⟨rfl, hends⟩ := tail.cancel tail' (List.cons.inj hrests).2
          exact ⟨rfl, hends⟩
termination_by structural members

end

/-- A tree whose text begins another text is its tree up to the white space behind, numbers apart. -/
theorem node_eq_of_begins {tree other : Tree} {rest : Bytes} (hnumber : tree.node.kind ≠ .number)
    (h : tree.text = other.text ++ rest) : tree.node = other.node := by
  obtain ⟨before, node, after⟩ := tree
  obtain ⟨before', node', after'⟩ := other
  simp only [Tree.text, List.append_assoc] at h
  obtain ⟨-, hnode⟩ := Space.cancel (node.ended_ws _) (node'.ended_ws _) h
  have hnumber' : node'.kind ≠ .number := kind_eq_of_text hnode ▸ hnumber
  exact (node.cancel node' (fun hkind => absurd hkind hnumber) (fun hkind => absurd hkind hnumber') hnode).1

end Unambiguous

end OpenaiRs.Json
