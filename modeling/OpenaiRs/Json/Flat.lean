import OpenaiRs.Json.Grammar
import Mathlib.Data.List.Nodup

/-!
# Flat objects

Objects whose members are strings without escapes: their texts, that they are texts of the grammar, and
how the members are read back from the quotation marks. A text that begins an object ends where an object
ends.
-/

namespace OpenaiRs.Json

open Rust

section Objects

variable {bytes rest : Bytes}

theorem Integer.head {int : Bytes} (h : Integer int) :
    ∃ digit digits, int = digit :: digits ∧ isAsciiDigit digit = true := by
  obtain ⟨⟨hne, hdigits⟩, -⟩ := h
  obtain ⟨digit, digits, rfl⟩ := List.exists_cons_of_ne_nil hne
  exact ⟨digit, digits, rfl, hdigits digit (.head _)⟩

theorem Number.head_ne_beginObject (h : Number bytes) : bytes.head? ≠ some beginObject := by
  cases h with
  | positive int frac exp hint _ _ =>
      obtain ⟨digit, digits, rfl, hdigit⟩ := hint.head
      intro hhead
      cases Option.some.inj hhead
      exact absurd hdigit (by decide)
  | negative int frac exp _ _ _ =>
      intro hhead
      exact absurd (Option.some.inj hhead) (by decide)

/-- A value that begins an object is an object. -/
theorem Value.object_of_head (h : Value bytes) (hhead : bytes.head? = some beginObject) : Object bytes := by
  cases h with
  | object _ h => exact h
  | number _ h => exact absurd hhead h.head_ne_beginObject
  | string _ h =>
      obtain ⟨chars, -⟩ := h
      exact absurd (Option.some.inj hhead) (by decide)
  | array _ h =>
      cases h with
      | empty _ _ => exact absurd (Option.some.inj hhead) (by decide)
      | items _ _ => exact absurd (Option.some.inj hhead) (by decide)
  | _ => exact absurd (Option.some.inj hhead) (by decide)

theorem Object.exists_inner (h : Object bytes) : ∃ inner, bytes = beginObject :: (inner ++ [endObject]) := by
  cases h with
  | empty ws _ => exact ⟨ws, rfl⟩
  | members members _ => exact ⟨members, rfl⟩

/-- What ends a text that begins an object: the end of the object, or white space behind it. -/
theorem Padded.last_of_head (h : Padded bytes) (hhead : bytes.head? = some beginObject) {last : UInt8}
    (hlast : bytes.getLast? = some last) : last = endObject ∨ isWs last = true := by
  obtain ⟨before, value, after, hbefore, hvalue, hafter⟩ := h
  cases before with
  | cons b before =>
      have hb := hbefore b (.head _)
      cases Option.some.inj hhead
      exact absurd hb (by decide)
  | nil =>
      rw [List.nil_append] at hhead hlast
      cases after with
      | cons b after =>
          right
          rw [List.getLast?_append_of_ne_nil _ (List.cons_ne_nil _ _)] at hlast
          exact hafter last (List.mem_of_getLast? hlast)
      | nil =>
          left
          rw [List.append_nil] at hhead hlast
          obtain ⟨inner, rfl⟩ := (hvalue.object_of_head hhead).exists_inner
          rw [← List.cons_append, List.getLast?_concat] at hlast
          exact (Option.some.inj hlast).symm

end Objects

section Flat

/-- A name and the string it holds. -/
abbrev Pair := Bytes × Bytes

def IsPlain (b : UInt8) : Prop := isUnescaped b = true ∧ b < 0x80

instance IsPlain.decidable : DecidablePred IsPlain := fun b =>
  inferInstanceAs (Decidable (isUnescaped b = true ∧ b < 0x80))

def Plain (text : Bytes) : Prop := ∀ b ∈ text, IsPlain b

instance Plain.decidable : DecidablePred Plain := fun text =>
  inferInstanceAs (Decidable (∀ b ∈ text, IsPlain b))

def memberText (pair : Pair) : Bytes :=
  quote :: (pair.1 ++ quote :: colon :: quote :: (pair.2 ++ [quote]))

def membersText : List Pair → Bytes
  | [] => []
  | [pair] => memberText pair
  | pair :: next :: rest => memberText pair ++ comma :: membersText (next :: rest)

def objectText (pairs : List Pair) : Bytes := beginObject :: (membersText pairs ++ [endObject])

/-- The strings of the pairs stand in the text as they are. -/
def PlainPairs (pairs : List Pair) : Prop := ∀ pair ∈ pairs, Plain pair.1 ∧ Plain pair.2

instance PlainPairs.decidable : DecidablePred PlainPairs := fun pairs =>
  inferInstanceAs (Decidable (∀ pair ∈ pairs, Plain pair.1 ∧ Plain pair.2))

theorem Plain.chars {text : Bytes} (h : Plain text) : Chars text := by
  induction text with
  | nil => exact .nil
  | cons b rest ih => exact .unescaped b rest (h b (.head _)).1 (ih fun b hb => h b (.tail _ hb))

theorem ws_nil : Ws [] := fun _ h => absurd h List.not_mem_nil

theorem padded_string {text : Bytes} (h : Plain text) : Padded (quote :: (text ++ [quote])) := by
  have hvalue := Padded.mk [] _ [] ws_nil (.string _ (.mk text h.chars)) ws_nil
  rwa [List.nil_append, List.append_nil] at hvalue

theorem memberText_eq (pair : Pair) :
    memberText pair = [] ++ ((quote :: (pair.1 ++ [quote])) ++ ([] ++ colon :: (quote :: (pair.2 ++ [quote])))) := by
  simp [memberText]

theorem members_membersText {pairs : List Pair} (hne : pairs ≠ []) (h : PlainPairs pairs) :
    Members (membersText pairs) := by
  induction pairs using membersText.induct with
  | case1 => exact absurd rfl hne
  | case2 pair =>
      obtain ⟨hname, hvalue⟩ := h pair (.head _)
      rw [membersText, memberText_eq]
      exact .one [] _ [] _ ws_nil (.mk _ hname.chars) ws_nil (padded_string hvalue)
  | case3 pair next rest ih =>
      obtain ⟨hname, hvalue⟩ := h pair (.head _)
      have hrest := ih (List.cons_ne_nil _ _) fun pair hpair => h pair (.tail _ hpair)
      have hcons := Members.cons [] _ [] _ _ ws_nil (.mk _ hname.chars) ws_nil (padded_string hvalue) hrest
      rw [membersText, memberText_eq]
      simpa using hcons

theorem padded_objectText {pairs : List Pair} (h : PlainPairs pairs) : Padded (objectText pairs) := by
  have hobject : Object (objectText pairs) := by
    cases pairs with
    | nil => exact .empty [] ws_nil
    | cons pair rest => exact .members _ (members_membersText (List.cons_ne_nil _ _) h)
  have hvalue := Padded.mk [] _ [] ws_nil (.object _ hobject) ws_nil
  rwa [List.nil_append, List.append_nil] at hvalue

end Flat

section Reading

/-- The pairs between the quotation marks of a text. -/
def pairsOf : List Bytes → List Pair
  | _ :: name :: _ :: value :: rest => (name, value) :: pairsOf rest
  | _ => []

theorem Plain.ne_quote {text : Bytes} (h : Plain text) : ∀ b ∈ text, (b == quote) = false := by
  intro b hb
  have hplain := (h b hb).1
  rw [beq_eq_false_iff_ne]
  rintro rfl
  exact absurd hplain (by decide)

theorem splitOn_memberText {lead rest : Bytes} {pair : Pair} (hlead : ∀ b ∈ lead, (b == quote) = false)
    (hname : Plain pair.1) (hvalue : Plain pair.2) :
    (lead ++ (memberText pair ++ rest)).splitOn quote =
      lead :: pair.1 :: [colon] :: pair.2 :: rest.splitOn quote := by
  have hcolon : ∀ b ∈ [colon], (b == quote) = false := by decide
  have htext : lead ++ (memberText pair ++ rest) =
      lead ++ quote :: (pair.1 ++ quote :: ([colon] ++ quote :: (pair.2 ++ quote :: rest))) := by
    simp [memberText]
  rw [htext]
  simp only [List.splitOn_eq_splitOnP]
  rw [List.splitOnP_append_cons_of_forall_mem hlead quote (beq_self_eq_true _),
    List.splitOnP_append_cons_of_forall_mem hname.ne_quote quote (beq_self_eq_true _),
    List.splitOnP_append_cons_of_forall_mem hcolon quote (beq_self_eq_true _),
    List.splitOnP_append_cons_of_forall_mem hvalue.ne_quote quote (beq_self_eq_true _)]

theorem pairsOf_membersText {pairs : List Pair} (h : PlainPairs pairs) {lead : Bytes}
    (hlead : ∀ b ∈ lead, (b == quote) = false) :
    pairsOf ((lead ++ (membersText pairs ++ [endObject])).splitOn quote) = pairs := by
  have hend : ∀ b ∈ [endObject], (b == quote) = false := by decide
  induction pairs using membersText.induct generalizing lead with
  | case1 =>
      have hall : ∀ b ∈ lead ++ [endObject], (b == quote) = false := by
        intro b hb
        exact (List.mem_append.mp hb).elim (hlead b) (hend b)
      rw [membersText, List.nil_append, List.splitOn_eq_splitOnP, List.splitOnP_eq_singleton hall, pairsOf]
      intro _ _ _ _ _ heq
      cases heq
  | case2 pair =>
      obtain ⟨hname, hvalue⟩ := h pair (.head _)
      rw [membersText, splitOn_memberText hlead hname hvalue, pairsOf, List.splitOn_eq_splitOnP,
        List.splitOnP_eq_singleton hend, pairsOf]
      intro _ _ _ _ _ heq
      cases heq
  | case3 pair next rest ih =>
      obtain ⟨hname, hvalue⟩ := h pair (.head _)
      have hrest := @ih (fun pair hpair => h pair (.tail _ hpair)) [comma] (by decide)
      rw [membersText, List.append_assoc, splitOn_memberText hlead hname hvalue, pairsOf]
      exact congrArg ((pair.1, pair.2) :: ·) hrest

theorem pairsOf_objectText {pairs : List Pair} (h : PlainPairs pairs) :
    pairsOf ((objectText pairs).splitOn quote) = pairs :=
  @pairsOf_membersText pairs h [beginObject] (by decide)

end Reading

end OpenaiRs.Json
