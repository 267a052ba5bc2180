import Mathlib.Data.List.Infix
import Mathlib.Tactic.Common

/-!
# Replacing marked bodies

A lead is followed by a body, the symbols up to one that ends it. A pass over a text finds the leads from
left to right and writes a mark for each lead and its body. What the pass makes of two texts next to each
other is told by whether a body of the first one is still open at its end.
-/

namespace OpenaiRs.Text

variable {α : Type*} [DecidableEq α]

section Pass

variable (lead mark : List α) (ends : α → Bool)

/-- The text behind a body. -/
def afterBody (text : List α) : List α := text.dropWhile fun c => !ends c

omit [DecidableEq α] in
theorem length_afterBody (text : List α) : (afterBody ends text).length ≤ text.length :=
  (List.dropWhile_suffix _).length_le

def replaceBodies : List α → List α
  | [] => []
  | c :: rest =>
      if lead.isPrefixOf (c :: rest) then
        mark ++ replaceBodies (afterBody ends (rest.drop (lead.length - 1)))
      else c :: replaceBodies rest
termination_by text => text.length
decreasing_by
  · have hbody := length_afterBody ends (rest.drop (lead.length - 1))
    rw [List.length_drop] at hbody
    rw [List.length_cons]
    omega
  · exact Nat.lt_succ_self _

/-- The pass meets the end of the text within a body. -/
def endsInBody : List α → Bool
  | [] => false
  | c :: rest =>
      if lead.isPrefixOf (c :: rest) then
        (afterBody ends (rest.drop (lead.length - 1))).isEmpty ||
          endsInBody (afterBody ends (rest.drop (lead.length - 1)))
      else endsInBody rest
termination_by text => text.length
decreasing_by
  · have hbody := length_afterBody ends (rest.drop (lead.length - 1))
    rw [List.length_drop] at hbody
    rw [List.length_cons]
    omega
  · exact Nat.lt_succ_self _

end Pass

section Equations

variable {lead mark : List α} {ends : α → Bool}

theorem replaceBodies_lead (hlead : lead ≠ []) (text : List α) :
    replaceBodies lead mark ends (lead ++ text) =
      mark ++ replaceBodies lead mark ends (afterBody ends text) := by
  obtain ⟨c, rest, rfl⟩ := List.exists_cons_of_ne_nil hlead
  have hmatch : (c :: rest).isPrefixOf (c :: (rest ++ text)) = true := by
    rw [List.isPrefixOf_iff_prefix, ← List.cons_append]
    exact List.prefix_append _ _
  rw [List.cons_append, replaceBodies, if_pos hmatch, List.length_cons, Nat.add_sub_cancel, List.drop_left]

theorem replaceBodies_cons (mark : List α) (ends : α → Bool) {c : α} {rest : List α} (h : ¬ lead <+: c :: rest) :
    replaceBodies lead mark ends (c :: rest) = c :: replaceBodies lead mark ends rest := by
  rw [replaceBodies, if_neg (by simpa using h)]

theorem endsInBody_lead (hlead : lead ≠ []) (text : List α) :
    endsInBody lead ends (lead ++ text) =
      ((afterBody ends text).isEmpty || endsInBody lead ends (afterBody ends text)) := by
  obtain ⟨c, rest, rfl⟩ := List.exists_cons_of_ne_nil hlead
  have hmatch : (c :: rest).isPrefixOf (c :: (rest ++ text)) = true := by
    rw [List.isPrefixOf_iff_prefix, ← List.cons_append]
    exact List.prefix_append _ _
  rw [List.cons_append, endsInBody, if_pos hmatch, List.length_cons, Nat.add_sub_cancel, List.drop_left]

theorem endsInBody_cons {c : α} {rest : List α} (h : ¬ lead <+: c :: rest) :
    endsInBody lead ends (c :: rest) = endsInBody lead ends rest := by
  rw [endsInBody, if_neg (by simpa using h)]

/-- The cases of a pass: nothing is left, a lead with its body, or a symbol that starts no lead. -/
theorem bodies_induction (ends : α → Bool) {P : List α → Prop} (hlead : lead ≠ []) (hnil : P [])
    (hbody : ∀ text, P (afterBody ends text) → P (lead ++ text))
    (hcons : ∀ c rest, ¬ lead <+: c :: rest → P rest → P (c :: rest)) (text : List α) : P text := by
  induction hlength : text.length using Nat.strongRecOn generalizing text with
  | _ length ih =>
      cases text with
      | nil => exact hnil
      | cons c rest =>
          by_cases hmatch : lead <+: c :: rest
          · obtain ⟨text, htext⟩ := hmatch
            rw [← htext]
            refine hbody text (ih _ ?_ _ rfl)
            have hafter := length_afterBody ends text
            have hpos := List.length_pos_of_ne_nil hlead
            have htotal := congrArg List.length htext
            rw [List.length_append, hlength] at htotal
            omega
          · refine hcons c rest hmatch (ih _ ?_ _ rfl)
            rw [← hlength]
            exact Nat.lt_succ_self _

theorem replaceBodies_eq_self (hlead : lead ≠ []) {text : List α} (h : ¬ lead <:+: text) :
    replaceBodies lead mark ends text = text := by
  induction text using bodies_induction ends hlead with
  | hnil => rw [replaceBodies]
  | hbody text _ => exact absurd (List.prefix_append lead text).isInfix h
  | hcons c rest hmatch ih =>
      rw [replaceBodies_cons mark ends hmatch, ih fun hrest => h (hrest.trans (List.suffix_cons c rest).isInfix)]

theorem endsInBody_eq_false (hlead : lead ≠ []) {text : List α} (h : ¬ lead <:+: text) :
    endsInBody lead ends text = false := by
  induction text using bodies_induction ends hlead with
  | hnil => rw [endsInBody]
  | hbody text _ => exact absurd (List.prefix_append lead text).isInfix h
  | hcons c rest hmatch ih =>
      rw [endsInBody_cons hmatch, ih fun hrest => h (hrest.trans (List.suffix_cons c rest).isInfix)]

/-- What holds of the symbols of a text and of the mark holds behind a pass. -/
theorem forall_replaceBodies (hlead : lead ≠ []) {P : α → Prop} (hmark : ∀ c ∈ mark, P c) {text : List α}
    (h : ∀ c ∈ text, P c) : ∀ c ∈ replaceBodies lead mark ends text, P c := by
  induction text using bodies_induction ends hlead with
  | hnil =>
      rw [replaceBodies]
      exact h
  | hbody text ih =>
      rw [replaceBodies_lead hlead]
      intro c hc
      obtain hc | hc := List.mem_append.mp hc
      · exact hmark c hc
      · refine ih (fun c hc => h c (List.mem_append_right _ ?_)) c hc
        exact (List.dropWhile_suffix _).subset hc
  | hcons c rest hmatch ih =>
      rw [replaceBodies_cons mark ends hmatch]
      intro c' hc'
      obtain rfl | hc' := List.mem_cons.mp hc'
      · exact h c' List.mem_cons_self
      · exact ih (fun c hc => h c (List.mem_cons_of_mem _ hc)) c' hc'

/-- A body that is open at the end leaves its mark there. -/
theorem mark_suffix_of_endsInBody (hlead : lead ≠ []) {text : List α}
    (h : endsInBody lead ends text = true) : mark <:+ replaceBodies lead mark ends text := by
  induction text using bodies_induction ends hlead with
  | hnil => rw [endsInBody] at h; cases h
  | hbody text ih =>
      rw [endsInBody_lead hlead, Bool.or_eq_true] at h
      rw [replaceBodies_lead hlead]
      obtain hempty | hopen := h
      · rw [List.isEmpty_iff.mp hempty, replaceBodies, List.append_nil]
      · exact (ih hopen).trans (List.suffix_append _ _)
  | hcons c rest hmatch ih =>
      rw [endsInBody_cons hmatch] at h
      rw [replaceBodies_cons mark ends hmatch]
      exact (ih h).trans (List.suffix_cons _ _)

end Equations

section After

variable {ends : α → Bool} {text behind : List α}

omit [DecidableEq α] in
theorem ends_head_afterBody (text : List α) : ∀ c ∈ (afterBody ends text).head?, ends c = true := by
  intro c hc
  have hhead := List.head?_dropWhile_not (fun c => !ends c) text
  rw [← afterBody, Option.mem_def.mp hc] at hhead
  simpa using hhead

omit [DecidableEq α] in
theorem exists_append_afterBody (ends : α → Bool) (text : List α) :
    ∃ body, text = body ++ afterBody ends text ∧ ∀ c ∈ body, ends c = false := by
  refine ⟨text.takeWhile fun c => !ends c, List.takeWhile_append_dropWhile.symm, fun c hc => ?_⟩
  simpa using List.all_eq_true.mp List.all_takeWhile c hc

omit [DecidableEq α] in
theorem afterBody_eq_self (h : ∀ c ∈ text.head?, ends c = true) : afterBody ends text = text := by
  cases text with
  | nil => rfl
  | cons c text => rw [afterBody, List.dropWhile_cons, if_neg (by simp [h c rfl])]

omit [DecidableEq α] in
theorem afterBody_append_of_forall (h : ∀ c ∈ text, ends c = false) :
    afterBody ends (text ++ behind) = afterBody ends behind :=
  List.dropWhile_append_of_pos fun c hc => by simp [h c hc]

end After

section Cut

variable {lead mark : List α} {ends : α → Bool} {left right : List α}

/-- No lead reaches from the left text into the right one. -/
def Cut (lead left right : List α) : Prop :=
  ∀ tail, tail <:+ left → tail ≠ [] → lead <+: tail ++ right → lead <+: tail

omit [DecidableEq α] in
theorem Cut.suffix {left' : List α} (h : Cut lead left right) (hsuffix : left' <:+ left) :
    Cut lead left' right :=
  fun tail htail => h tail (htail.trans hsuffix)

omit [DecidableEq α] in
theorem afterBody_append (left right : List α) :
    afterBody ends (left ++ right) =
      if (afterBody ends left).isEmpty then afterBody ends right else afterBody ends left ++ right :=
  List.dropWhile_append

/-- The pass over two texts: a body that is open at the end of the first goes on in the second. -/
theorem replaceBodies_append (hlead : lead ≠ []) (h : Cut lead left right) :
    replaceBodies lead mark ends (left ++ right) =
      replaceBodies lead mark ends left ++
        replaceBodies lead mark ends (if endsInBody lead ends left then afterBody ends right else right) := by
  induction left using bodies_induction ends hlead with
  | hnil =>
      rw [replaceBodies, endsInBody]
      rfl
  | hbody text ih =>
      rw [List.append_assoc, replaceBodies_lead hlead, replaceBodies_lead hlead, endsInBody_lead hlead,
        afterBody_append, List.append_assoc]
      by_cases hempty : (afterBody ends text).isEmpty = true
      · rw [if_pos hempty, hempty, List.isEmpty_iff.mp hempty, replaceBodies]
        rfl
      · have hsuffix : afterBody ends text <:+ lead ++ text :=
          (List.dropWhile_suffix _).trans (List.suffix_append _ _)
        rw [if_neg hempty, ih (h.suffix hsuffix)]
        simp only [hempty, Bool.false_or]
  | hcons c rest hmatch ih =>
      have hmatch' : ¬ lead <+: c :: (rest ++ right) :=
        fun hin => hmatch (h (c :: rest) (List.suffix_refl _) (List.cons_ne_nil _ _) hin)
      rw [List.cons_append, replaceBodies_cons mark ends hmatch', replaceBodies_cons mark ends hmatch, endsInBody_cons hmatch,
        ih (h.suffix (List.suffix_cons _ _)), List.cons_append]

/-- What a second text makes of a body that is open at the end of the first. -/
theorem endsInBody_append (hlead : lead ≠ []) (h : Cut lead left right) :
    endsInBody lead ends (left ++ right) =
      if endsInBody lead ends left then
        (afterBody ends right).isEmpty || endsInBody lead ends (afterBody ends right)
      else endsInBody lead ends right := by
  induction left using bodies_induction ends hlead with
  | hnil =>
      rw [endsInBody, List.nil_append, if_neg Bool.false_ne_true]
  | hbody text ih =>
      rw [List.append_assoc, endsInBody_lead hlead, endsInBody_lead hlead, afterBody_append]
      by_cases hempty : (afterBody ends text).isEmpty = true
      · rw [if_pos hempty, hempty, Bool.true_or, if_pos rfl]
      · have hsuffix : afterBody ends text <:+ lead ++ text :=
          (List.dropWhile_suffix _).trans (List.suffix_append _ _)
        have hnonempty : (afterBody ends text ++ right).isEmpty = false := by
          rw [List.isEmpty_iff] at hempty
          simp [hempty]
        rw [if_neg hempty, ih (h.suffix hsuffix), hnonempty, Bool.false_or]
        simp only [hempty, Bool.false_or]
  | hcons c rest hmatch ih =>
      have hmatch' : ¬ lead <+: c :: (rest ++ right) :=
        fun hin => hmatch (h (c :: rest) (List.suffix_refl _) (List.cons_ne_nil _ _) hin)
      rw [List.cons_append, endsInBody_cons hmatch', endsInBody_cons hmatch, ih (h.suffix (List.suffix_cons _ _))]

/-- An open body stands behind a lead. -/
theorem exists_lead_of_endsInBody (hlead : lead ≠ []) {text : List α} (h : endsInBody lead ends text = true) :
    ∃ front body, text = front ++ (lead ++ body) ∧ ∀ c ∈ body, ends c = false := by
  induction text using bodies_induction ends hlead with
  | hnil =>
      rw [endsInBody] at h
      cases h
  | hbody text ih =>
      rw [endsInBody_lead hlead, Bool.or_eq_true] at h
      obtain ⟨skipped, htext, hskipped⟩ := exists_append_afterBody ends text
      obtain hempty | hopen := h
      · rw [List.isEmpty_iff.mp hempty, List.append_nil] at htext
        exact ⟨[], skipped, by rw [List.nil_append, htext], hskipped⟩
      · obtain ⟨front, body, hafter, hbody⟩ := ih hopen
        refine ⟨lead ++ (skipped ++ front), body, ?_, hbody⟩
        rw [List.append_assoc, List.append_assoc, ← hafter, ← htext]
  | hcons c rest hmatch ih =>
      rw [endsInBody_cons hmatch] at h
      obtain ⟨front, body, rfl, hbody⟩ := ih h
      exact ⟨c :: front, body, rfl, hbody⟩

end Cut

section Origins

variable {lead mark other body : List α} {ends : α → Bool}
variable (hlead : lead ≠ []) (hmark : mark ≠ []) (hstart : ∀ c ∈ lead.head?, ends c = false)

include hlead hmark hstart

omit hmark in
/-- A symbol that ends a body stays. -/
theorem replaceBodies_ends {c : α} (hends : ends c = true) (rest : List α) :
    replaceBodies lead mark ends (c :: rest) = c :: replaceBodies lead mark ends rest := by
  apply replaceBodies_cons
  intro hin
  obtain ⟨c', lead, rfl⟩ := List.exists_cons_of_ne_nil hlead
  rw [List.cons_prefix_cons] at hin
  have hkept := hstart c' rfl
  rw [hin.1, hends] at hkept
  cases hkept

/-- What a pass leaves without an open body, and without the start of a mark in front of a body, was there. -/
theorem eq_of_replaceBodies_eq (hbody : ∀ c ∈ body, ends c = false) {text : List α}
    (hother : ∀ c ∈ mark.head?, c ∉ other) (hclosed : endsInBody lead ends text = false)
    (h : replaceBodies lead mark ends text = other ++ body) : text = other ++ body := by
  induction text using bodies_induction ends hlead generalizing other body with
  | hnil => rwa [replaceBodies] at h
  | hbody text _ =>
      rw [endsInBody_lead hlead, Bool.or_eq_false_iff] at hclosed
      obtain ⟨m, mark, rfl⟩ := List.exists_cons_of_ne_nil hmark
      obtain ⟨c, rest, hafter⟩ : ∃ c rest, afterBody ends text = c :: rest :=
        List.exists_cons_of_ne_nil (by simpa using hclosed.1)
      have hends : ends c = true := ends_head_afterBody text c (by rw [hafter]; rfl)
      rw [replaceBodies_lead hlead, hafter, replaceBodies_ends hlead hstart hends] at h
      cases other with
      | cons c' other =>
          obtain ⟨rfl, -⟩ := List.cons.inj h
          exact absurd List.mem_cons_self (hother m rfl)
      | nil =>
          -- the symbol that ends the body of the lead is kept
          rw [List.nil_append] at h
          have hkept := hbody c (h ▸ List.mem_append_right _ List.mem_cons_self)
          rw [hends] at hkept
          cases hkept
  | hcons c rest hmatch ih =>
      rw [replaceBodies_cons mark ends hmatch] at h
      rw [endsInBody_cons hmatch] at hclosed
      cases other with
      | nil =>
          cases body with
          | nil => cases h
          | cons c' body =>
              obtain ⟨rfl, hrest⟩ := List.cons.inj h
              have hbody' := fun c' hc' => hbody c' (List.mem_cons_of_mem c hc')
              have hnone : ∀ c ∈ mark.head?, c ∉ ([] : List α) := fun _ _ => List.not_mem_nil
              exact congrArg (c :: ·) (ih hbody' hnone hclosed hrest)
      | cons c' other =>
          obtain ⟨rfl, hrest⟩ := List.cons.inj h
          have hother' := fun m hm hin => hother m hm (List.mem_cons_of_mem c hin)
          exact congrArg (c :: ·) (ih hbody hother' hclosed hrest)

/-- A text that meets no mark, with a body to the end, is where it stands behind a pass already in front of it, and
no body is open in front of it. -/
theorem exists_front_of_replaceBodies (hother : other ≠ []) (hnone : ∀ c ∈ mark.head?, c ∉ other)
    (hhead : ∀ c ∈ other.head?, ends c = false ∧ c ∉ mark) (hbody : ∀ c ∈ body, ends c = false) {text front : List α}
    (hclosed : endsInBody lead ends text = false)
    (h : replaceBodies lead mark ends text = front ++ (other ++ body)) :
    ∃ front', text = front' ++ (other ++ body) ∧ endsInBody lead ends front' = false := by
  obtain ⟨first, tail, rfl⟩ := List.exists_cons_of_ne_nil hother
  obtain ⟨hfirst, hfresh⟩ := hhead first rfl
  induction text using bodies_induction ends hlead generalizing front with
  | hnil =>
      rw [replaceBodies] at h
      exact absurd h.symm (List.append_ne_nil_of_right_ne_nil _ (List.cons_ne_nil _ _))
  | hbody text ih =>
      rw [endsInBody_lead hlead, Bool.or_eq_false_iff] at hclosed
      rw [replaceBodies_lead hlead] at h
      obtain ⟨later, hlater⟩ : ∃ later, replaceBodies lead mark ends (afterBody ends text) =
          later ++ (first :: tail ++ body) := by
        obtain ⟨later, -, hrest⟩ | ⟨within, hfront, hrest⟩ := List.append_eq_append_iff.mp h
        · exact ⟨later, hrest⟩
        · cases within with
          | nil => exact ⟨[], hrest.symm⟩
          | cons c within =>
              obtain ⟨rfl, -⟩ := List.cons.inj hrest
              exact absurd (hfront ▸ List.mem_append_right front List.mem_cons_self) hfresh
      obtain ⟨behind, hafter, hopen⟩ := ih hclosed.2 hlater
      obtain ⟨skipped, htext, hskipped⟩ := exists_append_afterBody ends text
      have hends : ∀ c ∈ (afterBody ends text).head?, ends c = true := ends_head_afterBody text
      rw [hafter] at hends htext
      -- the body of the lead ends in front of the other text
      cases behind with
      | nil =>
          have hkept := hends first rfl
          rw [hfirst] at hkept
          cases hkept
      | cons c behind =>
          refine ⟨lead ++ (skipped ++ c :: behind), by rw [htext]; simp, ?_⟩
          have hself : afterBody ends (c :: behind) = c :: behind := afterBody_eq_self fun _ hc => hends _ hc
          rw [endsInBody_lead hlead, afterBody_append_of_forall hskipped, hself, hopen]
          rfl
  | hcons c rest hmatch ih =>
      rw [replaceBodies_cons mark ends hmatch] at h
      rw [endsInBody_cons hmatch] at hclosed
      cases front with
      | nil =>
          refine ⟨[], ?_, by rw [endsInBody]⟩
          obtain ⟨rfl, hrest⟩ := List.cons.inj h
          have htail := fun m hm hin => hnone m hm (List.mem_cons_of_mem c hin)
          exact congrArg (c :: ·) (eq_of_replaceBodies_eq hlead hmark hstart hbody htail hclosed hrest)
      | cons c' front =>
          obtain ⟨rfl, hrest⟩ := List.cons.inj h
          obtain ⟨front', rfl, hopen⟩ := ih hclosed hrest
          refine ⟨c :: front', rfl, ?_⟩
          rw [endsInBody_cons fun hin => hmatch (hin.trans (List.prefix_append (c :: front') _))]
          exact hopen

end Origins

section Foreign

variable {lead mark other : List α} {ends : α → Bool}

/-- A text that meets no mark: it does not have its first symbol, and none of its occurrences starts in
one. -/
structure Foreign (mark other : List α) : Prop where
  first : ∀ c ∈ mark.head?, c ∉ other
  behind : ∀ text, other <:+: mark ++ text → other <:+: text

omit [DecidableEq α] in
/-- A text without the last symbol of the mark that is no part of it. -/
theorem foreign_of_last {opening : List α} {c : α} (hlast : c ∉ other) (hpart : ¬ other <:+: opening)
    (hfirst : ∀ c' ∈ (opening ++ [c]).head?, c' ∉ other) : Foreign (opening ++ [c]) other where
  first := hfirst
  behind text hin := by
    obtain ⟨before, behind, heq⟩ := hin
    rw [List.append_assoc opening, List.singleton_append] at heq
    obtain ⟨more, hopening, -⟩ | ⟨more, hfront, hback⟩ := List.append_eq_append_iff.mp heq
    · exact absurd ⟨before, more, hopening.symm⟩ hpart
    · cases more with
      | nil =>
          rw [List.append_nil] at hfront
          exact absurd ⟨before, [], by rw [List.append_nil, hfront]⟩ hpart
      | cons c' more =>
          injection hback with hc hback
          subst hc
          -- The last symbol of the mark stands before the occurrence, or in it.
          obtain ⟨part, -, hother⟩ | ⟨part, -, hother⟩ := List.append_eq_append_iff.mp hfront
          · exact absurd (hother ▸ List.mem_append_right part List.mem_cons_self) hlast
          · cases part with
            | nil =>
                rw [List.nil_append] at hother
                exact absurd (hother ▸ List.mem_cons_self) hlast
            | cons c' part =>
                injection hother with _ hmore
                change text = more ++ behind at hback
                change more = part ++ other at hmore
                exact ⟨part, behind, by rw [hback, hmore]⟩

/-- A pass starts no occurrence that was not there. -/
theorem prefix_of_replaceBodies (hlead : lead ≠ []) (hmark : mark ≠ []) {text : List α} :
    ∀ {other : List α}, (∀ c ∈ mark.head?, c ∉ other) →
      other <+: replaceBodies lead mark ends text → other <+: text := by
  induction text using bodies_induction ends hlead with
  | hnil =>
      intro other _ h
      rwa [replaceBodies] at h
  | hbody text _ =>
      intro other hother h
      rw [replaceBodies_lead hlead] at h
      cases other with
      | nil => exact List.nil_prefix
      | cons c other =>
          obtain ⟨c', mark, rfl⟩ := List.exists_cons_of_ne_nil hmark
          rw [List.cons_append, List.cons_prefix_cons] at h
          exact absurd (h.1 ▸ List.mem_cons_self) (hother c' rfl)
  | hcons c rest hmatch ih =>
      intro other hother h
      rw [replaceBodies_cons mark ends hmatch] at h
      cases other with
      | nil => exact List.nil_prefix
      | cons c' other =>
          rw [List.cons_prefix_cons] at h ⊢
          exact ⟨h.1, ih (fun c hc hmem => hother c hc (List.mem_cons_of_mem _ hmem)) h.2⟩

variable (hlead : lead ≠ []) (hmark : mark ≠ [])

include hlead hmark

/-- A pass keeps a text free of what meets no mark. -/
theorem infix_of_replaceBodies (h : Foreign mark other) {text : List α}
    (hin : other <:+: replaceBodies lead mark ends text) : other <:+: text := by
  induction text using bodies_induction ends hlead with
  | hnil => rwa [replaceBodies] at hin
  | hbody text ih =>
      rw [replaceBodies_lead hlead] at hin
      have hafter := ih (h.behind _ hin)
      exact hafter.trans ((List.dropWhile_suffix _).trans (List.suffix_append _ _)).isInfix
  | hcons c rest hmatch ih =>
      rw [replaceBodies_cons mark ends hmatch, List.infix_cons_iff] at hin
      rw [List.infix_cons_iff]
      obtain hstart | hrest := hin
      · rw [← replaceBodies_cons mark ends hmatch] at hstart
        exact .inl (prefix_of_replaceBodies hlead hmark h.first hstart)
      · exact .inr (ih hrest)

/-- A pass leaves no lead. -/
theorem not_infix_replaceBodies (h : Foreign mark lead) (text : List α) :
    ¬ lead <:+: replaceBodies lead mark ends text := by
  induction text using bodies_induction ends hlead with
  | hnil =>
      rw [replaceBodies]
      intro hin
      exact hlead (List.infix_nil.mp hin)
  | hbody text ih =>
      rw [replaceBodies_lead hlead]
      exact fun hin => ih (h.behind _ hin)
  | hcons c rest hmatch ih =>
      intro hin
      rw [replaceBodies_cons mark ends hmatch, List.infix_cons_iff] at hin
      obtain hstart | hrest := hin
      · rw [← replaceBodies_cons mark ends hmatch] at hstart
        exact hmatch (prefix_of_replaceBodies hlead hmark h.first hstart)
      · exact ih hrest

end Foreign

end OpenaiRs.Text
