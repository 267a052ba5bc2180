import OpenaiRs.Json.Grammar

/-!
# Framing a JSON object by points

Bytes of the form `id.digits.object` have only one reading, although the first part may hold
points and digits itself. A second reading would begin inside of the object, and there only
inside of a string; but an object text cannot be read both from within a string and from
outside.
-/

namespace OpenaiRs.Json

open Rust

section Modes

/-- Outside of strings, behind a decimal point or not. -/
def Mode.Open (mode : Mode) : Prop := mode = .outside ∨ mode = .fraction

/-- One reading stands inside of a string where the other stands outside. -/
def Opposed (first second : Mode) : Prop :=
  (first.Open ∧ second = .inside) ∨ (first = .inside ∧ second.Open)

theorem Opposed.symm {first second : Mode} (h : Opposed first second) : Opposed second first := by
  obtain h | h := h
  · exact .inr ⟨h.2, h.1⟩
  · exact .inl ⟨h.2, h.1⟩

/-- An open reading that goes on has met a quotation mark or stays open. -/
theorem Mode.Open.step {mode next : Mode} {b : UInt8} (h : mode.Open) (hstep : mode.step b = some next) :
    (b = quote ∧ next = .inside) ∨ (b ≠ quote ∧ b ≠ backslash ∧ next.Open) := by
  obtain rfl | rfl := h
  · rw [Mode.step] at hstep
    split at hstep
    · exact .inl ⟨‹_›, (Option.some.inj hstep).symm⟩
    · split at hstep
      · cases hstep
      · split at hstep
        · exact .inr ⟨‹_›, ‹_›, .inr (Option.some.inj hstep).symm⟩
        · exact .inr ⟨‹_›, ‹_›, .inl (Option.some.inj hstep).symm⟩
  · rw [Mode.step] at hstep
    split at hstep
    · exact .inl ⟨‹_›, (Option.some.inj hstep).symm⟩
    · split at hstep
      · cases hstep
      · rename_i hquote hrefused
        have hbackslash : b ≠ backslash := fun heq => hrefused (.inl heq)
        split at hstep
        · exact .inr ⟨hquote, hbackslash, .inr (Option.some.inj hstep).symm⟩
        · exact .inr ⟨hquote, hbackslash, .inl (Option.some.inj hstep).symm⟩

theorem Opposed.step_open {first second first' second' : Mode} {b : UInt8} (hopen : first.Open)
    (hinside : second = .inside) (hfirst : first.step b = some first')
    (hsecond : second.step b = some second') : Opposed first' second' := by
  subst hinside
  obtain ⟨hquote, hnext⟩ | ⟨hquote, hbackslash, hnext⟩ := hopen.step hfirst
  · rw [Mode.step, if_pos hquote] at hsecond
    exact .inr ⟨hnext, .inl (Option.some.inj hsecond).symm⟩
  · rw [Mode.step, if_neg hquote, if_neg hbackslash] at hsecond
    exact .inl ⟨hnext, (Option.some.inj hsecond).symm⟩

theorem Opposed.step {first second first' second' : Mode} {b : UInt8} (h : Opposed first second)
    (hfirst : first.step b = some first') (hsecond : second.step b = some second') :
    Opposed first' second' := by
  obtain ⟨hopen, hinside⟩ | ⟨hinside, hopen⟩ := h
  · exact Opposed.step_open hopen hinside hfirst hsecond
  · exact (Opposed.step_open hopen hinside hsecond hfirst).symm

/-- Opposed readings of the same bytes stay opposed as long as both go on. -/
theorem Opposed.scan {first second first' second' : Mode} {bytes : Bytes} (h : Opposed first second)
    (hfirst : scan first bytes = some first') (hsecond : scan second bytes = some second') :
    Opposed first' second' := by
  induction bytes generalizing first second with
  | nil =>
      cases hfirst
      cases hsecond
      exact h
  | cons b rest ih =>
      rw [scan_cons] at hfirst hsecond
      obtain ⟨next, hnext, hfirst⟩ := Option.bind_eq_some_iff.mp hfirst
      obtain ⟨next', hnext', hsecond⟩ := Option.bind_eq_some_iff.mp hsecond
      exact ih (h.step hnext hnext') hfirst hsecond

/-- A text that is read from outside of a string is not also read from within one. -/
theorem scan_inside_ne {bytes : Bytes} (h : scan .outside bytes = some .outside) :
    scan .inside bytes ≠ some .outside := by
  intro hinside
  have hopposed := Opposed.scan (.inl ⟨.inl rfl, rfl⟩) h hinside
  simp [Opposed] at hopposed

end Modes

section Cuts

/-- Outside of strings a point, digits and a point are refused. -/
theorem scan_points {mode final : Mode} {digits rest : Bytes} (hdigits : Digits digits)
    (h : scan mode (point :: (digits ++ point :: rest)) = some final) :
    scan .inside rest = some final := by
  have hplain : ∀ b ∈ digits, b ≠ quote ∧ b ≠ backslash := fun b hmem =>
    ⟨(neutral_digit (hdigits.2 b hmem)).1, (neutral_digit (hdigits.2 b hmem)).2.1⟩
  have hinside : scan .inside (digits ++ point :: rest) = scan .inside rest := by
    rw [scan_append, scan_inside hplain]
    rfl
  cases mode with
  | outside =>
      change scan .fraction (digits ++ point :: rest) = _ at h
      rw [scan_append, scan_digits_fraction hdigits.2] at h
      cases h
  | fraction => cases h
  | inside =>
      change scan .inside (digits ++ point :: rest) = _ at h
      rwa [hinside] at h
  | escaped =>
      change scan .inside (digits ++ point :: rest) = _ at h
      rwa [hinside] at h

/-- No object text goes on with an object text behind a point, digits and a point. -/
theorem ObjectText.ne_cut {text rest before digits : Bytes} (htext : ObjectText text)
    (hrest : ObjectText rest) (hdigits : Digits digits) :
    text ≠ before ++ point :: (digits ++ point :: rest) := by
  rintro rfl
  have hscan := htext.scan_outside
  rw [scan_append] at hscan
  obtain ⟨mode, -, hscan⟩ := Option.bind_eq_some_iff.mp hscan
  exact scan_inside_ne hrest.scan_outside (scan_points hdigits hscan)

/-- An object text begins with white space or a brace. -/
theorem ObjectText.ne_digits {text rest digits : Bytes} (htext : ObjectText text)
    (hdigits : Digits digits) : text ≠ digits ++ rest := by
  obtain ⟨before, object, after, hbefore, hobject, -⟩ := htext
  intro heq
  obtain ⟨digit, digits, rfl⟩ := List.exists_cons_of_ne_nil hdigits.1
  have hdigit := hdigits.2 digit (.head _)
  cases before with
  | nil =>
      have hhead : beginObject = digit := by
        cases hobject with
        | empty ws hws => exact (List.cons.inj heq).1
        | members members hmembers => exact (List.cons.inj heq).1
      rw [← hhead] at hdigit
      exact absurd hdigit (by decide)
  | cons b before =>
      have hhead : b = digit := (List.cons.inj heq).1
      rw [← hhead, not_digit_ws (hbefore b (.head _))] at hdigit
      exact absurd hdigit (by decide)

end Cuts

section Frames

theorem Digits.point_notMem {digits : Bytes} (h : Digits digits) : point ∉ digits :=
  fun hmem => (neutral_digit (h.2 point hmem)).2.2 rfl

/-- The digits behind the last point determine what stands before it. -/
theorem eq_of_append_point {id id' digits digits' : Bytes} (hdigits : Digits digits)
    (hdigits' : Digits digits') (h : id ++ point :: digits = id' ++ point :: digits') :
    id = id' ∧ digits = digits' := by
  obtain ⟨more, hid, hmore⟩ | ⟨more, hid, hmore⟩ := List.append_eq_append_iff.mp h
  · cases more with
    | nil => exact ⟨by simpa using hid.symm, (List.cons.inj hmore).2⟩
    | cons b more =>
        have hmem : point ∈ digits := by simp [(List.cons.inj hmore).2]
        exact absurd hmem hdigits.point_notMem
  · cases more with
    | nil => exact ⟨by simpa using hid, (List.cons.inj hmore).2.symm⟩
    | cons b more =>
        have hmem : point ∈ digits' := by simp [(List.cons.inj hmore).2]
        exact absurd hmem hdigits'.point_notMem

/-- A reading that begins further behind is no reading. -/
theorem frame_not_longer {header text id digits rest more : Bytes} (htext : ObjectText text)
    (hrest : ObjectText rest) (hdigits : Digits digits)
    (hheader : id ++ point :: digits ++ [point] = header ++ [point] ++ more)
    (heq : text = more ++ rest) : more = [] := by
  obtain hnil | ⟨middle, b, hmore⟩ := List.eq_nil_or_concat more
  · exact hnil
  · rw [List.concat_eq_append] at hmore
    rw [hmore, ← List.append_assoc] at hheader
    obtain ⟨hbefore, hb⟩ := List.append_inj' hheader rfl
    have htail : text = middle ++ point :: rest := by
      rw [heq, hmore, ← (List.cons.inj hb).1, List.append_assoc]
      rfl
    -- The points of the second header are compared with the one that ends the first.
    obtain ⟨shared, hshared, hmiddle⟩ | ⟨more, hid, hmiddle⟩ := List.append_eq_append_iff.mp hbefore
    · cases shared with
      | nil =>
          have hdigitsTail : text = [] ++ point :: (digits ++ point :: rest) := by
            rw [htail, ← List.nil_append middle, ← hmiddle]
            rfl
          exact absurd hdigitsTail (htext.ne_cut hrest hdigits)
      | cons c shared =>
          obtain ⟨hc, hmiddle⟩ := List.cons.inj hmiddle
          obtain rfl | ⟨before, last, rfl⟩ := List.eq_nil_or_concat shared
          · change digits = middle at hmiddle
            rw [← hmiddle] at htail
            exact absurd htail (htext.ne_digits hdigits)
          · rw [List.concat_eq_append, ← List.cons_append, ← List.append_assoc] at hshared
            have hlast := (List.cons.inj (List.append_inj' hshared rfl).2).1
            have hmem : point ∈ digits := by
              rw [hmiddle, hlast]
              simp
            exact absurd hmem hdigits.point_notMem
    · have hcut : text = more ++ point :: (digits ++ point :: rest) := by
        rw [htail, hmiddle, List.append_assoc]
        rfl
      exact absurd hcut (htext.ne_cut hrest hdigits)

/-- The bytes `id.digits.text` of an object text determine the three parts. -/
theorem frame_injective {id id' digits digits' text text' : Bytes} (hdigits : Digits digits)
    (hdigits' : Digits digits') (htext : ObjectText text) (htext' : ObjectText text')
    (h : id ++ point :: (digits ++ point :: text) = id' ++ point :: (digits' ++ point :: text')) :
    id = id' ∧ digits = digits' ∧ text = text' := by
  have hsplit : ∀ id digits text : Bytes, id ++ point :: (digits ++ point :: text) =
      (id ++ point :: digits ++ [point]) ++ text := by
    intro id digits text
    simp
  rw [hsplit, hsplit] at h
  have hheaders : id ++ point :: digits ++ [point] = id' ++ point :: digits' ++ [point] ∧
      text = text' := by
    obtain ⟨more, hheader, htexts⟩ | ⟨more, hheader, htexts⟩ := List.append_eq_append_iff.mp h
    · have hnil := frame_not_longer htext htext' hdigits' hheader htexts
      rw [hnil] at hheader htexts
      exact ⟨by simpa using hheader.symm, by simpa using htexts⟩
    · have hnil := frame_not_longer htext' htext hdigits hheader htexts
      rw [hnil] at hheader htexts
      exact ⟨by simpa using hheader, by simpa using htexts.symm⟩
  have hparts := eq_of_append_point hdigits hdigits' (List.append_inj' hheaders.1 rfl).1
  exact ⟨hparts.1, hparts.2, hheaders.2⟩

end Frames

end OpenaiRs.Json
