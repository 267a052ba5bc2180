import Mathlib.Data.List.Basic
import Mathlib.Tactic.Common

/-!
# Physical lines with three terminators

A line ends at `lf`, at `cr`, or at the pair `cr lf`, which is one terminator.
`lines` is the whole-input definition. `splitLine` takes one line off the front
of a buffer that may still grow, and `scanLines` reads one symbol at a time with
a flag in place of the look-ahead. The two incremental forms are tied to `lines`
here, so a decoder built on either one is compared with the same definition.
-/

namespace OpenaiRs.Text

section Plain

variable {α : Type*} {cr lf : α}

/-- No symbol of the list ends a line. -/
def Plain (cr lf : α) (content : List α) : Prop := ∀ b ∈ content, b ≠ cr ∧ b ≠ lf

theorem plain_nil : Plain cr lf [] := by simp [Plain]

theorem plain_cons {b : α} {rest : List α} :
    Plain cr lf (b :: rest) ↔ (b ≠ cr ∧ b ≠ lf) ∧ Plain cr lf rest := by
  simp [Plain]

theorem plain_append {left right : List α} :
    Plain cr lf (left ++ right) ↔ Plain cr lf left ∧ Plain cr lf right := by
  simp only [Plain, List.mem_append]
  constructor
  · intro h
    exact ⟨fun b hb => h b (Or.inl hb), fun b hb => h b (Or.inr hb)⟩
  · rintro ⟨hl, hr⟩ b (hb | hb)
    · exact hl b hb
    · exact hr b hb

end Plain

variable {α : Type*} [DecidableEq α] (cr lf : α)

/-- All lines of an input whose current line already holds `current`. A last
line without terminator counts when it is not empty. -/
def lines (current : List α) : List α → List (List α)
  | [] => if current = [] then [] else [current]
  | [b] =>
      if b = lf then [current]
      else if b = cr then [current]
      else [current ++ [b]]
  | b :: next :: rest =>
      if b = lf then current :: lines [] (next :: rest)
      else if b = cr then
        if next = lf then current :: lines [] rest else current :: lines [] (next :: rest)
      else lines (current ++ [b]) (next :: rest)

/-- An `lf` directly after a `cr` belongs to the same terminator. -/
def dropLf : List α → List α
  | [] => []
  | b :: rest => if b = lf then rest else b :: rest

/-- The first complete line of a buffer and what follows its terminator. A final
`cr` is complete only at end of input, since an `lf` may still follow it. -/
def splitLine (eof : Bool) : List α → Option (List α × List α)
  | [] => none
  | b :: rest =>
      if b = lf then some ([], rest)
      else if b = cr then
        if rest = [] && !eof then none else some ([], dropLf lf rest)
      else (splitLine eof rest).map fun p => (b :: p.1, p.2)

/-- The same lines read one symbol at a time. `afterCr` records that the previous
symbol was a `cr` that already ended its line. -/
def scanLines (current : List α) (afterCr : Bool) : List α → List (List α)
  | [] => if current = [] then [] else [current]
  | b :: rest =>
      if b = lf then
        if afterCr then scanLines current false rest else current :: scanLines [] false rest
      else if b = cr then current :: scanLines [] true rest
      else scanLines (current ++ [b]) false rest

/-- The complete lines of an input and the unterminated rest, with the same flag. -/
def splitLines (current : List α) (afterCr : Bool) : List α → List (List α) × List α
  | [] => ([], current)
  | b :: rest =>
      if b = lf then
        if afterCr then splitLines current false rest
        else (current :: (splitLines [] false rest).1, (splitLines [] false rest).2)
      else if b = cr then (current :: (splitLines [] true rest).1, (splitLines [] true rest).2)
      else splitLines (current ++ [b]) false rest

variable {cr lf}

theorem lines_nil (current : List α) :
    lines cr lf current [] = if current = [] then [] else [current] := by
  rw [lines]

theorem lines_cons (current : List α) (b : α) (rest : List α) :
    lines cr lf current (b :: rest) =
      if b = lf then current :: lines cr lf [] rest
      else if b = cr then current :: lines cr lf [] (dropLf lf rest)
      else lines cr lf (current ++ [b]) rest := by
  cases rest with
  | nil => simp [lines, dropLf]
  | cons next rest =>
      rw [lines, dropLf]
      by_cases hnext : next = lf <;> simp [hnext]

/-- Content without terminators only extends the current line. -/
theorem lines_plain_append {content : List α} (h : Plain cr lf content)
    (current rest : List α) :
    lines cr lf current (content ++ rest) = lines cr lf (current ++ content) rest := by
  induction content generalizing current with
  | nil => simp
  | cons b content ih =>
      obtain ⟨⟨hcr, hlf⟩, hrest⟩ := plain_cons.mp h
      rw [List.cons_append, lines_cons, if_neg hlf, if_neg hcr, ih hrest,
        List.append_assoc, List.singleton_append]

theorem splitLine_plain_append {content : List α} (h : Plain cr lf content)
    (eof : Bool) (rest : List α) :
    splitLine cr lf eof (content ++ rest) =
      (splitLine cr lf eof rest).map fun p => (content ++ p.1, p.2) := by
  induction content with
  | nil => simp
  | cons b content ih =>
      obtain ⟨⟨hcr, hlf⟩, hrest⟩ := plain_cons.mp h
      rw [List.cons_append, splitLine, if_neg hlf, if_neg hcr, ih hrest, Option.map_map]
      rfl

theorem splitLine_plain {content : List α} (h : Plain cr lf content) (eof : Bool) :
    splitLine cr lf eof content = none := by
  have happ := splitLine_plain_append h eof []
  simpa [splitLine] using happ

/-- A buffer without complete line is plain content, possibly followed by one
`cr` that is still undecided. -/
theorem plain_of_splitLine_none {buffer : List α}
    (h : splitLine cr lf false buffer = none) :
    Plain cr lf buffer ∨ ∃ content, Plain cr lf content ∧ buffer = content ++ [cr] := by
  induction buffer with
  | nil => exact Or.inl plain_nil
  | cons b rest ih =>
      rw [splitLine] at h
      split at h
      · cases h
      · rename_i hlf
        split at h
        · rename_i hcr
          split at h
          · rename_i hrest
            have hnil : rest = [] := by simpa using hrest
            exact Or.inr ⟨[], plain_nil, by simp [hcr, hnil]⟩
          · cases h
        · rename_i hcr
          obtain hp | ⟨content, hp, rfl⟩ := ih (Option.map_eq_none_iff.mp h)
          · exact Or.inl (plain_cons.mpr ⟨⟨hcr, hlf⟩, hp⟩)
          · exact Or.inr ⟨b :: content, plain_cons.mpr ⟨⟨hcr, hlf⟩, hp⟩, rfl⟩

/-- At end of input only plain content has no complete line. -/
theorem plain_of_splitLine_eof_none {buffer : List α}
    (h : splitLine cr lf true buffer = none) : Plain cr lf buffer := by
  induction buffer with
  | nil => exact plain_nil
  | cons b rest ih =>
      rw [splitLine] at h
      split at h
      · cases h
      · rename_i hlf
        split at h
        · simp at h
        · rename_i hcr
          exact plain_cons.mpr ⟨⟨hcr, hlf⟩, ih (Option.map_eq_none_iff.mp h)⟩

/-- What a successful split says about the front of the buffer. -/
theorem splitLine_eq_some {eof : Bool} {buffer line rest : List α}
    (h : splitLine cr lf eof buffer = some (line, rest)) :
    Plain cr lf line ∧
      (buffer = line ++ lf :: rest ∨
        ∃ tail, buffer = line ++ cr :: tail ∧ cr ≠ lf ∧ rest = dropLf lf tail ∧
          (tail = [] → eof = true)) := by
  induction buffer generalizing line with
  | nil => simp [splitLine] at h
  | cons b buffer ih =>
      rw [splitLine] at h
      split at h
      · rename_i hlf
        obtain ⟨rfl, rfl⟩ := Prod.mk.inj (Option.some.inj h)
        exact ⟨plain_nil, Or.inl (by simp [hlf])⟩
      · rename_i hlf
        split at h
        · rename_i hcr
          split at h
          · cases h
          · rename_i hopen
            obtain ⟨rfl, rfl⟩ := Prod.mk.inj (Option.some.inj h)
            refine ⟨plain_nil, Or.inr ⟨buffer, by simp [hcr], hcr ▸ hlf, rfl, ?_⟩⟩
            intro hnil
            simpa [hnil] using hopen
        · rename_i hcr
          obtain ⟨p, hp, heq⟩ := Option.map_eq_some_iff.mp h
          obtain ⟨rfl, rfl⟩ := Prod.mk.inj heq
          obtain ⟨hplain, hbuffer | ⟨tail, hbuffer, hne, hrest, heof⟩⟩ := ih hp
          · exact ⟨plain_cons.mpr ⟨⟨hcr, hlf⟩, hplain⟩, Or.inl (by simp [hbuffer])⟩
          · exact ⟨plain_cons.mpr ⟨⟨hcr, hlf⟩, hplain⟩,
              Or.inr ⟨tail, by simp [hbuffer], hne, hrest, heof⟩⟩

theorem dropLf_append {tail : List α} (h : tail ≠ []) (more : List α) :
    dropLf lf (tail ++ more) = dropLf lf tail ++ more := by
  cases tail with
  | nil => exact absurd rfl h
  | cons b tail => by_cases hb : b = lf <;> simp [dropLf, hb]

theorem dropLf_length_le (lf : α) (tail : List α) :
    (dropLf lf tail).length ≤ tail.length := by
  cases tail with
  | nil => simp [dropLf]
  | cons b tail => by_cases hb : b = lf <;> simp [dropLf, hb]

/-- Taking a line off a growing buffer takes the same line off every extension. -/
theorem lines_of_splitLine {buffer line rest : List α}
    (h : splitLine cr lf false buffer = some (line, rest)) (more : List α) :
    lines cr lf [] (buffer ++ more) = line :: lines cr lf [] (rest ++ more) := by
  obtain ⟨hplain, rfl | ⟨tail, rfl, hne, rfl, htail⟩⟩ := splitLine_eq_some h
  · rw [List.append_assoc, lines_plain_append hplain, List.cons_append, lines_cons,
      if_pos rfl, List.nil_append]
  · have hnil : tail ≠ [] := fun heq => Bool.noConfusion (htail heq)
    rw [List.append_assoc, lines_plain_append hplain, List.cons_append, lines_cons,
      if_neg hne, if_pos rfl, List.nil_append, dropLf_append hnil]

theorem lines_of_splitLine_eof {buffer line rest : List α}
    (h : splitLine cr lf true buffer = some (line, rest)) :
    lines cr lf [] buffer = line :: lines cr lf [] rest := by
  obtain ⟨hplain, rfl | ⟨tail, rfl, hne, rfl, -⟩⟩ := splitLine_eq_some h
  · rw [lines_plain_append hplain, lines_cons, if_pos rfl, List.nil_append]
  · rw [lines_plain_append hplain, lines_cons, if_neg hne, if_pos rfl, List.nil_append]

/-- Both cases of the end-of-input flag, with nothing following at end of input. -/
theorem lines_of_split {eof : Bool} {buffer line rest more : List α}
    (h : splitLine cr lf eof buffer = some (line, rest)) (hmore : eof = true → more = []) :
    lines cr lf [] (buffer ++ more) = line :: lines cr lf [] (rest ++ more) := by
  cases eof with
  | false => exact lines_of_splitLine h more
  | true =>
      rw [hmore rfl, List.append_nil, List.append_nil]
      exact lines_of_splitLine_eof h

/-- Plain content at end of input is the last line, if there is any. -/
theorem lines_plain {content : List α} (h : Plain cr lf content) :
    lines cr lf [] content = if content = [] then [] else [content] := by
  have happ := lines_plain_append h [] []
  simpa [lines_nil] using happ

/-- Every complete line uses up at least its terminator. -/
theorem splitLine_length {eof : Bool} {buffer line rest : List α}
    (h : splitLine cr lf eof buffer = some (line, rest)) :
    line.length + rest.length < buffer.length := by
  obtain ⟨-, rfl | ⟨tail, rfl, -, rfl, -⟩⟩ := splitLine_eq_some h
  · simp
  · have hle := dropLf_length_le lf tail
    simp only [List.length_append, List.length_cons]
    omega

/-- A non-empty current line is a prefix of the first line of every continuation. -/
theorem lines_head (cr lf : α) {current : List α} (h : current ≠ []) (rest : List α) :
    ∃ suffix tail, lines cr lf current rest = (current ++ suffix) :: tail := by
  induction rest generalizing current with
  | nil => exact ⟨[], [], by simp [lines_nil, h]⟩
  | cons b rest ih =>
      rw [lines_cons]
      split
      · exact ⟨[], _, by rw [List.append_nil]⟩
      · split
        · exact ⟨[], _, by rw [List.append_nil]⟩
        · have hne : current ++ [b] ≠ [] := by simp
          obtain ⟨suffix, tail, heq⟩ := ih hne
          exact ⟨b :: suffix, tail, by rw [heq, List.append_assoc, List.singleton_append]⟩

/-- Both values of the flag agree with the look-ahead form: after a `cr` an `lf`
is dropped, and otherwise the flag does not matter. -/
theorem scanLines_eq (rest current : List α) :
    scanLines cr lf current false rest = lines cr lf current rest ∧
      scanLines cr lf [] true rest = lines cr lf [] (dropLf lf rest) := by
  induction rest generalizing current with
  | nil => simp [scanLines, lines, dropLf]
  | cons b rest ih =>
      constructor
      · rw [scanLines, lines_cons, (ih []).1, (ih []).2, (ih (current ++ [b])).1]
        simp
      · rw [scanLines, dropLf]
        by_cases hlf : b = lf
        · simp [hlf, (ih []).1]
        · rw [if_neg hlf, if_neg hlf, lines_cons, if_neg hlf, (ih []).2, (ih ([] ++ [b])).1]

theorem splitLines_plain {content : List α} (h : Plain cr lf content) (current : List α)
    (afterCr : Bool) : splitLines cr lf current afterCr content = ([], current ++ content) := by
  induction content generalizing current afterCr with
  | nil => rw [splitLines, List.append_nil]
  | cons b rest ih =>
      obtain ⟨⟨hcr, hlf⟩, hrest⟩ := plain_cons.mp h
      rw [splitLines, if_neg hlf, if_neg hcr, ih hrest, List.append_assoc, List.singleton_append]

/-- The rest counts as a line when it is not empty. -/
theorem scanLines_eq_splitLines (input current : List α) (afterCr : Bool) :
    scanLines cr lf current afterCr input =
      (splitLines cr lf current afterCr input).1 ++
        if (splitLines cr lf current afterCr input).2 = [] then []
        else [(splitLines cr lf current afterCr input).2] := by
  induction input generalizing current afterCr with
  | nil => by_cases hnil : current = [] <;> simp [scanLines, splitLines, hnil]
  | cons b rest ih =>
      rw [scanLines, splitLines]
      split
      · split
        · exact ih current false
        · rw [ih [] false, List.cons_append]
      · split
        · rw [ih [] true, List.cons_append]
        · exact ih (current ++ [b]) false

end OpenaiRs.Text
