import Mathlib.Data.List.Induction

/-!
# Cells that are set and appended to

A cell is written by events that either set it to a value or append to its value. The
contents after any events are the value of the last event that sets the cell, or the unit
if there is none, followed by everything appended since.
-/

namespace OpenaiRs.Text

/-- One write to a cell. -/
inductive Write (α : Type*) where
  | set (value : α)
  | append (value : α)
  deriving DecidableEq

section Contents

variable {ε α : Type*} (op : α → α → α) (unit : α)

/-- The value behind a write; a missing cell is appended to as an empty one. -/
def Write.result (old : Option α) : Write α → α
  | .set value => value
  | .append value => op (old.getD unit) value

/-- The contents of a cell after the writes of some events. -/
def contents (write : ε → Option (Write α)) (events : List ε) : Option α :=
  (events.filterMap write).foldl (fun old w => some (w.result op unit old)) none

/-- The value to which an event sets the cell. -/
def setBy (write : ε → Option (Write α)) (event : ε) : Option α :=
  match write event with
  | some (.set value) => some value
  | some (.append _) => none
  | none => none

/-- The value that an event appends to the cell. -/
def appendedBy (write : ε → Option (Write α)) (event : ε) : α :=
  match write event with
  | some (.set _) => unit
  | some (.append value) => value
  | none => unit

/-- A value is the base given by the last event that sets the cell, or the unit, followed by
what the later events append, in order. -/
def Reconstructs (write : ε → Option (Write α)) (events : List ε) (value : α) : Prop :=
  ∃ base later, value = op base ((later.map (appendedBy unit write)).foldl op unit) ∧
    (∀ event ∈ later, setBy write event = none) ∧
    ((events = later ∧ base = unit) ∨
      ∃ before event, events = before ++ event :: later ∧ setBy write event = some base)

variable {op unit}

theorem contents_concat (write : ε → Option (Write α)) (events : List ε) (event : ε) :
    contents op unit write (events ++ [event]) =
      match write event with
      | none => contents op unit write events
      | some w => some (w.result op unit (contents op unit write events)) := by
  rw [contents, List.filterMap_append, List.foldl_append]
  rcases hwrite : write event with _ | w
  · simp [List.filterMap, hwrite, contents]
  · simp [List.filterMap, hwrite, contents]

/-- A cell is missing exactly when no event writes to it. -/
theorem contents_eq_none_iff (write : ε → Option (Write α)) (events : List ε) :
    contents op unit write events = none ↔ ∀ event ∈ events, write event = none := by
  induction events using List.reverseRecOn with
  | nil => simp [contents]
  | append_singleton events event ih =>
      rw [contents_concat]
      rcases hwrite : write event with _ | w
      · simp only [ih, List.mem_append, List.mem_singleton]
        constructor
        · rintro h e (hmem | rfl)
          · exact h e hmem
          · exact hwrite
        · exact fun h e hmem => h e (.inl hmem)
      · constructor
        · intro h
          cases h
        · intro h
          rw [h event (by simp)] at hwrite
          cases hwrite

/-- An event that does not set the cell extends what was appended. -/
theorem Reconstructs.concat {write : ε → Option (Write α)} [hop : Std.Associative op]
    {events : List ε} {value : α} (h : Reconstructs op unit write events value) {event : ε}
    (hset : setBy write event = none) :
    Reconstructs op unit write (events ++ [event]) (op value (appendedBy unit write event)) := by
  obtain ⟨base, later, rfl, hlater, hbase⟩ := h
  refine ⟨base, later ++ [event], ?_, ?_, ?_⟩
  · rw [List.map_append, List.foldl_append, hop.assoc]
    rfl
  · intro e hmem
    obtain hmem | hmem := List.mem_append.mp hmem
    · exact hlater e hmem
    · rwa [List.mem_singleton.mp hmem]
  · obtain ⟨rfl, rfl⟩ | ⟨before, setter, rfl, hsetter⟩ := hbase
    · exact .inl ⟨rfl, rfl⟩
    · exact .inr ⟨before, setter, by rw [List.append_assoc, List.cons_append], hsetter⟩

/-- The contents are reconstructed from the last event that sets the cell. -/
theorem reconstructs_contents [Std.Associative op] [hunit : Std.LawfulRightIdentity op unit]
    (write : ε → Option (Write α)) (events : List ε) :
    Reconstructs op unit write events ((contents op unit write events).getD unit) := by
  induction events using List.reverseRecOn with
  | nil =>
      exact ⟨unit, [], (hunit.right_id unit).symm, by simp,
        .inl ⟨rfl, rfl⟩⟩
  | append_singleton events event ih =>
      rw [contents_concat]
      rcases hwrite : write event with _ | ⟨value | value⟩
      · have hset : setBy write event = none := by rw [setBy, hwrite]
        have hstep := ih.concat hset
        rw [appendedBy, hwrite] at hstep
        rwa [hunit.right_id] at hstep
      · refine ⟨value, [], (hunit.right_id value).symm, by simp,
          .inr ⟨events, event, rfl, by rw [setBy, hwrite]⟩⟩
      · have hset : setBy write event = none := by rw [setBy, hwrite]
        have hstep := ih.concat hset
        rw [appendedBy, hwrite] at hstep
        exact hstep

end Contents

end OpenaiRs.Text
