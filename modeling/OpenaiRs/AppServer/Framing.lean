import OpenaiRs.AppServer.Capacity

/-!
# The outbound stream of JSONL frames

The bytes that the child's stdin has accepted. The writer lock serialises frames, and a
dropped write closes the connection before it releases the lock, so nothing follows the frame
that it has cut. A write that fails releases the lock first and closes the connection behind
it; the stream stays framed as long as no other writer comes in between.
-/

namespace OpenaiRs.AppServer

open Serde Rust Interleaving

section Stream

/-- Some of the frame was accepted, but not all of it. -/
def Chunk.Cut (chunk : Chunk) : Prop := 0 < chunk.accepted ∧ chunk.accepted < chunk.frame.length

instance Chunk.instDecidableCut (chunk : Chunk) : Decidable chunk.Cut := inferInstanceAs (Decidable (_ ∧ _))

def IsFrame (settings : Settings) (frame : Bytes) : Prop :=
  ∃ message, encode settings message = .ok frame

/-- The bytes handed to the child's stdin, in order. -/
def Connection.written (s : Connection) : Bytes := (s.stdin.reverse.map Chunk.bytes).flatten

/-- Complete frames, and then at most one that is not complete. -/
def Framed (settings : Settings) (s : Connection) : Prop :=
  ∃ (frames : List Bytes) (last : Bytes), (∀ frame ∈ frames, IsFrame settings frame) ∧
    (last = [] ∨ ∃ frame, IsFrame settings frame ∧ last <+: frame) ∧
    s.written = frames.flatten ++ last

/-- Behind a frame that was cut no byte of another one was written. -/
def NothingBehindCut (s : Connection) : Prop :=
  ∀ later chunk earlier, s.stdin = later ++ chunk :: earlier → chunk.Cut →
    ∀ other ∈ later, other.accepted = 0

/-- A writer that goes past its check of an open connection has a whole frame before it. -/
def NotOvertaking (cfg : Config Connection Task) (event : Event Choice Outside) : Prop :=
  ∀ i job frame, event = .act i .proceed → cfg.tasks[i]? = some (.locked job frame) → cfg.shared.closed = false →
    ∀ chunk ∈ cfg.shared.stdin.head?, ¬ chunk.Cut

/-- A write that fails within its frame finds the connection closed. -/
def CutOnlyWhenClosed (cfg : Config Connection Task) (event : Event Choice Outside) : Prop :=
  ∀ i message job frame, event = .act i (.fail message) → cfg.tasks[i]? = some (.writing job frame) →
    ∀ chunk ∈ cfg.shared.stdin.head?, chunk.Cut → cfg.shared.closed = true

end Stream

section Invariant

variable (settings : Settings) (strict : Prop)

/-- The frame written last is complete, or nothing of it was accepted. -/
def Connection.HeadWhole (s : Connection) : Prop := ∀ chunk ∈ s.stdin.head?, ¬ chunk.Cut

/-- Only the frame written last can be cut. If failures do not cut, then while the writer lock is free it is
whole unless the connection is closed. -/
structure Lined (s : Connection) : Prop where
  frames : ∀ chunk ∈ s.stdin, IsFrame settings chunk.frame ∧ chunk.accepted ≤ chunk.frame.length
  whole : ∀ chunk ∈ s.stdin.tail, ¬ chunk.Cut
  clear : strict → s.writer = none → s.closed = true ∨ s.HeadWhole

/-- The frame that a task is about to write or writes. -/
def Task.frame : Task → Option Bytes
  | .locking _ frame => some frame
  | .locked _ frame => some frame
  | .writing _ frame => some frame
  | _ => none

/-- The task is going to close the connection. -/
def Task.Closes : Task → Prop
  | .leaving _ actions _ => Cleanup.close ∈ actions
  | _ => False

/-- What a writer knows about the stream: its own frame is the last one while it writes, and otherwise, if
failures do not cut, the lock protects a whole frame, a closed connection, or one that it will close. -/
structure Writes (s : Connection) (_ : Nat) (t : Task) : Prop where
  frame : ∀ frame, t.frame = some frame → IsFrame settings frame
  begun : ∀ job frame, t = .writing job frame → ∃ chunk ∈ s.stdin.head?, chunk.frame = frame
  clear : strict → t.HoldsLock → (∀ job frame, t ≠ .writing job frame) →
    s.closed = true ∨ s.HeadWhole ∨ t.Closes

variable {settings} {strict} {s : Connection} {who : Option Nat} {op : Operation}

/-- Only the holder of the writer lock writes. -/
theorem stdin_perform (hlegal : Legal s who op) (hwho : ∀ i, who = some i → s.writer ≠ some i) :
    (s.perform op).stdin = s.stdin := by
  cases hlegal with
  | begin hwriter => exact absurd hwriter (hwho _ rfl)
  | accept hwriter => exact absurd hwriter (hwho _ rfl)
  | remove =>
      simp only [Connection.perform]
      split <;> rfl
  | dropPermit =>
      simp only [Connection.perform]
      split <;> rfl
  | _ => rfl

theorem writer_none_perform (hlegal : Legal s who op) (h : (s.perform op).writer = none) :
    s.writer = none ∨ op = .unlock := by
  cases hlegal with
  | unlock => exact .inr rfl
  | lock => cases h
  | remove =>
      simp only [Connection.perform] at h
      split at h <;> exact .inl h
  | dropPermit =>
      simp only [Connection.perform] at h
      split at h <;> exact .inl h
  | _ => exact .inl h

/-- A step that writes nothing and releases no lock keeps the stream as it is. -/
theorem Lined.silent (h : Lined settings strict s) (hstdin : (s.perform op).stdin = s.stdin)
    (hwriter : strict → (s.perform op).writer = none → s.closed = true ∨ s.HeadWhole) :
    Lined settings strict (s.perform op) where
  frames := by
    rw [hstdin]
    exact h.frames
  whole := by
    rw [hstdin]
    exact h.whole
  clear hstrict hnone := by
    rw [Connection.HeadWhole, hstdin]
    exact (hwriter hstrict hnone).imp (closed_perform op) (fun h => h)

theorem Lined.begin {frame : Bytes} (h : Lined settings strict s) (hframe : IsFrame settings frame)
    (hhead : s.HeadWhole) (hwriter : s.writer ≠ none) : Lined settings strict (s.perform (.begin frame)) where
  frames chunk hmem := by
    obtain rfl | hmem := List.mem_cons.mp hmem
    · exact ⟨hframe, Nat.zero_le _⟩
    · exact h.frames chunk hmem
  whole chunk hmem := by
    change chunk ∈ s.stdin at hmem
    generalize hstdin : s.stdin = stdin at hmem
    cases hmem with
    | head rest => exact hhead chunk (by simp [hstdin])
    | tail _ hrest => exact h.whole chunk (hstdin ▸ hrest)
  clear _ hnone := absurd hnone hwriter

theorem Lined.accept {count : Nat} {chunk : Chunk} (h : Lined settings strict s)
    (hhead : chunk ∈ s.stdin.head?) (hfits : chunk.accepted + count ≤ chunk.frame.length)
    (hwriter : s.writer ≠ none) : Lined settings strict (s.perform (.accept count)) := by
  obtain ⟨rest, hstdin⟩ := List.head?_eq_some_iff.mp hhead
  have hafter : (s.perform (.accept count)).stdin =
      { chunk with accepted := chunk.accepted + count } :: rest := by
    simp only [Connection.perform, hstdin, acceptBytes]
  have hframes := h.frames
  have hwhole := h.whole
  rw [hstdin] at hframes hwhole
  constructor
  · intro other hmem
    rw [hafter] at hmem
    obtain rfl | hmem := List.mem_cons.mp hmem
    · exact ⟨(hframes chunk (List.mem_cons_self)).1, hfits⟩
    · exact hframes other (List.mem_cons_of_mem _ hmem)
  · intro other hmem
    rw [hafter] at hmem
    exact hwhole other hmem
  · exact fun _ hnone => absurd hnone hwriter

/-- Operations of others do not interfere with a writer. -/
theorem Writes.other {j : Nat} {u : Task} (h : Writes settings strict s j u) (hown : Owns s j u)
    (hlegal : Legal s who op) (hwho : who ≠ some j) : Writes settings strict (s.perform op) j u := by
  have hstdin : u.HoldsLock → (s.perform op).stdin = s.stdin := by
    intro hlock
    refine stdin_perform hlegal ?_
    intro i hi hwriter
    rw [hown.lock hlock] at hwriter
    exact hwho (hi.trans hwriter.symm)
  refine ⟨h.frame, ?_, ?_⟩
  · rintro job frame rfl
    rw [hstdin trivial]
    exact h.begun job frame rfl
  · intro hstrict hlock hne
    rw [Connection.HeadWhole, hstdin hlock]
    exact (h.clear hstrict hlock hne).imp (closed_perform op) (fun h => h)

end Invariant

section Steps

variable {settings : Settings} {strict : Prop} {s : Connection} {i : Nat} {t t' : Task} {choice : Choice}
  {op : Operation} {started : List Task}

/-- A task that does not hold the lock and has no frame knows nothing. -/
theorem Writes.idle (hframe : t.frame = none) (hlock : ¬ t.HoldsLock) : Writes settings strict s i t := by
  refine ⟨by simp [hframe], ?_, fun _ h => absurd h hlock⟩
  rintro job frame rfl
  cases hframe

theorem Started.writes (h : Started t) : Writes settings strict s i t := by
  cases h with
  | call call => exact .idle rfl (fun h => h)
  | send body => exact .idle rfl (fun h => h)
  | shutdown failure => exact .idle rfl (by simp [shutdownTask, Task.HoldsLock])

/-- A task on its way out that has still to release the lock. -/
theorem Writes.leaving {job : Job} {actions : List Cleanup} {exit : Exit}
    (h : strict → Cleanup.unlock ∈ actions → s.closed = true ∨ s.HeadWhole ∨ Cleanup.close ∈ actions) :
    Writes settings strict s i (.leaving job actions exit) :=
  ⟨by simp [Task.frame], by simp, fun hstrict hlock _ => h hstrict hlock⟩

theorem Tail.writes {job : Job} {tail : List Cleanup} {exit : Exit} (h : Tail job tail exit) :
    Writes settings strict s i (.leaving job tail exit) :=
  .leaving fun _ hunlock => absurd hunlock h.tidy.2.1

theorem CleanupStep.stdin_eq {job : Job} {action : Cleanup} (h : CleanupStep job action op started) :
    (s.perform op).stdin = s.stdin := by
  cases h with
  | remove =>
      simp only [Connection.perform]
      split <;> rfl
  | _ => rfl

theorem TerminateStep.stdin_eq {pc pc' : TerminatePc} (h : TerminateStep s pc op pc') :
    (s.perform op).stdin = s.stdin :=
  stdin_perform (h.legal : Legal s none op) (by simp)

theorem TerminateEnd.stdin_eq {pc : TerminatePc} (h : TerminateEnd s pc op) :
    (s.perform op).stdin = s.stdin :=
  stdin_perform (h.legal : Legal s none op) (by simp)

/-- Cleanup leaves the stream alone, so what the lock protects stays until it is released. -/
theorem Writes.cleanup {job : Job} {action : Cleanup} {rest : List Cleanup} {exit : Exit}
    (h : Writes settings strict s i (.leaving job (action :: rest) exit))
    (hstep : CleanupStep job action op started) :
    Writes settings strict (s.perform op) i (.leaving job rest exit) := by
  refine .leaving ?_
  intro hstrict hunlock
  rw [Connection.HeadWhole, hstep.stdin_eq]
  obtain hclosed | hwhole | hcloses := h.clear hstrict (List.mem_cons_of_mem _ hunlock) (by simp)
  · exact .inl (closed_perform op hclosed)
  · exact .inr (.inl hwhole)
  · obtain rfl | hmem := List.mem_cons.mp hcloses
    · cases hstep
      exact .inl rfl
    · exact .inr (.inr hmem)

theorem Writes.terminate {job : Job} {pc : TerminatePc} {rest actions : List Cleanup} {exit : Exit}
    (h : Writes settings strict s i (.leaving job (.terminate pc :: rest) exit))
    (hstdin : (s.perform op).stdin = s.stdin)
    (hactions : actions = rest ∨ ∃ pc', actions = .terminate pc' :: rest) :
    Writes settings strict (s.perform op) i (.leaving job actions exit) := by
  have hmem : ∀ action : Cleanup, (∀ pc', action ≠ .terminate pc') →
      (action ∈ actions ↔ action ∈ Cleanup.terminate pc :: rest) := by
    intro action hne
    obtain rfl | ⟨pc', rfl⟩ := hactions
    · simp [hne]
    · simp [hne]
  refine .leaving ?_
  intro hstrict hunlock
  rw [Connection.HeadWhole, hstdin]
  obtain hclosed | hwhole | hcloses := h.clear hstrict ((hmem .unlock (by simp)).mp hunlock) (by simp)
  · exact .inl (closed_perform op hclosed)
  · exact .inr (.inl hwhole)
  · exact .inr (.inr ((hmem .close (by simp)).mpr hcloses))

/-- A writer that is not in its frame. -/
theorem Writes.headWhole (h : Writes settings strict s i t) (hstrict : strict) (hlock : t.HoldsLock)
    (hne : ∀ job frame, t ≠ .writing job frame) (hcloses : ¬ t.Closes) :
    s.closed = true ∨ s.HeadWhole := by
  obtain hclosed | hwhole | hclose := h.clear hstrict hlock hne
  · exact .inl hclosed
  · exact .inr hwhole
  · exact absurd hclose hcloses

/-- A failed write has cut its frame at most on a closed connection. -/
theorem Writes.failed {job : Job} {failure : ConnectionFailure}
    (hcut : strict → ∀ chunk ∈ s.stdin.head?, chunk.Cut → s.closed = true) :
    Writes settings strict s i (ioFailure job failure) := by
  refine .leaving fun hstrict _ => ?_
  by_cases hwhole : s.HeadWhole
  · exact .inr (.inl hwhole)
  · simp only [Connection.HeadWhole, not_forall, not_not] at hwhole
    obtain ⟨chunk, hhead, hchunk⟩ := hwhole
    exact .inl (hcut hstrict chunk hhead hchunk)

/-- A step keeps what its own task knows about the stream. -/
theorem Step.writes (h : Step settings s i t choice op t' started) (hlined : Lined settings strict s)
    (hwrites : Writes settings strict s i t)
    (hcut : strict → ∀ job frame message, t = .writing job frame → choice = .fail message →
      ∀ chunk ∈ s.stdin.head?, chunk.Cut → s.closed = true) :
    Writes settings strict (s.perform op) i t' := by
  cases h with
  | turnedAway => exact .idle rfl (fun h => h)
  | unclosed => exact .idle rfl (fun h => h)
  | acquiring => exact .idle rfl (fun h => h)
  | granted => exact .idle rfl (fun h => h)
  | permitted => exact .idle rfl (fun h => h)
  | released => exact .idle rfl (fun h => h)
  | identified => exact .idle rfl (fun h => h)
  | registered => exact .idle rfl (fun h => h)
  | refused htail => exact htail.writes
  | locking _ hencode =>
      refine ⟨?_, by simp, fun _ h => h.elim⟩
      rintro frame ⟨⟩
      exact ⟨_, hencode⟩
  | lock hnone =>
      refine ⟨fun frame hframe => hwrites.frame frame hframe, by simp, fun hstrict _ _ => ?_⟩
      exact (hlined.clear hstrict hnone).imp (fun h => h) .inl
  | unqueued htail => exact htail.writes
  | unlocked =>
      refine .leaving fun hstrict _ => ?_
      exact (hwrites.headWhole hstrict trivial (by simp) (fun h => h)).imp (fun h => h) .inl
  | @begin job frame =>
      refine ⟨fun frame hframe => hwrites.frame frame hframe, ?_, fun _ _ h => absurd rfl (h job frame)⟩
      rintro _ _ ⟨⟩
      exact ⟨_, rfl, rfl⟩
  | @accept job frame chunk count hhead =>
      refine ⟨hwrites.frame, ?_, fun _ _ h => absurd rfl (h job frame)⟩
      rintro _ _ ⟨⟩
      obtain ⟨chunk, hhead, hframe⟩ := hwrites.begun _ _ rfl
      obtain ⟨rest, hstdin⟩ := List.head?_eq_some_iff.mp hhead
      refine ⟨{ chunk with accepted := chunk.accepted + count }, ?_, hframe⟩
      simp only [Connection.perform, hstdin, acceptBytes]
      rfl
  | @flushing job _ frame chunk hhead haccepted =>
      refine ⟨by simp [Task.frame], by simp, fun _ _ _ => .inr (.inl ?_)⟩
      obtain ⟨_, hhead', hframe⟩ := hwrites.begun _ _ rfl
      cases hhead.symm.trans hhead'
      rintro _ hother
      cases hhead.symm.trans hother
      rintro ⟨-, hlt⟩
      rw [hframe] at hlt
      omega
  | writeFailed => exact .failed fun hstrict => hcut hstrict _ _ _ rfl rfl
  | flushFailed =>
      refine .leaving fun hstrict _ => ?_
      exact (hwrites.headWhole hstrict trivial (by simp) (fun h => h)).imp (fun h => h) .inl
  | writeDropped => exact .leaving fun _ _ => .inr (.inr (by simp [guardActions]))
  | flushDropped => exact .leaving fun _ _ => .inr (.inr (by simp [guardActions]))
  | @wrote job => cases job <;> exact .idle rfl (fun h => h)
  | received => exact .leaving (by simp)
  | unanswered hactions => cases hactions <;> exact .leaving (by simp)
  | cleanup haction => exact hwrites.cleanup haction
  | terminate hterminate => exact hwrites.terminate hterminate.stdin_eq (.inr ⟨_, rfl⟩)
  | terminated hend => exact hwrites.terminate hend.stdin_eq (.inl rfl)
  | abandoned _ htail => exact htail.writes
  | guarded => exact .leaving (by simp)
  | ended => exact .idle rfl (fun h => h)

/-- A step keeps the stream framed. -/
theorem Step.lined (h : Step settings s i t choice op t' started) (hown : Owns s i t)
    (hlined : Lined settings strict s) (hwrites : Writes settings strict s i t)
    (hwhole : ∀ job frame, t = .locked job frame → choice = .proceed → s.closed = false → s.HeadWhole) :
    Lined settings strict (s.perform op) := by
  have hlegal := h.legal hown
  have hsilent : (s.perform op).stdin = s.stdin → op ≠ .unlock → Lined settings strict (s.perform op) := by
    intro hstdin hop
    refine hlined.silent hstdin ?_
    intro hstrict hnone
    obtain hwriter | heq := writer_none_perform hlegal hnone
    · exact hlined.clear hstrict hwriter
    · exact absurd heq hop
  cases h with
  | begin hclosed =>
      exact hlined.begin (hwrites.frame _ rfl) (hwhole _ _ rfl rfl hclosed) (by simp [hown.lock trivial])
  | accept hhead _ hfits =>
      obtain ⟨chunk, hhead', hframe⟩ := hwrites.begun _ _ rfl
      cases hhead.symm.trans hhead'
      rw [← hframe] at hfits
      exact hlined.accept hhead hfits (by simp [hown.lock trivial])
  | wrote =>
      refine hlined.silent rfl fun hstrict _ => ?_
      exact hwrites.headWhole hstrict trivial (by simp) (fun h => h)
  | cleanup haction =>
      cases haction with
      | unlock =>
          -- Behind the release of the lock the connection is not closed any more.
          have htidy := List.pairwise_cons.mp (hown.tidy _ _ _ rfl)
          refine hlined.silent rfl fun hstrict _ => hwrites.headWhole hstrict (List.mem_cons_self) (by simp) ?_
          intro hcloses
          obtain heq | hmem := List.mem_cons.mp hcloses
          · cases heq
          · exact (htidy.1 _ hmem rfl).2 rfl
      | remove hid => exact hsilent (CleanupStep.remove hid : CleanupStep _ _ _ []).stdin_eq (by simp)
      | _ => exact hsilent rfl (by simp)
  | terminate hterminate =>
      exact hsilent hterminate.stdin_eq (by rintro rfl; cases hterminate)
  | terminated hend => exact hsilent hend.stdin_eq (by rintro rfl; cases hend)
  | _ => exact hsilent rfl (by simp)

end Steps

section Runs

variable (settings : Settings)

/-- The stream stays lined under a condition that keeps writers from overtaking, or failures from cutting. -/
theorem lined_stable (strict : Prop) {P : Config Connection Task → Event Choice Outside → Prop}
    (hstrict : strict → ∀ cfg event, P cfg event → CutOnlyWhenClosed cfg event)
    (hwaits : strict ∨ ∀ cfg event, P cfg event → NotOvertaking cfg event) :
    System.Stable (system settings) P Owned (Lined settings strict) (Writes settings strict) where
  act {cfg i choice t s' t' started} hcfg hP htask hact hlined hwrites := by
    obtain ⟨op, rfl, hstep⟩ := act_step hact
    have hown := hcfg.tasks i t htask
    refine ⟨hstep.lined hown hlined hwrites ?_, hstep.writes hlined hwrites ?_, ?_⟩
    · rintro job frame rfl rfl hclosed
      obtain hholds | hwaits := hwaits
      · exact (hwrites.headWhole hholds trivial (by simp) (fun h => h)).resolve_left (by simp [hclosed])
      · exact hwaits _ _ hP i job frame rfl htask hclosed
    · rintro hholds job frame message rfl rfl
      exact hstrict hholds _ _ hP i message job frame rfl htask
    · intro u hmem j
      exact (started_spawned hstep u hmem).writes
  other {cfg i choice t s' t' started j u} hcfg _ htask hact _ _ hne hother hwrites := by
    obtain ⟨op, rfl, hstep⟩ := act_step hact
    exact hwrites.other (hcfg.tasks j u hother) (hstep.legal (hcfg.tasks i t htask))
      (fun heq => hne (Option.some.inj heq).symm)
  env {cfg event s' started} hcfg _ henv hlined := by
    obtain ⟨op, pc, rfl, hstep⟩ := env_step henv
    have hlegal := hstep.legal hcfg.shared.2
    have hafter : Lined settings strict (cfg.shared.perform op) := by
      refine hlined.silent (stdin_perform hlegal (by simp)) ?_
      intro hholds hnone
      obtain hwriter | rfl := writer_none_perform hlegal hnone
      · exact hlined.clear hholds hwriter
      · cases hlegal
    refine ⟨⟨hafter.frames, hafter.whole, hafter.clear⟩, ?_, ?_⟩
    · intro j u hother hwrites
      have hkept := hwrites.other (hcfg.tasks j u hother) hlegal (by simp)
      exact ⟨hkept.frame, hkept.begun, hkept.clear⟩
    · intro u hmem j
      exact (hstep.started_mem u hmem).writes

/-- Every configuration of a run is lined. -/
def AllLined (strict : Prop) (cfg : Config Connection Task) : Prop :=
  Owned cfg ∧ System.Holds (Lined settings strict) (Writes settings strict) cfg

theorem allLined_start (strict : Prop) : AllLined settings strict (start settings) := by
  refine ⟨owned_start settings, ⟨?_, ?_, ?_⟩, ?_⟩
  · intro chunk hmem
    cases hmem
  · intro chunk hmem
    cases hmem
  · intro _ _
    right
    intro chunk hmem
    cases hmem
  · intro i t htask
    cases htask

theorem lined_run {events : List (Event Choice Outside)}
    (h : (system settings).Meets NotOvertaking (start settings) events) :
    Lined settings False ((system settings).run (start settings) events).shared := by
  have hstable := lined_stable settings False (fun h => h.elim) (.inr fun _ _ h => h)
  have hpreserved := hstable.preserved (owned_preserved settings).mono
  exact (hpreserved.run (allLined_start settings False) h).2.shared

/-- Where failures do not cut, no writer overtakes. -/
theorem notOvertaking_of_cutOnlyWhenClosed {events : List (Event Choice Outside)}
    (h : (system settings).Meets CutOnlyWhenClosed (start settings) events) :
    (system settings).Meets NotOvertaking (start settings) events := by
  have hstable := lined_stable settings True (fun _ _ _ h => h) (.inl trivial)
  have hpreserved := hstable.preserved (owned_preserved settings).mono
  refine hpreserved.meets (allLined_start settings True) ?_ h
  rintro cfg event ⟨-, -, hwrites⟩ - i job frame rfl htask hclosed
  exact ((hwrites i _ htask).headWhole trivial trivial (by simp) (fun h => h)).resolve_left (by simp [hclosed])

end Runs

section Main

variable {settings : Settings}

/-- Chunks that are not cut are complete frames. -/
theorem flatten_whole {chunks : List Chunk}
    (hframes : ∀ chunk ∈ chunks, IsFrame settings chunk.frame ∧ chunk.accepted ≤ chunk.frame.length)
    (hwhole : ∀ chunk ∈ chunks, ¬ chunk.Cut) :
    ∃ frames : List Bytes, (∀ frame ∈ frames, IsFrame settings frame) ∧
      (chunks.map Chunk.bytes).flatten = frames.flatten := by
  induction chunks with
  | nil => exact ⟨[], by simp, rfl⟩
  | cons chunk rest ih =>
      obtain ⟨frames, hall, heq⟩ := ih (fun c hmem => hframes c (.tail _ hmem))
        (fun c hmem => hwhole c (.tail _ hmem))
      obtain ⟨hframe, hle⟩ := hframes chunk (.head _)
      have hcut := hwhole chunk (.head _)
      simp only [Chunk.Cut, not_and, Nat.not_lt] at hcut
      obtain hzero | hpos := Nat.eq_zero_or_pos chunk.accepted
      · refine ⟨frames, hall, ?_⟩
        simp [Chunk.bytes, hzero, heq]
      · refine ⟨chunk.frame :: frames, ?_, ?_⟩
        · simpa using ⟨hframe, hall⟩
        · simp [Chunk.bytes, List.take_of_length_le (hcut hpos), heq]

theorem Lined.framed {strict : Prop} {s : Connection} (h : Lined settings strict s) : Framed settings s := by
  rw [Framed, Connection.written]
  generalize hstdin : s.stdin = stdin
  cases stdin with
  | nil => exact ⟨[], [], by simp, .inl rfl, rfl⟩
  | cons chunk rest =>
      have hframes := h.frames
      have hwhole := h.whole
      rw [hstdin] at hframes hwhole
      have hearlier : ∀ c ∈ rest.reverse, IsFrame settings c.frame ∧ c.accepted ≤ c.frame.length :=
        fun c hmem => hframes c (.tail _ (List.mem_reverse.mp hmem))
      obtain ⟨frames, hall, heq⟩ := flatten_whole hearlier
        (fun c hmem => hwhole c (List.mem_reverse.mp hmem))
      refine ⟨frames, chunk.bytes, hall, .inr ⟨chunk.frame, (hframes chunk (.head _)).1, ?_⟩, ?_⟩
      · exact List.take_prefix _ _
      · rw [List.reverse_cons, List.map_append, List.flatten_append, heq]
        simp

theorem Lined.nothingBehindCut {strict : Prop} {s : Connection} (h : Lined settings strict s) : NothingBehindCut s := by
  intro later chunk earlier hstdin hcut
  cases later with
  | nil => simp
  | cons head rest =>
      have hmem : chunk ∈ s.stdin.tail := by simp [hstdin]
      exact absurd hcut (h.whole chunk hmem)

/-- In every run in which no writer overtakes a failed write that has cut its frame, the bytes handed to the
child are complete frames and at most one that is not complete, and no byte of another frame follows one that
was cut. No writer does as long as writes fail within their frame on a closed connection only. -/
theorem stdin_framed (settings : Settings) (events : List (Event Choice Outside)) :
    ((system settings).Meets NotOvertaking (start settings) events →
      Framed settings ((system settings).run (start settings) events).shared ∧
        NothingBehindCut ((system settings).run (start settings) events).shared) ∧
    ((system settings).Meets CutOnlyWhenClosed (start settings) events →
      (system settings).Meets NotOvertaking (start settings) events) :=
  ⟨fun h => ⟨(lined_run settings h).framed, (lined_run settings h).nothingBehindCut⟩,
    notOvertaking_of_cutOnlyWhenClosed settings⟩

/-- One message twice: 4096 bytes of the first frame are accepted while the second waits. -/
def twoWriters (message : Value) : List (Event Choice Outside) :=
  [.env (.send message), .env (.send message), .act 0 .proceed, .act 0 .proceed,
    .act 0 .proceed, .act 0 (.accept 4096), .act 1 .proceed]

/-- The first writer is dropped, and the second one gets the lock. -/
def droppedWriter (message : Value) : List (Event Choice Outside) :=
  twoWriters message ++ [.act 0 .cancel, .act 0 .proceed, .act 0 .proceed, .act 0 .proceed,
    .act 0 .proceed, .act 1 .proceed, .act 1 .proceed]

/-- The write of the first frame fails for want of memory, and the second writer gets the lock. -/
def failedWriter (message : Value) : List (Event Choice Outside) :=
  twoWriters message ++ [.act 0 (.fail "Cannot allocate memory (os error 12)"), .act 0 .proceed, .act 1 .proceed,
    .act 1 .proceed, .act 1 (.accept 4096)]

/-- The first frame is accepted in part, and the second one waits. -/
def halfWritten (settings : Settings) (message : Value) (frame : Bytes) : Config Connection Task where
  shared := { (start settings).shared with writer := some 0, stdin := [⟨frame, 4096⟩] }
  tasks := [.writing (.message message) frame, .locking (.message message) frame]

section Writers

variable {message : Value} {frame : Bytes} (hencode : encode settings message = .ok frame) (hlong : 4096 ≤ frame.length)

include hencode hlong

theorem run_twoWriters :
    (system settings).run (start settings) (twoWriters message) = halfWritten settings message frame := by
  simp [halfWritten, twoWriters, System.run, System.exec, system, start, Connection.init, outside, next, exchange,
    hencode, Job.body, Connection.perform, guardActions, acceptBytes, hlong]

theorem stdin_droppedWriter : ((system settings).run (start settings) (droppedWriter message)).shared.stdin =
    [⟨frame, 4096⟩] := by
  rw [droppedWriter, System.run_append, run_twoWriters hencode hlong]
  simp [halfWritten, System.run, System.exec, system, start, Connection.init, next, exchange, Job.dropped,
    Connection.perform, guardActions, leave, shutdownTask]

theorem stdin_failedWriter : ((system settings).run (start settings) (failedWriter message)).shared.stdin =
    [⟨frame, 4096⟩, ⟨frame, 4096⟩] := by
  rw [failedWriter, System.run_append, run_twoWriters hencode hlong]
  simp [halfWritten, System.run, System.exec, system, start, Connection.init, next, exchange, Connection.perform,
    ioFailure, Job.refused, leave, acceptBytes, hlong]

end Writers

/-- The text of a response with a string of some letters. -/
def answerText (letters : Nat) : Bytes :=
  utf8 "\x7b\"id\":1,\"result\":\"" ++ (List.replicate letters 0x61 ++ utf8 "\"\x7d")

/-- A client that answers with 9000 letters; a pipe takes frames of this size in parts. -/
def responder : Settings where
  maxLineBytes := 65536
  maxPendingRequests := 1
  eventQueueCapacity := 1
  trace := .omitted
  toVec _ := .ok (answerText 9000)
  rpcErrorFromValue _ := .error "missing field `code`"

def answer : Value :=
  .object [("id", .number (.posInt 1)), ("result", .string (String.ofList (List.replicate 9000 'a')))]

theorem length_answerText (letters : Nat) : (answerText letters).length = letters + 20 := by
  have hbefore : (utf8 "\x7b\"id\":1,\"result\":\"").length = 18 := by decide
  have hafter : (utf8 "\"\x7d").length = 2 := by decide
  rw [answerText, List.length_append, List.length_append, List.length_replicate, hbefore, hafter]
  omega

def answerFrame : Bytes := answerText 9000 ++ [lf]

theorem length_answerFrame : answerFrame.length = 9021 := by
  rw [answerFrame, List.length_append, length_answerText]
  rfl

theorem encode_responder (message : Value) : encode responder message = .ok answerFrame := by
  have hfits : ¬ 65536 < (answerText 9000).length := by
    rw [length_answerText]
    omega
  simp only [encode, responder]
  exact if_neg hfits

theorem long_answerFrame : 4096 ≤ answerFrame.length := by
  rw [length_answerFrame]
  omega

theorem stdin_framed_dropped :
    ((system responder).run (start responder) (droppedWriter answer)).shared.stdin = [⟨answerFrame, 4096⟩] ∧
    Framed responder ((system responder).run (start responder) (droppedWriter answer)).shared ∧
      NothingBehindCut ((system responder).run (start responder) (droppedWriter answer)).shared := by
  obtain ⟨hframed, hmeets⟩ := stdin_framed responder (droppedWriter answer)
  refine ⟨stdin_droppedWriter (encode_responder answer) long_answerFrame, ?_⟩
  apply hframed
  apply hmeets
  apply System.meets_of_forall
  intro event hmem cfg i message job frame heq
  subst heq
  simp [droppedWriter, twoWriters] at hmem

/-- The byte behind the accepted part of the first frame begins the second one. -/
theorem failed_frame_followed :
    ¬ Framed responder ((system responder).run (start responder) (failedWriter answer)).shared := by
  have hframe : ∀ frame, IsFrame responder frame → frame = answerFrame := by
    rintro frame ⟨message, hencode⟩
    exact Except.ok.inj (hencode.symm.trans (encode_responder message))
  have htake : (answerFrame.take 4096).length = 4096 := by
    rw [List.length_take, length_answerFrame]
    rfl
  have hwritten : ((system responder).run (start responder) (failedWriter answer)).shared.written =
      answerFrame.take 4096 ++ answerFrame.take 4096 := by
    simp [Connection.written, stdin_failedWriter (encode_responder answer) long_answerFrame, Chunk.bytes]
  have hinner : answerFrame[4096]? = some 0x61 := by
    have hbefore : (utf8 "\x7b\"id\":1,\"result\":\"").length = 18 := by decide
    rw [answerFrame, answerText, List.append_assoc, List.append_assoc,
      List.getElem?_append_right (by rw [hbefore]; omega), hbefore,
      List.getElem?_append_left (by rw [List.length_replicate]; omega), List.getElem?_replicate]
    rfl
  have hfirst : (answerFrame.take 4096)[0]? = some 0x7b := by
    rw [List.getElem?_take_of_lt (by omega)]
    rfl
  rintro ⟨frames, last, hframes, hlast, heq⟩
  rw [hwritten] at heq
  cases frames with
  | nil =>
      change answerFrame.take 4096 ++ answerFrame.take 4096 = last at heq
      subst heq
      obtain hnil | ⟨frame, hcut, hbegins⟩ := hlast
      · have hlength := congrArg List.length hnil
        rw [List.length_append, htake] at hlength
        cases hlength
      · rw [hframe frame hcut] at hbegins
        obtain ⟨behind, hframe⟩ := hbegins
        rw [← hframe, List.append_assoc, List.getElem?_append_right (Nat.le_of_eq htake), htake, Nat.sub_self,
          List.getElem?_append_left (by rw [htake]; omega), hfirst] at hinner
        exact absurd hinner (by decide)
  | cons frame rest =>
      have hlength := congrArg List.length heq
      rw [hframe frame (hframes frame (.head _)), List.flatten_cons, List.append_assoc, List.length_append,
        List.length_append, htake, length_answerFrame] at hlength
      omega

end Main

end OpenaiRs.AppServer
