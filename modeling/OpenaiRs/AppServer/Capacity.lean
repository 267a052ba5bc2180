import OpenaiRs.AppServer.Ownership

/-!
# The capacity for pending requests

Every permit that was taken from the semaphore is held by a request that has not registered
yet, by a pending entry, or by an entry that was removed and is about to be dropped. A request
that has ended has no pending entry, and its permit was given back or is held by the step that
removed its entry.
-/

namespace OpenaiRs.AppServer

open Serde Rust Interleaving

section Accounting

/-- The request holds a permit outside of an entry. -/
def Task.unregistered : Task → Bool
  | .granted _ => true
  | .permitted _ => true
  | .identified _ _ => true
  | _ => false

/-- Entries that were removed by the reader or by `terminate` and are not dropped yet. -/
def Connection.removed (s : Connection) : List Nat := s.accepted.toList ++ s.drained ++ s.spent

/-- All permits but those of unregistered requests. -/
def Connection.permits (s : Connection) : Nat := s.available + s.pending.length + s.removed.length

/-- Permits that an operation moves from the shared state to the task. -/
def Operation.taken : Operation → Nat
  | .acquire => 1
  | _ => 0

/-- Permits that an operation moves from the task to the shared state. -/
def Operation.given : Operation → Nat
  | .release => 1
  | .insert _ => 1
  | _ => 0

def Task.weight (t : Task) : Nat := if t.unregistered then 1 else 0

theorem permits_perform {s : Connection} {who : Option Nat} {op : Operation} (hlegal : Legal s who op) :
    (s.perform op).permits + op.taken = s.permits + op.given := by
  cases hlegal with
  | acquire hpositive =>
      simp only [Connection.permits, Connection.removed, Connection.perform, Operation.taken,
        Operation.given]
      omega
  | release =>
      simp only [Connection.permits, Connection.removed, Connection.perform, Operation.taken,
        Operation.given]
      omega
  | insert =>
      simp only [Connection.permits, Connection.removed, Connection.perform, Operation.taken,
        Operation.given, List.length_cons]
      omega
  | @remove i id =>
      simp only [Connection.perform]
      split
      · rename_i hmem
        have hlength := List.length_erase_of_mem hmem
        have hpositive := List.length_pos_of_mem hmem
        simp only [Connection.permits, Connection.removed, Operation.taken, Operation.given, hlength]
        omega
      · rfl
  | drain =>
      simp only [Connection.permits, Connection.removed, Connection.perform, Operation.taken,
        Operation.given, List.length_append, List.length_nil]
      omega
  | broadcast hmem =>
      have hlength := List.length_erase_of_mem hmem
      have hpositive := List.length_pos_of_mem hmem
      simp only [Connection.permits, Connection.removed, Connection.perform, Operation.taken,
        Operation.given, List.length_append, List.length_cons, hlength]
      omega
  | @dropPermit who id =>
      simp only [Connection.perform]
      split
      · rename_i hmem
        have hlength := List.length_erase_of_mem hmem
        have hpositive := List.length_pos_of_mem hmem
        simp only [Connection.permits, Connection.removed, Operation.taken, Operation.given,
          List.length_append, hlength]
        omega
      · rfl
  | take hmem hnone =>
      have hlength := List.length_erase_of_mem hmem
      have hpositive := List.length_pos_of_mem hmem
      simp only [Connection.permits, Connection.removed, Connection.perform, Operation.taken,
        Operation.given, List.length_append, hlength, hnone, Option.toList_some, Option.toList_none,
        List.length_cons, List.length_nil]
      omega
  | deliver haccepted =>
      simp only [Connection.permits, Connection.removed, Connection.perform, Operation.taken,
        Operation.given, List.length_append, haccepted, Option.toList_some, Option.toList_none,
        List.length_cons, List.length_nil]
      omega
  | _ => rfl

/-- A cleanup action moves no permit of its task. -/
theorem CleanupStep.even {job : Job} {action : Cleanup} {op : Operation} {started : List Task}
    (h : CleanupStep job action op started) : op.taken = 0 ∧ op.given = 0 := by
  cases h <;> exact ⟨rfl, rfl⟩

theorem TerminateStep.even {s : Connection} {pc pc' : TerminatePc} {op : Operation}
    (h : TerminateStep s pc op pc') : op.taken = 0 ∧ op.given = 0 := by
  cases h <;> exact ⟨rfl, rfl⟩

theorem TerminateEnd.even {s : Connection} {pc : TerminatePc} {op : Operation}
    (h : TerminateEnd s pc op) : op.taken = 0 ∧ op.given = 0 := by
  cases h <;> exact ⟨rfl, rfl⟩

theorem Step.weight {settings : Settings} {s : Connection} {i : Nat} {t t' : Task} {choice : Choice}
    {op : Operation} {started : List Task} (h : Step settings s i t choice op t' started) :
    t'.weight + op.given = t.weight + op.taken := by
  cases h with
  | turnedAway ht =>
      obtain ⟨call, rfl | rfl | rfl⟩ := ht <;> rfl
  | released ht =>
      obtain ⟨call, rfl | rfl⟩ := ht <;> rfl
  | @wrote job => cases job <;> rfl
  | cleanup haction =>
      rw [haction.even.1, haction.even.2]
      rfl
  | terminate hterminate =>
      rw [hterminate.even.1, hterminate.even.2]
      rfl
  | terminated hend =>
      rw [hend.even.1, hend.even.2]
      rfl
  | _ => rfl

theorem Started.weight {t : Task} (h : Started t) : t.weight = 0 := by
  cases h <;> rfl

theorem total_started {started : List Task} (h : ∀ u ∈ started, Started u) :
    System.total Task.weight started = 0 := by
  induction started with
  | nil => rfl
  | cons u rest ih =>
      have hrest := ih fun v hmem => h v (.tail _ hmem)
      simp only [System.total, (h u (.head _)).weight]
      omega

theorem ReaderStep.even {settings : Settings} {s : Connection} {op : Operation} {pc pc' : ReaderPc}
    (h : ReaderStep settings s pc op pc') : op.taken = 0 ∧ op.given = 0 := by
  cases h with
  | terminate hterminate => exact hterminate.even
  | terminated hend => exact hend.even
  | _ => exact ⟨rfl, rfl⟩

theorem EnvStep.even {settings : Settings} {s : Connection} {op : Operation} {pc : ReaderPc}
    {started : List Task} (h : EnvStep settings s op pc started) : op.taken = 0 ∧ op.given = 0 := by
  cases h with
  | reader hreader => exact hreader.even
  | _ => exact ⟨rfl, rfl⟩

/-- No step creates or loses a permit. -/
theorem permits_preserved (settings : Settings) (sum : Nat) :
    (system settings).Preserved (fun _ _ => True)
      fun cfg => Owned cfg ∧ cfg.shared.permits + System.total Task.weight cfg.tasks = sum := by
  apply System.preserved_total (owned_preserved settings)
  · intro cfg i choice t s' t' started hcfg htask hact
    obtain ⟨op, rfl, hstep⟩ := act_step hact
    have hshared := permits_perform (hstep.legal (hcfg.tasks i t htask))
    have hweight := hstep.weight
    rw [total_started (started_spawned hstep)]
    omega
  · intro cfg event s' started hcfg henv
    obtain ⟨op, pc, rfl, hstep⟩ := env_step henv
    have hshared := permits_perform (hstep.legal hcfg.shared.2)
    have heven := hstep.even
    rw [total_started hstep.started_mem]
    change (cfg.shared.perform op).permits + 0 = _
    omega

theorem total_weight (tasks : List Task) :
    System.total Task.weight tasks = tasks.countP Task.unregistered := by
  induction tasks with
  | nil => rfl
  | cons t rest ih =>
      rw [List.countP_cons, ← ih]
      simp only [System.total, Task.weight]
      omega

end Accounting

section Returns

/-- Every place where the permit of a registered request can be. -/
def Connection.placed (s : Connection) (id : Nat) : Prop :=
  id ∈ s.pending ∨ id ∈ s.removed ∨ id ∈ s.returned

theorem placed_perform {s : Connection} {who : Option Nat} {op : Operation} {id : Nat}
    (hlegal : Legal s who op) (h : s.placed id) : (s.perform op).placed id := by
  simp only [Connection.placed, Connection.removed, List.mem_append, Option.mem_toList] at h ⊢
  cases hlegal with
  | insert =>
      simp only [Connection.perform, List.mem_cons]
      exact h.imp .inr (fun h => h)
  | @remove i other =>
      simp only [Connection.perform]
      split
      · rename_i hmem
        by_cases heq : id = other
        · subst heq
          exact .inr (.inr (List.mem_cons_self))
        · obtain h | h | h := h
          · exact .inl ((List.mem_erase_of_ne heq).mpr h)
          · exact .inr (.inl h)
          · exact .inr (.inr (List.mem_cons_of_mem _ h))
      · exact h
  | drain =>
      simp only [Connection.perform, List.not_mem_nil, false_or, List.mem_append]
      tauto
  | @broadcast _ failure other hmem =>
      simp only [Connection.perform, List.mem_cons]
      by_cases heq : id = other
      · exact .inr (.inl (.inr (.inl heq)))
      · rw [List.mem_erase_of_ne heq]
        tauto
  | @dropPermit _ other =>
      simp only [Connection.perform]
      split
      · by_cases heq : id = other
        · subst heq
          exact .inr (.inr (List.mem_cons_self))
        · simp only [List.mem_erase_of_ne heq, List.mem_cons]
          tauto
      · exact h
  | @take other hmem hnone =>
      simp only [Connection.perform, Option.some.injEq]
      by_cases heq : id = other
      · exact .inr (.inl (.inl (.inl heq.symm)))
      · rw [List.mem_erase_of_ne heq]
        simp only [hnone, reduceCtorEq, false_or] at h
        tauto
  | @deliver other result haccepted =>
      simp only [Connection.perform, List.mem_cons]
      simp only [haccepted, Option.some.injEq] at h
      by_cases heq : id = other
      · exact .inr (.inl (.inr (.inl heq)))
      · simp only [Ne.symm heq, false_or] at h
        tauto
  | _ => exact h

/-- The permit of a request that has registered is somewhere. -/
def Placed (s : Connection) (_ : Nat) (t : Task) : Prop :=
  ∀ id, t.id = some id → (∀ call, t ≠ .identified call id) → s.placed id

theorem Step.placed {settings : Settings} {s : Connection} {i : Nat} {t t' : Task} {choice : Choice}
    {op : Operation} {started : List Task} (h : Step settings s i t choice op t' started)
    (hown : Owns s i t) (hplaced : Placed s i t) : Placed (s.perform op) i t' := by
  refine h.keeps hplaced (fun id hid => placed_perform (h.legal hown) hid) ?_
  rintro id rfl
  exact .inl (List.mem_cons_self)

theorem placed_stable (settings : Settings) :
    System.Stable (system settings) (fun _ _ => True) Owned (fun _ => True) Placed where
  act {cfg i choice t s' t' started} hcfg _ htask hact _ hplaced := by
    obtain ⟨op, rfl, hstep⟩ := act_step hact
    refine ⟨trivial, hstep.placed (hcfg.tasks i t htask) hplaced, ?_⟩
    intro u hmem j id hid
    rw [(started_spawned hstep u hmem).id_eq_none] at hid
    cases hid
  other {cfg i choice t s' t' started j u} hcfg _ htask hact _ _ _ _ hplaced := by
    obtain ⟨op, rfl, hstep⟩ := act_step hact
    exact fun id hid hne => placed_perform (hstep.legal (hcfg.tasks i t htask)) (hplaced id hid hne)
  env {cfg event s' started} hcfg _ henv _ := by
    obtain ⟨op, pc, rfl, hstep⟩ := env_step henv
    refine ⟨trivial, ?_, ?_⟩
    · intro j u _ hplaced id hid hne
      exact placed_perform (hstep.legal hcfg.shared.2) (hplaced id hid hne)
    · intro u hmem j id hid
      rw [(hstep.started_mem u hmem).id_eq_none] at hid
      cases hid

end Returns

section Main

/-- In every reachable state the permits taken are those of pending entries, of requests that
have not registered, and of removed entries that are not dropped yet, at most
`max_pending_requests` together; and a request that has ended has no pending entry, and its
permit was given back or is held by the step that removed its entry. -/
theorem capacity_accounted (settings : Settings) (events : List (Event Choice Outside)) :
    let cfg := (system settings).run (start settings) events
    (cfg.shared.available ≤ settings.maxPendingRequests ∧
      settings.maxPendingRequests - cfg.shared.available =
        cfg.shared.pending.length + cfg.tasks.countP Task.unregistered + cfg.shared.removed.length) ∧
    (∀ (i id : Nat) (exit : Exit), cfg.tasks[i]? = some (.ended (some id) exit) →
      id ∉ cfg.shared.pending ∧ (id ∈ cfg.shared.returned ∨ id ∈ cfg.shared.removed)) := by
  intro cfg
  have hsum : Owned cfg ∧ cfg.shared.permits + System.total Task.weight cfg.tasks =
      settings.maxPendingRequests :=
    (permits_preserved settings settings.maxPendingRequests).run_free ⟨owned_start settings, rfl⟩ events
  have hplaced : Owned cfg ∧ System.Holds (fun _ => True) Placed cfg :=
    ((placed_stable settings).preserved (owned_preserved settings)).run_free
      ⟨owned_start settings, trivial, fun _ _ h => by cases h⟩ events
  constructor
  · rw [total_weight, Connection.permits] at hsum
    omega
  · intro i id exit htask
    have hpending : id ∉ cfg.shared.pending := (hsum.1.tasks i _ htask).removed id rfl (fun h => h)
    refine ⟨hpending, ?_⟩
    obtain h | h | h := hplaced.2.tasks i _ htask id rfl (by simp)
    · exact absurd h hpending
    · exact .inr h
    · exact .inl h

/-- One pending request at a time; the frame is what the encoder gives for the request below. -/
def singleRequest : Settings where
  maxLineBytes := 1024
  maxPendingRequests := 1
  eventQueueCapacity := 1
  trace := .omitted
  toVec _ := .ok (utf8 "\x7b\"method\":\"thread/list\",\"id\":1\x7d")
  rpcErrorFromValue _ := .error "missing field `code`"

/-- A request is started and goes on until it has written its frame. -/
def writtenRequest : List (Event Choice Outside) :=
  .env (.call ⟨"thread/list", none⟩) :: List.replicate 9 (.act 0 .proceed) ++
    [.act 0 (.accept 32), .act 0 .proceed, .act 0 .proceed]

/-- The response to the request with id one. -/
def response : Frame := .ok (.object [("id", .number (.posInt 1)), ("result", .null)])

/-- The response is taken from the pending requests. -/
def takenResponse : List (Event Choice Outside) :=
  writtenRequest ++ [.env (.line response), .env (.reader .proceed), .env (.reader .proceed)]

/-- The response is delivered, and the request returns it, before the entry is dropped. -/
def endedRequest : List (Event Choice Outside) :=
  takenResponse ++ .env (.reader .proceed) :: List.replicate 3 (.act 0 .proceed)

def Task.hasEnded : Task → Bool
  | .ended _ _ => true
  | _ => false

/-- The pending requests and the unregistered ones together. -/
def heldByRequests (cfg : Config Connection Task) : Nat :=
  cfg.shared.pending.length + cfg.tasks.countP Task.unregistered

theorem capacity_window :
    heldByRequests ((system singleRequest).run (start singleRequest) takenResponse) = 0 ∧
    ((system singleRequest).run (start singleRequest) takenResponse).shared.available = 0 ∧
    ((system singleRequest).run (start singleRequest) endedRequest).tasks.map Task.hasEnded = [true] ∧
    ((system singleRequest).run (start singleRequest) endedRequest).shared.available = 0 := by
  decide

end Main

end OpenaiRs.AppServer
