import OpenaiRs.AppServer.Steps

/-!
# Who owns what

The writer lock, the ids and the entries of an app-server connection have one owner each.
Every operation is legal for the party that performs it: a task only unlocks what it holds
and only touches its own entry, and the reader only takes entries that are there. Everything
else about the connection is derived from legal operations.
-/

namespace OpenaiRs.AppServer

open Serde Rust Interleaving

section Owners

/-- The id of a request, once it has one. -/
def Task.id : Task → Option Nat
  | .identified _ id => some id
  | .entering job => job.id
  | .locking job _ => job.id
  | .locked job _ => job.id
  | .writing job _ => job.id
  | .flushing job => job.id
  | .responding _ id => some id
  | .leaving job _ _ => job.id
  | .ended id _ => id
  | _ => none

def Task.HoldsLock : Task → Prop
  | .locked _ _ => True
  | .writing _ _ => True
  | .flushing _ => True
  | .leaving _ actions _ => Cleanup.unlock ∈ actions
  | _ => False

/-- The entry of the request is still to be removed by the request itself. -/
def Task.Registered : Task → Prop
  | .entering _ => True
  | .locking _ _ => True
  | .locked _ _ => True
  | .writing _ _ => True
  | .flushing _ => True
  | .responding _ _ => True
  | .leaving _ actions _ => Cleanup.remove ∈ actions
  | _ => False

/-- The lock is released once, and the connection is not closed behind that. -/
def Tidy (actions : List Cleanup) : Prop :=
  actions.Pairwise fun a b => a = .unlock → b ≠ .unlock ∧ b ≠ .close

theorem Tail.tidy {job : Job} {tail : List Cleanup} {exit : Exit} (h : Tail job tail exit) :
    Tidy tail ∧ Cleanup.unlock ∉ tail ∧ Cleanup.close ∉ tail := by
  cases h <;> cases job <;> simp [Tidy, Job.refused, Job.dropped, Job.overtime]

theorem Tail.remove_mem {job : Job} {tail : List Cleanup} {exit : Exit} (h : Tail job tail exit) {id : Nat}
    (hid : job.id = some id) : Cleanup.remove ∈ tail := by
  cases job with
  | request call id => cases h <;> simp [Job.refused, Job.dropped, Job.overtime]
  | message body => cases hid
  | shutdown => cases hid

theorem Tidy.unlock_cons {tail : List Cleanup} (h : Tidy tail ∧ Cleanup.unlock ∉ tail ∧ Cleanup.close ∉ tail) :
    Tidy (.unlock :: tail) := by
  refine List.pairwise_cons.mpr ⟨?_, h.1⟩
  intro b hmem _
  constructor
  · rintro rfl
    exact h.2.1 hmem
  · rintro rfl
    exact h.2.2 hmem

theorem Tidy.guardActions {tail : List Cleanup}
    (h : Tidy tail ∧ Cleanup.unlock ∉ tail ∧ Cleanup.close ∉ tail) : Tidy (guardActions ++ tail) := by
  have hunlock := Tidy.unlock_cons h
  refine List.pairwise_cons.mpr ⟨by simp, List.pairwise_cons.mpr ⟨by simp, ?_⟩⟩
  exact List.pairwise_cons.mpr ⟨by simp, hunlock⟩

end Owners

section Legality

/-- An operation is legal for a task, or for the reader (`none`). -/
inductive Legal (s : Connection) : Option Nat → Operation → Prop
  | skip {who} : Legal s who .skip
  | acquire {i} : 0 < s.available → Legal s (some i) .acquire
  | release {i} : Legal s (some i) .release
  | takeId {i} : Legal s (some i) (.takeId i)
  | insert {i id} : s.owners id = some i → id < s.nextId → id ∉ s.senders →
      s.channels id = Channel.new → Legal s (some i) (.insert id)
  | remove {i id} : s.owners id = some i → Legal s (some i) (.remove id)
  | lock {i} : s.writer = none → Legal s (some i) (.lock i)
  | unlock {i} : s.writer = some i → Legal s (some i) .unlock
  | begin {i frame} : s.writer = some i → Legal s (some i) (.begin frame)
  | accept {i count} : s.writer = some i → Legal s (some i) (.accept count)
  | close {who} : Legal s who .close
  | record {who failure} : Legal s who (.record failure)
  | overwrite {i failure} : Legal s (some i) (.overwrite failure)
  | dropReceiver {i id} : s.owners id = some i → Legal s (some i) (.dropReceiver id)
  | startShutdown {who} : Legal s who .startShutdown
  | takeEvents {who} : Legal s who .takeEvents
  | drain {who} : Legal s who .drain
  | broadcast {who failure id} : id ∈ s.drained → Legal s who (.broadcast failure id)
  | dropPermit {who id} : Legal s who (.dropPermit id)
  | closeSlots {who} : Legal s who .closeSlots
  | takeStdin {who} : s.writer = none → Legal s who .takeStdin
  | read {frame} : Legal s none (.read frame)
  | dispose {disposal} : Legal s none (.dispose disposal)
  | take {id} : id ∈ s.pending → s.accepted = none → Legal s none (.take id)
  | deliver {id result} : s.accepted = some id → Legal s none (.deliver id result)
  | emit {event} : Legal s none (.emit event)
  | consume : Legal s none .consume

theorem TerminateStep.legal {s : Connection} {pc pc' : TerminatePc} {op : Operation} {who : Option Nat}
    (h : TerminateStep s pc op pc') : Legal s who op := by
  cases h with
  | swap _ => exact .startShutdown
  | close => exact .close
  | probe => exact .skip
  | record => exact .record
  | takeEvents => exact .takeEvents
  | drain => exact .drain
  | broadcast hmem => exact .broadcast hmem
  | answered _ => exact .skip
  | release => exact .dropPermit
  | closeSlots => exact .closeSlots
  | reap => exact .skip

theorem TerminateEnd.legal {s : Connection} {pc : TerminatePc} {op : Operation} {who : Option Nat}
    (h : TerminateEnd s pc op) : Legal s who op := by
  cases h with
  | started _ => exact .skip
  | reap => exact .skip
  | takeWriter hwriter => exact .takeStdin hwriter

end Legality

section Invariant

/-- Senders are owned by one entry each, and are those of unanswered requests. -/
structure Sound (s : Connection) : Prop where
  nodup : s.senders.Nodup
  issued : ∀ id ∈ s.senders, id < s.nextId
  unanswered : ∀ id ∈ s.senders, (s.channels id).value = none ∧ (s.channels id).senderDropped = false
  unissued : ∀ id, s.nextId ≤ id → s.channels id = Channel.new ∧ s.owners id = none

/-- What a task owns. -/
structure Owns (s : Connection) (i : Nat) (t : Task) : Prop where
  owner : ∀ id, t.id = some id → s.owners id = some i ∧ id < s.nextId
  fresh : ∀ call id, t = .identified call id → id ∉ s.senders ∧ s.channels id = Channel.new
  lock : t.HoldsLock → s.writer = some i
  removed : ∀ id, t.id = some id → ¬ t.Registered → id ∉ s.pending
  tidy : ∀ job actions exit, t = .leaving job actions exit → Tidy actions

/-- The entry that `handle_inbound` owns is the one it is about to answer. -/
def Accepts (s : Connection) : Prop :=
  ∀ id, s.accepted = some id ↔ ∃ result, s.reader = .sending id result

theorem mem_senders {s : Connection} {id : Nat} :
    id ∈ s.senders ↔ id ∈ s.pending ∨ s.accepted = some id ∨ id ∈ s.drained := by
  simp [Connection.senders]

/-- Senders only appear by an insertion. -/
theorem mem_senders_perform {s : Connection} {who : Option Nat} {op : Operation} {id : Nat}
    (hlegal : Legal s who op) (h : id ∈ (s.perform op).senders) : id ∈ s.senders ∨ op = .insert id := by
  rw [mem_senders] at h ⊢
  cases hlegal with
  | insert =>
      rename_i i other _ _ _ _
      simp only [Connection.perform, List.mem_cons] at h
      obtain (rfl | h) | h := h
      · exact .inr rfl
      · exact .inl (.inl h)
      · exact .inl (.inr h)
  | remove =>
      simp only [Connection.perform] at h
      split at h
      · simp only at h
        obtain h | h := h
        · exact .inl (.inl (List.mem_of_mem_erase h))
        · exact .inl (.inr h)
      · exact .inl h
  | drain =>
      simp only [Connection.perform, List.not_mem_nil, false_or, List.mem_append] at h
      obtain h | h | h := h
      · exact .inl (.inr (.inl h))
      · exact .inl (.inr (.inr h))
      · exact .inl (.inl h)
  | broadcast =>
      simp only [Connection.perform] at h
      obtain h | h | h := h
      · exact .inl (.inl h)
      · exact .inl (.inr (.inl h))
      · exact .inl (.inr (.inr (List.mem_of_mem_erase h)))
  | dropPermit =>
      simp only [Connection.perform] at h
      split at h <;> exact .inl h
  | take hmem _ =>
      simp only [Connection.perform, Option.some.injEq] at h
      obtain h | rfl | h := h
      · exact .inl (.inl (List.mem_of_mem_erase h))
      · exact .inl (.inl hmem)
      · exact .inl (.inr (.inr h))
  | deliver =>
      simp only [Connection.perform, reduceCtorEq, false_or] at h
      obtain h | h := h
      · exact .inl (.inl h)
      · exact .inl (.inr (.inr h))
  | _ => exact .inl h

/-- The channel of a request is only touched by its owner or through its sender. -/
theorem channels_perform {s : Connection} {who : Option Nat} {op : Operation} {id : Nat}
    (hlegal : Legal s who op) (howner : ∀ i, who = some i → s.owners id ≠ some i)
    (hsender : id ∉ s.senders) : (s.perform op).channels id = s.channels id := by
  rw [mem_senders, not_or, not_or] at hsender
  cases hlegal with
  | remove hother =>
      simp only [Connection.perform]
      split
      · exact Function.update_of_ne (by rintro rfl; exact howner _ rfl hother) _ _
      · rfl
  | dropReceiver hother => exact Function.update_of_ne (by rintro rfl; exact howner _ rfl hother) _ _
  | broadcast hmem => exact Function.update_of_ne (by rintro rfl; exact hsender.2.2 hmem) _ _
  | deliver haccepted => exact Function.update_of_ne (by rintro rfl; exact hsender.2.1 haccepted) _ _
  | dropPermit =>
      simp only [Connection.perform]
      split <;> rfl
  | _ => rfl

theorem nodup_senders_perform {s : Connection} {who : Option Nat} {op : Operation}
    (hlegal : Legal s who op) (h : s.senders.Nodup) : (s.perform op).senders.Nodup := by
  cases hlegal with
  | insert _ _ hfresh _ => exact List.nodup_cons.mpr ⟨hfresh, h⟩
  | remove =>
      simp only [Connection.perform]
      split
      · refine h.sublist ?_
        exact (List.erase_sublist.append (List.Sublist.refl _)).append (List.Sublist.refl _)
      · exact h
  | drain =>
      refine (List.Perm.nodup_iff ?_).mp h
      simp only [Connection.perform, Connection.senders, List.nil_append]
      rw [List.append_assoc, ← List.append_assoc s.accepted.toList]
      exact List.perm_append_comm
  | broadcast =>
      refine h.sublist ?_
      exact (List.Sublist.refl _).append List.erase_sublist
  | dropPermit =>
      simp only [Connection.perform]
      split <;> exact h
  | take hmem hnone =>
      refine (List.Perm.nodup_iff ?_).mp h
      simp only [Connection.perform, Connection.senders, hnone, Option.toList_none,
        Option.toList_some, List.append_nil]
      refine List.Perm.append_right _ ((List.perm_cons_erase hmem).trans ?_)
      exact (List.perm_append_singleton _ _).symm
  | deliver =>
      refine h.sublist ?_
      exact ((List.Sublist.refl _).append (List.nil_sublist _)).append (List.Sublist.refl _)
  | _ => exact h

/-- An entry that stays keeps its sender unused. -/
theorem unanswered_perform {s : Connection} {who : Option Nat} {op : Operation} {id : Nat}
    (hsound : Sound s) (hlegal : Legal s who op) (h : id ∈ (s.perform op).senders) :
    ((s.perform op).channels id).value = none ∧ ((s.perform op).channels id).senderDropped = false := by
  have hnodup := hsound.nodup
  rw [Connection.senders, List.nodup_append, List.nodup_append] at hnodup
  obtain ⟨⟨hpending, -, hdisjoint⟩, hdrained, hdisjoint'⟩ := hnodup
  have hold : id ∈ s.senders → (s.channels id).value = none ∧ (s.channels id).senderDropped = false :=
    hsound.unanswered id
  cases hlegal with
  | insert _ _ _ hnew =>
      obtain rfl | hmem := List.mem_cons.mp h
      · change (s.channels id).value = none ∧ (s.channels id).senderDropped = false
        rw [hnew]
        exact ⟨rfl, rfl⟩
      · exact hold hmem
  | @remove i other howner =>
      simp only [Connection.perform] at h ⊢
      split at h
      · rename_i hmem
        rw [if_pos hmem]
        have hne : id ≠ other := by
          rintro rfl
          rw [mem_senders] at h
          simp only [hpending.mem_erase_iff, ne_eq, not_true, false_and, false_or] at h
          obtain h | h := h
          · exact hdisjoint id hmem id (by simp [h]) rfl
          · exact hdisjoint' id (by simp [hmem]) id h rfl
        simp only [Function.update_of_ne hne]
        refine hold ?_
        rw [mem_senders] at h ⊢
        exact h.imp List.mem_of_mem_erase (fun h => h)
      · rename_i hmem
        rw [if_neg hmem]
        exact hold h
  | @dropReceiver i other howner =>
      have hchannel := hold h
      by_cases heq : id = other
      · subst heq
        simpa [Connection.perform] using hchannel
      · simpa [Connection.perform, Function.update_of_ne heq] using hchannel
  | @broadcast _ failure other hmem =>
      have hne : id ≠ other := by
        rintro rfl
        rw [mem_senders] at h
        simp only [Connection.perform, hdrained.mem_erase_iff, ne_eq, not_true, false_and, or_false] at h
        exact hdisjoint' id (by simpa using h) id hmem rfl
      simp only [Connection.perform, Function.update_of_ne hne]
      refine hold ?_
      rw [mem_senders] at h ⊢
      exact h.imp (fun h => h) (Or.imp (fun h => h) List.mem_of_mem_erase)
  | @deliver other result haccepted =>
      have hne : id ≠ other := by
        rintro rfl
        rw [mem_senders] at h
        simp only [Connection.perform, reduceCtorEq, false_or] at h
        obtain h | h := h
        · exact hdisjoint id h id (by simp [haccepted]) rfl
        · exact hdisjoint' id (by simp [haccepted]) id h rfl
      simp only [Connection.perform, Function.update_of_ne hne]
      refine hold ?_
      rw [mem_senders] at h ⊢
      simp only [Connection.perform, reduceCtorEq, false_or] at h
      exact h.imp (fun h => h) .inr
  | dropPermit =>
      simp only [Connection.perform] at h ⊢
      split at h
      · rename_i hmem
        rw [if_pos hmem]
        exact hold h
      · rename_i hmem
        rw [if_neg hmem]
        exact hold h
  | take hmem hnone =>
      refine hold ?_
      obtain h | h := mem_senders_perform (.take hmem hnone) h
      · exact h
      · cases h
  | drain =>
      refine hold ?_
      rcases mem_senders_perform (Legal.drain : Legal s none .drain) h with h | h
      · exact h
      · cases h
  | _ => exact hold h

theorem nextId_perform (s : Connection) (op : Operation) : s.nextId ≤ (s.perform op).nextId := by
  cases op <;> simp only [Connection.perform, Nat.le_refl, Nat.le_add_right]
  · split <;> exact Nat.le_refl _
  · split <;> exact Nat.le_refl _

/-- Issued ids keep their owners. -/
theorem owners_perform {s : Connection} {id : Nat} (hissued : id < s.nextId) (op : Operation) :
    (s.perform op).owners id = s.owners id := by
  cases op with
  | takeId task => exact Function.update_of_ne (Nat.ne_of_lt hissued) _ _
  | remove other =>
      simp only [Connection.perform]
      split <;> rfl
  | dropPermit other =>
      simp only [Connection.perform]
      split <;> rfl
  | _ => rfl

theorem owners_perform_none {s : Connection} {op : Operation} {id : Nat}
    (hunissued : (s.perform op).nextId ≤ id) (hnone : s.owners id = none) :
    (s.perform op).owners id = none := by
  cases op with
  | takeId task =>
      change s.nextId + 1 ≤ id at hunissued
      change Function.update s.owners s.nextId (some task) id = none
      rwa [Function.update_of_ne (by omega)]
  | remove other =>
      simp only [Connection.perform]
      split <;> exact hnone
  | dropPermit other =>
      simp only [Connection.perform]
      split <;> exact hnone
  | _ => exact hnone

theorem Sound.perform {s : Connection} {who : Option Nat} {op : Operation} (h : Sound s)
    (hlegal : Legal s who op) : Sound (s.perform op) where
  nodup := nodup_senders_perform hlegal h.nodup
  issued id hmem := by
    have hmono := nextId_perform s op
    obtain hold | rfl := mem_senders_perform hlegal hmem
    · exact Nat.lt_of_lt_of_le (h.issued id hold) hmono
    · cases hlegal with
      | insert _ hissued => exact Nat.lt_of_lt_of_le hissued hmono
  unanswered id hmem := unanswered_perform h hlegal hmem
  unissued id hle := by
    obtain ⟨hchannel, howner⟩ := h.unissued id (Nat.le_trans (nextId_perform s op) hle)
    have hsender : id ∉ s.senders := fun hmem =>
      absurd (h.issued id hmem) (Nat.not_lt.mpr (Nat.le_trans (nextId_perform s op) hle))
    have hother : ∀ i, who = some i → s.owners id ≠ some i := by simp [howner]
    exact ⟨(channels_perform hlegal hother hsender).trans hchannel, owners_perform_none hle howner⟩

/-- Another party does not take the lock away. -/
theorem writer_perform {s : Connection} {who : Option Nat} {op : Operation} {j : Nat}
    (hlegal : Legal s who op) (hwho : who ≠ some j) (h : s.writer = some j) :
    (s.perform op).writer = some j := by
  cases hlegal with
  | lock hnone =>
      rw [hnone] at h
      cases h
  | unlock hwriter => exact absurd (hwriter.symm.trans h) hwho
  | remove =>
      simp only [Connection.perform]
      split <;> exact h
  | dropPermit =>
      simp only [Connection.perform]
      split <;> exact h
  | _ => exact h

/-- A connection stays closed. -/
theorem closed_perform {s : Connection} (op : Operation) (h : s.closed = true) : (s.perform op).closed = true := by
  cases op with
  | remove id =>
      simp only [Connection.perform]
      split <;> exact h
  | dropPermit id =>
      simp only [Connection.perform]
      split <;> exact h
  | close => rfl
  | _ => exact h

theorem mem_pending_perform {s : Connection} {op : Operation} {id : Nat}
    (h : id ∈ (s.perform op).pending) : id ∈ s.pending ∨ op = .insert id := by
  cases op with
  | insert other =>
      obtain rfl | h := List.mem_cons.mp h
      · exact .inr rfl
      · exact .inl h
  | remove other =>
      simp only [Connection.perform] at h
      split at h
      · exact .inl (List.mem_of_mem_erase h)
      · exact .inl h
  | drain => cases h
  | take other => exact .inl (List.mem_of_mem_erase h)
  | dropPermit other =>
      simp only [Connection.perform] at h
      split at h <;> exact .inl h
  | _ => exact .inl h

/-- Legal operations of others do not interfere with what a task owns. -/
theorem Owns.other {s : Connection} {who : Option Nat} {op : Operation} {j : Nat} {u : Task}
    (h : Owns s j u) (hlegal : Legal s who op) (hwho : who ≠ some j) : Owns (s.perform op) j u where
  owner id hid := by
    obtain ⟨howner, hissued⟩ := h.owner id hid
    exact ⟨(owners_perform hissued op).trans howner,
      Nat.lt_of_lt_of_le hissued (nextId_perform s op)⟩
  fresh call id ht := by
    obtain ⟨hsender, hchannel⟩ := h.fresh call id ht
    have howner : s.owners id = some j := (h.owner id (by rw [ht]; rfl)).1
    constructor
    · intro hmem
      obtain hold | rfl := mem_senders_perform hlegal hmem
      · exact hsender hold
      · cases hlegal with
        | insert hother =>
            rw [howner] at hother
            exact hwho hother.symm
    · refine (channels_perform hlegal ?_ hsender).trans hchannel
      rintro i rfl heq
      exact hwho (heq.symm.trans howner)
  lock hlock := writer_perform hlegal hwho (h.lock hlock)
  removed id hid hregistered hmem := by
    obtain hold | rfl := mem_pending_perform hmem
    · exact h.removed id hid hregistered hold
    · cases hlegal with
      | insert hother =>
          rw [(h.owner id hid).1] at hother
          exact hwho hother.symm
  tidy := h.tidy

end Invariant

section Steps

variable {settings : Settings} {s : Connection} {i : Nat} {t t' : Task} {choice : Choice}
  {op : Operation} {started : List Task}

/-- Every step of a task is legal for it. -/
theorem Step.legal (h : Step settings s i t choice op t' started) (hown : Owns s i t) :
    Legal s (some i) op := by
  cases h with
  | granted hpositive => exact .acquire hpositive
  | released => exact .release
  | identified => exact .takeId
  | registered =>
      obtain ⟨hsender, hchannel⟩ := hown.fresh _ _ rfl
      obtain ⟨howner, hissued⟩ := hown.owner _ rfl
      exact .insert howner hissued hsender hchannel
  | lock hnone => exact .lock hnone
  | begin => exact .begin (hown.lock trivial)
  | accept => exact .accept (hown.lock trivial)
  | wrote => exact .unlock (hown.lock trivial)
  | cleanup haction =>
      cases haction with
      | close => exact .close
      | record => exact .record
      | spawn => exact .skip
      | noRuntime => exact .skip
      | unlock => exact .unlock (hown.lock (List.mem_cons_self))
      | dropReceiver hid => exact .dropReceiver (hown.owner _ hid).1
      | remove hid => exact .remove (hown.owner _ hid).1
      | overwrite => exact .overwrite
  | terminate hterminate => exact hterminate.legal
  | terminated hend => exact hend.legal
  | _ => exact .skip

/-- What a task still owns after an operation of its own. -/
theorem Owns.move (op : Operation) (h : Owns s i t) (hid : t'.id = t.id ∨ t'.id = none)
    (hnew : ∀ call id, t' ≠ .identified call id)
    (hlock : t'.HoldsLock → (s.perform op).writer = some i)
    (hremoved : ∀ id, t'.id = some id → ¬ t'.Registered → id ∉ (s.perform op).pending)
    (htidy : ∀ job actions exit, t' = .leaving job actions exit → Tidy actions) :
    Owns (s.perform op) i t' where
  owner id hid' := by
    obtain hid | hid := hid
    · obtain ⟨howner, hissued⟩ := h.owner id (hid ▸ hid')
      exact ⟨(owners_perform hissued op).trans howner,
        Nat.lt_of_lt_of_le hissued (nextId_perform s op)⟩
    · rw [hid] at hid'
      cases hid'
  fresh call id heq := absurd heq (hnew call id)
  lock := hlock
  removed := hremoved
  tidy := htidy

theorem Started.owns {u : Task} (h : Started u) (s : Connection) (j : Nat) : Owns s j u := by
  cases h with
  | call call =>
      exact ⟨by simp [Task.id], by simp, by simp [Task.HoldsLock], by simp [Task.id], by simp⟩
  | send body =>
      exact ⟨by simp [Task.id, Job.id], by simp, by simp [Task.HoldsLock], by simp [Task.id, Job.id],
        by simp⟩
  | shutdown failure =>
      refine ⟨by simp [shutdownTask, Task.id, Job.id], by simp [shutdownTask],
        by simp [shutdownTask, Task.HoldsLock], by simp [shutdownTask, Task.id, Job.id], ?_⟩
      rintro job actions exit ⟨⟩
      exact List.pairwise_singleton _ _

theorem Started.id_eq_none {u : Task} (h : Started u) : u.id = none := by
  cases h <;> rfl

/-- A job that gives up keeps its id, its lock and the removal of its entry. -/
theorem Owns.giveUp {job : Job} {actions : List Cleanup} {exit : Exit} (h : Owns s i t)
    (hid : t.id = job.id) (hlock : Cleanup.unlock ∈ actions → t.HoldsLock)
    (hremove : ∀ id, job.id = some id → Cleanup.remove ∈ actions) (htidy : Tidy actions) :
    Owns s i (.leaving job actions exit) := by
  refine h.move .skip (.inl hid.symm) (by simp) (fun hunlock => h.lock (hlock hunlock)) ?_ ?_
  · intro id hid' hregistered
    exact absurd (hremove id hid') hregistered
  · rintro _ _ _ ⟨⟩
    exact htidy

/-- A failed write keeps the lock until it is released. -/
theorem Owns.ioFailure {job : Job} {failure : ConnectionFailure} (h : Owns s i t) (hlock : t.HoldsLock)
    (hid : t.id = job.id) : Owns s i (ioFailure job failure) := by
  have htail : Tail job job.refused (.failed (.connection failure)) := .refused _
  have htidy : Tidy (.terminate (.swap failure) :: job.refused) :=
    List.pairwise_cons.mpr ⟨by simp, htail.tidy.1⟩
  refine h.giveUp hid (fun _ => hlock) ?_ ?_
  · intro id hid'
    exact List.mem_cons_of_mem _ (List.mem_cons_of_mem _ (htail.remove_mem hid'))
  · refine Tidy.unlock_cons ⟨htidy, ?_, ?_⟩
    · simp [htail.tidy.2.1]
    · simp [htail.tidy.2.2]

theorem TerminateStep.writer_eq {pc pc' : TerminatePc} (h : TerminateStep s pc op pc') :
    (s.perform op).writer = s.writer := by
  cases h <;> try rfl
  simp only [Connection.perform]
  split <;> rfl

theorem TerminateEnd.writer_eq {pc : TerminatePc} (h : TerminateEnd s pc op) :
    (s.perform op).writer = s.writer := by
  cases h <;> rfl

theorem CleanupStep.writer_eq {job : Job} {action : Cleanup} (h : CleanupStep job action op started)
    (hne : action ≠ .unlock) : (s.perform op).writer = s.writer := by
  cases h with
  | unlock => exact absurd rfl hne
  | remove =>
      simp only [Connection.perform]
      split <;> rfl
  | _ => rfl

/-- An operation other than an insertion leaves a removed entry removed. -/
theorem notMem_pending_perform {id : Nat} (hop : op ≠ .insert id) (h : id ∉ s.pending) :
    id ∉ (s.perform op).pending := by
  intro hmem
  obtain hold | hinsert := mem_pending_perform hmem
  · exact h hold
  · exact hop hinsert

theorem notMem_pending_remove (hsound : Sound s) (id : Nat) :
    id ∉ (s.perform (.remove id)).pending := by
  have hnodup := hsound.nodup
  rw [Connection.senders, List.nodup_append, List.nodup_append] at hnodup
  simp only [Connection.perform]
  split
  · simp [hnodup.1.1.mem_erase_iff]
  · assumption

/-- A cleanup action keeps what the task owns, up to what the action gives back. -/
theorem Owns.cleanup {job : Job} {action : Cleanup} {rest : List Cleanup} {exit : Exit}
    (hsound : Sound s) (hown : Owns s i (.leaving job (action :: rest) exit))
    (h : CleanupStep job action op started) : Owns (s.perform op) i (.leaving job rest exit) := by
  have htidy := List.pairwise_cons.mp (hown.tidy _ _ _ rfl)
  refine hown.move op (.inl rfl) (by simp) ?_ ?_ ?_
  · intro hunlock
    have hne : action ≠ .unlock := by
      rintro rfl
      exact (htidy.1 _ hunlock rfl).1 rfl
    rw [h.writer_eq hne]
    exact hown.lock (List.mem_cons_of_mem _ hunlock)
  · intro id hid hregistered
    by_cases hremove : action = .remove
    · subst hremove
      cases h with
      | remove hid' =>
          cases hid.symm.trans hid'
          exact notMem_pending_remove hsound id
    · refine notMem_pending_perform ?_ (hown.removed id hid ?_)
      · rintro rfl
        cases h
      · intro hmem
        obtain heq | hmem := List.mem_cons.mp hmem
        · exact hremove heq.symm
        · exact hregistered hmem
  · rintro _ _ _ ⟨⟩
    exact htidy.2

/-- A step of `terminate` keeps what the task owns. -/
theorem Owns.terminate {job : Job} {pc : TerminatePc} {rest actions : List Cleanup} {exit : Exit}
    (hown : Owns s i (.leaving job (.terminate pc :: rest) exit))
    (hlegal : Legal s none op) (hwriter : (s.perform op).writer = s.writer)
    (hactions : actions = rest ∨ ∃ pc', actions = .terminate pc' :: rest) :
    Owns (s.perform op) i (.leaving job actions exit) := by
  have htidy := List.pairwise_cons.mp (hown.tidy _ _ _ rfl)
  have hmem : ∀ action : Cleanup, (∀ pc', action ≠ .terminate pc') →
      (action ∈ actions ↔ action ∈ Cleanup.terminate pc :: rest) := by
    intro action hne
    obtain rfl | ⟨pc', rfl⟩ := hactions
    · simp [hne]
    · simp [hne]
  refine hown.move op (.inl rfl) (by simp) ?_ ?_ ?_
  · intro hunlock
    rw [hwriter]
    exact hown.lock ((hmem .unlock (by simp)).mp hunlock)
  · intro id hid hregistered
    refine notMem_pending_perform ?_ (hown.removed id hid ?_)
    · rintro rfl
      cases hlegal
    · exact fun hremove => hregistered ((hmem .remove (by simp)).mpr hremove)
  · rintro _ _ _ ⟨⟩
    obtain rfl | ⟨pc', rfl⟩ := hactions
    · exact htidy.2
    · exact List.pairwise_cons.mpr ⟨by simp, htidy.2⟩

/-- A task keeps what it owns. -/
theorem Step.owns (h : Step settings s i t choice op t' started) (hsound : Sound s)
    (hown : Owns s i t) : Owns (s.perform op) i t' := by
  cases h with
  | turnedAway => exact hown.move _ (.inr rfl) (by simp) (fun h => h.elim) (by simp [Task.id]) (by simp)
  | unclosed => exact hown.move _ (.inr rfl) (by simp) (fun h => h.elim) (by simp [Task.id]) (by simp)
  | acquiring => exact hown.move _ (.inr rfl) (by simp) (fun h => h.elim) (by simp [Task.id]) (by simp)
  | granted => exact hown.move _ (.inr rfl) (by simp) (fun h => h.elim) (by simp [Task.id]) (by simp)
  | permitted => exact hown.move _ (.inr rfl) (by simp) (fun h => h.elim) (by simp [Task.id]) (by simp)
  | released => exact hown.move _ (.inr rfl) (by simp) (fun h => h.elim) (by simp [Task.id]) (by simp)
  | identified =>
      have hsender : s.nextId ∉ s.senders := fun hmem =>
        absurd (hsound.issued _ hmem) (Nat.lt_irrefl _)
      refine ⟨?_, ?_, fun h => h.elim, ?_, by simp⟩
      · rintro id ⟨⟩
        exact ⟨Function.update_self _ _ _, Nat.lt_succ_self _⟩
      · rintro call id ⟨⟩
        exact ⟨hsender, (hsound.unissued _ (Nat.le_refl _)).1⟩
      · rintro id ⟨⟩ - hmem
        exact hsender (mem_senders.mpr (.inl hmem))
  | registered =>
      exact hown.move _ (.inl rfl) (by simp) (fun h => h.elim) (fun _ _ h => absurd trivial h) (by simp)
  | refused htail =>
      exact hown.giveUp rfl (fun h => absurd h htail.tidy.2.1) (fun _ => htail.remove_mem) htail.tidy.1
  | locking =>
      exact hown.move _ (.inl rfl) (by simp) (fun h => h.elim) (fun _ _ h => absurd trivial h) (by simp)
  | lock =>
      exact hown.move _ (.inl rfl) (by simp) (fun _ => rfl) (fun _ _ h => absurd trivial h) (by simp)
  | unqueued htail =>
      exact hown.giveUp rfl (fun h => absurd h htail.tidy.2.1) (fun _ => htail.remove_mem) htail.tidy.1
  | unlocked htail =>
      exact hown.giveUp rfl (fun _ => trivial) (fun _ hid => List.mem_cons_of_mem _ (htail.remove_mem hid))
        (Tidy.unlock_cons htail.tidy)
  | begin =>
      exact hown.move _ (.inl rfl) (by simp) (fun _ => hown.lock trivial) (fun _ _ h => absurd trivial h)
        (by simp)
  | accept =>
      exact hown.move _ (.inl rfl) (by simp) (fun _ => hown.lock trivial) (fun _ _ h => absurd trivial h)
        (by simp)
  | flushing =>
      exact hown.move _ (.inl rfl) (by simp) (fun _ => hown.lock trivial) (fun _ _ h => absurd trivial h)
        (by simp)
  | writeFailed => exact hown.ioFailure trivial rfl
  | flushFailed => exact hown.ioFailure trivial rfl
  | writeDropped htail =>
      exact hown.giveUp rfl (fun _ => trivial)
        (fun _ hid => List.mem_append_right _ (htail.remove_mem hid)) (Tidy.guardActions htail.tidy)
  | flushDropped htail =>
      exact hown.giveUp rfl (fun _ => trivial)
        (fun _ hid => List.mem_append_right _ (htail.remove_mem hid)) (Tidy.guardActions htail.tidy)
  | @wrote job =>
      cases job with
      | request call id =>
          exact hown.move _ (.inl rfl) (by simp [Job.wrote]) (fun h => h.elim)
            (fun _ _ h => absurd trivial h) (by simp [Job.wrote])
      | message body =>
          exact hown.move _ (.inr rfl) (by simp [Job.wrote]) (fun h => h.elim)
            (by simp [Job.wrote, Task.id, Job.id]) (by simp [Job.wrote])
      | shutdown =>
          exact hown.move _ (.inr rfl) (by simp [Job.wrote]) (fun h => h.elim)
            (by simp [Job.wrote, Task.id, Job.id]) (by simp [Job.wrote])
  | received =>
      exact hown.giveUp rfl (by simp) (by simp) (List.pairwise_singleton _ _)
  | unanswered hactions =>
      cases hactions <;> exact hown.giveUp rfl (by simp) (by simp) (by simp [Tidy])
  | cleanup haction => exact Owns.cleanup hsound hown haction
  | terminate hterminate =>
      exact hown.terminate hterminate.legal hterminate.writer_eq (.inr ⟨_, rfl⟩)
  | terminated hend => exact hown.terminate hend.legal hend.writer_eq (.inl rfl)
  | abandoned _ htail =>
      exact hown.giveUp rfl (fun h => absurd h htail.tidy.2.1) (fun _ => htail.remove_mem) htail.tidy.1
  | guarded => exact hown.giveUp rfl (by simp) (by simp) (List.pairwise_singleton _ _)
  | ended =>
      exact hown.move _ (.inl rfl) (by simp) (fun h => h.elim)
        (fun id hid _ => hown.removed id hid (by simp [Task.Registered])) (by simp)

/-- What holds of the ids of registered requests is kept by a task, if its operation keeps it and
an insertion brings it about. -/
theorem Step.keeps {P P' : Nat → Prop} (h : Step settings s i t choice op t' started)
    (hbefore : ∀ id, t.id = some id → (∀ call, t ≠ .identified call id) → P id)
    (hkeep : ∀ id, P id → P' id) (hinsert : ∀ id, op = .insert id → P' id) :
    ∀ id, t'.id = some id → (∀ call, t' ≠ .identified call id) → P' id := by
  have hmove : (t'.id = t.id ∨ t'.id = none) → (∀ call id, t ≠ .identified call id) →
      ∀ id, t'.id = some id → (∀ call, t' ≠ .identified call id) → P' id := by
    intro hid hne id hid' _
    obtain hid | hid := hid
    · exact hkeep id (hbefore id (hid ▸ hid') (fun call => hne call id))
    · rw [hid] at hid'
      cases hid'
  cases h with
  | turnedAway ht => exact hmove (.inr rfl) (by obtain ⟨call, rfl | rfl | rfl⟩ := ht <;> simp)
  | released ht => exact hmove (.inr rfl) (by obtain ⟨call, rfl | rfl⟩ := ht <;> simp)
  | identified =>
      rintro id ⟨⟩ hne
      exact absurd rfl (hne _)
  | registered =>
      rintro id ⟨⟩ -
      exact hinsert _ rfl
  | @wrote job =>
      cases job with
      | request call id => exact hmove (.inl rfl) (by simp)
      | message body => exact hmove (.inr rfl) (by simp)
      | shutdown => exact hmove (.inr rfl) (by simp)
  | writeFailed => exact hmove (.inl rfl) (by simp)
  | flushFailed => exact hmove (.inl rfl) (by simp)
  | unclosed => exact hmove (.inr rfl) (by simp)
  | acquiring => exact hmove (.inr rfl) (by simp)
  | granted => exact hmove (.inr rfl) (by simp)
  | permitted => exact hmove (.inr rfl) (by simp)
  | _ => exact hmove (.inl rfl) (by simp)

end Steps

section Reader

variable {settings : Settings} {s : Connection} {op : Operation} {pc : ReaderPc} {started : List Task}

/-- Every step of the reader is legal. -/
theorem ReaderStep.legal (h : ReaderStep settings s s.reader op pc) (haccepts : Accepts s) :
    Legal s none op := by
  generalize hreader : s.reader = reader at h
  cases h with
  | @take id result raw hmem =>
      refine .take hmem (Option.eq_none_iff_forall_ne_some.mpr ?_)
      intro other haccepted
      obtain ⟨result, hsending⟩ := (haccepts other).mp haccepted
      rw [hreader] at hsending
      cases hsending
  | @deliver id result => exact .deliver ((haccepts id).mpr ⟨result, hreader⟩)
  | dropPermit => exact .dropPermit
  | emit => exact .emit
  | refuse => exact .dispose
  | terminate hterminate => exact hterminate.legal
  | terminated hend => exact hend.legal
  | _ => exact .skip

theorem EnvStep.legal (h : EnvStep settings s op pc started) (haccepts : Accepts s) :
    Legal s none op := by
  cases h with
  | started => exact .skip
  | line => exact .read
  | stop => exact .skip
  | reader hreader => exact hreader.legal haccepts
  | consume => exact .consume

theorem EnvStep.started_mem (h : EnvStep settings s op pc started) : ∀ u ∈ started, Started u := by
  cases h with
  | started hstarted => simpa using hstarted
  | _ => simp

/-- Only the reader changes what `handle_inbound` has taken. -/
theorem accepted_perform {i : Nat} (h : Legal s (some i) op) :
    (s.perform op).accepted = s.accepted ∧ (s.perform op).reader = s.reader := by
  cases h with
  | remove =>
      simp only [Connection.perform]
      split <;> exact ⟨rfl, rfl⟩
  | dropPermit =>
      simp only [Connection.perform]
      split <;> exact ⟨rfl, rfl⟩
  | _ => exact ⟨rfl, rfl⟩

theorem TerminateStep.accepted_eq {pc pc' : TerminatePc} (h : TerminateStep s pc op pc') :
    (s.perform op).accepted = s.accepted :=
  (accepted_perform (h.legal : Legal s (some 0) op)).1

theorem TerminateEnd.accepted_eq {pc : TerminatePc} (h : TerminateEnd s pc op) :
    (s.perform op).accepted = s.accepted :=
  (accepted_perform (h.legal : Legal s (some 0) op)).1

/-- Nothing is taken between the reader's other states. -/
theorem Accepts.idle (haccepts : Accepts s) (hbefore : ∀ id result, s.reader ≠ .sending id result)
    {s' : Connection} (hafter : ∀ id result, s'.reader ≠ .sending id result)
    (heq : s'.accepted = s.accepted) : Accepts s' := by
  intro id
  rw [heq, haccepts]
  constructor
  · rintro ⟨result, h⟩
    exact absurd h (hbefore id result)
  · rintro ⟨result, h⟩
    exact absurd h (hafter id result)

theorem handled_ne_sending (frame : Frame) (id : Nat) (result : PendingResult) :
    handled frame ≠ .sending id result := by
  rw [handled]
  cases classify frame <;> simp

theorem EnvStep.accepts (h : EnvStep settings s op pc started) (haccepts : Accepts s) :
    Accepts { s.perform op with reader := pc } := by
  cases h with
  | started => exact haccepts
  | consume => exact haccepts
  | line hreading =>
      exact haccepts.idle (by simp [hreading]) (handled_ne_sending _) rfl
  | stop hreading => exact haccepts.idle (by simp [hreading]) (by simp) rfl
  | reader hreader =>
      generalize hpc : s.reader = reader at hreader
      cases hreader with
      | @take id result raw hmem =>
          intro other
          simp only [Connection.perform, Option.some.injEq, ReaderPc.sending.injEq]
          constructor
          · rintro rfl
            exact ⟨result, rfl, rfl⟩
          · rintro ⟨_, h, -⟩
            exact h
      | @deliver id result =>
          intro other
          simp [Connection.perform]
      | dropPermit =>
          refine haccepts.idle (by simp [hpc]) (by simp) ?_
          exact (accepted_perform (Legal.dropPermit : Legal s (some 0) _)).1
      | unsent hsource =>
          obtain rfl | rfl := hsource
          · exact haccepts.idle (by simp [hpc]) (by simp) rfl
          · exact haccepts.idle (by simp [hpc]) (by simp) rfl
      | terminate hterminate =>
          exact haccepts.idle (by simp [hpc]) (by simp) hterminate.accepted_eq
      | terminated hend => exact haccepts.idle (by simp [hpc]) (by simp) hend.accepted_eq
      | _ => exact haccepts.idle (by simp [hpc]) (by simp) rfl

end Reader

section Runs

variable (settings : Settings)

/-- Ownership in a configuration. -/
abbrev Owned (cfg : Config Connection Task) : Prop :=
  System.Holds (fun s => Sound s ∧ Accepts s) Owns cfg

theorem Sound.withReader {s : Connection} (h : Sound s) (pc : ReaderPc) : Sound { s with reader := pc } :=
  ⟨h.nodup, h.issued, h.unanswered, h.unissued⟩

theorem Owns.withReader {s : Connection} {i : Nat} {t : Task} (h : Owns s i t) (pc : ReaderPc) :
    Owns { s with reader := pc } i t :=
  ⟨h.owner, h.fresh, h.lock, h.removed, h.tidy⟩

theorem started_spawned {settings : Settings} {s : Connection} {i : Nat} {t t' : Task} {choice : Choice}
    {op : Operation} {started : List Task} (h : Step settings s i t choice op t' started) :
    ∀ u ∈ started, Started u := by
  cases h with
  | cleanup haction =>
      cases haction with
      | @spawn failure => simpa using Started.shutdown failure
      | _ => simp
  | _ => simp

theorem owned_stable :
    System.Stable (system settings) (fun _ _ => True) (fun _ => True) (fun s => Sound s ∧ Accepts s)
      Owns where
  act {cfg i choice t s' t' started} _ _ _ hact hshared hown := by
    obtain ⟨op, rfl, hstep⟩ := act_step hact
    have hlegal := hstep.legal hown
    refine ⟨⟨hshared.1.perform hlegal, ?_⟩, hstep.owns hshared.1 hown, ?_⟩
    · intro id
      rw [(accepted_perform hlegal).1, (accepted_perform hlegal).2]
      exact hshared.2 id
    · intro u hmem j
      exact (started_spawned hstep u hmem).owns _ j
  other {cfg i choice t s' t' started j u} _ _ _ hact _ hown hne _ hother := by
    obtain ⟨op, rfl, hstep⟩ := act_step hact
    exact hother.other (hstep.legal hown) (fun heq => hne (Option.some.inj heq).symm)
  env {cfg event s' started} _ _ henv hshared := by
    obtain ⟨op, pc, rfl, hstep⟩ := env_step henv
    have hlegal := hstep.legal hshared.2
    refine ⟨⟨(hshared.1.perform hlegal).withReader pc, hstep.accepts hshared.2⟩, ?_, ?_⟩
    · intro j u _ hown
      exact (hown.other hlegal (by simp)).withReader pc
    · intro u hmem j
      exact (hstep.started_mem u hmem).owns _ j

theorem owned_preserved : (system settings).Preserved (fun _ _ => True) Owned :=
  (owned_stable settings).preserved_self

theorem owned_start : Owned (start settings) := by
  refine ⟨⟨⟨?_, ?_, ?_, ?_⟩, ?_⟩, ?_⟩
  · exact List.nodup_nil
  · intro id hmem
    cases hmem
  · intro id hmem
    cases hmem
  · exact fun _ _ => ⟨rfl, rfl⟩
  · intro id
    simp [start, Connection.init]
  · intro i t htask
    cases htask

end Runs

end OpenaiRs.AppServer
