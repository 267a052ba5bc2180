import OpenaiRs.Rmcp.Executor

/-!
# What cancelled calls do

However the steps of calls and of `cancel` are interleaved, no wakeup is lost: where the token is cancelled and the
notification is done, every call to which it is attached ends after a few steps of its own, whatever the peer does. A
call sends one request at most, and cancels it at the peer at most once.
-/

namespace OpenaiRs.Rmcp

open Interleaving

variable {ρ : Type} {s s' : Shared} {i : ℕ} {call call' : Call ρ}

section Steps

/-- The steps of call `i`. -/
inductive CallStep (s : Shared) (i : ℕ) : Call ρ → Shared → Call ρ → Prop
  -- Before the peer is asked.
  | refuse {control n k} : control.cancellable = true → s.cancelled = true →
      CallStep s i ⟨control, .preflight, n, k⟩ s ⟨control, .refusing, n, k⟩
  | overdue {control n k} : control.timeout = some 0 →
      CallStep s i ⟨control, .preflight, n, k⟩ s ⟨control, .ended (.error (.timeout 0)), n, k⟩
  | begin {control n k} : (control.cancellable && s.cancelled) = false → control.timeout ≠ some 0 →
      CallStep s i ⟨control, .preflight, n, k⟩ s ⟨control, pollFresh control .enqueue, n, k⟩
  | refused {control n k} : CallStep s i ⟨control, .refusing, n, k⟩ { s with stopped := s.reason :: s.stopped }
      ⟨control, .ended (.error (.cancelled s.reason)), n, k⟩
  -- The cancellation.
  | subscribe {control phase n k} :
      CallStep s i ⟨control, .subscribing phase, n, k⟩ (s.register i) ⟨control, .checking phase, n, k⟩
  | see {control phase n k} : s.cancelled = true →
      CallStep s i ⟨control, .checking phase, n, k⟩ (s.forget i) ⟨control, .reading phase, n, k⟩
  | miss {control phase n k} : s.cancelled = false →
      CallStep s i ⟨control, .checking phase, n, k⟩ s ⟨control, .waiting phase, n, k⟩
  | sleep {control phase n k} : i ∈ s.waiters →
      CallStep s i ⟨control, .waiting phase, n, k⟩ s ⟨control, .timing phase, n, k⟩
  | wake {control phase n k} : i ∉ s.waiters →
      CallStep s i ⟨control, .waiting phase, n, k⟩ s ⟨control, .subscribing phase, n, k⟩
  | readEarly {control n k} : CallStep s i ⟨control, .reading .enqueue, n, k⟩
      { s with stopped := s.reason :: s.stopped } ⟨control, .ended (.error (.cancelled s.reason)), n, k⟩
  | readLate {control n k} : CallStep s i ⟨control, .reading .respond, n, k⟩
      { s with stopped := s.reason :: s.stopped } ⟨control, .withdrawing (.cancelled s.reason), n, k⟩
  -- The timer and the peer.
  | expire {control phase duration n k} : control.timeout = some duration →
      CallStep s i ⟨control, .timing phase, n, k⟩ (s.forget i) ⟨control, Rmcp.expire duration phase, n, k⟩
  | send {control n k} :
      CallStep s i ⟨control, .timing .enqueue, n, k⟩ (s.forget i) ⟨control, .receiving true, n + 1, k⟩
  | unsent {control error n k} :
      CallStep s i ⟨control, .timing .enqueue, n, k⟩ (s.forget i) ⟨control, .ended (.error error), n, k⟩
  | park {control phase n k} : CallStep s i ⟨control, .timing phase, n, k⟩ s ⟨control, .parked phase, n, k⟩
  | resumeEarly {control n k} :
      CallStep s i ⟨control, .parked .enqueue, n, k⟩ s ⟨control, pollAgain control .enqueue, n, k⟩
  | resumeLate {control n k} :
      CallStep s i ⟨control, .parked .respond, n, k⟩ s ⟨control, .receiving false, n, k⟩
  | receive {control fresh result n k} :
      CallStep s i ⟨control, .receiving fresh, n, k⟩ (s.forget i) ⟨control, .ended result, n, k⟩
  | pollFresh {control n k} :
      CallStep s i ⟨control, .receiving true, n, k⟩ s ⟨control, Rmcp.pollFresh control .respond, n, k⟩
  | pollAgain {control n k} :
      CallStep s i ⟨control, .receiving false, n, k⟩ s ⟨control, Rmcp.pollAgain control .respond, n, k⟩
  | withdraw {control error n k delivered} : delivered ≤ 1 →
      CallStep s i ⟨control, .withdrawing error, n, k⟩ s ⟨control, .ended (.error error), n, k + delivered⟩

theorem callStep_cases {choice : Choice ρ} (h : callStep s i choice call = some (s', call')) :
    CallStep s i call s' call' := by
  obtain ⟨control, pc, requests, cancellations⟩ := call
  rw [callStep] at h
  cases pc with
  | preflight =>
      dsimp only at h
      split at h
      · rename_i hcancel
        cases h
        obtain ⟨hcancellable, hcancelled⟩ := (Bool.and_eq_true _ _).mp hcancel
        exact .refuse hcancellable hcancelled
      · rename_i hcancel
        split at h
        · rename_i htimeout
          cases h
          exact .overdue htimeout
        · rename_i htimeout
          cases h
          exact .begin (Bool.eq_false_iff.mpr hcancel) htimeout
  | refusing =>
      cases h
      exact .refused
  | subscribing phase =>
      cases h
      exact .subscribe
  | checking phase =>
      dsimp only at h
      split at h
      · rename_i hcancelled
        cases h
        exact .see hcancelled
      · rename_i hcancelled
        cases h
        exact .miss (Bool.eq_false_iff.mpr hcancelled)
  | waiting phase =>
      cases h
      by_cases hmem : i ∈ s.waiters
      · rw [Call.move, if_pos hmem]
        exact .sleep hmem
      · rw [Call.move, if_neg hmem]
        exact .wake hmem
  | timing phase =>
      dsimp only at h
      split at h
      · rename_i duration htimeout helapsed
        cases h
        exact .expire htimeout
      · split at h
        · cases h
          exact .send
        · cases h
          exact .unsent
        · cases h
          exact .park
  | parked phase =>
      cases phase with
      | enqueue =>
          cases h
          exact .resumeEarly
      | respond =>
          cases h
          exact .resumeLate
  | receiving fresh =>
      dsimp only at h
      split at h
      · cases h
        exact .receive
      · cases h
        cases fresh with
        | true => exact .pollFresh
        | false => exact .pollAgain
  | reading phase =>
      cases h
      cases phase with
      | enqueue => exact .readEarly
      | respond => exact .readLate
  | withdrawing error =>
      cases h
      by_cases hdelivered : choice.delivered = true
      · rw [if_pos hdelivered]
        exact .withdraw (Nat.le_refl 1)
      · rw [if_neg hdelivered]
        exact .withdraw (Nat.zero_le 1)
  | ended result => cases h

/-- The steps of `cancel`. -/
inductive CancelStep (s : Shared) (reason : Option String) : CancelPc → Shared → CancelPc → Prop
  | store : CancelStep s reason .storing { s with reason := s.reason <|> reason } .swapping
  | set : s.cancelled = false →
      CancelStep s reason .swapping { s with cancelled := true, alarm := true } .notifying
  | late : s.cancelled = true → CancelStep s reason .swapping s .done
  | notify : CancelStep s reason .notifying { s with waiters := [], alarm := false } .done

theorem cancelStep_cases {reason : Option String} {pc pc' : CancelPc} (h : cancelStep s reason pc = some (s', pc')) :
    CancelStep s reason pc s' pc' := by
  cases pc with
  | storing =>
      cases h
      exact .store
  | swapping =>
      rw [cancelStep] at h
      split at h
      · rename_i hcancelled
        cases h
        exact .late hcancelled
      · rename_i hcancelled
        cases h
        exact .set (Bool.eq_false_iff.mpr hcancelled)
  | notifying =>
      cases h
      exact .notify
  | done => cases h

inductive TaskStep (s : Shared) (i : ℕ) : Task ρ → Shared → Task ρ → Prop
  | cancel {s' : Shared} {reason : Option String} {pc pc' : CancelPc} :
      CancelStep s reason pc s' pc' → TaskStep s i (.cancel reason pc) s' (.cancel reason pc')
  | call {s' : Shared} {call call' : Call ρ} : CallStep s i call s' call' → TaskStep s i (.call call) s' (.call call')

theorem act_cases {choice : Choice ρ} {task task' : Task ρ} {started : List (Task ρ)}
    (h : system.act s i task choice = some (s', task', started)) : TaskStep s i task s' task' ∧ started = [] := by
  cases task with
  | cancel reason pc =>
      obtain ⟨⟨s₁, pc₁⟩, hstep, heq⟩ := Option.map_eq_some_iff.mp h
      cases heq
      exact ⟨.cancel (cancelStep_cases hstep), rfl⟩
  | call call =>
      obtain ⟨⟨s₁, call₁⟩, hstep, heq⟩ := Option.map_eq_some_iff.mp h
      cases heq
      exact ⟨.call (callStep_cases hstep), rfl⟩

end Steps

section Invariants

/-- Where a call has an older `Notified`. -/
def Pc.Awaits : Pc ρ → Prop
  | .waiting _ => True
  | .timing _ => True
  | .parked _ => True
  | .receiving false => True
  | _ => False

/-- A call that waits for the notification will be notified, if the flag is set. -/
def Awake (s : Shared) (i : ℕ) (call : Call ρ) : Prop :=
  call.control.cancellable = true → call.pc.Awaits → i ∈ s.waiters → s.cancelled = false ∨ s.alarm = true

def Phase.asked : Phase → ℕ
  | .enqueue => 0
  | .respond => 1

/-- The requests that a call has sent where it stands. -/
def Pc.asked : Pc ρ → Option ℕ
  | .preflight => some 0
  | .refusing => some 0
  | .subscribing phase => some phase.asked
  | .checking phase => some phase.asked
  | .waiting phase => some phase.asked
  | .timing phase => some phase.asked
  | .parked phase => some phase.asked
  | .receiving _ => some 1
  | .reading phase => some phase.asked
  | .withdrawing _ => some 1
  | .ended _ => none

def BridgeError.IsLocal : BridgeError → Prop
  | .timeout _ => True
  | .cancelled _ => True
  | _ => False

/-- That a call has come to its end, or to the refusal of it. -/
def Pc.Refused : Pc ρ → Prop
  | .preflight => True
  | .refusing => True
  | .ended _ => True
  | _ => False

structure Counted (call : Call ρ) : Prop where
  asked : ∀ n, call.pc.asked = some n → call.requests = n ∧ call.cancellations = 0
  cancellations_le : call.cancellations ≤ call.requests
  requests_le : call.requests ≤ 1
  withdrawn : call.cancellations = 1 → ∃ error : BridgeError, call.pc = .ended (.error error) ∧ error.IsLocal
  withdrawing : ∀ error, call.pc = .withdrawing error → error.IsLocal
  overdue : call.control.timeout = some 0 → call.pc.Refused ∧ call.requests = 0

theorem CallStep.control_eq (h : CallStep s i call s' call') : call'.control = call.control := by
  cases h <;> rfl

/-- A step of a call leaves the token to the others as it was. -/
theorem CallStep.frame (h : CallStep s i call s' call') :
    s'.cancelled = s.cancelled ∧ s'.alarm = s.alarm ∧ s'.reason = s.reason ∧ ∀ j, j ≠ i → j ∈ s'.waiters → j ∈ s.waiters := by
  have hforget : ∀ j, j ≠ i → j ∈ (s.forget i).waiters → j ∈ s.waiters := fun j _ hmem => (List.mem_filter.mp hmem).1
  have hregister : ∀ j, j ≠ i → j ∈ (s.register i).waiters → j ∈ s.waiters := fun j hne hmem =>
    (List.mem_cons.mp hmem).resolve_left hne
  cases h with
  | subscribe => exact ⟨rfl, rfl, rfl, hregister⟩
  | see _ => exact ⟨rfl, rfl, rfl, hforget⟩
  | expire _ => exact ⟨rfl, rfl, rfl, hforget⟩
  | send => exact ⟨rfl, rfl, rfl, hforget⟩
  | unsent => exact ⟨rfl, rfl, rfl, hforget⟩
  | receive => exact ⟨rfl, rfl, rfl, hforget⟩
  | _ => exact ⟨rfl, rfl, rfl, fun _ _ hmem => hmem⟩

theorem Awake.step (hawake : Awake s i call) (h : CallStep s i call s' call') : Awake s' i call' := by
  have hpollFresh : ∀ {control : ExecutionControl} {phase : Phase} {n k : ℕ},
      Awake s i (⟨control, pollFresh control phase, n, k⟩ : Call ρ) := by
    intro control phase n k hcancellable hawaits
    rw [pollFresh, if_pos hcancellable] at hawaits
    exact hawaits.elim
  have hforget : ∀ {c : Call ρ}, Awake (s.forget i) i c := fun _ _ hmem =>
    absurd rfl (of_decide_eq_true (List.mem_filter.mp hmem).2)
  cases h with
  | begin _ _ => exact hpollFresh
  | miss hcancelled => exact fun _ _ _ => .inl hcancelled
  | sleep _ => exact fun hcancellable _ => hawake hcancellable trivial
  | see _ => exact hforget
  | expire _ => exact hforget
  | send => exact hforget
  | unsent => exact hforget
  | receive => exact hforget
  | park => exact fun hcancellable _ => hawake hcancellable trivial
  | resumeEarly => exact fun hcancellable _ => hawake hcancellable trivial
  | resumeLate => exact fun hcancellable _ => hawake hcancellable trivial
  | pollFresh => exact hpollFresh
  | pollAgain => exact fun hcancellable _ => hawake hcancellable trivial
  | _ => exact fun _ hawaits => hawaits.elim

theorem Awake.other {j : ℕ} {task task' : Task ρ} (hawake : Awake s i call) (h : TaskStep s j task s' task')
    (hne : i ≠ j) : Awake s' i call := by
  intro hcancellable hawaits hmem
  cases h with
  | cancel hstep =>
      cases hstep with
      | store => exact hawake hcancellable hawaits hmem
      | set _ => exact .inr rfl
      | late _ => exact hawake hcancellable hawaits hmem
      | notify => exact absurd hmem List.not_mem_nil
  | call hstep =>
      obtain ⟨hcancelled, halarm, -, hwaiters⟩ := hstep.frame
      rw [hcancelled, halarm]
      exact hawake hcancellable hawaits (hwaiters i hne hmem)

theorem asked_pollFresh (control : ExecutionControl) (phase : Phase) :
    (pollFresh control phase : Pc ρ).asked = some phase.asked ∧ ∀ error, pollFresh control phase ≠ (.withdrawing error : Pc ρ) := by
  rw [pollFresh]
  split
  · exact ⟨rfl, fun _ h => nomatch h⟩
  · exact ⟨rfl, fun _ h => nomatch h⟩

theorem asked_pollAgain (control : ExecutionControl) (phase : Phase) :
    (pollAgain control phase : Pc ρ).asked = some phase.asked ∧ ∀ error, pollAgain control phase ≠ (.withdrawing error : Pc ρ) := by
  rw [pollAgain]
  split
  · exact ⟨rfl, fun _ h => nomatch h⟩
  · exact ⟨rfl, fun _ h => nomatch h⟩

/-- Where a call stands before it cancels its request, or after it gave up without that. -/
theorem Counted.of_asked {control : ExecutionControl} {pc : Pc ρ} {n k : ℕ} (hn : n ≤ 1) (hk : k = 0)
    (hasked : ∀ m, pc.asked = some m → n = m) (hpc : ∀ error, pc ≠ .withdrawing error)
    (hoverdue : control.timeout = some 0 → pc.Refused ∧ n = 0) : Counted (⟨control, pc, n, k⟩ : Call ρ) := by
  subst hk
  exact ⟨fun m hm => ⟨hasked m hm, rfl⟩, Nat.zero_le n, hn, fun h => absurd h Nat.zero_ne_one,
    fun error h => absurd h (hpc error), hoverdue⟩

theorem Counted.end {control : ExecutionControl} {pc : Pc ρ} {n k m : ℕ} (h : Counted (⟨control, pc, n, k⟩ : Call ρ))
    (hasked : pc.asked = some m) (result : Except BridgeError ρ) : Counted (⟨control, .ended result, n, k⟩ : Call ρ) :=
  .of_asked h.requests_le (h.asked m hasked).2 (fun _ hm => nomatch hm) (fun _ hpc => nomatch hpc)
    fun htimeout => ⟨trivial, (h.overdue htimeout).2⟩

/-- Moves between places with the same number of requests. -/
theorem Counted.move {control : ExecutionControl} {pc pc' : Pc ρ} {n k m : ℕ}
    (h : Counted (⟨control, pc, n, k⟩ : Call ρ)) (hasked : pc.asked = some m)
    (hpc : pc'.asked = some m ∧ ∀ error, pc' ≠ .withdrawing error)
    (hrefused : control.timeout = some 0 → pc.Refused → pc'.Refused) : Counted (⟨control, pc', n, k⟩ : Call ρ) := by
  obtain ⟨hn, hk⟩ := h.asked m hasked
  refine .of_asked h.requests_le hk ?_ hpc.2 ?_
  · intro m' hm'
    rw [hpc.1] at hm'
    exact hn.trans (Option.some.inj hm')
  · intro htimeout
    obtain ⟨hpcRefused, hzero⟩ := h.overdue htimeout
    exact ⟨hrefused htimeout hpcRefused, hzero⟩

/-- A call that cancels its request. -/
theorem Counted.withdraws {control : ExecutionControl} {pc : Pc ρ} {n k : ℕ} {error : BridgeError}
    (h : Counted (⟨control, pc, n, k⟩ : Call ρ)) (hasked : pc.asked = some 1) (hpc : ¬ pc.Refused)
    (herror : error.IsLocal) : Counted (⟨control, .withdrawing error, n, k⟩ : Call ρ) := by
  obtain ⟨rfl, rfl⟩ := h.asked 1 hasked
  refine ⟨?_, Nat.zero_le 1, Nat.le_refl 1, fun h => absurd h Nat.zero_ne_one, ?_, ?_⟩
  · rintro m ⟨⟩
    exact ⟨rfl, rfl⟩
  · rintro error' ⟨⟩
    exact herror
  · exact fun htimeout => absurd (h.overdue htimeout).1 hpc

theorem Counted.step (hcounted : Counted call) (h : CallStep s i call s' call') : Counted call' := by
  cases h with
  | refuse _ _ => exact hcounted.move rfl ⟨rfl, fun _ h => nomatch h⟩ fun _ h => h
  | overdue _ => exact hcounted.end rfl _
  | begin _ htimeout => exact hcounted.move rfl (asked_pollFresh _ _) fun h => absurd h htimeout
  | refused => exact hcounted.end rfl _
  | subscribe => exact hcounted.move rfl ⟨rfl, fun _ h => nomatch h⟩ fun _ h => h
  | see _ => exact hcounted.move rfl ⟨rfl, fun _ h => nomatch h⟩ fun _ h => h
  | miss _ => exact hcounted.move rfl ⟨rfl, fun _ h => nomatch h⟩ fun _ h => h
  | sleep _ => exact hcounted.move rfl ⟨rfl, fun _ h => nomatch h⟩ fun _ h => h
  | wake _ => exact hcounted.move rfl ⟨rfl, fun _ h => nomatch h⟩ fun _ h => h
  | readEarly => exact hcounted.end rfl _
  | readLate => exact hcounted.withdraws rfl id trivial
  | @expire control phase duration n k htimeout =>
      cases phase with
      | enqueue => exact hcounted.end rfl _
      | respond => exact hcounted.withdraws rfl id trivial
  | send =>
      obtain ⟨rfl, rfl⟩ := hcounted.asked 0 rfl
      refine .of_asked (Nat.le_refl 1) rfl ?_ (fun _ h => nomatch h) fun htimeout => (hcounted.overdue htimeout).1.elim
      rintro m ⟨⟩
      rfl
  | unsent => exact hcounted.end rfl _
  | park => exact hcounted.move rfl ⟨rfl, fun _ h => nomatch h⟩ fun _ h => h
  | resumeEarly => exact hcounted.move rfl (asked_pollAgain _ _) fun _ h => h.elim
  | resumeLate => exact hcounted.move rfl ⟨rfl, fun _ h => nomatch h⟩ fun _ h => h
  | receive => exact hcounted.end rfl _
  | pollFresh => exact hcounted.move rfl (asked_pollFresh _ _) fun _ h => h.elim
  | pollAgain => exact hcounted.move rfl (asked_pollAgain _ _) fun _ h => h.elim
  | @withdraw control error n k delivered hdelivered =>
      obtain ⟨rfl, rfl⟩ := hcounted.asked 1 rfl
      refine ⟨?_, ?_, Nat.le_refl 1, ?_, ?_, ?_⟩
      · intro m hm
        cases hm
      · rw [Nat.zero_add]
        exact hdelivered
      · exact fun _ => ⟨error, rfl, hcounted.withdrawing error rfl⟩
      · intro error' hpc
        cases hpc
      · exact fun htimeout => (hcounted.overdue htimeout).1.elim

def Task.Holds (s : Shared) (i : ℕ) : Task ρ → Prop
  | .cancel _ _ => True
  | .call call => Awake s i call ∧ Counted call

/-- Every call that was stopped got the first reason, or none. -/
def Reasons (s : Shared) : Prop := ∀ reason ∈ s.stopped, reason = none ∨ reason = s.reason

theorem Reasons.step {task task' : Task ρ} (hreasons : Reasons s) (h : TaskStep s i task s' task') : Reasons s' := by
  have hstop : Reasons { s with stopped := s.reason :: s.stopped } := fun reason hmem =>
    (List.mem_cons.mp hmem).elim .inr (hreasons reason)
  cases h with
  | cancel hstep =>
      cases hstep with
      | store =>
          intro reason hmem
          rcases hreasons reason hmem with hnone | hfirst
          · exact .inl hnone
          · cases hreason : s.reason with
            | none => exact .inl (hfirst.trans hreason)
            | some first =>
                refine .inr ?_
                rw [hfirst, hreason]
                rfl
      | set _ => exact hreasons
      | late _ => exact hreasons
      | notify => exact hreasons
  | call hstep =>
      cases hstep with
      | refused => exact hstop
      | readEarly => exact hstop
      | readLate => exact hstop
      | _ => exact hreasons

theorem Task.Holds.other {j : ℕ} {task task' other : Task ρ} (hother : other.Holds s i) (h : TaskStep s j task s' task')
    (hne : i ≠ j) : other.Holds s' i := by
  cases other with
  | cancel _ _ => trivial
  | call call => exact ⟨hother.1.other h hne, hother.2⟩

theorem Task.Holds.started (s : Shared) (i : ℕ) (event : Outside) : (event.task : Task ρ).Holds s i := by
  cases event with
  | call control =>
      refine ⟨fun _ h => h.elim, .of_asked (Nat.zero_le 1) rfl ?_ (fun _ h => nomatch h) fun _ => ⟨trivial, rfl⟩⟩
      rintro m ⟨⟩
      rfl
  | cancel reason =>
      cases reason with
      | none => trivial
      | some reason => trivial

theorem stable_calls : System.Stable (system : System Shared (Task ρ) (Choice ρ) Outside) (fun _ _ => True) (fun _ => True) Reasons
    (fun s i task => task.Holds s i) where
  act _ _ _ hact hshared hlocal := by
    obtain ⟨hstep, rfl⟩ := act_cases hact
    refine ⟨hshared.step hstep, ?_, fun _ h => absurd h List.not_mem_nil⟩
    cases hstep with
    | cancel _ => trivial
    | call hstep => exact ⟨hlocal.1.step hstep, hlocal.2.step hstep⟩
  other _ _ _ hact _ _ hne _ hother := hother.other (act_cases hact).1 hne
  env := by
    intro cfg event shared started _ _ henv hshared
    cases henv
    refine ⟨hshared, fun _ _ _ h => h, ?_⟩
    intro task hmem j
    rw [List.mem_singleton.mp hmem]
    exact .started _ j event

end Invariants

section Runs

variable {cfg : Config Shared (Task ρ)}

/-- Facts that hold of the shared state and of every task. -/
abbrev Sound (cfg : Config Shared (Task ρ)) : Prop := System.Holds Reasons (fun s i task => task.Holds s i) cfg

theorem sound_run (events : List (Event (Choice ρ) Outside)) : Sound (system.run start events) :=
  stable_calls.preserved_self.run_free ⟨fun _ h => absurd h List.not_mem_nil,
    fun _ _ h => absurd h (by simp [start])⟩ events

def Task.Notifies : Task ρ → Prop
  | .cancel _ .notifying => True
  | _ => False

/-- Where tasks are still to be notified, some `cancel` is about to do it. -/
def Armed (cfg : Config Shared (Task ρ)) : Prop := cfg.shared.alarm = true → ∃ task ∈ cfg.tasks, task.Notifies

theorem preserved_armed : System.Preserved (system : System Shared (Task ρ) (Choice ρ) Outside) (fun _ _ => True) Armed := by
  intro cfg event harmed _
  have hmoves := system.exec_moves cfg event
  generalize system.exec cfg event = cfg' at hmoves
  cases hmoves with
  | still => exact harmed
  | @act i choice task task' shared started htask hact =>
      obtain ⟨hstep, rfl⟩ := act_cases hact
      intro halarm
      cases hstep with
      | cancel hstep =>
          cases hstep with
          | store => exact System.exists_mem_set_append htask (harmed halarm) id
          | set _ =>
              refine ⟨_, List.mem_append_left _ (List.mem_set (List.getElem?_eq_some_iff.mp htask).1 _), ?_⟩
              trivial
          | late _ => exact System.exists_mem_set_append htask (harmed halarm) id
          | notify => cases halarm
      | call hstep =>
          rw [hstep.frame.2.1] at halarm
          exact System.exists_mem_set_append htask (harmed halarm) id
  | env henv =>
      cases henv
      intro halarm
      obtain ⟨task, hmem, hnotifies⟩ := harmed halarm
      exact ⟨task, List.mem_append_left _ hmem, hnotifies⟩

/-- Where a call stands, counted back from its end for a token that is cancelled. -/
def Pc.rank : Pc ρ → ℕ
  | .preflight => 9
  | .timing _ => 8
  | .parked _ => 7
  | .receiving _ => 6
  | .waiting _ => 5
  | .subscribing _ => 4
  | .checking _ => 3
  | .reading _ => 2
  | .refusing => 1
  | .withdrawing _ => 1
  | .ended _ => 0

/-- With a cancelled token every step of a call leads towards its end. -/
theorem CallStep.rank_lt (h : CallStep s i call s' call') (hcancellable : call.control.cancellable = true)
    (hcancelled : s.cancelled = true) (hwoken : call.pc.Awaits → i ∉ s.waiters) : call'.pc.rank < call.pc.rank := by
  cases h with
  | begin hcancel _ =>
      rw [hcancellable, hcancelled] at hcancel
      cases hcancel
  | miss hmiss =>
      rw [hcancelled] at hmiss
      cases hmiss
  | sleep hmem => exact absurd hmem (hwoken trivial)
  | @expire control phase _ _ _ _ =>
      cases phase with
      | enqueue => exact of_decide_eq_true rfl
      | respond => exact of_decide_eq_true rfl
  | resumeEarly =>
      rw [Rmcp.pollAgain, if_pos hcancellable]
      exact of_decide_eq_true rfl
  | pollFresh =>
      rw [Rmcp.pollFresh, if_pos hcancellable]
      exact of_decide_eq_true rfl
  | pollAgain =>
      rw [Rmcp.pollAgain, if_pos hcancellable]
      exact of_decide_eq_true rfl
  | _ => exact of_decide_eq_true rfl

/-- Every call that has not ended can take a step, whatever it finds. -/
theorem callStep_isSome {choice : Choice ρ} (h : ∀ result, call.pc ≠ .ended result) :
    ∃ s' call', callStep s i choice call = some (s', call') := by
  obtain ⟨control, pc, n, k⟩ := call
  rw [callStep]
  cases pc with
  | preflight =>
      dsimp only
      split_ifs
      · exact ⟨_, _, rfl⟩
      · exact ⟨_, _, rfl⟩
      · exact ⟨_, _, rfl⟩
  | checking phase =>
      dsimp only
      split_ifs
      · exact ⟨_, _, rfl⟩
      · exact ⟨_, _, rfl⟩
  | timing phase =>
      dsimp only
      split
      · exact ⟨_, _, rfl⟩
      · split
        · exact ⟨_, _, rfl⟩
        · exact ⟨_, _, rfl⟩
        · exact ⟨_, _, rfl⟩
  | parked phase =>
      cases phase with
      | enqueue => exact ⟨_, _, rfl⟩
      | respond => exact ⟨_, _, rfl⟩
  | receiving fresh =>
      dsimp only
      split
      · exact ⟨_, _, rfl⟩
      · exact ⟨_, _, rfl⟩
  | ended result => exact absurd rfl (h result)
  | _ => exact ⟨_, _, rfl⟩

/-- A token that is cancelled stays so, and notifies no more. -/
theorem TaskStep.cancelled {task task' : Task ρ} (h : TaskStep s i task s' task') (hcancelled : s.cancelled = true) :
    s'.cancelled = true ∧ (s.alarm = false → s'.alarm = false) := by
  cases h with
  | cancel hstep =>
      cases hstep with
      | store => exact ⟨hcancelled, id⟩
      | set hset =>
          rw [hcancelled] at hset
          cases hset
      | late _ => exact ⟨hcancelled, id⟩
      | notify => exact ⟨hcancelled, fun _ => rfl⟩
  | call hstep =>
      obtain ⟨hcancelled', halarm', -, -⟩ := hstep.frame
      exact ⟨hcancelled'.trans hcancelled, halarm'.trans⟩

/-- The token is cancelled, and all tasks have been notified. -/
def Quiet (cfg : Config Shared (Task ρ)) : Prop :=
  Sound cfg ∧ cfg.shared.cancelled = true ∧ cfg.shared.alarm = false

theorem preserved_quiet : System.Preserved (system : System Shared (Task ρ) (Choice ρ) Outside) (fun _ _ => True) Quiet := by
  rintro cfg event ⟨hsound, hcancelled, halarm⟩ _
  refine ⟨stable_calls.preserved_self cfg event hsound trivial, ?_⟩
  have hmoves := system.exec_moves cfg event
  generalize system.exec cfg event = cfg' at hmoves
  cases hmoves with
  | still => exact ⟨hcancelled, halarm⟩
  | act _ hact =>
      obtain ⟨hcancelled', halarm'⟩ := (act_cases hact).1.cancelled hcancelled
      exact ⟨hcancelled', halarm' halarm⟩
  | env henv =>
      cases henv
      exact ⟨hcancelled, halarm⟩

/-- That an event is a step of the task. -/
def actsOn (i : ℕ) : Event (Choice ρ) Outside → Bool
  | .act k _ => k = i
  | .env _ => false

theorem exists_of_actsOn {event : Event (Choice ρ) Outside} (h : actsOn i event = true) :
    ∃ choice, event = .act i choice := by
  cases event with
  | act k choice => exact ⟨choice, by rw [of_decide_eq_true h]⟩
  | env event => cases h

/-- Steps of the others leave a task where it is. -/
theorem task_of_not_actsOn {event : Event (Choice ρ) Outside} {task : Task ρ} (h : actsOn i event = false)
    (htask : cfg.tasks[i]? = some task) : (system.exec cfg event).tasks[i]? = some task := by
  have hmoves := system.exec_movesTask htask event
  generalize system.exec cfg event = cfg' at hmoves
  cases hmoves with
  | still => exact htask
  | own _ _ => exact absurd rfl (of_decide_eq_false h)
  | other hne _ _ => exact System.getElem?_set_append_ne hne htask
  | env _ => exact System.getElem?_append_of_eq_some htask

/-- A call in a quiet configuration ends within as many steps of its own as its rank says. -/
theorem ends_of_rank_le {events : List (Event (Choice ρ) Outside)} (hquiet : Quiet cfg)
    (htask : cfg.tasks[i]? = some (.call call)) (hcancellable : call.control.cancellable = true)
    (hrank : call.pc.rank ≤ events.countP (actsOn i)) :
    ∃ ended result, (system.run cfg events).tasks[i]? = some (.call ended) ∧ ended.pc = .ended result := by
  induction events generalizing cfg call with
  | nil =>
      obtain ⟨control, pc, n, k⟩ := call
      cases pc with
      | ended result => exact ⟨_, result, htask, rfl⟩
      | _ => exact absurd hrank (by simp [Pc.rank])
  | cons event rest ih =>
      have hquiet' := preserved_quiet cfg event hquiet trivial
      change ∃ ended result, (system.run (system.exec cfg event) rest).tasks[i]? = some (.call ended) ∧ _
      rw [List.countP_cons] at hrank
      by_cases hacts : actsOn i event = true
      · obtain ⟨choice, rfl⟩ := exists_of_actsOn hacts
        rw [if_pos hacts] at hrank
        by_cases hended : ∃ result, call.pc = .ended result
        · obtain ⟨control, pc, n, k⟩ := call
          obtain ⟨result, rfl⟩ := hended
          have hstill : system.exec cfg (.act i choice) = cfg := by
            rw [System.exec, htask]
            rfl
          rw [hstill]
          exact ih hquiet htask hcancellable (Nat.zero_le _)
        · obtain ⟨s', call', hstep⟩ := callStep_isSome (not_exists.mp hended)
          have hact : system.act cfg.shared i (.call call) choice = some (s', .call call', []) :=
            Option.map_eq_some_iff.mpr ⟨_, hstep, rfl⟩
          have hmoved := callStep_cases hstep
          have hawake := (hquiet.1.tasks i _ htask).1
          have hlt := hmoved.rank_lt hcancellable hquiet.2.1 fun hawaits hmem => by
            rcases hawake hcancellable hawaits hmem with hcancelled | halarm
            · rw [hquiet.2.1] at hcancelled
              cases hcancelled
            · rw [hquiet.2.2] at halarm
              cases halarm
          have htask' : (system.exec cfg (.act i choice)).tasks[i]? = some (.call call') := by
            rw [system.exec_act htask hact, List.append_nil]
            exact List.getElem?_set_self (List.getElem?_eq_some_iff.mp htask).1
          refine ih hquiet' htask' (by rwa [hmoved.control_eq]) ?_
          omega
      · rw [if_neg hacts] at hrank
        exact ih hquiet' (task_of_not_actsOn (Bool.eq_false_iff.mpr hacts) htask) hcancellable hrank

/-- Where the token is cancelled and no `cancel` is still to notify, every call with the token ends after at most nine
steps of its own. -/
theorem cancelled_calls_end (events more : List (Event (Choice ρ) Outside))
    (hcancelled : (system.run start events).shared.cancelled = true)
    (hnotified : ∀ task ∈ (system.run start events).tasks, ¬ task.Notifies)
    (htask : (system.run start events).tasks[i]? = some (.call call)) (hcancellable : call.control.cancellable = true)
    (hsteps : 9 ≤ more.countP (actsOn i)) :
    ∃ ended result, (system.run start (events ++ more)).tasks[i]? = some (.call ended) ∧ ended.pc = .ended result := by
  have hsound := sound_run events
  have harmed : Armed (system.run start events) :=
    preserved_armed.run_free (by intro h; cases h) events
  have halarm : (system.run start events).shared.alarm = false := by
    rw [Bool.eq_false_iff]
    intro halarm
    obtain ⟨task, hmem, hnotifies⟩ := harmed halarm
    exact hnotified task hmem hnotifies
  have hrank : call.pc.rank ≤ 9 := by
    cases call.pc <;> exact of_decide_eq_true rfl
  rw [system.run_append]
  exact ends_of_rank_le ⟨hsound, hcancelled, halarm⟩ htask hcancellable (Nat.le_trans hrank hsteps)

/-- A step that finds nothing. -/
def idle : Choice Unit := ⟨false, none, none, false⟩

/-- A call without a deadline waits for its response when it is cancelled. -/
def waitingEvents : List (Event (Choice Unit) Outside) :=
  [.env (.call ⟨none, true⟩), .act 0 idle, .act 0 idle, .act 0 idle, .act 0 idle,
    .act 0 ⟨false, some (.ok ()), none, false⟩, .act 0 idle, .act 0 idle, .act 0 idle, .act 0 idle, .act 0 idle,
    .env (.cancel (some "caller stopped")), .act 1 idle, .act 1 idle, .act 1 idle]

theorem cancelled_calls_end_waiting :
    ∃ ended result, (system.run start (waitingEvents ++ List.replicate 9 (.act 0 idle))).tasks[0]? = some (.call ended) ∧
      ended.pc = .ended result := by
  have htasks : (system.run start waitingEvents).tasks =
      [.call ⟨⟨none, true⟩, .parked .respond, 1, 0⟩, .cancel (some "caller stopped") .done] := rfl
  have htask : (system.run start waitingEvents).tasks[0]? = some (.call ⟨⟨none, true⟩, .parked .respond, 1, 0⟩) := by
    rw [htasks]
    rfl
  refine cancelled_calls_end waitingEvents (List.replicate 9 (.act 0 idle)) rfl ?_ htask rfl (by decide)
  intro task hmem
  rw [htasks] at hmem
  simp only [List.mem_cons, List.not_mem_nil, or_false] at hmem
  rcases hmem with rfl | rfl
  · exact id
  · exact id

/-- A call that starts where its token is cancelled. -/
def RefusedCall (i : ℕ) (cfg : Config Shared (Task ρ)) : Prop :=
  cfg.shared.cancelled = true ∧ ∃ call, cfg.tasks[i]? = some (.call call) ∧ call.control.cancellable = true ∧
    call.pc.Refused ∧ call.requests = 0

theorem preserved_refusedCall (i : ℕ) : System.Preserved (system : System Shared (Task ρ) (Choice ρ) Outside) (fun _ _ => True) (RefusedCall i) := by
  rintro cfg event ⟨hcancelled, call, htask, hcancellable, hrefused, hrequests⟩ _
  have hmoves := system.exec_movesTask htask event
  generalize system.exec cfg event = cfg' at hmoves
  cases hmoves with
  | still => exact ⟨hcancelled, call, htask, hcancellable, hrefused, hrequests⟩
  | own hact htask' =>
      obtain ⟨hstep, rfl⟩ := act_cases hact
      refine ⟨(hstep.cancelled hcancelled).1, ?_⟩
      cases hstep with
      | call hmoved =>
          refine ⟨_, htask', hmoved.control_eq ▸ hcancellable, ?_⟩
          cases hmoved with
          | refuse _ _ => exact ⟨trivial, hrequests⟩
          | overdue _ => exact ⟨trivial, hrequests⟩
          | begin hcancel _ =>
              rw [hcancellable, hcancelled] at hcancel
              cases hcancel
          | refused => exact ⟨trivial, hrequests⟩
          | _ => exact hrefused.elim
  | other hne _ hact =>
      refine ⟨((act_cases hact).1.cancelled hcancelled).1, call, ?_, hcancellable, hrefused, hrequests⟩
      exact System.getElem?_set_append_ne hne htask
  | env henv =>
      cases henv
      exact ⟨hcancelled, call, System.getElem?_append_of_eq_some htask, hcancellable, hrefused, hrequests⟩

/-- What a run of calls sends to the peer, and the reasons it gives. -/
theorem calls_ask_once (events more : List (Event (Choice ρ) Outside)) :
    (∀ (i : ℕ) (call : Call ρ), (system.run start events).tasks[i]? = some (.call call) →
      call.cancellations ≤ call.requests ∧ call.requests ≤ 1 ∧
        (call.cancellations = 1 → ∃ error : BridgeError, call.pc = .ended (.error error) ∧ error.IsLocal) ∧
        (call.control.timeout = some 0 → call.requests = 0) ∧
        (call.pc = .preflight → call.control.cancellable = true → (system.run start events).shared.cancelled = true →
          ∃ later : Call ρ, (system.run start (events ++ more)).tasks[i]? = some (.call later) ∧ later.requests = 0)) ∧
      ∀ reason ∈ (system.run start events).shared.stopped,
        reason = none ∨ reason = (system.run start events).shared.reason := by
  have hsound := sound_run events
  refine ⟨?_, hsound.shared⟩
  intro i call htask
  obtain ⟨-, hcounted⟩ := hsound.tasks i _ htask
  refine ⟨hcounted.cancellations_le, hcounted.requests_le, hcounted.withdrawn,
    fun htimeout => (hcounted.overdue htimeout).2, ?_⟩
  intro hpc hcancellable hcancelled
  rw [system.run_append]
  have hrequests : call.requests = 0 := (hcounted.asked 0 (by rw [hpc]; rfl)).1
  obtain ⟨-, later, hlater, -, -, hzero⟩ := (preserved_refusedCall i).run_free
    ⟨hcancelled, call, htask, hcancellable, by rw [hpc]; trivial, hrequests⟩ more
  exact ⟨later, hlater, hzero⟩

end Runs

end OpenaiRs.Rmcp
