import OpenaiRs.WorkloadIdentity.Epochs

/-!
# Refreshes are single-flight and strand nobody

The refresh in the slot has a task that has not finished, and a parked call waits for it unless it
has been notified or is about to be. Per epoch at most one refresh runs, as long as the numbers of
refreshes do not wrap around.
-/

namespace OpenaiRs.WorkloadIdentity

open Interleaving

section Mutex

/-- The refresh whose critical section is still ahead of the task. -/
def Task.unfinished : Task → Option RefreshInFlight
  | .refresh r .exchanging => some r
  | .refresh r (.finishing _) => some r
  | .refresh r (.storing _) => some r
  | _ => none

/-- The task has released the mutex and not called `notify_waiters` yet. -/
def Task.Notifying : Task → Prop
  | .invalidate _ .notifying => True
  | .refresh _ .notifying => True
  | _ => False

/-- Who stands in a critical section holds the mutex, and the refresh that it waits for is in the
slot. -/
def Task.Guarded (m : Auth) (i : Nat) : Task → Prop
  | .token .inspecting => m.monitor.holder = some i
  | .token (.enabling refreshId) =>
      m.monitor.holder = some i ∧ ∃ r, m.state.refreshing = some r ∧ r.id = refreshId
  | .token (.unlocking refreshId) =>
      m.monitor.holder = some i ∧ ∃ r, m.state.refreshing = some r ∧ r.id = refreshId
  | .token (.checking _) => m.monitor.holder = some i
  | .invalidate _ .comparing => m.monitor.holder = some i
  | .refresh _ (.storing _) => m.monitor.holder = some i
  | _ => True

variable {fromStr : String → Option String} {m m' : Auth} {i j : Nat} {t t' u : Task} {started : List Task}

theorem guarded_ofResult (result : Except Error TokenLease) :
    (Task.token (.ofResult result)).Guarded m i := by
  cases result <;> trivial

/-- A task that holds the mutex is not disturbed by the others. -/
theorem Step.undisturbed (hstep : Step fromStr m i t m' t' started) (ht : t.Guarded m i)
    (hholder : m.monitor.holder = some j) (hne : j ≠ i) :
    m'.state = m.state ∧ m'.monitor.holder = some j := by
  have hother : m.monitor.holder ≠ some i := by
    rw [hholder]
    exact fun heq => hne (Option.some.inj heq)
  cases hstep with
  | silent _ => exact ⟨rfl, hholder⟩
  | enter _ hfree =>
      rw [hholder] at hfree
      cases hfree
  | notify _ => exact ⟨rfl, hholder⟩
  | enable => exact ⟨rfl, hholder⟩
  | dropParked => exact ⟨rfl, hholder⟩
  | park => exact absurd ht.1 hother
  | _ => exact absurd ht hother

theorem Task.Guarded.keep (hu : u.Guarded m j)
    (hkeep : m.monitor.holder = some j → m'.state = m.state ∧ m'.monitor.holder = some j) :
    u.Guarded m' j := by
  cases u with
  | token pc =>
      cases pc with
      | inspecting => exact (hkeep hu).2
      | checking refreshId => exact (hkeep hu).2
      | enabling refreshId =>
          obtain ⟨hstate, hholder⟩ := hkeep hu.1
          exact ⟨hholder, hstate ▸ hu.2⟩
      | unlocking refreshId =>
          obtain ⟨hstate, hholder⟩ := hkeep hu.1
          exact ⟨hholder, hstate ▸ hu.2⟩
      | _ => trivial
  | invalidate generation pc =>
      cases pc with
      | comparing => exact (hkeep hu).2
      | _ => trivial
  | refresh refresh pc =>
      cases pc with
      | storing result => exact (hkeep hu).2
      | _ => trivial

/-- A step keeps what its task knows. -/
theorem Step.guarded (hstep : Step fromStr m i t m' t' started) (ht : t.Guarded m i) :
    t'.Guarded m' i ∧ ∀ u ∈ started, ∀ j, u.Guarded m' j := by
  have hfresh : ∀ u ∈ [Task.refresh m.state.nextRefresh .exchanging], ∀ j, u.Guarded m' j := by
    intro u hu j
    rw [List.mem_singleton.mp hu]
    trivial
  cases hstep with
  | silent hsilent =>
      refine ⟨?_, by simp⟩
      cases hsilent <;> trivial
  | enter henters _ =>
      refine ⟨?_, by simp⟩
      cases henters <;> rfl
  | notify hnotifies =>
      refine ⟨?_, by simp⟩
      cases hnotifies <;> trivial
  | enable => exact ⟨ht, by simp⟩
  | lease _ _ => exact ⟨guarded_ofResult _, by simp⟩
  | leaseAndBegin _ _ _ _ => exact ⟨guarded_ofResult _, hfresh⟩
  | @join refreshing _ hrefreshing => exact ⟨⟨ht, refreshing, hrefreshing, rfl⟩, by simp⟩
  | «begin» _ _ => exact ⟨⟨ht, m.state.nextRefresh, rfl, rfl⟩, hfresh⟩
  | _ => exact ⟨trivial, by simp⟩

abbrev GuardedRun : Config Auth Task → Prop := System.Holds (fun _ => True) fun m i t => t.Guarded m i

theorem guarded_stable : System.Stable (system fromStr) (fun _ _ => True) (fun _ => True) (fun _ => True)
    fun m i t => t.Guarded m i where
  act := by
    intro cfg i choice t m' t' started _ _ _ hact _ ht
    obtain ⟨ht', hstarted⟩ := (act_step hact).guarded ht
    exact ⟨trivial, ht', hstarted⟩
  other := by
    intro cfg i choice t m' t' started j u _ _ _ hact _ ht hne _ hu
    exact hu.keep fun hholder => (act_step hact).undisturbed ht hholder hne
  env := by
    intro cfg event m' started _ _ henv _
    obtain ⟨hmonitor, -, -, hstarted⟩ := env_quiet henv
    have hkeep : ∀ j, cfg.shared.monitor.holder = some j →
        m'.state = cfg.shared.state ∧ m'.monitor.holder = some j := by
      intro j hholder
      rw [Auth.state, hmonitor]
      exact ⟨rfl, hholder⟩
    refine ⟨trivial, fun j u _ hu => hu.keep (hkeep j), fun u hu _ => ?_⟩
    cases hstarted u hu <;> trivial

theorem guarded_preserved : (system fromStr).Preserved (fun _ _ => True) GuardedRun :=
  guarded_stable.preserved_self

end Mutex

section Waiting

variable {fromStr : String → Option String} {m m' : Auth} {i j : Nat} {t t' u : Task} {started : List Task}
  {refresh : RefreshInFlight} {cfg : Config Auth Task}

/-- The refresh in the slot has a task that has not finished. -/
def Served (cfg : Config Auth Task) : Prop :=
  ∀ refresh, cfg.shared.state.refreshing = some refresh → ∃ u ∈ cfg.tasks, u.unfinished = some refresh

/-- The refresh that a parked call waits for is in the slot, unless it was notified or is about to be. -/
def Awake (cfg : Config Auth Task) : Prop :=
  ∀ i refreshId, cfg.tasks[i]? = some (.token (.parked refreshId)) →
    i ∉ cfg.shared.monitor.waiters ∨
      (∃ refresh, cfg.shared.state.refreshing = some refresh ∧ refresh.id = refreshId) ∨
      ∃ u ∈ cfg.tasks, u.Notifying

/-- What a step does with the slot: it stays, and so does a task that has to clear it; or a refresh
begins; or it is cleared by a task that is going to wake the waiters. -/
theorem Step.slot (hstep : Step fromStr m i t m' t' started) :
    (m'.state.refreshing = m.state.refreshing ∧ ∀ refresh, m.state.refreshing = some refresh →
        t.unfinished = some refresh → t'.unfinished = some refresh) ∨
      (m.state.refreshing = none ∧ m'.state.refreshing = some m.state.nextRefresh ∧
        started = [.refresh m.state.nextRefresh .exchanging]) ∨
      (m'.state.refreshing = none ∧ t'.Notifying) := by
  cases hstep with
  | silent hsilent =>
      refine .inl ⟨rfl, fun _ _ h => ?_⟩
      cases hsilent <;> exact h
  | enter henters _ =>
      refine .inl ⟨rfl, fun _ _ h => ?_⟩
      cases henters <;> exact h
  | notify hnotifies =>
      refine .inl ⟨rfl, fun _ _ h => ?_⟩
      cases hnotifies <;> exact h
  | leaseAndBegin _ _ _ hnone => exact .inr (.inl ⟨hnone, rfl, rfl⟩)
  | «begin» _ hnone => exact .inr (.inl ⟨hnone, rfl, rfl⟩)
  | invalidate hinvalidate =>
      obtain hkept | hcleared := TokenState.refreshing_invalidate hinvalidate
      · exact .inl ⟨hkept, fun _ _ h => by cases h⟩
      · exact .inr (.inr ⟨hcleared, trivial⟩)
  | @finish refresh result =>
      rcases TokenState.refreshing_finishRefresh m.state refresh result with
        ⟨hkept, -, hother⟩ | ⟨hcleared, -, -⟩
      · refine .inl ⟨hkept, ?_⟩
        intro current hcurrent hunfinished
        rw [← Option.some.inj hunfinished] at hcurrent
        exact absurd rfl (hother refresh hcurrent)
      · exact .inr (.inr ⟨hcleared, trivial⟩)
  | _ => exact .inl ⟨rfl, fun _ _ h => by cases h⟩

/-- Only the task that acts is registered. -/
theorem Step.waiters (hstep : Step fromStr m i t m' t' started) (hne : j ≠ i)
    (hmem : j ∈ m'.monitor.waiters) : j ∈ m.monitor.waiters := by
  cases hstep with
  | notify _ => cases hmem
  | enable =>
      obtain rfl | hold := List.mem_cons.mp hmem
      · exact absurd rfl hne
      · exact hold
  | dropParked => exact (Monitor.mem_waiters_forget.mp hmem).1
  | _ => exact hmem

/-- A task that has cleared the slot wakes the waiters before it ends. -/
theorem Step.notifying (hstep : Step fromStr m i t m' t' started) (ht : t.Notifying) :
    m'.monitor.waiters = [] := by
  cases hstep with
  | notify _ => rfl
  | silent hsilent => cases hsilent <;> cases ht
  | enter henters _ => cases henters <;> cases ht
  | _ => cases ht

/-- A call parks in its own critical section. -/
theorem Step.parks {refreshId : UInt64}
    (hstep : Step fromStr m i t m' (.token (.parked refreshId)) started) :
    t = .token (.unlocking refreshId) ∧ m'.state = m.state := by
  generalize htarget : Task.token (.parked refreshId) = target at hstep
  cases hstep with
  | park =>
      cases htarget
      exact ⟨rfl, rfl⟩
  | silent hsilent => cases hsilent <;> cases htarget
  | enter henters _ => cases henters <;> cases htarget
  | notify hnotifies => cases hnotifies <;> cases htarget
  | @lease cached _ _ => cases hresult : tokenLease fromStr cached <;> rw [hresult] at htarget <;> cases htarget
  | @leaseAndBegin cached _ _ _ _ =>
      cases hresult : tokenLease fromStr cached <;> rw [hresult] at htarget <;> cases htarget
  | _ => cases htarget

/-- The tasks that a step starts are refreshes. -/
theorem Step.started_unfinished (hstep : Step fromStr m i t m' t' started) (hmem : u ∈ started) :
    u.unfinished = some m.state.nextRefresh := by
  cases hstep with
  | leaseAndBegin _ _ _ _ => rw [List.mem_singleton.mp hmem]; rfl
  | «begin» _ _ => rw [List.mem_singleton.mp hmem]; rfl
  | _ => cases hmem

theorem served_preserved : (system fromStr).Preserved (fun _ _ => True) Served := by
  intro cfg event hserved _
  have hmoves := (system fromStr).exec_moves cfg event
  generalize (system fromStr).exec cfg event = cfg' at hmoves
  cases hmoves with
  | still => exact hserved
  | @act i choice t t' m' started htask hact =>
      intro refresh hslot
      obtain ⟨hkept, hkeep⟩ | ⟨-, hbegun, rfl⟩ | ⟨hcleared, -⟩ := (act_step hact).slot
      · rw [hkept] at hslot
        exact System.exists_mem_set_append htask (hserved refresh hslot) (hkeep refresh hslot)
      · refine ⟨_, List.mem_append_right _ (.head _), ?_⟩
        rw [← hslot, hbegun]
        rfl
      · rw [hcleared] at hslot
        cases hslot
  | env henv =>
      intro refresh hslot
      rw [Auth.state, (env_quiet henv).1] at hslot
      obtain ⟨u, hmem, hu⟩ := hserved refresh hslot
      exact ⟨u, List.mem_append_left _ hmem, hu⟩

theorem awake_act {i : Nat} {t t' : Task} {m' : Auth} {started : List Task} (hawake : Awake cfg)
    (ht : t.Guarded cfg.shared i) (htask : cfg.tasks[i]? = some t)
    (hstep : Step fromStr cfg.shared i t m' t' started) : Awake ⟨m', cfg.tasks.set i t' ++ started⟩ := by
  intro j refreshId hparked
  obtain ⟨rfl, rfl⟩ | ⟨hne, hold⟩ | hstarted := System.getElem?_set_append htask hparked
  · -- The call has parked just now; its refresh was in the slot all the time.
    obtain ⟨rfl, hstate⟩ := hstep.parks
    obtain ⟨-, refresh, hslot, hid⟩ := ht
    exact .inr (.inl ⟨refresh, by rw [hstate]; exact hslot, hid⟩)
  · by_cases hwaits : j ∈ m'.monitor.waiters
    · obtain hnotified | ⟨refresh, hslot, hid⟩ | hnotifying := hawake j refreshId hold
      · exact absurd (hstep.waiters hne hwaits) hnotified
      · obtain ⟨hkept, -⟩ | ⟨hnone, -, -⟩ | ⟨-, hnotifying⟩ := hstep.slot
        · exact .inr (.inl ⟨refresh, by rw [hkept]; exact hslot, hid⟩)
        · rw [hnone] at hslot
          cases hslot
        · refine .inr (.inr ⟨t', List.mem_append_left _ ?_, hnotifying⟩)
          exact List.mem_set (List.getElem?_eq_some_iff.mp htask).1 t'
      · refine .inr (.inr (System.exists_mem_set_append htask hnotifying ?_))
        intro hacting
        rw [hstep.notifying hacting] at hwaits
        cases hwaits
    · exact .inl hwaits
  · have hunfinished := hstep.started_unfinished hstarted
    cases hunfinished

theorem awake_preserved :
    (system fromStr).Preserved (fun _ _ => True) fun cfg => GuardedRun cfg ∧ Awake cfg := by
  rintro cfg event ⟨hguarded, hawake⟩ _
  refine ⟨guarded_preserved cfg event hguarded trivial, ?_⟩
  have hmoves := (system fromStr).exec_moves cfg event
  generalize (system fromStr).exec cfg event = cfg' at hmoves
  cases hmoves with
  | still => exact hawake
  | act htask hact => exact awake_act hawake (hguarded.tasks _ _ htask) htask (act_step hact)
  | @env event m' started henv =>
      obtain ⟨hmonitor, -, -, hstarted⟩ := env_quiet henv
      intro j refreshId hparked
      rw [Auth.state, hmonitor]
      rw [List.getElem?_append] at hparked
      split at hparked
      · obtain hnotified | hslot | ⟨u, hmem, hu⟩ := hawake j refreshId hparked
        · exact .inl hnotified
        · exact .inr (.inl hslot)
        · exact .inr (.inr ⟨u, List.mem_append_left _ hmem, hu⟩)
      · cases hstarted _ (List.mem_of_getElem? hparked)

end Waiting

section Permits

variable {fromStr : String → Option String} {m m' : Auth} {i : Nat} {t t' : Task} {started : List Task}
  {cfg : Config Auth Task} {generation : UInt64}

/-- An epoch that has not begun, or whose slot is free, has room for one refresh. -/
def permits (generation : UInt64) (m : Auth) : Nat :=
  if generation = m.state.generation then if m.state.refreshing = none then 1 else 0
  else if m.state.generation.toNat < generation.toNat then 1 else 0

/-- One for a task whose refresh belongs to the epoch and has not finished. -/
def running (generation : UInt64) (t : Task) : Nat :=
  if t.unfinished.map RefreshInFlight.generation = some generation then 1 else 0

theorem running_eq_one {refresh : RefreshInFlight} (h : t.unfinished = some refresh) :
    running refresh.generation t = 1 := by
  rw [running, h, Option.map_some, if_pos rfl]

theorem running_of_unfinished (h : t'.unfinished = t.unfinished) :
    running generation t' = running generation t := by
  rw [running, h, ← running]

theorem permits_of_state (h : m'.state = m.state) : permits generation m' = permits generation m := by
  rw [permits, h, ← permits]

/-- A refresh that begins takes the permit of its epoch. -/
theorem permits_begin (hnone : m.state.refreshing = none) (hstate : m'.state = m.state.beginRefresh) :
    permits generation m' + System.total (running generation) [.refresh m.state.nextRefresh .exchanging] =
      permits generation m := by
  have hunfinished : Task.unfinished (.refresh m.state.nextRefresh .exchanging) =
      some m.state.nextRefresh := rfl
  simp only [permits, hstate, System.total, running, hunfinished, Option.map_some,
    TokenState.generation_beginRefresh, TokenState.refreshing_beginRefresh,
    TokenState.generation_nextRefresh, hnone, Option.some.injEq]
  by_cases heq : generation = m.state.generation
  · simp [heq]
  · simp [heq, Ne.symm heq]

theorem permits_invalidate {g : UInt64} {s : TokenState}
    (hinvalidate : m.state.invalidateIfGeneration g = some s) (hstate : m'.state = s)
    (hroom : m.state.generation.toNat + 1 < UInt64.size) : permits generation m' ≤ permits generation m := by
  obtain ⟨-, rfl⟩ := TokenState.invalidate_eq_some hinvalidate
  have hnext := Recorded.toNat_succ hroom
  have hne : m.state.generation + 1 ≠ m.state.generation := by
    intro heq
    rw [heq] at hnext
    omega
  by_cases heq : generation = m.state.generation + 1
  · -- The new epoch had its permit before it began.
    have hlater : m.state.generation.toNat < generation.toNat := by
      rw [heq]
      omega
    have hbefore : permits generation m = 1 := by
      rw [permits, if_neg (heq ▸ hne), if_pos hlater]
    have hafter : permits generation m' ≤ 1 := by
      simp only [permits, hstate, if_pos heq]
      split
      · exact Nat.le_refl _
      · exact Nat.zero_le _
    omega
  · simp only [permits, hstate, if_neg heq]
    split
    · rename_i hlater
      have hlt : m.state.generation.toNat < generation.toNat := by omega
      have hother : generation ≠ m.state.generation := by
        rintro rfl
        exact Nat.lt_irrefl _ hlt
      exact Nat.le_of_eq (by rw [if_neg hother, if_pos hlt])
    · exact Nat.zero_le _

/-- The permit of a refresh that has finished goes back to its epoch. -/
theorem permits_finish {refresh : RefreshInFlight} {result : Except WorkloadIdentityError CachedToken}
    (hm : Recorded fromStr m.state m.history) (hbegun : .begun refresh ∈ m.history)
    (hstate : m'.state = m.state.finishRefresh refresh result) (ht : t.unfinished = some refresh) :
    permits generation m' ≤ permits generation m + running generation t := by
  rcases TokenState.refreshing_finishRefresh m.state refresh result with
    ⟨hkept, -, -⟩ | ⟨hcleared, ⟨current, hcurrent, hid⟩, -⟩
  · rw [permits, hstate, TokenState.generation_finishRefresh, hkept, ← permits]
    exact Nat.le_add_right _ _
  · have hmem := hm.refreshing current hcurrent
    obtain rfl : current = refresh := hm.numbered.eq_of_id (begun_of_mem_epoch hmem) hbegun hid
    have hepoch : current.generation = m.state.generation :=
      UInt64.toNat_inj.mp ((hm.numbered.generation_eq hmem).1.trans hm.generation.symm)
    simp only [permits, hstate, TokenState.generation_finishRefresh, hcleared, hcurrent]
    by_cases heq : generation = m.state.generation
    · subst heq
      have hone := running_eq_one ht
      rw [hepoch] at hone
      rw [hone]
      simp
    · rw [if_neg heq, if_neg heq]
      exact Nat.le_add_right _ _

/-- No step makes room for a second refresh of an epoch. -/
theorem Step.permits_le (hstep : Step fromStr m i t m' t' started) (hfew : begins m'.history < UInt64.size)
    (hm : Recorded fromStr m.state m.history) (ht : t.Recorded m.history) :
    permits generation m' + running generation t' + System.total (running generation) started ≤
      permits generation m + running generation t := by
  have hquiet : ∀ {t t' : Task} {m' : Auth}, m'.state = m.state → t'.unfinished = t.unfinished →
      permits generation m' + running generation t' + System.total (running generation) [] ≤
        permits generation m + running generation t := by
    intro t t' m' hstate hunfinished
    rw [permits_of_state hstate, running_of_unfinished hunfinished]
    exact Nat.le_refl _
  have hidle : ∀ {t : Task}, t.unfinished = none → running generation t = 0 := by
    intro t hnone
    rw [running, hnone]
    rfl
  cases hstep with
  | silent hsilent => exact hquiet rfl (by cases hsilent <;> rfl)
  | enter henters _ => exact hquiet rfl (by cases henters <;> rfl)
  | notify hnotifies => exact hquiet rfl (by cases hnotifies <;> rfl)
  | leaseAndBegin _ _ _ hnone =>
      rw [hidle rfl, hidle rfl, Nat.add_zero]
      exact Nat.le_of_eq (permits_begin hnone rfl)
  | «begin» _ hnone =>
      rw [hidle rfl, hidle rfl, Nat.add_zero]
      exact Nat.le_of_eq (permits_begin hnone rfl)
  | invalidate hinvalidate =>
      obtain ⟨⟨token, hcached, -⟩, -⟩ := TokenState.invalidate_eq_some hinvalidate
      obtain ⟨owner, howner, -⟩ := hm.cached token hcached
      have hlt := (hm.numbered.generation_eq howner).2
      change begins m.history < UInt64.size at hfew
      rw [hidle rfl, hidle rfl]
      exact permits_invalidate hinvalidate rfl (by rw [hm.generation]; omega)
  | finish =>
      rw [hidle rfl]
      exact permits_finish hm ht.1 rfl rfl
  | _ => exact hquiet rfl rfl

theorem permits_preserved : (system fromStr).Preserved (Few fromStr) fun cfg =>
    RecordedRun fromStr cfg ∧
      permits generation cfg.shared + System.total (running generation) cfg.tasks ≤ 1 := by
  apply System.preserved_total_le recorded_stable.preserved_self (permits generation) (running generation) 1
  · intro cfg i choice t m' t' started hcfg htask hact hfew
    rw [Few, (system fromStr).exec_act htask hact] at hfew
    exact (act_step hact).permits_le hfew hcfg.shared (hcfg.tasks i t htask)
  · intro cfg event m' started _ henv
    cases event <;> cases henv <;> exact Nat.le_refl _

theorem permits_start (generation : UInt64) :
    permits generation (Config.shared Start) + System.total (running generation) (Config.tasks Start) ≤ 1 := by
  change permits generation Auth.init + 0 ≤ 1
  rw [permits]
  split
  · exact Nat.le_refl _
  · split
    · exact Nat.le_refl _
    · exact Nat.zero_le _

end Permits

section Main

variable {fromStr : String → Option String} {cfg : Config Auth Task}

/-- At most one exchange of each epoch is running. -/
def OneExchange (cfg : Config Auth Task) : Prop :=
  ∀ (i j : Nat) (refresh other : RefreshInFlight), cfg.tasks[i]? = some (.refresh refresh .exchanging) →
    cfg.tasks[j]? = some (.refresh other .exchanging) → refresh.generation = other.generation → i = j

/-- A parked call has been notified, or waits for the refresh in the slot, whose task has not
finished, or is about to be notified; and no refresh whose task has finished is in the slot. -/
structure Unstranded (cfg : Config Auth Task) : Prop where
  parked : ∀ i refreshId, cfg.tasks[i]? = some (.token (.parked refreshId)) →
    i ∉ cfg.shared.monitor.waiters ∨
      (∃ refresh, cfg.shared.state.refreshing = some refresh ∧ refresh.id = refreshId ∧
        ∃ u ∈ cfg.tasks, u.unfinished = some refresh) ∨
      ∃ u ∈ cfg.tasks, u.Notifying
  slot : Served cfg

theorem oneExchange_of_permits
    (hpermits : ∀ generation, permits generation cfg.shared +
      System.total (running generation) cfg.tasks ≤ 1) : OneExchange cfg := by
  intro i j refresh other hi hj hsame
  by_contra hne
  have htwo := System.weight_add_le_total (running refresh.generation) hne hi hj
  have hfirst : running refresh.generation (.refresh refresh .exchanging) = 1 := running_eq_one rfl
  have hsecond : running refresh.generation (.refresh other .exchanging) = 1 := by
    rw [hsame]
    exact running_eq_one rfl
  have hone := hpermits refresh.generation
  omega

theorem unstranded_run (events : List (Event Choice Outside)) :
    Unstranded ((system fromStr).run Start events) := by
  have hserved : Served ((system fromStr).run Start events) := by
    apply served_preserved.run_free _ events
    intro refresh hslot
    cases hslot
  have hawake : Awake ((system fromStr).run Start events) := by
    refine (awake_preserved.run_free ⟨⟨trivial, ?_⟩, ?_⟩ events).2
    · intro i t htask
      cases htask
    · intro i refreshId htask
      cases htask
  refine ⟨?_, hserved⟩
  intro i refreshId hparked
  obtain hnotified | ⟨refresh, hslot, hid⟩ | hnotifying := hawake i refreshId hparked
  · exact .inl hnotified
  · exact .inr (.inl ⟨refresh, hslot, hid, hserved refresh hslot⟩)
  · exact .inr (.inr hnotifying)

/-- Over every interleaving nobody is stranded, and with fewer than 2^64 refreshes at most one exchange
of each epoch runs. -/
theorem refreshes_are_single_flight (fromStr : String → Option String)
    (events : List (Event Choice Outside)) :
    (begins ((system fromStr).run Start events).shared.history < UInt64.size →
      OneExchange ((system fromStr).run Start events)) ∧
    Unstranded ((system fromStr).run Start events) := by
  refine ⟨fun hfew => ?_, unstranded_run events⟩
  apply oneExchange_of_permits
  intro generation
  refine (permits_preserved.run ⟨?_, permits_start generation⟩ (meets_few hfew)).2
  constructor
  · exact recorded_init
  · intro i t htask
    cases htask

/-- A call that starts a refresh, whose exchange fails; the call stays parked behind it. -/
def failingFetch (call refresh : Nat) : List (Event Choice Outside) :=
  [.env .token, .act call .proceed, .act call .proceed, .act call .proceed, .act call .proceed,
    .act refresh (.exchanged (.error .transport)), .act refresh .proceed, .act refresh .proceed,
    .act refresh .proceed]

theorem refreshes_are_single_flight_failing :
    begins ((system some).run Start (failingFetch 0 1 ++ [.env .token, .act 2 .proceed,
      .act 2 .proceed])).shared.history = 2 ∧
    OneExchange ((system some).run Start (failingFetch 0 1 ++ [.env .token, .act 2 .proceed,
      .act 2 .proceed])) := by
  have hbegins : begins ((system some).run Start (failingFetch 0 1 ++ [.env .token, .act 2 .proceed,
      .act 2 .proceed])).shared.history = 2 := by
    decide
  refine ⟨hbegins, (refreshes_are_single_flight some _).1 ?_⟩
  rw [hbegins]
  decide

end Main

section Wraparound

/-- Nobody holds the mutex, nothing is cached and no refresh is in the slot. -/
def idle (generation id tokenGeneration : UInt64) (failure : Option (UInt64 × WorkloadIdentityError))
    (history : List Observation) : Auth :=
  ⟨⟨⟨none, generation, id, tokenGeneration, none, failure⟩, none, []⟩, 0, history⟩

/-- The refresh that begins in an idle state. -/
def nextOf (generation id tokenGeneration : UInt64) : RefreshInFlight :=
  ⟨id + 1, generation, tokenGeneration + 1⟩

/-- A refresh with this number is in the slot, and a call waits for it. -/
def waiting (generation id tokenGeneration : UInt64) (call : Nat) (history : List Observation) : Auth :=
  ⟨⟨⟨none, generation, id + 1, tokenGeneration + 1, some (nextOf generation id tokenGeneration), none⟩,
    none, [call]⟩, 0, history⟩

variable {generation id tokenGeneration : UInt64} {failure : Option (UInt64 × WorkloadIdentityError)}
  {history : List Observation} {tasks before after : List Task}

/-- A call in an idle state starts a refresh and parks. -/
theorem reaches_waiting (generation id tokenGeneration : UInt64)
    (failure : Option (UInt64 × WorkloadIdentityError)) (history : List Observation) (tasks : List Task) :
    ∃ call history', (system some).Reaches ⟨idle generation id tokenGeneration failure history, tasks⟩
      ⟨waiting generation id tokenGeneration call history',
        tasks ++ [.token (.parked (id + 1)), .refresh (nextOf generation id tokenGeneration) .exchanging]⟩ := by
  refine ⟨tasks.length, .joined tasks.length (id + 1) :: .begun (nextOf generation id tokenGeneration) :: history,
    [.env .token, .act tasks.length .proceed, .act tasks.length .proceed, .act tasks.length .proceed,
      .act tasks.length .proceed], ?_⟩
  simp [System.run, System.exec, system, act, tokenStep, idle, Monitor.acquire, inspect, outside,
    Auth.state, Auth.spawnRefresh, Auth.observe, Auth.store, Auth.unlock, Monitor.store, Monitor.release,
    Monitor.register, waiting, nextOf, TokenState.beginRefresh, TokenState.nextRefresh]

/-- A failing refresh with the number of the one in the slot clears the slot. -/
theorem reaches_idle (generation id tokenGeneration : UInt64) {refresh : RefreshInFlight} (hid : refresh.id = id + 1) (call : Nat)
    (history : List Observation) (before after : List Task) :
    ∃ failure history', (system some).Reaches
      ⟨waiting generation id tokenGeneration call history, before ++ .refresh refresh .exchanging :: after⟩
      ⟨idle generation (id + 1) (tokenGeneration + 1) failure history',
        before ++ .refresh refresh .ended :: after⟩ := by
  refine ⟨some (id + 1, .transport), .finished refresh (.error .transport) :: history,
    [.act before.length (.exchanged (.error .transport)), .act before.length .proceed,
      .act before.length .proceed, .act before.length .proceed], ?_⟩
  simp [System.run, System.exec, system, act, refreshStep, exchangeResult, waiting, idle, nextOf,
    Monitor.acquire, TokenState.finishRefresh, Auth.state, Auth.observe, Auth.store, Auth.unlock,
    Monitor.store, Monitor.release, Monitor.notifyWaiters, err, Except.toOption, hid]

/-- A refresh of an idle state that fails leads to an idle state with the next numbers. -/
theorem reaches_next (generation id tokenGeneration : UInt64)
    (failure : Option (UInt64 × WorkloadIdentityError)) (history : List Observation) (tasks : List Task) :
    ∃ failure' history' more,
      (system some).Reaches ⟨idle generation id tokenGeneration failure history, tasks⟩
        ⟨idle generation (id + 1) (tokenGeneration + 1) failure' history', tasks ++ more⟩ := by
  obtain ⟨call, history₁, hwaiting⟩ := reaches_waiting generation id tokenGeneration failure history tasks
  obtain ⟨failure', history', hidle⟩ := reaches_idle generation id tokenGeneration
    (show (nextOf generation id tokenGeneration).id = id + 1 from rfl) call history₁ (tasks ++ [.token (.parked (id + 1))]) []
  rw [List.append_assoc, List.append_assoc] at hidle
  exact ⟨failure', history', _, hwaiting.trans hidle⟩

/-- Any number of failing refreshes. -/
theorem reaches_later (n : Nat) (generation id tokenGeneration : UInt64)
    (failure : Option (UInt64 × WorkloadIdentityError)) (history : List Observation) (tasks : List Task) :
    ∃ failure' history' more,
      (system some).Reaches ⟨idle generation id tokenGeneration failure history, tasks⟩
        ⟨idle generation (id + UInt64.ofNat n) (tokenGeneration + UInt64.ofNat n) failure' history',
          tasks ++ more⟩ := by
  induction n generalizing id tokenGeneration failure history tasks with
  | zero => exact ⟨failure, history, [], by simpa using System.Reaches.refl _ _⟩
  | succ n ih =>
      obtain ⟨failure₁, history₁, more, hnext⟩ :=
        reaches_next generation id tokenGeneration failure history tasks
      obtain ⟨failure', history', more', hlater⟩ :=
        ih (id + 1) (tokenGeneration + 1) failure₁ history₁ (tasks ++ more)
      have hsum : ∀ a : UInt64, a + 1 + UInt64.ofNat n = a + UInt64.ofNat (n + 1) := by
        intro a
        rw [UInt64.ofNat_add, UInt64.add_assoc, UInt64.add_comm 1]
        rfl
      rw [hsum, hsum, List.append_assoc] at hlater
      exact ⟨failure', history', more ++ more', hnext.trans hlater⟩

/-- A refresh of the first epoch that runs on after the invalidation of the token before it. -/
def overtaken : List (Event Choice Outside) :=
  fetch 0 1 ++ [.env (.invalidate 1), .act 3 .proceed, .act 3 .proceed, .act 3 .proceed]

theorem reaches_overtaken : ∃ history before after,
    (system some).Reaches Start
      ⟨idle 1 2 2 none history, before ++ .refresh ⟨2, 0, 2⟩ .exchanging :: after⟩ :=
  ⟨_, [.token (.returned ⟨"Bearer token", some 1⟩), .refresh ⟨1, 0, 1⟩ .ended],
    [.invalidate 1 (.ended true)], overtaken, rfl⟩

/-- After 2^64 further refreshes a number comes back: the overtaken refresh clears the slot of the one
that has its number now, and another exchange of the same epoch begins beside it. -/
theorem exchanges_overlap : ¬ ∀ events, OneExchange ((system some).run Start events) := by
  intro hone
  obtain ⟨history, before, after, hovertaken⟩ := reaches_overtaken
  obtain ⟨failure₁, history₁, more, hlater⟩ := reaches_later (UInt64.size - 1) 1 2 2 none history
    (before ++ .refresh ⟨2, 0, 2⟩ .exchanging :: after)
  have hwrapped : (2 : UInt64) + UInt64.ofNat (UInt64.size - 1) = 1 := by decide
  rw [hwrapped, List.append_assoc, List.cons_append] at hlater
  obtain ⟨call₂, history₂, hwaiting⟩ := reaches_waiting 1 1 1 failure₁ history₁
    (before ++ .refresh ⟨2, 0, 2⟩ .exchanging :: (after ++ more))
  rw [List.append_assoc, List.cons_append] at hwaiting
  obtain ⟨failure₃, history₃, hcleared⟩ := reaches_idle 1 1 1
    (show (⟨2, 0, 2⟩ : RefreshInFlight).id = 1 + 1 from rfl) call₂ history₂ before
    (after ++ more ++ [.token (.parked (1 + 1)), .refresh (nextOf 1 1 1) .exchanging])
  obtain ⟨call₄, history₄, hagain⟩ := reaches_waiting 1 (1 + 1) (1 + 1) failure₃ history₃
    (before ++ .refresh ⟨2, 0, 2⟩ .ended ::
      (after ++ more ++ [.token (.parked (1 + 1)), .refresh (nextOf 1 1 1) .exchanging]))
  obtain ⟨events, hrun⟩ := hovertaken.trans (hlater.trans (hwaiting.trans (hcleared.trans hagain)))
  have hboth := hone events
  rw [hrun] at hboth
  -- The two exchanges are the second and the fourth task behind `front`.
  let front := before ++ .refresh ⟨2, 0, 2⟩ .ended :: (after ++ more)
  have hsplit : before ++ .refresh ⟨2, 0, 2⟩ .ended ::
      (after ++ more ++ [.token (.parked (1 + 1)), .refresh (nextOf 1 1 1) .exchanging]) ++
      [.token (.parked (1 + 1 + 1)), .refresh (nextOf 1 (1 + 1) (1 + 1)) .exchanging] =
      front ++ [.token (.parked (1 + 1)), .refresh (nextOf 1 1 1) .exchanging,
        .token (.parked (1 + 1 + 1)), .refresh (nextOf 1 (1 + 1) (1 + 1)) .exchanging] := by
    simp [front]
  rw [hsplit] at hboth
  have hsame := hboth (front.length + 1) (front.length + 3) (nextOf 1 1 1) (nextOf 1 (1 + 1) (1 + 1))
    (by simp) (by simp) rfl
  omega

end Wraparound

end OpenaiRs.WorkloadIdentity
