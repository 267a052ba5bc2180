import OpenaiRs.WorkloadIdentity.SingleFlight

/-!
# The failure of a refresh reaches its waiters

A failure is kept until the next refresh begins. A call that has joined the refresh and looks before
that returns its error; a call that looks later joins the next refresh.
-/

namespace OpenaiRs.WorkloadIdentity

open Interleaving

section Expectations

/-- What a call of `token` can expect of the refresh that it joined last. -/
inductive Expects where
  | nothing
  /-- The refresh with this number has not ended. -/
  | outcome (refreshId : UInt64)
  /-- It has ended with this error. -/
  | failure (error : WorkloadIdentityError)
  deriving DecidableEq

def Expects.ofResult : Except WorkloadIdentityError CachedToken → Expects
  | .ok _ => .nothing
  | .error error => .failure error

/-- A refresh ends. -/
def Expects.settle (refresh : RefreshInFlight) (result : Except WorkloadIdentityError CachedToken) :
    Expects → Expects
  | .outcome refreshId => if refresh.id = refreshId then .ofResult result else .outcome refreshId
  | expected => expected

/-- After an invalidation a call can expect nothing. -/
def expects (i : Nat) : List Observation → Expects
  | [] => .nothing
  | .begun _ :: rest => expects i rest
  | .joined call refreshId :: rest => if call = i then .outcome refreshId else expects i rest
  | .finished refresh result :: rest => (expects i rest).settle refresh result
  | .invalidated _ :: _ => .nothing
  | .returned call _ :: rest => if call = i then .nothing else expects i rest
  | .failed call _ :: rest => if call = i then .nothing else expects i rest

/-- The call of `token` that an observation is about. -/
def Observation.call : Observation → Option Nat
  | .joined call _ => some call
  | .returned call _ => some call
  | .failed call _ => some call
  | _ => none

/-- The number that a call has taken with it to its wait. -/
def TokenPc.refreshId : TokenPc → Option UInt64
  | .enabling refreshId => some refreshId
  | .unlocking refreshId => some refreshId
  | .parked refreshId => some refreshId
  | .relocking refreshId => some refreshId
  | .checking refreshId => some refreshId
  | _ => none

def TokenPc.InProgress : TokenPc → Prop
  | .returned _ => False
  | .failed _ => False
  | .dropped => False
  | _ => True

/-- What a call in progress can rely on. -/
structure Expecting (m : Auth) (i : Nat) (pc : TokenPc) : Prop where
  outcome : ∀ refreshId, expects i m.history = .outcome refreshId →
    (∃ refresh, m.state.refreshing = some refresh ∧ refresh.id = refreshId) ∧ m.Expired ∧
      ∀ waited, pc.refreshId = some waited → waited = refreshId
  failure : ∀ error, expects i m.history = .failure error →
    m.state.refreshing = none ∧ m.Expired ∧ ∃ refreshId, m.state.completedFailure = some (refreshId, error) ∧
      ∀ waited, pc.refreshId = some waited → waited = refreshId

/-- The history gives every call what it can expect: while its refresh runs it only joins it again, and
after a failure it returns the error. -/
def Answered (h : List Observation) : Prop :=
  ∀ newer o older i, h = newer ++ o :: older → o.call = some i →
    (∀ refreshId, expects i older = .outcome refreshId → o = .joined i refreshId) ∧
      ∀ error, expects i older = .failure error → o = .failed i (.ofRefresh error)

variable {m m' : Auth} {i : Nat} {pc pc' : TokenPc} {h newer : List Observation} {o : Observation}

theorem Answered.cons (hanswered : Answered h)
    (ho : ∀ i, o.call = some i → (∀ refreshId, expects i h = .outcome refreshId → o = .joined i refreshId) ∧
      ∀ error, expects i h = .failure error → o = .failed i (.ofRefresh error)) : Answered (o :: h) := by
  intro newer o' older i hsplit hcall
  cases newer with
  | nil =>
      injection hsplit with hfirst hrest
      subst hfirst hrest
      exact ho i hcall
  | cons first newer =>
      injection hsplit with _ hrest
      exact hanswered newer o' older i hrest hcall

theorem answered_nil : Answered [] := by
  intro newer o older i hsplit
  simp at hsplit

theorem answered_quiet (hanswered : Answered h) (ho : o.call = none) : Answered (o :: h) := by
  apply hanswered.cons
  intro i hcall
  rw [ho] at hcall
  cases hcall

/-- The observations about other calls do not matter. -/
theorem expects_cons {k : Nat} (hcall : o.call = some k) (hne : i ≠ k) :
    expects i (o :: h) = expects i h := by
  cases o with
  | joined call refreshId =>
      cases hcall
      exact if_neg (Ne.symm hne)
  | returned call lease =>
      cases hcall
      exact if_neg (Ne.symm hne)
  | failed call error =>
      cases hcall
      exact if_neg (Ne.symm hne)
  | _ => cases hcall

/-- A call that has not been observed can expect nothing. -/
theorem expects_unknown (hunknown : ∀ o ∈ h, o.call ≠ some i) : expects i h = .nothing := by
  induction h with
  | nil => rfl
  | cons o rest ih =>
      have hrest := ih fun other hmem => hunknown other (.tail _ hmem)
      have hfirst := hunknown o (.head _)
      cases o with
      | begun refresh => exact hrest
      | invalidated generation => rfl
      | finished refresh result =>
          rw [expects, hrest]
          rfl
      | joined call refreshId =>
          rw [expects_cons rfl fun heq => hfirst (congrArg some heq.symm)]
          exact hrest
      | returned call lease =>
          rw [expects_cons rfl fun heq => hfirst (congrArg some heq.symm)]
          exact hrest
      | failed call error =>
          rw [expects_cons rfl fun heq => hfirst (congrArg some heq.symm)]
          exact hrest

theorem Expecting.keep (hexpecting : Expecting m i pc) (hstate : m'.state = m.state)
    (hclock : m.clock ≤ m'.clock) (hexpects : expects i m'.history = expects i m.history)
    (hwaits : ∀ waited, pc'.refreshId = some waited → pc.refreshId = some waited) :
    Expecting m' i pc' := by
  have hexpired : m.Expired → m'.Expired := by
    intro hold cached hcached
    rw [hstate] at hcached
    exact Nat.le_trans (hold cached hcached) hclock
  constructor
  · intro refreshId houtcome
    rw [hexpects] at houtcome
    obtain ⟨hslot, hold, hwaited⟩ := hexpecting.outcome refreshId houtcome
    rw [hstate]
    exact ⟨hslot, hexpired hold, fun waited hpc => hwaited waited (hwaits waited hpc)⟩
  · intro error hfailure
    rw [hexpects] at hfailure
    obtain ⟨hslot, hold, refreshId, hkept, hwaited⟩ := hexpecting.failure error hfailure
    rw [hstate]
    exact ⟨hslot, hexpired hold, refreshId, hkept, fun waited hpc => hwaited waited (hwaits waited hpc)⟩

/-- A call that can expect nothing does not rely on anything. -/
theorem expecting_nothing (hnothing : expects i m.history = .nothing) : Expecting m i pc := by
  constructor
  · intro refreshId houtcome
    rw [hnothing] at houtcome
    cases houtcome
  · intro error hfailure
    rw [hnothing] at hfailure
    cases hfailure

/-- A call that has just joined the refresh in the slot. -/
theorem expecting_joined {refresh : RefreshInFlight} (hexpects : expects i m.history = .outcome refresh.id)
    (hslot : m.state.refreshing = some refresh) (hexpired : m.Expired)
    (hwaits : ∀ waited, pc.refreshId = some waited → waited = refresh.id) : Expecting m i pc := by
  constructor
  · intro refreshId houtcome
    rw [hexpects] at houtcome
    cases houtcome
    exact ⟨⟨refresh, hslot, rfl⟩, hexpired, hwaits⟩
  · intro error hfailure
    rw [hexpects] at hfailure
    cases hfailure

end Expectations

section Steps

/-- The first critical section of `token` begins a refresh in this state. -/
def StartsRefresh (m : Auth) : Prop :=
  m.state.refreshing = none ∧ ∀ cached, m.state.cached = some cached → m.clock < cached.expiresAt →
    cached.refreshAt ≤ m.clock

variable {fromStr : String → Option String} {m m' : Auth} {i k : Nat} {t t' : Task} {started : List Task}
  {pc pc' : TokenPc} {refresh : RefreshInFlight} {result : Except WorkloadIdentityError CachedToken}

theorem Auth.Expired.starts (hexpired : m.Expired) (hnone : m.state.refreshing = none) : StartsRefresh m :=
  ⟨hnone, fun cached hcached hfresh => absurd hfresh (Nat.not_lt.mpr (hexpired cached hcached))⟩

/-- A completion gives the waiters of its refresh what they can expect, and the others keep theirs. -/
theorem Expecting.finished (hexpecting : Expecting m i pc)
    (hcurrent : refresh.generation = m.state.generation → m.state.refreshing = some refresh)
    (hstate : m'.state = m.state.finishRefresh refresh result) (hclock : m'.clock = m.clock)
    (hhistory : m'.history = .finished refresh result :: m.history) : Expecting m' i pc := by
  have hslot := TokenState.refreshing_finishRefresh m.state refresh result
  -- Nothing is cached unless the refresh in the slot has succeeded.
  have hexpired : m.Expired → (m.state.refreshing = some refresh → ∃ error, result = .error error) →
      m'.Expired := by
    intro hold hfails cached hcached
    rw [hstate, TokenState.cached_finishRefresh] at hcached
    rw [hclock]
    split at hcached
    · rename_i hgeneration
      obtain ⟨error, rfl⟩ := hfails (hcurrent hgeneration.symm)
      exact hold cached hcached
    · exact hold cached hcached
  cases hexpects : expects i m.history with
  | nothing =>
      apply expecting_nothing
      rw [hhistory, expects, hexpects]
      rfl
  | outcome refreshId =>
      obtain ⟨⟨current, hcurrentSlot, hid⟩, hold, hwaited⟩ := hexpecting.outcome refreshId hexpects
      by_cases hsame : refresh.id = refreshId
      · cases result with
        | ok token =>
            apply expecting_nothing
            rw [hhistory, expects, hexpects, Expects.settle, if_pos hsame]
            rfl
        | error error =>
            have hfailure : expects i m'.history = .failure error := by
              rw [hhistory, expects, hexpects, Expects.settle, if_pos hsame]
              rfl
            obtain ⟨-, -, hother⟩ | ⟨hcleared, -, hkept⟩ := hslot
            · exact absurd (hid.trans hsame.symm) (hother current hcurrentSlot)
            · constructor
              · intro refreshId' houtcome
                rw [hfailure] at houtcome
                cases houtcome
              · intro error' herror
                rw [hfailure] at herror
                cases herror
                refine ⟨by rw [hstate, hcleared], hexpired hold (fun _ => ⟨error, rfl⟩), refresh.id, ?_, ?_⟩
                · rw [hstate, hkept]
                  rfl
                · rw [hsame]
                  exact hwaited
      · have houtcome : expects i m'.history = .outcome refreshId := by
          rw [hhistory, expects, hexpects, Expects.settle, if_neg hsame]
        obtain ⟨hkept, -, -⟩ | ⟨-, ⟨owner, howner, hownerId⟩, -⟩ := hslot
        · rw [← hid] at houtcome
          refine expecting_joined houtcome (by rw [hstate, hkept, hcurrentSlot]) (hexpired hold ?_) ?_
          · intro hrefresh
            rw [hcurrentSlot] at hrefresh
            rw [Option.some.inj hrefresh] at hid
            exact absurd hid hsame
          · rw [hid]
            exact hwaited
        · rw [hcurrentSlot] at howner
          rw [← Option.some.inj howner, hid] at hownerId
          exact absurd hownerId.symm hsame
  | failure error =>
      obtain ⟨hnone, hold, refreshId, hkept, hwaited⟩ := hexpecting.failure error hexpects
      have hfailure : expects i m'.history = .failure error := by
        rw [hhistory, expects, hexpects]
        rfl
      obtain ⟨hsame, hfailed, -⟩ | ⟨-, ⟨owner, howner, -⟩, -⟩ := hslot
      · constructor
        · intro refreshId' houtcome
          rw [hfailure] at houtcome
          cases houtcome
        · intro error' herror
          rw [hfailure] at herror
          cases herror
          refine ⟨by rw [hstate, hsame, hnone], hexpired hold ?_, refreshId, by rw [hstate, hfailed, hkept],
            hwaited⟩
          intro hrefresh
          rw [hnone] at hrefresh
          cases hrefresh
      · rw [hnone] at howner
        cases howner

/-- A refresh does not begin while a call can expect something, unless it drops a failure. -/
theorem Expecting.begun (hexpecting : Expecting m i pc) (hnone : m.state.refreshing = none)
    (hconsiderate : ∀ error, expects i m.history ≠ .failure error) : expects i m.history = .nothing := by
  cases hexpects : expects i m.history with
  | nothing => rfl
  | outcome refreshId =>
      obtain ⟨⟨refresh, hslot, -⟩, -⟩ := hexpecting.outcome refreshId hexpects
      rw [hnone] at hslot
      cases hslot
  | failure error => exact absurd hexpects (hconsiderate error)

/-- What a call relies on is not disturbed by a step of another task. -/
theorem Expecting.other (hstep : Step fromStr m k t m' t' started) (hexpecting : Expecting m i pc)
    (hne : i ≠ k)
    (hconsiderate : t = .token .inspecting → StartsRefresh m → ∀ error, expects i m.history ≠ .failure error)
    (hcurrent : ∀ refresh, t.unfinished = some refresh → refresh.generation = m.state.generation →
      m.state.refreshing = some refresh) : Expecting m' i pc := by
  have hobserved : ∀ {m' : Auth} {o : Observation}, m'.state = m.state → m'.clock = m.clock →
      m'.history = o :: m.history → o.call = some k → Expecting m' i pc := by
    intro m' o hstate hclock hhistory hcall
    refine hexpecting.keep hstate (Nat.le_of_eq hclock.symm) ?_ (fun _ h => h)
    rw [hhistory]
    exact expects_cons hcall hne
  have hofResult : ∀ result : Except Error TokenLease, (Observation.ofResult k result).call = some k := by
    intro result
    cases result <;> rfl
  cases hstep with
  | lease _ _ => exact hobserved rfl rfl rfl (hofResult _)
  | leaseAndBegin hcached hfresh hdue hnone =>
      apply expecting_nothing
      have hstarts : StartsRefresh m := by
        refine ⟨hnone, fun other hother _ => ?_⟩
        rw [hcached] at hother
        rw [← Option.some.inj hother]
        exact hdue
      refine (expects_cons (hofResult _) hne).trans ?_
      exact hexpecting.begun hnone (hconsiderate rfl hstarts)
  | join _ _ => exact hobserved rfl rfl rfl rfl
  | «begin» hexpired hnone =>
      apply expecting_nothing
      refine (expects_cons rfl hne).trans ?_
      exact hexpecting.begun hnone (hconsiderate rfl (hexpired.starts hnone))
  | fail _ => exact hobserved rfl rfl rfl rfl
  | invalidate _ => exact expecting_nothing rfl
  | finish => exact hexpecting.finished (hcurrent _ rfl) rfl rfl rfl
  | _ => exact hexpecting.keep rfl (Nat.le_refl _) rfl (fun _ h => h)

/-- What a call relies on after a step of its own. -/
theorem Expecting.own (hstep : Step fromStr m i (.token pc) m' (.token pc') started)
    (hexpecting : Expecting m i pc) (hin : pc'.InProgress) : Expecting m' i pc' := by
  have hended : ∀ {result : Except Error TokenLease}, pc' = .ofResult result → Expecting m' i pc' := by
    intro result heq
    rw [heq] at hin
    cases result <;> cases hin
  have hself : ∀ {rest : List Observation} {refreshId : UInt64},
      expects i (.joined i refreshId :: rest) = .outcome refreshId := if_pos rfl
  generalize hfrom : Task.token pc = t at hstep
  generalize hto : Task.token pc' = t' at hstep
  cases hstep with
  | silent hsilent =>
      cases hsilent with
      | wake _ =>
          cases hfrom
          cases hto
          exact hexpecting.keep rfl (Nat.le_refl _) rfl (fun _ h => h)
      | exchanged => cases hfrom
      | dropInvalidate => cases hfrom
      | _ =>
          cases hto
          cases hin
  | enter henters _ =>
      cases henters with
      | inspect =>
          cases hfrom
          cases hto
          exact hexpecting.keep rfl (Nat.le_refl _) rfl (fun _ h => h)
      | check =>
          cases hfrom
          cases hto
          exact hexpecting.keep rfl (Nat.le_refl _) rfl (fun _ h => h)
      | _ => cases hfrom
  | notify hnotifies => cases hnotifies <;> cases hfrom
  | enable =>
      cases hfrom
      cases hto
      exact hexpecting.keep rfl (Nat.le_refl _) rfl (fun _ h => h)
  | park =>
      cases hfrom
      cases hto
      exact hexpecting.keep rfl (Nat.le_refl _) rfl (fun _ h => h)
  | dropParked =>
      cases hto
      cases hin
  | lease _ _ => exact hended (by cases hto; rfl)
  | leaseAndBegin _ _ _ _ => exact hended (by cases hto; rfl)
  | join hexpired hslot =>
      cases hto
      exact expecting_joined hself hslot hexpired (fun _ h => (Option.some.inj h).symm)
  | «begin» hexpired hnone =>
      cases hto
      exact expecting_joined hself rfl hexpired (fun _ h => (Option.some.inj h).symm)
  | fail _ =>
      cases hto
      cases hin
  | retry _ =>
      cases hto
      exact hexpecting.keep rfl (Nat.le_refl _) rfl (fun _ h => nomatch h)
  | _ => cases hfrom

/-- While a refresh is in the slot no failure is kept. -/
def Cleared (m : Auth) : Prop := ∀ refresh, m.state.refreshing = some refresh → m.state.completedFailure = none

theorem Step.cleared (hstep : Step fromStr m i t m' t' started) (hcleared : Cleared m) : Cleared m' := by
  cases hstep with
  | leaseAndBegin _ _ _ _ => exact fun _ _ => rfl
  | «begin» _ _ => exact fun _ _ => rfl
  | invalidate hinvalidate =>
      obtain ⟨-, rfl⟩ := TokenState.invalidate_eq_some hinvalidate
      exact fun _ _ => rfl
  | @finish refresh result =>
      intro current hslot
      rcases TokenState.refreshing_finishRefresh m.state refresh result with
        ⟨hkept, hfailure, -⟩ | ⟨hnone, -, -⟩
      · exact hfailure.trans (hcleared current (hkept.symm.trans hslot))
      · exact absurd (hnone.symm.trans hslot) (by simp)
  | _ => exact hcleared

/-- A step gives its call what the call can expect. -/
theorem Step.answered (hstep : Step fromStr m k t m' t' started) (hanswered : Answered m.history)
    (hcleared : Cleared m) (hexpecting : ∀ pc, t = .token pc → pc.InProgress → Expecting m k pc)
    (hconsiderate : t = .token .inspecting → StartsRefresh m → ∀ error, expects k m.history ≠ .failure error) :
    Answered m'.history := by
  have hlease : ∀ {cached : CachedToken} {h : List Observation}, t = .token .inspecting →
      m.state.cached = some cached → m.clock < cached.expiresAt → Answered h →
      expects k h = expects k m.history → Answered (.ofResult k (tokenLease fromStr cached) :: h) := by
    intro cached h htoken hcached hfresh hbefore hsame
    have hown := hexpecting _ htoken trivial
    apply hbefore.cons
    intro i hcall
    have hik : k = i := by
      cases hresult : tokenLease fromStr cached <;> rw [hresult] at hcall <;> exact Option.some.inj hcall
    subst hik
    rw [hsame]
    constructor
    · intro refreshId houtcome
      exact absurd hfresh (Nat.not_lt.mpr ((hown.outcome refreshId houtcome).2.1 cached hcached))
    · intro error hfailure
      exact absurd hfresh (Nat.not_lt.mpr ((hown.failure error hfailure).2.1 cached hcached))
  cases hstep with
  | lease hcached hfresh => exact hlease rfl hcached hfresh hanswered rfl
  | leaseAndBegin hcached hfresh _ _ => exact hlease rfl hcached hfresh (answered_quiet hanswered rfl) rfl
  | @join refreshing _ hslot =>
      have hown := hexpecting _ rfl trivial
      apply hanswered.cons
      intro i hcall
      cases hcall
      constructor
      · intro refreshId houtcome
        obtain ⟨⟨current, hcurrent, hid⟩, -⟩ := hown.outcome refreshId houtcome
        rw [hslot] at hcurrent
        rw [← hid, Option.some.inj hcurrent]
      · intro error hfailure
        have hnone := (hown.failure error hfailure).1
        rw [hslot] at hnone
        cases hnone
  | «begin» hexpired hnone =>
      have hnothing := (hexpecting _ rfl trivial).begun hnone (hconsiderate rfl (hexpired.starts hnone))
      apply Answered.cons (answered_quiet hanswered rfl)
      intro i hcall
      cases hcall
      constructor
      · intro refreshId houtcome
        cases hnothing.symm.trans houtcome
      · intro error hfailure
        cases hnothing.symm.trans hfailure
  | @fail refreshId error hkept =>
      have hown := hexpecting _ rfl trivial
      apply hanswered.cons
      intro i hcall
      cases hcall
      constructor
      · intro refreshId' houtcome
        obtain ⟨⟨current, hcurrent, -⟩, -⟩ := hown.outcome refreshId' houtcome
        rw [hcleared current hcurrent] at hkept
        cases hkept
      · intro error' hfailure
        obtain ⟨-, -, refreshId', hkept', -⟩ := hown.failure error' hfailure
        rw [hkept] at hkept'
        cases hkept'
        rfl
  | invalidate _ => exact answered_quiet hanswered rfl
  | finish => exact answered_quiet hanswered rfl
  | _ => exact hanswered

end Steps

section Runs

variable {fromStr : String → Option String} {cfg : Config Auth Task}

/-- The step does not begin a refresh while a failure waits for a call in progress. -/
def Considerate (cfg : Config Auth Task) (event : Event Choice Outside) : Prop :=
  ∀ k choice, event = .act k choice → cfg.tasks[k]? = some (.token .inspecting) →
    StartsRefresh cfg.shared → ∀ i pc error, cfg.tasks[i]? = some (.token pc) → pc.InProgress →
      expects i cfg.shared.history ≠ .failure error

/-- Calls are only observed when they have been made. -/
def Known (cfg : Config Auth Task) : Prop :=
  ∀ o ∈ cfg.shared.history, ∀ i, o.call = some i → i < cfg.tasks.length

/-- Every call in progress can rely on what it expects. -/
def Relies (cfg : Config Auth Task) : Prop :=
  ∀ i pc, cfg.tasks[i]? = some (.token pc) → pc.InProgress → Expecting cfg.shared i pc

/-- The facts about epochs and slots that hold with fewer than 2^64 refreshes. -/
structure Orderly (fromStr : String → Option String) (cfg : Config Auth Task) : Prop where
  recorded : RecordedRun fromStr cfg
  room : ∀ generation, permits generation cfg.shared + System.total (running generation) cfg.tasks ≤ 1
  served : Served cfg

theorem orderly_preserved : (system fromStr).Preserved (Few fromStr) (Orderly fromStr) := by
  intro cfg event horderly hfew
  constructor
  · exact recorded_stable.preserved_self cfg event horderly.recorded hfew
  · intro generation
    exact (permits_preserved cfg event ⟨horderly.recorded, horderly.room generation⟩ hfew).2
  · exact served_preserved cfg event horderly.served trivial

/-- A refresh of the current epoch that has not finished is the one in the slot. -/
theorem Orderly.slot (horderly : Orderly fromStr cfg) {k : Nat} {t : Task} {refresh : RefreshInFlight}
    (htask : cfg.tasks[k]? = some t) (hunfinished : t.unfinished = some refresh)
    (hgeneration : refresh.generation = cfg.shared.state.generation) :
    cfg.shared.state.refreshing = some refresh := by
  have hone := horderly.room refresh.generation
  have hrunning := running_eq_one hunfinished
  cases hslot : cfg.shared.state.refreshing with
  | none =>
      have hle := System.weight_le_total (running refresh.generation) htask
      rw [permits, if_pos hgeneration, if_pos hslot] at hone
      omega
  | some current =>
      obtain ⟨u, hmem, hu⟩ := horderly.served current hslot
      obtain ⟨j, hj⟩ := List.mem_iff_getElem?.mp hmem
      by_cases heq : k = j
      · subst heq
        rw [htask] at hj
        rw [Option.some.inj hj, hu] at hunfinished
        rw [Option.some.inj hunfinished]
      · have hcurrent : current.generation = refresh.generation := by
          have hepoch := horderly.recorded.shared.refreshing current hslot
          have hsame := (horderly.recorded.shared.numbered.generation_eq hepoch).1
          rw [hgeneration]
          exact UInt64.toNat_inj.mp (hsame.trans horderly.recorded.shared.generation.symm)
        have hother := running_eq_one hu
        rw [hcurrent] at hother
        have htwo := System.weight_add_le_total (running refresh.generation) heq htask hj
        omega

theorem Step.known {m m' : Auth} {k : Nat} {t t' : Task} {started : List Task}
    (hstep : Step fromStr m k t m' t' started) : ∀ o ∈ m'.history, o ∈ m.history ∨ o.call = none ∨ o.call = some k := by
  have hresult : ∀ result : Except Error TokenLease, (Observation.ofResult k result).call = some k := by
    intro result
    cases result <;> rfl
  intro o hmem
  cases hstep with
  | lease _ _ =>
      obtain rfl | hold := List.mem_cons.mp hmem
      · exact .inr (.inr (hresult _))
      · exact .inl hold
  | leaseAndBegin _ _ _ _ =>
      obtain rfl | hmore := List.mem_cons.mp hmem
      · exact .inr (.inr (hresult _))
      · obtain rfl | hold := List.mem_cons.mp hmore
        · exact .inr (.inl rfl)
        · exact .inl hold
  | join _ _ =>
      obtain rfl | hold := List.mem_cons.mp hmem
      · exact .inr (.inr rfl)
      · exact .inl hold
  | «begin» _ _ =>
      obtain rfl | hmore := List.mem_cons.mp hmem
      · exact .inr (.inr rfl)
      · obtain rfl | hold := List.mem_cons.mp hmore
        · exact .inr (.inl rfl)
        · exact .inl hold
  | fail _ =>
      obtain rfl | hold := List.mem_cons.mp hmem
      · exact .inr (.inr rfl)
      · exact .inl hold
  | invalidate _ =>
      obtain rfl | hold := List.mem_cons.mp hmem
      · exact .inr (.inl rfl)
      · exact .inl hold
  | finish =>
      obtain rfl | hold := List.mem_cons.mp hmem
      · exact .inr (.inl rfl)
      · exact .inl hold
  | _ => exact .inl hmem

theorem known_preserved : (system fromStr).Preserved (fun _ _ => True) Known := by
  intro cfg event hknown _
  have hmoves := (system fromStr).exec_moves cfg event
  generalize (system fromStr).exec cfg event = cfg' at hmoves
  cases hmoves with
  | still => exact hknown
  | @act k choice t t' m' started htask hact =>
      intro o hmem i hcall
      have hgrows : cfg.tasks.length ≤ (cfg.tasks.set k t' ++ started).length := by simp
      apply Nat.lt_of_lt_of_le _ hgrows
      obtain hold | hnone | hacting := (act_step hact).known o hmem
      · exact hknown o hold i hcall
      · rw [hnone] at hcall
        cases hcall
      · rw [hacting] at hcall
        rw [← Option.some.inj hcall]
        exact (List.getElem?_eq_some_iff.mp htask).1
  | env henv =>
      intro o hmem i hcall
      rw [(env_quiet henv).2.1] at hmem
      apply Nat.lt_of_lt_of_le (hknown o hmem i hcall)
      simp

/-- A step to a call was a step of this call. -/
theorem Step.token_of {m m' : Auth} {k : Nat} {t : Task} {pc' : TokenPc} {started : List Task}
    (hstep : Step fromStr m k t m' (.token pc') started) :
    ∃ pc, t = .token pc ∧ (pc'.InProgress → pc.InProgress) := by
  generalize hto : Task.token pc' = t' at hstep
  cases hstep with
  | silent hsilent => cases hsilent <;> first | exact ⟨_, rfl, fun _ => trivial⟩ | cases hto
  | enter henters _ => cases henters <;> first | exact ⟨_, rfl, fun _ => trivial⟩ | cases hto
  | notify hnotifies => cases hnotifies <;> cases hto
  | refuse _ => cases hto
  | invalidate _ => cases hto
  | finish => cases hto
  | _ => exact ⟨_, rfl, fun _ => trivial⟩

/-- The invariant of runs that are considerate. -/
structure Sharing (fromStr : String → Option String) (cfg : Config Auth Task) : Prop where
  orderly : Orderly fromStr cfg
  known : Known cfg
  cleared : Cleared cfg.shared
  answered : Answered cfg.shared.history
  relies : Relies cfg

theorem sharing_preserved : (system fromStr).Preserved
    (fun cfg event => Few fromStr cfg event ∧ Considerate cfg event) (Sharing fromStr) := by
  rintro cfg event hsharing ⟨hfew, hconsiderate⟩
  have horderly := orderly_preserved cfg event hsharing.orderly hfew
  have hknown : Known ((system fromStr).exec cfg event) := known_preserved cfg event hsharing.known trivial
  suffices hrest : Cleared ((system fromStr).exec cfg event).shared ∧
      Answered ((system fromStr).exec cfg event).shared.history ∧ Relies ((system fromStr).exec cfg event) from
    ⟨horderly, hknown, hrest.1, hrest.2.1, hrest.2.2⟩
  clear horderly hknown hfew
  have hmoves := (system fromStr).exec_moves cfg event
  generalize (system fromStr).exec cfg event = cfg' at hmoves
  cases hmoves with
  | still => exact ⟨hsharing.cleared, hsharing.answered, hsharing.relies⟩
  | @act k choice t t' m' started htask hact =>
      have hstep := act_step hact
      have hpolite : ∀ i pc, cfg.tasks[i]? = some (.token pc) → pc.InProgress → t = .token .inspecting →
          StartsRefresh cfg.shared → ∀ error, expects i cfg.shared.history ≠ .failure error := by
        intro i pc hcall hin htoken hstarts error
        exact hconsiderate k choice rfl (htoken ▸ htask) hstarts i pc error hcall hin
      refine ⟨hstep.cleared hsharing.cleared, ?_, ?_⟩
      · apply hstep.answered hsharing.answered hsharing.cleared
        · intro pc htoken hin
          exact hsharing.relies k pc (htoken ▸ htask) hin
        · intro htoken
          exact hpolite k .inspecting (htoken ▸ htask) trivial htoken
      · intro i pc' hcall hin
        obtain ⟨rfl, rfl⟩ | ⟨hne, hold⟩ | hstarted := System.getElem?_set_append htask hcall
        · obtain ⟨pc, rfl, hbefore⟩ := hstep.token_of
          exact (hsharing.relies i pc htask (hbefore hin)).own hstep hin
        · apply (hsharing.relies i pc' hold hin).other hstep hne (hpolite i pc' hold hin)
          intro refresh hunfinished hgeneration
          exact hsharing.orderly.slot htask hunfinished hgeneration
        · cases hstep.started_unfinished hstarted
  | @env outsideEvent m' started henv =>
      obtain ⟨hmonitor, hhistory, hclock, hstarted⟩ := env_quiet henv
      have hstate : m'.state = cfg.shared.state := congrArg Monitor.state hmonitor
      refine ⟨?_, ?_, ?_⟩
      · intro refresh hslot
        rw [hstate] at hslot ⊢
        exact hsharing.cleared refresh hslot
      · rw [hhistory]
        exact hsharing.answered
      · intro i pc hcall hin
        rw [List.getElem?_append] at hcall
        split at hcall
        · exact (hsharing.relies i pc hcall hin).keep hstate hclock (by rw [hhistory]) (fun _ h => h)
        · -- A call that has just been made has not been observed.
          rename_i hnew
          apply expecting_nothing
          rw [hhistory]
          apply expects_unknown
          intro o hmem hsome
          exact hnew (hsharing.known o hmem i hsome)

/-- A call whose refresh has failed returns its error. -/
structure SharesFailure (fromStr : String → Option String) (cfg : Config Auth Task) : Prop where
  answered : Answered cfg.shared.history
  /-- It does so as soon as it looks. -/
  check : ∀ (i : Nat) (refreshId : UInt64) error, cfg.tasks[i]? = some (.token (.checking refreshId)) →
    expects i cfg.shared.history = .failure error →
    ((system fromStr).exec cfg (.act i .proceed)).tasks[i]? = some (.token (.failed (.ofRefresh error)))

theorem check_kept {m : Auth} {refreshId : UInt64} {error : WorkloadIdentityError}
    (hkept : m.state.completedFailure = some (refreshId, error)) (i : Nat) :
    check m i refreshId = ((m.observe (.failed i (.ofRefresh error))).unlock, .failed (.ofRefresh error)) := by
  rw [check, hkept, Option.filter_some, if_pos (by simp)]

theorem Sharing.shares (hsharing : Sharing fromStr cfg) : SharesFailure fromStr cfg where
  answered := hsharing.answered
  check := by
    intro i refreshId error htask hfailure
    obtain ⟨-, -, kept, hkept, hwaited⟩ := (hsharing.relies i _ htask trivial).failure error hfailure
    obtain rfl : refreshId = kept := hwaited refreshId rfl
    have hact : (system fromStr).act cfg.shared i (.token (.checking refreshId)) .proceed =
        some ((cfg.shared.observe (.failed i (.ofRefresh error))).unlock,
          .token (.failed (.ofRefresh error)), []) := by
      simp only [system, act, tokenStep, check_kept hkept, Option.map_some]
    have hlt : i < cfg.tasks.length := (List.getElem?_eq_some_iff.mp htask).1
    rw [(system fromStr).exec_act htask hact, List.append_nil, List.getElem?_set_self hlt]

/-- Over every run with fewer than 2^64 refreshes in which no refresh begins while a failure waits for
a call in progress, the calls that have joined a failed refresh return its error. -/
theorem failure_is_shared (fromStr : String → Option String) (events : List (Event Choice Outside))
    (hmeets : (system fromStr).Meets (fun cfg event => Few fromStr cfg event ∧ Considerate cfg event) Start
      events) : SharesFailure fromStr ((system fromStr).run Start events) := by
  apply Sharing.shares
  apply sharing_preserved.run _ hmeets
  constructor
  · constructor
    · refine ⟨recorded_init, fun i t htask => ?_⟩
      cases htask
    · exact permits_start
    · intro refresh hslot
      cases hslot
  · intro o hmem
    cases hmem
  · intro refresh hslot
    cases hslot
  · exact answered_nil
  · intro i pc htask
    cases htask

/-- A check that implies `Considerate`: who looks finds no call that expects a failure. -/
def considerate (cfg : Config Auth Task) : Event Choice Outside → Bool
  | .env _ => true
  | .act k _ =>
      match cfg.tasks[k]? with
      | some (.token .inspecting) => (List.range cfg.tasks.length).all fun i =>
          decide (expects i cfg.shared.history = .nothing)
      | _ => true

theorem considerate_of_check {event : Event Choice Outside} (h : considerate cfg event = true) :
    Considerate cfg event := by
  rintro k choice rfl htask - i pc error hcall - hfailure
  rw [considerate, htask] at h
  have hlt : i < cfg.tasks.length := (List.getElem?_eq_some_iff.mp hcall).1
  have hnothing := List.all_eq_true.mp h i (List.mem_range.mpr hlt)
  rw [decide_eq_true_eq, hfailure] at hnothing
  cases hnothing

/-- A call waits for a refresh, which fails, and looks at once. -/
def sharedRun : List (Event Choice Outside) :=
  failingFetch 0 1 ++ [.act 0 .proceed, .act 0 .proceed, .act 0 .proceed]

theorem failure_is_shared_at_once :
    ((system some).run Start sharedRun).tasks[0]? = some (.token (.failed (.workloadIdentity .transport))) ∧
    SharesFailure some ((system some).run Start sharedRun) := by
  constructor
  · rfl
  · have hchecks : (system some).Meets (fun cfg event =>
        begins ((system some).exec cfg event).shared.history < UInt64.size ∧ considerate cfg event = true)
        Start sharedRun := by
      decide
    apply failure_is_shared some sharedRun
    exact System.Meets.imp_and _ hchecks hchecks fun cfg event h _ => ⟨h.1, considerate_of_check h.2⟩

/-- Another call begins the next refresh before the waiter looks. -/
def overlookedRun : List (Event Choice Outside) :=
  failingFetch 0 1 ++
    [.env .token, .act 2 .proceed, .act 2 .proceed, .act 2 .proceed, .act 2 .proceed] ++
    [.act 0 .proceed, .act 0 .proceed, .act 0 .proceed, .act 0 .proceed, .act 0 .proceed]

/-- The waiter does not return the error and waits for the next exchange. -/
theorem failure_is_overlooked :
    begins ((system some).run Start overlookedRun).shared.history = 2 ∧
    invalidations ((system some).run Start overlookedRun).shared.history = 0 ∧
    ¬ SharesFailure some ((system some).run Start overlookedRun) := by
  refine ⟨by decide, by decide, ?_⟩
  intro hshares
  have hhistory : ((system some).run Start overlookedRun).shared.history =
      [] ++ .joined 0 2 :: [.joined 2 2, .begun ⟨2, 0, 2⟩, .finished ⟨1, 0, 1⟩ (.error .transport),
        .joined 0 1, .begun ⟨1, 0, 1⟩] := rfl
  have hlost := (hshares.answered _ _ _ 0 hhistory rfl).2 .transport (by decide)
  cases hlost

end Runs

end OpenaiRs.WorkloadIdentity
