import OpenaiRs.AppServer.Shutdown

/-!
# The terminal failure

The failure of the connection is recorded by whoever finds none, and `terminate` answers what
it has drained with the failure that it has found or recorded. One party replaces a recorded
failure: a request whose timer expires before its write is complete stores its own failure in
place of the one that its dropped write has left.
-/

namespace OpenaiRs.AppServer

open Serde Rust Interleaving

section Recording

/-- The failure is recorded, or a failure with the property has replaced it. -/
def Recorded (W : ConnectionFailure → Prop) (failure : ConnectionFailure) (s : Connection) : Prop :=
  s.terminalFailure = some failure ∨ ∃ other, s.terminalFailure = some other ∧ W other

/-- The failure of a request that timed out before its write was complete. -/
def IsWriteTimeout (failure : ConnectionFailure) : Prop := ∃ call id, failure = Call.writeTimeout call id

variable {s : Connection} {op : Operation} {W : ConnectionFailure → Prop} {failure : ConnectionFailure}

theorem terminalFailure_perform (hop : ∀ other, op ≠ .overwrite other)
    (h : s.terminalFailure = some failure) : (s.perform op).terminalFailure = some failure := by
  cases op with
  | overwrite other => exact absurd rfl (hop other)
  | record other =>
      change s.terminalFailure.or (some other) = some failure
      rw [h]
      rfl
  | remove id =>
      simp only [Connection.perform]
      split <;> exact h
  | dropPermit id =>
      simp only [Connection.perform]
      split <;> exact h
  | _ => exact h

theorem Recorded.perform (h : Recorded W failure s) (hop : ∀ other, op = .overwrite other → W other) :
    Recorded W failure (s.perform op) := by
  by_cases hoverwrite : ∃ other, op = .overwrite other
  · obtain ⟨other, rfl⟩ := hoverwrite
    exact .inr ⟨other, rfl, hop other rfl⟩
  · have hne := not_exists.mp hoverwrite
    obtain hsame | ⟨other, hother, hW⟩ := h
    · exact .inl (terminalFailure_perform hne hsame)
    · exact .inr ⟨other, terminalFailure_perform hne hother, hW⟩

end Recording

section Broadcast

/-- The failure with which `terminate` answers. -/
def TerminatePc.carries : TerminatePc → Option ConnectionFailure
  | .takeEvents failure => some failure
  | .drain failure => some failure
  | .broadcast failure => some failure
  | .release failure _ => some failure
  | _ => none

/-- The call is under way and has not recorded its failure yet. -/
def TerminatePc.early : TerminatePc → Bool
  | .close _ => true
  | .probe _ => true
  | .record _ => true
  | _ => false

/-- A request was answered with the failure. -/
def Connection.Told (s : Connection) (failure : ConnectionFailure) : Prop :=
  ∃ id, (s.channels id).value = some (.connection failure)

/-- A call of `terminate` is going to answer with the failure. -/
def Carries (cfg : Config Connection Task) (failure : ConnectionFailure) : Prop :=
  ∃ a pc, party cfg a = some pc ∧ pc.carries = some failure

/-- All requests are told the same failure, which was recorded. -/
structure Agreed (W : ConnectionFailure → Prop) (cfg : Config Connection Task) : Prop where
  unstarted : cfg.shared.shutdownStarted = false → ∀ failure, ¬ cfg.shared.Told failure
  early : ∀ a pc, party cfg a = some pc → pc.early = true → ∀ failure, ¬ cfg.shared.Told failure
  common : ∃ agreed, (∀ failure, Carries cfg failure ∨ cfg.shared.Told failure → failure = agreed) ∧
    ((∃ failure, Carries cfg failure ∨ cfg.shared.Told failure) → Recorded W agreed cfg.shared)

variable {s : Connection} {op : Operation} {before after : Option TerminatePc}
  {W : ConnectionFailure → Prop} {failure : ConnectionFailure}

theorem TerminatePc.not_idle_of_carries {pc : TerminatePc} (h : pc.carries = some failure) :
    ¬ Idle (some pc) := by
  rintro (hnone | ⟨other, hswap⟩)
  · cases hnone
  · cases hswap
    cases h

theorem TerminatePc.not_idle_of_early {pc : TerminatePc} (h : pc.early = true) : ¬ Idle (some pc) := by
  rintro (hnone | ⟨other, hswap⟩)
  · cases hnone
  · cases hswap
    cases h

theorem Shutdowns.broadcast {id : Nat} (h : Shutdowns s before (.broadcast failure id) after) :
    before = some (.broadcast failure) ∧ after = some (.release failure id) := by
  cases h with
  | step hstep =>
      cases hstep
      exact ⟨rfl, rfl⟩
  | finish hend => cases hend
  | rest hquiet => exact hquiet.elim
  | quiet _ hquiet => exact hquiet.elim

/-- A party that has not recorded its failure has just started, or had not before. -/
theorem Shutdowns.early (h : Shutdowns s before op after) {pc : TerminatePc} (hafter : after = some pc)
    (hpc : pc.early = true) :
    (∃ earlier, before = some earlier ∧ earlier.early = true) ∨ s.shutdownStarted = false := by
  have hidle : ¬ Idle after := by
    rw [hafter]
    exact TerminatePc.not_idle_of_early hpc
  cases h with
  | step hstep =>
      cases hafter
      cases hstep with
      | swap hstarted => exact .inr hstarted
      | close => exact .inl ⟨_, rfl, rfl⟩
      | probe => exact .inl ⟨_, rfl, rfl⟩
      | _ => cases hpc
  | finish _ h => exact absurd h hidle
  | rest => exact .inl ⟨pc, hafter, hpc⟩
  | quiet _ _ h => exact absurd h hidle

/-- A party carries the failure that it has found or recorded. -/
theorem Shutdowns.carries (h : Shutdowns s before op after) {pc : TerminatePc} (hafter : after = some pc)
    (hpc : pc.carries = some failure) :
    (∃ earlier, before = some earlier ∧ earlier.carries = some failure) ∨
      ∃ own, before = some (.record own) ∧ op = .record own ∧ failure = s.terminalFailure.getD own := by
  have hidle : ¬ Idle after := by
    rw [hafter]
    exact TerminatePc.not_idle_of_carries hpc
  cases h with
  | step hstep =>
      cases hafter
      cases hstep with
      | @record own => exact .inr ⟨own, rfl, rfl, (Option.some.inj hpc).symm⟩
      | takeEvents => exact .inl ⟨_, rfl, hpc⟩
      | drain => exact .inl ⟨_, rfl, hpc⟩
      | broadcast => exact .inl ⟨_, rfl, hpc⟩
      | release => exact .inl ⟨_, rfl, hpc⟩
      | _ => cases hpc
  | finish _ h => exact absurd h hidle
  | rest => exact .inl ⟨pc, hafter, hpc⟩
  | quiet _ _ h => exact absurd h hidle

section Step

variable {cfg cfg' : Config Connection Task} {event : Event Choice Outside} {who : Option Nat}

/-- Only `terminate` tells a request the failure of the connection. -/
theorem PartyStep.told (h : PartyStep cfg event cfg' who op) (htold : cfg'.shared.Told failure) :
    cfg.shared.Told failure ∨ party cfg who = some (.broadcast failure) := by
  obtain ⟨id, hvalue⟩ := htold
  obtain ⟨reader, hshared⟩ := h.shared
  rw [hshared] at hvalue
  change ((cfg.shared.perform op).channels id).value = _ at hvalue
  obtain hold | ⟨other, rfl, heq⟩ | ⟨rfl, -⟩ := value_cases hvalue
  · exact .inl ⟨id, hold⟩
  · cases heq
    exact .inr h.shutdown.broadcast.1
  · exact absurd rfl (h.answers id _ failure rfl)

/-- Before and after a step that no other party carries a failure beside. -/
theorem PartyStep.carries (h : PartyStep cfg event cfg' who op) (hcarries : Carries cfg' failure) :
    Carries cfg failure ∨ ∃ own, party cfg who = some (.record own) ∧ op = .record own ∧
      failure = cfg.shared.terminalFailure.getD own := by
  obtain ⟨a, pc, ha, hpc⟩ := hcarries
  by_cases heq : a = who
  · subst heq
    obtain ⟨earlier, hbefore, hearlier⟩ | hrecord := h.shutdown.carries ha hpc
    · exact .inl ⟨a, earlier, hbefore, hearlier⟩
    · exact .inr hrecord
  · have hactive : ¬ Idle (party cfg' a) := by
      rw [ha]
      exact TerminatePc.not_idle_of_carries hpc
    rw [h.other_active heq hactive] at ha
    exact .inl ⟨a, pc, ha, hpc⟩

/-- While a party is about to record, nobody carries a failure. -/
theorem Solitary.not_carries (h : Solitary cfg) {own : ConnectionFailure}
    (hrecord : party cfg who = some (.record own)) : ¬ Carries cfg failure := by
  rintro ⟨a, pc, ha, hpc⟩
  have hsame : a = who := by
    apply h.solo
    · rw [ha]
      exact TerminatePc.not_idle_of_carries hpc
    · rw [hrecord]
      exact TerminatePc.not_idle_of_early rfl
  subst hsame
  rw [ha] at hrecord
  cases hrecord
  cases hpc

theorem PartyStep.agreed (h : PartyStep cfg event cfg' who op) (hsolitary : Solitary cfg)
    (hagreed : Agreed W cfg) (hop : ∀ other, op = .overwrite other → W other) : Agreed W cfg' := by
  obtain ⟨reader, hshared⟩ := h.shared
  constructor
  · intro hstarted other htold
    have hbefore : cfg.shared.shutdownStarted = false := by
      by_contra hne
      rw [hshared] at hstarted
      have hafter := shutdownStarted_perform op (by simpa using hne)
      exact absurd (hafter.symm.trans hstarted) (by simp)
    obtain hold | hbroadcast := h.told htold
    · exact hagreed.unstarted hbefore other hold
    · have hactive := hsolitary.started who (by
        rw [hbroadcast]
        exact TerminatePc.not_idle_of_carries rfl)
      rw [hbefore] at hactive
      cases hactive
  · intro a pc ha hearly other htold
    have hactive : ¬ Idle (party cfg' a) := by
      rw [ha]
      exact TerminatePc.not_idle_of_early hearly
    have hearlier : (∃ earlier, party cfg a = some earlier ∧ earlier.early = true) ∨
        cfg.shared.shutdownStarted = false := by
      by_cases heq : a = who
      · subst heq
        exact h.shutdown.early ha hearly
      · rw [h.other_active heq hactive] at ha
        exact .inl ⟨pc, ha, hearly⟩
    obtain hold | hbroadcast := h.told htold
    · obtain ⟨earlier, hbefore, hpc⟩ | hstarted := hearlier
      · exact hagreed.early a earlier hbefore hpc other hold
      · exact hagreed.unstarted hstarted other hold
    · -- The party that answers is past its record, and it is the only one.
      have hwho : ¬ Idle (party cfg who) := by
        rw [hbroadcast]
        exact TerminatePc.not_idle_of_carries rfl
      obtain ⟨earlier, hbefore, hpc⟩ | hstarted := hearlier
      · have hsame : a = who := by
          apply hsolitary.solo a who ?_ hwho
          rw [hbefore]
          exact TerminatePc.not_idle_of_early hpc
        subst hsame
        rw [hbefore] at hbroadcast
        cases hbroadcast
        cases hpc
      · rw [hsolitary.started who hwho] at hstarted
        cases hstarted
  · by_cases hrecord : ∃ own, party cfg who = some (.record own) ∧ op = .record own
    · obtain ⟨own, hbefore, rfl⟩ := hrecord
      refine ⟨cfg.shared.terminalFailure.getD own, ?_, ?_⟩
      · rintro other (hcarries | htold)
        · obtain hold | ⟨own', hbefore', -, heq⟩ := h.carries hcarries
          · exact absurd hold (hsolitary.not_carries hbefore)
          · cases hbefore.symm.trans hbefore'
            exact heq
        · obtain hold | hbroadcast := h.told htold
          · exact absurd hold (hagreed.early who _ hbefore rfl other)
          · cases hbefore.symm.trans hbroadcast
      · intro _
        left
        rw [hshared]
        change cfg.shared.terminalFailure.or (some own) = _
        cases cfg.shared.terminalFailure <;> rfl
    · obtain ⟨agreed, hsame, hrecorded⟩ := hagreed.common
      have hold : ∀ other, Carries cfg' other ∨ cfg'.shared.Told other →
          Carries cfg other ∨ cfg.shared.Told other := by
        rintro other (hcarries | htold)
        · obtain hold | ⟨own, hbefore, hop', -⟩ := h.carries hcarries
          · exact .inl hold
          · exact absurd ⟨own, hbefore, hop'⟩ hrecord
        · obtain hold | hbroadcast := h.told htold
          · exact .inr hold
          · exact .inl ⟨who, _, hbroadcast, rfl⟩
      refine ⟨agreed, fun other hother => hsame other (hold other hother), ?_⟩
      rintro ⟨other, hother⟩
      rw [hshared]
      exact (hrecorded ⟨other, hold other hother⟩).perform hop

end Step

end Broadcast

section Runs

variable (settings : Settings) {P : Config Connection Task → Event Choice Outside → Prop}
  {W : ConnectionFailure → Prop}

/-- A recorded failure stays, up to the replacements that the condition allows. -/
theorem recorded_preserved
    (hreplaced : ∀ cfg event other, P cfg event → Overwrites cfg event → IsWriteTimeout other → W other)
    (failure : ConnectionFailure) :
    (system settings).Preserved P fun cfg => Coordinated settings cfg ∧ Recorded W failure cfg.shared := by
  rintro cfg event ⟨hcfg, hrecorded⟩ hP
  refine ⟨coordinated_preserved settings cfg event hcfg trivial, ?_⟩
  obtain heq | ⟨who, op, hstep⟩ := exec_party hcfg.owned hcfg.consistent.shared.logged hcfg.orderly event
  · rw [heq]
    exact hrecorded
  · obtain ⟨reader, hshared⟩ := hstep.shared
    rw [hshared]
    refine hrecorded.perform ?_
    intro other hop
    obtain ⟨htimeout, hoverwrites⟩ := hstep.overwrites other hop
    exact hreplaced cfg event other hP hoverwrites htimeout

theorem agreed_preserved
    (hreplaced : ∀ cfg event other, P cfg event → Overwrites cfg event → IsWriteTimeout other → W other) :
    (system settings).Preserved P fun cfg => Coordinated settings cfg ∧ Agreed W cfg := by
  rintro cfg event ⟨hcfg, hagreed⟩ hP
  refine ⟨coordinated_preserved settings cfg event hcfg trivial, ?_⟩
  obtain heq | ⟨who, op, hstep⟩ := exec_party hcfg.owned hcfg.consistent.shared.logged hcfg.orderly event
  · rw [heq]
    exact hagreed
  · refine hstep.agreed hcfg.solitary hagreed ?_
    intro other hop
    obtain ⟨htimeout, hoverwrites⟩ := hstep.overwrites other hop
    exact hreplaced cfg event other hP hoverwrites htimeout

theorem agreed_start : Agreed W (start settings) := by
  have htold : ∀ failure, ¬ (start settings).shared.Told failure := by
    rintro failure ⟨id, hvalue⟩
    cases hvalue
  have hcarries : ∀ failure, ¬ Carries (start settings) failure := by
    rintro failure ⟨a, pc, ha, -⟩
    rw [party_start] at ha
    cases ha
  constructor
  · exact fun _ => htold
  · exact fun _ _ _ _ => htold
  · refine ⟨closedFailure "", ?_, ?_⟩
    · rintro failure (h | h)
      · exact absurd h (hcarries failure)
      · exact absurd h (htold failure)
    · rintro ⟨failure, h | h⟩
      · exact absurd h (hcarries failure)
      · exact absurd h (htold failure)

theorem agreed_run (events : List (Event Choice Outside)) :
    Agreed IsWriteTimeout ((system settings).run (start settings) events) :=
  ((agreed_preserved settings fun _ _ _ _ _ h => h).run_free
    ⟨coordinated_start settings, agreed_start settings⟩ events).2

end Runs

section Main

/-- No request that timed out replaces the failure of the connection. -/
def Unreplaced (cfg : Config Connection Task) (event : Event Choice Outside) : Prop :=
  ¬ Overwrites cfg event

theorem Recorded.unreplaced {failure : ConnectionFailure} {s : Connection}
    (h : Recorded (fun _ => False) failure s) : s.terminalFailure = some failure := by
  obtain hsame | ⟨other, -, hfalse⟩ := h
  · exact hsame
  · exact hfalse.elim

/-- What the requests of a reachable configuration are told by `terminate`. -/
structure ToldTogether (cfg : Config Connection Task) (failure : ConnectionFailure) : Prop where
  /-- A drained request is told the failure, unless it is still to be answered or does not wait. -/
  drained : ∀ id ∈ cfg.shared.drainedIds, id ∈ cfg.shared.drained ∨
    (cfg.shared.channels id).receiverDropped = true ∨
    (cfg.shared.channels id).value = some (.connection failure)
  /-- A request that returns a failure of the connection by its channel returns this one. -/
  received : ∀ (i : Nat) (t : Task) other, cfg.tasks[i]? = some t →
    t.exit = some (.received (.connection other)) → other = failure

theorem Agreed.toldTogether {settings : Settings} {W : ConnectionFailure → Prop}
    {cfg : Config Connection Task} (hcfg : Coordinated settings cfg) (h : Agreed W cfg) :
    ∃ failure, ToldTogether cfg failure ∧
      (∀ other, cfg.shared.Told other → other = failure ∧ Recorded W failure cfg.shared) := by
  obtain ⟨agreed, hsame, hrecorded⟩ := h.common
  refine ⟨agreed, ⟨?_, ?_⟩, fun other htold => ⟨hsame other (.inr htold), hrecorded ⟨other, .inr htold⟩⟩⟩
  · intro id hmem
    obtain hdrained | hreceiver | ⟨other, hvalue⟩ := hcfg.consistent.shared.answered.drained id hmem
    · exact .inl hdrained
    · exact .inr (.inl hreceiver)
    · cases hsame other (.inr ⟨id, hvalue⟩)
      exact .inr (.inr hvalue)
  · intro i t other htask hexit
    obtain ⟨id, -, hvalue⟩ := (hcfg.consistent.tasks i t htask).value _ hexit
    exact hsame other (.inr ⟨id, hvalue⟩)

/-- Once recorded, the failure of the connection stays until a request that timed out before its
write was complete replaces it by its own; and all drained requests are told one failure, which is
the recorded one up to such a replacement. -/
theorem terminal_failure_kept (settings : Settings) (events : List (Event Choice Outside)) :
    let cfg := (system settings).run (start settings) events
    (∀ failure more, cfg.shared.terminalFailure = some failure →
      Recorded IsWriteTimeout failure ((system settings).run cfg more).shared ∧
      ((system settings).Meets Unreplaced cfg more →
        ((system settings).run cfg more).shared.terminalFailure = some failure)) ∧
    (∃ failure, ToldTogether cfg failure ∧ (∀ other, cfg.shared.Told other →
      other = failure ∧ Recorded IsWriteTimeout failure cfg.shared)) ∧
    ((system settings).Meets Unreplaced (start settings) events →
      ∀ failure, cfg.shared.Told failure → cfg.shared.terminalFailure = some failure) := by
  intro cfg
  have hcfg := coordinated_run settings events
  refine ⟨?_, (agreed_run settings events).toldTogether hcfg, ?_⟩
  · intro failure more hfailure
    constructor
    · exact ((recorded_preserved settings (fun _ _ _ _ _ h => h) failure).run_free
        ⟨hcfg, .inl hfailure⟩ more).2
    · intro hmeets
      apply Recorded.unreplaced
      have hpreserved := recorded_preserved settings
        (fun _ _ _ (h : Unreplaced _ _) hoverwrites _ => h hoverwrites) failure
      exact (hpreserved.run ⟨hcfg, .inl hfailure⟩ hmeets).2
  · intro hmeets failure htold
    have hpreserved := agreed_preserved settings
      (fun _ _ _ (h : Unreplaced _ _) hoverwrites _ => h hoverwrites)
    obtain ⟨_, hagreed⟩ := hpreserved.run ⟨coordinated_start settings, agreed_start settings⟩ hmeets
    obtain ⟨agreed, -, hrecorded⟩ := hagreed.toldTogether hcfg
    obtain ⟨rfl, hrecorded⟩ := hrecorded failure htold
    exact Recorded.unreplaced hrecorded

/-- A request times out when three bytes of its frame are accepted, and its dropped write has
recorded a failure. -/
def cutRequest : List (Event Choice Outside) :=
  .env (.call ⟨"thread/list", none⟩) :: List.replicate 9 (.act 0 .proceed) ++
    [.act 0 (.accept 3), .act 0 .timeout, .act 0 .proceed, .act 0 .proceed]

/-- The request goes on and stores its own failure. -/
def replacedFailure : List (Event Choice Outside) := List.replicate 5 (.act 0 .proceed)

theorem recorded_failure_replaced :
    ((system singleRequest).run (start singleRequest) cutRequest).shared.terminalFailure =
      some cancelledWrite ∧
    ((system singleRequest).run ((system singleRequest).run (start singleRequest) cutRequest)
      replacedFailure).shared.terminalFailure =
      some (Call.writeTimeout ⟨"thread/list", none⟩ 1) ∧
    Call.writeTimeout ⟨"thread/list", none⟩ 1 ≠ cancelledWrite := by
  decide

end Main

end OpenaiRs.AppServer
