import OpenaiRs.WorkloadIdentity.Calls

/-!
# Invalidation is final

An epoch ends with an invalidation. As long as the counters do not wrap around, the cached token and
the refresh in the slot belong to the current epoch, and a returned lease belongs to the epoch in
which it is returned.
-/

namespace OpenaiRs.WorkloadIdentity

open Interleaving

section History

/-- The number of refreshes. -/
def begins : List Observation → Nat
  | [] => 0
  | .begun _ :: rest => begins rest + 1
  | _ :: rest => begins rest

/-- The number of invalidations. -/
def invalidations : List Observation → Nat
  | [] => 0
  | .invalidated _ :: rest => invalidations rest + 1
  | _ :: rest => invalidations rest

/-- The refreshes of the current epoch. -/
def epoch : List Observation → List RefreshInFlight
  | [] => []
  | .begun refresh :: rest => refresh :: epoch rest
  | .invalidated _ :: _ => []
  | _ :: rest => epoch rest

/-- The numbers of every refresh count what has happened before it. -/
def Numbered : List Observation → Prop
  | [] => True
  | .begun refresh :: rest =>
      (refresh.id.toNat = begins rest + 1 ∧ refresh.tokenGeneration.toNat = begins rest + 1 ∧
        refresh.generation.toNat = invalidations rest ∧ invalidations rest ≤ begins rest) ∧
        Numbered rest
  | _ :: rest => Numbered rest

variable {h newer older : List Observation} {refresh other : RefreshInFlight}

theorem begins_append : begins (newer ++ older) = begins newer + begins older := by
  induction newer with
  | nil => exact (Nat.zero_add _).symm
  | cons o newer ih =>
      cases o with
      | begun refresh =>
          rw [List.cons_append, begins, begins, ih]
          omega
      | _ => exact ih

theorem begins_le_cons (o : Observation) (h : List Observation) : begins h ≤ begins (o :: h) := by
  cases o with
  | begun refresh => exact Nat.le_succ _
  | _ => exact Nat.le_refl _

theorem begun_of_mem_epoch (hmem : refresh ∈ epoch h) : .begun refresh ∈ h := by
  induction h with
  | nil => cases hmem
  | cons o rest ih =>
      cases o with
      | begun first =>
          obtain rfl | hrest := List.mem_cons.mp hmem
          · exact .head _
          · exact .tail _ (ih hrest)
      | invalidated generation => cases hmem
      | _ => exact .tail _ (ih hmem)

/-- A refresh of the current epoch has begun after every invalidation. -/
theorem epoch_append_invalidated {generation : UInt64}
    (hmem : refresh ∈ epoch (newer ++ .invalidated generation :: older)) : .begun refresh ∈ newer := by
  induction newer with
  | nil => cases hmem
  | cons o newer ih =>
      cases o with
      | begun first =>
          obtain rfl | hrest := List.mem_cons.mp hmem
          · exact .head _
          · exact .tail _ (ih hrest)
      | invalidated generation => cases hmem
      | _ => exact .tail _ (ih hmem)

namespace Numbered

theorem of_append (hnumbered : Numbered (newer ++ older)) : Numbered older := by
  induction newer with
  | nil => exact hnumbered
  | cons o newer ih =>
      cases o with
      | begun first => exact ih hnumbered.2
      | _ => exact ih hnumbered

/-- The numbers of a refresh do not exceed what has happened. -/
theorem le (hnumbered : Numbered h) (hmem : .begun refresh ∈ h) :
    refresh.id.toNat ≤ begins h ∧ refresh.tokenGeneration = refresh.id ∧
      refresh.generation.toNat ≤ invalidations h := by
  induction h with
  | nil => cases hmem
  | cons o rest ih =>
      have hold : .begun refresh ∈ rest → Numbered rest → begins rest ≤ begins (o :: rest) →
          invalidations rest ≤ invalidations (o :: rest) →
          refresh.id.toNat ≤ begins (o :: rest) ∧ refresh.tokenGeneration = refresh.id ∧
            refresh.generation.toNat ≤ invalidations (o :: rest) := by
        intro hrest hnumbered hbegins hinvalidations
        obtain ⟨hid, htoken, hgeneration⟩ := ih hnumbered hrest
        exact ⟨Nat.le_trans hid hbegins, htoken, Nat.le_trans hgeneration hinvalidations⟩
      cases o with
      | begun first =>
          obtain heq | hrest := List.mem_cons.mp hmem
          · cases heq
            obtain ⟨⟨hid, htoken, hgeneration, -⟩, -⟩ := hnumbered
            exact ⟨Nat.le_of_eq hid, UInt64.toNat_inj.mp (htoken.trans hid.symm), Nat.le_of_eq hgeneration⟩
          · exact hold hrest hnumbered.2 (Nat.le_succ _) (Nat.le_refl _)
      | invalidated generation =>
          obtain heq | hrest := List.mem_cons.mp hmem
          · cases heq
          · exact hold hrest hnumbered (Nat.le_refl _) (Nat.le_succ _)
      | _ =>
          obtain heq | hrest := List.mem_cons.mp hmem
          · cases heq
          · exact hold hrest hnumbered (Nat.le_refl _) (Nat.le_refl _)

/-- Two refreshes have different numbers. -/
theorem eq_of_id (hnumbered : Numbered h) (hmem : .begun refresh ∈ h) (hother : .begun other ∈ h)
    (hid : refresh.id = other.id) : refresh = other := by
  induction h with
  | nil => cases hmem
  | cons o rest ih =>
      cases o with
      | begun first =>
          obtain ⟨⟨hfirst, -, -, -⟩, hnumbered⟩ := hnumbered
          have hold : ∀ {r : RefreshInFlight}, .begun r ∈ rest → r.id ≠ first.id := by
            intro r hr heq
            have hle := (hnumbered.le hr).1
            rw [heq, hfirst] at hle
            omega
          obtain heq | hrest := List.mem_cons.mp hmem
          · cases heq
            obtain heq | hotherRest := List.mem_cons.mp hother
            · cases heq
              rfl
            · exact absurd hid.symm (hold hotherRest)
          · obtain heq | hotherRest := List.mem_cons.mp hother
            · cases heq
              exact absurd hid (hold hrest)
            · exact ih hnumbered hrest hotherRest
      | _ =>
          obtain heq | hrest := List.mem_cons.mp hmem
          · cases heq
          obtain heq | hotherRest := List.mem_cons.mp hother
          · cases heq
          exact ih hnumbered hrest hotherRest

/-- The refreshes of the current epoch carry its number. -/
theorem generation_eq (hnumbered : Numbered h) (hmem : refresh ∈ epoch h) :
    refresh.generation.toNat = invalidations h ∧ invalidations h < begins h := by
  induction h with
  | nil => cases hmem
  | cons o rest ih =>
      cases o with
      | begun first =>
          obtain ⟨⟨-, -, hgeneration, hbound⟩, hnumbered⟩ := hnumbered
          obtain rfl | hrest := List.mem_cons.mp hmem
          · exact ⟨hgeneration, Nat.lt_succ_of_le hbound⟩
          · obtain ⟨hsame, hlt⟩ := ih hnumbered hrest
            exact ⟨hsame, Nat.lt_succ_of_lt hlt⟩
      | invalidated generation => cases hmem
      | _ => exact ih hnumbered hmem

/-- A refresh with the number of the current epoch belongs to it. -/
theorem mem_epoch (hnumbered : Numbered h) (hmem : .begun refresh ∈ h)
    (hgeneration : refresh.generation.toNat = invalidations h) : refresh ∈ epoch h := by
  induction h with
  | nil => cases hmem
  | cons o rest ih =>
      cases o with
      | begun first =>
          obtain heq | hrest := List.mem_cons.mp hmem
          · cases heq
            exact .head _
          · exact .tail _ (ih hnumbered.2 hrest hgeneration)
      | invalidated generation =>
          obtain heq | hrest := List.mem_cons.mp hmem
          · cases heq
          · have hle := (Numbered.le (h := rest) hnumbered hrest).2.2
            rw [hgeneration, invalidations] at hle
            omega
      | _ =>
          obtain heq | hrest := List.mem_cons.mp hmem
          · cases heq
          · exact ih hnumbered hrest hgeneration

/-- Later refreshes have larger numbers. -/
theorem lt (hnumbered : Numbered (newer ++ older)) (hmem : .begun refresh ∈ newer) :
    begins older < refresh.id.toNat := by
  induction newer with
  | nil => cases hmem
  | cons o newer ih =>
      cases o with
      | begun first =>
          obtain ⟨⟨hid, -, -, -⟩, hnumbered⟩ := hnumbered
          obtain heq | hrest := List.mem_cons.mp hmem
          · cases heq
            change refresh.id.toNat = begins (newer ++ older) + 1 at hid
            rw [begins_append] at hid
            omega
          · exact ih hnumbered hrest
      | _ =>
          obtain heq | hrest := List.mem_cons.mp hmem
          · cases heq
          · exact ih hnumbered hrest

end Numbered

end History

section Records

variable (fromStr : String → Option String)

/-- A call of `token` has joined a refresh or has ended. -/
def Observation.Quiet : Observation → Prop
  | .joined _ _ => True
  | .returned _ _ => True
  | .failed _ _ => True
  | _ => False

/-- The lease of the token that the refresh has obtained. -/
def Produced (h : List Observation) (refresh : RefreshInFlight) (lease : TokenLease) : Prop :=
  ∃ token, .finished refresh (.ok token) ∈ h ∧ tokenLease fromStr token = .ok lease

/-- Every lease was returned in the epoch of its refresh. -/
def Returns (h : List Observation) : Prop :=
  ∀ newer older i lease, h = newer ++ .returned i lease :: older →
    ∃ refresh ∈ epoch older, Produced fromStr older refresh lease

/-- The state agrees with what has happened. -/
structure Recorded (s : TokenState) (h : List Observation) : Prop where
  numbered : Numbered h
  generation : s.generation.toNat = invalidations h
  nextRefreshId : s.nextRefreshId.toNat = begins h
  nextTokenGeneration : s.nextTokenGeneration.toNat = begins h
  bound : invalidations h ≤ begins h
  stamped : ∀ refresh token, .finished refresh (.ok token) ∈ h → token.generation = refresh.tokenGeneration
  cached : ∀ token, s.cached = some token → ∃ refresh ∈ epoch h, .finished refresh (.ok token) ∈ h
  refreshing : ∀ refresh, s.refreshing = some refresh → refresh ∈ epoch h
  returns : Returns fromStr h

variable {fromStr} {s s' : TokenState} {h : List Observation} {o : Observation} {refresh : RefreshInFlight}
  {token : CachedToken} {result : Except WorkloadIdentityError CachedToken} {generation : UInt64} {i : Nat}

/-- What is not a lease does not have to be justified. -/
theorem Returns.cons (hreturns : Returns fromStr h)
    (ho : ∀ i lease, o = .returned i lease → ∃ refresh ∈ epoch h, Produced fromStr h refresh lease) :
    Returns fromStr (o :: h) := by
  intro newer older i lease hsplit
  cases newer with
  | nil =>
      injection hsplit with hfirst hrest
      subst hrest
      exact ho i lease hfirst
  | cons first newer =>
      injection hsplit with _ hrest
      exact hreturns newer older i lease hrest

theorem recorded_init : Recorded fromStr .default [] where
  numbered := trivial
  generation := rfl
  nextRefreshId := rfl
  nextTokenGeneration := rfl
  bound := Nat.le_refl _
  stamped _ _ hmem := by cases hmem
  cached _ hcached := by cases hcached
  refreshing _ hrefreshing := by cases hrefreshing
  returns newer older i lease hsplit := by simp at hsplit

namespace Recorded

/-- What does not concern the state does not disturb the records. -/
theorem observed (hrecorded : Recorded fromStr s h) (ho : o.Quiet)
    (hreturns : ∀ i lease, o = .returned i lease → ∃ refresh ∈ epoch h, Produced fromStr h refresh lease) :
    Recorded fromStr s (o :: h) := by
  have hkeep : begins (o :: h) = begins h ∧ invalidations (o :: h) = invalidations h ∧
      epoch (o :: h) = epoch h ∧ (Numbered (o :: h) ↔ Numbered h) := by
    cases o with
    | begun refresh => cases ho
    | invalidated generation => cases ho
    | _ => exact ⟨rfl, rfl, rfl, Iff.rfl⟩
  obtain ⟨hbegins, hinvalidations, hepoch, hnumbered⟩ := hkeep
  exact {
    numbered := hnumbered.mpr hrecorded.numbered
    generation := hrecorded.generation.trans hinvalidations.symm
    nextRefreshId := hrecorded.nextRefreshId.trans hbegins.symm
    nextTokenGeneration := hrecorded.nextTokenGeneration.trans hbegins.symm
    bound := by
      rw [hbegins, hinvalidations]
      exact hrecorded.bound
    stamped := by
      intro r t hmem
      obtain rfl | hrest := List.mem_cons.mp hmem
      · cases ho
      · exact hrecorded.stamped r t hrest
    cached := by
      intro t hcached
      obtain ⟨refresh, hmem, hfinished⟩ := hrecorded.cached t hcached
      exact ⟨refresh, hepoch ▸ hmem, .tail _ hfinished⟩
    refreshing := fun r hrefreshing => hepoch ▸ hrecorded.refreshing r hrefreshing
    returns := hrecorded.returns.cons hreturns }

theorem joined (hrecorded : Recorded fromStr s h) (i : Nat) (refreshId : UInt64) :
    Recorded fromStr s (.joined i refreshId :: h) :=
  hrecorded.observed trivial (by simp)

theorem failed (hrecorded : Recorded fromStr s h) (i : Nat) (error : Error) :
    Recorded fromStr s (.failed i error :: h) :=
  hrecorded.observed trivial (by simp)

/-- The answer to a call that has found a cached token. -/
theorem answered (hrecorded : Recorded fromStr s h) (hcached : s.cached = some token) (i : Nat) :
    Recorded fromStr s (.ofResult i (tokenLease fromStr token) :: h) := by
  cases hlease : tokenLease fromStr token with
  | error error => exact hrecorded.failed i error
  | ok lease =>
      obtain ⟨refresh, hepoch, hfinished⟩ := hrecorded.cached token hcached
      refine hrecorded.observed trivial ?_
      intro j other heq
      cases heq
      exact ⟨refresh, hepoch, token, hfinished, hlease⟩

theorem toNat_succ {a : UInt64} (h : a.toNat + 1 < UInt64.size) : (a + 1).toNat = a.toNat + 1 := by
  rw [UInt64.toNat_add]
  exact Nat.mod_eq_of_lt h

theorem begun (hrecorded : Recorded fromStr s h) (hfew : begins h + 1 < UInt64.size) :
    Recorded fromStr s.beginRefresh (.begun s.nextRefresh :: h) := by
  have hid : (s.nextRefreshId + 1).toNat = begins h + 1 := by
    rw [toNat_succ (hrecorded.nextRefreshId ▸ hfew), hrecorded.nextRefreshId]
  have htoken : (s.nextTokenGeneration + 1).toNat = begins h + 1 := by
    rw [toNat_succ (hrecorded.nextTokenGeneration ▸ hfew), hrecorded.nextTokenGeneration]
  exact {
    numbered := ⟨⟨hid, htoken, hrecorded.generation, hrecorded.bound⟩, hrecorded.numbered⟩
    generation := hrecorded.generation
    nextRefreshId := hid
    nextTokenGeneration := htoken
    bound := Nat.le_succ_of_le hrecorded.bound
    stamped := fun r t hmem => hrecorded.stamped r t (List.mem_of_ne_of_mem (by simp) hmem)
    cached := by
      intro token hcached
      obtain ⟨refresh, hepoch, hfinished⟩ := hrecorded.cached token hcached
      exact ⟨refresh, .tail _ hepoch, .tail _ hfinished⟩
    refreshing := by
      intro refresh hrefreshing
      rw [← Option.some.inj hrefreshing]
      exact .head _
    returns := hrecorded.returns.cons (by simp) }

/-- An invalidation empties the cache and the slot. -/
theorem invalidated (hrecorded : Recorded fromStr s h) (hfew : begins h < UInt64.size)
    (hinvalidate : s.invalidateIfGeneration generation = some s') :
    Recorded fromStr s' (.invalidated generation :: h) := by
  obtain ⟨⟨token, hcached, -⟩, rfl⟩ := TokenState.invalidate_eq_some hinvalidate
  obtain ⟨owner, howner, -⟩ := hrecorded.cached token hcached
  have hroom : invalidations h < begins h := (hrecorded.numbered.generation_eq howner).2
  exact {
    numbered := hrecorded.numbered
    generation := by
      change (s.generation + 1).toNat = invalidations h + 1
      rw [toNat_succ (by rw [hrecorded.generation]; omega), hrecorded.generation]
    nextRefreshId := hrecorded.nextRefreshId
    nextTokenGeneration := hrecorded.nextTokenGeneration
    bound := hroom
    stamped := fun r t hmem => hrecorded.stamped r t (List.mem_of_ne_of_mem (by simp) hmem)
    cached := fun _ hnone => by cases hnone
    refreshing := by
      intro refresh hrefreshing
      obtain ⟨hslot, hother⟩ := Option.filter_eq_some_iff.mp hrefreshing
      have hsame := (hrecorded.numbered.generation_eq (hrecorded.refreshing refresh hslot)).1
      have heq : refresh.generation = s.generation :=
        UInt64.toNat_inj.mp (hsame.trans hrecorded.generation.symm)
      simp [heq] at hother
    returns := hrecorded.returns.cons (by simp) }

/-- A completion caches the token of a refresh of the current epoch. -/
theorem finished (hrecorded : Recorded fromStr s h) (hbegun : .begun refresh ∈ h)
    (hstamp : ∀ token, result = .ok token → token.generation = refresh.tokenGeneration) :
    Recorded fromStr (s.finishRefresh refresh result) (.finished refresh result :: h) where
  numbered := hrecorded.numbered
  generation := by
    rw [TokenState.generation_finishRefresh]
    exact hrecorded.generation
  nextRefreshId := by
    rw [TokenState.nextRefreshId_finishRefresh]
    exact hrecorded.nextRefreshId
  nextTokenGeneration := by
    rw [TokenState.nextTokenGeneration_finishRefresh]
    exact hrecorded.nextTokenGeneration
  bound := hrecorded.bound
  stamped := by
    intro other token hmem
    obtain heq | hrest := List.mem_cons.mp hmem
    · cases heq
      exact hstamp token rfl
    · exact hrecorded.stamped other token hrest
  cached := by
    intro token hcached
    have hold : s.cached = some token → ∃ r ∈ epoch (.finished refresh result :: h),
        .finished r (.ok token) ∈ (.finished refresh result :: h) := by
      intro hbefore
      obtain ⟨owner, howner, hfinished⟩ := hrecorded.cached token hbefore
      exact ⟨owner, howner, .tail _ hfinished⟩
    rw [TokenState.cached_finishRefresh] at hcached
    split at hcached
    · rename_i hcurrent
      cases result with
      | error error => exact hold hcached
      | ok obtained =>
          cases hcached
          refine ⟨refresh, ?_, .head _⟩
          apply hrecorded.numbered.mem_epoch hbegun
          rw [← hcurrent, hrecorded.generation]
    · exact hold hcached
  refreshing := by
    intro current hrefreshing
    rcases TokenState.refreshing_finishRefresh s refresh result with
      ⟨hkept, -, -⟩ | ⟨hcleared, -, -⟩
    · rw [hkept] at hrefreshing
      exact hrecorded.refreshing current hrefreshing
    · rw [hcleared] at hrefreshing
      cases hrefreshing
  returns := hrecorded.returns.cons (by simp)

end Recorded

end Records

section Runs

variable (fromStr : String → Option String)

/-- What a refresh task knows. -/
def Task.Recorded (h : List Observation) : Task → Prop
  | .refresh r pc => .begun r ∈ h ∧
      ∀ token, pc = .finishing (.ok token) ∨ pc = .storing (.ok token) →
        token.generation = r.tokenGeneration
  | _ => True

/-- Fewer than 2^64 refreshes have begun after the step. -/
def Few (cfg : Config Auth Task) (event : Event Choice Outside) : Prop :=
  begins ((system fromStr).exec cfg event).shared.history < UInt64.size

variable {fromStr} {m m' : Auth} {i : Nat} {t t' : Task} {started : List Task} {cfg : Config Auth Task}

theorem Task.Recorded.mono {newer h : List Observation} (ht : t.Recorded h) : t.Recorded (newer ++ h) := by
  cases t with
  | refresh refresh pc => exact ⟨List.mem_append_right _ ht.1, ht.2⟩
  | _ => trivial

/-- Steps only add to the history. -/
theorem Step.history (hstep : Step fromStr m i t m' t' started) :
    ∃ newer, m'.history = newer ++ m.history := by
  cases hstep with
  | leaseAndBegin _ _ _ _ => exact ⟨[_, _], rfl⟩
  | «begin» _ _ => exact ⟨[_, _], rfl⟩
  | lease _ _ => exact ⟨[_], rfl⟩
  | join _ _ => exact ⟨[_], rfl⟩
  | fail _ => exact ⟨[_], rfl⟩
  | invalidate _ => exact ⟨[_], rfl⟩
  | finish => exact ⟨[_], rfl⟩
  | _ => exact ⟨[], rfl⟩

theorem exec_history (cfg : Config Auth Task) (event : Event Choice Outside) :
    ∃ newer, ((system fromStr).exec cfg event).shared.history = newer ++ cfg.shared.history := by
  have hmoves := (system fromStr).exec_moves cfg event
  generalize (system fromStr).exec cfg event = cfg' at hmoves
  cases hmoves with
  | still => exact ⟨[], rfl⟩
  | act _ hact => exact (act_step hact).history
  | env henv => exact ⟨[], (env_quiet henv).2.1⟩

/-- A step keeps the records, and those of its task. -/
theorem Step.recorded (hstep : Step fromStr m i t m' t' started) (hfew : begins m'.history < UInt64.size)
    (hm : Recorded fromStr m.state m.history) (ht : t.Recorded m.history) :
    Recorded fromStr m'.state m'.history ∧ t'.Recorded m'.history ∧ ∀ u ∈ started, u.Recorded m'.history := by
  have hfresh : ∀ {h : List Observation} {refresh : RefreshInFlight}, .begun refresh ∈ h →
      ∀ u ∈ [Task.refresh refresh .exchanging], u.Recorded h := by
    intro h refresh hbegun u hu
    rw [List.mem_singleton.mp hu]
    exact ⟨hbegun, by simp⟩
  cases hstep with
  | silent hsilent =>
      refine ⟨hm, ?_, by simp⟩
      cases hsilent with
      | @exchanged refresh answer =>
          refine ⟨ht.1, ?_⟩
          rintro token (heq | heq)
          · cases answer with
            | ok exchanged =>
                cases heq
                rfl
            | error error => cases heq
          · cases heq
      | _ => trivial
  | enter henters _ =>
      refine ⟨hm, ?_, by simp⟩
      cases henters with
      | store =>
          refine ⟨ht.1, ?_⟩
          rintro token (heq | heq)
          · cases heq
          · cases heq
            exact ht.2 token (.inl rfl)
      | _ => trivial
  | notify hnotifies =>
      refine ⟨hm, ?_, by simp⟩
      cases hnotifies with
      | invalidate => trivial
      | refresh => exact ⟨ht.1, by simp⟩
  | lease hcached _ => exact ⟨hm.answered hcached i, trivial, by simp⟩
  | @leaseAndBegin cached hcached _ _ _ =>
      have hle := begins_le_cons (.ofResult i (tokenLease fromStr cached)) (.begun m.state.nextRefresh :: m.history)
      have hbegun := hm.begun (Nat.lt_of_le_of_lt hle hfew)
      exact ⟨hbegun.answered hcached i, trivial, hfresh (.tail _ (.head _))⟩
  | join _ _ => exact ⟨hm.joined i _, trivial, by simp⟩
  | «begin» _ _ => exact ⟨(hm.begun hfew).joined i _, trivial, hfresh (.tail _ (.head _))⟩
  | fail _ => exact ⟨hm.failed i _, trivial, by simp⟩
  | invalidate hinvalidate => exact ⟨hm.invalidated hfew hinvalidate, trivial, by simp⟩
  | @finish refresh result =>
      refine ⟨hm.finished ht.1 ?_, ⟨.tail _ ht.1, by simp⟩, by simp⟩
      rintro token rfl
      exact ht.2 token (.inr rfl)
  | _ => exact ⟨hm, trivial, by simp⟩

theorem begins_mono (cfg : Config Auth Task) (event : Event Choice Outside) :
    begins cfg.shared.history ≤ begins ((system fromStr).exec cfg event).shared.history := by
  obtain ⟨newer, hhistory⟩ : ∃ newer, ((system fromStr).exec cfg event).shared.history = newer ++ cfg.shared.history :=
    exec_history cfg event
  rw [hhistory, begins_append]
  exact Nat.le_add_left _ _

/-- A run with few refreshes in the end has few of them at every step. -/
theorem meets_few {events : List (Event Choice Outside)}
    (hfew : begins ((system fromStr).run cfg events).shared.history < UInt64.size) :
    (system fromStr).Meets (Few fromStr) cfg events :=
  (system fromStr).meets_of_run_lt (f := fun cfg => begins cfg.shared.history) begins_mono hfew

/-- The records, as facts about the shared state and about each task. -/
abbrev RecordedRun (fromStr : String → Option String) : Config Auth Task → Prop :=
  System.Holds (fun m => Recorded fromStr m.state m.history) fun m _ t => t.Recorded m.history

theorem recorded_stable : System.Stable (system fromStr) (Few fromStr) (fun _ => True)
    (fun m => Recorded fromStr m.state m.history) fun m _ t => t.Recorded m.history where
  act := by
    intro cfg i choice t m' t' started _ hfew htask hact hm ht
    rw [Few, (system fromStr).exec_act htask hact] at hfew
    obtain ⟨hm', ht', hstarted⟩ := (act_step hact).recorded hfew hm ht
    exact ⟨hm', ht', fun u hu _ => hstarted u hu⟩
  other := by
    intro cfg i choice t m' t' started j u _ _ _ hact _ _ _ _ hu
    obtain ⟨newer, hhistory⟩ := (act_step hact).history
    rw [hhistory]
    exact hu.mono
  env := by
    intro cfg event m' started _ _ henv hm
    obtain ⟨hmonitor, hhistory, -, hstarted⟩ := env_quiet henv
    rw [hhistory, Auth.state, hmonitor]
    refine ⟨hm, fun _ _ _ hu => hu, fun u hu _ => ?_⟩
    cases hstarted u hu <;> trivial

theorem recorded_run {events : List (Event Choice Outside)}
    (hfew : begins ((system fromStr).run Start events).shared.history < UInt64.size) :
    RecordedRun fromStr ((system fromStr).run Start events) := by
  apply recorded_stable.preserved_self.run _ (meets_few hfew)
  constructor
  · exact recorded_init
  · intro i t htask
    cases htask

end Runs

section Finality

variable {fromStr : String → Option String} {s : TokenState} {h newer older : List Observation}
  {g : UInt64} {i : Nat} {lease : TokenLease} {refresh other : RefreshInFlight}

/-- The exchanges of two refreshes give tokens of different generations. -/
theorem Numbered.eq_of_tokenGeneration (hnumbered : Numbered h) (hmem : .begun refresh ∈ h)
    (hother : .begun other ∈ h) (hsame : refresh.tokenGeneration = other.tokenGeneration) :
    refresh = other := by
  apply hnumbered.eq_of_id hmem hother
  rw [← (hnumbered.le hmem).2.1, ← (hnumbered.le hother).2.1]
  exact hsame

theorem Produced.generation (hrecorded : Recorded fromStr s h) (hproduced : Produced fromStr h refresh lease) :
    lease.generation = some refresh.tokenGeneration := by
  obtain ⟨token, hfinished, hlease⟩ := hproduced
  rw [tokenLease] at hlease
  split at hlease
  · cases hlease
    rw [hrecorded.stamped refresh token hfinished]
  · cases hlease

/-- A lease that is returned after an invalidation comes from a refresh that began after it. -/
theorem Recorded.final (hrecorded : Recorded fromStr s h) (hsplit : h = newer ++ .invalidated g :: older)
    (hmem : .returned i lease ∈ newer) :
    (∃ refresh, .begun refresh ∈ newer ∧ Produced fromStr h refresh lease) ∧
      ∀ refresh, .begun refresh ∈ older → some refresh.tokenGeneration ≠ lease.generation := by
  obtain ⟨after, before, rfl⟩ := List.append_of_mem hmem
  have hcut : h = after ++ .returned i lease :: (before ++ .invalidated g :: older) := by simp [hsplit]
  obtain ⟨refresh, hepoch, token, hfinished, hlease⟩ := hrecorded.returns _ _ i lease hcut
  have hbegun : .begun refresh ∈ after ++ .returned i lease :: before :=
    List.mem_append_right _ (.tail _ (epoch_append_invalidated hepoch))
  have hproduced : Produced fromStr h refresh lease := by
    refine ⟨token, ?_, hlease⟩
    rw [hcut]
    exact List.mem_append_right _ (.tail _ hfinished)
  refine ⟨⟨refresh, hbegun, hproduced⟩, ?_⟩
  intro old hold hsame
  rw [hproduced.generation hrecorded] at hsame
  have hnumbered : Numbered ((after ++ .returned i lease :: before) ++ .invalidated g :: older) :=
    hsplit ▸ hrecorded.numbered
  have heq : old = refresh := hnumbered.eq_of_tokenGeneration (List.mem_append_right _ (.tail _ hold))
    (List.mem_append_left _ hbegun) (Option.some.inj hsame)
  -- The refresh has begun once, so it is not also older than the invalidation.
  have hlt := hnumbered.lt hbegun
  have hle := (Numbered.le (h := older) hnumbered.of_append hold).1
  rw [heq] at hle
  exact absurd (Nat.lt_of_lt_of_le hlt hle) (Nat.lt_irrefl _)

/-- What holds in every state about invalidations. -/
structure FinalInvalidation (fromStr : String → Option String) (cfg : Config Auth Task) : Prop where
  /-- No lease comes from an exchange that began before an invalidation in front of it. -/
  final : ∀ newer g older i lease, cfg.shared.history = newer ++ .invalidated g :: older →
    .returned i lease ∈ newer →
    (∃ refresh, .begun refresh ∈ newer ∧ Produced fromStr cfg.shared.history refresh lease) ∧
      ∀ refresh, .begun refresh ∈ older → some refresh.tokenGeneration ≠ lease.generation
  /-- The invalidation of another generation than the cached one changes nothing. -/
  harmless : ∀ i g pc choice, cfg.tasks[i]? = some (.invalidate g pc) →
    cfg.shared.state.cached.map CachedToken.generation ≠ some g →
    ((system fromStr).exec cfg (.act i choice)).shared.state = cfg.shared.state ∧
      ((system fromStr).exec cfg (.act i choice)).shared.history = cfg.shared.history
  refused : ∀ i g, cfg.tasks[i]? = some (.invalidate g .comparing) →
    cfg.shared.state.cached.map CachedToken.generation ≠ some g →
    ((system fromStr).exec cfg (.act i .proceed)).tasks[i]? = some (.invalidate g (.ended false))
  /-- Another token than the one that was leased has another generation. -/
  distinct : ∀ refresh other, .begun refresh ∈ cfg.shared.history → .begun other ∈ cfg.shared.history →
    refresh.tokenGeneration = other.tokenGeneration → refresh = other
  cached : ∀ token, cfg.shared.state.cached = some token →
    ∃ refresh ∈ epoch cfg.shared.history, .finished refresh (.ok token) ∈ cfg.shared.history ∧
      refresh.generation = cfg.shared.state.generation ∧ token.generation = refresh.tokenGeneration
  refreshing : ∀ refresh, cfg.shared.state.refreshing = some refresh →
    refresh.generation = cfg.shared.state.generation

/-- A step of an invalidation that finds another generation. -/
theorem invalidateStep_other {m m' : Auth} {pc pc' : InvalidatePc} {choice : Choice}
    (hother : m.state.cached.map CachedToken.generation ≠ some g)
    (hstep : invalidateStep m i g pc choice = some (m', pc')) :
    m'.state = m.state ∧ m'.history = m.history := by
  have hstep : Step some m i (.invalidate g pc) m' (.invalidate g pc') [] := invalidateStep_step hstep
  cases hstep with
  | silent _ => exact ⟨rfl, rfl⟩
  | enter _ _ => exact ⟨rfl, rfl⟩
  | notify _ => exact ⟨rfl, rfl⟩
  | refuse _ => exact ⟨rfl, rfl⟩
  | invalidate hinvalidate =>
      obtain ⟨⟨token, hcached, hgeneration⟩, -⟩ := TokenState.invalidate_eq_some hinvalidate
      rw [hcached, Option.map_some, hgeneration] at hother
      exact absurd rfl hother

theorem invalidate_harmless {cfg : Config Auth Task} {pc : InvalidatePc} (choice : Choice)
    (htask : cfg.tasks[i]? = some (.invalidate g pc))
    (hother : cfg.shared.state.cached.map CachedToken.generation ≠ some g) :
    ((system fromStr).exec cfg (.act i choice)).shared.state = cfg.shared.state ∧
      ((system fromStr).exec cfg (.act i choice)).shared.history = cfg.shared.history := by
  cases hstep : invalidateStep cfg.shared i g pc choice with
  | none =>
      have hact : (system fromStr).act cfg.shared i (.invalidate g pc) choice = none := by
        change Option.map _ (invalidateStep cfg.shared i g pc choice) = none
        rw [hstep]
        rfl
      simp only [System.exec, htask, hact, and_self]
  | some next =>
      obtain ⟨m', pc'⟩ := next
      have hact : (system fromStr).act cfg.shared i (.invalidate g pc) choice =
          some (m', .invalidate g pc', []) := by
        change Option.map _ (invalidateStep cfg.shared i g pc choice) = _
        rw [hstep]
        rfl
      rw [(system fromStr).exec_act htask hact]
      exact invalidateStep_other hother hstep

theorem invalidate_refused {cfg : Config Auth Task} (htask : cfg.tasks[i]? = some (.invalidate g .comparing))
    (hother : cfg.shared.state.cached.map CachedToken.generation ≠ some g) :
    ((system fromStr).exec cfg (.act i .proceed)).tasks[i]? = some (.invalidate g (.ended false)) := by
  have hact : (system fromStr).act cfg.shared i (.invalidate g .comparing) .proceed =
      some (cfg.shared.unlock, .invalidate g (.ended false), []) := by
    have hnone : cfg.shared.state.invalidateIfGeneration g = none := if_pos hother
    change Option.map _ (invalidateStep cfg.shared i g .comparing .proceed) = _
    rw [invalidateStep, hnone]
    rfl
  have hlt : i < cfg.tasks.length := (List.getElem?_eq_some_iff.mp htask).1
  rw [(system fromStr).exec_act htask hact, List.append_nil, List.getElem?_set_self hlt]

/-- Over every interleaving with fewer than 2^64 refreshes, invalidation is final. -/
theorem invalidation_is_final (fromStr : String → Option String) (events : List (Event Choice Outside))
    (hfew : begins ((system fromStr).run Start events).shared.history < UInt64.size) :
    FinalInvalidation fromStr ((system fromStr).run Start events) := by
  have hrun := (recorded_run hfew).shared
  exact {
    final := fun newer g older i lease hsplit hmem => hrun.final hsplit hmem
    harmless := fun i g pc choice htask hother => invalidate_harmless choice htask hother
    refused := fun i g htask hother => invalidate_refused htask hother
    distinct := fun refresh other hmem hother hsame =>
      hrun.numbered.eq_of_tokenGeneration hmem hother hsame
    cached := by
      intro token hcached
      obtain ⟨refresh, hepoch, hfinished⟩ := hrun.cached token hcached
      have hgeneration := (hrun.numbered.generation_eq hepoch).1
      refine ⟨refresh, hepoch, hfinished, ?_, hrun.stamped refresh token hfinished⟩
      exact UInt64.toNat_inj.mp (hgeneration.trans hrun.generation.symm)
    refreshing := by
      intro refresh hrefreshing
      have hgeneration := (hrun.numbered.generation_eq (hrun.refreshing refresh hrefreshing)).1
      exact UInt64.toNat_inj.mp (hgeneration.trans hrun.generation.symm) }

/-- A call and its refresh, which obtains a token for the time from 0 to 100. -/
def fetch (call refresh : Nat) : List (Event Choice Outside) :=
  [.env .token, .act call .proceed, .act call .proceed, .act call .proceed, .act call .proceed,
    .act refresh (.exchanged (.ok ⟨"token", 100, 0⟩)), .act refresh .proceed, .act refresh .proceed,
    .act refresh .proceed, .act call .proceed, .act call .proceed, .act call .proceed,
    .act call .proceed, .act call .proceed]

/-- The first token is invalidated while a second refresh is under way, which finishes only then; a
late invalidation of the first generation comes after the next token. -/
def staleRun : List (Event Choice Outside) :=
  fetch 0 1 ++
    [.env (.invalidate 1), .act 3 .proceed, .act 3 .proceed, .act 3 .proceed,
      .act 2 (.exchanged (.ok ⟨"stale", 100, 0⟩)), .act 2 .proceed, .act 2 .proceed, .act 2 .proceed] ++
    fetch 4 5 ++ [.env (.invalidate 1), .act 7 .proceed, .act 7 .proceed]

theorem invalidation_is_final_stale :
    (((system some).run Start staleRun).shared.state.cached.map CachedToken.token = some "token" ∧
      invalidations ((system some).run Start staleRun).shared.history = 1 ∧
      begins ((system some).run Start staleRun).shared.history = 4) ∧
    FinalInvalidation some ((system some).run Start staleRun) := by
  constructor
  · decide
  · exact invalidation_is_final some staleRun (by decide)

end Finality

end OpenaiRs.WorkloadIdentity
