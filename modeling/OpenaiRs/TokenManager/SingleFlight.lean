import OpenaiRs.TokenManager.Gate

/-!
# Refreshes are single-flight

While exchanges and saves succeed, the saved sessions form a chain in which each was refreshed
from the one before it. A generation below the largest one is therefore exchanged at most once,
and a call that was refused with it returns a later session of the chain.
-/

namespace OpenaiRs.TokenManager

open Interleaving

section Generations

/-- The first session has a larger generation, or the largest one. -/
def Later (newer older : StoredCodexSession) : Prop :=
  older.generation.toNat < newer.generation.toNat ∨ newer.generation.toNat + 1 = UInt64.size

variable {a b c : StoredCodexSession} {sessions : List StoredCodexSession} {generation : UInt64}

theorem saturatingAdd_one (a : UInt64) :
    (saturatingAdd a 1).toNat = if a.toNat + 1 < UInt64.size then a.toNat + 1 else UInt64.size - 1 := by
  have hone : (1 : UInt64).toNat = 1 := rfl
  rw [saturatingAdd, hone]
  split
  · rename_i hlt
    rw [UInt64.toNat_add, hone]
    exact Nat.mod_eq_of_lt hlt
  · exact UInt64.toNat_ofNat_of_lt' (by decide)

theorem later_of_saturatingAdd (h : a.generation = saturatingAdd b.generation 1) : Later a b := by
  rw [Later, h, saturatingAdd_one]
  split
  · exact .inl (Nat.lt_succ_self _)
  · exact .inr (by decide)

theorem Later.refreshed (hab : a.generation = saturatingAdd b.generation 1) (hbc : Later b c) :
    Later a c := by
  rw [Later, hab, saturatingAdd_one]
  split
  · rename_i hlt
    left
    obtain hless | hmax := hbc
    · omega
    · omega
  · exact .inr (by decide)

/-- Among sessions that follow each other a generation below the largest one occurs once. -/
theorem countP_le_one (h : sessions.Pairwise Later) (hlt : generation.toNat + 1 < UInt64.size) :
    sessions.countP (fun session => session.generation = generation) ≤ 1 := by
  induction h with
  | nil => exact Nat.zero_le 1
  | @cons newer rest hlater _ ih =>
      rw [List.countP_cons]
      split
      · rename_i heq
        have hnone : rest.countP (fun session => session.generation = generation) = 0 := by
          rw [List.countP_eq_zero]
          intro older hmem hsame
          rw [decide_eq_true_eq] at heq hsame
          obtain hless | hmax := hlater older hmem
          · rw [heq, hsame] at hless
            exact Nat.lt_irrefl _ hless
          · rw [heq] at hmax
            omega
        omega
      · exact ih

theorem eq_of_generation (h : sessions.Pairwise Later) (ha : a ∈ sessions) (hb : b ∈ sessions)
    (hsame : a.generation = b.generation) (hlt : a.generation.toNat + 1 < UInt64.size) : a = b := by
  have hnot : ∀ {c d : StoredCodexSession}, c.generation = d.generation →
      c.generation.toNat + 1 < UInt64.size → ¬ Later c d := by
    intro c d hcd hc hlater
    obtain hless | hmax := hlater
    · rw [hcd] at hless
      exact Nat.lt_irrefl _ hless
    · omega
  induction h with
  | nil => cases ha
  | @cons newer rest hlater _ ih =>
      obtain rfl | harest := List.mem_cons.mp ha
      · obtain rfl | hbrest := List.mem_cons.mp hb
        · rfl
        · exact absurd (hlater b hbrest) (hnot hsame hlt)
      · obtain rfl | hbrest := List.mem_cons.mp hb
        · exact absurd (hlater a harest) (hnot hsame.symm (hsame ▸ hlt))
        · exact ih harest hbrest

end Generations

section Chain

/-- The sessions that the store has held, the latest first. -/
def chain (initial : Option StoredCodexSession) (m : Manager) : List StoredCodexSession :=
  m.saved ++ initial.toList

/-- The cache is not behind the store, and every session but the last one was exchanged. -/
structure Settled (initial : Option StoredCodexSession) (m : Manager) : Prop where
  cached : ∀ session, m.cached = some session → m.stored = some session
  exchanged : m.exchanges.map Exchange.session = (chain initial m).tail

/-- Everything that is used is a session of the chain. -/
structure Chained (initial : Option StoredCodexSession) (m : Manager) : Prop where
  stored : m.stored = (chain initial m).head?
  sorted : (chain initial m).Pairwise Later
  exchanged : m.exchanges.map Exchange.session = chain initial m ∨
    m.exchanges.map Exchange.session = (chain initial m).tail
  cached : ∀ session, m.cached = some session → session ∈ chain initial m
  returned : ∀ session ∈ m.returned, session ∈ chain initial m
  settled : m.gate = none → Settled initial m

/-- What holds where a call stands. -/
def Phase (initial : Option StoredCodexSession) (m : Manager) : Pc → Prop
  | .locked => Settled initial m
  | .inspecting _ => Settled initial m
  | .comparing _ => Settled initial m
  | .loading _ => Settled initial m
  | .caching session => Settled initial m ∧ m.stored = some session
  | .presenting session => Settled initial m ∧ m.stored = some session
  | .exchanging session =>
      m.stored = some session ∧ m.exchanges.map Exchange.session = chain initial m
  | .stamping session _ =>
      m.stored = some session ∧ m.exchanges.map Exchange.session = chain initial m
  | .saving refreshed => (∃ session, m.stored = some session ∧
      refreshed.generation = saturatingAdd session.generation 1) ∧
      m.exchanges.map Exchange.session = chain initial m
  | .storing refreshed =>
      m.stored = some refreshed ∧ m.exchanges.map Exchange.session = (chain initial m).tail
  | .releasing exit => Settled initial m ∧ ∀ session, exit = .returned session → session ∈ chain initial m
  | .ended exit => ∀ session, exit = .returned session → session ∈ chain initial m
  | .detached _ => False
  | _ => True

variable {initial : Option StoredCodexSession} {m m' : Manager} {i : Nat} {call : Call} {pc pc' : Pc}
  {choice : Choice} {started : List Task} {session : StoredCodexSession}

theorem Chained.mem_stored (h : Chained initial m) (hstored : m.stored = some session) :
    session ∈ chain initial m :=
  List.mem_of_head? (h.stored.symm.trans hstored)

theorem Chained.stored_eq (h : Chained initial m) (hstored : m.stored = some session) :
    chain initial m = session :: (chain initial m).tail := by
  obtain ⟨rest, hrest⟩ := List.head?_eq_some_iff.mp (h.stored.symm.trans hstored)
  rw [hrest]
  rfl

/-- The stored session is later than those of other generations. -/
theorem Chained.newest (h : Chained initial m) (hstored : m.stored = some session)
    {other : StoredCodexSession} (hmem : other ∈ chain initial m)
    (hne : session.generation ≠ other.generation) : Later session other := by
  have hsorted := h.sorted
  rw [h.stored_eq hstored] at hmem hsorted
  obtain rfl | htail := List.mem_cons.mp hmem
  · exact absurd rfl hne
  · exact List.rel_of_pairwise_cons hsorted htail

@[simp] theorem answerLast_sessions (tokens : RefreshResponse) (exchanges : List Exchange) :
    (answerLast tokens exchanges).map Exchange.session = exchanges.map Exchange.session := by
  cases exchanges <;> rfl

@[simp] theorem chain_finish (m : Manager) (exit : Exit) : chain initial (m.finish exit) = chain initial m := by
  rw [chain, finish_saved, chain]

/-- The chain only grows. -/
theorem Step.chain_subset (h : Step m i call pc choice m' pc' started) :
    chain initial m ⊆ chain initial m' := by
  cases h with
  | save => exact List.subset_cons_self _ _
  | detached => exact List.subset_cons_self _ _
  | usable => rw [chain_finish]; exact List.Subset.refl _
  | release => rw [chain_finish]; exact List.Subset.refl _
  | _ => exact List.Subset.refl _

theorem Phase.settled (h : Phase initial m pc) (huncommitted : pc.Uncommitted) : Settled initial m := by
  cases pc with
  | caching session => exact h.1
  | presenting session => exact h.1
  | locked => exact h
  | inspecting now => exact h
  | comparing failed => exact h
  | loading purpose => exact h
  | _ => exact huncommitted.elim

theorem Pc.Outer.phase (h : pc.Outer) : Phase initial m pc := by
  cases pc with
  | started => trivial
  | checking now => trivial
  | locking => trivial
  | _ => exact h.elim

theorem GivesUp.not_returned {exit : Exit} (h : GivesUp m call pc choice exit) :
    exit ≠ .returned session := by
  cases h <;> exact Exit.noConfusion

theorem Chained.presented (h : Chained initial m) (hsettled : Settled initial m)
    (hstored : m.stored = some session) :
    (session :: m.exchanges.map Exchange.session) = chain initial m := by
  rw [hsettled.exchanged]
  exact (h.stored_eq hstored).symm

theorem Chained.sorted_cons (h : Chained initial m) (hstored : m.stored = some session)
    {refreshed : StoredCodexSession}
    (hnext : refreshed.generation = saturatingAdd session.generation 1) :
    (refreshed :: chain initial m).Pairwise Later := by
  constructor
  · intro older hmem
    rw [h.stored_eq hstored] at hmem
    obtain rfl | htail := List.mem_cons.mp hmem
    · exact later_of_saturatingAdd hnext
    · have hsorted := h.sorted
      rw [h.stored_eq hstored] at hsorted
      exact Later.refreshed hnext (List.rel_of_pairwise_cons hsorted htail)
  · exact h.sorted

/-- The cache write of a call. -/
theorem Chained.updated (h : Chained initial m) (hstored : m.stored = some session)
    (hexchanged : m.exchanges.map Exchange.session = (chain initial m).tail) :
    Chained initial { m with cached := some session } ∧
      Phase initial { m with cached := some session } (.releasing (.returned session)) := by
  have hmem := h.mem_stored hstored
  have hsettled : Settled initial { m with cached := some session } := by
    refine ⟨?_, hexchanged⟩
    rintro cached ⟨rfl⟩
    exact hstored
  refine ⟨{ h with cached := ?_, settled := fun _ => hsettled }, hsettled, ?_⟩
  · rintro cached ⟨rfl⟩
    exact hmem
  · rintro cached ⟨rfl⟩
    exact hmem

/-- A call that is behind the gate and breaks off no exchange keeps the chain. -/
theorem Step.chained (h : Step m i call pc choice m' pc' started) (hchained : Chained initial m)
    (hphase : Phase initial m pc) (hgate : pc.Gated → m.gate ≠ none)
    (hok : pc.Committed → choice.breaks = false) :
    Chained initial m' ∧ Phase initial m' pc' ∧ started = [] := by
  have hcommitted : ∀ {pc : Pc}, pc.Committed → pc.Gated := fun h => .inr (.inl h)
  cases h with
  | quit _ hexit =>
      refine ⟨hchained, ?_, rfl⟩
      rintro session rfl
      obtain hdropped | ⟨-, hfailed⟩ := hexit
      · cases hdropped
      · cases hfailed
  | checking => exact ⟨hchained, trivial, rfl⟩
  | queue => exact ⟨hchained, trivial, rfl⟩
  | usable hcached =>
      have hmem := hchained.cached _ hcached
      refine ⟨?_, ?_, rfl⟩
      · exact { hchained with
          returned := List.forall_mem_cons.mpr ⟨hmem, hchained.returned⟩
          settled := fun hnone => ⟨(hchained.settled hnone).cached, (hchained.settled hnone).exchanged⟩ }
      · rintro session ⟨rfl⟩
        exact hmem
  | lock hnone =>
      refine ⟨?_, ?_, rfl⟩
      · exact { hchained with settled := fun htaken => nomatch htaken }
      · exact ⟨(hchained.settled hnone).cached, (hchained.settled hnone).exchanged⟩
  | giveUp hgives =>
      refine ⟨hchained, ⟨hphase.settled hgives.uncommitted, ?_⟩, rfl⟩
      intro session hreturned
      exact absurd hreturned hgives.not_returned
  | inspecting => exact ⟨hchained, hphase, rfl⟩
  | comparing => exact ⟨hchained, hphase, rfl⟩
  | keep hcached => exact ⟨hchained, ⟨hphase, hphase.cached _ hcached⟩, rfl⟩
  | expired hcached => exact ⟨hchained, ⟨hphase, hphase.cached _ hcached⟩, rfl⟩
  | uncached => exact ⟨hchained, hphase, rfl⟩
  | newer hcached =>
      refine ⟨hchained, ⟨hphase, ?_⟩, rfl⟩
      rintro session ⟨rfl⟩
      exact hchained.cached _ hcached
  | stale => exact ⟨hchained, hphase, rfl⟩
  | accept hstored => exact ⟨hchained, ⟨hphase, hstored⟩, rfl⟩
  | refuse hstored => exact ⟨hchained, ⟨hphase, hstored⟩, rfl⟩
  | cache =>
      obtain ⟨hchained', hphase'⟩ := hchained.updated hphase.2 hphase.1.exchanged
      exact ⟨hchained', hphase', rfl⟩
  | present =>
      obtain ⟨hsettled, hstored⟩ := hphase
      have hpresented := hchained.presented hsettled hstored
      refine ⟨?_, ⟨hstored, hpresented⟩, rfl⟩
      exact { hchained with
        exchanged := .inl hpresented
        settled := fun hnone => absurd hnone (hgate (.inl trivial)) }
  | @answer session tokens =>
      have hsessions := answerLast_sessions tokens m.exchanges
      refine ⟨?_, ⟨hphase.1, hsessions.trans hphase.2⟩, rfl⟩
      exact { hchained with
        exchanged := hsessions ▸ hchained.exchanged
        settled := fun hnone => absurd hnone (hgate (hcommitted trivial)) }
  | stamp => exact ⟨hchained, ⟨⟨_, hphase.1, rfl⟩, hphase.2⟩, rfl⟩
  | save =>
      obtain ⟨⟨session, hstored, hnext⟩, hexchanged⟩ := hphase
      refine ⟨?_, ⟨rfl, hexchanged⟩, rfl⟩
      exact {
        stored := rfl
        sorted := hchained.sorted_cons hstored hnext
        exchanged := .inr hexchanged
        cached := fun _ h => .tail _ (hchained.cached _ h)
        returned := fun _ h => .tail _ (hchained.returned _ h)
        settled := fun hnone => absurd hnone (hgate (hcommitted trivial)) }
  | store =>
      obtain ⟨hchained', hphase'⟩ := hchained.updated hphase.1 hphase.2
      exact ⟨hchained', hphase', rfl⟩
  | broken hpc _ hbreaks =>
      rw [hok hpc] at hbreaks
      cases hbreaks
  | detach => cases hok trivial
  | @release exit =>
      obtain ⟨hsettled, hexit⟩ := hphase
      refine ⟨?_, ?_, rfl⟩
      · cases exit with
        | returned session =>
            exact { hchained with
              returned := List.forall_mem_cons.mpr ⟨hexit session rfl, hchained.returned⟩
              settled := fun _ => ⟨hsettled.cached, hsettled.exchanged⟩ }
        | failed error =>
            exact { hchained with settled := fun _ => ⟨hsettled.cached, hsettled.exchanged⟩ }
        | dropped =>
            exact { hchained with settled := fun _ => ⟨hsettled.cached, hsettled.exchanged⟩ }
      · intro session heq
        rw [chain_finish]
        exact hexit session heq
  | detached => exact hphase.elim

theorem Settled.frame (h : Settled initial m) (hcached : m'.cached = m.cached)
    (hstored : m'.stored = m.stored) (hexchanges : m'.exchanges = m.exchanges)
    (hsaved : m'.saved = m.saved) : Settled initial m' where
  cached session heq := hstored.trans (h.cached session (hcached.symm.trans heq))
  exchanged := by
    rw [hexchanges, chain, hsaved]
    exact h.exchanged

theorem Phase.frame (h : Phase initial m pc) (hcached : m'.cached = m.cached)
    (hstored : m'.stored = m.stored) (hexchanges : m'.exchanges = m.exchanges)
    (hsaved : m'.saved = m.saved) : Phase initial m' pc := by
  have hsettled : Settled initial m → Settled initial m' := fun h =>
    h.frame hcached hstored hexchanges hsaved
  have hchain : chain initial m' = chain initial m := by rw [chain, hsaved, chain]
  cases pc with
  | locked => exact hsettled h
  | inspecting now => exact hsettled h
  | comparing failed => exact hsettled h
  | loading purpose => exact hsettled h
  | caching session => exact ⟨hsettled h.1, hstored.trans h.2⟩
  | presenting session => exact ⟨hsettled h.1, hstored.trans h.2⟩
  | releasing exit => exact ⟨hsettled h.1, hchain ▸ h.2⟩
  | ended exit => rw [Phase, hchain]; exact h
  | exchanging session => rw [Phase, hstored, hexchanges, hchain]; exact h
  | stamping session tokens => rw [Phase, hstored, hexchanges, hchain]; exact h
  | saving refreshed => rw [Phase, hstored, hexchanges, hchain]; exact h
  | storing refreshed => rw [Phase, hstored, hexchanges, hchain]; exact h
  | detached session => exact h.elim
  | _ => trivial

end Chain

section Callers

/-- How a call ends that was refused with a generation. -/
def Outcome (initial : Option StoredCodexSession) (m : Manager) (failed : UInt64) : Exit → Prop
  | .returned session => session ∈ chain initial m ∧
      (failed.toNat + 1 < UInt64.size → failed.toNat < session.generation.toNat)
  | .failed error => ∃ message, error = .store message
  | .dropped => True

/-- What a call that was refused with a generation knows of the session it is about to use. -/
def Expects (initial : Option StoredCodexSession) (m : Manager) (failed : UInt64) : Pc → Prop
  | .checking _ => False
  | .inspecting _ => False
  | .comparing failed' => failed' = failed
  | .loading purpose => purpose = .unauthorized failed
  | .caching session => session.generation ≠ failed
  | .presenting session => session.generation = failed
  | .exchanging session => session.generation = failed
  | .stamping session _ => session.generation = failed
  | .saving refreshed => refreshed.generation = saturatingAdd failed 1
  | .storing refreshed => refreshed.generation = saturatingAdd failed 1
  | .releasing exit => Outcome initial m failed exit
  | .ended exit => Outcome initial m failed exit
  | .detached _ => False
  | _ => True

/-- The generation of the call was one of the chain. -/
def Known (initial : Option StoredCodexSession) (m : Manager) (t : Task) : Prop :=
  ∀ failed, t.call = .refreshAfterUnauthorized failed →
    (∃ session ∈ chain initial m, session.generation = failed) ∧ Expects initial m failed t.pc

variable {initial : Option StoredCodexSession} {m m' : Manager} {i : Nat} {call : Call} {pc pc' : Pc}
  {choice : Choice} {started : List Task} {session : StoredCodexSession} {failed : UInt64}

theorem Outcome.mono {exit : Exit} (h : Outcome initial m failed exit)
    (hsub : chain initial m ⊆ chain initial m') : Outcome initial m' failed exit := by
  cases exit with
  | returned session => exact ⟨hsub h.1, h.2⟩
  | failed error => exact h
  | dropped => exact h

theorem Expects.mono (h : Expects initial m failed pc) (hsub : chain initial m ⊆ chain initial m') :
    Expects initial m' failed pc := by
  cases pc with
  | releasing exit => exact Outcome.mono h hsub
  | ended exit => exact Outcome.mono h hsub
  | _ => exact h

theorem saturatingAdd_one_gt (hlt : failed.toNat + 1 < UInt64.size) :
    failed.toNat < (saturatingAdd failed 1).toNat := by
  rw [saturatingAdd_one, if_pos hlt]
  exact Nat.lt_succ_self _

/-- The stored session serves a call that was refused with another generation. -/
theorem Chained.outcome (h : Chained initial m) (hstored : m.stored = some session)
    (hknown : ∃ older ∈ chain initial m, older.generation = failed)
    (hne : session.generation ≠ failed) : Outcome initial m failed (.returned session) := by
  obtain ⟨older, hmem, rfl⟩ := hknown
  refine ⟨h.mem_stored hstored, fun hlt => ?_⟩
  obtain hless | hmax := h.newest hstored hmem hne
  · exact hless
  · omega

theorem GivesUp.outcome {exit : Exit} (h : GivesUp m (.refreshAfterUnauthorized failed) pc choice exit)
    (hsent : ∀ session message, pc = .presenting session → choice ≠ .fail message)
    (hstored : m.stored ≠ none) : Outcome initial m failed exit := by
  cases h with
  | dropped => trivial
  | clock hcall => cases hcall
  | unloaded => exact ⟨_, rfl⟩
  | empty hnone => exact absurd hnone hstored
  | unsent => exact absurd rfl (hsent _ _ rfl)

theorem Step.expects (h : Step m i (.refreshAfterUnauthorized failed) pc choice m' pc' started)
    (hchained : Chained initial m) (hphase : Phase initial m pc)
    (hok : pc.Committed → choice.breaks = false)
    (hsent : ∀ session message, pc = .presenting session → choice ≠ .fail message)
    (hknown : ∃ older ∈ chain initial m, older.generation = failed)
    (hexpects : Expects initial m failed pc) : Expects initial m' failed pc' := by
  have hsome : m.stored ≠ none := by
    obtain ⟨older, hmem, -⟩ := hknown
    rw [hchained.stored, ne_eq, List.head?_eq_none_iff]
    exact List.ne_nil_of_mem hmem
  cases h with
  | quit _ hexit =>
      obtain rfl | ⟨hcall, -⟩ := hexit
      · trivial
      · cases hcall
  | checking hcall => cases hcall
  | usable => exact hexpects.elim
  | queue => trivial
  | lock => trivial
  | giveUp hgives => exact hgives.outcome hsent hsome
  | inspecting hcall => cases hcall
  | comparing hcall => cases hcall; rfl
  | keep => exact hexpects.elim
  | expired => exact hexpects.elim
  | uncached => exact hexpects.elim
  | newer hcached hne =>
      have hstored := hphase.cached _ hcached
      exact hchained.outcome hstored hknown (fun heq => hne (heq.trans hexpects.symm))
  | stale => exact congrArg Purpose.unauthorized hexpects
  | accept hstored haccepts =>
      cases hexpects
      exact bne_iff_ne.mp haccepts
  | refuse hstored hrefuses =>
      cases hexpects
      exact bne_eq_false_iff_eq.mp hrefuses
  | cache => exact hchained.outcome hphase.2 hknown hexpects
  | present => exact hexpects
  | answer => exact hexpects
  | stamp => exact congrArg (saturatingAdd · 1) hexpects
  | save => exact hexpects
  | store =>
      refine ⟨hchained.mem_stored hphase.1, fun hlt => ?_⟩
      rw [hexpects]
      exact saturatingAdd_one_gt hlt
  | broken hpc _ hbreaks =>
      rw [hok hpc] at hbreaks
      cases hbreaks
  | detach => cases hok trivial
  | release => exact Outcome.mono hexpects (by rw [chain_finish]; exact List.Subset.refl _)
  | detached => exact hexpects.elim

/-- The step breaks off neither an exchange nor the two updates behind it. -/
def Pc.unbroken : Pc → Choice → Bool
  | .presenting _, .fail _ => false
  | .exchanging _, choice => !choice.breaks
  | .stamping _ _, choice => !choice.breaks
  | .saving _, choice => !choice.breaks
  | .storing _, choice => !choice.breaks
  | _, _ => true

/-- Exchanges and saves succeed, no call is dropped in one, and a generation that is refused was
returned before. Nothing else writes the store. -/
def Succeeds (cfg : Config Manager Task) : Event Choice Outside → Prop
  | .act i choice => ∀ t ∈ cfg.tasks[i]?, t.pc.unbroken choice = true
  | .env (.call .session) => True
  | .env (.call (.refreshAfterUnauthorized failed)) =>
      ∃ session ∈ cfg.shared.returned, session.generation = failed
  | .env (.write _) => False

instance decidableSucceeds (cfg : Config Manager Task) : ∀ event, Decidable (Succeeds cfg event)
  | .act i choice => inferInstanceAs (Decidable (∀ t ∈ cfg.tasks[i]?, t.pc.unbroken choice = true))
  | .env (.call .session) => isTrue trivial
  | .env (.call (.refreshAfterUnauthorized failed)) =>
      inferInstanceAs (Decidable (∃ session ∈ cfg.shared.returned, session.generation = failed))
  | .env (.write _) => isFalse id

theorem Pc.Committed.unbroken (h : pc.Committed) (hok : pc.unbroken choice = true) :
    choice.breaks = false := by
  cases pc with
  | exchanging session => simpa [Pc.unbroken] using hok
  | stamping session tokens => simpa [Pc.unbroken] using hok
  | saving session => simpa [Pc.unbroken] using hok
  | storing session => simpa [Pc.unbroken] using hok
  | _ => exact h.elim

theorem unbroken_presenting (hok : pc.unbroken choice = true) :
    ∀ session message, pc = .presenting session → choice ≠ .fail message := by
  rintro session message rfl rfl
  cases hok

theorem chained_stable (initial : Option StoredCodexSession) :
    System.Stable system Succeeds Exclusive (Chained initial)
      fun m _ t => Phase initial m t.pc ∧ Known initial m t where
  act {cfg i choice t m' t' started} hexclusive hok htask hact hchained hlocal := by
    obtain ⟨hphase, hknown⟩ := hlocal
    obtain ⟨pc', rfl, hstep⟩ := act_step hact
    have hunbroken := hok t htask
    have hcommitted : t.pc.Committed → choice.breaks = false := fun h => h.unbroken hunbroken
    have hgate : t.pc.Gated → cfg.shared.gate ≠ none := fun hgated => hexclusive.taken htask hgated
    obtain ⟨hchained', hphase', rfl⟩ := hstep.chained hchained hphase hgate hcommitted
    refine ⟨hchained', ⟨hphase', ?_⟩, by simp⟩
    intro failed hcall
    obtain ⟨⟨older, hmem, heq⟩, hexpects⟩ := hknown failed hcall
    constructor
    · exact ⟨older, hstep.chain_subset hmem, heq⟩
    · change t.call = _ at hcall
      rw [hcall] at hstep
      exact hstep.expects hchained hphase hcommitted (unbroken_presenting hunbroken) ⟨older, hmem, heq⟩ hexpects
  other {cfg i choice t m' t' started j u} hexclusive hok htask hact hchained hlocal hne hother hu := by
    obtain ⟨hphase, hknown⟩ := hu
    obtain ⟨pc', rfl, hstep⟩ := act_step hact
    constructor
    · by_cases hgated : u.pc.Gated
      · have htaken := hexclusive.taken hother hgated
        have hnot : ¬ t.pc.Gated := fun h => hne (hexclusive.eq hother htask hgated h)
        obtain ⟨hcached, hexchanges, ⟨hstored, hsaved⟩ | ⟨session, hdetached, -⟩⟩ :=
          hstep.outside hnot htaken
        · exact hphase.frame hcached hstored hexchanges hsaved
        · have hfalse := hlocal.1
          rw [hdetached] at hfalse
          exact hfalse.elim
      · obtain houter | ⟨exit, hended⟩ | ⟨session, hdetached⟩ := Pc.of_not_gated hgated
        · exact houter.phase
        · rw [hended] at hphase ⊢
          exact fun session heq => hstep.chain_subset (hphase session heq)
        · rw [hdetached] at hphase
          exact hphase.elim
    · intro failed hcall
      obtain ⟨⟨older, hmem, heq⟩, hexpects⟩ := hknown failed hcall
      exact ⟨⟨older, hstep.chain_subset hmem, heq⟩, hexpects.mono hstep.chain_subset⟩
  env {cfg event m' started} _ hok henv hchained := by
    cases event with
    | write content => exact hok.elim
    | call call =>
        cases henv
        refine ⟨hchained, fun _ _ _ h => h, ?_⟩
        intro u hmem j
        rw [List.mem_singleton] at hmem
        subst hmem
        refine ⟨trivial, ?_⟩
        intro failed hcall
        change call = _ at hcall
        subst hcall
        obtain ⟨session, hreturned, heq⟩ := hok
        exact ⟨⟨session, hchained.returned session hreturned, heq⟩, trivial⟩

theorem chained_start (initial : Option StoredCodexSession) :
    System.Holds (Chained initial) (fun m _ t => Phase initial m t.pc ∧ Known initial m t)
      (start initial) where
  shared := {
    stored := by cases initial <;> rfl
    sorted := by cases initial <;> simp [chain, start, Manager.init]
    exchanged := .inr (by cases initial <;> rfl)
    cached := fun _ h => by cases h
    returned := fun _ h => by cases h
    settled := fun _ => ⟨fun _ h => (by cases h), by cases initial <;> rfl⟩ }
  tasks := fun _ _ h => by cases h

end Callers

section Refresh

/-- The refresh request of the call was sent and is not answered. -/
def Task.InFlight (t : Task) : Prop := ∃ session, t.pc = .exchanging session

/-- The exchanges of a generation. -/
def exchangesOf (generation : UInt64) (m : Manager) : Nat :=
  m.exchanges.countP fun exchange => exchange.session.generation = generation

/-- The calls that were refused with a generation. -/
structure RefreshedOnce (failed : UInt64) (cfg : Config Manager Task) : Prop where
  /-- They exchange no other generation. -/
  own : ∀ (i : Nat) session, cfg.tasks[i]? = some ⟨.refreshAfterUnauthorized failed, .exchanging session⟩ →
    session.generation = failed
  once : exchangesOf failed cfg.shared ≤ 1
  ended : ∀ (i : Nat) exit, cfg.tasks[i]? = some ⟨.refreshAfterUnauthorized failed, .ended exit⟩ →
    (∃ session, exit = .returned session ∧ failed.toNat < session.generation.toNat ∧
      exchangesOf failed cfg.shared = 1) ∨
    (∃ message, exit = .failed (.store message)) ∨ exit = .dropped

/-- Calls that return the same generation return the same session. -/
def ReturnsOne (cfg : Config Manager Task) : Prop :=
  ∀ (i j : Nat) call call' a b, cfg.tasks[i]? = some (Task.mk call (.ended (.returned a))) →
    cfg.tasks[j]? = some (Task.mk call' (.ended (.returned b))) → a.generation = b.generation →
    a.generation.toNat + 1 < UInt64.size → a = b

variable {initial : Option StoredCodexSession} {m : Manager} {failed : UInt64}

theorem exchangesOf_eq (m : Manager) (generation : UInt64) : exchangesOf generation m =
    (m.exchanges.map Exchange.session).countP (fun session => session.generation = generation) := by
  rw [exchangesOf, List.countP_map]
  rfl

theorem Chained.exchangesOf_le (h : Chained initial m) (hlt : failed.toNat + 1 < UInt64.size) :
    exchangesOf failed m ≤ 1 := by
  have hchain := countP_le_one h.sorted hlt
  rw [exchangesOf_eq]
  obtain heq | heq := h.exchanged
  · rw [heq]
    exact hchain
  · rw [heq]
    exact Nat.le_trans ((List.tail_sublist _).countP_le) hchain

/-- Once the chain has a later session the generation was exchanged. -/
theorem Chained.exchangesOf_pos (h : Chained initial m) {older newer : StoredCodexSession}
    (holder : older ∈ chain initial m) (hnewer : newer ∈ chain initial m)
    (hless : older.generation.toNat < newer.generation.toNat)
    (hlt : older.generation.toNat + 1 < UInt64.size) : 0 < exchangesOf older.generation m := by
  have htail : older ∈ (chain initial m).tail := by
    have hsorted := h.sorted
    generalize chain initial m = sessions at holder hnewer hsorted
    cases hsorted with
    | nil => cases holder
    | @cons first rest hlater _ =>
        obtain rfl | hrest := List.mem_cons.mp holder
        · obtain rfl | hrest := List.mem_cons.mp hnewer
          · exact absurd hless (Nat.lt_irrefl _)
          · obtain hgreater | hmax := hlater newer hrest
            · omega
            · omega
        · exact hrest
  rw [exchangesOf_eq, List.countP_pos_iff]
  refine ⟨older, ?_, by simp⟩
  obtain heq | heq := h.exchanged
  · rw [heq]
    exact List.mem_of_mem_tail htail
  · rw [heq]
    exact htail

/-- At most one refresh exchange is in flight, whatever fails or is dropped. While exchanges and
saves succeed, a generation is exchanged once, and the calls that were refused with it return the
session that this exchange gave, or a later one. -/
theorem refresh_single_flight (initial : Option StoredCodexSession) (events : List (Event Choice Outside)) :
    (∀ (i j : Nat) t u, (system.run (start initial) events).tasks[i]? = some t →
      (system.run (start initial) events).tasks[j]? = some u → t.InFlight → u.InFlight → i = j) ∧
    (system.Meets Succeeds (start initial) events →
      ReturnsOne (system.run (start initial) events) ∧
      ∀ failed : UInt64, failed.toNat + 1 < UInt64.size →
        RefreshedOnce failed (system.run (start initial) events)) := by
  have hexclusive := exclusive_preserved.run_free (exclusive_start initial) events
  constructor
  · rintro i j t u hi hj ⟨session, ht⟩ ⟨session', hu⟩
    have hgated : ∀ {session}, (Pc.exchanging session).Gated := fun {_} => .inr (.inl trivial)
    exact hexclusive.eq hi hj (ht ▸ hgated) (hu ▸ hgated)
  · intro hmeets
    obtain ⟨-, hchained, htasks⟩ :=
      ((chained_stable initial).preserved exclusive_preserved.mono).run
        ⟨exclusive_start initial, chained_start initial⟩ hmeets
    generalize system.run (start initial) events = cfg at hchained htasks
    refine ⟨?_, fun failed hlt => ⟨?_, hchained.exchangesOf_le hlt, ?_⟩⟩
    · intro i j call call' a b hi hj heq hbelow
      exact eq_of_generation hchained.sorted ((htasks i _ hi).1 a rfl) ((htasks j _ hj).1 b rfl) heq hbelow
    · intro i session hi
      exact ((htasks i _ hi).2 failed rfl).2
    · intro i exit hi
      obtain ⟨⟨older, holder, rfl⟩, houtcome⟩ := (htasks i _ hi).2 failed rfl
      cases exit with
      | returned session =>
          left
          obtain ⟨hnewer, hgreater⟩ := houtcome
          have hless := hgreater hlt
          have hpos := hchained.exchangesOf_pos holder hnewer hless hlt
          have hle := hchained.exchangesOf_le hlt
          exact ⟨session, rfl, hless, Nat.le_antisymm hle hpos⟩
      | failed error =>
          obtain ⟨message, rfl⟩ := houtcome
          exact .inr (.inl ⟨message, rfl⟩)
      | dropped => exact .inr (.inr rfl)

/-- The steps of one call. -/
def turn (i : Nat) (choices : List Choice) : List (Event Choice Outside) := choices.map (.act i)

def storedSession (generation : UInt64) : StoredCodexSession where
  accessToken := "access"
  refreshToken := "refresh"
  expiresAt := 5000
  accountId := "acct-1"
  generation := generation

def renewal : RefreshResponse where
  accessToken := "renewed"
  refreshToken := some "rotated"
  expiresIn := none

/-- A call returns the stored session, and two calls report its generation as refused: the first one
takes the gate and exchanges, the second one waits. -/
def twoRefused (generation : UInt64) : List (Event Choice Outside) :=
  [.env (.call .session)] ++
    turn 0 [.clock 1000, .proceed, .proceed, .clock 1000, .proceed, .proceed, .proceed, .proceed] ++
    [.env (.call (.refreshAfterUnauthorized generation)),
      .env (.call (.refreshAfterUnauthorized generation))] ++
    turn 1 [.proceed, .proceed] ++ turn 2 [.proceed] ++
    turn 1 [.proceed, .proceed, .proceed, .proceed, .answer renewal, .clock 2000, .proceed, .proceed,
      .proceed]

/-- The second call finds the renewed session. -/
def secondServed (generation : UInt64) : List (Event Choice Outside) :=
  twoRefused generation ++ turn 2 [.proceed, .proceed, .proceed, .proceed]

/-- The second call exchanges as well. -/
def secondExchanged (generation : UInt64) : List (Event Choice Outside) :=
  twoRefused generation ++ turn 2 [.proceed, .proceed, .proceed, .proceed, .proceed,
    .answer renewal, .clock 2000, .proceed, .proceed, .proceed]

theorem refresh_single_flight_two :
    (system.run (start (some (storedSession 7))) (secondServed 7)).tasks.map Task.pc =
      [.ended (.returned (storedSession 7)),
        .ended (.returned ((storedSession 7).refreshed renewal 2000)),
        .ended (.returned ((storedSession 7).refreshed renewal 2000))] ∧
    RefreshedOnce 7 (system.run (start (some (storedSession 7))) (secondServed 7)) := by
  constructor
  · decide
  · exact ((refresh_single_flight (some (storedSession 7)) (secondServed 7)).2 (by decide)).2 7
      (by decide)

/-- The generation of a refreshed session does not grow beyond the largest one. -/
theorem largest_generation_exchanged_twice :
    system.Meets Succeeds (start (some (storedSession (UInt64.ofNat (UInt64.size - 1)))))
      (secondExchanged (UInt64.ofNat (UInt64.size - 1))) ∧
    exchangesOf (UInt64.ofNat (UInt64.size - 1))
      (system.run (start (some (storedSession (UInt64.ofNat (UInt64.size - 1)))))
        (secondExchanged (UInt64.ofNat (UInt64.size - 1)))).shared = 2 ∧
    (system.run (start (some (storedSession (UInt64.ofNat (UInt64.size - 1)))))
        (secondExchanged (UInt64.ofNat (UInt64.size - 1)))).shared.returned.map
          StoredCodexSession.generation = List.replicate 3 (UInt64.ofNat (UInt64.size - 1)) := by
  decide

end Refresh

end OpenaiRs.TokenManager
