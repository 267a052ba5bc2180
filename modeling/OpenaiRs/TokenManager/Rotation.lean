import OpenaiRs.TokenManager.Gate

/-!
# Rotated refresh tokens

A refresh token is used up by an exchange that answers with a replacement. While no call stops
between such an answer and its cache write, the cache and the store hold the latest replacement
whenever the gate is free, and every exchange presents it.
-/

namespace OpenaiRs.TokenManager

open Interleaving

section Exchanges

/-- The refresh token that replaces the presented one. -/
def Exchange.replacement (exchange : Exchange) : Option String :=
  (exchange.answer.bind RefreshResponse.refreshToken).filter fun token =>
    token != exchange.session.refreshToken

/-- The replacement that was answered last; the latest exchange comes first. -/
def latest (exchanges : List Exchange) : Option String := exchanges.findSome? Exchange.replacement

/-- The token is the latest replacement, if there was one. -/
def Current (exchanges : List Exchange) (token : String) : Prop :=
  ∀ replacement ∈ latest exchanges, token = replacement

instance Current.instDecidable (exchanges : List Exchange) (token : String) :
    Decidable (Current exchanges token) :=
  inferInstanceAs (Decidable (∀ replacement ∈ latest exchanges, token = replacement))

/-- The last exchange was not answered with a replacement. -/
def Unreplaced (exchanges : List Exchange) : Prop :=
  ∀ exchange ∈ exchanges.head?, exchange.replacement = none

instance Unreplaced.instDecidable (exchanges : List Exchange) : Decidable (Unreplaced exchanges) :=
  inferInstanceAs (Decidable (∀ exchange ∈ exchanges.head?, exchange.replacement = none))

/-- Each exchange presented the latest replacement, and was answered with a token that had not been
presented. -/
def Rotates : List Exchange → Prop
  | [] => True
  | exchange :: earlier =>
      Current earlier exchange.session.refreshToken ∧
      (∀ token, exchange.replacement = some token →
        ∀ other ∈ exchange :: earlier, other.session.refreshToken ≠ token) ∧
      Rotates earlier

/-- A token that was replaced is not presented again. -/
def NeverReplayed (exchanges : List Exchange) : Prop :=
  exchanges.Pairwise fun later earlier =>
    earlier.replacement ≠ none → later.session.refreshToken ≠ earlier.session.refreshToken

variable {exchange : Exchange} {exchanges earlier : List Exchange} {token : String}

theorem latest_cons : latest (exchange :: earlier) = exchange.replacement.or (latest earlier) := by
  rw [latest, List.findSome?_cons]
  cases exchange.replacement <;> rfl

theorem latest_of_replaced (hmem : exchange ∈ exchanges) (h : exchange.replacement ≠ none) :
    ∃ replacement, latest exchanges = some replacement := by
  have hsome : (latest exchanges).isSome = true := by
    rw [latest, List.findSome?_isSome_iff]
    exact ⟨exchange, hmem, Option.isSome_iff_ne_none.mpr h⟩
  exact Option.isSome_iff_exists.mp hsome

/-- The latest replacement differs from every token that was replaced. -/
theorem Rotates.latest_ne (h : Rotates exchanges) (hlatest : latest exchanges = some token)
    (hmem : exchange ∈ exchanges) (hreplaced : exchange.replacement ≠ none) :
    exchange.session.refreshToken ≠ token := by
  induction exchanges with
  | nil => cases hmem
  | cons first earlier ih =>
      obtain ⟨-, hnew, hrest⟩ := h
      rw [latest_cons] at hlatest
      cases hfirst : first.replacement with
      | some replacement =>
          rw [hfirst] at hlatest
          cases hlatest
          exact hnew _ hfirst exchange hmem
      | none =>
          rw [hfirst] at hlatest
          obtain rfl | hearlier := List.mem_cons.mp hmem
          · exact absurd hfirst hreplaced
          · exact ih hrest hlatest hearlier

theorem Rotates.neverReplayed (h : Rotates exchanges) : NeverReplayed exchanges := by
  induction exchanges with
  | nil => exact List.Pairwise.nil
  | cons first earlier ih =>
      obtain ⟨hcurrent, -, hrest⟩ := h
      refine List.Pairwise.cons ?_ (ih hrest)
      intro other hmem hreplaced
      obtain ⟨replacement, hlatest⟩ := latest_of_replaced hmem hreplaced
      rw [hcurrent replacement hlatest]
      exact (hrest.latest_ne hlatest hmem hreplaced).symm

theorem latest_unreplaced (h : exchange.replacement = none) : latest (exchange :: earlier) = latest earlier := by
  rw [latest_cons, h]
  rfl

/-- The token that a call keeps after an answer is current. -/
theorem current_answered {session : StoredCodexSession} {tokens : RefreshResponse}
    (h : Current earlier session.refreshToken) :
    Current (⟨session, some tokens⟩ :: earlier) (tokens.refreshToken.getD session.refreshToken) := by
  have hreplacement : (Exchange.mk session (some tokens)).replacement =
      tokens.refreshToken.filter fun token => token != session.refreshToken := rfl
  cases htoken : tokens.refreshToken with
  | none =>
      rw [htoken] at hreplacement
      rw [Current, latest_unreplaced hreplacement]
      exact h
  | some token =>
      rw [htoken] at hreplacement
      by_cases hsame : token = session.refreshToken
      · rw [Option.filter_some, if_neg (by simpa using hsame)] at hreplacement
        rw [Current, latest_unreplaced hreplacement, hsame]
        exact h
      · rw [Option.filter_some, if_pos (by simpa using hsame)] at hreplacement
        rw [Current, latest_cons, hreplacement]
        rintro replacement ⟨rfl⟩
        rfl

/-- An exchange that presents the latest replacement. -/
theorem Rotates.present {session : StoredCodexSession} (h : Rotates exchanges)
    (hcurrent : Current exchanges session.refreshToken) : Rotates (⟨session, none⟩ :: exchanges) := by
  refine ⟨hcurrent, ?_, h⟩
  intro token hreplacement
  cases hreplacement

/-- Its answer is a token that was not presented. -/
theorem Rotates.answer {session : StoredCodexSession} {tokens : RefreshResponse}
    (h : Rotates (⟨session, none⟩ :: earlier))
    (hnew : ∀ token ∈ tokens.refreshToken, token ≠ session.refreshToken →
      ∀ exchange ∈ earlier, exchange.session.refreshToken ≠ token) :
    Rotates (⟨session, some tokens⟩ :: earlier) := by
  obtain ⟨hcurrent, -, hearlier⟩ := h
  refine ⟨hcurrent, ?_, hearlier⟩
  intro token hreplacement other hmem
  obtain ⟨htoken, hother⟩ := Option.filter_eq_some_iff.mp hreplacement
  have hne : token ≠ session.refreshToken := bne_iff_ne.mp hother
  obtain rfl | hmem := List.mem_cons.mp hmem
  · exact hne.symm
  · exact hnew token htoken hne other hmem

theorem Rotates.current (h : Rotates exchanges) {later : List Exchange}
    (heq : exchanges = later ++ exchange :: earlier) : Current earlier exchange.session.refreshToken := by
  subst heq
  induction later with
  | nil => exact h.1
  | cons first rest ih => exact ih h.2.2

end Exchanges

section Calls

/-- The cache and the store hold the latest replacement. -/
structure Clean (m : Manager) : Prop where
  cached : ∀ session ∈ m.cached, Current m.exchanges session.refreshToken
  stored : ∀ session ∈ m.stored, Current m.exchanges session.refreshToken
  kept : latest m.exchanges ≠ none → m.stored ≠ none

/-- The token is the latest replacement, and the call may stop if its answer had none. -/
def Carries (m : Manager) (token : String) : Prop :=
  Current m.exchanges token ∧ (Unreplaced m.exchanges → Clean m)

/-- What holds where a call stands. -/
def Holding (m : Manager) : Pc → Prop
  | .locked => Clean m
  | .inspecting _ => Clean m
  | .comparing _ => Clean m
  | .loading _ => Clean m
  | .caching session => Clean m ∧ Current m.exchanges session.refreshToken
  | .presenting session => Clean m ∧ Current m.exchanges session.refreshToken
  | .exchanging session => Clean m ∧ Current m.exchanges session.refreshToken ∧
      ∃ earlier, m.exchanges = ⟨session, none⟩ :: earlier
  | .stamping session tokens => Carries m (tokens.refreshToken.getD session.refreshToken)
  | .saving session => Carries m session.refreshToken
  | .storing session => Carries m session.refreshToken ∧
      ∃ stored, m.stored = some stored ∧ Current m.exchanges stored.refreshToken
  | .releasing _ => Clean m
  | _ => True

/-- Between calls cache and store are clean. -/
structure Rotation (m : Manager) : Prop where
  rotates : Rotates m.exchanges
  clean : m.gate = none → Clean m

def Pc.sent : Pc → Option StoredCodexSession
  | .exchanging session => some session
  | _ => none

def Choice.issued : Choice → Option String
  | .answer tokens => tokens.refreshToken
  | _ => none

/-- The token endpoint issues the presented token again, or one that was not presented before. -/
def IssuesNew (m : Manager) (pc : Pc) (choice : Choice) : Prop :=
  ∀ session ∈ pc.sent, ∀ token ∈ choice.issued, token ≠ session.refreshToken →
    ∀ exchange ∈ m.exchanges, exchange.session.refreshToken ≠ token

instance IssuesNew.instDecidable (m : Manager) (pc : Pc) (choice : Choice) :
    Decidable (IssuesNew m pc choice) :=
  inferInstanceAs (Decidable (∀ session ∈ pc.sent, ∀ token ∈ choice.issued,
    token ≠ session.refreshToken → ∀ exchange ∈ m.exchanges, exchange.session.refreshToken ≠ token))

/-- A call does not stop between an answer with a replacement and the cache write, if the cache has a
session, and a save that has outlived its call does not bring an old token back. -/
def Completes (m : Manager) : Pc → Choice → Prop
  | .stamping _ _, choice => choice.breaks = true → Unreplaced m.exchanges
  | .saving _, choice => choice.breaks = true → Unreplaced m.exchanges
  | .storing _, choice => choice.breaks = true → Unreplaced m.exchanges ∨ m.cached = none
  | .detached session, _ => Current m.exchanges session.refreshToken
  | _, _ => True

instance Completes.instDecidable (m : Manager) (pc : Pc) (choice : Choice) :
    Decidable (Completes m pc choice) := by
  cases pc with
  | stamping session tokens =>
      exact inferInstanceAs (Decidable (choice.breaks = true → Unreplaced m.exchanges))
  | saving session =>
      exact inferInstanceAs (Decidable (choice.breaks = true → Unreplaced m.exchanges))
  | storing session =>
      exact inferInstanceAs (Decidable (choice.breaks = true → Unreplaced m.exchanges ∨ m.cached = none))
  | detached session => exact inferInstanceAs (Decidable (Current m.exchanges session.refreshToken))
  | _ => exact isTrue trivial

variable {m m' : Manager} {i : Nat} {call : Call} {pc pc' : Pc} {choice : Choice} {started : List Task}
  {session : StoredCodexSession}

theorem Clean.frame (h : Clean m) (hcached : m'.cached = m.cached) (hstored : m'.stored = m.stored)
    (hlatest : latest m'.exchanges = latest m.exchanges) : Clean m' where
  cached := by rw [hcached]; simpa only [Current, hlatest] using h.cached
  stored := by rw [hstored]; simpa only [Current, hlatest] using h.stored
  kept := by rw [hlatest, hstored]; exact h.kept

theorem Clean.save (h : Clean m) (hcurrent : Current m.exchanges session.refreshToken) :
    Clean (m.save session) where
  cached := h.cached
  stored := by rintro stored ⟨rfl⟩; exact hcurrent
  kept _ := Option.some_ne_none _

theorem Clean.cache (h : Clean m) (hcurrent : Current m.exchanges session.refreshToken) :
    Clean { m with cached := some session } where
  cached := by rintro cached ⟨rfl⟩; exact hcurrent
  stored := h.stored
  kept := h.kept

theorem Clean.finish (h : Clean m) (exit : Exit) : Clean (m.finish exit) :=
  h.frame (finish_cached m exit) (finish_stored m exit) (by rw [finish_exchanges])

theorem Holding.clean (h : Holding m pc) (huncommitted : pc.Uncommitted) : Clean m := by
  cases pc with
  | caching session => exact h.1
  | presenting session => exact h.1
  | locked => exact h
  | inspecting now => exact h
  | comparing failed => exact h
  | loading purpose => exact h
  | _ => exact huncommitted.elim

theorem Pc.Outer.holding (h : pc.Outer) : Holding m pc := by
  cases pc with
  | started => trivial
  | checking now => trivial
  | locking => trivial
  | _ => exact h.elim

/-- A call that stops after it presented a refresh token leaves the manager clean. -/
theorem Holding.clean_of_breaks (h : Holding m pc) (hcommitted : pc.Committed)
    (hcompletes : Completes m pc choice) (hbreaks : choice.breaks = true) : Clean m := by
  cases pc with
  | exchanging session => exact h.1
  | stamping session tokens => exact h.2 (hcompletes hbreaks)
  | saving session => exact h.2 (hcompletes hbreaks)
  | storing session =>
      obtain ⟨⟨-, hclean⟩, stored, hstored, hcurrent⟩ := h
      obtain hunreplaced | hnone := hcompletes hbreaks
      · exact hclean hunreplaced
      · constructor
        · rw [hnone]
          exact fun _ hcached => nomatch hcached
        · rw [hstored]
          rintro _ ⟨rfl⟩
          exact hcurrent
        · rw [hstored]
          exact fun _ => Option.some_ne_none _
  | _ => exact hcommitted.elim

theorem Rotation.frame (h : Rotation m) (hexchanges : m'.exchanges = m.exchanges)
    (hclean : m'.gate = none → Clean m') : Rotation m' where
  rotates := hexchanges ▸ h.rotates
  clean := hclean

theorem Step.rotation (h : Step m i call pc choice m' pc' started) (hrotation : Rotation m)
    (hholding : Holding m pc) (hgate : pc.Gated → m.gate ≠ none) (hnew : IssuesNew m pc choice)
    (hcompletes : Completes m pc choice) :
    Rotation m' ∧ Holding m' pc' ∧ ∀ u ∈ started, Holding m' u.pc := by
  have hcommitted : ∀ {pc : Pc}, pc.Committed → pc.Gated := fun h => .inr (.inl h)
  have hnone : ∀ u ∈ ([] : List Task), Holding m' u.pc := fun _ h => nomatch h
  cases h with
  | quit => exact ⟨hrotation, trivial, hnone⟩
  | checking => exact ⟨hrotation, trivial, hnone⟩
  | queue => exact ⟨hrotation, trivial, hnone⟩
  | usable =>
      refine ⟨hrotation.frame (by simp) ?_, trivial, hnone⟩
      intro hfree
      rw [finish_gate] at hfree
      exact (hrotation.clean hfree).finish _
  | lock hfree =>
      have hclean : Clean { m with gate := some i } := (hrotation.clean hfree).frame rfl rfl rfl
      exact ⟨hrotation.frame rfl (fun htaken => nomatch htaken), hclean, hnone⟩
  | giveUp hgives => exact ⟨hrotation, hholding.clean hgives.uncommitted, hnone⟩
  | inspecting => exact ⟨hrotation, hholding, hnone⟩
  | comparing => exact ⟨hrotation, hholding, hnone⟩
  | keep hcached => exact ⟨hrotation, ⟨hholding, hholding.cached _ hcached⟩, hnone⟩
  | expired hcached => exact ⟨hrotation, ⟨hholding, hholding.cached _ hcached⟩, hnone⟩
  | uncached => exact ⟨hrotation, hholding, hnone⟩
  | newer => exact ⟨hrotation, hholding, hnone⟩
  | stale => exact ⟨hrotation, hholding, hnone⟩
  | accept hstored => exact ⟨hrotation, ⟨hholding, hholding.stored _ hstored⟩, hnone⟩
  | refuse hstored => exact ⟨hrotation, ⟨hholding, hholding.stored _ hstored⟩, hnone⟩
  | cache =>
      have hclean := hholding.1.cache hholding.2
      exact ⟨hrotation.frame rfl (fun _ => hclean), hclean, hnone⟩
  | @present session =>
      obtain ⟨hclean, hcurrent⟩ := hholding
      have hunanswered : latest (⟨session, none⟩ :: m.exchanges) = latest m.exchanges :=
        latest_unreplaced rfl
      refine ⟨⟨hrotation.rotates.present hcurrent, ?_⟩, ⟨?_, ?_, m.exchanges, rfl⟩, hnone⟩
      · exact fun hfree => absurd hfree (hgate (.inl trivial))
      · exact hclean.frame rfl rfl hunanswered
      · rw [Current, hunanswered]
        exact hcurrent
  | @answer session tokens =>
      obtain ⟨hclean, hcurrent, earlier, hexchanges⟩ := hholding
      have hanswered : answerLast tokens m.exchanges = ⟨session, some tokens⟩ :: earlier := by
        rw [hexchanges]
        rfl
      have hrotates := hrotation.rotates
      rw [hexchanges] at hrotates
      have hnew' : ∀ token ∈ tokens.refreshToken, token ≠ session.refreshToken →
          ∀ exchange ∈ earlier, exchange.session.refreshToken ≠ token := by
        intro token htoken hne exchange hmem
        exact hnew session rfl token htoken hne exchange (hexchanges ▸ .tail _ hmem)
      rw [hanswered]
      refine ⟨⟨hrotates.answer hnew', ?_⟩, ⟨current_answered hrotates.1, ?_⟩, by simp⟩
      · exact fun hfree => absurd hfree (hgate (hcommitted trivial))
      · intro hunreplaced
        refine hclean.frame rfl rfl ?_
        rw [hexchanges]
        exact latest_unreplaced (hunreplaced _ rfl)
  | stamp => exact ⟨hrotation, hholding, hnone⟩
  | save =>
      obtain ⟨hcurrent, hclean⟩ := hholding
      refine ⟨hrotation.frame rfl ?_, ⟨⟨hcurrent, ?_⟩, _, rfl, hcurrent⟩, hnone⟩
      · exact fun hfree => absurd hfree (hgate (hcommitted trivial))
      · exact fun hunreplaced => (hclean hunreplaced).save hcurrent
  | store =>
      obtain ⟨⟨hcurrent, -⟩, stored, hstored, hkept⟩ := hholding
      have hclean : Clean { m with cached := some _ } := {
        cached := by rintro cached ⟨rfl⟩; exact hcurrent
        stored := by
          intro session hmem
          cases hstored.symm.trans hmem
          exact hkept
        kept := fun _ hempty => nomatch hstored.symm.trans hempty }
      exact ⟨hrotation.frame rfl (fun _ => hclean), hclean, hnone⟩
  | broken hpc _ hbreaks => exact ⟨hrotation, hholding.clean_of_breaks hpc hcompletes hbreaks, hnone⟩
  | detach =>
      refine ⟨hrotation, hholding.clean_of_breaks trivial hcompletes rfl, ?_⟩
      intro u hmem
      rw [List.mem_singleton] at hmem
      subst hmem
      trivial
  | @release exit =>
      have hclean : Clean { m with gate := none } := Clean.frame hholding rfl rfl rfl
      exact ⟨hrotation.frame (by simp) (fun _ => hclean.finish exit), trivial, hnone⟩
  | detached =>
      refine ⟨hrotation.frame rfl ?_, trivial, hnone⟩
      exact fun hfree => (hrotation.clean hfree).save hcompletes

/-- What a call beside the gate can do to cache, store and exchanges. -/
structure Beside (m m' : Manager) : Prop where
  cached : m'.cached = m.cached
  exchanges : m'.exchanges = m.exchanges
  stored : m'.stored = m.stored ∨
    ∃ session, m'.stored = some session ∧ Current m.exchanges session.refreshToken

theorem Step.beside (h : Step m i call pc choice m' pc' started) (hgated : ¬ pc.Gated)
    (htaken : m.gate ≠ none) (hcompletes : Completes m pc choice) : Beside m m' := by
  obtain ⟨hcached, hexchanges, ⟨hstored, -⟩ | ⟨session, rfl, rfl⟩⟩ := h.outside hgated htaken
  · exact ⟨hcached, hexchanges, .inl hstored⟩
  · exact ⟨hcached, hexchanges, .inr ⟨session, rfl, hcompletes⟩⟩

theorem Clean.beside (h : Clean m) (hbeside : Beside m m') : Clean m' := by
  obtain ⟨hcached, hexchanges, hstored | ⟨session, hstored, hcurrent⟩⟩ := hbeside
  · exact h.frame hcached hstored (by rw [hexchanges])
  · constructor
    · rw [hcached, hexchanges]
      exact h.cached
    · rw [hstored, hexchanges]
      rintro stored ⟨rfl⟩
      exact hcurrent
    · rw [hstored]
      exact fun _ => Option.some_ne_none session

theorem Carries.beside {token : String} (h : Carries m token) (hbeside : Beside m m') :
    Carries m' token := by
  rw [Carries, hbeside.exchanges]
  exact ⟨h.1, fun hunreplaced => (h.2 hunreplaced).beside hbeside⟩

theorem Holding.beside (h : Holding m pc) (hbeside : Beside m m') : Holding m' pc := by
  have hclean : Clean m → Clean m' := fun h => h.beside hbeside
  have hexchanges := hbeside.exchanges
  cases pc with
  | locked => exact hclean h
  | inspecting now => exact hclean h
  | comparing failed => exact hclean h
  | loading purpose => exact hclean h
  | releasing exit => exact hclean h
  | caching session => exact ⟨hclean h.1, hexchanges ▸ h.2⟩
  | presenting session => exact ⟨hclean h.1, hexchanges ▸ h.2⟩
  | exchanging session => exact ⟨hclean h.1, hexchanges ▸ h.2⟩
  | stamping session tokens => exact Carries.beside h hbeside
  | saving session => exact Carries.beside h hbeside
  | storing session =>
      obtain ⟨hcarries, stored, hstored, hcurrent⟩ := h
      refine ⟨hcarries.beside hbeside, ?_⟩
      rw [hexchanges]
      obtain hsame | hsaved := hbeside.stored
      · exact ⟨stored, hsame.trans hstored, hcurrent⟩
      · exact hsaved
  | _ => trivial

end Calls

section Runs

/-- A condition on the step of a call; no one else writes the store. -/
def OfCalls (P : Manager → Pc → Choice → Prop) (cfg : Config Manager Task) :
    Event Choice Outside → Prop
  | .act i choice => ∀ t ∈ cfg.tasks[i]?, P cfg.shared t.pc choice
  | .env (.call _) => True
  | .env (.write _) => False

instance OfCalls.instDecidable (P : Manager → Pc → Choice → Prop)
    [∀ m pc choice, Decidable (P m pc choice)] (cfg : Config Manager Task) :
    ∀ event, Decidable (OfCalls P cfg event)
  | .act i choice => inferInstanceAs (Decidable (∀ t ∈ cfg.tasks[i]?, P cfg.shared t.pc choice))
  | .env (.call _) => isTrue trivial
  | .env (.write _) => isFalse id

/-- No refresh token that was replaced is presented again, and the replacement is in the cache or the
store whenever a refresh can begin. -/
structure Kept (m : Manager) : Prop where
  neverReplayed : NeverReplayed m.exchanges
  /-- An exchange presents the replacement that was answered last before it. -/
  presented : ∀ later exchange earlier, m.exchanges = later ++ exchange :: earlier →
    Current earlier exchange.session.refreshToken
  available : m.gate = none → ∀ replacement ∈ latest m.exchanges,
    ∃ session, (m.cached = some session ∨ m.stored = some session) ∧ session.refreshToken = replacement

theorem Rotation.kept {m : Manager} (h : Rotation m) : Kept m where
  neverReplayed := h.rotates.neverReplayed
  presented _ _ _ heq := h.rotates.current heq
  available hfree replacement hlatest := by
    obtain ⟨-, hstored, hkept⟩ := h.clean hfree
    have hsome : m.stored ≠ none := hkept (fun hnone => nomatch hnone.symm.trans hlatest)
    obtain ⟨session, hsession⟩ := Option.ne_none_iff_exists'.mp hsome
    exact ⟨session, .inr hsession, hstored session hsession replacement hlatest⟩

theorem rotation_stable :
    System.Stable system (OfCalls fun m pc choice => IssuesNew m pc choice ∧ Completes m pc choice)
      Exclusive Rotation (fun m _ t => Holding m t.pc) where
  act {cfg i choice t m' t' started} hexclusive hok htask hact hrotation hholding := by
    obtain ⟨pc', rfl, hstep⟩ := act_step hact
    obtain ⟨hnew, hcompletes⟩ := hok t htask
    have hgate : t.pc.Gated → cfg.shared.gate ≠ none := fun hgated => hexclusive.taken htask hgated
    obtain ⟨hrotation', hholding', hstarted⟩ := hstep.rotation hrotation hholding hgate hnew hcompletes
    exact ⟨hrotation', hholding', fun u hmem _ => hstarted u hmem⟩
  other {cfg i choice t m' t' started j u} hexclusive hok htask hact _ _ hne hother hu := by
    obtain ⟨pc', rfl, hstep⟩ := act_step hact
    by_cases hgated : u.pc.Gated
    · have htaken := hexclusive.taken hother hgated
      have hnot : ¬ t.pc.Gated := fun h => hne (hexclusive.eq hother htask hgated h)
      exact hu.beside (hstep.beside hnot htaken (hok t htask).2)
    · obtain houter | ⟨exit, hended⟩ | ⟨session, hdetached⟩ := Pc.of_not_gated hgated
      · exact houter.holding
      · rw [hended]
        trivial
      · rw [hdetached]
        trivial
  env {cfg event m' started} _ hok henv hrotation := by
    cases event with
    | write content => exact hok.elim
    | call call =>
        cases henv
        refine ⟨hrotation, fun _ _ _ h => h, ?_⟩
        intro u hmem j
        rw [List.mem_singleton] at hmem
        subst hmem
        trivial

theorem rotation_start (initial : Option StoredCodexSession) :
    System.Holds Rotation (fun m _ t => Holding m t.pc) (start initial) where
  shared := {
    rotates := trivial
    clean := fun _ => {
      cached := fun _ h => nomatch h
      stored := fun _ _ _ h => nomatch h
      kept := fun h => absurd rfl h } }
  tasks _ _ h := by cases h

/-- While the token endpoint issues new tokens and every call completes what an answer with a
replacement begins, no refresh token is lost or replayed. -/
theorem rotated_token_kept (initial : Option StoredCodexSession) (events : List (Event Choice Outside))
    (hissues : system.Meets (OfCalls IssuesNew) (start initial) events)
    (hcompletes : system.Meets (OfCalls Completes) (start initial) events) :
    Kept (system.run (start initial) events).shared := by
  have hmeets : system.Meets (OfCalls fun m pc choice => IssuesNew m pc choice ∧ Completes m pc choice)
      (start initial) events := by
    apply hissues.imp_and system hcompletes
    intro cfg event hissue hcomplete
    cases event with
    | act i choice => exact fun t htask => ⟨hissue t htask, hcomplete t htask⟩
    | env event =>
        cases event with
        | call call => trivial
        | write content => exact hissue
  have hinv := (rotation_stable.preserved exclusive_preserved.mono).run
    ⟨exclusive_start initial, rotation_start initial⟩ hmeets
  exact hinv.2.shared.kept

def expiredSession : StoredCodexSession where
  accessToken := "access"
  refreshToken := "refresh"
  expiresAt := 1000
  accountId := "acct-1"
  generation := 0

def rotatedTokens : RefreshResponse where
  accessToken := "renewed"
  refreshToken := some "rotated"
  expiresIn := some 100

def keptTokens : RefreshResponse where
  accessToken := "renewed again"
  refreshToken := none
  expiresIn := some 100

/-- A call of `session` with an empty cache, up to the answer of the exchange. -/
def refreshing (i : Nat) (now : UInt64) (tokens : RefreshResponse) : List (Event Choice Outside) :=
  .env (.call .session) :: [.clock now, .proceed, .proceed, .clock now, .proceed, .proceed, .proceed,
    .answer tokens, .clock now].map (.act i)

/-- The save that follows the rotation fails, and the next call loads the old session. -/
def unsaved : List (Event Choice Outside) :=
  refreshing 0 2000 rotatedTokens ++ [.act 0 (.fail "keyring is locked"), .act 0 .proceed]

/-- The rotated token is saved; the next refresh brings no new token, and its save fails. -/
def savedOnce : List (Event Choice Outside) :=
  refreshing 0 2000 rotatedTokens ++ [.act 0 .proceed, .act 0 .proceed, .act 0 .proceed] ++
    .env (.call .session) :: [.clock 3000, .proceed, .proceed, .clock 3000, .proceed, .proceed,
      .answer keptTokens, .clock 3000, .fail "keyring is locked", .proceed].map (.act 1)

theorem rotated_token_kept_twice :
    (system.run (start (some expiredSession)) savedOnce).shared.exchanges.map
        (fun exchange => exchange.session.refreshToken) = ["rotated", "refresh"] ∧
    Kept (system.run (start (some expiredSession)) savedOnce).shared := by
  constructor
  · decide
  · exact rotated_token_kept (some expiredSession) savedOnce (by decide) (by decide)

/-- After a failed save neither cache nor store has the replacement, and the next refresh presents the
token that was replaced. -/
theorem replaced_token_replayed :
    ¬ Kept (system.run (start (some expiredSession)) unsaved).shared ∧
    system.Meets (OfCalls IssuesNew) (start (some expiredSession)) (unsaved ++ refreshing 1 3000 keptTokens) ∧
    ¬ NeverReplayed (system.run (start (some expiredSession))
      (unsaved ++ refreshing 1 3000 keptTokens)).shared.exchanges := by
  refine ⟨?_, by decide, ?_⟩
  · intro hkept
    obtain ⟨session, hheld, htoken⟩ := hkept.available (by decide) "rotated" (by decide)
    have hcached : (system.run (start (some expiredSession)) unsaved).shared.cached = none := by
      decide
    have hstored : (system.run (start (some expiredSession)) unsaved).shared.stored =
        some expiredSession := by
      decide
    rw [hcached, hstored] at hheld
    obtain hnone | hold := hheld
    · cases hnone
    · cases hold
      exact absurd htoken (by decide)
  · intro hnever
    have hexchanges : (system.run (start (some expiredSession))
        (unsaved ++ refreshing 1 3000 keptTokens)).shared.exchanges =
        [⟨expiredSession, some keptTokens⟩, ⟨expiredSession, some rotatedTokens⟩] := by
      decide
    rw [hexchanges] at hnever
    exact List.rel_of_pairwise_cons hnever (.head _) (by decide) rfl

end Runs

end OpenaiRs.TokenManager
