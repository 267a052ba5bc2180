import OpenaiRs.X509.Calls

/-!
# Invalidated tokens never come back

An era ends with an invalidation. As long as the generation does not wrap around, the cached token,
the fallback of a current attempt and every returned lease belong to a token that was obtained in the
era in which they are used, by an attempt that began in it.
-/

namespace OpenaiRs.X509

open Interleaving

section History

/-- The number of generations that were used up. -/
def generations : List Observation → Nat
  | [] => 0
  | .obtained _ _ :: rest => generations rest + 1
  | .invalidated _ :: rest => generations rest + 1
  | _ :: rest => generations rest

/-- What happened since the last invalidation. -/
def era : List Observation → List Observation
  | [] => []
  | .invalidated _ :: _ => []
  | o :: rest => o :: era rest

/-- The attempt that began last. -/
def latest : List Observation → Option Attempt
  | [] => none
  | .begun attempt :: _ => some attempt
  | _ :: rest => latest rest

/-- The numbers of attempts and tokens count what has happened before them. -/
def Numbered : List Observation → Prop
  | [] => True
  | .begun attempt :: rest =>
      (attempt.serial = begins rest ∧ attempt.id = UInt64.ofNat (begins rest + 1) ∧
        attempt.generation.toNat = generations rest) ∧ Numbered rest
  | .obtained _ token :: rest => token.generation.toNat = generations rest + 1 ∧ Numbered rest
  | .invalidated generation :: rest => generation.toNat = generations rest ∧ Numbered rest
  | .returned _ _ :: rest => Numbered rest

/-- The token was obtained in this era, by an attempt of this era. -/
def Held (h : List Observation) (token : String) (generation : UInt64) : Prop :=
  ∃ attempt obtained, .begun attempt ∈ era h ∧ .obtained attempt.serial obtained ∈ era h ∧
    obtained.token = token ∧ obtained.generation = generation

variable {h newer older : List Observation} {o : Observation} {attempt other : Attempt}
  {token : CachedToken} {secret : String} {generation : UInt64} {n k : Nat}

theorem begins_append : begins (newer ++ older) = begins newer + begins older := by
  induction newer with
  | nil => exact (Nat.zero_add _).symm
  | cons o newer ih =>
      cases o with
      | begun attempt =>
          rw [List.cons_append, begins, begins, ih]
          omega
      | _ => exact ih

theorem generations_append : generations (newer ++ older) = generations newer + generations older := by
  induction newer with
  | nil => exact (Nat.zero_add _).symm
  | cons o newer ih =>
      have hsucc : generations (newer ++ older) + 1 = generations newer + 1 + generations older := by
        rw [ih]
        omega
      cases o with
      | obtained serial token => exact hsucc
      | invalidated generation => exact hsucc
      | _ => exact ih

theorem era_cons (ho : ∀ generation, o ≠ .invalidated generation) : era (o :: h) = o :: era h := by
  cases o with
  | invalidated generation => exact absurd rfl (ho generation)
  | _ => rfl

/-- Without a new generation the era goes on. -/
theorem era_append (hsame : generations newer = 0) : era (newer ++ older) = newer ++ era older := by
  induction newer with
  | nil => rfl
  | cons o newer ih =>
      cases o with
      | begun attempt => exact congrArg _ (ih hsame)
      | returned call lease => exact congrArg _ (ih hsame)
      | _ => cases hsame

theorem mem_of_era_append {before : List Observation}
    (hmem : o ∈ era (newer ++ .invalidated generation :: before)) : o ∈ newer := by
  induction newer with
  | nil => cases hmem
  | cons first newer ih =>
      cases first with
      | invalidated generation => cases hmem
      | _ =>
          obtain rfl | hrest := List.mem_cons.mp hmem
          · exact .head _
          · exact .tail _ (ih hrest)

theorem Held.cons (hheld : Held h secret generation) (ho : ∀ generation, o ≠ .invalidated generation) :
    Held (o :: h) secret generation := by
  obtain ⟨attempt, obtained, hbegun, hobtained, heq⟩ := hheld
  refine ⟨attempt, obtained, ?_, ?_, heq⟩
  · rw [era_cons ho]
    exact .tail _ hbegun
  · rw [era_cons ho]
    exact .tail _ hobtained

theorem Held.append (hheld : Held older secret generation) (hsame : generations newer = 0) :
    Held (newer ++ older) secret generation := by
  obtain ⟨attempt, obtained, hbegun, hobtained, heq⟩ := hheld
  refine ⟨attempt, obtained, ?_, ?_, heq⟩
  · rw [era_append hsame]
    exact List.mem_append_right _ hbegun
  · rw [era_append hsame]
    exact List.mem_append_right _ hobtained

namespace Numbered

theorem of_append (hnumbered : Numbered (newer ++ older)) : Numbered older := by
  induction newer with
  | nil => exact hnumbered
  | cons o newer ih =>
      cases o with
      | returned call lease => exact ih hnumbered
      | _ => exact ih hnumbered.2

theorem serial_lt (hnumbered : Numbered h) (hmem : .begun attempt ∈ h) : attempt.serial < begins h := by
  obtain ⟨after, before, rfl⟩ := List.append_of_mem hmem
  have hserial : attempt.serial = begins before := hnumbered.of_append.1.1
  rw [begins_append, begins]
  omega

/-- Later attempts have larger numbers. -/
theorem le_serial (hnumbered : Numbered (newer ++ older)) (hmem : .begun attempt ∈ newer) :
    begins older ≤ attempt.serial := by
  obtain ⟨after, before, rfl⟩ := List.append_of_mem hmem
  rw [List.append_assoc, List.cons_append] at hnumbered
  have hserial : attempt.serial = begins (before ++ older) := hnumbered.of_append.1.1
  rw [begins_append] at hserial
  omega

theorem id_eq (hnumbered : Numbered h) (hmem : .begun attempt ∈ h) :
    attempt.id = UInt64.ofNat (attempt.serial + 1) := by
  obtain ⟨after, before, rfl⟩ := List.append_of_mem hmem
  obtain ⟨⟨hserial, hid, -⟩, -⟩ := hnumbered.of_append
  rw [hserial]
  exact hid

theorem generation_le (hnumbered : Numbered h) (hmem : .obtained n token ∈ h) :
    token.generation.toNat ≤ generations h := by
  obtain ⟨after, before, rfl⟩ := List.append_of_mem hmem
  have hgeneration : token.generation.toNat = generations before + 1 := hnumbered.of_append.1
  rw [generations_append, generations]
  omega

/-- Later tokens have larger generations. -/
theorem lt_generation (hnumbered : Numbered (newer ++ older)) (hmem : .obtained n token ∈ newer) :
    generations older < token.generation.toNat := by
  obtain ⟨after, before, rfl⟩ := List.append_of_mem hmem
  rw [List.append_assoc, List.cons_append] at hnumbered
  have hgeneration : token.generation.toNat = generations (before ++ older) + 1 := hnumbered.of_append.1
  rw [generations_append] at hgeneration
  omega

/-- A generation belongs to one token. -/
theorem eq_of_generation {token' : CachedToken} (hnumbered : Numbered h) (hmem : .obtained n token ∈ h)
    (hother : .obtained k token' ∈ h) (hsame : token.generation = token'.generation) :
    n = k ∧ token = token' := by
  obtain ⟨after, before, rfl⟩ := List.append_of_mem hmem
  have hgeneration : token.generation.toNat = generations before + 1 := hnumbered.of_append.1
  obtain hafter | hrest := List.mem_append.mp hother
  · have hlt := hnumbered.lt_generation hafter
    rw [generations, ← hsame, hgeneration] at hlt
    exact absurd hlt (Nat.lt_irrefl _)
  · obtain heq | hbefore := List.mem_cons.mp hrest
    · cases heq
      exact ⟨rfl, rfl⟩
    · have hle := hnumbered.of_append.2.generation_le hbefore
      rw [← hsame, hgeneration] at hle
      exact absurd hle (Nat.not_succ_le_self _)

end Numbered

end History

section Records

variable (setup : Setup)

/-- The lease of a token that is held. -/
def Justified (h : List Observation) (lease : TokenLease) : Prop :=
  ∃ secret, Held h secret lease.generation ∧ leaseOf setup secret lease.generation = .ok lease

/-- Every lease was returned in the era of its token. -/
def Returns (h : List Observation) : Prop :=
  ∀ newer older i lease, h = newer ++ .returned i lease :: older → Justified setup older lease

/-- The state agrees with what has happened. -/
structure Recorded (s : TokenState) (h : List Observation) : Prop where
  numbered : Numbered h
  generation : s.generation.toNat = generations h
  nextAttempt : s.nextAttempt = UInt64.ofNat (begins h)
  cached : ∀ cached, s.cached = some cached →
    cached.generation = s.generation ∧ Held h cached.token cached.generation
  active : ∀ id, s.activeAttempt = some id →
    ∃ attempt, latest (era h) = some attempt ∧ attempt.id = id ∧ attempt.generation = s.generation
  completed : ∀ attempt lease, s.completedAttempt = some (attempt, .ok lease) →
    ∃ cached, s.cached = some cached ∧ tokenLease setup cached = .ok lease
  returns : Returns setup h

/-- The attempt has begun with its generation and its fallback. -/
def Underway (h : List Observation) (attempt : Attempt) (fallback : Option Fallback) : Prop :=
  ∃ newer older, h = newer ++ .begun attempt :: older ∧
    ∀ retained, fallback = some retained →
      retained.generation = attempt.generation ∧ Held older retained.token retained.generation

/-- What is known about a task. -/
def Task.Recorded (h : List Observation) (i : Nat) : Task → Prop
  | .lease (.spawning begun fallback) => Underway h begun fallback
  | .lease (.returned obtained) => .returned i obtained ∈ h
  | .invalidate generation .notifying => .invalidated generation ∈ h
  | .invalidate generation (.ended true) => .invalidated generation ∈ h
  | .attempt begun fallback _ => Underway h begun fallback
  | _ => True

/-- What an attempt does with the state when it is current. -/
inductive Settles (s : TokenState) (fallback : Option Fallback) :
    TokenState → Except X509Error TokenLease → Prop
  | obtained {token : ExchangedToken} :
      Settles s fallback { s with generation := s.generation + 1, cached := some (s.obtain setup token) }
        (tokenLease setup (s.obtain setup token))
  | expired : Settles s fallback { s with cached := none } (.error .invalidTokenLifetime)
  | retained {retained : Fallback} {later : Nat} : fallback = some retained →
      Settles s fallback { s with cached := some (TokenState.retain retained later) }
        (tokenLease setup (TokenState.retain retained later))
  | failed {error : X509Error} : Settles s fallback s (.error error)

variable {setup} {s s' : TokenState} {h newer older : List Observation} {o : Observation}
  {attempt : Attempt} {fallback : Option Fallback} {exchanged : Except X509Error ExchangedToken}
  {result : Except X509Error TokenLease} {cached : CachedToken} {lease : TokenLease} {generation : UInt64}
  {i now later : Nat}

theorem settle_settles : Settles setup s fallback (s.settle setup fallback exchanged now later).1
    (s.settle setup fallback exchanged now later).2 := by
  cases exchanged with
  | ok token =>
      rw [TokenState.settle]
      split
      · exact .expired
      · exact .obtained
  | error error =>
      rw [TokenState.settle]
      split
      · rename_i retained hretained
        exact .retained (Option.filter_eq_some_iff.mp hretained).1
      · exact .failed

theorem leaseOf_generation {secret : String} (hlease : leaseOf setup secret generation = .ok lease) :
    lease.generation = generation := by
  rw [leaseOf] at hlease
  split at hlease
  · cases hlease
    rfl
  · cases hlease

/-- What is not a lease does not have to be justified. -/
theorem Returns.cons (hreturns : Returns setup h)
    (ho : ∀ i lease, o = .returned i lease → Justified setup h lease) : Returns setup (o :: h) := by
  intro newer older i lease hsplit
  cases newer with
  | nil =>
      injection hsplit with hfirst hrest
      subst hrest
      exact ho i lease hfirst
  | cons first newer =>
      injection hsplit with _ hrest
      exact hreturns newer older i lease hrest

theorem Underway.append (hunderway : Underway older attempt fallback) :
    Underway (newer ++ older) attempt fallback := by
  obtain ⟨after, before, rfl, hfallback⟩ := hunderway
  exact ⟨newer ++ after, before, (List.append_assoc _ _ _).symm, hfallback⟩

theorem Task.Recorded.append {t : Task} (ht : t.Recorded older i) : t.Recorded (newer ++ older) i := by
  cases t with
  | lease pc =>
      cases pc with
      | spawning attempt fallback => exact Underway.append ht
      | returned lease => exact List.mem_append_right _ ht
      | _ => trivial
  | invalidate generation pc =>
      cases pc with
      | notifying => exact List.mem_append_right _ ht
      | ended invalidated =>
          cases invalidated with
          | true => exact List.mem_append_right _ ht
          | false => trivial
      | _ => trivial
  | attempt attempt fallback pc => exact Underway.append ht

namespace Recorded

theorem init : Recorded setup .default [] where
  numbered := trivial
  generation := rfl
  nextAttempt := rfl
  cached _ hcached := by cases hcached
  active _ hactive := by cases hactive
  completed _ _ hcompleted := by cases hcompleted
  returns newer older i lease hsplit := by simp at hsplit

/-- The cached token justifies its lease. -/
theorem justified (hrecorded : Recorded setup s h) (hcached : s.cached = some cached)
    (hlease : tokenLease setup cached = .ok lease) : Justified setup h lease := by
  have hgeneration : lease.generation = cached.generation := leaseOf_generation hlease
  refine ⟨cached.token, ?_, ?_⟩
  · rw [hgeneration]
    exact (hrecorded.cached cached hcached).2
  · rw [hgeneration]
    exact hlease

theorem returned (hrecorded : Recorded setup s h) (hlease : Justified setup h lease) (i : Nat) :
    Recorded setup s (.returned i lease :: h) where
  numbered := hrecorded.numbered
  generation := hrecorded.generation
  nextAttempt := hrecorded.nextAttempt
  cached c hcached := by
    obtain ⟨hsame, hheld⟩ := hrecorded.cached c hcached
    exact ⟨hsame, hheld.cons (by simp)⟩
  active := hrecorded.active
  completed := hrecorded.completed
  returns := by
    apply hrecorded.returns.cons
    rintro _ _ ⟨⟩
    exact hlease

theorem begun (hrecorded : Recorded setup s h) :
    Recorded setup s.startAttempt
      (.begun ⟨begins h, s.nextAttempt + 1, s.generation⟩ :: h) := by
  have hnext : s.nextAttempt + 1 = UInt64.ofNat (begins h + 1) := by
    rw [hrecorded.nextAttempt]
    exact (UInt64.ofNat_add _ _).symm
  exact {
    numbered := ⟨⟨rfl, hnext, hrecorded.generation⟩, hrecorded.numbered⟩
    generation := hrecorded.generation
    nextAttempt := hnext
    cached := by
      intro c hcached
      obtain ⟨hsame, hheld⟩ := hrecorded.cached c hcached
      exact ⟨hsame, hheld.cons (by simp)⟩
    active := by
      rintro id ⟨⟩
      exact ⟨_, rfl, rfl, rfl⟩
    completed := by
      intro a l hcompleted
      cases hcompleted
    returns := hrecorded.returns.cons (by simp) }

theorem invalidated (hrecorded : Recorded setup s h) (hfew : generations h + 1 < UInt64.size)
    (hinvalidate : s.invalidateIfGeneration generation = some s') :
    Recorded setup s' (.invalidated generation :: h) := by
  rw [TokenState.invalidateIfGeneration] at hinvalidate
  split at hinvalidate
  · cases hinvalidate
  · rename_i hsame
    obtain ⟨c, hcached, rfl⟩ := Option.map_eq_some_iff.mp (not_not.mp hsame)
    cases hinvalidate
    have hgeneration : c.generation.toNat = generations h := by
      rw [(hrecorded.cached c hcached).1]
      exact hrecorded.generation
    exact {
      numbered := ⟨hgeneration, hrecorded.numbered⟩
      generation := by
        change (s.generation + 1).toNat = generations h + 1
        rw [UInt64.toNat_add, hrecorded.generation]
        exact Nat.mod_eq_of_lt hfew
      nextAttempt := hrecorded.nextAttempt
      cached := by
        intro c hcached
        cases hcached
      active := by
        intro id hactive
        cases hactive
      completed := by
        intro a l hcompleted
        cases hcompleted
      returns := hrecorded.returns.cons (by simp) }

/-- An attempt stores its result beside a token of this generation. -/
theorem stored (hrecorded : Recorded setup s h) (id : UInt64) {held : Option CachedToken}
    (hheld : ∀ c, held = some c → c.generation = s.generation ∧ Held h c.token c.generation)
    (hresult : ∀ lease, result = .ok lease → ∃ c, held = some c ∧ tokenLease setup c = .ok lease) :
    Recorded setup (({ s with cached := held } : TokenState).finishAttempt id result) h where
  numbered := hrecorded.numbered
  generation := hrecorded.generation
  nextAttempt := hrecorded.nextAttempt
  cached := hheld
  active := by
    intro other hactive
    rw [TokenState.finishAttempt] at hactive
    simp only at hactive
    split at hactive
    · cases hactive
    · exact hrecorded.active other hactive
  completed := by
    intro a l hcompleted
    cases hcompleted
    exact hresult l rfl
  returns := hrecorded.returns

/-- An attempt whose generation is the current one belongs to the era, and so does its fallback. -/
theorem current (hrecorded : Recorded setup s h) (hunderway : Underway h attempt fallback)
    (hsame : s.generation = attempt.generation) :
    .begun attempt ∈ era h ∧ ∀ retained, fallback = some retained →
      retained.generation = s.generation ∧ Held h retained.token retained.generation := by
  obtain ⟨newer, older, rfl, hfallback⟩ := hunderway
  have hgeneration : attempt.generation.toNat = generations older := hrecorded.numbered.of_append.1.2.2
  have hquiet : generations newer = 0 := by
    have htotal := hrecorded.generation
    rw [generations_append, hsame, hgeneration] at htotal
    change generations older = generations newer + generations older at htotal
    omega
  constructor
  · rw [era_append hquiet]
    exact List.mem_append_right _ (.head _)
  · intro retained hretained
    obtain ⟨heq, hheld⟩ := hfallback retained hretained
    have hbegun : Held (.begun attempt :: older) retained.token retained.generation := hheld.cons (by simp)
    exact ⟨heq.trans hsame.symm, hbegun.append hquiet⟩

/-- A current attempt stores the token that it has obtained. -/
theorem obtained (hrecorded : Recorded setup s h) (hunderway : Underway h attempt fallback)
    (hcurrent : s.IsCurrent attempt.id attempt.generation) (hfew : generations h + 1 < UInt64.size)
    (token : ExchangedToken) :
    Recorded setup
      (({ s with generation := s.generation + 1, cached := some (s.obtain setup token) } : TokenState).finishAttempt
        attempt.id (tokenLease setup (s.obtain setup token)))
      (.obtained attempt.serial (s.obtain setup token) :: h) := by
  have hnext : (s.generation + 1).toNat = generations h + 1 := by
    rw [UInt64.toNat_add, hrecorded.generation]
    exact Nat.mod_eq_of_lt hfew
  exact {
    numbered := ⟨hnext, hrecorded.numbered⟩
    generation := hnext
    nextAttempt := hrecorded.nextAttempt
    cached := by
      rintro c ⟨⟩
      have hbegun := (hrecorded.current hunderway hcurrent.1).1
      exact ⟨rfl, attempt, _, .tail _ hbegun, .head _, rfl, rfl⟩
    active := by
      intro id hactive
      rw [TokenState.finishAttempt, if_pos hcurrent.2] at hactive
      cases hactive
    completed := by
      intro a l hcompleted
      have hlease : tokenLease setup (s.obtain setup token) = .ok l :=
        congrArg Prod.snd (Option.some.inj hcompleted)
      exact ⟨_, rfl, hlease⟩
    returns := hrecorded.returns.cons (by simp) }

end Recorded

section Completion

variable {m : Manager}

/-- An attempt that leaves the generation as it is. -/
theorem complete_same
    (houtcome : m.state.outcome setup attempt.id attempt.generation fallback exchanged now later = (s', result))
    (hsame : s'.generation = m.state.generation) :
    complete setup m attempt fallback exchanged now later =
      (m.store (s'.finishAttempt attempt.id result)).unlock := by
  have hnone : (s'.finishAttempt attempt.id result).cached.filter
      (fun _ => (s'.finishAttempt attempt.id result).generation ≠ m.state.generation) = none := by
    rw [Option.filter_eq_none_iff]
    intro c _
    have hgeneration : (s'.finishAttempt attempt.id result).generation = m.state.generation := hsame
    simp [hgeneration]
  simp only [complete, TokenState.completeAttempt, houtcome, hnone]

/-- An attempt that takes a generation has obtained a token. -/
theorem complete_obtained
    (houtcome : m.state.outcome setup attempt.id attempt.generation fallback exchanged now later = (s', result))
    (hnew : s'.generation ≠ m.state.generation) (hcached : s'.cached = some cached) :
    complete setup m attempt fallback exchanged now later =
      ((m.store (s'.finishAttempt attempt.id result)).unlock).observe (.obtained attempt.serial cached) := by
  have hkept : (s'.finishAttempt attempt.id result).cached = some cached := hcached
  have hsome : (s'.finishAttempt attempt.id result).cached.filter
      (fun _ => (s'.finishAttempt attempt.id result).generation ≠ m.state.generation) = some cached := by
    rw [hkept, Option.filter_some]
    exact if_pos (decide_eq_true hnew)
  simp only [complete, TokenState.completeAttempt, houtcome, hsome]

/-- The critical section of an attempt keeps the records. -/
theorem complete_recorded (hrecorded : Recorded setup m.state m.history)
    (hunderway : Underway m.history attempt fallback)
    (hfew : generations (complete setup m attempt fallback exchanged now later).history < UInt64.size) :
    Recorded setup (complete setup m attempt fallback exchanged now later).state
      (complete setup m attempt fallback exchanged now later).history := by
  by_cases hcurrent : m.state.IsCurrent attempt.id attempt.generation
  · have houtcome : m.state.outcome setup attempt.id attempt.generation fallback exchanged now later =
        m.state.settle setup fallback exchanged now later := if_pos hcurrent
    have hsettles : Settles setup m.state fallback (m.state.settle setup fallback exchanged now later).1
        (m.state.settle setup fallback exchanged now later).2 := settle_settles
    generalize m.state.settle setup fallback exchanged now later = settled at houtcome hsettles
    obtain ⟨s', result⟩ := settled
    cases hsettles with
    | obtained =>
        have hnew : m.state.generation + 1 ≠ m.state.generation := by simp
        rw [complete_obtained houtcome hnew rfl] at hfew
        rw [complete_obtained houtcome hnew rfl]
        exact hrecorded.obtained hunderway hcurrent hfew _
    | expired =>
        rw [complete_same houtcome rfl]
        exact hrecorded.stored _ (by simp) (by simp)
    | retained hretained =>
        rw [complete_same houtcome rfl]
        refine hrecorded.stored _ ?_ fun lease hlease => ⟨_, rfl, hlease⟩
        rintro c ⟨⟩
        exact (hrecorded.current hunderway hcurrent.1).2 _ hretained
    | failed =>
        rw [complete_same houtcome rfl]
        exact hrecorded.stored _ hrecorded.cached (by simp)
  · have houtcome : m.state.outcome setup attempt.id attempt.generation fallback exchanged now later =
        (m.state, .error .invalidated) := if_neg hcurrent
    rw [complete_same houtcome rfl]
    exact hrecorded.stored _ hrecorded.cached (by simp)

end Completion

end Records

section Runs

variable {setup : Setup} {m m' : Manager} {i : Nat} {t t' : Task} {started : List Task}
  {choice : Choice} {cfg : Config Manager Task} {lease : TokenLease}

theorem Finds.justified {pc : LeasePc} (hfinds : Finds setup m pc (.ok lease))
    (hrecorded : Recorded setup m.state m.history) : Justified setup m.history lease := by
  generalize hresult : Except.ok lease = result at hfinds
  cases hfinds with
  | cached hcached _ => exact hrecorded.justified hcached hresult.symm
  | completed hcompleted _ =>
      subst hresult
      obtain ⟨cached, hcached, hlease⟩ := hrecorded.completed _ _ hcompleted
      exact hrecorded.justified hcached hlease

/-- The history only grows. -/
theorem conclude_history (m : Manager) (i : Nat) (result : Except X509Error TokenLease) :
    ∃ newer, (conclude m i result).1.history = newer ++ m.history ∧ begins newer = 0 := by
  cases result with
  | ok lease => exact ⟨[_], rfl, rfl⟩
  | error error => exact ⟨[], rfl, rfl⟩

theorem complete_history (m : Manager) (attempt : Attempt) (fallback : Option Fallback)
    (exchanged : Except X509Error ExchangedToken) (now later : Nat) :
    ∃ newer, (complete setup m attempt fallback exchanged now later).history = newer ++ m.history ∧
      begins newer = 0 := by
  simp only [complete]
  split
  · exact ⟨[_], rfl, rfl⟩
  · exact ⟨[], rfl, rfl⟩

theorem Step.history (hstep : Step setup m i t m' t' started) : ∃ newer, m'.history = newer ++ m.history := by
  cases hstep with
  | conclude _ =>
      obtain ⟨newer, hnewer, -⟩ := conclude_history m i _
      exact ⟨newer, hnewer⟩
  | «begin» _ _ => exact ⟨[_], rfl⟩
  | invalidate _ => exact ⟨[_], rfl⟩
  | complete =>
      obtain ⟨newer, hnewer, -⟩ := complete_history m _ _ _ _ _
      exact ⟨newer, hnewer⟩
  | _ => exact ⟨[], rfl⟩

/-- A step keeps the records, and those of its task. -/
theorem Step.recorded (hstep : Step setup m i t m' t' started)
    (hfew : generations m'.history < UInt64.size) (hm : Recorded setup m.state m.history)
    (ht : t.Recorded m.history i) :
    Recorded setup m'.state m'.history ∧ t'.Recorded m'.history i ∧
      ∀ u ∈ started, ∀ j, u.Recorded m'.history j := by
  cases hstep with
  | silent hsilent =>
      refine ⟨hm, ?_, by simp⟩
      cases hsilent with
      | exchanged => exact ht
      | _ => trivial
  | enter henters _ =>
      refine ⟨hm, ?_, by simp⟩
      cases henters with
      | store => exact ht
      | _ => trivial
  | queue hqueues =>
      cases hqueues with
      | invalidate => exact ⟨hm, ht, by simp⟩
      | attempt => exact ⟨hm, ht, by simp⟩
      | _ => exact ⟨hm, trivial, by simp⟩
  | leave hleaves =>
      refine ⟨hm, ?_, by simp⟩
      cases hleaves <;> trivial
  | spawn =>
      refine ⟨hm, trivial, fun u hu j => ?_⟩
      rw [List.mem_singleton.mp hu]
      exact ht
  | @conclude pc result hfinds =>
      cases result with
      | error error => exact ⟨hm, trivial, by simp⟩
      | ok lease => exact ⟨hm.returned (hfinds.justified hm) i, .head _, by simp⟩
  | «begin» _ _ =>
      refine ⟨hm.begun, ⟨[], m.history, rfl, ?_⟩, by simp⟩
      -- The fallback is the cached token, which is held.
      intro retained hretained
      obtain ⟨cached, hcached, hvalid⟩ := Option.bind_eq_some_iff.mp hretained
      split at hvalid
      · cases hvalid
        exact hm.cached cached hcached
      · cases hvalid
  | invalidate hinvalidate => exact ⟨hm.invalidated hfew hinvalidate, .head _, by simp⟩
  | complete =>
      refine ⟨complete_recorded hm ht hfew, ?_, by simp⟩
      obtain ⟨newer, hnewer, -⟩ := complete_history m _ _ _ _ _
      rw [hnewer]
      exact Underway.append ht

theorem env_quiet {arrival : Arrival} (h : (system setup).env m arrival = some (m', started)) :
    m' = m ∧ started = [arrival.task] := by
  cases h
  exact ⟨rfl, rfl⟩

theorem exec_history (cfg : Config Manager Task) (event : Event Choice Arrival) :
    ∃ newer, ((system setup).exec cfg event).shared.history = newer ++ cfg.shared.history := by
  have hmoves := (system setup).exec_moves cfg event
  generalize (system setup).exec cfg event = cfg' at hmoves
  cases hmoves with
  | still => exact ⟨[], rfl⟩
  | act _ hact => exact (act_step hact).history
  | env henv =>
      obtain ⟨rfl, -⟩ := env_quiet henv
      exact ⟨[], rfl⟩

theorem generations_mono (cfg : Config Manager Task) (event : Event Choice Arrival) :
    generations cfg.shared.history ≤ generations ((system setup).exec cfg event).shared.history := by
  obtain ⟨newer, hhistory⟩ : ∃ newer, ((system setup).exec cfg event).shared.history = newer ++ cfg.shared.history :=
    exec_history cfg event
  rw [hhistory, generations_append]
  exact Nat.le_add_left _ _

/-- The generation does not wrap around in the step. -/
def Few (setup : Setup) (cfg : Config Manager Task) (event : Event Choice Arrival) : Prop :=
  generations ((system setup).exec cfg event).shared.history < UInt64.size

/-- The records, as facts about the shared state and about each task. -/
abbrev RecordedRun (setup : Setup) : Config Manager Task → Prop :=
  System.Holds (fun m => Recorded setup m.state m.history) fun m i t => t.Recorded m.history i

theorem recorded_stable : System.Stable (system setup) (Few setup) (fun _ => True)
    (fun m => Recorded setup m.state m.history) fun m i t => t.Recorded m.history i where
  act := by
    intro cfg i choice t m' t' started _ hfew htask hact hm ht
    rw [Few, (system setup).exec_act htask hact] at hfew
    exact (act_step hact).recorded hfew hm ht
  other := by
    intro cfg i choice t m' t' started j u _ _ _ hact _ _ _ _ hu
    obtain ⟨newer, hhistory⟩ := (act_step hact).history
    rw [hhistory]
    exact hu.append
  env := by
    intro cfg arrival m' started _ _ henv hm
    obtain ⟨rfl, rfl⟩ := env_quiet henv
    refine ⟨hm, fun _ _ _ hu => hu, fun u hu _ => ?_⟩
    rw [List.mem_singleton.mp hu]
    cases arrival <;> trivial

theorem recorded_run {events : List (Event Choice Arrival)}
    (hfew : generations ((system setup).run Start events).shared.history < UInt64.size) :
    RecordedRun setup ((system setup).run Start events) := by
  have hmeets : (system setup).Meets (Few setup) Start events :=
    (system setup).meets_of_run_lt (f := fun cfg => generations cfg.shared.history) generations_mono hfew
  apply recorded_stable.preserved_self.run _ hmeets
  constructor
  · exact Recorded.init
  · intro i t htask
    cases htask

end Runs

section Flight

variable {setup : Setup} {m m' : Manager} {i j : Nat} {t t' u : Task} {started : List Task}
  {attempt other : Attempt} {n : Nat}

/-- The attempt of a task that has not completed it yet. -/
def Task.underway : Task → Option Attempt
  | .lease (.spawning begun _) => some begun
  | .attempt begun _ .exchanging => some begun
  | .attempt begun _ (.completing _) => some begun
  | .attempt begun _ (.storing _) => some begun
  | _ => none

/-- Whether the task is about the attempt with this serial number. -/
def weight (n : Nat) (t : Task) : Nat := if t.underway.map Attempt.serial = some n then 1 else 0

/-- Whether the attempt with this serial number can still begin. -/
def permits (n : Nat) (m : Manager) : Nat := if begins m.history ≤ n then 1 else 0

theorem permits_eq {newer : List Observation} (hhistory : m'.history = newer ++ m.history)
    (hbegins : begins newer = 0) : permits n m' = permits n m := by
  rw [permits, permits, hhistory, begins_append, hbegins, Nat.zero_add]

/-- A step of a task neither copies its attempt nor starts one that has begun. -/
theorem Step.conserves (hstep : Step setup m i t m' t' started) :
    permits n m' + weight n t' + System.total (weight n) started ≤ permits n m + weight n t := by
  cases hstep with
  | silent hsilent =>
      cases hsilent with
      | exchanged => exact Nat.le_refl _
      | _ => exact Nat.le_refl _
  | enter henters _ =>
      cases henters with
      | store => exact Nat.le_refl _
      | _ => exact Nat.le_refl _
  | queue hqueues => cases hqueues <;> exact Nat.le_refl _
  | leave hleaves => cases hleaves <;> exact Nat.le_refl _
  | @spawn attempt fallback =>
      change permits n m + 0 + (weight n (.lease (.spawning attempt fallback)) + 0) ≤ _
      omega
  | @conclude pc result _ =>
      obtain ⟨newer, hnewer, hbegins⟩ := conclude_history m i result
      rw [permits_eq hnewer hbegins]
      have hnone : weight n (.lease (X509.conclude m i result).2) = 0 := by
        cases result <;> rfl
      rw [hnone]
      exact Nat.le_add_right _ _
  | «begin» _ _ =>
      have hpermits : permits n (((m.store m.state.startAttempt).observe (.begun m.nextAttempt)).unlock) =
          if begins m.history + 1 ≤ n then 1 else 0 := rfl
      have hweight : ∀ fallback, weight n (.lease (.spawning m.nextAttempt fallback)) =
          if some (begins m.history) = some n then 1 else 0 := fun _ => rfl
      rw [hpermits, hweight, permits]
      change _ + 0 ≤ _ + 0
      simp only [Option.some.injEq]
      split <;> split <;> split <;> omega
  | invalidate _ => exact Nat.le_refl _
  | complete =>
      obtain ⟨newer, hnewer, hbegins⟩ := complete_history m _ _ _ _ _
      rw [permits_eq hnewer hbegins]
      exact Nat.le_add_right _ _

/-- Every attempt is carried by one task at most. -/
theorem single_run (setup : Setup) (n : Nat) (events : List (Event Choice Arrival)) :
    permits n ((system setup).run Start events).shared +
      System.total (weight n) ((system setup).run Start events).tasks ≤ 1 := by
  have hpreserved : (system setup).Preserved (fun _ _ => True) fun cfg =>
      True ∧ permits n cfg.shared + System.total (weight n) cfg.tasks ≤ 1 := by
    apply System.preserved_total_le (fun _ _ _ _ => trivial)
    · intro cfg i choice t m' t' started _ _ hact _
      exact (act_step hact).conserves
    · intro cfg arrival m' started _ henv
      obtain ⟨rfl, rfl⟩ := env_quiet henv
      cases arrival <;> exact Nat.le_refl _
  have hstart : permits n Manager.init + System.total (weight n) ([] : List Task) ≤ 1 := by
    have hpermits : permits n Manager.init = 1 := if_pos (Nat.zero_le n)
    rw [hpermits]
    exact Nat.le_refl _
  exact (hpreserved.run_free ⟨trivial, hstart⟩ events).2

theorem unique_of_serial {events : List (Event Choice Arrival)}
    (ht : ((system setup).run Start events).tasks[i]? = some t)
    (hu : ((system setup).run Start events).tasks[j]? = some u) (hattempt : t.underway = some attempt)
    (hother : u.underway = some other) (hserial : attempt.serial = other.serial) : i = j := by
  by_contra hne
  have hone : ∀ {v : Task} {a : Attempt}, v.underway = some a → a.serial = other.serial →
      weight other.serial v = 1 := by
    intro v a hv ha
    rw [weight, hv, Option.map_some, ha, if_pos rfl]
  have htotal := System.weight_add_le_total (weight other.serial) hne ht hu
  rw [hone hattempt hserial, hone hother rfl] at htotal
  have hrun := single_run setup other.serial events
  omega

theorem Task.Recorded.begun {h : List Observation} (ht : t.Recorded h i)
    (hattempt : t.underway = some attempt) : .begun attempt ∈ h := by
  have hbegun : ∀ {fallback}, Underway h attempt fallback → .begun attempt ∈ h := by
    rintro fallback ⟨newer, older, rfl, -⟩
    exact List.mem_append_right _ (.head _)
  cases t with
  | lease pc =>
      cases pc with
      | spawning => cases hattempt; exact hbegun ht
      | _ => cases hattempt
  | invalidate generation pc => cases hattempt
  | attempt begun fallback pc =>
      cases pc with
      | notifying => cases hattempt
      | ended => cases hattempt
      | _ => cases hattempt; exact hbegun ht

/-- As long as the numbers of attempts do not repeat, at most one attempt that is under way is current. -/
theorem unique_current {events : List (Event Choice Arrival)}
    (hrecorded : RecordedRun setup ((system setup).run Start events))
    (hfew : begins ((system setup).run Start events).shared.history < UInt64.size)
    (ht : ((system setup).run Start events).tasks[i]? = some t)
    (hu : ((system setup).run Start events).tasks[j]? = some u) (hattempt : t.underway = some attempt)
    (hother : u.underway = some other)
    (hcurrent : ((system setup).run Start events).shared.state.IsCurrent attempt.id attempt.generation)
    (hcurrent' : ((system setup).run Start events).shared.state.IsCurrent other.id other.generation) :
    i = j := by
  apply unique_of_serial ht hu hattempt hother
  have hnumbered := hrecorded.shared.numbered
  have hbegun := (hrecorded.tasks i t ht).begun hattempt
  have hbegun' := (hrecorded.tasks j u hu).begun hother
  have hid : UInt64.ofNat (attempt.serial + 1) = UInt64.ofNat (other.serial + 1) := by
    rw [← hnumbered.id_eq hbegun, ← hnumbered.id_eq hbegun']
    exact Option.some.inj (hcurrent.2.symm.trans hcurrent'.2)
  have hlt := hnumbered.serial_lt hbegun
  have hlt' := hnumbered.serial_lt hbegun'
  have hnat := congrArg UInt64.toNat hid
  rw [UInt64.toNat_ofNat_of_lt' (by omega), UInt64.toNat_ofNat_of_lt' (by omega)] at hnat
  omega

end Flight

section Finality

variable {setup : Setup} {s : TokenState} {h newer older : List Observation} {g : UInt64} {i : Nat}
  {lease : TokenLease}

/-- The lease was obtained after the invalidation, by an attempt that began after it. -/
structure Renewed (setup : Setup) (newer : List Observation) (g : UInt64) (older : List Observation)
    (lease : TokenLease) : Prop where
  fresh : ∃ attempt token, .begun attempt ∈ newer ∧ .obtained attempt.serial token ∈ newer ∧
    tokenLease setup token = .ok lease
  other : lease.generation ≠ g
  older : ∀ attempt token, .begun attempt ∈ older →
    .obtained attempt.serial token ∈ newer ++ .invalidated g :: older → token.generation ≠ lease.generation

/-- A lease that is returned after an invalidation comes from an attempt that began after it. -/
theorem Recorded.renewed (hrecorded : Recorded setup s h) (hsplit : h = newer ++ .invalidated g :: older)
    (hmem : .returned i lease ∈ newer) : Renewed setup newer g older lease := by
  obtain ⟨after, before, rfl⟩ := List.append_of_mem hmem
  have hcut : h = after ++ .returned i lease :: (before ++ .invalidated g :: older) := by simp [hsplit]
  obtain ⟨secret, ⟨attempt, token, hbegun, hobtained, rfl, hgeneration⟩, hlease⟩ :=
    hrecorded.returns _ _ i lease hcut
  have hin : ∀ {o}, o ∈ era (before ++ .invalidated g :: older) →
      o ∈ after ++ .returned i lease :: before :=
    fun hmem => List.mem_append_right _ (.tail _ (mem_of_era_append hmem))
  have hnumbered : Numbered ((after ++ .returned i lease :: before) ++ .invalidated g :: older) :=
    hsplit ▸ hrecorded.numbered
  constructor
  · refine ⟨attempt, token, hin hbegun, hin hobtained, ?_⟩
    rw [← hgeneration] at hlease
    exact hlease
  · -- The generation that was invalidated is that of the state, and later tokens have larger ones.
    have hlt := hnumbered.lt_generation (hin hobtained)
    have hg : g.toNat = generations older := hnumbered.of_append.1
    intro heq
    rw [hgeneration, heq, hg, generations] at hlt
    exact absurd hlt (Nat.not_succ_lt_self)
  · intro old token' hold hobtained' hsame
    have hserial := (hnumbered.eq_of_generation hobtained' (List.mem_append_left _ (hin hobtained))
      (hsame.trans hgeneration.symm)).1
    have hlt : old.serial < begins older := hnumbered.of_append.2.serial_lt hold
    have hle : begins older ≤ attempt.serial := hnumbered.le_serial (hin hbegun)
    omega

/-- What holds in every state about invalidations. -/
structure FinalInvalidation (setup : Setup) (cfg : Config Manager Task) : Prop where
  /-- Leases that are returned after an invalidation were obtained after it. -/
  final : ∀ newer g older i lease, cfg.shared.history = newer ++ .invalidated g :: older →
    .returned i lease ∈ newer → Renewed setup newer g older lease
  answered : ∀ (i : Nat) lease, cfg.tasks[i]? = some (.lease (.returned lease)) →
    .returned i lease ∈ cfg.shared.history
  invalidated : ∀ (i : Nat) g, cfg.tasks[i]? = some (.invalidate g (.ended true)) →
    .invalidated g ∈ cfg.shared.history
  cached : ∀ cached, cfg.shared.state.cached = some cached → cached.generation = cfg.shared.state.generation
  completed : ∀ attempt lease, cfg.shared.state.completedAttempt = some (attempt, .ok lease) →
    ∃ cached, cfg.shared.state.cached = some cached ∧ tokenLease setup cached = .ok lease
  /-- The attempt in the slot is the latest one, and began after the last invalidation. -/
  active : ∀ id, cfg.shared.state.activeAttempt = some id →
    ∃ attempt, latest (era cfg.shared.history) = some attempt ∧ attempt.id = id ∧
      attempt.generation = cfg.shared.state.generation
  /-- At most one attempt that is under way is current, unless their numbers repeat. -/
  single : begins cfg.shared.history < UInt64.size →
    ∀ (i j : Nat) (t u : Task) (attempt other : Attempt), cfg.tasks[i]? = some t → cfg.tasks[j]? = some u →
    t.underway = some attempt → u.underway = some other →
    cfg.shared.state.IsCurrent attempt.id attempt.generation →
    cfg.shared.state.IsCurrent other.id other.generation → i = j

/-- Over every interleaving with fewer than 2^64 generations, invalidated tokens never come back. -/
theorem invalidated_tokens_never_return (setup : Setup) (events : List (Event Choice Arrival))
    (hfew : generations ((system setup).run Start events).shared.history < UInt64.size) :
    FinalInvalidation setup ((system setup).run Start events) := by
  have hrun := recorded_run hfew
  exact {
    final := fun newer g older i lease hsplit hmem => hrun.shared.renewed hsplit hmem
    answered := fun i lease htask => hrun.tasks i _ htask
    invalidated := fun i g htask => hrun.tasks i _ htask
    cached := fun cached hcached => (hrun.shared.cached cached hcached).1
    completed := hrun.shared.completed
    active := hrun.shared.active
    single := fun hbegins i j t u attempt other ht hu hattempt hother =>
      unique_current hrun hbegins ht hu hattempt hother }

/-- A call that finds nothing fresh at `now` starts an attempt and waits for it. -/
def waiting (call now : Nat) : List (Event Choice Arrival) :=
  [.act call .proceed, .act call (.clock now now), .act call .proceed, .act call .proceed,
    .act call .proceed, .act call .proceed]

/-- The attempt ends at `now`. -/
def answering (task now : Nat) (answer : Except X509Error ExchangedToken) : List (Event Choice Arrival) :=
  [.act task (.exchanged answer), .act task .proceed, .act task (.clock now now), .act task .proceed]

/-- The call has been woken and looks at the result. -/
def checking (call : Nat) : List (Event Choice Arrival) :=
  [.act call .proceed, .act call .proceed, .act call .proceed, .act call .proceed]

/-- The first token is invalidated while its refresh is under way, which fails only then and would
have kept the token; the call that waits for the refresh goes on to a third attempt. -/
def fallbackRun : List (Event Choice Arrival) :=
  .env .lease :: waiting 0 0 ++ answering 1 0 (.ok ⟨"first", 100, 0⟩) ++ checking 0 ++
    .env .lease :: waiting 2 95 ++
    [.env (.invalidate 1), .act 4 .proceed, .act 4 .proceed, .act 4 .proceed] ++
    answering 3 96 (.error .exchangeTimeout) ++ checking 2 ++ waiting 2 97 ++
    answering 5 98 (.ok ⟨"second", 100, 97⟩) ++ checking 2

theorem invalidated_tokens_never_return_fallback :
    (((system ⟨some, (· / 2), 10⟩).run Start fallbackRun).shared.state.cached =
        some ⟨"second", 3, 197, 187⟩ ∧
      begins ((system ⟨some, (· / 2), 10⟩).run Start fallbackRun).shared.history = 3 ∧
      generations ((system ⟨some, (· / 2), 10⟩).run Start fallbackRun).shared.history = 3) ∧
    FinalInvalidation ⟨some, (· / 2), 10⟩ ((system ⟨some, (· / 2), 10⟩).run Start fallbackRun) := by
  constructor
  · decide
  · exact invalidated_tokens_never_return _ fallbackRun (by decide)

end Finality

end OpenaiRs.X509
