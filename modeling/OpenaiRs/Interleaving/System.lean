import Mathlib.Tactic.Common

/-!
# Interleaved tasks

Tasks that take atomic steps on a shared state, in any order. A configuration is the shared
state and the list of all tasks that were ever started; a task is named by its position. An
event lets one task take a step, with a choice for what the step leaves open, or lets the
environment act. Events that are not enabled leave the configuration as it is, so every list
of events is a run.

Invariants are stated locally: a fact about the shared state, and for every task a fact that
relates it to the shared state. A step of one task has to keep its own fact and must not
interfere with the facts of the others.
-/

namespace OpenaiRs.Interleaving

/-- What tasks and the environment do; `none` means that the step is not enabled. -/
structure System (σ τ χ ε : Type) where
  act : σ → Nat → τ → χ → Option (σ × τ × List τ)
  env : σ → ε → Option (σ × List τ)

structure Config (σ τ : Type) where
  shared : σ
  tasks : List τ

inductive Event (χ ε : Type) where
  | act (task : Nat) (choice : χ)
  | env (event : ε)

namespace System

variable {σ τ χ ε : Type} (sys : System σ τ χ ε)

section Runs

/-- One event. Started tasks are appended, so that positions stay valid. -/
def exec (cfg : Config σ τ) : Event χ ε → Config σ τ
  | .act i choice =>
      match cfg.tasks[i]? with
      | none => cfg
      | some t =>
          match sys.act cfg.shared i t choice with
          | none => cfg
          | some (shared, t', started) => ⟨shared, cfg.tasks.set i t' ++ started⟩
  | .env event =>
      match sys.env cfg.shared event with
      | none => cfg
      | some (shared, started) => ⟨shared, cfg.tasks ++ started⟩

def run (cfg : Config σ τ) (events : List (Event χ ε)) : Config σ τ := events.foldl sys.exec cfg

/-- Every step of a run meets a condition on the configuration before it. -/
def Meets (P : Config σ τ → Event χ ε → Prop) (cfg : Config σ τ) : List (Event χ ε) → Prop
  | [] => True
  | event :: rest => P cfg event ∧ Meets P (sys.exec cfg event) rest

instance decidableMeets (P : Config σ τ → Event χ ε → Prop) [∀ cfg event, Decidable (P cfg event)] :
    ∀ cfg events, Decidable (sys.Meets P cfg events)
  | _, [] => isTrue trivial
  | cfg, event :: rest =>
      have := decidableMeets P (sys.exec cfg event) rest
      inferInstanceAs (Decidable (P cfg event ∧ sys.Meets P (sys.exec cfg event) rest))

theorem exec_act {cfg : Config σ τ} {i : Nat} {choice : χ} {t t' : τ} {shared : σ} {started : List τ}
    (htask : cfg.tasks[i]? = some t) (hact : sys.act cfg.shared i t choice = some (shared, t', started)) :
    sys.exec cfg (.act i choice) = ⟨shared, cfg.tasks.set i t' ++ started⟩ := by
  simp only [exec, htask, hact]

/-- What one event can do. -/
inductive Moves (cfg : Config σ τ) : Event χ ε → Config σ τ → Prop
  | still (event : Event χ ε) : Moves cfg event cfg
  | act {i : Nat} {choice : χ} {t t' : τ} {shared : σ} {started : List τ} :
      cfg.tasks[i]? = some t → sys.act cfg.shared i t choice = some (shared, t', started) →
      Moves cfg (.act i choice) ⟨shared, cfg.tasks.set i t' ++ started⟩
  | env {event : ε} {shared : σ} {started : List τ} :
      sys.env cfg.shared event = some (shared, started) →
      Moves cfg (.env event) ⟨shared, cfg.tasks ++ started⟩

theorem exec_moves (cfg : Config σ τ) (event : Event χ ε) : sys.Moves cfg event (sys.exec cfg event) := by
  cases event with
  | act i choice =>
      rw [exec]
      split
      · exact .still _
      · rename_i t htask
        split
        · exact .still _
        · rename_i shared t' started hact
          exact .act htask hact
  | env event =>
      rw [exec]
      split
      · exact .still _
      · rename_i shared started henv
        exact .env henv

theorem getElem?_append_of_eq_some {tasks started : List τ} {i : Nat} {t : τ} (h : tasks[i]? = some t) :
    (tasks ++ started)[i]? = some t := by
  rw [List.getElem?_append_left (List.getElem?_eq_some_iff.mp h).1]
  exact h

/-- A step of one task leaves the others as they are. -/
theorem getElem?_set_append_ne {tasks started : List τ} {i k : Nat} {t u : τ} (hne : k ≠ i)
    (h : tasks[i]? = some t) : (tasks.set k u ++ started)[i]? = some t := by
  apply getElem?_append_of_eq_some
  rw [List.getElem?_set_ne hne]
  exact h

/-- What one event can do, seen from one task. -/
inductive MovesTask (cfg : Config σ τ) (i : Nat) (t : τ) : Event χ ε → Config σ τ → Prop
  | still (event : Event χ ε) : MovesTask cfg i t event cfg
  | own {choice : χ} {t' : τ} {shared : σ} {started : List τ} :
      sys.act cfg.shared i t choice = some (shared, t', started) →
      (cfg.tasks.set i t' ++ started)[i]? = some t' →
      MovesTask cfg i t (.act i choice) ⟨shared, cfg.tasks.set i t' ++ started⟩
  | other {k : Nat} {choice : χ} {u u' : τ} {shared : σ} {started : List τ} :
      k ≠ i → cfg.tasks[k]? = some u → sys.act cfg.shared k u choice = some (shared, u', started) →
      MovesTask cfg i t (.act k choice) ⟨shared, cfg.tasks.set k u' ++ started⟩
  | env {event : ε} {shared : σ} {started : List τ} :
      sys.env cfg.shared event = some (shared, started) →
      MovesTask cfg i t (.env event) ⟨shared, cfg.tasks ++ started⟩

theorem exec_movesTask {cfg : Config σ τ} {i : Nat} {t : τ} (htask : cfg.tasks[i]? = some t)
    (event : Event χ ε) : sys.MovesTask cfg i t event (sys.exec cfg event) := by
  have hmoves := sys.exec_moves cfg event
  generalize sys.exec cfg event = cfg' at hmoves
  cases hmoves with
  | still => exact .still _
  | @act k choice u u' shared started hacting hact =>
      by_cases heq : k = i
      · subst heq
        obtain rfl : u = t := Option.some.inj (hacting.symm.trans htask)
        apply MovesTask.own hact
        apply getElem?_append_of_eq_some
        exact List.getElem?_set_self (List.getElem?_eq_some_iff.mp htask).1
      · exact .other heq hacting hact
  | env henv => exact .env henv

/-- A condition that the events meet in every configuration. -/
theorem meets_of_forall {P : Config σ τ → Event χ ε → Prop} {events : List (Event χ ε)}
    (h : ∀ event ∈ events, ∀ cfg, P cfg event) (cfg : Config σ τ) : sys.Meets P cfg events := by
  induction events generalizing cfg with
  | nil => trivial
  | cons event rest ih =>
      constructor
      · exact h event (.head _) cfg
      · exact ih (fun e hmem => h e (.tail _ hmem)) _

theorem meets_append {P : Config σ τ → Event χ ε → Prop} {cfg : Config σ τ}
    {events more : List (Event χ ε)} :
    sys.Meets P cfg (events ++ more) ↔ sys.Meets P cfg events ∧ sys.Meets P (sys.run cfg events) more := by
  induction events generalizing cfg with
  | nil => exact (and_iff_right trivial).symm
  | cons event rest ih =>
      rw [List.cons_append, Meets, Meets, ih, and_assoc]
      rfl

theorem run_append (cfg : Config σ τ) (events more : List (Event χ ε)) :
    sys.run cfg (events ++ more) = sys.run (sys.run cfg events) more := List.foldl_append

theorem Meets.imp_and {P Q R : Config σ τ → Event χ ε → Prop} {cfg : Config σ τ}
    {events : List (Event χ ε)} (hP : sys.Meets P cfg events) (hQ : sys.Meets Q cfg events)
    (h : ∀ cfg event, P cfg event → Q cfg event → R cfg event) : sys.Meets R cfg events := by
  induction events generalizing cfg with
  | nil => trivial
  | cons event rest ih => exact ⟨h cfg event hP.1 hQ.1, ih hP.2 hQ.2⟩

theorem meets_true (cfg : Config σ τ) (events : List (Event χ ε)) :
    sys.Meets (fun _ _ => True) cfg events :=
  sys.meets_of_forall (fun _ _ _ => trivial) cfg

theorem le_run {f : Config σ τ → Nat} (hmono : ∀ cfg event, f cfg ≤ f (sys.exec cfg event))
    (cfg : Config σ τ) (events : List (Event χ ε)) : f cfg ≤ f (sys.run cfg events) := by
  induction events generalizing cfg with
  | nil => exact Nat.le_refl _
  | cons event rest ih => exact Nat.le_trans (hmono cfg event) (ih _)

/-- A count that only grows stays below the bound that it meets in the end. -/
theorem meets_of_run_lt {f : Config σ τ → Nat} (hmono : ∀ cfg event, f cfg ≤ f (sys.exec cfg event))
    {bound : Nat} {cfg : Config σ τ} {events : List (Event χ ε)} (h : f (sys.run cfg events) < bound) :
    sys.Meets (fun cfg event => f (sys.exec cfg event) < bound) cfg events := by
  induction events generalizing cfg with
  | nil => trivial
  | cons event rest ih =>
      constructor
      · exact Nat.lt_of_le_of_lt (sys.le_run hmono _ rest) h
      · exact ih h

/-- Some run leads from one configuration to the other. -/
def Reaches (cfg cfg' : Config σ τ) : Prop := ∃ events, sys.run cfg events = cfg'

theorem Reaches.refl (cfg : Config σ τ) : sys.Reaches cfg cfg := ⟨[], rfl⟩

theorem Reaches.trans {sys : System σ τ χ ε} {cfg cfg' cfg'' : Config σ τ} (h : sys.Reaches cfg cfg')
    (h' : sys.Reaches cfg' cfg'') : sys.Reaches cfg cfg'' := by
  obtain ⟨events, rfl⟩ := h
  obtain ⟨more, rfl⟩ := h'
  exact ⟨events ++ more, List.foldl_append⟩

/-- Tasks are never removed. -/
theorem exec_task {cfg : Config σ τ} {i : Nat} {t : τ} (h : cfg.tasks[i]? = some t)
    (event : Event χ ε) : ∃ t', (sys.exec cfg event).tasks[i]? = some t' := by
  have hlt : i < cfg.tasks.length := (List.getElem?_eq_some_iff.mp h).1
  have hgrows : cfg.tasks.length ≤ (sys.exec cfg event).tasks.length := by
    have hmoves := sys.exec_moves cfg event
    generalize sys.exec cfg event = cfg' at hmoves
    cases hmoves with
    | still => exact Nat.le_refl _
    | act _ _ => simp
    | env _ => simp
  exact ⟨_, List.getElem?_eq_getElem (Nat.lt_of_lt_of_le hlt hgrows)⟩

theorem run_task {cfg : Config σ τ} {i : Nat} {t : τ} (h : cfg.tasks[i]? = some t)
    (events : List (Event χ ε)) : ∃ t', (sys.run cfg events).tasks[i]? = some t' := by
  induction events generalizing cfg t with
  | nil => exact ⟨t, h⟩
  | cons event rest ih =>
      obtain ⟨t', h'⟩ := sys.exec_task h event
      exact ih h'

end Runs

section Invariants

variable (P : Config σ τ → Event χ ε → Prop)

/-- An invariant of every step that meets the condition. -/
def Preserved (Inv : Config σ τ → Prop) : Prop :=
  ∀ cfg event, Inv cfg → P cfg event → Inv (sys.exec cfg event)

variable {sys P}

/-- The run lemma. -/
theorem Preserved.run {Inv : Config σ τ → Prop} (h : sys.Preserved P Inv) {cfg : Config σ τ}
    (hinit : Inv cfg) {events : List (Event χ ε)} (hmeets : sys.Meets P cfg events) :
    Inv (sys.run cfg events) := by
  induction events generalizing cfg with
  | nil => exact hinit
  | cons event rest ih => exact ih (h cfg event hinit hmeets.1) hmeets.2

/-- What holds of the steps from every configuration with the invariant holds of the steps of a run. -/
theorem Preserved.meets {Inv : Config σ τ → Prop} {Q : Config σ τ → Event χ ε → Prop} (h : sys.Preserved P Inv)
    {cfg : Config σ τ} (hinit : Inv cfg) (himp : ∀ cfg event, Inv cfg → P cfg event → Q cfg event)
    {events : List (Event χ ε)} (hmeets : sys.Meets P cfg events) : sys.Meets Q cfg events := by
  induction events generalizing cfg with
  | nil => trivial
  | cons event rest ih =>
      exact ⟨himp cfg event hinit hmeets.1, ih (h cfg event hinit hmeets.1) hmeets.2⟩

theorem Preserved.run_free {Inv : Config σ τ → Prop} (h : sys.Preserved (fun _ _ => True) Inv)
    {cfg : Config σ τ} (hinit : Inv cfg) (events : List (Event χ ε)) : Inv (sys.run cfg events) :=
  h.run hinit (sys.meets_true cfg events)

theorem Preserved.mono {Inv : Config σ τ → Prop} (h : sys.Preserved (fun _ _ => True) Inv) :
    sys.Preserved P Inv :=
  fun cfg event hinv _ => h cfg event hinv trivial

/-- A fact about the shared state, and one about every task beside it. -/
structure Holds (Shared : σ → Prop) (Local : σ → Nat → τ → Prop) (cfg : Config σ τ) : Prop where
  shared : Shared cfg.shared
  tasks : ∀ i t, cfg.tasks[i]? = some t → Local cfg.shared i t

/-- Steps keep the facts of the task that acts, and do not interfere with the others. -/
structure Stable (sys : System σ τ χ ε) (P : Config σ τ → Event χ ε → Prop)
    (Base : Config σ τ → Prop) (Shared : σ → Prop) (Local : σ → Nat → τ → Prop) : Prop where
  act : ∀ {cfg : Config σ τ} {i choice t shared t' started}, Base cfg → P cfg (.act i choice) →
    cfg.tasks[i]? = some t → sys.act cfg.shared i t choice = some (shared, t', started) →
    Shared cfg.shared → Local cfg.shared i t →
    Shared shared ∧ Local shared i t' ∧ ∀ u ∈ started, ∀ j, Local shared j u
  other : ∀ {cfg : Config σ τ} {i choice t shared t' started j u}, Base cfg → P cfg (.act i choice) →
    cfg.tasks[i]? = some t → sys.act cfg.shared i t choice = some (shared, t', started) →
    Shared cfg.shared → Local cfg.shared i t → j ≠ i → cfg.tasks[j]? = some u →
    Local cfg.shared j u → Local shared j u
  env : ∀ {cfg : Config σ τ} {event shared started}, Base cfg → P cfg (.env event) →
    sys.env cfg.shared event = some (shared, started) → Shared cfg.shared →
    Shared shared ∧ (∀ j u, cfg.tasks[j]? = some u → Local cfg.shared j u → Local shared j u) ∧
      ∀ u ∈ started, ∀ j, Local shared j u

/-- Where a task of a configuration after a step comes from. -/
theorem getElem?_set_append {tasks started : List τ} {i j : Nat} {t t' u : τ}
    (htask : tasks[i]? = some t) (h : (tasks.set i t' ++ started)[j]? = some u) :
    (j = i ∧ u = t') ∨ (j ≠ i ∧ tasks[j]? = some u) ∨ u ∈ started := by
  rw [List.getElem?_append] at h
  split at h
  · rename_i hlt
    by_cases heq : j = i
    · subst heq
      rw [List.length_set] at hlt
      rw [List.getElem?_set_self hlt] at h
      exact .inl ⟨rfl, (Option.some.inj h).symm⟩
    · rw [List.getElem?_set_ne (Ne.symm heq)] at h
      exact .inr (.inl ⟨heq, h⟩)
  · exact .inr (.inr (List.mem_of_getElem? h))

/-- That some task has a property is kept by a step that keeps it of the task that acts. -/
theorem exists_mem_set_append {tasks started : List τ} {i : Nat} {t t' : τ} {Q : τ → Prop}
    (htask : tasks[i]? = some t) (h : ∃ u ∈ tasks, Q u) (hkeep : Q t → Q t') :
    ∃ u ∈ tasks.set i t' ++ started, Q u := by
  obtain ⟨u, hmem, hu⟩ := h
  obtain ⟨j, hj⟩ := List.mem_iff_getElem?.mp hmem
  by_cases heq : j = i
  · subst heq
    obtain rfl : u = t := Option.some.inj (hj.symm.trans htask)
    refine ⟨t', List.mem_append_left _ ?_, hkeep hu⟩
    exact List.mem_set (List.getElem?_eq_some_iff.mp hj).1 t'
  · refine ⟨u, List.mem_append_left _ ?_, hu⟩
    apply List.mem_of_getElem? (i := j)
    rw [List.getElem?_set_ne (Ne.symm heq)]
    exact hj

/-- Local facts that are stable beside an invariant extend it. -/
theorem Stable.preserved {Base : Config σ τ → Prop} {Shared : σ → Prop}
    {Local : σ → Nat → τ → Prop} (hbase : sys.Preserved P Base)
    (h : Stable sys P Base Shared Local) :
    sys.Preserved P fun cfg => Base cfg ∧ Holds Shared Local cfg := by
  rintro cfg event ⟨hcfg, hshared, htasks⟩ hP
  refine ⟨hbase cfg event hcfg hP, ?_⟩
  have hmoves := sys.exec_moves cfg event
  generalize sys.exec cfg event = cfg' at hmoves
  cases hmoves with
  | still => exact ⟨hshared, htasks⟩
  | act htask hact =>
      obtain ⟨hshared', hown, hstarted⟩ := h.act hcfg hP htask hact hshared (htasks _ _ htask)
      refine ⟨hshared', ?_⟩
      intro j u hu
      obtain ⟨rfl, rfl⟩ | ⟨hne, hother⟩ | hmem := getElem?_set_append htask hu
      · exact hown
      · exact h.other hcfg hP htask hact hshared (htasks _ _ htask) hne hother (htasks _ _ hother)
      · exact hstarted u hmem j
  | env henv =>
      obtain ⟨hshared', hothers, hstarted⟩ := h.env hcfg hP henv hshared
      refine ⟨hshared', ?_⟩
      intro j u hu
      rw [List.getElem?_append] at hu
      split at hu
      · exact hothers j u hu (htasks j u hu)
      · exact hstarted u (List.mem_of_getElem? hu) j

/-- Local facts that are stable on their own are an invariant. -/
theorem Stable.preserved_self {Shared : σ → Prop} {Local : σ → Nat → τ → Prop}
    (h : Stable sys P (fun _ => True) Shared Local) : sys.Preserved P (Holds Shared Local) := by
  intro cfg event hcfg hP
  exact (Stable.preserved (fun _ _ _ _ => trivial) h cfg event ⟨trivial, hcfg⟩ hP).2

end Invariants

section Totals

/-- The sum of a weight over all tasks. -/
def total (weight : τ → Nat) : List τ → Nat
  | [] => 0
  | t :: rest => weight t + total weight rest

theorem total_append (weight : τ → Nat) (tasks started : List τ) :
    total weight (tasks ++ started) = total weight tasks + total weight started := by
  induction tasks with
  | nil => exact (Nat.zero_add _).symm
  | cons t rest ih =>
      calc
        total weight (t :: rest ++ started) = weight t + total weight (rest ++ started) := rfl
        _ = weight t + (total weight rest + total weight started) := by rw [ih]
        _ = total weight (t :: rest) + total weight started := (Nat.add_assoc _ _ _).symm

theorem total_set (weight : τ → Nat) {tasks : List τ} {i : Nat} {t : τ} (htask : tasks[i]? = some t)
    (t' : τ) : total weight (tasks.set i t') + weight t = total weight tasks + weight t' := by
  induction tasks generalizing i with
  | nil => simp at htask
  | cons u rest ih =>
      cases i with
      | zero =>
          simp only [List.getElem?_cons_zero, Option.some.injEq] at htask
          simp only [List.set_cons_zero, total, htask]
          omega
      | succ i =>
          have hrest := ih (by simpa using htask)
          simp only [List.set_cons_succ, total]
          omega

variable {sys} {P : Config σ τ → Event χ ε → Prop}

/-- A quantity that every step moves between the shared state and the tasks is conserved. -/
theorem preserved_total {Base : Config σ τ → Prop} (hbase : sys.Preserved P Base)
    (amount : σ → Nat) (weight : τ → Nat) (sum : Nat)
    (hact : ∀ {cfg : Config σ τ} {i choice t shared t' started}, Base cfg →
      cfg.tasks[i]? = some t → sys.act cfg.shared i t choice = some (shared, t', started) →
      amount shared + weight t' + total weight started = amount cfg.shared + weight t)
    (henv : ∀ {cfg : Config σ τ} {event shared started}, Base cfg →
      sys.env cfg.shared event = some (shared, started) →
      amount shared + total weight started = amount cfg.shared) :
    sys.Preserved P fun cfg => Base cfg ∧ amount cfg.shared + total weight cfg.tasks = sum := by
  rintro cfg event ⟨hcfg, hsum⟩ hP
  refine ⟨hbase cfg event hcfg hP, ?_⟩
  have hmoves := sys.exec_moves cfg event
  generalize sys.exec cfg event = cfg' at hmoves
  cases hmoves with
  | still => exact hsum
  | @act i choice t t' shared started htask hstep =>
      have hset := total_set weight htask t'
      have hamount := hact hcfg htask hstep
      change amount shared + total weight (cfg.tasks.set i t' ++ started) = sum
      rw [total_append]
      omega
  | @env event shared started hstep =>
      have hamount := henv hcfg hstep
      change amount shared + total weight (cfg.tasks ++ started) = sum
      rw [total_append]
      omega

/-- A quantity that steps move and never increase stays within its bound. -/
theorem preserved_total_le {Base : Config σ τ → Prop} (hbase : sys.Preserved P Base)
    (amount : σ → Nat) (weight : τ → Nat) (bound : Nat)
    (hact : ∀ {cfg : Config σ τ} {i choice t shared t' started}, Base cfg →
      cfg.tasks[i]? = some t → sys.act cfg.shared i t choice = some (shared, t', started) →
      P cfg (.act i choice) →
      amount shared + weight t' + total weight started ≤ amount cfg.shared + weight t)
    (henv : ∀ {cfg : Config σ τ} {event shared started}, Base cfg →
      sys.env cfg.shared event = some (shared, started) →
      amount shared + total weight started ≤ amount cfg.shared) :
    sys.Preserved P fun cfg => Base cfg ∧ amount cfg.shared + total weight cfg.tasks ≤ bound := by
  rintro cfg event ⟨hcfg, hsum⟩ hP
  refine ⟨hbase cfg event hcfg hP, ?_⟩
  have hmoves := sys.exec_moves cfg event
  generalize sys.exec cfg event = cfg' at hmoves
  cases hmoves with
  | still => exact hsum
  | @act i choice t t' shared started htask hstep =>
      have hset := total_set weight htask t'
      have hamount := hact hcfg htask hstep hP
      change amount shared + total weight (cfg.tasks.set i t' ++ started) ≤ bound
      rw [total_append]
      omega
  | @env event shared started hstep =>
      have hamount := henv hcfg hstep
      change amount shared + total weight (cfg.tasks ++ started) ≤ bound
      rw [total_append]
      omega

theorem weight_le_total (weight : τ → Nat) {tasks : List τ} {i : Nat} {t : τ} (h : tasks[i]? = some t) :
    weight t ≤ total weight tasks := by
  induction tasks generalizing i with
  | nil => simp at h
  | cons u rest ih =>
      cases i with
      | zero =>
          rw [List.getElem?_cons_zero] at h
          rw [total, Option.some.inj h]
          exact Nat.le_add_right _ _
      | succ i => exact Nat.le_trans (ih (by simpa using h)) (Nat.le_add_left _ _)

/-- Two tasks weigh together at most the total. -/
theorem weight_add_le_total (weight : τ → Nat) {tasks : List τ} {i j : Nat} {t u : τ} (hne : i ≠ j)
    (ht : tasks[i]? = some t) (hu : tasks[j]? = some u) : weight t + weight u ≤ total weight tasks := by
  induction tasks generalizing i j with
  | nil => simp at ht
  | cons first rest ih =>
      cases i with
      | zero =>
          cases j with
          | zero => exact absurd rfl hne
          | succ j =>
              rw [List.getElem?_cons_zero] at ht
              rw [total, Option.some.inj ht]
              exact Nat.add_le_add_left (weight_le_total weight (by simpa using hu)) _
      | succ i =>
          cases j with
          | zero =>
              rw [List.getElem?_cons_zero] at hu
              rw [total, Option.some.inj hu, Nat.add_comm]
              exact Nat.add_le_add_left (weight_le_total weight (by simpa using ht)) _
          | succ j =>
              have hrest := ih (fun heq => hne (congrArg Nat.succ heq)) (by simpa using ht)
                (by simpa using hu)
              exact Nat.le_trans hrest (Nat.le_add_left _ _)

end Totals

end System

end OpenaiRs.Interleaving
