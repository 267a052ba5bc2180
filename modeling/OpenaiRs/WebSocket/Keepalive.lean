import OpenaiRs.WebSocket.Realtime

/-!
# The keepalive of the Realtime WebSocket

What the keepalive has to tell is a matter of when frames came and when `recv` was awaited. A history
keeps that beside the socket. The window is anchored where the history wants it, and ticks are judged as
they should be, exactly as long as the loop does not take its own rounds for pauses.
-/

namespace OpenaiRs.WebSocket

open Machines

variable {Outgoing Incoming Fault : Type}

section Histories

/-- What happened on a connection, up to a time. -/
structure History where
  clock : ℕ
  /-- When the last inbound frame was read. -/
  lastFrame : Option ℕ
  /-- When the last call of `recv` began to await. -/
  awaitStart : ℕ
  /-- When `recv` was last left, or the connection was made. -/
  leftAt : ℕ
  /-- When `recv` was last called after a pause of a ping interval at least. -/
  resumedAt : Option ℕ

/-- The history of a connection that was just made. -/
def History.start (connectedAt : ℕ) : History := ⟨connectedAt, none, connectedAt, connectedAt, none⟩

/-- The readings of the clock in an action. -/
def Action.readings : Action Outgoing Fault → List ℕ
  | .send _ _ => []
  | .recv top => [top.now, top.polled]
  | .inbound _ readAt top => [readAt, top.now, top.polled]
  | .tick takenAt judgedAt _ top => [takenAt, judgedAt, top.now, top.polled]
  | .drop leftAt => [leftAt]
  | .close _ => []

/-- A probe that is written, or no probe. -/
def Action.ProbesWell : Action Outgoing Fault → Prop
  | .tick _ _ (some (.ok ())) _ => True
  | .tick _ _ _ _ => False
  | _ => True

variable (pingInterval : ℕ)

/-- The history after an action of an open socket, which returned this. -/
def History.next (h : History) (a : Action Outgoing Fault) (returned : Option (Returned Incoming Fault)) :
    History :=
  match a with
  | .send _ _ => h
  | .recv top =>
      { h with
        clock := top.polled
        awaitStart := top.now
        resumedAt := if h.leftAt + pingInterval ≤ top.now then some top.now else h.resumedAt }
  | .inbound message readAt top =>
      { h with
        clock := top.polled
        lastFrame := if message.isSome then some readAt else h.lastFrame
        leftAt := if returned.isSome then readAt else h.leftAt }
  | .tick _ _ _ top => { h with clock := top.polled }
  | .drop leftAt => { h with clock := leftAt, leftAt := leftAt }
  | .close _ => h

/-- The clock does not run backwards, and probes are written. -/
def Observes (h : History) (a : Action Outgoing Fault) : Prop :=
  List.IsChain (· ≤ ·) (h.clock :: a.readings) ∧ a.ProbesWell

instance instDecidableObserves (h : History) (a : Action Outgoing Fault) : Decidable (Observes h a) :=
  have : Decidable a.ProbesWell := by
    unfold Action.ProbesWell
    split <;> infer_instance
  inferInstanceAs (Decidable (_ ∧ _))

/-- The socket, with its history beside it while it is open. -/
def observed (codec : Codec Outgoing Incoming Fault) (s : RealtimeWebSocket × History)
    (a : Action Outgoing Fault) : Option ((RealtimeWebSocket × History) × Output Incoming Fault) :=
  if Observes s.2 a then
    (s.1.step codec a).map fun next =>
      ((next.1, if s.1.closed then s.2 else s.2.next pingInterval a next.2.returned), next.2)
  else none

end Histories

section Steps

/-- What an action does to the keepalive of a socket that is closed and being received from like this. -/
inductive Keeps (k : RealtimeKeepaliveState) (closed receiving : Bool) : Action Outgoing Fault →
    RealtimeKeepaliveState → Bool → Bool → Option (Returned Incoming Fault) → Prop
  | sent (event : Outgoing) (written : Option (Except Fault Unit)) (closed' : Bool)
      (returned : Option (Returned Incoming Fault)) (hclosed : closed = true → closed' = true)
      (hidle : receiving = false) :
      Keeps k closed receiving (.send event written) k closed' receiving returned
  | shut (result : Option (Except Fault Unit)) (closed' : Bool)
      (returned : Option (Returned Incoming Fault)) (hclosed : closed = true → closed' = true)
      (hidle : receiving = false) :
      Keeps k closed receiving (.close result) k closed' receiving returned
  | finished (top : Top) (returned : Option (Returned Incoming Fault)) (hclosed : closed = true)
      (hidle : receiving = false) :
      Keeps k closed receiving (.recv top) k closed receiving returned
  | entered (top : Top) (hopen : closed = false) (hidle : receiving = false) :
      Keeps k closed receiving (.recv top) (RealtimeWebSocket.pollTop k top) closed true none
  | ended (readAt : ℕ) (top : Top) (returned : Returned Incoming Fault) (hreceiving : receiving = true) :
      Keeps k closed receiving (.inbound none readAt top) k true false (some returned)
  | heard (message : Except Fault Message) (readAt : ℕ) (top : Top) (closed' : Bool)
      (returned : Returned Incoming Fault) (hreceiving : receiving = true)
      (hmessage : message ≠ .ok .ping ∧ message ≠ .ok .pong) (hclosed : closed = true → closed' = true) :
      Keeps k closed receiving (.inbound (some message) readAt top)
        (RealtimeWebSocket.refresh k readAt) closed' false (some returned)
  | ignored (message : Message) (readAt : ℕ) (top : Top) (hreceiving : receiving = true)
      (hcontrol : message = .ping ∨ message = .pong) :
      Keeps k closed receiving (.inbound (some (.ok message)) readAt top)
        (RealtimeWebSocket.pollTop (RealtimeWebSocket.refresh k readAt) top) closed true none
  | timedOut (takenAt judgedAt : ℕ) (probe : Option (Except Fault Unit)) (top : Top)
      (hreceiving : receiving = true) (hsilent : k.config.silenceWindow ≤ judgedAt - k.lastInbound) :
      Keeps k closed receiving (.tick takenAt judgedAt probe top) { k with ticker := takenAt } true false
        (some (.recv (.error (.webSocketProtocol keepaliveTimeoutReason))))
  | probed (takenAt judgedAt : ℕ) (top : Top) (hreceiving : receiving = true)
      (hlively : judgedAt - k.lastInbound < k.config.silenceWindow) :
      Keeps k closed receiving (.tick takenAt judgedAt (some (.ok ())) top)
        (RealtimeWebSocket.pollTop { k with ticker := takenAt } top) closed true none
  | dropped (leftAt : ℕ) (hreceiving : receiving = true) :
      Keeps k closed receiving (.drop leftAt) k closed false none

variable {codec : Codec Outgoing Incoming Fault} {s s' : RealtimeWebSocket}
  {k : RealtimeKeepaliveState} {a : Action Outgoing Fault} {o : Output Incoming Fault}

theorem send_keeps (hk : s.keepalive = some k) (hidle : s.receiving = false) (event : Outgoing)
    (written : Option (Except Fault Unit)) :
    ∃ k', (s.send codec event written).1.keepalive = some k' ∧
      Keeps k s.closed s.receiving (.send event written) k' (s.send codec event written).1.closed
        (s.send codec event written).1.receiving (s.send codec event written).2.returned := by
  have hsame : (s.send codec event written).1.keepalive = s.keepalive ∧
      (s.send codec event written).1.receiving = s.receiving ∧
      (s.closed = true → (s.send codec event written).1.closed = true) := by
    rw [RealtimeWebSocket.send.eq_def]
    split_ifs
    · exact ⟨rfl, rfl, id⟩
    · split
      · exact ⟨rfl, rfl, id⟩
      · split_ifs
        · exact ⟨rfl, rfl, id⟩
        · split
          · exact ⟨rfl, rfl, id⟩
          · exact ⟨rfl, rfl, id⟩
          · exact ⟨rfl, rfl, fun _ => rfl⟩
  obtain ⟨hkeepalive, hreceiving, hclosed⟩ := hsame
  refine ⟨k, hkeepalive.trans hk, ?_⟩
  rw [hreceiving]
  exact .sent event written _ _ hclosed hidle

theorem close_keeps (hk : s.keepalive = some k) (hidle : s.receiving = false)
    (result : Option (Except Fault Unit)) :
    ∃ k', (s.close result : RealtimeWebSocket × Output Incoming Fault).1.keepalive = some k' ∧
      Keeps k s.closed s.receiving (.close result : Action Outgoing Fault) k'
        (s.close result : RealtimeWebSocket × Output Incoming Fault).1.closed
        (s.close result : RealtimeWebSocket × Output Incoming Fault).1.receiving
        (s.close result : RealtimeWebSocket × Output Incoming Fault).2.returned := by
  rw [RealtimeWebSocket.close.eq_def]
  cases hclosed : s.closed with
  | true => exact ⟨k, hk, .shut result _ _ (fun _ => hclosed) hidle⟩
  | false =>
      cases result with
      | none => exact ⟨k, hk, .shut none _ _ (fun h => Bool.noConfusion h) hidle⟩
      | some result =>
          cases result with
          | error fault => exact ⟨k, hk, .shut _ _ _ (fun h => Bool.noConfusion h) hidle⟩
          | ok done => exact ⟨k, hk, .shut _ _ _ (fun _ => rfl) hidle⟩

theorem inbound_keeps (hk : s.keepalive = some k) (hreceiving : s.receiving = true)
    (message : Option (Except Fault Message)) (readAt : ℕ) (top : Top) :
    ∃ k', (s.inbound codec message readAt top).1.keepalive = some k' ∧
      Keeps k s.closed s.receiving (.inbound message readAt top : Action Outgoing Fault) k'
        (s.inbound codec message readAt top).1.closed (s.inbound codec message readAt top).1.receiving
        (s.inbound codec message readAt top).2.returned := by
  cases message with
  | none => exact ⟨k, hk, .ended readAt top _ hreceiving⟩
  | some message =>
      have hheard : (s.keepalive.map (RealtimeWebSocket.refresh · readAt)) =
          some (RealtimeWebSocket.refresh k readAt) := by
        rw [hk]
        rfl
      cases message with
      | error fault =>
          exact ⟨_, hheard, .heard _ readAt top true _ hreceiving (by simp) (fun _ => rfl)⟩
      | ok message =>
          cases message with
          | text text =>
              rw [RealtimeWebSocket.inbound]
              simp only [classifyRealtimeInbound]
              split
              · exact ⟨_, hheard, .heard _ readAt top true _ hreceiving (by simp) (fun _ => rfl)⟩
              · cases codec.deserializeJson text with
                | error fault => exact ⟨_, hheard, .heard _ readAt top _ _ hreceiving (by simp) id⟩
                | ok event => exact ⟨_, hheard, .heard _ readAt top _ _ hreceiving (by simp) id⟩
          | binary => exact ⟨_, hheard, .heard _ readAt top true _ hreceiving (by simp) (fun _ => rfl)⟩
          | ping =>
              have hagain : (s.keepalive.map (RealtimeWebSocket.refresh · readAt)).map
                  (RealtimeWebSocket.pollTop · top) =
                  some (RealtimeWebSocket.pollTop (RealtimeWebSocket.refresh k readAt) top) := by
                rw [hheard]
                rfl
              exact ⟨_, hagain, .ignored .ping readAt top hreceiving (.inl rfl)⟩
          | pong =>
              have hagain : (s.keepalive.map (RealtimeWebSocket.refresh · readAt)).map
                  (RealtimeWebSocket.pollTop · top) =
                  some (RealtimeWebSocket.pollTop (RealtimeWebSocket.refresh k readAt) top) := by
                rw [hheard]
                rfl
              exact ⟨_, hagain, .ignored .pong readAt top hreceiving (.inr rfl)⟩
          | close frame =>
              cases frame with
              | none =>
                  exact ⟨_, hheard, .heard _ readAt top true _ hreceiving (by simp) (fun _ => rfl)⟩
              | some frame =>
                  exact ⟨_, hheard, .heard _ readAt top true _ hreceiving (by simp) (fun _ => rfl)⟩
          | frame => exact ⟨_, hheard, .heard _ readAt top true _ hreceiving (by simp) (fun _ => rfl)⟩

theorem tick_keeps (hreceiving : s.receiving = true) (takenAt judgedAt : ℕ)
    (probe : Option (Except Fault Unit)) (top : Top)
    (hwell : (Action.tick takenAt judgedAt probe top : Action Outgoing Fault).ProbesWell) :
    ∃ k', (s.tick k takenAt judgedAt probe top : RealtimeWebSocket × Output Incoming Fault).1.keepalive =
        some k' ∧
      Keeps k s.closed s.receiving (.tick takenAt judgedAt probe top : Action Outgoing Fault) k'
        (s.tick k takenAt judgedAt probe top : RealtimeWebSocket × Output Incoming Fault).1.closed
        (s.tick k takenAt judgedAt probe top : RealtimeWebSocket × Output Incoming Fault).1.receiving
        (s.tick k takenAt judgedAt probe top : RealtimeWebSocket × Output Incoming Fault).2.returned := by
  rw [RealtimeWebSocket.tick.eq_def]
  dsimp only
  split
  · rename_i hsilent
    exact ⟨_, rfl, .timedOut takenAt judgedAt probe top hreceiving hsilent⟩
  · rename_i hlively
    cases probe with
    | none => exact hwell.elim
    | some probe =>
        cases probe with
        | error fault => exact hwell.elim
        | ok done =>
            exact ⟨_, rfl, .probed takenAt judgedAt top hreceiving (Nat.lt_of_not_le hlively)⟩

theorem step_keeps (hk : s.keepalive = some k) (hwell : a.ProbesWell)
    (h : s.step codec a = some (s', o)) :
    ∃ k', s'.keepalive = some k' ∧ Keeps k s.closed s.receiving a k' s'.closed s'.receiving o.returned := by
  cases a with
  | send event written =>
      obtain ⟨hturn, rfl, rfl⟩ := turn_call h
      exact send_keeps hk hturn event written
  | recv top =>
      obtain ⟨hturn, rfl, rfl⟩ := turn_call h
      rw [RealtimeWebSocket.recv.eq_def]
      cases hclosed : s.closed with
      | true =>
          refine ⟨k, hk, ?_⟩
          simpa [hclosed, hturn] using Keeps.finished top _ rfl rfl
      | false =>
          refine ⟨RealtimeWebSocket.pollTop k top, ?_, ?_⟩
          · simp [RealtimeWebSocket.await, hk]
          · simpa [RealtimeWebSocket.await, hclosed, hturn] using Keeps.entered top rfl rfl
  | inbound message readAt top =>
      obtain ⟨hturn, rfl, rfl⟩ := turn_wake h
      exact inbound_keeps hk hturn message readAt top
  | tick takenAt judgedAt probe top =>
      simp only [RealtimeWebSocket.step, hk] at h
      obtain ⟨hturn, rfl, rfl⟩ := turn_wake h
      exact tick_keeps (Bool.and_eq_true_iff.mp hturn).1 takenAt judgedAt probe top hwell
  | drop leftAt =>
      obtain ⟨hturn, rfl, rfl⟩ := turn_wake h
      exact ⟨k, hk, .dropped leftAt hturn⟩
  | close result =>
      obtain ⟨hturn, rfl, rfl⟩ := turn_call h
      exact close_keeps hk hturn result

end Steps

section Anchors

/-- What the invariants of a run relate: an open socket, the keepalive of which is this. -/
structure Anchored (k : RealtimeKeepaliveState) (receiving : Bool) (h : History) : Prop where
  lastPoll_le : k.lastPoll ≤ h.clock
  lastInbound_le : k.lastInbound ≤ h.clock
  frame_le : ∀ readAt, h.lastFrame = some readAt → readAt ≤ k.lastInbound
  resumed_le : ∀ now, h.resumedAt = some now → now ≤ k.lastInbound
  left_le : receiving = false → k.lastPoll ≤ h.leftAt

/-- No later than the last frame, or the beginning of the await if that is later. -/
def History.lively (h : History) : ℕ := max (h.lastFrame.getD 0) h.awaitStart

/-- The window is not anchored later than at the last frame or the beginning of the await. -/
def Timely (k : RealtimeKeepaliveState) (receiving : Bool) (h : History) : Prop :=
  receiving = true → k.lastInbound ≤ h.lively

/-- The loop takes the time since it was last at its top for a pause. -/
def TakenForPause (k : RealtimeKeepaliveState) (top : Top) : Prop :=
  k.config.pingInterval ≤ top.polled - k.lastPoll

/-- A ping interval has not passed since the loop was last at its top, when it comes back to it inside one
await, or when `recv` is called again sooner than that after it was left. Otherwise the anchor is moved
without a frame or a pause. -/
def Misfires (k : RealtimeKeepaliveState) (closed : Bool) (h : History) :
    Action Outgoing Fault → Prop
  | .recv top =>
      closed = false ∧ TakenForPause k top ∧ top.now ≠ k.lastInbound ∧
        top.now < h.leftAt + k.config.pingInterval
  | .inbound (some (.ok message)) readAt top =>
      (message = .ping ∨ message = .pong) ∧ TakenForPause k top ∧ top.now ≠ readAt
  | .tick _ judgedAt _ top =>
      judgedAt - k.lastInbound < k.config.silenceWindow ∧ TakenForPause k top ∧ top.now ≠ k.lastInbound
  | _ => False

/-- The anchor changes only to the time of a frame, or when `recv` is called after a pause. -/
def AnchorsWell (k k' : RealtimeKeepaliveState) (h : History) : Action Outgoing Fault → Prop
  | .recv top => top.now < h.leftAt + k.config.pingInterval → k'.lastInbound = k.lastInbound
  | .inbound (some _) readAt _ => k'.lastInbound = readAt
  | _ => k'.lastInbound = k.lastInbound

@[simp] theorem pollTop_config (k : RealtimeKeepaliveState) (top : Top) :
    (RealtimeWebSocket.pollTop k top).config = k.config := by
  rw [RealtimeWebSocket.pollTop]
  split <;> rfl

@[simp] theorem pollTop_lastPoll (k : RealtimeKeepaliveState) (top : Top) :
    (RealtimeWebSocket.pollTop k top).lastPoll = top.now := by
  rw [RealtimeWebSocket.pollTop]
  split <;> rfl

theorem pollTop_lastInbound_of_pause {k : RealtimeKeepaliveState} {top : Top}
    (h : TakenForPause k top) : (RealtimeWebSocket.pollTop k top).lastInbound = top.now := by
  unfold TakenForPause at h
  rw [RealtimeWebSocket.pollTop, if_pos h]

theorem pollTop_lastInbound_of_not_pause {k : RealtimeKeepaliveState} {top : Top}
    (h : ¬ TakenForPause k top) : (RealtimeWebSocket.pollTop k top).lastInbound = k.lastInbound := by
  unfold TakenForPause at h
  rw [RealtimeWebSocket.pollTop, if_neg h]

/-- The anchor does not go back where the clock does not. -/
theorem le_pollTop_lastInbound {k : RealtimeKeepaliveState} {top : Top} (h : k.lastInbound ≤ top.now) :
    k.lastInbound ≤ (RealtimeWebSocket.pollTop k top).lastInbound := by
  by_cases hpause : TakenForPause k top
  · rw [pollTop_lastInbound_of_pause hpause]
    exact h
  · exact Nat.le_of_eq (pollTop_lastInbound_of_not_pause hpause).symm

theorem pollTop_lastInbound_le {k : RealtimeKeepaliveState} {top : Top} (h : k.lastInbound ≤ top.now) :
    (RealtimeWebSocket.pollTop k top).lastInbound ≤ top.now := by
  by_cases hpause : TakenForPause k top
  · exact Nat.le_of_eq (pollTop_lastInbound_of_pause hpause)
  · rw [pollTop_lastInbound_of_not_pause hpause]
    exact h

variable {k k' : RealtimeKeepaliveState} {closed closed' receiving receiving' : Bool}
  {a : Action Outgoing Fault} {returned : Option (Returned Incoming Fault)} {h : History}

theorem Keeps.config (hkeeps : Keeps k closed receiving a k' closed' receiving' returned) :
    k'.config = k.config := by
  cases hkeeps <;> simp [RealtimeWebSocket.refresh]

theorem anchored_pollTop {top : Top} (hinbound : k.lastInbound ≤ top.now)
    (hpolled : top.now ≤ top.polled) (hclock : h.clock = top.polled)
    (hframe : ∀ readAt, h.lastFrame = some readAt → readAt ≤ k.lastInbound)
    (hresumed : ∀ now, h.resumedAt = some now → now ≤ (RealtimeWebSocket.pollTop k top).lastInbound) :
    Anchored (RealtimeWebSocket.pollTop k top) true h := by
  have hanchor := le_pollTop_lastInbound hinbound
  have hlate := pollTop_lastInbound_le hinbound
  refine ⟨?_, ?_, ?_, hresumed, ?_⟩
  · rw [pollTop_lastPoll, hclock]
    exact hpolled
  · rw [hclock]
    exact Nat.le_trans hlate hpolled
  · intro readAt hread
    exact Nat.le_trans (hframe readAt hread) hanchor
  · intro hcontra
    cases hcontra

/-- Each action keeps the anchor where the clock allows it. -/
theorem Keeps.anchored (hkeeps : Keeps k closed receiving a k' closed' receiving' returned)
    (hobserves : Observes h a) (hanchored : Anchored k receiving h) (hopen : closed' = false) :
    Anchored k' receiving' (h.next k.config.pingInterval a returned) := by
  obtain ⟨hpoll, hinbound, hframe, hresumed, hleft⟩ := hanchored
  obtain ⟨hclock, -⟩ := hobserves
  cases hkeeps with
  | sent => exact ⟨hpoll, hinbound, hframe, hresumed, hleft⟩
  | shut => exact ⟨hpoll, hinbound, hframe, hresumed, hleft⟩
  | finished top _ hclosed => simp [hclosed] at hopen
  | entered top _ hidle =>
      simp only [Action.readings, List.isChain_cons_cons] at hclock
      refine anchored_pollTop (Nat.le_trans hinbound hclock.1) hclock.2.1 rfl hframe ?_
      intro now hnow
      simp only [History.next] at hnow
      split at hnow
      · rename_i hpause
        obtain rfl := Option.some.inj hnow
        have hlong : TakenForPause k top := by
          have := hleft hidle
          rw [TakenForPause]
          omega
        exact Nat.le_of_eq (pollTop_lastInbound_of_pause hlong).symm
      · exact Nat.le_trans (hresumed now hnow) (le_pollTop_lastInbound (Nat.le_trans hinbound hclock.1))
  | ended => cases hopen
  | heard message readAt top =>
      simp only [Action.readings, List.isChain_cons_cons] at hclock
      refine ⟨?_, ?_, ?_, ?_, ?_⟩
      · simp only [History.next, RealtimeWebSocket.refresh]
        omega
      · simp only [History.next, RealtimeWebSocket.refresh]
        omega
      · intro time hread
        simp only [History.next, Option.isSome_some, if_true, Option.some.injEq] at hread
        exact Nat.le_of_eq hread.symm
      · intro now hnow
        have := hresumed now hnow
        simp only [RealtimeWebSocket.refresh]
        omega
      · intro _
        simp only [History.next, RealtimeWebSocket.refresh, Option.isSome_some, if_true]
        omega
  | ignored message readAt top =>
      simp only [Action.readings, List.isChain_cons_cons] at hclock
      refine anchored_pollTop hclock.2.1 hclock.2.2.1 rfl ?_ ?_
      · intro time hread
        simp only [History.next, Option.isSome_some, if_true, Option.some.injEq] at hread
        exact Nat.le_of_eq hread.symm
      · intro now hnow
        have hfresh : now ≤ readAt := by
          have := hresumed now hnow
          omega
        exact Nat.le_trans hfresh
          (le_pollTop_lastInbound (k := RealtimeWebSocket.refresh k readAt) hclock.2.1)
  | timedOut => cases hopen
  | probed takenAt judgedAt top =>
      simp only [Action.readings, List.isChain_cons_cons] at hclock
      have hle : k.lastInbound ≤ top.now := by omega
      refine anchored_pollTop hle hclock.2.2.2.1 rfl hframe ?_
      intro now hnow
      exact Nat.le_trans (hresumed now hnow)
        (le_pollTop_lastInbound (k := { k with ticker := takenAt }) hle)
  | dropped leftAt =>
      simp only [Action.readings, List.isChain_cons_cons] at hclock
      refine ⟨Nat.le_trans hpoll hclock.1, Nat.le_trans hinbound hclock.1, hframe, hresumed, ?_⟩
      exact fun _ => Nat.le_trans hpoll hclock.1

/-- The top of the loop leaves the anchor, unless it takes the loop's own round for a pause. -/
theorem pollTop_lastInbound_eq_iff {top : Top} :
    (RealtimeWebSocket.pollTop k top).lastInbound = k.lastInbound ↔
      ¬ (TakenForPause k top ∧ top.now ≠ k.lastInbound) := by
  by_cases hpause : TakenForPause k top
  · simp [pollTop_lastInbound_of_pause hpause, hpause]
  · simp [pollTop_lastInbound_of_not_pause hpause, hpause]

/-- Exactly the actions that misfire move the anchor where they should not. -/
theorem Keeps.anchorsWell_iff (hkeeps : Keeps k closed receiving a k' closed' receiving' returned) :
    AnchorsWell k k' h a ↔ ¬ Misfires k closed h a := by
  cases hkeeps with
  | sent => exact iff_of_true rfl id
  | shut => exact iff_of_true rfl id
  | finished top _ hclosed => exact iff_of_true (fun _ => rfl) (fun hmisfires => by simp [hmisfires.1] at hclosed)
  | entered top hopen =>
      simp only [AnchorsWell, Misfires, pollTop_lastInbound_eq_iff, hopen]
      tauto
  | ended => exact iff_of_true rfl id
  | heard message readAt top _ _ _ hmessage =>
      refine iff_of_true rfl ?_
      cases message with
      | error fault => exact id
      | ok message =>
          rintro ⟨hcontrol, -⟩
          obtain rfl | rfl := hcontrol
          · exact hmessage.1 rfl
          · exact hmessage.2 rfl
  | ignored message readAt top _ hcontrol =>
      have hanchor : (RealtimeWebSocket.pollTop (RealtimeWebSocket.refresh k readAt) top).lastInbound =
          readAt ↔ ¬ (TakenForPause k top ∧ top.now ≠ readAt) :=
        pollTop_lastInbound_eq_iff (k := RealtimeWebSocket.refresh k readAt)
      simp only [AnchorsWell, hanchor, Misfires]
      tauto
  | timedOut takenAt judgedAt probe top _ hsilent =>
      exact iff_of_true rfl (fun hmisfires => Nat.not_lt_of_le hsilent hmisfires.1)
  | probed takenAt judgedAt top _ hlively =>
      have hanchor : (RealtimeWebSocket.pollTop { k with ticker := takenAt } top).lastInbound =
          k.lastInbound ↔ ¬ (TakenForPause k top ∧ top.now ≠ k.lastInbound) :=
        pollTop_lastInbound_eq_iff (k := { k with ticker := takenAt })
      simp only [AnchorsWell, hanchor, Misfires]
      tauto
  | dropped => exact iff_of_true rfl id

/-- The window stays anchored no later than the silence begins, as long as the anchor moves as it should. -/
theorem Keeps.timely (hkeeps : Keeps k closed receiving a k' closed' receiving' returned)
    (hobserves : Observes h a) (hanchored : Anchored k receiving h) (htimely : Timely k receiving h)
    (hwell : AnchorsWell k k' h a) : Timely k' receiving' (h.next k.config.pingInterval a returned) := by
  obtain ⟨hclock, -⟩ := hobserves
  cases hkeeps with
  | sent => exact htimely
  | shut => exact htimely
  | finished _ _ _ hidle => exact fun hreceiving => by simp [hidle] at hreceiving
  | entered top =>
      simp only [Action.readings, List.isChain_cons_cons] at hclock
      intro _
      exact Nat.le_trans (pollTop_lastInbound_le (Nat.le_trans hanchored.lastInbound_le hclock.1))
        (Nat.le_max_right _ _)
  | ended => exact fun hreceiving => Bool.noConfusion hreceiving
  | heard => exact fun hreceiving => Bool.noConfusion hreceiving
  | ignored message readAt top =>
      intro _
      rw [hwell]
      exact Nat.le_max_left _ _
  | timedOut => exact fun hreceiving => Bool.noConfusion hreceiving
  | probed takenAt judgedAt top hreceiving =>
      intro _
      rw [hwell]
      exact htimely hreceiving
  | dropped => exact fun hreceiving => Bool.noConfusion hreceiving

end Anchors

section Runs

abbrev Observed (Outgoing Incoming Fault : Type) : Type :=
  Transition (RealtimeWebSocket × History) (Action Outgoing Fault) (Output Incoming Fault)

/-- What the keepalive is documented to do in a step. -/
structure Detects (t : Observed Outgoing Incoming Fault) : Prop where
  anchors : ∀ k k', t.before.1.keepalive = some k → t.after.1.keepalive = some k' →
    AnchorsWell k k' t.before.2 t.action
  /-- A tick fails when the window has passed since the last frame and since the await began. -/
  fails : ∀ k takenAt judgedAt probe top, t.before.1.keepalive = some k →
    t.action = .tick takenAt judgedAt probe top →
    t.before.2.lively + k.config.silenceWindow ≤ judgedAt →
    t.output.returned = some (.recv (.error (.webSocketProtocol keepaliveTimeoutReason))) ∧
      t.after.1.closed = true
  /-- No tick fails when less has passed since the last frame, or since `recv` was resumed. -/
  spares : ∀ k takenAt judgedAt probe top, t.before.1.keepalive = some k →
    t.action = .tick takenAt judgedAt probe top →
    t.output.returned = some (.recv (.error (.webSocketProtocol keepaliveTimeoutReason))) →
    (∀ readAt, t.before.2.lastFrame = some readAt → readAt + k.config.silenceWindow ≤ judgedAt) ∧
      ∀ now, t.before.2.resumedAt = some now → now + k.config.silenceWindow ≤ judgedAt

/-- The step does not misfire. -/
def Considerate (t : Observed Outgoing Incoming Fault) : Prop :=
  ∀ k, t.before.1.keepalive = some k → ¬ Misfires k t.before.1.closed t.before.2 t.action

/-- The invariant of all runs. -/
structure Kept (config : RealtimeKeepalive) (s : RealtimeWebSocket × History) : Prop where
  idle : s.1.closed = true → s.1.receiving = false
  anchored : ∃ k, s.1.keepalive = some k ∧ k.config = config ∧
    (s.1.closed = false → Anchored k s.1.receiving s.2)

variable {codec : Codec Outgoing Incoming Fault} {config : RealtimeKeepalive}

/-- The window is anchored in time on a socket that is open. -/
def KeptTimely (config : RealtimeKeepalive) (s : RealtimeWebSocket × History) : Prop :=
  Kept config s ∧ ∀ k, s.1.keepalive = some k → s.1.closed = false → Timely k s.1.receiving s.2

theorem observed_cases {s s' : RealtimeWebSocket × History} {a : Action Outgoing Fault}
    {o : Output Incoming Fault} {pingInterval : ℕ}
    (h : observed pingInterval codec s a = some (s', o)) :
    Observes s.2 a ∧ s.1.step codec a = some (s'.1, o) ∧
      s'.2 = if s.1.closed then s.2 else s.2.next pingInterval a o.returned := by
  rw [observed] at h
  split at h
  · rename_i hobserves
    obtain ⟨next, hnext, heq⟩ := Option.map_eq_some_iff.mp h
    obtain ⟨rfl, rfl⟩ := Prod.mk.inj heq
    exact ⟨hobserves, hnext, rfl⟩
  · cases h

variable {s s' : RealtimeWebSocket × History} {a : Action Outgoing Fault} {o : Output Incoming Fault}
  {k k' : RealtimeKeepaliveState} {h : History} {closed closed' receiving receiving' : Bool}
  {returned : Option (Returned Incoming Fault)}

/-- A call does not await on a socket that is closed. -/
theorem Keeps.idle (hkeeps : Keeps k closed receiving a k' closed' receiving' returned)
    (hidle : closed = true → receiving = false) : closed' = true → receiving' = false := by
  intro hclosed
  cases hkeeps with
  | sent _ _ _ _ _ hrest => exact hrest
  | shut _ _ _ _ hrest => exact hrest
  | finished _ _ _ hrest => exact hrest
  | entered _ hopen => simp [hopen] at hclosed
  | ended => rfl
  | heard => rfl
  | ignored _ _ _ hreceiving => simp [hidle hclosed] at hreceiving
  | timedOut => rfl
  | probed _ _ _ hreceiving => simp [hidle hclosed] at hreceiving
  | dropped => rfl

/-- A closed socket stays closed. -/
theorem Keeps.closed_of_closed (hkeeps : Keeps k closed receiving a k' closed' receiving' returned)
    (hclosed : closed = true) : closed' = true := by
  cases hkeeps with
  | sent _ _ _ _ hstays => exact hstays hclosed
  | shut _ _ _ hstays => exact hstays hclosed
  | heard _ _ _ _ _ _ _ hstays => exact hstays hclosed
  | ended => rfl
  | timedOut => rfl
  | finished => exact hclosed
  | entered => exact hclosed
  | ignored => exact hclosed
  | probed => exact hclosed
  | dropped => exact hclosed

theorem Keeps.before_open (hkeeps : Keeps k closed receiving a k' closed' receiving' returned)
    (hopen : closed' = false) : closed = false := by
  cases hclosed : closed with
  | false => rfl
  | true =>
      rw [hkeeps.closed_of_closed hclosed] at hopen
      cases hopen

theorem Kept.open_of_receiving (hkept : Kept config s) (hreceiving : s.1.receiving = true) :
    s.1.closed = false := by
  cases hclosed : s.1.closed with
  | false => rfl
  | true =>
      rw [hkept.idle hclosed] at hreceiving
      cases hreceiving

/-- What one observed step does to the keepalive, and that it keeps the invariant. -/
theorem observed_step (hkept : Kept config s)
    (hstep : observed config.pingInterval codec s a = some (s', o)) :
    Kept config s' ∧ ∃ k k', s.1.keepalive = some k ∧ s'.1.keepalive = some k' ∧
      Keeps k s.1.closed s.1.receiving a k' s'.1.closed s'.1.receiving o.returned := by
  obtain ⟨hobserves, hsocket, hhistory⟩ := observed_cases hstep
  obtain ⟨k, hk, hconfig, hanchored⟩ := hkept.anchored
  obtain ⟨k', hk', hkeeps⟩ := step_keeps hk hobserves.2 hsocket
  refine ⟨⟨hkeeps.idle hkept.idle, k', hk', hkeeps.config.trans hconfig, ?_⟩, k, k', hk, hk', hkeeps⟩
  intro hopen
  have hbefore := hkeeps.before_open hopen
  rw [hhistory, hbefore, ← hconfig]
  exact hkeeps.anchored hobserves (hanchored hbefore) hopen

/-- The anchor moves as it should in exactly the steps that do not misfire. -/
theorem anchorsWell_iff_considerate (hkept : Kept config s)
    (hstep : observed config.pingInterval codec s a = some (s', o)) :
    (∀ k k', s.1.keepalive = some k → s'.1.keepalive = some k' → AnchorsWell k k' s.2 a) ↔
      Considerate ⟨s, a, o, s'⟩ := by
  obtain ⟨-, k, k', hk, hk', hkeeps⟩ := observed_step hkept hstep
  constructor
  · intro hanchors kept hkept
    obtain rfl := Option.some.inj (hk.symm.trans hkept)
    exact hkeeps.anchorsWell_iff.mp (hanchors k k' hk hk')
  · intro hconsiderate before after hbefore hafter
    obtain rfl := Option.some.inj (hk.symm.trans hbefore)
    obtain rfl := Option.some.inj (hk'.symm.trans hafter)
    exact hkeeps.anchorsWell_iff.mpr (hconsiderate k hk)

theorem keptTimely_step (hkept : KeptTimely config s)
    (hstep : observed config.pingInterval codec s a = some (s', o))
    (hconsiderate : Considerate ⟨s, a, o, s'⟩) : KeptTimely config s' := by
  obtain ⟨hafter, k, k', hk, hk', hkeeps⟩ := observed_step hkept.1 hstep
  refine ⟨hafter, ?_⟩
  intro kept hkeptEq hopen
  obtain rfl := Option.some.inj (hk'.symm.trans hkeptEq)
  obtain ⟨hobserves, -, hhistory⟩ := observed_cases hstep
  obtain ⟨first, hfirst, hconfig, hanchored⟩ := hkept.1.anchored
  obtain rfl := Option.some.inj (hk.symm.trans hfirst)
  have hbefore := hkeeps.before_open hopen
  have hwell := (anchorsWell_iff_considerate hkept.1 hstep).mpr hconsiderate k k' hk hk'
  rw [hhistory, hbefore, ← hconfig]
  exact hkeeps.timely hobserves (hanchored hbefore) (hkept.2 k hk hbefore) hwell

theorem Keeps.receiving_of_tick {takenAt judgedAt : ℕ} {probe : Option (Except Fault Unit)} {top : Top}
    (hkeeps : Keeps k closed receiving (.tick takenAt judgedAt probe top : Action Outgoing Fault) k'
      closed' receiving' returned) : receiving = true := by
  cases hkeeps with
  | timedOut _ _ _ _ hreceiving => exact hreceiving
  | probed _ _ _ hreceiving => exact hreceiving

/-- A tick that is judged late enough for the anchor fails. -/
theorem Keeps.fails {takenAt judgedAt : ℕ} {probe : Option (Except Fault Unit)} {top : Top}
    (hkeeps : Keeps k closed receiving (.tick takenAt judgedAt probe top : Action Outgoing Fault) k'
      closed' receiving' returned)
    (htimely : Timely k receiving h) (hlate : h.lively + k.config.silenceWindow ≤ judgedAt) :
    returned = some (.recv (.error (.webSocketProtocol keepaliveTimeoutReason))) ∧ closed' = true := by
  cases hkeeps with
  | timedOut => exact ⟨rfl, rfl⟩
  | probed _ _ _ hreceiving hlively =>
      have := htimely hreceiving
      omega

/-- A tick that fails is judged a whole window after the anchor. -/
theorem Keeps.silent {takenAt judgedAt : ℕ} {probe : Option (Except Fault Unit)} {top : Top}
    {result : Returned Incoming Fault}
    (hkeeps : Keeps k closed receiving (.tick takenAt judgedAt probe top : Action Outgoing Fault) k'
      closed' receiving' (some result)) : k.config.silenceWindow ≤ judgedAt - k.lastInbound := by
  cases hkeeps with
  | timedOut _ _ _ _ _ hsilent => exact hsilent

theorem detects_step (hkept : KeptTimely config s)
    (hstep : observed config.pingInterval codec s a = some (s', o))
    (hconsiderate : Considerate ⟨s, a, o, s'⟩) : Detects ⟨s, a, o, s'⟩ := by
  obtain ⟨-, k, k', hk, hk', hkeeps⟩ := observed_step hkept.1 hstep
  obtain ⟨first, hfirst, -, hanchored⟩ := hkept.1.anchored
  obtain rfl := Option.some.inj (hk.symm.trans hfirst)
  refine ⟨(anchorsWell_iff_considerate hkept.1 hstep).mpr hconsiderate, ?_, ?_⟩
  · rintro kept takenAt judgedAt probe top hkeptEq rfl hlate
    obtain rfl := Option.some.inj (hk.symm.trans hkeptEq)
    refine hkeeps.fails ?_ hlate
    intro hreceiving
    refine hkept.2 k hk ?_ hreceiving
    exact hkept.1.open_of_receiving hreceiving
  · rintro kept takenAt judgedAt probe top hkeptEq rfl hreturned
    obtain rfl := Option.some.inj (hk.symm.trans hkeptEq)
    dsimp only at hreturned
    rw [hreturned] at hkeeps
    have hsilent := hkeeps.silent
    obtain ⟨hchain, -⟩ := (observed_cases hstep).1
    simp only [Action.readings, List.isChain_cons_cons] at hchain
    have hopen := hkept.1.open_of_receiving hkeeps.receiving_of_tick
    obtain ⟨-, hinbound, hframe, hresumed, -⟩ := hanchored hopen
    constructor
    · intro readAt hread
      have := hframe readAt hread
      omega
    · intro now hnow
      have := hresumed now hnow
      omega

theorem kept_connected (maxMessageBytes connectedAt : ℕ) :
    KeptTimely config
      (RealtimeWebSocket.connected maxMessageBytes (some config) connectedAt,
        History.start connectedAt) := by
  constructor
  · constructor
    · exact fun _ => rfl
    · refine ⟨_, rfl, rfl, fun _ => ⟨Nat.le_refl _, Nat.le_refl _, ?_, ?_, fun _ => Nat.le_refl _⟩⟩
      · intro readAt hread
        cases hread
      · intro now hnow
        cases hnow
  · intro k _ _ hreceiving
    cases hreceiving

/-- Silence is detected, and nothing else, in exactly the runs of which no step misfires. -/
theorem recv_detectsSilence_iff (codec : Codec Outgoing Incoming Fault) (config : RealtimeKeepalive)
    (maxMessageBytes connectedAt : ℕ) (run : List (Observed Outgoing Incoming Fault))
    (last : RealtimeWebSocket × History)
    (hrun : Run (observed config.pingInterval codec)
      (RealtimeWebSocket.connected maxMessageBytes (some config) connectedAt,
        History.start connectedAt) run last) :
    (∀ t ∈ run, Detects t) ↔ ∀ t ∈ run, Considerate t := by
  have hstart : KeptTimely config _ := kept_connected maxMessageBytes connectedAt
  constructor
  · intro hdetects t ht
    -- Every step of a run keeps the anchor in bounds, whether it misfires or not.
    obtain ⟨-, hsteps⟩ := hrun.forall (Kept config)
      (fun t => (∀ k k', t.before.1.keepalive = some k → t.after.1.keepalive = some k' →
        AnchorsWell k k' t.before.2 t.action) ↔ Considerate t)
      (fun s a s' o hkept hstep =>
        ⟨(observed_step hkept hstep).1, anchorsWell_iff_considerate hkept hstep⟩) hstart.1
    exact (hsteps t ht).2.mp (hdetects t ht).anchors
  · intro hconsiderate t ht
    obtain ⟨-, hsteps⟩ := hrun.forall_of_meets Considerate (KeptTimely config) Detects
      (fun s a s' o hkept hstep hmeets =>
        ⟨keptTimely_step hkept hstep hmeets, detects_step hkept hstep hmeets⟩) hconsiderate hstart
    exact (hsteps t ht).2

/-- A socket that pings every 40 and waits 60 for what comes back, in a call of `recv`. -/
def awaiting (ticker lastInbound lastPoll : ℕ) (lastFrame : Option ℕ) (clock : ℕ) :
    RealtimeWebSocket × History :=
  ({ maxMessageBytes := 100, keepalive := some ⟨⟨40, 60⟩, ticker, lastInbound, lastPoll⟩, closed := false,
     lastClose := none, receiving := true },
   { clock := clock, lastFrame := lastFrame, awaitStart := 0, leftAt := 0, resumedAt := none })

def connectedAtZero : RealtimeWebSocket × History :=
  (.connected 100 (some ⟨40, 60⟩) 0, History.start 0)

/-- Nothing is ever read, and each tick takes the time since the tick before for a pause. -/
def silentRun : List (Observed Unit Unit Unit) :=
  [⟨connectedAtZero, .recv ⟨0, 0⟩, ⟨[.next], none⟩, awaiting 0 0 0 none 0⟩,
    ⟨awaiting 0 0 0 none 0, .tick 40 40 (some (.ok ())) ⟨41, 41⟩, ⟨[.ping, .next], none⟩,
      awaiting 40 41 41 none 41⟩,
    ⟨awaiting 40 41 41 none 41, .tick 80 80 (some (.ok ())) ⟨81, 81⟩, ⟨[.ping, .next], none⟩,
      awaiting 80 81 81 none 81⟩,
    ⟨awaiting 80 81 81 none 81, .tick 120 120 (some (.ok ())) ⟨121, 121⟩, ⟨[.ping, .next], none⟩,
      awaiting 120 121 121 none 121⟩]

theorem silentRun_undetected :
    Run (observed 40 emptyCodec) connectedAtZero silentRun (awaiting 120 121 121 none 121) ∧
      ¬ ∀ t ∈ silentRun, Detects t := by
  refine ⟨.cons rfl (.cons rfl (.cons rfl (.cons rfl (.nil _)))), ?_⟩
  intro hdetects
  have hlast := hdetects _ (List.mem_of_getElem? (i := 3) rfl)
  obtain ⟨hreturned, -⟩ := hlast.fails _ _ _ _ _ rfl rfl (by decide)
  cases hreturned

def retired : RealtimeWebSocket × History :=
  ({ (awaiting 120 20 80 (some 20) 120).1 with closed := true, receiving := false },
    (awaiting 120 20 80 (some 20) 120).2)

/-- One frame is read at 20, and the tick that is judged at 120 fails. -/
def detectedRun : List (Observed Unit Unit Unit) :=
  [⟨connectedAtZero, .recv ⟨0, 0⟩, ⟨[.next], none⟩, awaiting 0 0 0 none 0⟩,
    ⟨awaiting 0 0 0 none 0, .inbound (some (.ok .pong)) 20 ⟨20, 20⟩, ⟨[.next], none⟩,
      awaiting 0 20 20 (some 20) 20⟩,
    ⟨awaiting 0 20 20 (some 20) 20, .tick 40 40 (some (.ok ())) ⟨41, 41⟩, ⟨[.ping, .next], none⟩,
      awaiting 40 20 41 (some 20) 41⟩,
    ⟨awaiting 40 20 41 (some 20) 41, .tick 80 80 (some (.ok ())) ⟨80, 80⟩, ⟨[.ping, .next], none⟩,
      awaiting 80 20 80 (some 20) 80⟩,
    ⟨awaiting 80 20 80 (some 20) 80, .tick 120 120 (some (.ok ())) ⟨120, 120⟩,
      ⟨[], some (.recv (.error (.webSocketProtocol keepaliveTimeoutReason)))⟩, retired⟩]

theorem detectedRun_detects :
    Run (observed 40 emptyCodec) connectedAtZero detectedRun retired ∧ ∀ t ∈ detectedRun, Detects t := by
  have hrun : Run (observed 40 emptyCodec) connectedAtZero detectedRun retired :=
    .cons rfl (.cons rfl (.cons rfl (.cons rfl (.cons rfl (.nil _)))))
  refine ⟨hrun, ?_⟩
  refine (recv_detectsSilence_iff emptyCodec ⟨40, 60⟩ 100 0 detectedRun retired hrun).mpr ?_
  intro t ht k hk
  simp only [detectedRun, List.mem_cons, List.not_mem_nil, or_false] at ht
  obtain rfl | rfl | rfl | rfl | rfl := ht
  all_goals
    obtain rfl := Option.some.inj hk
    simp [Misfires, TakenForPause, RealtimeKeepalive.silenceWindow]

end Runs

end OpenaiRs.WebSocket
