import OpenaiRs.AppServer.Ownership

/-!
# What becomes of inbound frames

The reader handles one frame after the other, and each frame has one disposal: it is
delivered to the request it answers, it becomes an event, or it fails the connection. A
channel has at most one value, which is the result of a delivered frame or the failure of the
connection, and a request only returns the value of its own channel.
-/

namespace OpenaiRs.AppServer

open Serde Rust Interleaving

section Frames

/-- The event that a frame becomes. -/
def EventOf (frame : Frame) (event : AppServerEvent) : Prop :=
  classify frame = .event event ∨
    ∃ id object raw, classify frame = .response id object raw ∧ event = .orphanResponse (.number id) raw

/-- What the reader has found out about the frame that it handles. -/
def Handles (settings : Settings) (frame : Frame) : ReaderPc → Prop
  | .looking id object raw => classify frame = .response id object raw
  | .accepting id result raw =>
      ∃ object, classify frame = .response id object raw ∧ responseResult settings object = .ok result
  | .sending id result => Answers settings frame id result
  | .cloning event => EventOf frame event
  | .pushing event => EventOf frame event
  | _ => True

/-- The reader has read a frame and not yet disposed of it. -/
def ReaderPc.handling : ReaderPc → Bool
  | .refusing _ => true
  | .looking _ _ _ => true
  | .accepting _ _ _ => true
  | .sending _ _ => true
  | .cloning _ => true
  | .pushing _ => true
  | _ => false

def Disposed (settings : Settings) (frame : Frame) : Disposal → Prop
  | .delivered id result => Answers settings frame id result
  | .discarded id => ∃ result, Answers settings frame id result
  | .emitted event => EventOf frame event
  | .failed _ => True

/-- Every frame but the one that is handled has its disposal. -/
structure Logged (settings : Settings) (s : Connection) : Prop where
  balance : s.inbound.length = s.disposals.length + if s.reader.handling then 1 else 0
  handles : ∀ frame, s.inbound[s.disposals.length]? = some frame → Handles settings frame s.reader
  disposed : ∀ (n : Nat) disposal, s.disposals[n]? = some disposal →
    ∃ frame, s.inbound[n]? = some frame ∧ Disposed settings frame disposal

theorem handled_handling (frame : Frame) : (handled frame).handling = true := by
  rw [handled]
  cases classify frame <;> rfl

theorem handles_handled (settings : Settings) (frame : Frame) : Handles settings frame (handled frame) := by
  rw [handled]
  cases hclass : classify frame with
  | invalid failure => trivial
  | event event => exact .inl hclass
  | response id object raw => exact hclass

theorem getElem?_concat {α : Type} {l : List α} {a b : α} {n : Nat} (h : (l ++ [a])[n]? = some b) :
    l[n]? = some b ∨ (n = l.length ∧ b = a) := by
  obtain hlt | hge := Nat.lt_or_ge n l.length
  · exact .inl (by rwa [List.getElem?_append_left hlt] at h)
  · obtain ⟨hlength, -⟩ := List.getElem?_eq_some_iff.mp h
    rw [List.length_append, List.length_singleton] at hlength
    obtain rfl : n = l.length := by omega
    rw [List.getElem?_concat_length] at h
    exact .inr ⟨rfl, (Option.some.inj h).symm⟩

variable {settings : Settings} {s : Connection}

/-- The reader goes on with the frame that it handles, or is between two frames. -/
theorem Logged.goOn (h : Logged settings s) {s' : Connection} (hdisposals : s'.disposals = s.disposals)
    (hinbound : s'.inbound = s.inbound) (hhandling : s'.reader.handling = s.reader.handling)
    (hhandles : ∀ frame, Handles settings frame s.reader → Handles settings frame s'.reader) :
    Logged settings s' where
  balance := by
    rw [hdisposals, hinbound, hhandling]
    exact h.balance
  handles frame hframe := by
    rw [hdisposals, hinbound] at hframe
    exact hhandles frame (h.handles frame hframe)
  disposed := by
    rw [hdisposals, hinbound]
    exact h.disposed

/-- The reader disposes of the frame that it handles. -/
theorem Logged.dispose (h : Logged settings s) {s' : Connection} {disposal : Disposal}
    (hdisposals : s'.disposals = s.disposals ++ [disposal]) (hinbound : s'.inbound = s.inbound)
    (hbefore : s.reader.handling = true) (hafter : s'.reader.handling = false)
    (hdisposed : ∀ frame, Handles settings frame s.reader → Disposed settings frame disposal) :
    Logged settings s' := by
  have hbalance := h.balance
  rw [hbefore, if_pos rfl] at hbalance
  constructor
  · rw [hdisposals, hinbound, hafter, hbalance]
    simp
  · intro frame hframe
    rw [hdisposals, hinbound, List.getElem?_eq_none (by simp [hbalance])] at hframe
    cases hframe
  · intro n other hother
    rw [hdisposals] at hother
    rw [hinbound]
    obtain hother | ⟨rfl, rfl⟩ := getElem?_concat hother
    · exact h.disposed n other hother
    · have hlt : s.disposals.length < s.inbound.length := by omega
      have hframe := List.getElem?_eq_getElem hlt
      exact ⟨_, hframe, hdisposed _ (h.handles _ hframe)⟩

/-- Tasks leave frames, disposals and events alone. -/
theorem log_perform {i : Nat} {op : Operation} (hlegal : Legal s (some i) op) :
    (s.perform op).inbound = s.inbound ∧ (s.perform op).disposals = s.disposals ∧
      (s.perform op).events = s.events := by
  cases hlegal with
  | remove =>
      simp only [Connection.perform]
      split <;> exact ⟨rfl, rfl, rfl⟩
  | dropPermit =>
      simp only [Connection.perform]
      split <;> exact ⟨rfl, rfl, rfl⟩
  | _ => exact ⟨rfl, rfl, rfl⟩

theorem Logged.act {i : Nat} {op : Operation} (h : Logged settings s) (hlegal : Legal s (some i) op) :
    Logged settings (s.perform op) := by
  obtain ⟨hinbound, hdisposals, -⟩ := log_perform hlegal
  have hreader := (accepted_perform hlegal).2
  refine h.goOn hdisposals hinbound (by rw [hreader]) ?_
  intro frame hframe
  rwa [hreader]

/-- A step of `terminate` behind a frame that failed, or between two frames. -/
theorem Logged.terminate {op : Operation} {pc : TerminatePc} {pc' : ReaderPc} (h : Logged settings s)
    (hreader : s.reader = .terminating pc) (hlegal : Legal s (some 0) op)
    (hafter : (∃ next, pc' = .terminating next) ∨ pc' = .stopped) :
    Logged settings { s.perform op with reader := pc' } := by
  obtain ⟨hinbound, hdisposals, -⟩ := log_perform hlegal
  obtain ⟨next, rfl⟩ | rfl := hafter
  · exact h.goOn hdisposals hinbound (by rw [hreader]; rfl) (fun _ _ => trivial)
  · exact h.goOn hdisposals hinbound (by rw [hreader]; rfl) (fun _ _ => trivial)

theorem ReaderStep.logged {op : Operation} {pc : ReaderPc} (hstep : ReaderStep settings s s.reader op pc)
    (h : Logged settings s) : Logged settings { s.perform op with reader := pc } := by
  generalize hpc : s.reader = reader at hstep
  cases hstep with
  | invalid _ => exact h.goOn rfl rfl (by rw [hpc]; rfl) (fun _ _ => trivial)
  | valid hresult =>
      refine h.goOn rfl rfl (by rw [hpc]; rfl) ?_
      intro frame hframe
      rw [hpc] at hframe
      exact ⟨_, hframe, hresult⟩
  | orphan _ =>
      refine h.goOn rfl rfl (by rw [hpc]; rfl) ?_
      intro frame hframe
      rw [hpc] at hframe
      exact .inr ⟨_, _, _, hframe, rfl⟩
  | lateOrphan _ =>
      refine h.goOn rfl rfl (by rw [hpc]; rfl) ?_
      intro frame hframe
      rw [hpc] at hframe
      obtain ⟨object, hclass, -⟩ := hframe
      exact .inr ⟨_, _, _, hclass, rfl⟩
  | take _ =>
      refine h.goOn rfl rfl (by rw [hpc]; rfl) ?_
      intro frame hframe
      rw [hpc] at hframe
      obtain ⟨object, hanswer⟩ := hframe
      exact ⟨object, _, hanswer⟩
  | @deliver id result =>
      refine h.dispose rfl rfl (by rw [hpc]; rfl) rfl ?_
      intro frame hframe
      rw [hpc] at hframe
      rw [Channel.disposal]
      split
      · exact ⟨result, hframe⟩
      · exact hframe
  | dropPermit =>
      obtain ⟨hinbound, hdisposals, -⟩ := log_perform (Legal.dropPermit : Legal s (some 0) _)
      exact h.goOn hdisposals hinbound (by rw [hpc]; rfl) (fun _ _ => trivial)
  | pushing =>
      refine h.goOn rfl rfl (by rw [hpc]; rfl) ?_
      intro frame hframe
      rw [hpc] at hframe
      exact hframe
  | unsent hsource =>
      obtain rfl | rfl := hsource
      · exact h.goOn rfl rfl (by rw [hpc]; rfl) (fun _ _ => trivial)
      · exact h.goOn rfl rfl (by rw [hpc]; rfl) (fun _ _ => trivial)
  | emit =>
      refine h.dispose rfl rfl (by rw [hpc]; rfl) rfl ?_
      intro frame hframe
      rw [hpc] at hframe
      exact hframe
  | refuse => exact h.dispose rfl rfl (by rw [hpc]; rfl) rfl (fun _ _ => trivial)
  | terminate hterminate => exact h.terminate hpc hterminate.legal (.inl ⟨_, rfl⟩)
  | terminated hend => exact h.terminate hpc hend.legal (.inr rfl)

theorem EnvStep.logged {op : Operation} {pc : ReaderPc} {started : List Task}
    (hstep : EnvStep settings s op pc started) (h : Logged settings s) :
    Logged settings { s.perform op with reader := pc } := by
  cases hstep with
  | started => exact h
  | consume => exact h.goOn rfl rfl rfl (fun _ hframe => hframe)
  | stop hreading => exact h.goOn rfl rfl (by rw [hreading]; rfl) (fun _ _ => trivial)
  | @line frame hreading =>
      have hbalance : s.inbound.length = s.disposals.length := by
        simpa [hreading, ReaderPc.handling] using h.balance
      constructor
      · simp [Connection.perform, hbalance, handled_handling]
      · intro other hother
        change (s.inbound ++ [frame])[s.disposals.length]? = some other at hother
        rw [← hbalance, List.getElem?_concat_length] at hother
        cases hother
        exact handles_handled settings frame
      · intro n disposal hdisposal
        obtain ⟨earlier, hframe, hdisposed⟩ := h.disposed n disposal hdisposal
        have hlt := (List.getElem?_eq_some_iff.mp hframe).1
        exact ⟨earlier, (List.getElem?_append_left hlt).trans hframe, hdisposed⟩
  | reader hreader => exact hreader.logged h

end Frames

section Channels

/-- The request that a disposal used up. -/
def Disposal.target : Disposal → Option Nat
  | .delivered id _ => some id
  | .discarded id => some id
  | _ => none

def Disposal.event : Disposal → Option AppServerEvent
  | .emitted event => some event
  | _ => none

/-- Channels and disposals agree. -/
structure Answered (s : Connection) : Prop where
  spent : ∀ id ∈ s.disposals.filterMap Disposal.target, (s.channels id).senderDropped = true
  nodup : (s.disposals.filterMap Disposal.target).Nodup
  value : ∀ id result, (s.channels id).value = some result →
    (∃ failure, result = .connection failure) ∨ .delivered id result ∈ s.disposals
  delivered : ∀ id result, .delivered id result ∈ s.disposals → (s.channels id).value = some result
  discarded : ∀ id, .discarded id ∈ s.disposals → (s.channels id).receiverDropped = true
  drained : ∀ id ∈ s.drainedIds, id ∈ s.drained ∨ (s.channels id).receiverDropped = true ∨
    ∃ failure, (s.channels id).value = some (.connection failure)
  queued : s.events <:+ s.disposals.filterMap Disposal.event

variable {s : Connection} {who : Option Nat} {op : Operation} {id : Nat}

@[simp] theorem Channel.send_senderDropped (channel : Channel) (result : PendingResult) :
    (channel.send result).senderDropped = true := by
  rw [Channel.send]
  split <;> rfl

@[simp] theorem Channel.send_receiverDropped (channel : Channel) (result : PendingResult) :
    (channel.send result).receiverDropped = channel.receiverDropped := by
  rw [Channel.send]
  split <;> rfl

theorem Channel.send_value (channel : Channel) (result : PendingResult) :
    (channel.send result).value = if channel.receiverDropped then channel.value else some result := by
  rw [Channel.send]
  split <;> rfl

theorem senderDropped_perform (op : Operation) (h : (s.channels id).senderDropped = true) :
    ((s.perform op).channels id).senderDropped = true := by
  have hupdate : ∀ other channel, (channel : Channel).senderDropped = true →
      (Function.update s.channels other channel id).senderDropped = true := by
    intro other channel hchannel
    rw [Function.update_apply]
    split
    · exact hchannel
    · exact h
  cases op with
  | remove other =>
      simp only [Connection.perform]
      split
      · exact hupdate other _ rfl
      · exact h
  | dropReceiver other =>
      change (Function.update s.channels other _ id).senderDropped = true
      rw [Function.update_apply]
      split
      · rename_i heq
        rwa [heq] at h
      · exact h
  | broadcast failure other => exact hupdate other _ (Channel.send_senderDropped _ _)
  | deliver other result => exact hupdate other _ (Channel.send_senderDropped _ _)
  | dropPermit other =>
      simp only [Connection.perform]
      split <;> exact h
  | _ => exact h

theorem receiverDropped_perform (op : Operation) (hop : op ≠ .dropReceiver id) :
    ((s.perform op).channels id).receiverDropped = (s.channels id).receiverDropped := by
  have hupdate : ∀ other channel, (channel : Channel).receiverDropped = (s.channels other).receiverDropped →
      (Function.update s.channels other channel id).receiverDropped = (s.channels id).receiverDropped := by
    intro other channel hchannel
    rw [Function.update_apply]
    split
    · rename_i heq
      rw [hchannel, heq]
    · rfl
  cases op with
  | remove other =>
      simp only [Connection.perform]
      split
      · exact hupdate other _ rfl
      · rfl
  | dropReceiver other =>
      have hne : id ≠ other := fun heq => hop (by rw [heq])
      exact congrArg Channel.receiverDropped (Function.update_of_ne hne _ _)
  | broadcast failure other => exact hupdate other _ (Channel.send_receiverDropped _ _)
  | deliver other result => exact hupdate other _ (Channel.send_receiverDropped _ _)
  | dropPermit other =>
      simp only [Connection.perform]
      split <;> rfl
  | _ => rfl

theorem receiverDropped_stays (op : Operation) (h : (s.channels id).receiverDropped = true) :
    ((s.perform op).channels id).receiverDropped = true := by
  by_cases hop : op = .dropReceiver id
  · subst hop
    change (Function.update s.channels id _ id).receiverDropped = true
    rw [Function.update_self]
  · rwa [receiverDropped_perform op hop]

/-- A value only changes by an answer. -/
theorem value_perform (hfailure : ∀ failure, op ≠ .broadcast failure id)
    (hresult : ∀ result, op ≠ .deliver id result) :
    ((s.perform op).channels id).value = (s.channels id).value := by
  have hupdate : ∀ other channel, (channel : Channel).value = (s.channels other).value →
      (Function.update s.channels other channel id).value = (s.channels id).value := by
    intro other channel hchannel
    rw [Function.update_apply]
    split
    · rename_i heq
      rw [hchannel, heq]
    · rfl
  cases op with
  | remove other =>
      simp only [Connection.perform]
      split
      · exact hupdate other _ rfl
      · rfl
  | dropReceiver other => exact hupdate other _ rfl
  | broadcast failure other =>
      have hne : id ≠ other := fun heq => hfailure failure (by rw [heq])
      exact congrArg Channel.value (Function.update_of_ne hne _ _)
  | deliver other result =>
      have hne : id ≠ other := fun heq => hresult result (by rw [heq])
      exact congrArg Channel.value (Function.update_of_ne hne _ _)
  | dropPermit other =>
      simp only [Connection.perform]
      split <;> rfl
  | _ => rfl

theorem value_broadcast {failure : ConnectionFailure} (h : (s.channels id).receiverDropped = false) :
    ((s.perform (.broadcast failure id)).channels id).value = some (.connection failure) := by
  change (Function.update s.channels id _ id).value = _
  rw [Function.update_self, Channel.send_value, h]
  rfl

theorem value_deliver {result : PendingResult} (h : (s.channels id).receiverDropped = false) :
    ((s.perform (.deliver id result)).channels id).value = some result := by
  change (Function.update s.channels id _ id).value = _
  rw [Function.update_self, Channel.send_value, h]
  rfl

/-- Where the value of a channel comes from. -/
theorem value_cases {result : PendingResult} (h : ((s.perform op).channels id).value = some result) :
    (s.channels id).value = some result ∨
      (∃ failure, op = .broadcast failure id ∧ result = .connection failure) ∨
      (op = .deliver id result ∧ (s.channels id).receiverDropped = false) := by
  have hsent : ∀ answer, ((s.channels id).send answer).value = some result →
      (s.channels id).value = some result ∨
        (answer = result ∧ (s.channels id).receiverDropped = false) := by
    intro answer hvalue
    rw [Channel.send_value] at hvalue
    split at hvalue
    · exact .inl hvalue
    · rename_i hreceiver
      exact .inr ⟨Option.some.inj hvalue, by simpa using hreceiver⟩
  by_cases hfailure : ∃ failure, op = .broadcast failure id
  · obtain ⟨failure, rfl⟩ := hfailure
    change (Function.update s.channels id _ id).value = _ at h
    rw [Function.update_self] at h
    obtain hold | ⟨heq, -⟩ := hsent _ h
    · exact .inl hold
    · exact .inr (.inl ⟨failure, rfl, heq.symm⟩)
  · by_cases hresult : ∃ answer, op = .deliver id answer
    · obtain ⟨answer, rfl⟩ := hresult
      change (Function.update s.channels id _ id).value = _ at h
      rw [Function.update_self] at h
      obtain hold | ⟨rfl, hreceiver⟩ := hsent _ h
      · exact .inl hold
      · exact .inr (.inr ⟨rfl, hreceiver⟩)
    · rw [value_perform (not_exists.mp hfailure) (not_exists.mp hresult)] at h
      exact .inl h

/-- The sender that an answer uses has not been used before. -/
theorem Sound.answers (hsound : Sound s) (hlegal : Legal s who op)
    (hop : (∃ failure, op = .broadcast failure id) ∨ ∃ result, op = .deliver id result) :
    (s.channels id).value = none ∧ (s.channels id).senderDropped = false := by
  refine hsound.unanswered id (mem_senders.mpr ?_)
  obtain ⟨failure, rfl⟩ | ⟨result, rfl⟩ := hop
  · cases hlegal with
    | broadcast hmem => exact .inr (.inr hmem)
  · cases hlegal with
    | deliver haccepted => exact .inr (.inl haccepted)

/-- A value is never replaced. -/
theorem Sound.value_stays (hsound : Sound s) (hlegal : Legal s who op) {result : PendingResult}
    (h : (s.channels id).value = some result) : ((s.perform op).channels id).value = some result := by
  have hunused : ∀ other, (∃ failure, op = .broadcast failure other) ∨ (∃ result, op = .deliver other result) →
      other ≠ id := by
    rintro other hop rfl
    rw [(hsound.answers hlegal hop).1] at h
    cases h
  rw [value_perform]
  · exact h
  · rintro failure rfl
    exact hunused id (.inl ⟨failure, rfl⟩) rfl
  · rintro result rfl
    exact hunused id (.inr ⟨result, rfl⟩) rfl

/-- The disposal that an operation adds. -/
def Operation.disposal (s : Connection) : Operation → Option Disposal
  | .dispose disposal => some disposal
  | .deliver id result => some ((s.channels id).disposal id result)
  | .emit event => some (.emitted event)
  | _ => none

theorem disposals_perform (s : Connection) (op : Operation) :
    (s.perform op).disposals = s.disposals ++ (op.disposal s).toList := by
  cases op with
  | remove id =>
      simp only [Connection.perform, Operation.disposal]
      split <;> exact (List.append_nil _).symm
  | dropPermit id =>
      simp only [Connection.perform, Operation.disposal]
      split <;> exact (List.append_nil _).symm
  | dispose disposal => rfl
  | deliver id result => rfl
  | emit event => rfl
  | _ => exact (List.append_nil _).symm

theorem drainedIds_perform (s : Connection) (op : Operation) (h : op ≠ .drain) :
    (s.perform op).drainedIds = s.drainedIds := by
  cases op with
  | drain => exact absurd rfl h
  | remove id =>
      simp only [Connection.perform]
      split <;> rfl
  | dropPermit id =>
      simp only [Connection.perform]
      split <;> rfl
  | _ => rfl

/-- A drained entry stays until it is answered. -/
theorem mem_drained_perform (h : id ∈ s.drained) (hop : ∀ failure, op ≠ .broadcast failure id) :
    id ∈ (s.perform op).drained := by
  cases op with
  | drain => exact List.mem_append_left _ h
  | broadcast failure other =>
      have hne : id ≠ other := fun heq => hop failure (by rw [heq])
      exact (List.mem_erase_of_ne hne).mpr h
  | remove other =>
      simp only [Connection.perform]
      split <;> exact h
  | dropPermit other =>
      simp only [Connection.perform]
      split <;> exact h
  | _ => exact h

theorem Channel.disposal_target (channel : Channel) (id : Nat) (result : PendingResult) :
    (channel.disposal id result).target = some id := by
  rw [Channel.disposal]
  split <;> rfl

theorem Channel.disposal_event (channel : Channel) (id : Nat) (result : PendingResult) :
    (channel.disposal id result).event = none := by
  rw [Channel.disposal]
  split <;> rfl

/-- A disposal that an operation adds uses up a request only if the operation answers it. -/
theorem target_disposal (hfailed : ∀ disposal, op = .dispose disposal → ∃ failure, disposal = .failed failure)
    {disposal : Disposal} (h : op.disposal s = some disposal) (htarget : disposal.target = some id) :
    ∃ result, op = .deliver id result ∧ disposal = (s.channels id).disposal id result := by
  cases op with
  | dispose other =>
      obtain ⟨failure, rfl⟩ := hfailed other rfl
      cases h
      cases htarget
  | deliver other result =>
      cases h
      rw [Channel.disposal_target] at htarget
      cases htarget
      exact ⟨result, rfl, rfl⟩
  | emit event =>
      cases h
      cases htarget
  | _ => cases h

/-- Channels and disposals agree after every operation. -/
theorem Answered.perform (h : Answered s) (hsound : Sound s) (hlegal : Legal s who op)
    (hfailed : ∀ disposal, op = .dispose disposal → ∃ failure, disposal = .failed failure) :
    Answered (s.perform op) where
  spent other hmem := by
    rw [disposals_perform, List.filterMap_append, List.mem_append] at hmem
    obtain hold | hnew := hmem
    · exact senderDropped_perform op (h.spent other hold)
    · obtain ⟨disposal, hdisposal, htarget⟩ := List.mem_filterMap.mp hnew
      obtain ⟨result, rfl, -⟩ := target_disposal hfailed (Option.mem_toList.mp hdisposal) htarget
      change (Function.update s.channels other _ other).senderDropped = true
      rw [Function.update_self, Channel.send_senderDropped]
  nodup := by
    rw [disposals_perform, List.filterMap_append]
    refine List.nodup_append.mpr ⟨h.nodup, ?_, ?_⟩
    · cases op.disposal s with
      | none => exact List.nodup_nil
      | some disposal => cases htarget : disposal.target <;> simp [htarget]
    · rintro other hold _ hnew rfl
      obtain ⟨disposal, hdisposal, htarget⟩ := List.mem_filterMap.mp hnew
      obtain ⟨result, rfl, -⟩ := target_disposal hfailed (Option.mem_toList.mp hdisposal) htarget
      have hunused := (hsound.answers hlegal (.inr ⟨result, rfl⟩)).2
      rw [h.spent other hold] at hunused
      cases hunused
  value other result hvalue := by
    rw [disposals_perform]
    obtain hold | ⟨failure, -, hfailure⟩ | ⟨rfl, hreceiver⟩ := value_cases hvalue
    · exact (h.value other result hold).imp (fun h => h) (List.mem_append_left _)
    · exact .inl ⟨failure, hfailure⟩
    · right
      simp [Operation.disposal, Channel.disposal, hreceiver]
  delivered other result hmem := by
    rw [disposals_perform, List.mem_append] at hmem
    obtain hold | hnew := hmem
    · exact hsound.value_stays hlegal (h.delivered other result hold)
    · obtain ⟨answer, rfl, hdisposal⟩ := target_disposal hfailed (Option.mem_toList.mp hnew) rfl
      rw [Channel.disposal] at hdisposal
      split at hdisposal
      · cases hdisposal
      · rename_i hreceiver
        cases hdisposal
        exact value_deliver (by simpa using hreceiver)
  discarded other hmem := by
    rw [disposals_perform, List.mem_append] at hmem
    obtain hold | hnew := hmem
    · exact receiverDropped_stays op (h.discarded other hold)
    · obtain ⟨answer, rfl, hdisposal⟩ := target_disposal hfailed (Option.mem_toList.mp hnew) rfl
      rw [Channel.disposal] at hdisposal
      split at hdisposal
      · exact receiverDropped_stays _ ‹_›
      · cases hdisposal
  drained other hmem := by
    by_cases hdrain : op = .drain
    · subst hdrain
      obtain hold | hnew := List.mem_append.mp hmem
      · exact (h.drained other hold).imp (List.mem_append_left _) (fun h => h)
      · exact .inl (List.mem_append_right _ hnew)
    · rw [drainedIds_perform s op hdrain] at hmem
      by_cases hfailure : ∃ failure, op = .broadcast failure other
      · obtain ⟨failure, rfl⟩ := hfailure
        right
        by_cases hreceiver : (s.channels other).receiverDropped = true
        · exact .inl (receiverDropped_stays _ hreceiver)
        · exact .inr ⟨failure, value_broadcast (by simpa using hreceiver)⟩
      · obtain hdrained | hreceiver | ⟨failure, hvalue⟩ := h.drained other hmem
        · exact .inl (mem_drained_perform hdrained (not_exists.mp hfailure))
        · exact .inr (.inl (receiverDropped_stays op hreceiver))
        · exact .inr (.inr ⟨failure, hsound.value_stays hlegal hvalue⟩)
  queued := by
    rw [disposals_perform, List.filterMap_append]
    cases hlegal with
    | emit =>
        obtain ⟨consumed, heq⟩ := h.queued
        refine ⟨consumed, ?_⟩
        change consumed ++ (s.events ++ _) = _
        rw [← List.append_assoc, heq]
        rfl
    | consume =>
        simp only [Operation.disposal, Option.toList_none, List.filterMap_nil, List.append_nil]
        exact (List.tail_suffix _).trans h.queued
    | deliver =>
        simp only [Operation.disposal, Option.toList_some, List.filterMap_cons, Channel.disposal_event,
          List.filterMap_nil, List.append_nil]
        exact h.queued
    | @dispose disposal =>
        obtain ⟨failure, rfl⟩ := hfailed disposal rfl
        simp only [Operation.disposal, Option.toList_some, List.filterMap_cons, Disposal.event,
          List.filterMap_nil, List.append_nil]
        exact h.queued
    | remove =>
        simp only [Operation.disposal, Option.toList_none, List.filterMap_nil, List.append_nil]
        simp only [Connection.perform]
        split <;> exact h.queued
    | dropPermit =>
        simp only [Operation.disposal, Option.toList_none, List.filterMap_nil, List.append_nil]
        simp only [Connection.perform]
        split <;> exact h.queued
    | _ =>
        simp only [Operation.disposal, Option.toList_none, List.filterMap_nil, List.append_nil]
        exact h.queued

end Channels

end OpenaiRs.AppServer
