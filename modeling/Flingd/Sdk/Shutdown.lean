import Flingd.Sdk.ReceiverLoop

/-! The end of a `FlintReceiverManager`. What is posted to a channel, and what its websocket still
does, must be over before the channel is deleted; `close` posts the last message of the channel and
deletes the channel at once. -/
namespace Flingd.Sdk
open Outcome

namespace FlintReceiverManager
variable {json : Rapidjson} {m m' : FlintReceiverManager}

def Like (m m' : FlintReceiverManager) : Prop :=
  m'.messageBusManager_ = m.messageBusManager_ ∧ m'.ipcChannel_.isSome = m.ipcChannel_.isSome

theorem Like.trans {m'' : FlintReceiverManager} (h : m.Like m') (h' : m'.Like m'') : m.Like m'' :=
  ⟨h'.1.trans h.1, h'.2.trans h.2⟩

theorem ipcSend_like (m : FlintReceiverManager) (message : Bytes) : m.Like (m.ipcSend message) :=
  ⟨rfl, Option.isSome_map⟩

theorem sendAdditionalData_like (json : Rapidjson) (m : FlintReceiverManager) :
    m.Like (m.sendAdditionalData json) := by
  unfold sendAdditionalData
  dsimp only
  split
  · exact ipcSend_like _ _
  · exact ⟨rfl, rfl⟩

theorem setAdditionalData_like (json : Rapidjson) (m : FlintReceiverManager) (data : Bytes) :
    m.Like (m.setAdditionalData json data) :=
  sendAdditionalData_like json { m with customAdditionalData_ := data }

theorem onIpcOpen_like (json : Rapidjson) (m : FlintReceiverManager) :
    m.Like (m.onIpcOpen json) := by
  have hopen : m.Like { m with ipcChannel_ := m.ipcChannel_.map MessageChannel.onOpen } :=
    ⟨rfl, Option.isSome_map⟩
  exact hopen.trans (ipcSend_like _ _)

theorem onIpcMessage_like {message : Bytes} (h : m.onIpcMessage json message = some m') :
    m.Like m' := by
  rcases onIpcMessage_some h with rfl | ⟨ip, rfl⟩ | ⟨type, rfl⟩
  · exact ⟨rfl, rfl⟩
  · exact sendAdditionalData_like json { m with flintServiceUrl_ := ip }
  · exact ipcSend_like _ _

end FlintReceiverManager

namespace ReceiverLoop
variable {json : Rapidjson} {s t : ReceiverLoop} {name name' : ChannelName}

def live (s : ReceiverLoop) (name : ChannelName) : Prop :=
  s.connection name = .connecting ∨ s.connection name = .opened

instance : Decidable (s.live name) := inferInstanceAs (Decidable (_ ∨ _))

/-- Nothing is posted to the channel, and where it is the one that takes the manager of the buses
along, the websocket of the buses is over. -/
def Settled (s : ReceiverLoop) (name : ChannelName) : Prop :=
  (∀ task ∈ s.queue, task.channel ≠ name) ∧ (name = .ipc → ¬ s.live .bus)

instance : Decidable (s.Settled name) := inferInstanceAs (Decidable (_ ∧ _))

/-- No open manager is closed, and a websocket ends where its channel is settled. -/
def Careful (s : ReceiverLoop) : Event → Prop
  | .close => s.isOpened_ = true → s.manager.ipcChannel_.isSome = false
  | .closed name => s.connection name = .opened → s.Settled name
  | .failed name => s.connection name = .connecting → s.Settled name
  | _ => True

instance (s : ReceiverLoop) : (e : Event) → Decidable (s.Careful e)
  | .close => inferInstanceAs (Decidable (_ → _))
  | .closed _ => inferInstanceAs (Decidable (_ → _))
  | .failed _ => inferInstanceAs (Decidable (_ → _))
  | .open_ | .setAdditionalData _ | .createMessageBus _ | .setListener _ | .sendTo .. | .runNext
  | .opened _ | .message .. => .isTrue trivial

structure Clean (s : ReceiverLoop) : Prop where
  queue : ∀ task ∈ s.queue, (s.channel task.channel).isSome = true
  live : ∀ name, s.live name → (s.channel name).isSome = true
  manager : s.live .bus → s.manager.messageBusManager_ = true
  ipc : s.manager.messageBusManager_ = true → s.manager.ipcChannel_.isSome = true
  strays : s.strays = []

theorem channel_setChannel (s : ReceiverLoop) (name name' : ChannelName) (c : Option MessageChannel) :
    (s.setChannel name c).channel name' = if name' = name then c else s.channel name' := by
  cases name <;> cases name' <;> rfl

/-- The same objects are there. -/
theorem Clean.same (h : s.Clean)
    (hchannel : ∀ name, (t.channel name).isSome = (s.channel name).isSome)
    (hmanager : t.manager.messageBusManager_ = s.manager.messageBusManager_)
    (hqueue : t.queue = s.queue) (hconnection : t.connection = s.connection)
    (hstrays : t.strays = s.strays) : t.Clean where
  queue task htask := (hchannel _).trans (h.queue task (hqueue ▸ htask))
  live name hlive :=
    (hchannel name).trans (h.live name (by rwa [ReceiverLoop.live, hconnection] at hlive))
  manager hlive := hmanager.trans (h.manager (by rwa [ReceiverLoop.live, hconnection] at hlive))
  ipc hm := (hchannel .ipc).trans (h.ipc (hmanager.symm.trans hm))
  strays := hstrays.trans h.strays

theorem Clean.like {m : FlintReceiverManager} (h : s.Clean) (hlike : s.manager.Like m) :
    ({ s with manager := m } : ReceiverLoop).Clean := by
  refine h.same (fun name => ?_) hlike.1 rfl rfl rfl
  cases name with
  | ipc => exact hlike.2
  | bus => rfl

theorem Clean.setChannel {c : Option MessageChannel} (h : s.Clean)
    (hc : c.isSome = (s.channel name).isSome) : (s.setChannel name c).Clean := by
  refine h.same (fun name' => ?_) ?_ ?_ ?_ ?_
  · rw [channel_setChannel]
    split
    · rename_i heq
      rw [hc, heq]
    · rfl
  all_goals cases name <;> rfl

theorem Clean.post {tasks : List Task} (h : s.Clean) (hname : (s.channel name).isSome = true)
    (htasks : ∀ task ∈ tasks, task.channel = name) :
    Outcome.Ends (s.post tasks name) (fun _ => True) Clean := by
  unfold ReceiverLoop.post
  split
  · exact .error trivial
  · refine .ok ⟨fun task htask => ?_, h.live, h.manager, h.ipc, h.strays⟩
    rcases List.mem_append.mp htask with htask | htask
    · exact h.queue task htask
    · rw [htasks task htask]
      exact hname

theorem Clean.postSent (h : s.Clean) (name : ChannelName) :
    Outcome.Ends (s.postSent name) (fun _ => True) Clean := by
  unfold ReceiverLoop.postSent
  cases hc : s.channel name with
  | none => exact .ok h
  | some c =>
    refine Clean.post (h.setChannel (by rw [hc]; rfl)) ?_ fun task htask => ?_
    · rw [channel_setChannel, if_pos rfl]
      rfl
    · obtain ⟨message, -, rfl⟩ := List.mem_map.mp htask
      rfl

theorem postSent_like (h : s.postSent name = .ok t) : s.manager.Like t.manager := by
  unfold ReceiverLoop.postSent at h
  split at h
  · rw [← Except.ok.inj h]
    exact ⟨rfl, rfl⟩
  · rename_i c hc
    unfold ReceiverLoop.post at h
    split at h
    · cases h
    · rw [← Except.ok.inj h]
      cases name with
      | ipc => exact ⟨rfl, (congrArg Option.isSome hc).symm⟩
      | bus => exact ⟨rfl, rfl⟩

theorem Clean.runTask {task : Task} (h : s.Clean) (htask : (s.channel task.channel).isSome = true) :
    Outcome.Ends (s.runTask task) (fun _ => True) Clean := by
  cases task with
  | sendImpl name message =>
    obtain ⟨c, hc⟩ := Option.isSome_iff_exists.mp htask
    have hc' : s.channel name = some c := hc
    have hset : (s.setChannel name (some (c.sendImpl message).1)).Clean :=
      h.setChannel (by rw [hc']; rfl)
    unfold ReceiverLoop.runTask
    dsimp only
    rw [hc']
    exact .ok (hset.same (fun name' => by cases name' <;> rfl) rfl rfl rfl rfl)
  | closeImpl name =>
    have hsome : (s.channel name).isSome = true := htask
    unfold ReceiverLoop.runTask
    dsimp only
    rw [if_neg (by simp [Option.isNone_iff_eq_none, Option.ne_none_iff_isSome, hsome])]
    split
    · exact .ok h
    · exact .error trivial

theorem Clean.runNext (h : s.Clean) : Outcome.Ends s.runNext (fun _ => True) Clean := by
  unfold ReceiverLoop.runNext
  cases hq : s.queue with
  | nil => exact .ok h
  | cons task queue =>
    have hrest : ({ s with queue } : ReceiverLoop).Clean :=
      ⟨fun task' htask' => h.queue task' (hq ▸ List.mem_cons_of_mem _ htask'), h.live, h.manager, h.ipc,
        h.strays⟩
    exact hrest.runTask (h.queue task (hq ▸ List.mem_cons_self))

/-! ### Calls -/

theorem live_setConnection {c : Connection} :
    (s.setConnection name c).live name' ↔
      if name' = name then c = .connecting ∨ c = .opened else s.live name' := by
  unfold live setConnection
  by_cases heq : name' = name
  · simp [heq]
  · simp [heq, Function.update_of_ne]

/-- The websocket of a channel comes on. -/
theorem Clean.connection (h : s.Clean) (c : Connection) (hname : (s.channel name).isSome = true)
    (hmanager : name = .bus → c = .connecting ∨ c = .opened → s.manager.messageBusManager_ = true) :
    (s.setConnection name c).Clean where
  queue task htask := by
    have hchannel : (s.setConnection name c).channel task.channel = s.channel task.channel := by
      cases task.channel <;> rfl
    rw [hchannel]
    exact h.queue task htask
  live name' hlive := by
    have hchannel : (s.setConnection name c).channel name' = s.channel name' := by cases name' <;> rfl
    rw [hchannel]
    rw [live_setConnection] at hlive
    split at hlive
    · rename_i heq
      rw [heq]
      exact hname
    · exact h.live name' hlive
  manager hlive := by
    rw [live_setConnection] at hlive
    split at hlive
    · rename_i heq
      exact hmanager heq.symm hlive
    · exact h.manager hlive
  ipc := h.ipc
  strays := h.strays

theorem Clean.openChannel (h : s.Clean)
    (hmanager : name = .bus → s.manager.messageBusManager_ = true) :
    (s.openChannel name).Clean := by
  unfold ReceiverLoop.openChannel
  split
  · rename_i hsome
    exact h.connection .connecting hsome fun heq _ => hmanager heq
  · exact h

theorem Clean.open_ (h : s.Clean) : s.open_.Clean := by
  have hopen {t : ReceiverLoop} (ht : t.Clean) :
      ({ t.openChannel .ipc with isOpened_ := true } : ReceiverLoop).Clean := by
    have hipc : (t.openChannel .ipc).Clean := ht.openChannel fun heq => by cases heq
    exact hipc.same (fun name => by cases name <;> rfl) rfl rfl rfl rfl
  unfold ReceiverLoop.open_
  split
  · exact h
  · dsimp only
    split
    · rename_i hbus
      exact hopen (h.openChannel fun _ => hbus.1)
    · exact hopen h

/-- Where there is no channel, a manager is closed without anything to delete. -/
theorem close_none (json : Rapidjson) (hipc : s.manager.ipcChannel_.isSome = false)
    (hmanager : s.manager.messageBusManager_ = false) (hopened : s.isOpened_ = true) :
    s.close json = .ok ({ s with manager := s.manager.unRegisterSelf json } : ReceiverLoop).clear := by
  have hnone : s.manager.ipcChannel_ = none := Option.not_isSome_iff_eq_none.mp (by simp [hipc])
  have hunregister : (s.manager.unRegisterSelf json).ipcChannel_ = none :=
    congrArg (Option.map _) hnone
  have hflag : (s.manager.unRegisterSelf json).messageBusManager_ = false := hmanager
  unfold ReceiverLoop.close postSent closeBusManager closeChannel channel
  rw [if_pos hopened]
  dsimp only
  rw [hunregister, ok_bind, hflag, if_neg (by decide), ok_bind, hunregister, if_neg (by decide),
    ok_bind]

theorem Clean.close (h : s.Clean) (hcareful : s.Careful .close) :
    Outcome.Ends (s.close json) (fun _ => True) Clean := by
  by_cases hopened : s.isOpened_ = true
  · have hipc : s.manager.ipcChannel_.isSome = false := hcareful hopened
    have hmanager : s.manager.messageBusManager_ = false := by
      by_contra hm
      have hsome := h.ipc (by simpa using hm)
      rw [hipc] at hsome
      cases hsome
    rw [close_none json hipc hmanager hopened]
    refine .ok (h.same (fun name => ?_) hmanager.symm rfl rfl rfl)
    cases name with
    | ipc => exact hipc.symm
    | bus => rfl
  · unfold ReceiverLoop.close
    rw [if_neg hopened]
    exact .ok h

theorem Clean.setAdditionalData (h : s.Clean) (data : Bytes) :
    Outcome.Ends (s.setAdditionalData json data) (fun _ => True) Clean :=
  (h.like (FlintReceiverManager.setAdditionalData_like json s.manager data)).postSent .ipc

/-- Something is done to the buses. -/
theorem Clean.buses {m : MessageBusManager} (h : s.Clean)
    (hm : m.messageChannel_.isSome = s.busManager.messageChannel_.isSome) :
    ({ s with busManager := m } : ReceiverLoop).Clean := by
  refine h.same (fun name => ?_) rfl rfl rfl rfl
  cases name with
  | ipc => rfl
  | bus => exact hm

theorem Clean.createMessageBus (h : s.Clean) (ns : Bytes) : (s.createMessageBus ns).Clean := by
  unfold ReceiverLoop.createMessageBus
  split
  · refine h.buses ?_
    unfold MessageBusManager.createMessageBus
    split
    · rfl
    · split <;> rfl
  · exact h

theorem Clean.sendTo (h : s.Clean) (ns message senderId : Bytes) :
    Outcome.Ends (s.sendTo json ns message senderId) (fun _ => True) Clean := by
  unfold ReceiverLoop.sendTo
  split
  · exact .ok h
  · exact (h.buses Option.isSome_map).postSent .bus

/-! ### Websockets -/

theorem Clean.onOpen (h : s.Clean) (hmanager : name = .bus → s.manager.messageBusManager_ = true) :
    Outcome.Ends (s.onOpen json name) (fun _ => True) Clean := by
  cases name with
  | ipc => exact (h.like (FlintReceiverManager.onIpcOpen_like json s.manager)).postSent .ipc
  | bus =>
    have hset : (s.setChannel .bus (s.busManager.messageChannel_.map MessageChannel.onOpen)).Clean :=
      h.setChannel Option.isSome_map
    refine (hset.postSent .bus).bind fun t ht hclean => ?_
    unfold toBusManager
    rw [if_pos ((postSent_like ht).1.trans (hmanager rfl))]
    exact .ok hclean

theorem Clean.onMessage (h : s.Clean) (message : Bytes)
    (hmanager : name = .bus → s.manager.messageBusManager_ = true) :
    Outcome.Ends (s.onMessage json message name) (fun _ => True) Clean := by
  unfold ReceiverLoop.onMessage
  cases name with
  | ipc =>
    dsimp only
    split
    · exact .error trivial
    · rename_i manager hm
      exact (h.like (FlintReceiverManager.onIpcMessage_like hm)).postSent .ipc
  | bus =>
    unfold toBusManager
    dsimp only
    split
    · exact .error trivial
    · exact .ok h
    · rw [if_pos (hmanager rfl)]
      split
      · exact .error trivial
      · exact .ok (h.same (fun name => by cases name <;> rfl) rfl rfl rfl rfl)

/-- The channel of a websocket that ends is deleted, with nothing left that would run on it. -/
theorem Clean.onEnd (h : s.Clean) (hsettled : s.Settled name) (hover : ¬ s.live name)
    (hmanager : name = .bus → s.manager.messageBusManager_ = true) :
    Outcome.Ends (s.onEnd name) (fun _ => True) Clean := by
  obtain ⟨hqueue, hbus⟩ := hsettled
  unfold ReceiverLoop.onEnd
  cases name with
  | ipc =>
    refine .ok ⟨fun task htask => ?_, fun name hlive => ?_, fun hlive => absurd hlive (hbus rfl),
      fun hm => (by cases hm), h.strays⟩
    · have hsome := h.queue task htask
      cases hc : task.channel with
      | ipc => exact absurd hc (hqueue task htask)
      | bus =>
        rw [hc] at hsome
        exact hsome
    · cases name with
      | ipc => exact absurd hlive hover
      | bus => exact absurd hlive (hbus rfl)
  | bus =>
    unfold toBusManager
    dsimp only
    split
    · refine .ok ⟨fun task htask => ?_, fun name hlive => ?_, fun hlive => absurd hlive hover, h.ipc,
        h.strays⟩
      · have hsome := h.queue task htask
        cases hc : task.channel with
        | ipc =>
          rw [hc] at hsome
          exact hsome
        | bus => exact absurd hc (hqueue task htask)
      · cases name with
        | ipc => exact h.live .ipc hlive
        | bus => exact absurd hlive hover
    · rename_i hnot
      exact absurd (hmanager rfl) hnot

/-- A handler runs on a channel that is there. -/
theorem onChannel_some {f : ReceiverLoop → Except Unit ReceiverLoop} {c : Connection}
    (h : (s.channel name).isSome = true) : (s.setConnection name c).onChannel name f =
      f (s.setConnection name c) := by
  have hchannel : (s.setConnection name c).channel name = s.channel name := by cases name <;> rfl
  unfold onChannel
  rw [hchannel, if_pos h]

theorem Clean.ended (h : s.Clean) (hlive : s.live name) (hsettled : s.Settled name) :
    Outcome.Ends ((s.setConnection name .ended).onChannel name fun s => s.onEnd name)
      (fun _ => True) Clean := by
  have hsome := h.live name hlive
  have hover : ¬ (s.setConnection name .ended).live name := by
    rw [live_setConnection, if_pos rfl]
    simp
  rw [onChannel_some hsome]
  refine (h.connection .ended hsome fun _ hc => by simp at hc).onEnd ⟨hsettled.1, fun heq hbus => ?_⟩
    hover fun heq => h.manager (heq ▸ hlive)
  rw [live_setConnection] at hbus
  split at hbus
  · simp at hbus
  · exact hsettled.2 heq hbus

theorem Clean.step (h : s.Clean) {e : Event} (hcareful : s.Careful e) :
    Outcome.Ends (s.step json e) (fun _ => True) Clean := by
  cases e with
  | open_ => exact .ok h.open_
  | close => exact h.close hcareful
  | setAdditionalData data => exact h.setAdditionalData data
  | createMessageBus ns => exact .ok (h.createMessageBus ns)
  | setListener ns => exact .ok (h.buses rfl)
  | sendTo ns message senderId => exact h.sendTo ns message senderId
  | runNext => exact h.runNext
  | opened name =>
    unfold ReceiverLoop.step
    dsimp only
    split
    · rename_i hconnecting
      have hlive : s.live name := .inl hconnecting
      rw [onChannel_some (h.live name hlive)]
      refine Clean.onOpen (h.connection .opened (h.live name hlive) fun heq _ => ?_) fun heq => ?_
      · exact h.manager (heq ▸ hlive)
      · exact h.manager (heq ▸ hlive)
    · exact .ok h
  | message name message =>
    unfold ReceiverLoop.step
    dsimp only
    split
    · rename_i hopened
      have hlive : s.live name := .inr hopened
      unfold onChannel
      rw [if_pos (h.live name hlive)]
      exact h.onMessage message fun heq => h.manager (heq ▸ hlive)
    · exact .ok h
  | closed name =>
    unfold ReceiverLoop.step
    dsimp only
    split
    · rename_i hopened
      exact h.ended (.inr hopened) (hcareful hopened)
    · exact .ok h
  | failed name =>
    unfold ReceiverLoop.step
    dsimp only
    split
    · rename_i hconnecting
      exact h.ended (.inl hconnecting) (hcareful hconnecting)
    · exact .ok h

theorem start_clean (appId : Bytes) : (start appId).Clean where
  queue _ htask := nomatch htask
  live name hlive := by cases name <;> rfl
  manager _ := rfl
  ipc _ := rfl
  strays := rfl

/-! ### A manager that is closed -/

def handedOn (s : ReceiverLoop) (name : ChannelName) : List Bytes :=
  (s.handed.filter (·.1 = name)).map (·.2)

/-- No object is there again, and no websocket is over. What is posted stays posted, and nothing of
it went to a websocket. -/
structure Quiet (s t : ReceiverLoop) : Prop where
  handed : t.handed = s.handed
  channel : ∀ name, s.channel name = none → t.channel name = none
  manager : s.manager.messageBusManager_ = false → t.manager.messageBusManager_ = false
  live : ∀ name, s.live name → t.live name
  queue : ∀ task ∈ s.queue, task ∈ t.queue
  strays : s.strays ≠ [] → t.strays ≠ []

theorem Quiet.rfl (s : ReceiverLoop) : s.Quiet s :=
  ⟨Eq.refl _, fun _ => id, id, fun _ => id, fun _ => id, id⟩

theorem Quiet.trans {u : ReceiverLoop} (h : s.Quiet t) (h' : t.Quiet u) : s.Quiet u where
  handed := h'.handed.trans h.handed
  channel name hnone := h'.channel name (h.channel name hnone)
  manager hnone := h'.manager (h.manager hnone)
  live name hlive := h'.live name (h.live name hlive)
  queue task htask := h'.queue task (h.queue task htask)
  strays hstrays := h'.strays (h.strays hstrays)

theorem Quiet.bind {x : Except Unit ReceiverLoop} {f : ReceiverLoop → Except Unit ReceiverLoop}
    (h : Outcome.Ends x (fun _ => True) (Quiet s))
    (hf : ∀ t, Outcome.Ends (f t) (fun _ => True) (Quiet t)) :
    Outcome.Ends (x >>= f) (fun _ => True) (Quiet s) :=
  h.bind fun t _ ht => (hf t).mono (fun _ => id) fun _ hu => ht.trans hu

theorem Quiet.before {x : Except Unit ReceiverLoop} (h : s.Quiet t)
    (hx : Outcome.Ends x (fun _ => True) (Quiet t)) :
    Outcome.Ends x (fun _ => True) (Quiet s) :=
  hx.mono (fun _ => id) fun _ hu => h.trans hu

theorem stray_quiet (s : ReceiverLoop) (part : Part) : s.Quiet (s.stray part) :=
  ⟨Eq.refl _, fun name hnone => by cases name <;> exact hnone, id, fun _ => id, fun _ => id,
    fun _ => by simp [stray]⟩

theorem like_quiet {m : FlintReceiverManager} (hlike : s.manager.Like m) :
    s.Quiet { s with manager := m } := by
  refine ⟨Eq.refl _, fun name hnone => ?_, fun hm => hlike.1.trans hm, fun _ => id, fun _ => id, id⟩
  cases name with
  | ipc =>
    have hsome := hlike.2
    rw [show s.manager.ipcChannel_ = none from hnone] at hsome
    change m.ipcChannel_ = none
    simpa using hsome
  | bus => exact hnone

/-- Something is done to the buses. -/
theorem buses_quiet {m : MessageBusManager}
    (hm : s.busManager.messageChannel_ = none → m.messageChannel_ = none) :
    s.Quiet { s with busManager := m } := by
  refine ⟨Eq.refl _, fun name hnone => ?_, id, fun _ => id, fun _ => id, id⟩
  cases name with
  | ipc => exact hnone
  | bus => exact hm hnone

theorem setChannel_quiet {c : Option MessageChannel} (hc : s.channel name = none → c = none) :
    s.Quiet (s.setChannel name c) := by
  refine ⟨by cases name <;> exact Eq.refl _, fun name' hnone => ?_, by cases name <;> exact id,
    by cases name <;> exact fun _ => id, by cases name <;> exact fun _ => id,
    by cases name <;> exact id⟩
  rw [channel_setChannel]
  split
  · rename_i heq
    exact hc (heq ▸ hnone)
  · exact hnone

theorem post_quiet (s : ReceiverLoop) (tasks : List Task) (name : ChannelName) :
    Outcome.Ends (s.post tasks name) (fun _ => True) fun t =>
      s.Quiet t ∧ ∀ task ∈ tasks, task ∈ t.queue := by
  unfold ReceiverLoop.post
  split
  · exact .error trivial
  · refine .ok ⟨⟨Eq.refl _, fun name hnone => by cases name <;> exact hnone, id, fun _ => id, ?_, id⟩,
      ?_⟩
    · exact fun task htask => List.mem_append_left _ htask
    · exact fun task htask => List.mem_append_right _ htask

theorem postSent_quiet (s : ReceiverLoop) (name : ChannelName) :
    Outcome.Ends (s.postSent name) (fun _ => True) (Quiet s) := by
  unfold ReceiverLoop.postSent
  cases hc : s.channel name with
  | none => exact .ok (.rfl s)
  | some c =>
    have hset : s.Quiet (s.setChannel name (some { c with posted := [] })) :=
      setChannel_quiet fun hnone => by simp [hc] at hnone
    exact hset.before ((post_quiet _ _ _).mono (fun _ => id) fun _ ht => ht.1)

theorem closeChannel_quiet (s : ReceiverLoop) (name : ChannelName) :
    Outcome.Ends (s.closeChannel name) (fun _ => True) fun t =>
      s.Quiet t ∧ ((s.channel name).isSome = true → .closeImpl name ∈ t.queue) := by
  unfold closeChannel
  split
  · exact (post_quiet s _ name).mono (fun _ => id) fun t ht =>
      ⟨ht.1, fun _ => ht.2 _ List.mem_cons_self⟩
  · rename_i hnot
    exact .ok ⟨.rfl s, fun hsome => absurd hsome hnot⟩

theorem closeBusManager_quiet (s : ReceiverLoop) :
    Outcome.Ends s.closeBusManager (fun _ => True) fun t =>
      s.Quiet t ∧ t.manager.ipcChannel_ = s.manager.ipcChannel_ := by
  unfold closeBusManager
  split
  · refine (closeChannel_quiet s .bus).bind fun t ht hquiet => .ok ⟨?_, ?_⟩
    · exact hquiet.1.trans (buses_quiet fun _ => Eq.refl _)
    · unfold closeChannel ReceiverLoop.post at ht
      split at ht
      · split at ht
        · cases ht
        · rw [← Except.ok.inj ht]
      · rw [← Except.ok.inj ht]
  · exact .ok ⟨.rfl s, Eq.refl _⟩

theorem clear_quiet (s : ReceiverLoop) : s.Quiet s.clear := by
  refine ⟨Eq.refl _, fun name hnone => ?_, fun _ => Eq.refl _, fun _ => id, fun _ => id, id⟩
  cases name with
  | ipc => exact Eq.refl _
  | bus => exact hnone

/-- An open manager has no channel to the daemon once it is closed, and the task to close that is
left. -/
theorem close_quiet (json : Rapidjson) (s : ReceiverLoop) :
    Outcome.Ends (s.close json) (fun _ => True) fun t => s.Quiet t ∧ (s.isOpened_ = true →
      t.channel .ipc = none ∧ ((s.channel .ipc).isSome = true → .closeImpl .ipc ∈ t.queue)) := by
  unfold ReceiverLoop.close
  split
  · have hlike : s.manager.Like (s.manager.unRegisterSelf json) :=
      FlintReceiverManager.ipcSend_like s.manager _
    refine ((like_quiet hlike).before (postSent_quiet _ .ipc)).bind fun t hsent ht => ?_
    refine (closeBusManager_quiet t).bind fun u _ hu => ?_
    refine (closeChannel_quiet u .ipc).bind fun v _ hv => ?_
    refine .ok ⟨?_, fun _ => ⟨Eq.refl _, fun hsome => ?_⟩⟩
    · exact ht.trans (hu.1.trans (hv.1.trans (clear_quiet v)))
    · refine hv.2 ?_
      calc (u.channel .ipc).isSome = t.manager.ipcChannel_.isSome := congrArg Option.isSome hu.2
        _ = (s.channel .ipc).isSome := (hlike.trans (postSent_like hsent)).2
        _ = true := hsome
  · rename_i hnot
    exact .ok ⟨.rfl s, fun hopened => absurd hopened hnot⟩

theorem toBusManager_quiet {f : ReceiverLoop → Except Unit ReceiverLoop}
    (hf : Outcome.Ends (f s) (fun _ => True) (Quiet s)) :
    Outcome.Ends (s.toBusManager f) (fun _ => True) (Quiet s) := by
  unfold toBusManager
  split
  · exact hf
  · exact .ok (stray_quiet s _)

theorem onChannel_quiet {f : ReceiverLoop → Except Unit ReceiverLoop}
    (hf : Outcome.Ends (f s) (fun _ => True) (Quiet s)) :
    Outcome.Ends (s.onChannel name f) (fun _ => True) (Quiet s) := by
  unfold onChannel
  split
  · exact hf
  · exact .ok (stray_quiet s _)

/-- The websocket of a channel comes on. -/
theorem connection_quiet {c : Connection} (hc : c = .connecting ∨ c = .opened) :
    s.Quiet (s.setConnection name c) := by
  refine ⟨Eq.refl _, fun name hnone => by cases name <;> exact hnone, id, fun name' hlive => ?_,
    fun _ => id, id⟩
  rw [live_setConnection]
  split
  · exact hc
  · exact hlive

theorem openChannel_quiet (s : ReceiverLoop) (name : ChannelName) :
    s.Quiet (s.openChannel name) := by
  unfold ReceiverLoop.openChannel
  split
  · exact connection_quiet (.inl (Eq.refl _))
  · exact .rfl s

theorem open_quiet (s : ReceiverLoop) : s.Quiet s.open_ := by
  have hopened (t : ReceiverLoop) : t.Quiet { t with isOpened_ := true } :=
    ⟨Eq.refl _, fun name hnone => by cases name <;> exact hnone, id, fun _ => id, fun _ => id, id⟩
  unfold ReceiverLoop.open_
  split
  · exact .rfl s
  · dsimp only
    split
    · exact (openChannel_quiet s .bus).trans ((openChannel_quiet _ .ipc).trans (hopened _))
    · exact (openChannel_quiet s .ipc).trans (hopened _)

theorem onOpen_quiet (json : Rapidjson) (s : ReceiverLoop) (name : ChannelName) :
    Outcome.Ends (s.onOpen json name) (fun _ => True) (Quiet s) := by
  cases name with
  | ipc =>
    exact (like_quiet (FlintReceiverManager.onIpcOpen_like json s.manager)).before
      (postSent_quiet _ .ipc)
  | bus =>
    have hset : s.Quiet (s.setChannel .bus (s.busManager.messageChannel_.map MessageChannel.onOpen)) :=
      setChannel_quiet fun hnone => congrArg (Option.map MessageChannel.onOpen) hnone
    refine Quiet.bind (hset.before (postSent_quiet _ .bus)) fun t => ?_
    exact toBusManager_quiet (.ok (.rfl t))

theorem onMessage_quiet (json : Rapidjson) (s : ReceiverLoop) (message : Bytes) (name : ChannelName) :
    Outcome.Ends (s.onMessage json message name) (fun _ => True) (Quiet s) := by
  unfold ReceiverLoop.onMessage
  cases name with
  | ipc =>
    dsimp only
    split
    · exact .error trivial
    · rename_i manager hm
      exact (like_quiet (FlintReceiverManager.onIpcMessage_like hm)).before (postSent_quiet _ .ipc)
  | bus =>
    dsimp only
    split
    · exact .error trivial
    · exact .ok (.rfl s)
    · refine toBusManager_quiet ?_
      split
      · exact .error trivial
      · exact .ok ⟨Eq.refl _, fun name hnone => by cases name <;> exact hnone, id, fun _ => id,
          fun _ => id, id⟩

theorem onEnd_quiet (s : ReceiverLoop) (name : ChannelName) :
    Outcome.Ends (s.onEnd name) (fun _ => True) (Quiet s) := by
  cases name with
  | ipc => exact .ok (clear_quiet s)
  | bus =>
    have hset : s.Quiet
        (s.setChannel .bus (s.busManager.messageChannel_.map fun c => { c with opened_ := false })) :=
      setChannel_quiet fun hnone => congrArg (Option.map _) hnone
    unfold ReceiverLoop.onEnd
    exact hset.before (toBusManager_quiet (.ok (buses_quiet fun _ => Eq.refl _)))

def ends (s : ReceiverLoop) : Event → Option ChannelName
  | .closed name => if s.connection name = .opened then some name else none
  | .failed name => if s.connection name = .connecting then some name else none
  | _ => none

theorem step_ends {e : Event} (h : s.ends e = some name) :
    s.step json e = (s.setConnection name .ended).onChannel name fun s => s.onEnd name := by
  unfold ends at h
  unfold ReceiverLoop.step
  split at h
  · split at h
    · rename_i hopened
      cases h
      exact if_pos hopened
    · cases h
  · split at h
    · rename_i hconnecting
      cases h
      exact if_pos hconnecting
    · cases h
  · cases h

/-- Only the tasks of the `io_service` hand something on. -/
theorem step_quiet (json : Rapidjson) (s : ReceiverLoop) {e : Event} (he : e ≠ .runNext)
    (hends : s.ends e = none) : Outcome.Ends (s.step json e) (fun _ => True) (Quiet s) := by
  cases e with
  | open_ => exact .ok (open_quiet s)
  | close => exact (close_quiet json s).mono (fun _ => id) fun t ht => ht.1
  | setAdditionalData data =>
    exact (like_quiet (FlintReceiverManager.setAdditionalData_like json s.manager data)).before
      (postSent_quiet _ .ipc)
  | createMessageBus ns =>
    change Outcome.Ends (.ok (s.createMessageBus ns)) _ _
    unfold ReceiverLoop.createMessageBus
    split
    · refine .ok (buses_quiet fun hnone => ?_)
      unfold MessageBusManager.createMessageBus
      split
      · exact hnone
      · split <;> exact hnone
    · exact .ok (.rfl s)
  | setListener ns => exact .ok (buses_quiet id)
  | sendTo ns message senderId =>
    change Outcome.Ends (s.sendTo json ns message senderId) _ _
    unfold ReceiverLoop.sendTo
    split
    · exact .ok (.rfl s)
    · have hsent (bus : ReceiverMessageBus) :
          s.Quiet { s with busManager := s.busManager.sendTo json bus message senderId } :=
        buses_quiet fun hnone => congrArg (Option.map _) hnone
      exact (hsent _).before (postSent_quiet _ .bus)
  | runNext => exact absurd rfl he
  | opened name =>
    unfold ReceiverLoop.step
    dsimp only
    split
    · exact (connection_quiet (.inr (Eq.refl _))).before (onChannel_quiet (onOpen_quiet json _ name))
    · exact .ok (.rfl s)
  | message name message =>
    unfold ReceiverLoop.step
    dsimp only
    split
    · exact onChannel_quiet (onMessage_quiet json s message name)
    · exact .ok (.rfl s)
  | closed name =>
    unfold ReceiverLoop.step
    dsimp only
    split
    · rename_i hopened
      rw [ends, if_pos hopened] at hends
      cases hends
    · exact .ok (.rfl s)
  | failed name =>
    unfold ReceiverLoop.step
    dsimp only
    split
    · rename_i hconnecting
      rw [ends, if_pos hconnecting] at hends
      cases hends
    · exact .ok (.rfl s)

/-- Where a websocket is over, everything else is as in a quiet step. -/
theorem ended_quiet (s : ReceiverLoop) (name : ChannelName) :
    Outcome.Ends ((s.setConnection name .ended).onChannel name fun s => s.onEnd name)
      (fun _ => True) (Quiet (s.setConnection name .ended)) :=
  onChannel_quiet (onEnd_quiet _ name)

theorem runTask_handedOn (s : ReceiverLoop) (hgone : s.manager.ipcChannel_ = none) (task : Task) :
    Outcome.Ends (s.runTask task) (fun _ => True) fun t =>
      t.manager.ipcChannel_ = none ∧ t.handedOn .ipc = s.handedOn .ipc := by
  cases task with
  | sendImpl name message =>
    unfold ReceiverLoop.runTask
    dsimp only
    cases name with
    | ipc =>
      rw [channel, hgone]
      exact .ok ⟨hgone, rfl⟩
    | bus =>
      cases s.channel .bus with
      | none => exact .ok ⟨hgone, rfl⟩
      | some c =>
        refine .ok ⟨hgone, ?_⟩
        unfold handedOn
        dsimp only
        rw [List.filter_append, List.filter_map]
        simp
  | closeImpl name =>
    unfold ReceiverLoop.runTask
    dsimp only
    split
    · exact .ok ⟨hgone, rfl⟩
    · split
      · exact .ok ⟨hgone, rfl⟩
      · exact .error trivial

/-- The channel to the daemon is gone, and its websocket gets nothing any more. -/
theorem step_mute (json : Rapidjson) (hgone : s.manager.ipcChannel_ = none) (e : Event) :
    Outcome.Ends (s.step json e) (fun _ => True) fun t =>
      t.manager.ipcChannel_ = none ∧ t.handedOn .ipc = s.handedOn .ipc := by
  have hquiet {t u : ReceiverLoop} (ht : t.manager.ipcChannel_ = none)
      (hhanded : t.handed = s.handed) (h : t.Quiet u) :
      u.manager.ipcChannel_ = none ∧ u.handedOn .ipc = s.handedOn .ipc :=
    ⟨h.channel .ipc ht, by rw [handedOn, h.handed, hhanded, handedOn]⟩
  by_cases he : e = .runNext
  · subst he
    change Outcome.Ends s.runNext _ _
    unfold ReceiverLoop.runNext
    cases s.queue with
    | nil => exact .ok ⟨hgone, rfl⟩
    | cons task queue => exact runTask_handedOn { s with queue } hgone task
  · cases hends : s.ends e with
    | none => exact (step_quiet json s he hends).mono (fun _ => id) fun t ht => hquiet hgone rfl ht
    | some name =>
      rw [step_ends hends]
      exact (ended_quiet s name).mono (fun _ => id) fun t ht =>
        hquiet (t := s.setConnection name .ended) hgone rfl ht

/-! ### What a careless event leaves -/

/-- Something ran on a deleted object, or it will where the tasks are run and the websockets end. -/
inductive Doomed (s : ReceiverLoop) : Prop where
  | stray (h : s.strays ≠ [])
  | task (task : Task) (htask : task ∈ s.queue) (h : s.channel task.channel = none)
  | bus (hlive : s.live .bus) (h : s.manager.messageBusManager_ = false)

theorem Doomed.quiet (h : s.Doomed) (hquiet : s.Quiet t) : t.Doomed := by
  cases h with
  | stray h => exact .stray (hquiet.strays h)
  | task task htask h => exact .task task (hquiet.queue task htask) (hquiet.channel _ h)
  | bus hlive h => exact .bus (hquiet.live .bus hlive) (hquiet.manager h)

/-- A task is run, and the others and what is gone stay as they were. -/
theorem runTask_frame (s : ReceiverLoop) (task : Task) :
    Outcome.Ends (s.runTask task) (fun _ => True) fun t =>
      (∀ name, s.channel name = none → t.channel name = none) ∧ t.queue = s.queue ∧
      t.connection = s.connection ∧
      t.manager.messageBusManager_ = s.manager.messageBusManager_ ∧
      (s.strays ≠ [] → t.strays ≠ []) ∧ (s.channel task.channel = none → t.strays ≠ []) := by
  have hstray (name : ChannelName) :
      (∀ name', s.channel name' = none → (s.stray (.channel name)).channel name' = none) ∧
        (s.stray (.channel name)).strays ≠ [] :=
    ⟨fun name' hnone => by cases name' <;> exact hnone, by simp [stray]⟩
  cases task with
  | sendImpl name message =>
    unfold ReceiverLoop.runTask
    dsimp only
    cases hc : s.channel name with
    | none =>
      exact .ok ⟨(hstray name).1, rfl, rfl, rfl, fun _ => (hstray name).2, fun _ => (hstray name).2⟩
    | some c =>
      have hset : s.Quiet (s.setChannel name (some (c.sendImpl message).1)) :=
        setChannel_quiet fun hnone => by simp [hc] at hnone
      have hgone (hnone : s.channel name = none) : False := by simp [hc] at hnone
      refine .ok ⟨fun name' hnone => ?_, ?_, ?_, ?_, ?_, fun hnone => (hgone hnone).elim⟩
      · have hchannel := hset.channel name' hnone
        cases name' <;> exact hchannel
      all_goals cases name
      all_goals first | exact rfl | exact id
  | closeImpl name =>
    unfold ReceiverLoop.runTask
    dsimp only
    split
    · exact .ok ⟨(hstray name).1, rfl, rfl, rfl, fun _ => (hstray name).2, fun _ => (hstray name).2⟩
    · rename_i hsome
      split
      · refine .ok ⟨fun _ => id, rfl, rfl, rfl, id, fun hnone => absurd ?_ hsome⟩
        exact Option.isNone_iff_eq_none.mpr hnone
      · exact .error trivial

theorem Doomed.runNext (h : s.Doomed) : Outcome.Ends s.runNext (fun _ => True) Doomed := by
  unfold ReceiverLoop.runNext
  cases hq : s.queue with
  | nil => exact .ok h
  | cons task queue =>
    refine (runTask_frame { s with queue } task).mono (fun _ => id) ?_
    intro t ⟨hchannel, hqueue, hconnection, hmanager, hstrays, hgone⟩
    have hkeeps (name : ChannelName) (hnone : s.channel name = none) : t.channel name = none :=
      hchannel name (by cases name <;> exact hnone)
    cases h with
    | stray h => exact .stray (hstrays h)
    | task task' htask h =>
      rcases List.mem_cons.mp (hq ▸ htask) with rfl | htask
      · refine .stray (hgone ?_)
        cases hc : task'.channel <;> rw [hc] at h <;> exact h
      · exact .task task' (hqueue ▸ htask) (hkeeps _ h)
    | bus hlive h => exact .bus (by rwa [live, hconnection]) (hmanager.trans h)

/-- The websocket of the buses ends, and there is nothing that it could tell. -/
theorem ended_stray (hmanager : s.manager.messageBusManager_ = false) :
    Outcome.Ends ((s.setConnection .bus .ended).onChannel .bus fun s => s.onEnd .bus)
      (fun _ => True) fun t => t.strays ≠ [] := by
  unfold onChannel
  split
  · unfold ReceiverLoop.onEnd toBusManager
    have hnot : ¬ ((s.setConnection .bus .ended).setChannel .bus
        ((s.setConnection .bus .ended).busManager.messageChannel_.map fun c =>
          { c with opened_ := false })).manager.messageBusManager_ = true := by
      simpa [setChannel, setConnection] using hmanager
    dsimp only
    rw [if_neg hnot]
    exact .ok (by simp [stray])
  · exact .ok (by simp [stray])

theorem Doomed.ended (h : s.Doomed) (name : ChannelName) :
    Outcome.Ends ((s.setConnection name .ended).onChannel name fun s => s.onEnd name)
      (fun _ => True) Doomed := by
  have hset {t : ReceiverLoop} (hdoomed : (s.setConnection name .ended).Doomed)
      (ht : (s.setConnection name .ended).Quiet t) : t.Doomed := hdoomed.quiet ht
  cases h with
  | stray h => exact (ended_quiet s name).mono (fun _ => id) fun t => hset (.stray h)
  | task task htask h =>
    refine (ended_quiet s name).mono (fun _ => id) fun t => hset (.task task htask ?_)
    cases hc : task.channel <;> rw [hc] at h <;> exact h
  | bus hlive h =>
    cases name with
    | ipc =>
      refine (ended_quiet s .ipc).mono (fun _ => id) fun t => hset (.bus ?_ h)
      rw [live_setConnection]
      exact hlive
    | bus => exact (ended_stray h).mono (fun _ => id) fun t => .stray

theorem Doomed.step (h : s.Doomed) (json : Rapidjson) (e : Event) :
    Outcome.Ends (s.step json e) (fun _ => True) Doomed := by
  by_cases he : e = .runNext
  · subst he
    exact h.runNext
  · cases hends : s.ends e with
    | none => exact (step_quiet json s he hends).mono (fun _ => id) fun t => h.quiet
    | some name =>
      rw [step_ends hends]
      exact h.ended name

/-- The channel of a websocket that is over is deleted, unless something ran on a deleted object. -/
theorem ended_gone (s : ReceiverLoop) (name : ChannelName) :
    Outcome.Ends ((s.setConnection name .ended).onChannel name fun s => s.onEnd name)
      (fun _ => True) fun t =>
      t.strays ≠ [] ∨ t.channel name = none ∧
        (name = .ipc → t.manager.messageBusManager_ = false) := by
  unfold onChannel
  split
  · cases name with
    | ipc => exact .ok (.inr ⟨rfl, fun _ => rfl⟩)
    | bus =>
      unfold ReceiverLoop.onEnd toBusManager
      dsimp only
      split
      · exact .ok (.inr ⟨rfl, fun heq => by cases heq⟩)
      · exact .ok (.inl (by simp [stray]))
  · exact .ok (.inl (by simp [stray]))

theorem ended_doomed (h : ¬ s.Settled name) :
    Outcome.Ends ((s.setConnection name .ended).onChannel name fun s => s.onEnd name)
      (fun _ => True) Doomed := by
  generalize hx : ((s.setConnection name .ended).onChannel name fun s => s.onEnd name) = x
  cases x with
  | error => exact .error trivial
  | ok t =>
    have hquiet : (s.setConnection name .ended).Quiet t := (ended_quiet s name).of_ok hx
    refine .ok ?_
    rcases (ended_gone s name).of_ok hx with hstrays | ⟨hchannel, hmanager⟩
    · exact .stray hstrays
    · unfold Settled at h
      rw [not_and_or] at h
      rcases h with hqueue | hbus
      · push Not at hqueue
        obtain ⟨task, htask, rfl⟩ := hqueue
        exact .task task (hquiet.queue task htask) hchannel
      · push Not at hbus
        obtain ⟨rfl, hlive⟩ := hbus
        refine .bus (hquiet.live .bus ?_) (hmanager rfl)
        rw [live_setConnection]
        exact hlive

/-- An event that is not careful leaves something that runs on a deleted object. -/
theorem careless_doomed (json : Rapidjson) {e : Event} (h : ¬ s.Careful e) :
    Outcome.Ends (s.step json e) (fun _ => True) Doomed := by
  cases e with
  | close =>
    unfold Careful at h
    push Not at h
    obtain ⟨hopened, hsome⟩ := h
    have hipc : (s.channel .ipc).isSome = true := Bool.eq_true_of_not_eq_false hsome
    refine (close_quiet json s).mono (fun _ => id) fun t ht => ?_
    exact .task _ ((ht.2 hopened).2 hipc) (ht.2 hopened).1
  | closed name =>
    unfold Careful at h
    push Not at h
    have hends : s.ends (.closed name) = some name := if_pos h.1
    rw [step_ends hends]
    exact ended_doomed h.2
  | failed name =>
    unfold Careful at h
    push Not at h
    have hends : s.ends (.failed name) = some name := if_pos h.1
    rw [step_ends hends]
    exact ended_doomed h.2
  | _ => exact absurd trivial h

/-! ### Runs -/

def AtRest (s : ReceiverLoop) : Prop := s.queue = [] ∧ ∀ name, ¬ s.live name

theorem Doomed.strays_ne_nil (h : s.Doomed) (hrest : s.AtRest) : s.strays ≠ [] := by
  cases h with
  | stray h => exact h
  | task task htask h =>
    rw [hrest.1] at htask
    cases htask
  | bus hlive h => exact absurd hlive (hrest.2 .bus)

theorem run_mute (json : Rapidjson) (hgone : s.manager.ipcChannel_ = none) {es : List Event}
    (hrun : s.run json es = .ok t) :
    t.manager.ipcChannel_ = none ∧ t.handedOn .ipc = s.handedOn .ipc := by
  refine (Outcome.Ends.foldlM
    (I := fun t => t.manager.ipcChannel_ = none ∧ t.handedOn .ipc = s.handedOn .ipc)
    (F := fun _ => True) (fun u e _ hu => ?_) ⟨hgone, rfl⟩).of_ok hrun
  exact (step_mute json hu.1 e).mono (fun _ => id) fun v hv => ⟨hv.1, hv.2.trans hu.2⟩

/-- Nothing runs on a deleted object in a careful run, and something does in any other run that comes
to rest. Nothing goes to the daemon from an open manager once it is closed, also not the last
message. -/
theorem shutdown_clean (json : Rapidjson) (appId : Bytes) {es : List Event}
    (hrun : (start appId).run json es = .ok s) :
    (Meets (step json) Careful (start appId) es → s.strays = []) ∧
    (s.AtRest → s.strays = [] → Meets (step json) Careful (start appId) es) ∧
    (s.isOpened_ = true → ∀ fs t, s.run json (.close :: fs) = .ok t →
      t.manager.ipcChannel_ = none ∧ t.handedOn .ipc = s.handedOn .ipc) := by
  refine ⟨fun hes => ?_, fun hrest hstrays => ?_, fun hopened fs t hclosed => ?_⟩
  · have hclean : s.Clean := (hes.ends (F := fun _ => True) (fun s e hs he => hs.step he)
      (start_clean appId)).of_ok hrun
    exact hclean.strays
  · have hfine : ¬ s.Doomed := fun hdoomed => hdoomed.strays_ne_nil hrest hstrays
    exact Meets.of_run (fun s e => careless_doomed json) (fun s e hs => hs.step json e) hrun hfine
  · obtain ⟨u, hu, hfs⟩ := bind_eq_ok.mp (List.foldlM_cons.symm.trans hclosed)
    obtain ⟨hquiet, hgone⟩ := (close_quiet json s).of_ok hu
    obtain ⟨hend, hhanded⟩ := run_mute json (hgone hopened).1 hfs
    exact ⟨hend, hhanded.trans (by rw [handedOn, hquiet.handed, handedOn])⟩

def running (es : List Event) : Except Unit ReceiverLoop := (start (str "app")).run .compact es

def toDaemon (type : String) : Bytes :=
  Json.write ((FlintReceiverManager.new (str "app")).typed type [])

/-- The daemon has the name of the receiver, and closes the connection after that of the buses. -/
def ended : List Event := [.open_, .opened .bus, .opened .ipc, .runNext, .closed .bus, .closed .ipc]

theorem shutdown_clean_ended : ∃ s, running ended = .ok s ∧ s.strays = [] ∧
    Meets (step .compact) Careful (start (str "app")) ended := by
  obtain ⟨s, hs, htest⟩ := yields_iff.mp (show yields (running ended) (fun s => s.queue = [] ∧
    ¬ s.live .ipc ∧ ¬ s.live .bus) = true by decide +kernel)
  obtain ⟨hqueue, hipc, hbus⟩ := of_decide_eq_true htest
  have hrest : s.AtRest := ⟨hqueue, fun name => by cases name <;> assumption⟩
  have hmeets : Meets (step .compact) Careful (start (str "app")) ended := by decide +kernel
  have hstrays := (shutdown_clean .compact (str "app") hs).1 hmeets
  exact ⟨s, hs, hstrays, (shutdown_clean .compact (str "app") hs).2.1 hrest hstrays⟩

def shut : List Event := [.open_, .opened .ipc, .runNext, .close, .runNext, .runNext, .runNext]

/-- The messages and the closing of the channels are tasks of what was deleted. The same holds of what
is sent before the daemon closes the connection, and the websocket of the buses tells a manager that
is deleted. -/
theorem shut_strays :
    (∃ s, running shut = .ok s ∧ s.strays = [.channel .ipc, .channel .bus, .channel .ipc] ∧
      s.handedOn .ipc = [toDaemon "register"]) ∧
    (∃ s, running [.open_, .opened .ipc, .closed .ipc, .runNext] = .ok s ∧
      s.strays = [.channel .ipc]) ∧
    ∃ s, running [.open_, .failed .ipc, .opened .bus] = .ok s ∧ s.strays = [.messageBusManager] := by
  refine ⟨?_, ?_, ?_⟩
  · obtain ⟨s, hs, htest⟩ := yields_iff.mp (show yields (running shut) (fun s =>
      s.strays = [.channel .ipc, .channel .bus, .channel .ipc] ∧
      s.handedOn .ipc = [toDaemon "register"]) = true by decide +kernel)
    exact ⟨s, hs, of_decide_eq_true htest⟩
  · obtain ⟨s, hs, htest⟩ := yields_iff.mp (show yields (running [.open_, .opened .ipc, .closed .ipc,
      .runNext]) (fun s => s.strays = [.channel .ipc]) = true by decide +kernel)
    exact ⟨s, hs, of_decide_eq_true htest⟩
  · obtain ⟨s, hs, htest⟩ := yields_iff.mp (show yields (running [.open_, .failed .ipc, .opened .bus])
      (fun s => s.strays = [.messageBusManager]) = true by decide +kernel)
    exact ⟨s, hs, of_decide_eq_true htest⟩

end ReceiverLoop
end Flingd.Sdk
