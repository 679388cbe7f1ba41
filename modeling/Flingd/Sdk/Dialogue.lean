import Flingd.App.Phases
import Flingd.App.ReceiverText
import Flingd.Sdk.FlintReceiverManager

/-! A receiver and the daemon: the SDK on one side, the handler of its application on the other,
and the texts on the way between them. -/
namespace Flingd.Sdk
open App Outcome FlintReceiverManager Json
variable (json : Rapidjson)

inductive Request where
  | register
  | unregister
  | additionaldata (members : List (Bytes × Bytes))
  | heartbeat (type : Bytes)

namespace Request

def type : Request → String
  | .register => "register"
  | .unregister => "unregister"
  | .additionaldata _ => "additionaldata"
  | .heartbeat _ => "heartbeat"

def more : Request → List (Bytes × Json Bytes)
  | .register => []
  | .unregister => []
  | .additionaldata members =>
    [(str "additionaldata", .object (members.map fun m => (cStr m.1, .text m.2)))]
  | .heartbeat type => [(str "heartbeat", .text type)]

def members (appId : Bytes) (q : Request) : List (Bytes × Json Bytes) :=
  (str "type", .text (str q.type)) :: (str "appid", .text appId) :: q.more

def isHeartbeat : Request → Bool
  | .heartbeat _ => true
  | _ => false

def dataStr (members : List (Bytes × Bytes)) : Bytes :=
  members.flatMap fun m =>
    str "<" ++ cStr m.1 ++ str ">" ++ cStr m.2 ++ str "</" ++ cStr m.1 ++ str ">"

def data : Request → Option Bytes
  | .additionaldata members => some (dataStr members)
  | _ => none

/-- The action that is asked for. A heartbeat is answered, and does nothing else. -/
def perform (s : Daemon) (handler app : Nat) (appId uuid : Bytes) :
    Request → Except Fault Daemon
  | .register => s.register handler app appId uuid
  | .unregister => s.stopAndClose handler appId
  | .additionaldata members => do
    let m ← s.manager.update app fun a => { a with additionalData := dataStr members }
    .ok { s with manager := m }
  | .heartbeat type =>
    if type = str "ping" then s.send handler (.heartbeat (str "pong")) else .ok s

end Request

/-! ### The two parties -/

/-- `ip` is the address of the device at present. -/
structure Dialogue where
  daemon : Daemon
  handler : Nat
  ip : Bytes
  uuid : Bytes
  deviceName : Bytes
  cacheIp_ : Bytes
  sdk : FlintReceiverManager
  toDaemon : List Bytes
  toReceiver : List Bytes

namespace Dialogue

def start (daemon : Daemon) (handler : Nat) (ip uuid deviceName appId : Bytes) : Dialogue :=
  ⟨daemon, handler, ip, uuid, deviceName, [], .new appId, [], []⟩

def news (old new : Option ReceiverApplicationHandler) : List Frame :=
  ((new.map (·.sent)).getD []).drop ((old.map (·.sent)).getD []).length

def become (t : Dialogue) (d : Daemon) : Dialogue :=
  let frames := news (t.daemon.handlers t.handler) (d.handlers t.handler)
  let appId := ((d.handlers t.handler).map (·.appId)).getD []
  { t with
    daemon := d
    cacheIp_ := if Frame.registerok ∈ frames then t.ip else t.cacheIp_
    toReceiver := t.toReceiver ++
      frames.map fun f => json.write (f.document appId t.ip t.uuid t.deviceName) }

def tell (t : Dialogue) (frame : Frame) : Except Fault Dialogue :=
  match t.daemon.handlers t.handler with
  | none => .ok t
  | some _ => do
    let d ← t.daemon.send t.handler frame
    .ok (t.become json d)

inductive Event where
  /-- The websocket is open. -/
  | opened
  | setAdditionalData (data : Bytes)
  | unRegisterSelf
  | clear
  /-- The receiver's `io_service` makes a call. -/
  | poll
  /-- A message comes to the receiver. -/
  | receive
  /-- A message comes to the daemon. -/
  | deliver (uuid : Bytes)
  /-- The timer `ppTimer_` of the handler. -/
  | ping
  /-- The timer `ipTimer_` of the handler. -/
  | checkIp
  /-- The device has another address. -/
  | address (ip : Bytes)
  /-- Something else happens to the daemon. -/
  | daemon (e : Daemon.Event)

def step (t : Dialogue) : Event → Except Fault Dialogue
  | .opened => .ok { t with sdk := t.sdk.onIpcOpen json }
  | .setAdditionalData data => .ok { t with sdk := t.sdk.setAdditionalData json data }
  | .unRegisterSelf => .ok { t with sdk := t.sdk.unRegisterSelf json }
  | .clear => .ok { t with sdk := t.sdk.clear }
  | .poll => .ok { t with sdk := t.sdk.poll.1, toDaemon := t.toDaemon ++ t.sdk.poll.2 }
  | .receive =>
    match t.toReceiver with
    | [] => .ok t
    | message :: rest =>
      match t.sdk.onIpcMessage json message with
      | none => .error .misused
      | some sdk => .ok { t with sdk, toReceiver := rest }
  | .deliver uuid =>
    match t.toDaemon with
    | [] => .ok t
    | message :: rest => do
      let d ← t.daemon.onText json t.handler uuid message
      .ok ({ t with toDaemon := rest }.become json d)
  | .ping => t.tell json (.heartbeat (str "ping"))
  | .checkIp => if iequals t.cacheIp_ t.ip then .ok t else t.tell json .registerok
  | .address ip => .ok { t with ip }
  | .daemon e => do
    let d ← t.daemon.step e
    .ok (t.become json d)

def run (t : Dialogue) (es : List Event) : Except Fault Dialogue := es.foldlM (step json) t

end Dialogue

/-! ### What the SDK sends -/

section
variable {json : Rapidjson} {appId message : Bytes} {m m' : FlintReceiverManager}

def Says (json : Rapidjson) (appId message : Bytes) : Prop :=
  ∃ q : Request, message = json.write (.object (q.members appId))

structure Speaks (json : Rapidjson) (appId : Bytes) (m : FlintReceiverManager) : Prop where
  id : m.appId_ = appId
  posted : ∀ c, m.ipcChannel_ = some c → ∀ x ∈ c.posted ++ c.penddingMessages_, Says json appId x

theorem Speaks.new (appId : Bytes) : Speaks json appId (.new appId) where
  id := rfl
  posted c hc x hx := by
    cases hc
    exact absurd hx List.not_mem_nil

theorem Speaks.ipcSend (h : Speaks json appId m) (htells : Says json appId message) :
    Speaks json appId (m.ipcSend message) where
  id := h.id
  posted c hc x hx := by
    obtain ⟨c, hc', rfl⟩ := Option.map_eq_some_iff.mp hc
    rw [MessageChannel.send_penddingMessages, List.mem_append] at hx
    rcases hx with hx | hx
    · rcases MessageChannel.mem_posted_send hx with hx | rfl
      · exact h.posted c hc' x (List.mem_append_left _ hx)
      · exact htells
    · exact h.posted c hc' x (List.mem_append_right _ hx)

theorem Speaks.registerSelf (h : Speaks json appId m) : Speaks json appId (m.registerSelf json) :=
  h.ipcSend ⟨.register, h.id ▸ rfl⟩

theorem Speaks.unRegisterSelf (h : Speaks json appId m) :
    Speaks json appId (m.unRegisterSelf json) :=
  h.ipcSend ⟨.unregister, h.id ▸ rfl⟩

theorem Speaks.sendHeartbeat (h : Speaks json appId m) (type : Bytes) :
    Speaks json appId (m.sendHeartbeat json type) :=
  h.ipcSend ⟨.heartbeat type, h.id ▸ rfl⟩

theorem exists_dataMembers (m : FlintReceiverManager) :
    ∃ members : List (Bytes × Bytes), m.dataMembers = members.map fun p => (cStr p.1, .text p.2) := by
  unfold dataMembers
  split <;> split
  · exact ⟨[(str "channelBaseUrl", _), (str "customData", _)], rfl⟩
  · exact ⟨[(str "channelBaseUrl", _)], rfl⟩
  · exact ⟨[(str "customData", _)], rfl⟩
  · exact ⟨[], rfl⟩

theorem Speaks.sendAdditionalData (h : Speaks json appId m) :
    Speaks json appId (m.sendAdditionalData json) := by
  unfold FlintReceiverManager.sendAdditionalData
  dsimp only
  split
  · rename_i hne
    refine h.ipcSend ?_
    unfold joinAdditionalData at hne ⊢
    split at hne
    · exact absurd rfl hne
    · rename_i hsome
      obtain ⟨members, hmembers⟩ := exists_dataMembers m
      rw [if_neg hsome, hmembers]
      exact ⟨.additionaldata members, h.id ▸ rfl⟩
  · exact h

theorem Speaks.url (h : Speaks json appId m) (ip : Bytes) :
    Speaks json appId { m with flintServiceUrl_ := ip } := ⟨h.id, h.posted⟩

theorem Speaks.setAdditionalData (h : Speaks json appId m) (data : Bytes) :
    Speaks json appId (m.setAdditionalData json data) :=
  Speaks.sendAdditionalData (m := { m with customAdditionalData_ := data }) ⟨h.id, h.posted⟩

theorem Speaks.onIpcOpen (h : Speaks json appId m) : Speaks json appId (m.onIpcOpen json) := by
  refine Speaks.registerSelf ⟨h.id, fun c hc x hx => ?_⟩
  obtain ⟨c, hc', rfl⟩ := Option.map_eq_some_iff.mp hc
  have hmem : x ∈ c.posted ++ c.penddingMessages_ :=
    MessageChannel.mem_posted_onOpen (by simpa [MessageChannel.onOpen] using hx)
  exact h.posted c hc' x hmem

theorem Speaks.onIpcMessage (h : Speaks json appId m)
    (hstep : m.onIpcMessage json message = some m') : Speaks json appId m' := by
  rcases onIpcMessage_some hstep with rfl | ⟨ip, rfl⟩ | ⟨type, rfl⟩
  · exact h
  · exact (h.url ip).sendAdditionalData
  · exact h.sendHeartbeat type

theorem Speaks.clear (h : Speaks json appId m) : Speaks json appId m.clear where
  id := h.id
  posted c hc := by cases hc

theorem Speaks.poll (h : Speaks json appId m) :
    Speaks json appId m.poll.1 ∧ ∀ x ∈ m.poll.2, Says json appId x := by
  unfold FlintReceiverManager.poll
  cases hc : m.ipcChannel_ with
  | none => exact ⟨h, fun x hx => absurd hx List.not_mem_nil⟩
  | some c =>
    refine ⟨⟨h.id, fun c' hc' x hx => ?_⟩, fun x hx => ?_⟩
    · cases hc'
      exact h.posted c hc x (MessageChannel.mem_poll (List.mem_append_left _ hx))
    · exact h.posted c hc x (MessageChannel.mem_poll (List.mem_append_right _ hx))

end

namespace Dialogue

/-- Everything on its way to the daemon is a request, and everything on its way back a frame. -/
structure Sound (json : Rapidjson) (appId : Bytes) (t : Dialogue) : Prop where
  sdk : Speaks json appId t.sdk
  toDaemon : ∀ x ∈ t.toDaemon, Says json appId x
  toReceiver : ∀ x ∈ t.toReceiver, ∃ (f : Frame) (appId ip uuid deviceName : Bytes),
    x = json.write (f.document appId ip uuid deviceName)

section
variable {json : Rapidjson} {appId : Bytes} {t t' : Dialogue}

theorem Sound.become (h : t.Sound json appId) (d : Daemon) :
    (t.become json d).Sound json appId where
  sdk := h.sdk
  toDaemon := h.toDaemon
  toReceiver x hx := by
    cases List.mem_append.mp hx with
    | inl hx => exact h.toReceiver x hx
    | inr hx =>
      obtain ⟨f, -, rfl⟩ := List.mem_map.mp hx
      exact ⟨f, _, _, _, _, rfl⟩

theorem Sound.tell {frame : Frame} (h : t.Sound json appId) (htell : t.tell json frame = .ok t') :
    t'.Sound json appId := by
  unfold Dialogue.tell at htell
  split at htell
  · cases htell
    exact h
  · obtain ⟨d, -, htell⟩ := bind_eq_ok.mp htell
    cases htell
    exact h.become d

theorem Sound.step {e : Event} (h : t.Sound json appId) (hstep : t.step json e = .ok t') :
    t'.Sound json appId := by
  cases e with
  | opened =>
    cases hstep
    exact ⟨h.sdk.onIpcOpen, h.toDaemon, h.toReceiver⟩
  | setAdditionalData data =>
    cases hstep
    exact ⟨h.sdk.setAdditionalData data, h.toDaemon, h.toReceiver⟩
  | unRegisterSelf =>
    cases hstep
    exact ⟨h.sdk.unRegisterSelf, h.toDaemon, h.toReceiver⟩
  | clear =>
    cases hstep
    exact ⟨h.sdk.clear, h.toDaemon, h.toReceiver⟩
  | poll =>
    cases hstep
    refine ⟨h.sdk.poll.1, fun x hx => ?_, h.toReceiver⟩
    exact (List.mem_append.mp hx).elim (h.toDaemon x) (h.sdk.poll.2 x)
  | receive =>
    simp only [Dialogue.step] at hstep
    split at hstep
    · cases hstep
      exact h
    · rename_i message rest hwire
      split at hstep
      · cases hstep
      · rename_i sdk hsdk
        cases hstep
        exact ⟨h.sdk.onIpcMessage hsdk, h.toDaemon,
          fun x hx => h.toReceiver x (hwire ▸ List.mem_cons_of_mem _ hx)⟩
  | deliver uuid =>
    simp only [Dialogue.step] at hstep
    split at hstep
    · cases hstep
      exact h
    · rename_i message rest hwire
      obtain ⟨d, -, hstep⟩ := bind_eq_ok.mp hstep
      cases hstep
      exact Sound.become (t := { t with toDaemon := rest })
        ⟨h.sdk, fun x hx => h.toDaemon x (hwire ▸ List.mem_cons_of_mem _ hx), h.toReceiver⟩ d
  | ping => exact h.tell hstep
  | checkIp =>
    simp only [Dialogue.step] at hstep
    split at hstep
    · cases hstep
      exact h
    · exact h.tell hstep
  | address ip =>
    cases hstep
    exact ⟨h.sdk, h.toDaemon, h.toReceiver⟩
  | daemon e =>
    obtain ⟨d, -, hstep⟩ := bind_eq_ok.mp hstep
    cases hstep
    exact h.become d

theorem Sound.run {es : List Event} (h : t.Sound json appId) (hrun : t.run json es = .ok t') :
    t'.Sound json appId :=
  foldlM_keeps (fun _ _ _ _ hs hstep => hs.step hstep) h hrun

theorem sound_start (daemon : Daemon) (handler : Nat) (ip uuid deviceName appId : Bytes) :
    (start daemon handler ip uuid deviceName appId).Sound json appId :=
  ⟨.new appId, fun _ hx => absurd hx List.not_mem_nil, fun _ hx => absurd hx List.not_mem_nil⟩

end

/-! ### What the daemon makes of it -/

/-- The daemon has an open websocket from the receiver of its alive application, which uses IPC. -/
structure Ready (s : Daemon) (handler app : Nat) (appId : Bytes) : Prop where
  handler : ∃ r ∈ s.handlers handler, r.isOpen = true ∧ r.appId = appId
  alive : s.manager.getAliveApplication = some app
  application : ∃ a ∈ s.manager.apps app, a.deleted = false ∧ a.appId = appId ∧
    a.info.useIpc = true

instance (s : Daemon) (handler app : Nat) (appId : Bytes) : Decidable (Ready s handler app appId) :=
  decidable_of_iff (_ ∧ _ ∧ _) ⟨fun ⟨h, ha, happ⟩ => ⟨h, ha, happ⟩,
    fun h => ⟨h.handler, h.alive, h.application⟩⟩

section
variable {json : Rapidjson} {appId message uuid : Bytes} {s : Daemon} {handler app : Nat}
  {q : Request}

theorem plain_members (q : Request) (appId : Bytes) : Json.Plain (.object (q.members appId)) := by
  refine plain_cons (by decide) (plain_text _) (plain_cons (by decide) (plain_text _) ?_)
  cases q with
  | register => exact plain_nil
  | unregister => exact plain_nil
  | additionaldata members =>
    refine plain_cons (by decide) ?_ plain_nil
    induction members with
    | nil => exact plain_nil
    | cons m members ih => exact plain_cons (zero_notMem_cStr m.1) (plain_text m.2) ih
  | heartbeat type => exact plain_cons (by decide) (plain_text type) plain_nil

theorem optionalString_text (x : Bytes) : optionalString (.text x) = some (some (cStr x)) := by
  rw [optionalString, Json.isNull_text, if_neg Bool.false_ne_true, Json.getString_text]
  rfl

theorem additionalDataStr_map (members : List (Bytes × Bytes)) :
    additionalDataStr (members.map fun m => (cStr m.1, .text m.2)) =
      some (Request.dataStr members) := by
  induction members with
  | nil => rfl
  | cons m members ih =>
    rw [List.map_cons, additionalDataStr, ih, cStr_cStr, Json.getString_text]
    rfl

theorem describe_members (q : Request) (appId : Bytes) : describe (q.members appId) =
    some ⟨some (cStr appId), some (cStr (str q.type)), q.data, q.isHeartbeat⟩ := by
  have hid : Json.get (q.members appId) (str "appid") = .text appId := rfl
  have htype : Json.get (q.members appId) (str "type") = .text (str q.type) := rfl
  have hdata : optionalData (Json.get (q.members appId) (str "additionaldata")) = some q.data := by
    cases q with
    | additionaldata members => exact congrArg (Option.map some) (additionalDataStr_map members)
    | register | unregister | heartbeat => rfl
  have hbeat : (Json.get (q.members appId) (str "heartbeat")).isNull = !q.isHeartbeat := by
    cases q <;> rfl
  simp only [describe, hid, htype, optionalString_text, hdata, hbeat, bind, Option.bind_some,
    Bool.not_not]

/-- The text of a request is the message of an event of the daemon. -/
theorem onText_request (hj : json.Undoes) (q : Request) (appId : Bytes) (s : Daemon) (handler : Nat)
    (uuid : Bytes) :
    s.onText json handler uuid (json.write (.object (q.members appId))) =
      s.onMessage handler uuid
        (some ⟨some (cStr appId), some (cStr (str q.type)), q.data, q.isHeartbeat⟩) :=
  onText_describe (hj _ (plain_members q appId)) (describe_members q appId) s handler uuid

/-- A request to a daemon that is ready for it is performed, unless it is a heartbeat. -/
theorem onText_ready (hj : json.Undoes) (happ : 0 ∉ appId) (h : Ready s handler app appId)
    (q : Request) (uuid : Bytes) :
    s.onText json handler uuid (json.write (.object (q.members appId))) =
      if q.isHeartbeat then .error .misused else q.perform s handler app appId uuid := by
  obtain ⟨r, hr, hopen, rfl⟩ := h.handler
  obtain ⟨a, ha, hdeleted, hid, hipc⟩ := h.application
  have hderef : s.manager.deref app = .ok a := ApplicationManager.deref_ok.mpr ⟨ha, hdeleted⟩
  have halive : s.aliveIs r.appId = .ok (some true, s) := by
    unfold Daemon.aliveIs ApplicationManager.getAppId
    simp only [h.alive, Option.mem_def.mp ha, hdeleted, hid, ok_bind, Bool.false_eq_true, if_false,
      decide_true]
  rw [onText_request hj, Daemon.onMessage, hr]
  dsimp only
  rw [hopen, if_neg Bool.false_ne_true.symm, halive, ok_bind]
  simp only [h.alive, cStr_of_not_mem happ]
  rw [if_neg (not_not.mpr rfl)]
  unfold Daemon.onTypedMessage
  generalize htype : q.type = type
  cases q with
  | register =>
    obtain rfl : type = "register" := htype.symm
    rw [if_pos (by decide), hderef, ok_bind, if_pos hipc]
    rfl
  | unregister =>
    obtain rfl : type = "unregister" := htype.symm
    rw [if_neg (by decide), if_pos (by decide)]
    rfl
  | additionaldata members =>
    obtain rfl : type = "additionaldata" := htype.symm
    rw [if_neg (by decide), if_neg (by decide), if_pos (by decide)]
    rfl
  | heartbeat text =>
    obtain rfl : type = "heartbeat" := htype.symm
    rw [if_neg (by decide), if_neg (by decide), if_neg (by decide), if_pos ⟨by decide, rfl⟩]
    rfl

/-- The kinds are those that are expected, except in a heartbeat. -/
theorem understand_request (hj : json.Undoes) (happ : 0 ∉ appId) (q : Request) :
    understand json appId (json.write (.object (q.members appId))) = none ↔ q.isHeartbeat = true := by
  rw [understand_describe (hj _ (plain_members q appId)) (describe_members q appId),
    cStr_of_not_mem happ, if_neg (not_not.mpr rfl)]
  dsimp only
  unfold readCommand
  generalize htype : q.type = type
  cases q with
  | register =>
    obtain rfl : type = "register" := htype.symm
    rw [if_pos (by decide)]
    exact iff_of_false (Option.some_ne_none _) Bool.false_ne_true
  | unregister =>
    obtain rfl : type = "unregister" := htype.symm
    rw [if_neg (by decide), if_pos (by decide)]
    exact iff_of_false (Option.some_ne_none _) Bool.false_ne_true
  | additionaldata members =>
    obtain rfl : type = "additionaldata" := htype.symm
    rw [if_neg (by decide), if_neg (by decide), if_pos (by decide)]
    have hdata : Json.get ((Request.additionaldata members).members appId) (str "additionaldata") =
        .object (members.map fun m => (cStr m.1, .text m.2)) := rfl
    simp only [Json.at?_object, hdata, additionalDataStr_map, bind, Option.bind_some]
    exact iff_of_false (Option.some_ne_none _) Bool.false_ne_true
  | heartbeat text =>
    obtain rfl : type = "heartbeat" := htype.symm
    rw [if_neg (by decide), if_neg (by decide), if_neg (by decide), if_pos (by decide)]
    exact iff_of_true rfl rfl

/-! ### What the receiver makes of it -/

theorem plain_document (appId ip uuid deviceName : Bytes) (f : Frame) :
    Json.Plain (f.document appId ip uuid deviceName) := by
  cases f with
  | registerok =>
    have hip : Json.Plain (.array [Json.text ip]) :=
      .array fun j hj => List.mem_singleton.mp hj ▸ plain_text ip
    have hinfo : Json.Plain (.object [(str "ip", .array [.text ip]), (str "uuid", .text uuid),
        (str "device_name", .text deviceName)]) :=
      plain_cons (by decide) hip (plain_cons (by decide) (plain_text uuid)
        (plain_cons (by decide) (plain_text deviceName) plain_nil))
    exact plain_cons (by decide) (plain_text _)
      (plain_cons (by decide) (plain_text _) (plain_cons (by decide) hinfo plain_nil))
  | startHeartbeat =>
    exact plain_cons (by decide) (plain_text _) (plain_cons (by decide) (plain_text _)
      (plain_cons (by decide) (.number (by decide) (forall_of_all (by decide))) plain_nil))
  | heartbeat | senderconnected | senderdisconnected =>
    exact plain_cons (by decide) (plain_text _) (plain_cons (by decide) (plain_text _)
      (plain_cons (by decide) (plain_text _) plain_nil))

theorem onIpcMessage_document (hj : json.Undoes) (m : FlintReceiverManager)
    (ip uuid deviceName : Bytes) (f : Frame) :
    m.onIpcMessage json (json.write (f.document appId ip uuid deviceName)) ≠ none := by
  have hparse := hj _ (plain_document appId ip uuid deviceName f)
  generalize json.write (f.document appId ip uuid deviceName) = message at hparse
  cases f with
  | registerok =>
    rw [onIpcMessage_object appId (str "registerok") hparse rfl rfl]
    split
    · exact Option.some_ne_none m
    · rw [onTyped, if_pos (by decide)]
      exact Option.some_ne_none _
  | startHeartbeat =>
    rw [onIpcMessage_object appId (str "startHeartbeat") hparse rfl rfl]
    split
    · exact Option.some_ne_none m
    · rw [onTyped, if_neg (by decide), if_pos (by decide)]
      exact Option.some_ne_none _
  | heartbeat type =>
    rw [onIpcMessage_object appId (str "heartbeat") hparse rfl rfl]
    split
    · exact Option.some_ne_none m
    · rw [onTyped, if_neg (by decide), if_neg (by decide), if_pos (by decide)]
      have hbeat : m.onHeartbeat json (Frame.document appId ip uuid deviceName (.heartbeat type)) =
          if cStr (cStr type) = str "ping" then some (m.sendHeartbeat json (str "pong"))
          else if cStr (cStr type) = str "pong" then some (m.sendHeartbeat json (str "ping"))
          else some m := rfl
      rw [Frame.document] at hbeat
      rw [hbeat]
      split_ifs
      all_goals exact Option.some_ne_none _
  | senderconnected token =>
    rw [onIpcMessage_object appId (str "senderconnected") hparse rfl rfl]
    split
    · exact Option.some_ne_none m
    · rw [onTyped, if_neg (by decide), if_neg (by decide), if_neg (by decide), if_pos (by decide)]
      exact Option.some_ne_none m
  | senderdisconnected token =>
    rw [onIpcMessage_object appId (str "senderdisconnected") hparse rfl rfl]
    split
    · exact Option.some_ne_none m
    · rw [onTyped, if_neg (by decide), if_neg (by decide), if_neg (by decide), if_neg (by decide),
        if_pos (by decide)]
      exact Option.some_ne_none m

/-! ### Understanding -/

def Understood (json : Rapidjson) (s : Daemon) (handler app : Nat) (appId uuid : Bytes)
    (q : Request) : Prop :=
  understand json appId (json.write (.object (q.members appId))) ≠ none ∧
    s.onText json handler uuid (json.write (.object (q.members appId))) =
      q.perform s handler app appId uuid

/-- In every run, what comes to the daemon is a request, and a daemon that is ready understands it
if and only if it is no heartbeat. The receiver reads what comes back. -/
theorem understood_iff (hj : json.Undoes) (happ : 0 ∉ appId) {daemon : Daemon}
    {ip device name : Bytes} {es : List Event} {t : Dialogue}
    (hrun : (start daemon handler ip device name appId).run json es = .ok t) :
    (∀ x ∈ t.toDaemon, ∃ q : Request, x = json.write (.object (q.members appId)) ∧
      ∀ app uuid, Ready t.daemon t.handler app appId →
        (Understood json t.daemon t.handler app appId uuid q ↔ q.isHeartbeat = false)) ∧
      ∀ x ∈ t.toReceiver, t.sdk.onIpcMessage json x ≠ none := by
  have hsound := (sound_start daemon handler ip device name appId).run hrun
  constructor
  · intro x hx
    obtain ⟨q, rfl⟩ := hsound.toDaemon x hx
    refine ⟨q, rfl, fun app uuid hready => ?_⟩
    have hnone := understand_request hj happ q
    constructor
    · rintro ⟨hsome, -⟩
      exact Bool.eq_false_iff.mpr fun h => hsome (hnone.mpr h)
    · intro hq
      refine ⟨fun h => Bool.false_ne_true (hq.symm.trans (hnone.mp h)), ?_⟩
      rw [onText_ready hj happ hready, hq, if_neg Bool.false_ne_true]
  · intro x hx
    obtain ⟨f, appId', ip', device', name', rfl⟩ := hsound.toReceiver x hx
    exact onIpcMessage_document hj t.sdk ip' device' name' f

def launched : Except Fault Daemon :=
  Daemon.start.run [.launch (str "app") (str "http://tv/") true, .connect (str "app")]

def talk (es : List Event) : Except Fault Dialogue := do
  let daemon ← launched
  (start daemon 0 (str "10.0.0.2") (str "device") (str "tv") (str "app")).run .compact es

theorem understood_iff_register : ∃ t, talk [.opened, .poll] = .ok t ∧
    ∃ x ∈ t.toDaemon, ∃ q : Request, x = Rapidjson.compact.write (.object (q.members (str "app"))) ∧
      (Understood .compact t.daemon 0 0 (str "app") [] q ↔ q.isHeartbeat = false) := by
  obtain ⟨t, ht, htest⟩ := yields_iff.mp (show yields (talk [.opened, .poll]) (fun t =>
    t.toDaemon = [Rapidjson.compact.write (.object (Request.register.members (str "app")))] ∧
      t.handler = 0 ∧ Ready t.daemon 0 0 (str "app")) = true by decide +kernel)
  obtain ⟨hwire, hhandler, hready⟩ := of_decide_eq_true htest
  obtain ⟨daemon, -, hrun⟩ := bind_eq_ok.mp ht
  have hmem : _ ∈ t.toDaemon := hwire ▸ List.mem_cons_self
  obtain ⟨q, hq, hiff⟩ := (understood_iff Rapidjson.undoes_compact (by decide) hrun).1 _ hmem
  rw [hhandler] at hiff
  exact ⟨t, ht, _, hmem, q, hq, hiff 0 [] hready⟩

def pong : Request := .heartbeat (str "pong")

theorem pong_misused : ∃ t, talk [.opened, .poll, .deliver (str "session"), .receive, .receive,
      .receive, .ping, .receive, .poll, .poll, .deliver []] = .ok t ∧
    t.toDaemon = [Rapidjson.compact.write (.object (pong.members (str "app")))] ∧
    Ready t.daemon 0 0 (str "app") ∧
    ∀ uuid, ¬ Understood .compact t.daemon 0 0 (str "app") uuid pong := by
  obtain ⟨t, ht, htest⟩ := yields_iff.mp (show yields (talk [.opened, .poll,
    .deliver (str "session"), .receive, .receive, .receive, .ping, .receive, .poll, .poll,
    .deliver []]) (fun t =>
      t.toDaemon = [Rapidjson.compact.write (.object (pong.members (str "app")))] ∧
        Ready t.daemon 0 0 (str "app")) = true by decide +kernel)
  obtain ⟨hwire, hready⟩ := of_decide_eq_true htest
  refine ⟨t, ht, hwire, hready, fun uuid h => ?_⟩
  exact h.1 ((understand_request Rapidjson.undoes_compact (by decide) pong).mpr rfl)

end

end Dialogue

end Flingd.Sdk
