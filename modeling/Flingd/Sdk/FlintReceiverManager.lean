import Flingd.Sdk.MessageChannel

/-! `FlintReceiverManager.cpp`: the side of the receiver. -/
namespace Flingd.Sdk
open MessageChannel

/-- `ipcChannel_` is `none` where it is NULL, and `messageBusManager_` tells that it is not. -/
structure FlintReceiverManager where
  appId_ : Bytes
  messageBusManager_ : Bool
  ipcChannel_ : Option MessageChannel
  flintServiceUrl_ : Bytes
  customAdditionalData_ : Bytes

namespace FlintReceiverManager

def new (appId : Bytes) : FlintReceiverManager := ⟨appId, true, some .new, str "127.0.0.1", []⟩

def ipcSend (m : FlintReceiverManager) (message : Bytes) : FlintReceiverManager :=
  { m with ipcChannel_ := m.ipcChannel_.map fun c => c.send message }

/-! ### Messages -/

variable (json : Rapidjson) (m : FlintReceiverManager)

def typed (type : String) (more : List (Bytes × Json Bytes)) : Json Bytes :=
  .object ((str "type", .text (str type)) :: (str "appid", .text m.appId_) :: more)

def registerSelf : FlintReceiverManager := m.ipcSend (json.write (m.typed "register" []))

def unRegisterSelf : FlintReceiverManager := m.ipcSend (json.write (m.typed "unregister" []))

def sendHeartbeat (heartbeat : Bytes) : FlintReceiverManager :=
  m.ipcSend (json.write (m.typed "heartbeat" [(str "heartbeat", .text heartbeat)]))

def dataMembers : List (Bytes × Json Bytes) :=
  (if m.messageBusManager_ then
      [(str "channelBaseUrl",
        .text (str "ws://" ++ m.flintServiceUrl_ ++ str ":9439/channels/" ++ str "channelBaseUrl"))]
    else []) ++
    if m.customAdditionalData_ ≠ [] then [(str "customData", .text m.customAdditionalData_)] else []

def joinAdditionalData : Bytes :=
  if m.messageBusManager_ = false ∧ m.customAdditionalData_ = [] then []
  else json.write (m.typed "additionaldata" [(str "additionaldata", .object m.dataMembers)])

def sendAdditionalData : FlintReceiverManager :=
  let additionalData := m.joinAdditionalData json
  if additionalData ≠ [] then m.ipcSend additionalData else m

def setAdditionalData (data : Bytes) : FlintReceiverManager :=
  { m with customAdditionalData_ := data }.sendAdditionalData json

/-! ### Events -/

def onIpcOpen : FlintReceiverManager :=
  { m with ipcChannel_ := m.ipcChannel_.map MessageChannel.onOpen }.registerSelf json

def onRegisterok (d : Json Bytes) : Option FlintReceiverManager := do
  let service_info ← d.at? (str "service_info")
  if service_info.isNull then some m
  else
    match ← service_info.at? (str "ip") with
    | .array (first :: _) => do
      let ip ← first.getString
      some ({ m with flintServiceUrl_ := ip }.sendAdditionalData json)
    | _ => some m

def onHeartbeat (d : Json Bytes) : Option FlintReceiverManager := do
  let heartbeat ← d.at? (str "heartbeat")
  if heartbeat.isNull then some m
  else do
    let type ← heartbeat.getString
    if type = str "ping" then some (m.sendHeartbeat json (str "pong"))
    else if type = str "pong" then some (m.sendHeartbeat json (str "ping"))
    else some m

/-- The tokens of senders are only noted in the log. -/
def onSenderNotice (d : Json Bytes) : Option FlintReceiverManager := do
  let token ← d.at? (str "token")
  let _ ← token.getString
  some m

def onTyped (d : Json Bytes) (typeStr : Bytes) : Option FlintReceiverManager :=
  if typeStr = str "registerok" then m.onRegisterok json d
  else if typeStr = str "startHeartbeat" then some m
  else if typeStr = str "heartbeat" then m.onHeartbeat json d
  else if typeStr = str "senderconnected" then m.onSenderNotice d
  else if typeStr = str "senderdisconnected" then m.onSenderNotice d
  else some m

def onIpcMessage (message : Bytes) : Option FlintReceiverManager :=
  if message.length = 0 then some m
  else
    match json.parse message with
    | none => some m
    | some .null => some m
    | some d => do
      let appId ← d.at? (str "appid")
      if appId.isNull then some m
      else do
        let id ← appId.getString
        if m.appId_ ≠ id then some m
        else do
          let type ← d.at? (str "type")
          if type.isNull then some m
          else do
            let typeStr ← type.getString
            m.onTyped json d typeStr

/-- The channels are deleted, with what is posted to them. -/
def clear : FlintReceiverManager := { m with ipcChannel_ := none, messageBusManager_ := false }

/-- The `io_service` makes a call of the channel. -/
def poll : FlintReceiverManager × List Bytes :=
  match m.ipcChannel_ with
  | none => (m, [])
  | some c => ({ m with ipcChannel_ := some c.poll.1 }, c.poll.2)

/-! ### What a message does -/

section
variable {json : Rapidjson} {m m' : FlintReceiverManager} {d : Json Bytes} {message : Bytes}

theorem onRegisterok_some (h : m.onRegisterok json d = some m') :
    m' = m ∨ ∃ ip, m' = { m with flintServiceUrl_ := ip }.sendAdditionalData json := by
  obtain ⟨service_info, -, h⟩ := Option.bind_eq_some_iff.mp h
  split at h
  · exact .inl (Option.some.inj h).symm
  · obtain ⟨ipArr, -, h⟩ := Option.bind_eq_some_iff.mp h
    split at h
    · obtain ⟨ip, -, h⟩ := Option.bind_eq_some_iff.mp h
      exact .inr ⟨ip, (Option.some.inj h).symm⟩
    · exact .inl (Option.some.inj h).symm

theorem onHeartbeat_some (h : m.onHeartbeat json d = some m') :
    m' = m ∨ ∃ type, m' = m.sendHeartbeat json type := by
  obtain ⟨heartbeat, -, h⟩ := Option.bind_eq_some_iff.mp h
  split at h
  · exact .inl (Option.some.inj h).symm
  · obtain ⟨type, -, h⟩ := Option.bind_eq_some_iff.mp h
    split at h
    · exact .inr ⟨_, (Option.some.inj h).symm⟩
    · split at h
      · exact .inr ⟨_, (Option.some.inj h).symm⟩
      · exact .inl (Option.some.inj h).symm

theorem onSenderNotice_some (h : m.onSenderNotice d = some m') : m' = m := by
  obtain ⟨token, -, h⟩ := Option.bind_eq_some_iff.mp h
  obtain ⟨text, -, h⟩ := Option.bind_eq_some_iff.mp h
  exact (Option.some.inj h).symm

/-- A message changes the address and sends additional data, or it sends a heartbeat. -/
theorem onIpcMessage_some (h : m.onIpcMessage json message = some m') : m' = m ∨
    (∃ ip, m' = { m with flintServiceUrl_ := ip }.sendAdditionalData json) ∨
      ∃ type, m' = m.sendHeartbeat json type := by
  have hsame {x : FlintReceiverManager} (h : some x = some m') (hx : x = m) : m' = m :=
    (Option.some.inj h).symm.trans hx
  unfold onIpcMessage at h
  split at h
  · exact .inl (hsame h rfl)
  split at h
  · exact .inl (hsame h rfl)
  · exact .inl (hsame h rfl)
  obtain ⟨appId, -, h⟩ := Option.bind_eq_some_iff.mp h
  split at h
  · exact .inl (hsame h rfl)
  obtain ⟨id, -, h⟩ := Option.bind_eq_some_iff.mp h
  split at h
  · exact .inl (hsame h rfl)
  obtain ⟨type, -, h⟩ := Option.bind_eq_some_iff.mp h
  split at h
  · exact .inl (hsame h rfl)
  obtain ⟨typeStr, -, h⟩ := Option.bind_eq_some_iff.mp h
  unfold onTyped at h
  split_ifs at h
  · exact (onRegisterok_some h).imp_right .inl
  · exact .inl (hsame h rfl)
  · exact (onHeartbeat_some h).imp_right .inr
  · exact .inl (onSenderNotice_some h)
  · exact .inl (onSenderNotice_some h)
  · exact .inl (hsame h rfl)

/-- A message for the receiver goes to the branch of its type. -/
theorem onIpcMessage_object {members : List (Bytes × Json Bytes)} (appId type : Bytes)
    (hparse : json.parse message = some (.object members))
    (hid : Json.get members (str "appid") = .text appId)
    (htype : Json.get members (str "type") = .text type) :
    m.onIpcMessage json message =
      if message.length = 0 ∨ m.appId_ ≠ cStr appId then some m
      else m.onTyped json (.object members) (cStr type) := by
  unfold onIpcMessage
  by_cases hempty : message.length = 0
  · rw [if_pos hempty, if_pos (.inl hempty)]
  simp only [hparse, Json.at?_object, hid, htype, Json.isNull_text,
    Json.getString_text, bind, Option.bind_some, Bool.false_eq_true, if_false, hempty, false_or]

end

end FlintReceiverManager
end Flingd.Sdk
