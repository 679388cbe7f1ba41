import Flingd.Base.StdMap
import Flingd.Sdk.MessageChannel

/-! `MessageBusManager.cpp`, `ReceiverMessageBus.cpp` and `ReceiverMessageChannel.cpp`: the buses of
a receiver, and the channel to its senders that they share. -/
namespace Flingd.Sdk

/-- `listener_` tells that there is one. -/
structure ReceiverMessageBus where
  namespace_ : Bytes
  listener_ : Bool
deriving DecidableEq

inductive Told where
  | onMessage (namespace_ message senderId : Bytes)
  | onSenderConnect (namespace_ senderId : Bytes)
  | onSenderDisconnect (namespace_ senderId : Bytes)
deriving DecidableEq

namespace ReceiverMessageBus

def tell (bus : ReceiverMessageBus) (told : Told) : List Told :=
  if bus.listener_ then [told] else []

def onMessage (bus : ReceiverMessageBus) (message senderId : Bytes) : List Told :=
  bus.tell (.onMessage bus.namespace_ message senderId)

def onSenderConnect (bus : ReceiverMessageBus) (senderId : Bytes) : List Told :=
  bus.tell (.onSenderConnect bus.namespace_ senderId)

def onSenderDisconnect (bus : ReceiverMessageBus) (senderId : Bytes) : List Told :=
  bus.tell (.onSenderDisconnect bus.namespace_ senderId)

def document (bus : ReceiverMessageBus) (message : Bytes) : Json Bytes :=
  .object [(str "namespace", .text bus.namespace_), (str "payload", .text message)]

end ReceiverMessageBus

/-- `messageChannel_` is `none` where it is NULL. The buses have the same pointer to it, since they
are deleted with it. A bus is found under its namespace. -/
structure MessageBusManager where
  messageChannel_ : Option MessageChannel
  messageBusMap_ : StdMap Bytes ReceiverMessageBus
  named : ∀ e ∈ messageBusMap_.entries, e.2.namespace_ = e.1

namespace MessageBusManager

def new : MessageBusManager := ⟨some .new, StdMap.empty, fun _ h => absurd h List.not_mem_nil⟩

/-- With the bus, where it is not NULL. -/
def createMessageBus (m : MessageBusManager) (ns : Bytes) :
    MessageBusManager × Option ReceiverMessageBus :=
  if ns.length = 0 then (m, none)
  else
    match m.messageBusMap_.scan (ns = ·) with
    | none =>
      let bus : ReceiverMessageBus := ⟨ns, false⟩
      (⟨m.messageChannel_, m.messageBusMap_.insert ns bus, fun e he =>
        (StdMap.mem_insert he).elim (fun h => h ▸ rfl) (m.named e)⟩, some bus)
    | some e => (m, some e.2)

/-- `ReceiverMessageBus::setListener` of the bus of a namespace. -/
def setListener (m : MessageBusManager) (ns : Bytes) : MessageBusManager where
  messageChannel_ := m.messageChannel_
  messageBusMap_ := m.messageBusMap_.modifyFirst (ns = ·) fun bus => { bus with listener_ := true }
  named e he := by
    rcases StdMap.mem_modifyFirst he with he | ⟨e', he', -, rfl⟩
    · exact m.named e he
    · exact m.named e' he'

def clear (_ : MessageBusManager) : MessageBusManager :=
  ⟨none, StdMap.empty, fun _ h => absurd h List.not_mem_nil⟩

/-! ### To the senders -/

/-- `ReceiverMessageBus::send` to a sender. -/
def sendTo (json : Rapidjson) (m : MessageBusManager) (bus : ReceiverMessageBus)
    (message senderId : Bytes) : MessageBusManager :=
  { m with messageChannel_ :=
      m.messageChannel_.map fun c => c.sendTo json (json.write (bus.document message)) senderId }

/-- `ReceiverMessageBus::send`. -/
def send (json : Rapidjson) (m : MessageBusManager) (bus : ReceiverMessageBus)
    (message : Bytes) : MessageBusManager :=
  m.sendTo json bus message (str "*:*")

/-! ### From the senders -/

def tellAll (m : MessageBusManager) (tell : ReceiverMessageBus → List Told) : List Told :=
  m.messageBusMap_.entries.flatMap fun e => tell e.2

def onData (json : Rapidjson) (m : MessageBusManager) (senderId message : Bytes) :
    Option (List Told) :=
  match json.parse message with
  | none => some []
  | some .null => some []
  | some d => do
    let ns ← d.at? (str "namespace")
    if ns.isNull then some []
    else do
      let payload ← d.at? (str "payload")
      if payload.isNull then some []
      else do
        let nsStr ← ns.getString
        let payloadStr ← payload.getString
        some (m.tellAll fun bus =>
          if bus.namespace_ = nsStr then bus.onMessage payloadStr senderId else [])

def onMessage (json : Rapidjson) (m : MessageBusManager) (type senderId message : Bytes) :
    Option (List Told) :=
  if type = str "senderConnected" then some (m.tellAll fun bus => bus.onSenderConnect senderId)
  else if type = str "senderDisconnected" then
    some (m.tellAll fun bus => bus.onSenderDisconnect senderId)
  else if type = str "message" then m.onData json senderId message
  else some []

/-- `ReceiverMessageChannel::onMessage`: the arguments of its signal, where it gives one. -/
def signalled (json : Rapidjson) (message : Bytes) : Option (Option (Bytes × Bytes × Bytes)) :=
  match json.parse message with
  | none => some none
  | some .null => some none
  | some d => do
    let type ← d.at? (str "type")
    if type.isNull then some none
    else do
      let senderId ← d.at? (str "senderId")
      if senderId.isNull then some none
      else do
        let senderIdStr ← senderId.getString
        let typeStr ← type.getString
        if typeStr = str "senderConnected" then some (some (str "senderConnected", senderIdStr, []))
        else if typeStr = str "senderDisconnected" then
          some (some (str "senderDisconnected", senderIdStr, []))
        else if typeStr = str "message" then do
          let data ← d.at? (str "data")
          if data.isNull then some none
          else do
            let dataStr ← data.getString
            some (some (str "message", senderIdStr, dataStr))
        else some none

/-- The signal of `ReceiverMessageChannel::onMessage` goes to the manager. -/
def onChannelMessage (json : Rapidjson) (m : MessageBusManager) (message : Bytes) :
    Option (List Told) :=
  (signalled json message).bind fun signal =>
    signal.elim (some []) fun a => m.onMessage json a.1 a.2.1 a.2.2

/-! ### What the buses get -/

section
variable {json : Rapidjson} {m : MessageBusManager} {bus : ReceiverMessageBus}
  {ns message senderId text : Bytes} {members : List (Bytes × Json Bytes)}

/-- The bus of a namespace is told, and no other. -/
theorem tellAll_named (hbus : (ns, bus) ∈ m.messageBusMap_.entries)
    (tell : ReceiverMessageBus → List Told) :
    m.tellAll (fun b => if b.namespace_ = ns then tell b else []) = tell bus := by
  refine Eq.trans ?_ (StdMap.flatMap_key hbus tell)
  refine List.flatMap_congr fun e he => ?_
  dsimp only
  rw [m.named e he]

theorem onData_eq (hbus : (ns, bus) ∈ m.messageBusMap_.entries) (hns : 0 ∉ ns)
    (hmessage : 0 ∉ message) (hparse : json.parse text = some (.object members))
    (hn : Json.get members (str "namespace") = .string ns)
    (hp : Json.get members (str "payload") = .string message) :
    m.onData json senderId text = some (bus.onMessage message senderId) := by
  have hns' : (Json.string ns).getString = some ns := congrArg some (cStr_of_not_mem hns)
  have hmessage' : (Json.string message).getString = some message :=
    congrArg some (cStr_of_not_mem hmessage)
  rw [onData, hparse]
  simp only [Json.at?_object, hn, hp, hns', hmessage', bind, Option.bind_some, Json.isNull,
    Bool.false_eq_true, if_false]
  rw [tellAll_named hbus]

/-- What the channel gets of a sender goes to the manager. -/
theorem onChannelMessage_message {data : Bytes}
    (hparse : json.parse text = some (.object [(str "type", .text (str "message")),
      (str "senderId", .text senderId), (str "data", .text data)])) :
    m.onChannelMessage json text = m.onData json (cStr senderId) (cStr data) := by
  have htype : Json.get [(str "type", .text (str "message")), (str "senderId", .text senderId),
      (str "data", .text data)] (str "type") = .text (str "message") := rfl
  have hid : Json.get [(str "type", .text (str "message")), (str "senderId", .text senderId),
      (str "data", .text data)] (str "senderId") = .text senderId := rfl
  have hdata : Json.get [(str "type", .text (str "message")), (str "senderId", .text senderId),
      (str "data", .text data)] (str "data") = .text data := rfl
  have hword : cStr (str "message") = str "message" := by decide
  have hsignal : signalled json text =
      some (some (str "message", cStr senderId, cStr data)) := by
    rw [signalled, hparse]
    simp only [Json.at?_object, htype, hid, hdata, Json.isNull_text, Json.getString_text, hword, bind,
      Option.bind_some, Bool.false_eq_true, if_false, if_true]
    rw [if_neg (by decide), if_neg (by decide)]
  have htold : m.onMessage json (str "message") (cStr senderId) (cStr data) =
      m.onData json (cStr senderId) (cStr data) := by
    rw [onMessage, if_neg (by decide), if_neg (by decide), if_pos rfl]
  rw [onChannelMessage, hsignal]
  exact htold

end

end MessageBusManager
end Flingd.Sdk
