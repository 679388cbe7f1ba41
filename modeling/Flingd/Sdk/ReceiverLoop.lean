import Flingd.Base.Outcome
import Flingd.Sdk.FlintReceiverManager
import Flingd.Sdk.MessageBusManager

/-! A `FlintReceiverManager` on its `io_service`: what its channels post runs later, also where the
channel was deleted by then. Nothing deletes the channel of a `MessageBusManager` with it. -/
namespace Flingd.Sdk

inductive ChannelName where
  | ipc
  | bus
deriving DecidableEq

inductive Task where
  | sendImpl (channel : ChannelName) (message : Bytes)
  | closeImpl (channel : ChannelName)
deriving DecidableEq

def Task.channel : Task → ChannelName
  | .sendImpl channel _ => channel
  | .closeImpl channel => channel

inductive Connection where
  | unopened
  | connecting
  | opened
  | ended
deriving DecidableEq

inductive Part where
  | channel (name : ChannelName)
  | messageBusManager
deriving DecidableEq

/-- The channels of `manager` and of `busManager` are deleted where they are `none`, and
`busManager` where `manager` has none. `handed` is what went to the websockets, `told` what the
listeners of the buses heard, and `strays` are the deleted objects on which something ran. -/
structure ReceiverLoop where
  manager : FlintReceiverManager
  isOpened_ : Bool
  busManager : MessageBusManager
  connection : ChannelName → Connection
  queue : List Task
  handed : List (ChannelName × Bytes)
  told : List Told
  strays : List Part

namespace ReceiverLoop
variable (json : Rapidjson) (s : ReceiverLoop)

def start (appId : Bytes) : ReceiverLoop :=
  ⟨.new appId, false, .new, fun _ => .unopened, [], [], [], []⟩

def channel : ChannelName → Option MessageChannel
  | .ipc => s.manager.ipcChannel_
  | .bus => s.busManager.messageChannel_

def setChannel (name : ChannelName) (channel : Option MessageChannel) : ReceiverLoop :=
  match name with
  | .ipc => { s with manager := { s.manager with ipcChannel_ := channel } }
  | .bus => { s with busManager := { s.busManager with messageChannel_ := channel } }

def setConnection (name : ChannelName) (connection : Connection) : ReceiverLoop :=
  { s with connection := Function.update s.connection name connection }

def stray (part : Part) : ReceiverLoop := { s with strays := s.strays ++ [part] }

/-- The `io_service` of a client is there once the channel was opened. -/
def post (tasks : List Task) (name : ChannelName) : Except Unit ReceiverLoop :=
  if tasks ≠ [] ∧ s.connection name = .unopened then .error ()
  else .ok { s with queue := s.queue ++ tasks }

def postSent (name : ChannelName) : Except Unit ReceiverLoop :=
  match s.channel name with
  | none => .ok s
  | some c => (s.setChannel name (some { c with posted := [] })).post
      (c.posted.map (.sendImpl name)) name

/-! ### Calls -/

/-- `MessageChannel::open` of the channel, where there is one. -/
def openChannel (name : ChannelName) : ReceiverLoop :=
  if (s.channel name).isSome then s.setConnection name .connecting else s

/-- `FlintReceiverManager::open`, up to the loop of the `io_service`. -/
def open_ : ReceiverLoop :=
  if s.isOpened_ then s
  else
    let s := if s.manager.messageBusManager_ ∧ s.manager.appId_ ≠ [] then s.openChannel .bus else s
    { s.openChannel .ipc with isOpened_ := true }

/-- `MessageChannel::close` of the channel, where there is one. -/
def closeChannel (name : ChannelName) : Except Unit ReceiverLoop :=
  if (s.channel name).isSome then s.post [.closeImpl name] name else .ok s

/-- `MessageBusManager::close`, where there is one. -/
def closeBusManager : Except Unit ReceiverLoop :=
  if s.manager.messageBusManager_ then do
    let s ← s.closeChannel .bus
    .ok { s with busManager := s.busManager.clear }
  else .ok s

def clear : ReceiverLoop := { s with manager := s.manager.clear, isOpened_ := false }

def close : Except Unit ReceiverLoop :=
  if s.isOpened_ then do
    let s ← ({ s with manager := s.manager.unRegisterSelf json } : ReceiverLoop).postSent .ipc
    let s ← s.closeBusManager
    let s ← s.closeChannel .ipc
    .ok s.clear
  else .ok s

def setAdditionalData (data : Bytes) : Except Unit ReceiverLoop :=
  ({ s with manager := s.manager.setAdditionalData json data } : ReceiverLoop).postSent .ipc

/-- `FlintReceiverManager::isOpened`. -/
def isOpened : Bool := s.isOpened_ && s.manager.ipcChannel_.any (·.opened_)

def createMessageBus (ns : Bytes) : ReceiverLoop :=
  if s.isOpened = false ∧ s.manager.messageBusManager_ then
    { s with busManager := (s.busManager.createMessageBus ns).1 }
  else s

def setListener (ns : Bytes) : ReceiverLoop := { s with busManager := s.busManager.setListener ns }

/-- `ReceiverMessageBus::send` of the bus of a namespace. -/
def sendTo (ns message senderId : Bytes) : Except Unit ReceiverLoop :=
  match s.busManager.messageBusMap_.scan (ns = ·) with
  | none => .ok s
  | some e => ({ s with
      busManager := s.busManager.sendTo json e.2 message senderId } : ReceiverLoop).postSent .bus

/-! ### The io_service -/

/-- A close that is asked of a websocket that is not open throws. -/
def runTask : Task → Except Unit ReceiverLoop
  | .sendImpl name message =>
    match s.channel name with
    | none => .ok (s.stray (.channel name))
    | some c =>
      let (c, sent) := c.sendImpl message
      .ok { s.setChannel name (some c) with handed := s.handed ++ sent.map fun m => (name, m) }
  | .closeImpl name =>
    if (s.channel name).isNone then .ok (s.stray (.channel name))
    else if s.connection name = .opened then .ok s
    else .error ()

def runNext : Except Unit ReceiverLoop :=
  match s.queue with
  | [] => .ok s
  | task :: queue => ({ s with queue } : ReceiverLoop).runTask task

/-! ### The websockets -/

def toBusManager (f : ReceiverLoop → Except Unit ReceiverLoop) : Except Unit ReceiverLoop :=
  if s.manager.messageBusManager_ then f s else .ok (s.stray .messageBusManager)

/-- `onOpen` of the channel, and the handler of its signal. -/
def onOpen : ChannelName → Except Unit ReceiverLoop
  | .ipc => ({ s with manager := s.manager.onIpcOpen json } : ReceiverLoop).postSent .ipc
  | .bus => do
    let channel := s.busManager.messageChannel_.map MessageChannel.onOpen
    let s ← (s.setChannel .bus channel).postSent .bus
    s.toBusManager .ok

/-- `onMessage` of the channel, and the handler of its signal. -/
def onMessage (message : Bytes) : ChannelName → Except Unit ReceiverLoop
  | .ipc =>
    match s.manager.onIpcMessage json message with
    | none => .error ()
    | some manager => ({ s with manager } : ReceiverLoop).postSent .ipc
  | .bus =>
    match MessageBusManager.signalled json message with
    | none => .error ()
    | some none => .ok s
    | some (some (type, senderId, data)) => s.toBusManager fun s =>
      match s.busManager.onMessage json type senderId data with
      | none => .error ()
      | some told => .ok { s with told := s.told ++ told }

/-- `onClose` or `onFail` of the channel, after which it is deleted. -/
def onEnd : ChannelName → Except Unit ReceiverLoop
  | .ipc => .ok s.clear
  | .bus =>
    let channel := s.busManager.messageChannel_.map fun c => { c with opened_ := false }
    (s.setChannel .bus channel).toBusManager fun s =>
      .ok { s with busManager := s.busManager.clear }

def onChannel (name : ChannelName) (f : ReceiverLoop → Except Unit ReceiverLoop) :
    Except Unit ReceiverLoop :=
  if (s.channel name).isSome then f s else .ok (s.stray (.channel name))

/-- What happens: a call, a task of the `io_service`, or something at a websocket. -/
inductive Event where
  | open_
  | close
  | setAdditionalData (data : Bytes)
  | createMessageBus (ns : Bytes)
  | setListener (ns : Bytes)
  | sendTo (ns message senderId : Bytes)
  | runNext
  | opened (name : ChannelName)
  | message (name : ChannelName) (message : Bytes)
  | closed (name : ChannelName)
  | failed (name : ChannelName)
deriving DecidableEq

def step : Event → Except Unit ReceiverLoop
  | .open_ => .ok s.open_
  | .close => s.close json
  | .setAdditionalData data => s.setAdditionalData json data
  | .createMessageBus ns => .ok (s.createMessageBus ns)
  | .setListener ns => .ok (s.setListener ns)
  | .sendTo ns message senderId => s.sendTo json ns message senderId
  | .runNext => s.runNext
  | .opened name =>
    if s.connection name = .connecting then
      (s.setConnection name .opened).onChannel name fun s => s.onOpen json name
    else .ok s
  | .message name message =>
    if s.connection name = .opened then s.onChannel name fun s => s.onMessage json message name
    else .ok s
  | .closed name =>
    if s.connection name = .opened then
      (s.setConnection name .ended).onChannel name fun s => s.onEnd name
    else .ok s
  | .failed name =>
    if s.connection name = .connecting then
      (s.setConnection name .ended).onChannel name fun s => s.onEnd name
    else .ok s

def run (es : List Event) : Except Unit ReceiverLoop := es.foldlM (step json) s

end ReceiverLoop
end Flingd.Sdk
