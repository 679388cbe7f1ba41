import Flingd.Base.Outcome
import Flingd.Base.Rapidjson
import Flingd.Base.StdMap

/-! `ws/WebsocketServer.cpp`: the server of the message channels. A handler is deleted with its
session, so that a pointer to one is the number of the session; numbers are not given out again. -/
namespace Flingd.Ws
open Outcome

inductive Frame where
  | senderConnected (senderId : Bytes)
  | senderDisconnected (senderId : Bytes)
  | message (senderId msg : Bytes)
  /-- What a receiver has sent to a sender. -/
  | data (text : Bytes)
deriving DecidableEq

namespace Frame

def text (json : Rapidjson) : Frame → Bytes
  | .senderConnected senderId =>
    json.write (.object [(str "type", .text (str "senderConnected")),
      (str "senderId", .text senderId)])
  | .senderDisconnected senderId =>
    json.write (.object [(str "type", .text (str "senderDisconnected")),
      (str "senderId", .text senderId)])
  | .message senderId msg =>
    json.write (.object [(str "type", .text (str "message")), (str "senderId", .text senderId),
      (str "data", .text msg)])
  | .data text => text

end Frame

/-- `SenderChannel` and `ReceiverChannel`; `none` is the pointer NULL. -/
inductive WebsocketHandler where
  | sender (senderId_ : Bytes) (receiverChannel_ : Option Nat)
  | receiver (channelId_ : Bytes) (senders_ : StdMap Bytes Nat)
deriving DecidableEq

/-- `isOpen` holds until the connection starts to close, and `closeCalled` from the call of `close`
on. What was passed to `send` is in `sent`, also where the connection no longer takes it. -/
structure WebsocketSession where
  isOpen : Bool
  closeCalled : Bool
  handler : Option WebsocketHandler
  sent : List Frame
deriving DecidableEq

structure WebsocketServer where
  receivers_ : StdMap Bytes Nat
  sessions : Nat → Option WebsocketSession
  nextSession : Nat

/-- Why a handler does not come to its end. -/
inductive Fault where
  /-- An object is used after it was deleted, or NULL. -/
  | freed
  /-- A session that is not open is closed, and the exception leaves the handler. -/
  | thrown
  /-- A `rapidjson` accessor is used outside its precondition. -/
  | misused
deriving DecidableEq

namespace WebsocketServer

def start : WebsocketServer := ⟨StdMap.empty, fun _ => none, 0⟩

/-! ### Sessions -/

def setSession (s : WebsocketServer) (session : Nat) (w : Option WebsocketSession) :
    WebsocketServer :=
  { s with sessions := Function.update s.sessions session w }

def derefSession (s : WebsocketServer) (session : Nat) : Except Fault WebsocketSession :=
  match s.sessions session with
  | some w => .ok w
  | none => .error .freed

def send (s : WebsocketServer) (session : Nat) (frame : Frame) : Except Fault WebsocketServer := do
  let w ← s.derefSession session
  .ok (s.setSession session (some { w with sent := w.sent ++ [frame] }))

def close (s : WebsocketServer) (session : Nat) : Except Fault WebsocketServer := do
  let w ← s.derefSession session
  if w.isOpen then
    .ok (s.setSession session (some { w with isOpen := false, closeCalled := true }))
  else .error .thrown

/-! ### Handlers -/

def handler (s : WebsocketServer) (session : Nat) : Option WebsocketHandler :=
  (s.sessions session).bind (·.handler)

def setHandler (s : WebsocketServer) (session : Nat) (h : WebsocketHandler) :
    Except Fault WebsocketServer := do
  let w ← s.derefSession session
  .ok (s.setSession session (some { w with handler := some h }))

/-- The members of a `ReceiverChannel`. -/
def derefReceiver (s : WebsocketServer) (channel : Nat) :
    Except Fault (Bytes × StdMap Bytes Nat) :=
  match s.handler channel with
  | some (.receiver channelId senders) => .ok (channelId, senders)
  | _ => .error .freed

/-- The members of a `SenderChannel`. -/
def derefSender (s : WebsocketServer) (channel : Nat) : Except Fault (Bytes × Option Nat) :=
  match s.handler channel with
  | some (.sender senderId channel) => .ok (senderId, channel)
  | _ => .error .freed

/-- `SenderChannel::close`. -/
def closeSender (s : WebsocketServer) (channel : Nat) : Except Fault WebsocketServer := do
  let (senderId, _) ← s.derefSender channel
  let s ← s.setHandler channel (.sender senderId none)
  s.close channel

/-- `SenderChannel::send`. -/
def sendToSender (s : WebsocketServer) (channel : Nat) (frame : Frame) :
    Except Fault WebsocketServer := do
  let _ ← s.derefSender channel
  s.send channel frame

/-! ### `ReceiverChannel` -/

def getSenderChannel (senders_ : StdMap Bytes Nat) (senderId : Bytes) : Option Nat :=
  (senders_.scan (senderId = ·)).map (·.2)

def addSenderChannel (s : WebsocketServer) (channel : Nat) (senderId : Bytes)
    (senderSession : Nat) : Except Fault WebsocketServer := do
  let (channelId, senders) ← s.derefReceiver channel
  match getSenderChannel senders senderId with
  | none => do
    let s ← s.setHandler senderSession (.sender senderId (some channel))
    let s ← s.setHandler channel (.receiver channelId (senders.insert senderId senderSession))
    s.send channel (.senderConnected senderId)
  | some _ => s.close senderSession

def removeSenderChannel (s : WebsocketServer) (channel : Nat) (senderId : Bytes) :
    Except Fault WebsocketServer := do
  let (channelId, senders) ← s.derefReceiver channel
  match getSenderChannel senders senderId with
  | none => .ok s
  | some _ => do
    let s ← s.send channel (.senderDisconnected senderId)
    s.setHandler channel (.receiver channelId (senders.eraseFirst (senderId = ·)))

/-! ### Messages -/

def sendData (s : WebsocketServer) (sender : Nat) (data : Json Bytes) :
    Except Fault WebsocketServer :=
  match data.getString with
  | some text => s.sendToSender sender (.data text)
  | none => .error .misused

/-- `SenderChannel::onMessage`. -/
def onSenderMessage (s : WebsocketServer) (senderId_ : Bytes) (receiverChannel_ : Option Nat)
    (msg : Bytes) : Except Fault WebsocketServer :=
  match receiverChannel_ with
  | none => .error .freed
  | some channel => do
    let _ ← s.derefReceiver channel
    s.send channel (.message senderId_ msg)

/-- `ReceiverChannel::onMessage`. -/
def onReceiverMessage (json : Rapidjson) (s : WebsocketServer) (senders_ : StdMap Bytes Nat)
    (msg : Bytes) : Except Fault WebsocketServer :=
  match json.parse msg with
  | some (.object members) =>
    let data := Json.get members (str "data")
    match (Json.get members (str "senderId")).getString with
    | none => .error .misused
    | some senderId =>
      if senderId = str "*:*" then senders_.entries.foldlM (fun s e => s.sendData e.2 data) s
      else
        match getSenderChannel senders_ senderId with
        | none => .ok s
        | some sender => s.sendData sender data
  | _ => .error .misused

def onMessage (json : Rapidjson) (s : WebsocketServer) (session : Nat) (msg : Bytes) :
    Except Fault WebsocketServer :=
  match s.handler session with
  | none => .ok s
  | some (.sender senderId channel) => s.onSenderMessage senderId channel msg
  | some (.receiver _ senders) => s.onReceiverMessage json senders msg

/-! ### Closed sessions -/

/-- `SenderChannel::onClose`. -/
def onSenderClose (s : WebsocketServer) (senderId_ : Bytes) (receiverChannel_ : Option Nat) :
    Except Fault WebsocketServer :=
  match receiverChannel_ with
  | none => .ok s
  | some channel => s.removeSenderChannel channel senderId_

def removeReceiverChannel (s : WebsocketServer) (channelId : Bytes) : WebsocketServer :=
  { s with receivers_ := s.receivers_.eraseFirst (channelId = ·) }

/-- `ReceiverChannel::onClose`. -/
def onReceiverClose (s : WebsocketServer) (channelId_ : Bytes) (senders_ : StdMap Bytes Nat) :
    Except Fault WebsocketServer := do
  let s ← senders_.entries.foldlM (fun s e => s.closeSender e.2) s
  .ok (s.removeReceiverChannel channelId_)

/-- `WebsocketSession::clear`: the handler deletes itself, and the session too. -/
def onClose (s : WebsocketServer) (session : Nat) : Except Fault WebsocketServer := do
  let s ← match s.handler session with
    | none => .ok s
    | some (.sender senderId channel) => s.onSenderClose senderId channel
    | some (.receiver channelId senders) => s.onReceiverClose channelId senders
  .ok (s.setSession session none)

/-! ### Connections -/

def getReceiverChannel (s : WebsocketServer) (channelId : Bytes) : Option Nat :=
  (s.receivers_.scan (channelId = ·)).map (·.2)

def addReceiverChannel (s : WebsocketServer) (channelId : Bytes) (receiverSession : Nat) :
    Except Fault WebsocketServer :=
  match s.getReceiverChannel channelId with
  | none => do
    let s ← s.setHandler receiverSession (.receiver channelId StdMap.empty)
    .ok { s with receivers_ := s.receivers_.insert channelId receiverSession }
  | some _ => s.close receiverSession

def onSenderConnected (s : WebsocketServer) (channelId senderId : Bytes) (senderSession : Nat) :
    Except Fault WebsocketServer :=
  match s.getReceiverChannel channelId with
  | some channel => s.addSenderChannel channel senderId senderSession
  | none => s.close senderSession

/-- `[a-zA-Z_0-9\-]`. -/
def isIdChar (c : UInt8) : Bool :=
  (97 ≤ c && c ≤ 122) || (65 ≤ c && c ≤ 90) || c = 95 || (48 ≤ c && c ≤ 57) || c = 45

/-- A word in any case with an id after it, and what follows. -/
def matchSegment (word s : Bytes) : Option (Bytes × Bytes) :=
  let rest := s.drop word.length
  let id := rest.takeWhile isIdChar
  if istartsWith s word = true ∧ id ≠ [] then some (id, rest.dropWhile isIdChar) else none

/-- `receiverRegex` at the beginning of a text. -/
def receiverRegex (s : Bytes) : Option Bytes := do
  let (channelId, _) ← matchSegment (str "/channels/") s
  some channelId

/-- `senderRegex` at the beginning of a text. -/
def senderRegex (s : Bytes) : Option (Bytes × Bytes) := do
  let (channelId, rest) ← matchSegment (str "/channels/") s
  let (senderId, _) ← matchSegment (str "/senders/") rest
  some (channelId, senderId)

/-- `regex_search`. -/
def regexSearch {α : Type} (regex : Bytes → Option α) : Bytes → Option α
  | [] => regex []
  | c :: s => (regex (c :: s)).or (regexSearch regex s)

def onWebsocketConnection (s : WebsocketServer) (session : Nat) (path : Bytes) :
    Except Fault WebsocketServer :=
  if (str "/channels/").isPrefixOf path then
    match regexSearch senderRegex (cStr path) with
    | some (channelId, senderId) => s.onSenderConnected channelId senderId session
    | none =>
      match regexSearch receiverRegex (cStr path) with
      | some channelId => s.addReceiverChannel channelId session
      | none => .ok s
  else .ok s

/-! ### Runs -/

inductive Event where
  | connect (path : Bytes)
  | message (session : Nat) (msg : Bytes)
  /-- The other end starts to close. -/
  | closing (session : Nat)
  /-- The connection is closed, or it fails. -/
  | closed (session : Nat)

def connect (s : WebsocketServer) (path : Bytes) : Except Fault WebsocketServer :=
  let session := s.nextSession
  { s.setSession session (some ⟨true, false, none, []⟩) with
    nextSession := session + 1 }.onWebsocketConnection session path

def step (json : Rapidjson) (s : WebsocketServer) : Event → Except Fault WebsocketServer
  | .connect path => s.connect path
  | .message session msg => s.onMessage json session msg
  | .closing session =>
    .ok (s.setSession session ((s.sessions session).map fun w => { w with isOpen := false }))
  | .closed session => s.onClose session

def run (json : Rapidjson) (s : WebsocketServer) (es : List Event) :
    Except Fault WebsocketServer := es.foldlM (step json) s

end WebsocketServer
end Flingd.Ws
