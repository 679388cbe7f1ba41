import Flingd.Base.Outcome
import Flingd.Http.UrlParser

/-! `PeerServer.cpp` and the classes `Peer` and `PeerMessage`. A `Peer` is owned by
`peers_` from its creation on, and a queue by `outstandings_`; pointers to peers and
to sessions are numbers that are not given out again. `rapidjson`, the regular
expression of `UrlParser::parse` and `websocketpp` are outside: the first two are
parameters, and a connection takes messages only while it is open. -/
namespace Flingd.Peers
open Http Outcome

structure PeerMessage where
  type : Bytes
  src : Bytes
  dst : Bytes
  data : Bytes
deriving DecidableEq

/-- A text that was sent. A transmission is sent as the data of its message. -/
inductive Frame where
  | opened
  | error (errType errMsg : Bytes)
  | transmission (pm : PeerMessage)
deriving DecidableEq

/-- `isOpen` holds until the connection starts to close. -/
structure WebsocketSession where
  isOpen : Bool
  /-- The peer whose `onClose` and `onMessage` are connected to the signals. -/
  bound : Option Nat
  sent : List Frame
deriving DecidableEq

structure Peer where
  ptr : Nat
  id : Bytes
  token : Bytes
  session : Option Nat
  /-- How often `onPeerClose` and `onPeerMessage` are connected to the signals. -/
  closeSlots : Nat
  messageSlots : Nat
deriving DecidableEq

/-- A queue behind its pointer; `none` while nothing may be appended to it, since it
is iterated over or deleted. -/
abbrev Queue := Option (List PeerMessage)

structure PeerServer where
  peers_ : StdMap Bytes Peer
  outstandings_ : StdMap Bytes Queue
  sessions : Nat → Option WebsocketSession
  nextSession : Nat
  nextPeer : Nat

/-- Why a handler does not come to its end. -/
inductive Fault where
  /-- An object is used after it was deleted. -/
  | freed
  /-- An exception of `websocketpp` leaves the handler. -/
  | thrown
  /-- A `rapidjson` accessor is used outside its precondition. -/
  | misused
  /-- More nested calls than were allowed for. -/
  | depth
deriving DecidableEq

inductive Member where
  | null
  | string (s : Bytes)
  | other
deriving DecidableEq

/-- What `onPeerMessage` reads of an object, and the text it makes of it by adding `src`. -/
structure Document where
  type : Member
  dst : Member
  payload : Member
  withSrc : Bytes → Bytes

def Member.getString : Member → Except Fault Bytes
  | .string s => .ok s
  | _ => .error .misused

def start : PeerServer := ⟨StdMap.empty, StdMap.empty, fun _ => none, 0, 0⟩

namespace PeerServer

/-! ### The tables -/

def getPeer (s : PeerServer) (id : Bytes) : Option Peer :=
  (s.peers_.scan (iequals id)).map (·.2)

def removePeer (s : PeerServer) (id : Bytes) : PeerServer :=
  { s with peers_ := s.peers_.eraseFirst (iequals id) }

def addPeer (s : PeerServer) (id : Bytes) (p : Peer) : PeerServer :=
  if (s.getPeer id).isNone then { s with peers_ := s.peers_.insert id p } else s

def getPeerMessages (s : PeerServer) (id : Bytes) : Option Queue :=
  (s.outstandings_.scan (iequals id)).map (·.2)

def removePeerMessages (s : PeerServer) (id : Bytes) : PeerServer :=
  { s with outstandings_ := s.outstandings_.eraseFirst (iequals id) }

/-- A message for which there is no queue yet makes an empty one. -/
def addPeerMessages (s : PeerServer) (id : Bytes) (message : PeerMessage) :
    Except Fault PeerServer :=
  match s.getPeerMessages id with
  | none => .ok { s with outstandings_ := s.outstandings_.insert id (some []) }
  | some none => .error .freed
  | some (some messages) =>
    let pushed : Queue := some (messages ++ [message])
    .ok { s with outstandings_ := s.outstandings_.modifyFirst (iequals id) fun _ => pushed }

/-! ### Pointers -/

def deref (s : PeerServer) (ptr : Nat) : Except Fault Peer :=
  match s.peers_.entries.find? fun e => e.2.ptr = ptr with
  | some e => .ok e.2
  | none => .error .freed

def updatePeer (s : PeerServer) (ptr : Nat) (f : Peer → Peer) : Except Fault PeerServer := do
  let _ ← s.deref ptr
  .ok { s with peers_ := s.peers_.mapValues fun p => if p.ptr = ptr then f p else p }

def derefSession (s : PeerServer) (session : Nat) : Except Fault WebsocketSession :=
  match s.sessions session with
  | some w => .ok w
  | none => .error .freed

def setSession (s : PeerServer) (session : Nat) (w : Option WebsocketSession) : PeerServer :=
  { s with sessions := fun i => if i = session then w else s.sessions i }

def updateSession (s : PeerServer) (session : Nat) (f : WebsocketSession → WebsocketSession) :
    Except Fault PeerServer := do
  let w ← s.derefSession session
  .ok (s.setSession session (some (f w)))

/-! ### `WebsocketSession` -/

/-- `WebsocketSession::send` catches what `websocketpp` throws when the connection is
not open. -/
def sendTo (s : PeerServer) (session : Nat) (frame : Frame) : Except Fault PeerServer :=
  s.updateSession session fun w => if w.isOpen then { w with sent := w.sent ++ [frame] } else w

/-- `WebsocketSession::close` does not. -/
def close (s : PeerServer) (session : Nat) : Except Fault PeerServer := do
  let w ← s.derefSession session
  if w.isOpen then s.updateSession session fun w => { w with isOpen := false }
  else .error .thrown

def sendError (s : PeerServer) (session : Nat) (errType errMsg : Bytes) :
    Except Fault PeerServer := do
  let s ← s.sendTo session (.error errType errMsg)
  s.close session

/-! ### `Peer` -/

def initSession (s : PeerServer) (ptr session : Nat) : Except Fault PeerServer :=
  s.updateSession session fun w => { w with bound := some ptr }

def resetSession (s : PeerServer) (p : Peer) (session : Nat) : Except Fault PeerServer := do
  let s ← match p.session with
    | some old => s.close old
    | none => .ok s
  let s ← s.updatePeer p.ptr fun p => { p with session := some session }
  s.initSession p.ptr session

/-! ### Transmission -/

/-- Whether a session's `send` throws is a parameter here. The argument `key` is only
handed on, and left out. -/
def transmit (throws : Nat → Bool) : Nat → PeerServer → PeerMessage → Except Fault PeerServer
  | 0, _, _ => .error .depth
  | depth+1, s, pm =>
    let leave : PeerMessage := ⟨str "LEAVE", pm.dst, pm.src, []⟩
    match s.getPeer pm.dst with
    | some p =>
      match p.session with
      | some session =>
        if throws session then transmit throws depth (s.removePeer pm.dst) leave
        else s.sendTo session (.transmission pm)
      | none => transmit throws depth (s.removePeer pm.dst) leave
    | none =>
      if ¬ iequals pm.type (str "LEAVE") ∧ ¬ iequals pm.type (str "EXPIRE") ∧
          ¬ iequals pm.dst (str "") then s.addPeerMessages pm.dst pm
      else if iequals pm.type (str "LEAVE") ∧ iequals pm.dst (str "") then
        .ok (s.removePeer pm.src)
      else .ok s

/-- No `send` of a `WebsocketSession` throws; every nested call has lost a peer. -/
def handleTransmission (s : PeerServer) (pm : PeerMessage) : Except Fault PeerServer :=
  transmit (fun _ => false) (s.peers_.size + 1) s pm

def processOutstanding (s : PeerServer) (id : Bytes) : Except Fault PeerServer :=
  match s.getPeerMessages id with
  | none => .ok s
  | some none => .error .freed
  | some (some messages) => do
    let s ← messages.foldlM handleTransmission s
    .ok (s.removePeerMessages id)

/-! ### Expiry -/

/-- The loop of `handleCleanupIntervals` from the queue after `last` on. For each
message its destination sends the source an empty one. -/
def cleanupFrom : Nat → PeerServer → Option Bytes → Except Fault PeerServer
  | 0, _, _ => .error .depth
  | depth+1, s, last =>
    match s.outstandings_.entries.find? fun e => last.all (· < e.1) with
    | none => .ok s
    | some (_, none) => .error .freed
    | some (dst, some pending) => do
      let s := { s with outstandings_ := s.outstandings_.modifyFirst (dst = ·) fun _ => none }
      let s ← pending.foldlM (fun s pm => s.handleTransmission ⟨pm.type, pm.dst, pm.src, []⟩) s
      cleanupFrom depth s (some dst)

/-- A message adds at most one queue, which is empty. -/
def handleCleanupIntervals (s : PeerServer) : Except Fault PeerServer := do
  let queued := (s.outstandings_.entries.map fun e => 1 + (e.2.getD []).length).sum
  let s ← cleanupFrom (queued + 1) s none
  .ok { s with outstandings_ := StdMap.empty }

/-! ### Connections -/

/-- `none` where the key is accepted, otherwise the error message. -/
def checkKey (s : PeerServer) (key : Bytes) : Option Bytes :=
  if ¬ iequals (str "peerjs") key then some (str "Invalid key provided")
  else if s.peers_.size > 5000 then some (str "Server has reached its concurrent user limit")
  else none

def configureWs (s : PeerServer) (session : Nat) (id token : Bytes) : Except Fault PeerServer :=
  match s.getPeer id with
  | none => .ok s
  | some p =>
    if ¬ iequals p.token token then s.sendError session (str "ID-TAKEN") (str "ID is taken")
    else do
      let s ← s.processOutstanding id
      s.updatePeer p.ptr fun p =>
        { p with closeSlots := p.closeSlots + 1, messageSlots := p.messageSlots + 1 }

/-- The part of `onWebsocketConnection` after the query has been taken apart. -/
def connectPeer (s : PeerServer) (session : Nat) (key id token : Bytes) : Except Fault PeerServer :=
  if iequals key (str "") ∨ iequals id (str "") ∨ iequals token (str "") then
    s.sendError session (str "ERROR") (str "No id, token, or key supplied to peerjs server")
  else
    match s.getPeer id with
    | none =>
      match s.checkKey key with
      | none => do
        let p : Peer := ⟨s.nextPeer, id, token, some session, 0, 0⟩
        let s ← { s with nextPeer := s.nextPeer + 1 }.initSession p.ptr session
        let s ← (s.addPeer id p).sendTo session .opened
        s.configureWs session id token
      | some errMsg => s.sendError session (str "ERROR") errMsg
    | some p => do
      let s ← s.resetSession p session
      s.configureWs session id token

def isPeerPath (path : Bytes) : Bool :=
  iequals (str "peerjs") path || iequals (str "/peerjs") path || iequals (str "/peerjs/") path

/-- `url` is what `UrlParser::parse` makes of the resource; on `none` it leaves
`validated` unset. -/
def onWebsocketConnection (s : PeerServer) (session : Nat) (url : Option Url) :
    Except Fault PeerServer :=
  match url with
  | none => .ok s
  | some url =>
    if ¬ isPeerPath url.path then .ok s
    else
      let queries := UrlParser.parseQuery url.query
      s.connectPeer session (UrlParser.getValue queries (str "key"))
        (UrlParser.getValue queries (str "id")) (UrlParser.getValue queries (str "token"))

/-! ### Events of a peer -/

def onPeerClose (s : PeerServer) (peer : Nat) : Except Fault PeerServer := do
  let p ← s.deref peer
  .ok (s.removePeer p.id)

/-- The types that `onPeerMessage` recognises. -/
def isRelayed (type : Bytes) : Bool :=
  iequals type (str "LEAVE") || iequals type (str "CANDIDATE") || iequals type (str "OFFER") ||
    iequals type (str "ANSWER")

/-- `d` is the parsed message, `none` where it is no object. -/
def onPeerMessage (s : PeerServer) (peer : Nat) (d : Option Document) :
    Except Fault PeerServer := do
  let p ← s.deref peer
  match d with
  | none => .error .misused
  | some d =>
    if d.type = .null then .ok s
    else
      let type ← d.type.getString
      if isRelayed type then
        if d.dst = .null then .ok s
        else if d.payload = .null then .ok s
        else
          let dst ← d.dst.getString
          s.handleTransmission ⟨type, p.id, dst, d.withSrc p.id⟩
      else .ok s

/-! ### Events of the server -/

inductive Event where
  /-- A websocket is opened; the URL is what its resource parses to. -/
  | connect (url : Option Url)
  /-- A text comes in on an open websocket. -/
  | message (session : Nat) (d : Option Document)
  /-- A websocket has closed. -/
  | closed (session : Nat)
  /-- The cleanup timer has expired. -/
  | cleanup

/-- The resource `/peerjs?key=peerjs&id=..&token=..`. -/
def peerUrl (id token : Bytes) : Url :=
  ⟨str "/peerjs", str "key=peerjs&id=" ++ id ++ str "&token=" ++ token⟩

/-- `HTTPServer::onWebsocketConnect`. -/
def connect (s : PeerServer) (url : Option Url) : Except Fault PeerServer :=
  let session := s.nextSession
  let s := { s with nextSession := session + 1 }
  (s.setSession session (some ⟨true, none, []⟩)).onWebsocketConnection session url

/-- `WebsocketSession::onMessage`. Only an open connection delivers messages. -/
def message (s : PeerServer) (session : Nat) (d : Option Document) : Except Fault PeerServer :=
  match s.sessions session with
  | none => .ok s
  | some w =>
    match w.isOpen, w.bound with
    | true, some ptr => do
      let p ← s.deref ptr
      runSlots (onPeerMessage · ptr d) p.messageSlots s
    | _, _ => .ok s

/-- `WebsocketSession::clear`: the signal `Close`, then `delete this`. -/
def closed (s : PeerServer) (session : Nat) : Except Fault PeerServer :=
  match s.sessions session with
  | none => .ok s
  | some w => do
    let s ← match w.bound with
      | none => .ok s
      | some ptr => do
        let p ← s.deref ptr
        runSlots (onPeerClose · ptr) p.closeSlots s
    .ok (s.setSession session none)

def step (s : PeerServer) : Event → Except Fault PeerServer
  | .connect url => s.connect url
  | .message session d => s.message session d
  | .closed session => s.closed session
  | .cleanup => s.handleCleanupIntervals

def run (s : PeerServer) (es : List Event) : Except Fault PeerServer := es.foldlM step s

end PeerServer
end Flingd.Peers
