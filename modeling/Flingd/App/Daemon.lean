import Flingd.App.ApplicationManager
import Flingd.Base.StdMap

/-! `SessionManager.cpp`, the handlers `ApplicationControlHandler.cpp`, `DialHandler.cpp`
and `ReceiverApplicationHandler.cpp`, and the events of the daemon. A request comes with
its path taken apart and its body parsed; the timers of sessions are events, and an id
that `UUID::generateUUID` makes is given with the event that needs it. -/
namespace Flingd.App
open Outcome

inductive Frame where
  | registerok
  | startHeartbeat
  | senderconnected (token : Bytes)
  | senderdisconnected (token : Bytes)
  | heartbeat (type : Bytes)
deriving DecidableEq

/-- A handler with its websocket, which `isOpen` until it starts to close. -/
structure ReceiverApplicationHandler where
  appId : Bytes
  isOpen : Bool
  sent : List Frame
deriving DecidableEq

/-- `handler` notes the handler that asked for the session. -/
structure ReceiverSession where
  token : Bytes
  appId : Bytes
  handler : Nat
deriving DecidableEq

structure Daemon where
  manager : ApplicationManager
  senderSessions_ : StdMap Bytes Bytes
  receiverSession_ : Option ReceiverSession
  sessionListener_ : Option Nat
  handlers : Nat → Option ReceiverApplicationHandler
  nextHandler : Nat

inductive Reply where
  /-- No response is sent. -/
  | silence
  | status (code : Nat)
  /-- The token of the sender, with the interval. -/
  | token (code : Nat) (token : Bytes)
  /-- The document that a GET asks for; without an alive application of that name it has no
  additional data. -/
  | document (name : Bytes) (appState : AppState) (additionalData : Option Bytes)
deriving DecidableEq

/-- The body of a POST; `rejected` is one that does not parse or lacks `type` or `app_info`. -/
inductive PostBody where
  | empty
  | rejected
  | request (type : Bytes) (appInfo : AppInfo)

/-- What `onMessage` reads of an object. `additionaldata` is the text that is made of it,
`none` where it is no object. -/
structure ReceiverMessage where
  appid : Option Bytes
  type : Option Bytes
  additionaldata : Option Bytes
  hasHeartbeat : Bool

namespace Daemon

def start : Daemon := ⟨.start, StdMap.empty, none, none, fun _ => none, 0⟩

/-! ### Handlers of receivers -/

def setHandler (s : Daemon) (handler : Nat) (r : Option ReceiverApplicationHandler) : Daemon :=
  { s with handlers := fun i => if i = handler then r else s.handlers i }

def derefHandler (s : Daemon) (handler : Nat) : Except Fault ReceiverApplicationHandler :=
  match s.handlers handler with
  | some r => .ok r
  | none => .error .gone

/-- A send on a websocket that is not open is caught. -/
def send (s : Daemon) (handler : Nat) (frame : Frame) : Except Fault Daemon := do
  let r ← s.derefHandler handler
  .ok (if r.isOpen then s.setHandler handler (some { r with sent := r.sent ++ [frame] }) else s)

/-- A close is not. -/
def close (s : Daemon) (handler : Nat) : Except Fault Daemon := do
  let r ← s.derefHandler handler
  if r.isOpen then .ok (s.setHandler handler (some { r with isOpen := false }))
  else .error .thrown

/-! ### `SessionManager` -/

def notify (s : Daemon) (frame : Frame) : Except Fault Daemon :=
  match s.sessionListener_ with
  | some listener => s.send listener frame
  | none => .ok s

def checkSender (s : Daemon) (token : Bytes) : Bool :=
  (s.senderSessions_.scan (token = ·)).isSome

def createSender (s : Daemon) (appId token : Bytes) : Except Fault Daemon :=
  { s with senderSessions_ := s.senderSessions_.insert token appId }.notify (.senderconnected token)

def disconnectSender (s : Daemon) (token : Bytes) : Except Fault Daemon :=
  if s.checkSender token then
    { s with senderSessions_ := s.senderSessions_.eraseFirst (token = ·) }.notify
      (.senderdisconnected token)
  else .ok s

/-- `none` where there is a receiver session already. -/
def createReceiver (s : Daemon) (appId token : Bytes) (handler : Nat) : Option Daemon :=
  match s.receiverSession_ with
  | some _ => none
  | none => some { s with receiverSession_ := some ⟨token, appId, handler⟩ }

def disconnectReceiver (s : Daemon) (appId : Bytes) : Daemon :=
  match s.receiverSession_ with
  | some r => if appId = r.appId then { s with receiverSession_ := none } else s
  | none => s

def setSessionListender (s : Daemon) : Option Nat → Except Fault Daemon
  | none => .ok { s with sessionListener_ := none }
  | some listener =>
    s.senderSessions_.entries.foldlM (fun s e => s.send listener (.senderconnected e.1))
      { s with sessionListener_ := some listener }

/-- `onReceiverDisconnected` of the listener closes its websocket. -/
def onReceiverTimeout (s : Daemon) (token : Bytes) : Except Fault Daemon :=
  match s.receiverSession_ with
  | none => .ok s
  | some r =>
    if token ≠ r.token then .ok s
    else
      match s.sessionListener_ with
      | none => .ok { s with receiverSession_ := none }
      | some listener => do
        let h ← s.derefHandler listener
        let s ← if r.appId = h.appId then s.close listener else .ok s
        .ok { s with receiverSession_ := none }

/-! ### Requests -/

def doStop (s : Daemon) (appId : Bytes) : Except Fault Daemon := do
  let m ← s.manager.stopApplicationByAppId appId
  .ok { s with manager := m }

def doLaunch (s : Daemon) (appId : Bytes) (info : AppInfo) : Except Fault Daemon := do
  let m ← (s.manager.newApplication appId info).launchApplication s.manager.nextApp
  .ok { s with manager := m }

/-- Whether there is an alive application, and whether it has the id. -/
def aliveIs (s : Daemon) (appId : Bytes) : Except Fault (Option Bool × Daemon) :=
  match s.manager.getAliveApplication with
  | none => .ok (none, s)
  | some app => do
    let (id, m) ← s.manager.getAppId app
    .ok (some (id = appId), { s with manager := m })

def writeStatus (s : Daemon) (appId : Bytes) : Except Fault (Daemon × Reply) := do
  let (alive, s) ← s.aliveIs appId
  match alive, s.manager.getAliveApplication with
  | some true, some app => do
    let a ← s.manager.deref app
    .ok (s, .document appId a.appState (some a.additionalData))
  | _, _ => .ok (s, .document appId .stopped none)

def onGet (s : Daemon) (appId authToken : Bytes) : Except Fault (Daemon × Reply) :=
  if authToken ≠ [] ∧ s.checkSender authToken = false then .ok (s, .status 400)
  else s.writeStatus appId

/-- The part of `onPost` from `getAliveApplication` on, with the status it comes to. -/
def launchOrJoin (s : Daemon) (appId type : Bytes) (appInfo : AppInfo) :
    Except Fault (Daemon × Nat) := do
  let (alive, s) ← s.aliveIs appId
  match alive with
  | some same =>
    if type = str "launch" then
      if same then .ok (s, 200)
      else do
        let s ← s.doStop appId
        let s ← s.doLaunch appId appInfo
        .ok (s, 201)
    else if type = str "relaunch" then
      if same then do
        let s ← s.doStop appId
        let s ← s.doLaunch appId appInfo
        .ok (s, 201)
      else .ok (s, 400)
    else if same then .ok (s, 200)
    else .ok (s, 400)
  | none =>
    if type = str "launch" then do
      let s ← s.doLaunch appId appInfo
      .ok (s, 201)
    else .ok (s, 400)

/-- `uuid` is the token of a new sender. -/
def onPost (s : Daemon) (appId authToken uuid : Bytes) : PostBody → Except Fault (Daemon × Reply)
  | .empty => .ok (s, .status 400)
  | .rejected => .ok (s, .silence)
  | .request type appInfo =>
    if type ≠ str "launch" ∧ type ≠ str "relaunch" ∧ type ≠ str "join" then .ok (s, .status 400)
    else do
      let (s, authToken) ← if authToken = [] then do
          let s ← s.createSender appId uuid
          .ok (s, uuid)
        else .ok (s, authToken)
      let (s, code) ← s.launchOrJoin appId type appInfo
      .ok (s, if code = 400 then .status code else .token code authToken)

def stopAlive (s : Daemon) (appId : Bytes) : Except Fault (Daemon × Reply) := do
  let (alive, s) ← s.aliveIs appId
  match alive with
  | some true => do
    let s ← s.doStop appId
    .ok (s, .status 200)
  | some false => .ok (s, .status 400)
  | none => .ok (s, .status 404)

/-- `isInstance`: whether the path names the running instance. -/
def onDelete (s : Daemon) (appId authToken : Bytes) (isInstance : Bool) :
    Except Fault (Daemon × Reply) :=
  if authToken = [] ∨ s.checkSender authToken = false then .ok (s, .status 400)
  else do
    let s ← s.disconnectSender authToken
    if isInstance then s.stopAlive appId else .ok (s, .status 200)

/-! ### Requests of DIAL clients -/

/-- `getConfig` and `makeDialApplication`; the table has one entry, which takes no empty data. -/
def makeDialApplication (appId data : Bytes) : Option AppInfo :=
  if iequals appId (str "YouTube") ∧ data ≠ [] then
    some ⟨str "https://www.youtube.com/tv?" ++ data, false, -1⟩
  else none

def onDialPost (s : Daemon) (appId data : Bytes) : Except Fault (Daemon × Reply) :=
  match makeDialApplication appId data with
  | none => .ok (s, .status 400)
  | some appInfo => do
    let (s, code) ← s.launchOrJoin appId (str "launch") appInfo
    .ok (s, .status code)

def onDialDelete (s : Daemon) (appId : Bytes) : Except Fault (Daemon × Reply) := s.stopAlive appId

/-! ### Receivers -/

/-- The branch `register` of an application that uses IPC. -/
def register (s : Daemon) (handler app : Nat) (appId uuid : Bytes) : Except Fault Daemon := do
  let s ← s.setSessionListender (some handler)
  match s.createReceiver appId uuid handler with
  | none => s.close handler
  | some s => do
    let m ← s.manager.started ApplicationManager.launchApplication app
    let s ← { s with manager := m }.send handler .registerok
    s.send handler .startHeartbeat

def stopAndClose (s : Daemon) (handler : Nat) (appId : Bytes) : Except Fault Daemon := do
  let s ← s.doStop appId
  s.close handler

/-- The part of `onMessage` after the checks; a heartbeat is taken for a string. -/
def onTypedMessage (s : Daemon) (handler app : Nat) (appId uuid type : Bytes)
    (d : ReceiverMessage) : Except Fault Daemon :=
  if iequals type (str "register") then do
    let a ← s.manager.deref app
    if a.info.useIpc then s.register handler app appId uuid else s.stopAndClose handler appId
  else if iequals type (str "unregister") then s.stopAndClose handler appId
  else if iequals type (str "additionaldata") then
    match d.additionaldata with
    | none => .ok s
    | some data => do
      let m ← s.manager.update app fun a => { a with additionalData := data }
      .ok { s with manager := m }
  else if iequals type (str "heartbeat") ∧ d.hasHeartbeat then .error .misused
  else .ok s

/-- A message is delivered only while the websocket is open; `none` is one that does not parse. -/
def onMessage (s : Daemon) (handler : Nat) (uuid : Bytes) (d : Option ReceiverMessage) :
    Except Fault Daemon :=
  match s.handlers handler with
  | none => .ok s
  | some r =>
    if r.isOpen = false then .ok s
    else do
      let (alive, s) ← s.aliveIs r.appId
      match alive, s.manager.getAliveApplication, d with
      | some true, some app, some d =>
        if d.appid ≠ some r.appId then .ok s
        else
          match d.type with
          | none => .ok s
          | some type => s.onTypedMessage handler app r.appId uuid type d
      | some true, _, _ => .ok s
      | _, _, _ => s.close handler

/-- The part of `onClose` that asks the manager. -/
def closeApplication (m : ApplicationManager) (appId : Bytes) : Except Fault ApplicationManager :=
  let stopAnyway (m : ApplicationManager) : Except Fault ApplicationManager := do
    let m ← m.stopApplicationByAppId appId
    match m.getStoppingApplication with
    | some app => m.stopped ApplicationManager.launchApplication app
    | none => .ok m
  match m.getStoppingApplication with
  | none => stopAnyway m
  | some app => do
    let (id, m) ← m.getAppId app
    if id = appId then m.stopped ApplicationManager.launchApplication app else stopAnyway m

/-- `onClose` of a handler, which deletes it in the end. -/
def onClose (s : Daemon) (handler : Nat) : Except Fault Daemon :=
  match s.handlers handler with
  | none => .ok s
  | some r => do
    let s ← (s.disconnectReceiver r.appId).setSessionListender none
    let m ← closeApplication s.manager r.appId
    .ok ({ s with manager := m }.setHandler handler none)

/-! ### Events -/

inductive Event where
  | get (appId authToken : Bytes)
  | post (appId authToken uuid : Bytes) (body : PostBody)
  | delete (appId authToken : Bytes) (isInstance : Bool)
  | dialGet (appId : Bytes)
  | dialPost (appId data : Bytes)
  | dialDelete (appId : Bytes)
  /-- A websocket is opened for the receiver of an application. -/
  | connect (appId : Bytes)
  | message (handler : Nat) (uuid : Bytes) (d : Option ReceiverMessage)
  | closed (handler : Nat)
  /-- The time of a wait has come. -/
  | elapse (app : Nat) (name : ApplicationManager.TimerName)
  /-- The handler of such a wait runs. -/
  | expire (app : Nat) (name : ApplicationManager.TimerName)
  | senderTimeout (token : Bytes)
  | receiverTimeout (token : Bytes)

/-- A sender without a token asks for an application without a limit. -/
def Event.launch (appId url : Bytes) (useIpc : Bool) : Event :=
  .post appId [] (str "token") (.request (str "launch") ⟨url, useIpc, -1⟩)

def Event.register (handler : Nat) (appId : Bytes) : Event :=
  .message handler (str "receiver") (some ⟨some appId, some (str "register"), none, false⟩)

def connect (s : Daemon) (appId : Bytes) : Daemon :=
  { s with nextHandler := s.nextHandler + 1 }.setHandler s.nextHandler (some ⟨appId, true, []⟩)

def expire (s : Daemon) (app : Nat) (name : ApplicationManager.TimerName) :
    Except Fault Daemon := do
  let m ← s.manager.expire app name
  .ok { s with manager := m }

def step (s : Daemon) : Event → Except Fault Daemon
  | .get appId authToken => (s.onGet appId authToken).map (·.1)
  | .post appId authToken uuid body => (s.onPost appId authToken uuid body).map (·.1)
  | .delete appId authToken isInstance => (s.onDelete appId authToken isInstance).map (·.1)
  | .dialGet appId => (s.writeStatus appId).map (·.1)
  | .dialPost appId data => (s.onDialPost appId data).map (·.1)
  | .dialDelete appId => (s.onDialDelete appId).map (·.1)
  | .connect appId => .ok (s.connect appId)
  | .message handler uuid d => s.onMessage handler uuid d
  | .closed handler => s.onClose handler
  | .elapse app name => .ok { s with manager := s.manager.elapse app name }
  | .expire app name => s.expire app name
  | .senderTimeout token => s.disconnectSender token
  | .receiverTimeout token => s.onReceiverTimeout token

def run (s : Daemon) (es : List Event) : Except Fault Daemon := es.foldlM step s

end Daemon
end Flingd.App
