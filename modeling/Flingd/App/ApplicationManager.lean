import Flingd.Base.Bytes
import Flingd.Base.Outcome

/-! `Application.cpp` and `ApplicationManager.cpp`. An application is a number that is not
given out again. One that was deleted keeps its last contents here: reading its id through
a slot is noted as stale, every other use of it is a fault. The signals of an application
call the manager at once, so a stop can launch and a launch can stop before they return. -/
namespace Flingd.App
open Outcome

inductive AppState where
  | stopped
  | starting
  | running
  | stopping
deriving DecidableEq

/-- A `deadline_timer`: whether a wait is under way, and how many waits have come to their
end with success but not run their handler yet. `cancel` does not reach the latter. -/
structure Timer where
  armed : Bool
  due : Nat
deriving DecidableEq

/-- What a request says of the application. `appInfoRaw_` is the text of it. -/
structure AppInfo where
  url : Bytes
  useIpc : Bool
  maxInactive : Int
deriving DecidableEq

structure Application where
  appId : Bytes
  info : AppInfo
  appState : AppState
  additionalData : Bytes
  wsConnected : Bool
  startTimer : Timer
  stopTimer : Timer
  maxInactiveTimer : Timer
  /-- How often the manager is connected to `AppStarted`, `AppStopped` and `DoAppStop`. -/
  slots : Nat
  deleted : Bool
deriving DecidableEq

/-- `onStoped` up to `delete`, which takes the waits with it. -/
def Application.onStoped (a : Application) : Application :=
  { a with
    appState := .stopped, deleted := true
    startTimer := { a.startTimer with armed := false }
    stopTimer := { a.stopTimer with armed := false }
    maxInactiveTimer := { a.maxInactiveTimer with armed := false } }

inductive Mark where
  /-- Appended to `penddingApplications_`. -/
  | queued (app : Nat)
  /-- Handed to `Platform::launchApplication`. -/
  | handed (app : Nat)
  /-- Made the stopping application. -/
  | stopping (app : Nat)
  /-- `onAppStopped`, with the stopping application of that moment. -/
  | stopped (app : Nat) (slot : Option Nat)
  /-- The id was read of an application that is deleted. -/
  | stale (app : Nat)
deriving DecidableEq

structure ApplicationManager where
  apps : Nat → Option Application
  nextApp : Nat
  topApplication_ : Option Nat
  startingApplication_ : Option Nat
  stoppingApplication_ : Option Nat
  penddingApplications_ : List Nat
  log : List Mark

/-- Why a handler does not come to its end. -/
inductive Fault where
  /-- A deleted application is used. -/
  | freed
  /-- A deleted handler is used. -/
  | gone
  /-- An exception of `websocketpp` leaves the handler. -/
  | thrown
  /-- A `rapidjson` accessor is used outside its precondition. -/
  | misused
  /-- More nested launches than were allowed for. -/
  | depth
deriving DecidableEq

/-! ### `Platform` -/

def isWebApp (url : Bytes) : Bool := (str "http://").isPrefixOf url || (str "https://").isPrefixOf url

def isNativeApp (url : Bytes) : Bool := (str "app:?").isPrefixOf url

/-- The answer of `Platform::launchApplication`. -/
def AppInfo.accepted (info : AppInfo) : Bool := isWebApp info.url || isNativeApp info.url

namespace ApplicationManager

def start : ApplicationManager := ⟨fun _ => none, 0, none, none, none, [], []⟩

/-! ### Pointers -/

def mark (m : ApplicationManager) (k : Mark) : ApplicationManager := { m with log := m.log ++ [k] }

def deref (m : ApplicationManager) (app : Nat) : Except Fault Application :=
  match m.apps app with
  | none => .error .freed
  | some a => if a.deleted then .error .freed else .ok a

def modify (m : ApplicationManager) (app : Nat) (f : Application → Application) :
    ApplicationManager :=
  { m with apps := fun i => if i = app then (m.apps i).map f else m.apps i }

def update (m : ApplicationManager) (app : Nat) (f : Application → Application) :
    Except Fault ApplicationManager := do
  let _ ← m.deref app
  .ok (m.modify app f)

/-- `getAppId` through a slot. -/
def getAppId (m : ApplicationManager) (app : Nat) : Except Fault (Bytes × ApplicationManager) :=
  match m.apps app with
  | none => .error .freed
  | some a => .ok (a.appId, if a.deleted then m.mark (.stale app) else m)

/-- `penddingApplications_.push_back`. -/
def push (m : ApplicationManager) (app : Nat) : ApplicationManager :=
  { m.mark (.queued app) with penddingApplications_ := m.penddingApplications_ ++ [app] }

/-- `new Application`. -/
def newApplication (m : ApplicationManager) (appId : Bytes) (info : AppInfo) : ApplicationManager :=
  { m with
    nextApp := m.nextApp + 1
    apps := fun i => if i = m.nextApp then
      some ⟨appId, info, .stopped, [], false, ⟨false, 0⟩, ⟨false, 0⟩, ⟨false, 0⟩, 0, false⟩
      else m.apps i }

/-! ### Starting and stopping

`relaunch` is the nested call of `launchApplication`. -/

section
variable (relaunch : ApplicationManager → Nat → Except Fault ApplicationManager)

def onAppStopped (m : ApplicationManager) (app : Nat) : Except Fault ApplicationManager := do
  let m ← (m.mark (.stopped app m.stoppingApplication_)).update app Application.onStoped
  match m.penddingApplications_ with
  | [] => .ok { m with stoppingApplication_ := none }
  | app_ :: rest =>
    relaunch { m with stoppingApplication_ := none, penddingApplications_ := rest } app_

/-- `Application::stopped`. -/
def stopped (m : ApplicationManager) (app : Nat) : Except Fault ApplicationManager := do
  let a ← m.deref app
  let m := m.modify app fun a => { a with stopTimer := { a.stopTimer with armed := false } }
  runSlots (onAppStopped relaunch · app) a.slots m

/-- `Application::onStopping`. -/
def onStopping (m : ApplicationManager) (app : Nat) : Except Fault ApplicationManager := do
  let a ← m.deref app
  let m := m.modify app fun a => { a with appState := .stopping }
  if a.info.useIpc ∧ a.wsConnected then
    m.update app fun a => { a with stopTimer := { a.stopTimer with armed := true } }
  else stopped relaunch m app

/-- `Platform::stopApplication` reads the application, and acts outside. -/
def _doStopApplication (m : ApplicationManager) (app : Nat) : Except Fault ApplicationManager := do
  let m := { m with stoppingApplication_ := some app }
  let _ ← m.deref app
  onStopping relaunch (m.mark (.stopping app)) app

def stopApplication (m : ApplicationManager) : Except Fault ApplicationManager :=
  match m.stoppingApplication_ with
  | some _ => .ok m
  | none =>
    match m.topApplication_ with
    | some app => do
      let m ← _doStopApplication relaunch m app
      .ok { m with topApplication_ := none }
    | none =>
      match m.startingApplication_ with
      | some app => do
        let m ← _doStopApplication relaunch m app
        .ok { m with startingApplication_ := none }
      | none => .ok m

/-- With `Application::onStarted`. -/
def onAppStarted (m : ApplicationManager) (app : Nat) : Except Fault ApplicationManager := do
  let m ← m.update app fun a => { a with appState := .running }
  let m := { m with topApplication_ := some app, startingApplication_ := none }
  if m.penddingApplications_ = [] then .ok m else stopApplication relaunch m

/-- `Application::started`. -/
def started (m : ApplicationManager) (app : Nat) : Except Fault ApplicationManager := do
  let a ← m.deref app
  let m := m.modify app fun a => { a with
    startTimer := { a.startTimer with armed := false }
    wsConnected := a.wsConnected || a.info.useIpc }
  runSlots (onAppStarted relaunch · app) a.slots m

/-- `Application::onStarting`. `maxInactive_` is read after `started` has returned. -/
def onStarting (m : ApplicationManager) (app : Nat) : Except Fault ApplicationManager := do
  let a ← m.deref app
  let m := m.modify app fun a => { a with appState := .starting }
  if a.info.useIpc then
    m.update app fun a => { a with startTimer := { a.startTimer with armed := true } }
  else do
    let m ← started relaunch m app
    let a ← m.deref app
    if 0 < a.info.maxInactive then
      m.update app fun a => { a with maxInactiveTimer := { a.maxInactiveTimer with armed := true } }
    else .ok m

def _doLaunchApplication (m : ApplicationManager) (app : Nat) : Except Fault ApplicationManager := do
  let m := { m with startingApplication_ := some app }
  let m ← m.update app fun a => { a with slots := a.slots + 1 }
  let a ← m.deref app
  let m := m.mark (.handed app)
  if a.info.accepted then onStarting relaunch m app else stopped relaunch m app

/-- The body of `launchApplication`. -/
def launchBody (m : ApplicationManager) (app : Nat) : Except Fault ApplicationManager := do
  let m ← m.update app fun a => { a with appState := .starting }
  let a ← m.deref app
  match m.startingApplication_ with
  | some slot => do
    let (id, m) ← m.getAppId slot
    if id ≠ a.appId then .ok (m.push app) else .ok m
  | none =>
    match m.topApplication_ with
    | some slot => do
      let (id, m) ← m.getAppId slot
      if id ≠ a.appId then stopApplication relaunch (m.push app) else .ok m
    | none =>
      match m.stoppingApplication_ with
      | some slot => do
        let (_, m) ← m.getAppId slot
        .ok (m.push app)
      | none => _doLaunchApplication relaunch m app

end

/-- `launchApplication` with at most that many calls inside each other. -/
def launchWithin : Nat → ApplicationManager → Nat → Except Fault ApplicationManager
  | 0 => fun _ _ => .error .depth
  | depth+1 => launchBody (launchWithin depth)

/-- Two calls are enough: a nested call launches only where every slot is empty, and what
it pops in turn finds a slot that is not. -/
def launchApplication : ApplicationManager → Nat → Except Fault ApplicationManager := launchWithin 2

/-- The argument is not looked at. -/
def stopApplicationByAppId (m : ApplicationManager) (_appId : Bytes) :
    Except Fault ApplicationManager :=
  stopApplication launchApplication m

def getStoppingApplication (m : ApplicationManager) : Option Nat := m.stoppingApplication_

def getAliveApplication (m : ApplicationManager) : Option Nat :=
  match m.topApplication_ with
  | some app => some app
  | none =>
    match m.startingApplication_ with
    | some app => some app
    | none => m.penddingApplications_.head?

/-! ### Timers -/

inductive TimerName where
  | start
  | stop
  | maxInactive
deriving DecidableEq

def onDoAppStop (m : ApplicationManager) (app : Nat) : Except Fault ApplicationManager := do
  let a ← m.deref app
  m.stopApplicationByAppId a.appId

end ApplicationManager

def Application.timer (a : Application) : ApplicationManager.TimerName → Timer
  | .start => a.startTimer
  | .stop => a.stopTimer
  | .maxInactive => a.maxInactiveTimer

def Application.setTimer (a : Application) (t : Timer) : ApplicationManager.TimerName → Application
  | .start => { a with startTimer := t }
  | .stop => { a with stopTimer := t }
  | .maxInactive => { a with maxInactiveTimer := t }

namespace ApplicationManager

/-- The time of a wait has come: its handler is in the queue of the `io_service`. -/
def elapse (m : ApplicationManager) (app : Nat) (name : TimerName) : ApplicationManager :=
  m.modify app fun a =>
    if (a.timer name).armed then a.setTimer ⟨false, (a.timer name).due + 1⟩ name else a

/-- `onStartTimeout`, `onStopTimeout` and `onMaxInactiveTimeout` without an error. -/
def onTimeout (m : ApplicationManager) (app : Nat) : TimerName → Except Fault ApplicationManager
  | .start => do
    let a ← m.deref app
    runSlots (onDoAppStop · app) a.slots m
  | .stop => stopped launchApplication m app
  | .maxInactive => do
    let a ← m.deref app
    runSlots (onDoAppStop · app) a.slots (m.modify app fun a =>
      { a with maxInactiveTimer := { a.maxInactiveTimer with armed := false } })

def expire (m : ApplicationManager) (app : Nat) (name : TimerName) :
    Except Fault ApplicationManager :=
  match m.apps app with
  | none => .ok m
  | some a =>
    match (a.timer name).due with
    | 0 => .ok m
    | due+1 =>
      (m.modify app fun a => a.setTimer { a.timer name with due := due } name).onTimeout app name

end ApplicationManager
end Flingd.App
