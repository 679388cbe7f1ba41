import Flingd.App.Answers
import Flingd.Base.Rapidjson

/-! What `ApplicationControlHandler` reads of the text of a POST body. -/
namespace Flingd.App
open Outcome
variable (json : Rapidjson)

inductive PostText where
  | empty
  | rejected
  | request (type : Bytes) (appInfo : Json Bytes)

/-- `none` where an accessor is used outside its precondition. -/
def readPost (data : Bytes) : Option PostText :=
  if data = [] then some .empty
  else
    match json.parse data with
    | none => some .rejected
    | some .null => some .rejected
    | some d => do
      let type ← d.at? (str "type")
      if type.isNull then some .rejected
      else do
        let appInfo ← d.at? (str "app_info")
        if appInfo.isNull then some .rejected
        else do
          let typeStr ← type.getString
          some (.request typeStr appInfo)

/-- What `doLaunch` reads. A text that does not parse leaves a null document, which has no
members. -/
def readAppInfo (appInfoRaw : Bytes) : Option AppInfo := do
  let appInfo ← json.parse appInfoRaw
  let url ← appInfo.at? (str "url")
  let url ← url.getString
  let useIpc ← appInfo.at? (str "useIpc")
  let useIpc ← useIpc.getBool
  let maxInactive ← appInfo.at? (str "maxInactive")
  let maxInactive ← maxInactive.getInt
  some ⟨url, useIpc, maxInactive⟩

namespace Daemon

def doLaunchText (s : Daemon) (appId appInfoRaw : Bytes) : Except Fault Daemon :=
  match readAppInfo json appInfoRaw with
  | none => .error .misused
  | some info => s.doLaunch appId info

/-- `launchOrJoin` by some way to launch. -/
def launchOrJoinBy (launch : Daemon → Except Fault Daemon) (s : Daemon) (appId type : Bytes) :
    Except Fault (Daemon × Nat) := do
  let (alive, s) ← s.aliveIs appId
  match alive with
  | some same =>
    if type = str "launch" then
      if same then .ok (s, 200)
      else do
        let s ← s.doStop appId
        let s ← launch s
        .ok (s, 201)
    else if type = str "relaunch" then
      if same then do
        let s ← s.doStop appId
        let s ← launch s
        .ok (s, 201)
      else .ok (s, 400)
    else if same then .ok (s, 200)
    else .ok (s, 400)
  | none =>
    if type = str "launch" then do
      let s ← launch s
      .ok (s, 201)
    else .ok (s, 400)

/-- `onPost` of the text of a body. The information about the application is written, and read
from that text when it is launched. -/
def onPostText (s : Daemon) (appId authToken uuid data : Bytes) : Except Fault (Daemon × Reply) :=
  match readPost json data with
  | none => .error .misused
  | some .empty => .ok (s, .status 400)
  | some .rejected => .ok (s, .silence)
  | some (.request type appInfo) =>
    if type ≠ str "launch" ∧ type ≠ str "relaunch" ∧ type ≠ str "join" then .ok (s, .status 400)
    else do
      let (s, authToken) ← if authToken = [] then do
          let s ← s.createSender appId uuid
          .ok (s, uuid)
        else .ok (s, authToken)
      let (s, code) ← s.launchOrJoinBy (doLaunchText json · appId (json.write appInfo)) appId type
      .ok (s, if code = 400 then .status code else .token code authToken)

variable {json} {s s' : Daemon} {appId type : Bytes} {info : AppInfo}

theorem launchOrJoinBy_doLaunch :
    s.launchOrJoinBy (·.doLaunch appId info) appId type = s.launchOrJoin appId type info := rfl

def launches (s : Daemon) (appId type : Bytes) : Bool :=
  match s.alive appId with
  | some same => if same then type = str "relaunch" else type = str "launch"
  | none => type = str "launch"

theorem alive_congr (h : s'.manager = s.manager) : s'.alive appId = s.alive appId := by
  unfold alive
  rw [h]

theorem launches_congr (h : s'.manager = s.manager) :
    s'.launches appId type = s.launches appId type := by
  unfold launches
  rw [alive_congr h]

theorem launches_type (h : s.launches appId type = true) :
    type = str "launch" ∨ type = str "relaunch" := by
  unfold launches at h
  split at h
  · split at h
    · exact .inr (of_decide_eq_true h)
    · exact .inl (of_decide_eq_true h)
  · exact .inl (of_decide_eq_true h)

theorem aliveIs_alive {alive : Option Bool} (h : s.aliveIs appId = .ok (alive, s')) :
    alive = s.alive appId := by
  unfold aliveIs at h
  unfold Daemon.alive
  cases hm : s.manager.getAliveApplication with
  | none =>
    rw [hm] at h
    cases h
    rfl
  | some app =>
    rw [hm] at h
    obtain ⟨⟨id, m⟩, hget, h⟩ := bind_eq_ok.mp h
    cases h
    unfold ApplicationManager.getAppId at hget
    cases ha : s.manager.apps app with
    | none =>
      rw [ha] at hget
      cases hget
    | some a =>
      rw [ha] at hget
      cases hget
      simp [ha]

/-- A request that comes to no launch does not depend on the way to launch. -/
theorem launchOrJoinBy_rests {alive : Option Bool} {t : Daemon} (h : s.launches appId type = false)
    (hlook : s.aliveIs appId = .ok (alive, t)) :
    ∃ code, ∀ launch, s.launchOrJoinBy launch appId type = .ok (t, code) := by
  unfold launches at h
  rw [← aliveIs_alive hlook] at h
  unfold launchOrJoinBy
  simp only [hlook, ok_bind]
  cases alive with
  | none =>
    simp only [decide_eq_false_iff_not] at h
    exact ⟨400, fun _ => if_neg h⟩
  | some same =>
    cases same with
    | false =>
      simp only [Bool.false_eq_true, if_false, decide_eq_false_iff_not] at h
      refine ⟨400, fun _ => ?_⟩
      simp only [h, if_false, Bool.false_eq_true, ite_self]
    | true =>
      simp only [if_true, decide_eq_false_iff_not] at h
      refine ⟨200, fun _ => ?_⟩
      simp only [h, if_false, if_true, ite_self]

/-- A request that comes to a launch stops what is alive, and launches. -/
theorem launchOrJoinBy_launches {alive : Option Bool} {t : Daemon}
    (launch : Daemon → Except Fault Daemon) (h : s.launches appId type = true)
    (hlook : s.aliveIs appId = .ok (alive, t)) :
    s.launchOrJoinBy launch appId type = ((if alive.isSome then t.doStop appId else .ok t) >>=
      fun t => launch t >>= fun t => .ok (t, 201)) := by
  unfold launchOrJoinBy
  rw [hlook, ok_bind]
  unfold launches at h
  rw [← aliveIs_alive hlook] at h
  cases alive with
  | none =>
    dsimp only
    rw [if_pos (by simpa using h)]
    rfl
  | some same =>
    cases same with
    | false =>
      dsimp only
      rw [if_pos (by simpa using h), if_neg Bool.false_ne_true]
      rfl
    | true =>
      have htype : type = str "relaunch" := by simpa using h
      dsimp only
      rw [if_neg (by rw [htype]; decide), if_pos htype, if_pos rfl]
      rfl

/-- It does not return where the launch does not. -/
theorem launchOrJoinBy_fails (launch : Daemon → Except Fault Daemon)
    (h : s.launches appId type = true) (hfail : ∀ t, ∃ f, launch t = .error f) :
    ∃ f, s.launchOrJoinBy launch appId type = .error f := by
  cases hlook : s.aliveIs appId with
  | error f =>
    unfold launchOrJoinBy
    rw [hlook]
    exact ⟨f, rfl⟩
  | ok p =>
    rw [launchOrJoinBy_launches launch h hlook]
    generalize (if p.1.isSome then p.2.doStop appId else .ok p.2) = x
    cases x with
    | error f => exact ⟨f, rfl⟩
    | ok t =>
      obtain ⟨f, hf⟩ := hfail t
      exact ⟨f, by rw [ok_bind, hf]; rfl⟩

theorem doLaunchText_read {raw : Bytes} (h : readAppInfo json raw = some info) :
    (doLaunchText json · appId raw) = (·.doLaunch appId info) := by
  funext t
  simp only [doLaunchText, h]

theorem doLaunchText_unread {raw : Bytes} (h : readAppInfo json raw = none) (t : Daemon) :
    ∃ f, doLaunchText json t appId raw = .error f :=
  ⟨.misused, by simp only [doLaunchText, h]⟩

end Daemon
end Flingd.App
