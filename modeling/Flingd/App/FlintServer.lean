import Flingd.App.PostText

/-! `FlintServer::onHttpRequest` and the constructors of the handlers, from the text of a
request to the calls of `HttpHandler::response`. The description of the device is given by what
is written into it. -/
namespace Flingd.App
open Outcome

/-- `authorization` is empty where there is no such header. -/
structure HttpRequest where
  path : Bytes
  method : Bytes
  host : Bytes
  authorization : Bytes
  body : Bytes

structure Device where
  deviceName_ : Bytes
  modelName_ : Bytes
  uuid : Bytes
  /-- The text of the number. -/
  volume_ : Bytes
  muted_ : Bool

/-- A call of `HttpHandler::response`. -/
inductive Response where
  | reply (reply : Reply)
  | description (serviceURL host friendlyName modelName uuid : Bytes)
  /-- With `Content-Type` and `Content-Length`. -/
  | json (body : Bytes)
deriving DecidableEq

inductive Action where
  | response (r : Response)
  /-- `Platform::setVolume`. -/
  | setVolume (volume : Bytes)
  | setMuted (muted : Bool)
deriving DecidableEq

def Action.isResponse : Action → Bool
  | .response _ => true
  | _ => false

def Action.status (code : Nat) : Action := .response (.reply (.status code))

/-- No response is sent where there is silence. -/
def Reply.actions : Reply → List Action
  | .silence => []
  | r => [.response (.reply r)]

inductive Method where
  | get
  | post
  | delete
  | options
  | other
deriving DecidableEq

def HttpRequest.methodOf (r : HttpRequest) : Method :=
  if iequals r.method (str "GET") then .get
  else if iequals r.method (str "POST") then .post
  else if iequals r.method (str "DELETE") then .delete
  else if iequals r.method (str "OPTIONS") then .options
  else .other

/-! ### `DeviceDescHandler` -/

def deviceDescHandler (device : Device) (r : HttpRequest) : List Action :=
  let serviceURL := r.host ++ str ":9431"
  if iequals device.deviceName_ [] then [.status 200]
  else [.response (.description serviceURL r.host device.deviceName_ device.modelName_ device.uuid)]

/-! ### `SystemControlHandler` -/

namespace SystemControlHandler
variable (json : Rapidjson)

/-- What a body asks for; `rejected` are the texts that are logged and dropped. -/
inductive Command where
  | empty
  | rejected
  | getVolume
  | getMuted
  | setVolume (volume : Bytes)
  | setMuted (muted : Bool)
  | unsupported

def readCommand (d : Json Bytes) (typeStr : Bytes) : Option Command :=
  if iequals typeStr (str "GET_VOLUME") then some .getVolume
  else if iequals typeStr (str "GET_MUTED") then some .getMuted
  else if iequals typeStr (str "SET_VOLUME") then do
    let volume ← d.at? (str "level")
    if volume.isNull then some .rejected else volume.getDouble.map .setVolume
  else if iequals typeStr (str "SET_MUTED") then do
    let muted ← d.at? (str "muted")
    if muted.isNull then some .rejected else muted.getBool.map .setMuted
  else some .unsupported

/-- `none` where an accessor is used outside its precondition. -/
def read (data : Bytes) : Option Command :=
  if data = [] then some .empty
  else
    match json.parse data with
    | none => some .rejected
    | some .null => some .rejected
    | some d => do
      let type ← d.at? (str "type")
      if type.isNull then some .rejected
      else do
        let typeStr ← type.getString
        readCommand d typeStr

def success (requestType name : Bytes) (value : Json Bytes) : Json Bytes :=
  .object [(str "success", .bool true), (str "request_type", .text requestType), (name, value)]

def perform (device : Device) : Command → List Action
  | .empty => [.status 400]
  | .rejected => []
  | .getVolume => [.response (.json (json.write
      (success (str "GET_VOLUME") (str "level") (.number device.volume_))))]
  | .getMuted => [.response (.json (json.write
      (success (str "GET_MUTED") (str "muted") (.bool device.muted_))))]
  | .setVolume volume => [.setVolume volume, .status 200]
  | .setMuted muted => [.setMuted muted, .status 200]
  | .unsupported => [.status 404]

def onPost (device : Device) (data : Bytes) : Except Fault (List Action) :=
  match read json data with
  | none => .error .misused
  | some command => .ok (perform json device command)

end SystemControlHandler

def systemControlHandler (json : Rapidjson) (device : Device) (r : HttpRequest) :
    Except Fault (List Action) :=
  match r.methodOf with
  | .post => SystemControlHandler.onPost json device r.body
  | .options => .ok [.status 200]
  | _ => .ok [.status 400]

/-! ### `ApplicationControlHandler` and `DialHandler` -/

def parseAppId (path : Bytes) : Bytes := ieraseAll (ieraseAll path (str "/apps/")) (str "/run")

def isRunningInstance (path appId : Bytes) : Bool :=
  ieraseAll (ieraseAll path (str "/apps/")) appId = str "/run"

namespace Daemon

/-- `uuid` is the token of a new sender. -/
def applicationControlHandler (json : Rapidjson) (s : Daemon) (uuid : Bytes) (r : HttpRequest) :
    Except Fault (Daemon × Reply) :=
  let appId := parseAppId r.path
  if appId ≠ [] ∧ istartsWith appId (str "~") then
    match r.methodOf with
    | .get => s.onGet appId r.authorization
    | .post => s.onPostText json appId r.authorization uuid r.body
    | .delete => s.onDelete appId r.authorization (isRunningInstance r.path appId)
    | .options => .ok (s, .status 200)
    | .other => .ok (s, .status 400)
  else .ok (s, .status 404)

def dialHandler (s : Daemon) (r : HttpRequest) : Except Fault (Daemon × Reply) :=
  let appId := parseAppId r.path
  if appId ≠ [] then
    match r.methodOf with
    | .get => s.writeStatus appId
    | .post => s.onDialPost appId r.body
    | .delete => s.onDialDelete appId
    | .options => .ok (s, .status 200)
    | .other => .ok (s, .status 400)
  else .ok (s, .status 404)

end Daemon

/-! ### `FlintServer` -/

inductive Handler where
  | deviceDesc
  | systemControl
  | applicationControl
  | dial
deriving DecidableEq

/-- The handler that `onHttpRequest` makes for a path. There is none for the icon. -/
def handlerOf (path : Bytes) : Option Handler :=
  if iequals path (str "/setup/icon.png") then none
  else if iequals path (str "/ssdp/device-desc.xml") then some .deviceDesc
  else if istartsWith path (str "/system/control") ∨ istartsWith path (str "/system/control/") then
    some .systemControl
  else if istartsWith path (str "/apps/~") then some .applicationControl
  else if istartsWith path (str "/apps/") then some .dial
  else none

namespace Daemon

def onHttpRequest (json : Rapidjson) (device : Device) (s : Daemon) (uuid : Bytes)
    (r : HttpRequest) : Except Fault (Daemon × List Action) :=
  match handlerOf r.path with
  | none => .ok (s, [])
  | some .deviceDesc => .ok (s, deviceDescHandler device r)
  | some .systemControl => do
    let actions ← systemControlHandler json device r
    .ok (s, actions)
  | some .applicationControl => do
    let (s, reply) ← s.applicationControlHandler json uuid r
    .ok (s, reply.actions)
  | some .dial => do
    let (s, reply) ← s.dialHandler r
    .ok (s, reply.actions)

/-! ### The events behind requests -/

variable {json : Rapidjson} {device : Device} {s s' : Daemon} {appId authToken uuid data : Bytes}

theorem launchOrJoinText_ok {type raw : Bytes} {p : Daemon × Nat}
    (h : s.launchOrJoinBy (doLaunchText json · appId raw) appId type = .ok p) :
    ∃ info, s.launchOrJoin appId type info = .ok p := by
  cases hread : readAppInfo json raw with
  | some info =>
    rw [doLaunchText_read hread] at h
    exact ⟨info, h⟩
  | none =>
    cases hlaunches : s.launches appId type with
    | true =>
      obtain ⟨f, hf⟩ := launchOrJoinBy_fails _ hlaunches (doLaunchText_unread hread)
      rw [hf] at h
      cases h
    | false =>
      cases hlook : s.aliveIs appId with
      | error f =>
        unfold launchOrJoinBy at h
        rw [hlook] at h
        cases h
      | ok look =>
        obtain ⟨code, hrests⟩ := launchOrJoinBy_rests hlaunches hlook
        rw [hrests] at h
        exact ⟨⟨[], false, 0⟩, (hrests _).trans h⟩

/-- A text that comes to its end is a body of the daemon's events. -/
theorem onPostText_step {reply : Reply}
    (h : s.onPostText json appId authToken uuid data = .ok (s', reply)) :
    ∃ body, s.onPost appId authToken uuid body = .ok (s', reply) := by
  unfold onPostText at h
  split at h
  · cases h
  · exact ⟨.empty, h⟩
  · exact ⟨.rejected, h⟩
  · rename_i type appInfo _
    by_cases htype : type ≠ str "launch" ∧ type ≠ str "relaunch" ∧ type ≠ str "join"
    · rw [if_pos htype] at h
      refine ⟨.request type ⟨[], false, 0⟩, ?_⟩
      simp only [onPost]
      rwa [if_pos htype]
    · rw [if_neg htype] at h
      have hjoin {t : Daemon} {token : Bytes}
          (hok : (t.launchOrJoinBy (doLaunchText json · appId (json.write appInfo)) appId type >>=
            fun p => (.ok (p.1, if p.2 = 400 then .status p.2 else .token p.2 token) :
              Except Fault (Daemon × Reply))) = .ok (s', reply)) :
          ∃ info, (t.launchOrJoin appId type info >>=
            fun p => (.ok (p.1, if p.2 = 400 then .status p.2 else .token p.2 token) :
              Except Fault (Daemon × Reply))) = .ok (s', reply) := by
        obtain ⟨p, hp, hok⟩ := bind_eq_ok.mp hok
        obtain ⟨info, hinfo⟩ := launchOrJoinText_ok hp
        exact ⟨info, bind_eq_ok.mpr ⟨p, hinfo, hok⟩⟩
      by_cases hauth : authToken = []
      · rw [if_pos hauth] at h
        obtain ⟨t, ht, h⟩ := bind_eq_ok.mp h
        obtain ⟨info, hinfo⟩ := hjoin h
        refine ⟨.request type info, ?_⟩
        simp only [onPost]
        rw [if_neg htype, if_pos hauth]
        exact bind_eq_ok.mpr ⟨t, ht, hinfo⟩
      · rw [if_neg hauth] at h
        obtain ⟨info, hinfo⟩ := hjoin h
        refine ⟨.request type info, ?_⟩
        simp only [onPost]
        rw [if_neg htype, if_neg hauth]
        exact hinfo

/-- A request that comes to its end is an event of the daemon, or changes nothing. -/
theorem onHttpRequest_step {r : HttpRequest} {actions : List Action}
    (h : s.onHttpRequest json device uuid r = .ok (s', actions)) :
    s' = s ∨ ∃ e, s.step e = .ok s' := by
  have hevent {x : Except Fault (Daemon × Reply)} {reply : Reply} (e : Event)
      (he : s.step e = x.map (·.1)) (hx : x = .ok (s', reply)) : ∃ e, s.step e = .ok s' :=
    ⟨e, by rw [he, hx]; rfl⟩
  unfold onHttpRequest at h
  split at h
  · cases h
    exact .inl rfl
  · cases h
    exact .inl rfl
  · obtain ⟨a, -, h⟩ := bind_eq_ok.mp h
    cases h
    exact .inl rfl
  · obtain ⟨⟨t, reply⟩, ht, h⟩ := bind_eq_ok.mp h
    cases h
    unfold applicationControlHandler at ht
    dsimp only at ht
    split at ht
    · split at ht
      · exact .inr (hevent (.get _ _) rfl ht)
      · obtain ⟨body, hbody⟩ := onPostText_step ht
        exact .inr (hevent (.post _ _ _ body) rfl hbody)
      · exact .inr (hevent (.delete _ _ _) rfl ht)
      · cases ht
        exact .inl rfl
      · cases ht
        exact .inl rfl
    · cases ht
      exact .inl rfl
  · obtain ⟨⟨t, reply⟩, ht, h⟩ := bind_eq_ok.mp h
    cases h
    unfold dialHandler at ht
    dsimp only at ht
    split at ht
    · split at ht
      · exact .inr (hevent (.dialGet _) rfl ht)
      · exact .inr (hevent (.dialPost _ _) rfl ht)
      · exact .inr (hevent (.dialDelete _) rfl ht)
      · cases ht
        exact .inl rfl
      · cases ht
        exact .inl rfl
    · cases ht
      exact .inl rfl

/-- Requests lead to no other states than the events of the daemon do. -/
theorem onHttpRequest_reached {es : List Event} {r : HttpRequest} {actions : List Action}
    (hrun : start.run es = .ok s) (h : s.onHttpRequest json device uuid r = .ok (s', actions)) :
    ∃ es', start.run es' = .ok s' := by
  rcases onHttpRequest_step h with rfl | ⟨e, he⟩
  · exact ⟨es, hrun⟩
  · refine ⟨es ++ [e], foldlM_append_ok.mpr ⟨s, hrun, ?_⟩⟩
    exact bind_eq_ok.mpr ⟨s', he, rfl⟩

end Daemon
end Flingd.App
