import Flingd.App.Daemon
import Flingd.Base.Rapidjson

/-! What `ReceiverApplicationHandler::onMessage` reads of the text of a message. -/
namespace Flingd.App
open Outcome
variable (json : Rapidjson)

/-- What a message asks for, once it has been read; `dropped` asks for nothing. -/
inductive Command where
  | dropped
  | register
  | unregister
  | additionaldata (data : Bytes)
  | heartbeat (type : Bytes)

def additionalDataStr : List (Bytes × Json Bytes) → Option Bytes
  | [] => some []
  | (name, value) :: members => do
    let name := cStr name
    let value ← value.getString
    let rest ← additionalDataStr members
    some (str "<" ++ name ++ str ">" ++ value ++ str "</" ++ name ++ str ">" ++ rest)

/-- The branch of a type. For a heartbeat the string of the whole document is asked for. -/
def readCommand (d : Json Bytes) (typeStr : Bytes) : Option Command :=
  if iequals typeStr (str "register") then some .register
  else if iequals typeStr (str "unregister") then some .unregister
  else if iequals typeStr (str "additionaldata") then do
    match ← d.at? (str "additionaldata") with
    | .object members => do
      let data ← additionalDataStr members
      some (.additionaldata data)
    | _ => some .dropped
  else if iequals typeStr (str "heartbeat") then do
    let heartbeat ← d.at? (str "heartbeat")
    if heartbeat.isNull then some .dropped
    else do
      let heartbeatStr ← d.getString
      some (.heartbeat heartbeatStr)
  else some .dropped

/-- `none` where an accessor is used outside its precondition. -/
def understand (appId_ message : Bytes) : Option Command :=
  match json.parse message with
  | none => some .dropped
  | some .null => some .dropped
  | some d => do
    let appId ← d.at? (str "appid")
    if appId.isNull then some .dropped
    else do
      let id ← appId.getString
      if appId_ ≠ id then some .dropped
      else do
        let type ← d.at? (str "type")
        if type.isNull then some .dropped
        else do
          let typeStr ← type.getString
          readCommand d typeStr

namespace Daemon

def perform (s : Daemon) (handler app : Nat) (appId uuid : Bytes) : Command → Except Fault Daemon
  | .dropped => .ok s
  | .register => do
    let a ← s.manager.deref app
    if a.info.useIpc then s.register handler app appId uuid else s.stopAndClose handler appId
  | .unregister => s.stopAndClose handler appId
  | .additionaldata data => do
    let m ← s.manager.update app fun a => { a with additionalData := data }
    .ok { s with manager := m }
  | .heartbeat type =>
    if iequals type (str "ping") then s.send handler (.heartbeat (str "pong")) else .ok s

/-- `onMessage` of the text of a message. -/
def onText (s : Daemon) (handler : Nat) (uuid message : Bytes) : Except Fault Daemon :=
  match s.handlers handler with
  | none => .ok s
  | some r =>
    if r.isOpen = false then .ok s
    else do
      let (alive, s) ← s.aliveIs r.appId
      match alive, s.manager.getAliveApplication with
      | some true, some app =>
        match understand json r.appId message with
        | none => .error .misused
        | some command => s.perform handler app r.appId uuid command
      | some true, none => .ok s
      | _, _ => s.close handler

end Daemon

/-! ### Documents -/

def Frame.document (appId ip uuid deviceName : Bytes) : Frame → Json Bytes
  | .registerok => .object [(str "type", .text (str "registerok")), (str "appid", .text appId),
      (str "service_info", .object [(str "ip", .array [.text ip]), (str "uuid", .text uuid),
        (str "device_name", .text deviceName)])]
  | .startHeartbeat => .object [(str "type", .text (str "startHeartbeat")),
      (str "appid", .text appId), (str "interval", .number (str "3000"))]
  | .heartbeat type => .object [(str "type", .text (str "heartbeat")), (str "appid", .text appId),
      (str "heartbeat", .text type)]
  | .senderconnected token => .object [(str "type", .text (str "senderconnected")),
      (str "appid", .text appId), (str "token", .text token)]
  | .senderdisconnected token => .object [(str "type", .text (str "senderdisconnected")),
      (str "appid", .text appId), (str "token", .text token)]

def optionalString (j : Json Bytes) : Option (Option Bytes) :=
  if j.isNull then some none else j.getString.map some

def optionalData : Json Bytes → Option (Option Bytes)
  | .object members => (additionalDataStr members).map some
  | _ => some none

/-- What there is in an object whose members have the kinds that are expected. -/
def describe (members : List (Bytes × Json Bytes)) : Option ReceiverMessage := do
  let appid ← optionalString (Json.get members (str "appid"))
  let type ← optionalString (Json.get members (str "type"))
  let additionaldata ← optionalData (Json.get members (str "additionaldata"))
  some ⟨appid, type, additionaldata, !(Json.get members (str "heartbeat")).isNull⟩

section
variable {json : Rapidjson} {members : List (Bytes × Json Bytes)} {d : ReceiverMessage}
  {message : Bytes}

theorem optionalString_none {j : Json Bytes} (h : optionalString j = some none) :
    j.isNull = true := by
  unfold optionalString at h
  split at h
  · assumption
  · simp at h

theorem optionalString_some {j : Json Bytes} {s : Bytes} (h : optionalString j = some (some s)) :
    j.isNull = false ∧ j.getString = some s := by
  unfold optionalString at h
  split at h
  · simp at h
  · rename_i hnull
    rw [Bool.not_eq_true] at hnull
    exact ⟨hnull, by simpa using h⟩

/-- A text is understood by what its document is described as. -/
theorem understand_describe (hparse : json.parse message = some (.object members))
    (h : describe members = some d) (appId : Bytes) :
    understand json appId message =
      if d.appid ≠ some appId then some .dropped
      else
        match d.type with
        | none => some .dropped
        | some type => readCommand (.object members) type := by
  simp only [describe, bind, Option.bind_eq_some_iff] at h
  obtain ⟨id, hid, type, htype, data, -, h⟩ := h
  cases h
  simp only [understand, hparse, Json.at?_object, bind, Option.bind_some]
  cases id with
  | none => rw [if_pos (optionalString_none hid), if_pos (by simp)]
  | some id =>
    obtain ⟨hnull, hid⟩ := optionalString_some hid
    rw [if_neg (by simp [hnull]), hid, Option.bind_some]
    by_cases heq : appId = id
    · rw [if_neg (not_not.mpr heq), if_neg (not_not.mpr (congrArg some heq.symm))]
      cases type with
      | none => rw [if_pos (optionalString_none htype)]
      | some type =>
        obtain ⟨hnull, htype⟩ := optionalString_some htype
        rw [hnull, if_neg Bool.false_ne_true, htype, Option.bind_some]
    · rw [if_pos heq, if_pos fun h => heq (Option.some.inj h).symm]

theorem perform_readCommand (h : describe members = some d) (s : Daemon) (handler app : Nat)
    (appId uuid type : Bytes) :
    (match readCommand (.object members) type with
      | none => .error .misused
      | some command => s.perform handler app appId uuid command) =
        s.onTypedMessage handler app appId uuid type d := by
  simp only [describe, bind, Option.bind_eq_some_iff] at h
  obtain ⟨id, -, type', -, data, hdata, h⟩ := h
  cases h
  unfold readCommand Daemon.onTypedMessage
  simp only [Json.at?_object, bind, Option.bind_some]
  by_cases hregister : iequals type (str "register") = true
  · rw [if_pos hregister, if_pos hregister]
    rfl
  by_cases hunregister : iequals type (str "unregister") = true
  · rw [if_neg hregister, if_neg hregister, if_pos hunregister, if_pos hunregister]
    rfl
  by_cases hadditional : iequals type (str "additionaldata") = true
  · rw [if_neg hregister, if_neg hregister, if_neg hunregister, if_neg hunregister,
      if_pos hadditional, if_pos hadditional]
    generalize Json.get members (str "additionaldata") = j at hdata
    cases j with
    | object more =>
      obtain ⟨text, htext, rfl⟩ := Option.map_eq_some_iff.mp hdata
      simp only [htext, Option.bind_some]
      rfl
    | null | bool | number | string | array =>
      cases hdata
      rfl
  rw [if_neg hregister, if_neg hregister, if_neg hunregister, if_neg hunregister,
    if_neg hadditional, if_neg hadditional]
  by_cases hbeat : iequals type (str "heartbeat") = true
  · rw [if_pos hbeat]
    cases hnull : (Json.get members (str "heartbeat")).isNull with
    | true =>
      rw [if_pos rfl, if_neg (by simp)]
      rfl
    | false =>
      rw [if_neg Bool.false_ne_true, if_pos ⟨hbeat, rfl⟩]
      rfl
  · rw [if_neg hbeat, if_neg fun h => hbeat h.1]
    rfl

/-- The texts are the messages of the daemon's events. -/
theorem onText_describe (hparse : json.parse message = some (.object members))
    (h : describe members = some d) (s : Daemon) (handler : Nat) (uuid : Bytes) :
    s.onText json handler uuid message = s.onMessage handler uuid (some d) := by
  unfold Daemon.onText Daemon.onMessage
  cases hr : s.handlers handler with
  | none => rfl
  | some r =>
    dsimp only
    by_cases hopen : r.isOpen = false
    · rw [if_pos hopen, if_pos hopen]
    rw [if_neg hopen, if_neg hopen]
    cases halive : s.aliveIs r.appId with
    | error e => rfl
    | ok p =>
      obtain ⟨alive, s'⟩ := p
      rw [ok_bind, ok_bind, understand_describe hparse h]
      cases alive with
      | none => rfl
      | some same =>
        cases same with
        | false => rfl
        | true =>
          cases happ : s'.manager.getAliveApplication with
          | none => rfl
          | some app =>
            dsimp only
            by_cases hid : d.appid ≠ some r.appId
            · rw [if_pos hid, if_pos hid]
              rfl
            · rw [if_neg hid, if_neg hid]
              cases htype : d.type with
              | none => rfl
              | some type => exact perform_readCommand h s' handler app r.appId uuid type

end

end Flingd.App
