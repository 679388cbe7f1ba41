import Flingd.App.Answered
import Flingd.App.ReceiverText

/-! When the texts that receivers and senders send are read within the preconditions of the
accessors. A text is read only as far as the state and what was read before let it. -/
namespace Flingd.App
open Outcome

namespace ApplicationManager
variable {m : ApplicationManager}

theorem Reaches.freed {x : Except Fault ApplicationManager} {c : Course} (h : m.Reaches x c) :
    Ends x (· = .freed) fun _ => True := by
  rcases c with - | ⟨ph, q, marks⟩
  · rw [show x = .error .freed from h]
    exact Ends.error rfl
  · obtain ⟨m', rfl, -⟩ := h
    trivial

end ApplicationManager

/-! ### Messages of receivers -/

/-- The members of the additional data are strings, and there is no heartbeat. -/
def BodyReadable (members : List (Bytes × Json Bytes)) (type : Bytes) : Prop :=
  (iequals type (str "additionaldata") = true → ∀ more,
    Json.get members (str "additionaldata") = .object more →
      ∀ e ∈ more, e.2.getString.isSome = true) ∧
  (iequals type (str "heartbeat") = true →
    (Json.get members (str "heartbeat")).isNull = true)

/-- What is read of the text of a message has the kinds that it is read as. -/
def MessageReadable (json : Rapidjson) (appId_ message : Bytes) : Prop :=
  ∀ d, json.parse message = some d → d.isNull = false → ∃ members, d = .object members ∧
    ((Json.get members (str "appid")).isNull = false →
      ∃ id, Json.get members (str "appid") = .string id ∧
        (appId_ = cStr id → (Json.get members (str "type")).isNull = false →
          ∃ type, Json.get members (str "type") = .string type ∧ BodyReadable members (cStr type)))

section
variable {json : Rapidjson} {members : List (Bytes × Json Bytes)} {appId_ type message : Bytes}

theorem additionalDataStr_iff : additionalDataStr members ≠ none ↔
    ∀ e ∈ members, e.2.getString.isSome = true := by
  induction members with
  | nil => simp [additionalDataStr]
  | cons e members ih =>
    obtain ⟨name, value⟩ := e
    rw [List.forall_mem_cons, ← ih, additionalDataStr]
    cases value.getString with
    | none => simp
    | some text =>
      cases additionalDataStr members <;> simp

theorem readCommand_iff :
    readCommand (.object members) type ≠ none ↔ BodyReadable members type := by
  unfold readCommand BodyReadable
  by_cases hregister : iequals type (str "register") = true
  · have hdata : iequals type (str "additionaldata") = false := iequals_other (by decide) hregister
    have hbeat : iequals type (str "heartbeat") = false := iequals_other (by decide) hregister
    rw [if_pos hregister]
    simp [hdata, hbeat]
  rw [if_neg hregister]
  by_cases hunregister : iequals type (str "unregister") = true
  · have hdata : iequals type (str "additionaldata") = false := iequals_other (by decide) hunregister
    have hbeat : iequals type (str "heartbeat") = false := iequals_other (by decide) hunregister
    rw [if_pos hunregister]
    simp [hdata, hbeat]
  rw [if_neg hunregister]
  by_cases hdata : iequals type (str "additionaldata") = true
  · have hbeat : iequals type (str "heartbeat") = false := iequals_other (by decide) hdata
    rw [if_pos hdata]
    simp only [Json.at?_object, bind, Option.bind_some, hdata, hbeat, true_imp_iff,
      Bool.false_eq_true, false_imp_iff, and_true]
    cases hj : Json.get members (str "additionaldata") with
    | object more =>
      simp only [Json.object.injEq, forall_eq', ← additionalDataStr_iff]
      cases additionalDataStr more <;> simp
    | _ => simp
  rw [if_neg hdata]
  by_cases hbeat : iequals type (str "heartbeat") = true
  · rw [if_pos hbeat]
    simp only [Json.at?_object, bind, Option.bind_some, hdata, hbeat]
    cases (Json.get members (str "heartbeat")).isNull <;> simp [Json.getString]
  · rw [if_neg hbeat]
    simp [hdata, hbeat]

theorem understand_iff :
    understand json appId_ message ≠ none ↔ MessageReadable json appId_ message := by
  unfold understand MessageReadable
  cases hparse : json.parse message with
  | none => simp
  | some d =>
    cases d with
    | null => simp [Json.isNull]
    | object members =>
      simp only [Json.at?_object, bind, Option.bind_some, Option.some.injEq, forall_eq',
        Json.object.injEq, exists_eq_left', show (Json.object members).isNull = false from rfl,
        true_imp_iff]
      cases hid : Json.get members (str "appid") with
      | null => simp [Json.isNull]
      | string id =>
        simp only [show (Json.string id).isNull = false from rfl, Json.getString, Option.bind_some,
          true_imp_iff, Json.string.injEq, exists_eq_left', Bool.false_eq_true, if_false]
        by_cases hsame : appId_ = cStr id
        · rw [if_neg (not_not.mpr hsame)]
          simp only [hsame, true_imp_iff]
          cases htype : Json.get members (str "type") with
          | null => simp [Json.isNull]
          | string type =>
            simp only [show (Json.string type).isNull = false from rfl, Option.bind_some,
              true_imp_iff, Json.string.injEq, exists_eq_left', Bool.false_eq_true, if_false]
            exact readCommand_iff
          | _ => simp [Json.isNull]
        · rw [if_pos hsame]
          simp [hsame]
      | _ => simp [Json.isNull, Json.getString]
    | _ => simp [Json.isNull, Json.at?]

end

namespace Daemon
open ApplicationManager
variable {json : Rapidjson} {s s' : Daemon} {ph : Phase} {q : List Nat}
variable {appId authToken uuid data message : Bytes} {handler app : Nat}

theorem send_fault (s : Daemon) (handler : Nat) (frame : Frame) :
    Ends (s.send handler frame) (· ≠ .misused) fun _ => True := by
  unfold send derefHandler
  cases s.handlers handler with
  | none => exact Ends.error (by simp)
  | some r => trivial

theorem close_fault (s : Daemon) (handler : Nat) :
    Ends (s.close handler) (· ≠ .misused) fun _ => True := by
  unfold close derefHandler
  cases s.handlers handler with
  | none => exact Ends.error (by simp)
  | some r =>
    rw [ok_bind]
    split
    · trivial
    · exact Ends.error (by simp)

theorem manager_fault {x : Except Fault ApplicationManager} {c : Course}
    (hx : s.manager.Reaches x c) :
    Ends (x >>= fun m => (.ok { s with manager := m } : Except Fault Daemon)) (· ≠ .misused)
      fun _ => True :=
  (hx.freed.mono (fun f hf => by rw [hf]; simp) fun _ h => h).bind fun _ _ _ => trivial

theorem doStop_fault (h : s.Sound ph q) (appId : Bytes) :
    Ends (s.doStop appId) (· ≠ .misused) fun _ => True :=
  manager_fault (stop_reaches h.shows h.quiet).reaches

theorem stopAndClose_fault (h : s.Sound ph q) (handler : Nat) (appId : Bytes) :
    Ends (s.stopAndClose handler appId) (· ≠ .misused) fun _ => True :=
  (doStop_fault h appId).bind fun t _ _ => close_fault t handler

theorem register_fault (h : s.Sound ph q) (hh : (s.handlers handler).isSome = true)
    (ha : s.manager.getAliveApplication = some app)
    (hi : s.manager.Live app fun a => a.info.useIpc = true) (appId uuid : Bytes) :
    Ends (s.register handler app appId uuid) (· ≠ .misused) fun _ => True := by
  unfold register
  refine ((setSessionListender_ends h.tables hh).mono (fun f hf => by rw [hf]; simp)
    fun _ ht => ht.1.manager).bind fun t _ ht => ?_
  cases hr : t.createReceiver appId uuid handler with
  | none => exact close_fault t handler
  | some u =>
    have hu : u.manager = s.manager := by
      unfold createReceiver at hr
      split at hr
      · cases hr
      · cases hr
        exact ht
    dsimp only
    rw [hu]
    refine ((started_leads h.shows ha hi).reaches.freed.mono (fun f hf => by rw [hf]; simp)
      fun _ h => h).bind fun m _ _ => ?_
    exact (send_fault _ handler .registerok).bind fun v _ _ => send_fault v handler .startHeartbeat

theorem perform_fault (h : s.Sound ph q) (hh : (s.handlers handler).isSome = true)
    (ha : s.manager.getAliveApplication = some app) (appId uuid : Bytes) (command : Command) :
    Ends (s.perform handler app appId uuid command) (· ≠ .misused) fun _ => True := by
  have hderef : Ends (s.manager.deref app) (· ≠ .misused)
      fun a => s.manager.apps app = some a ∧ a.deleted = false :=
    (h.deref_alive ha).mono (fun f hf => by rw [hf.1]; simp) fun _ ha => ha
  cases command with
  | dropped => trivial
  | register =>
    refine hderef.bind fun a _ ⟨happ, hd⟩ => ?_
    split
    · exact register_fault h hh ha ⟨a, happ, hd, ‹_›⟩ appId uuid
    · exact stopAndClose_fault h handler appId
  | unregister => exact stopAndClose_fault h handler appId
  | additionaldata text =>
    simp only [perform, update, bind_assoc]
    exact hderef.bind fun _ _ _ => trivial
  | heartbeat type =>
    simp only [perform]
    split
    · exact send_fault s handler _
    · trivial

/-- The message is not looked at, or can be read. -/
def Understands (json : Rapidjson) (s : Daemon) (handler : Nat) (message : Bytes) : Prop :=
  ∀ r, s.handlers handler = some r → r.isOpen = true → s.alive r.appId = some true →
    MessageReadable json r.appId message

theorem onText_misused (h : s.Sound ph q) :
    s.onText json handler uuid message ≠ .error .misused ↔ s.Understands json handler message := by
  unfold Understands
  unfold onText
  cases hr : s.handlers handler with
  | none => simp
  | some r =>
    simp only [Option.some.injEq, forall_eq']
    cases hopen : r.isOpen with
    | false => simp
    | true =>
      obtain ⟨k, -, hlook⟩ := h.aliveIs r.appId
      have hn := h.note k
      have hclose : Daemon.close { s with manager := s.manager.note k } handler ≠ .error .misused :=
        fun hmisused => (close_fault _ handler).of_error hmisused rfl
      rw [if_neg (by simp), hlook, ok_bind]
      simp only [true_imp_iff]
      by_cases halive : s.alive r.appId = some true
      · obtain ⟨app, a, happ, -, -⟩ := alive_some halive
        have happ' : (s.manager.note k).getAliveApplication = some app := happ
        simp only [halive, happ', true_imp_iff, ← understand_iff]
        cases understand json r.appId message with
        | none => simp
        | some command =>
          refine iff_of_true (fun hmisused => ?_) (by simp)
          exact (perform_fault hn (show (s.handlers handler).isSome = true by simp [hr]) happ r.appId uuid
            command).of_error hmisused rfl
      · refine iff_of_true ?_ fun hsame => absurd hsame halive
        rcases hs : s.alive r.appId with - | - | -
        · exact hclose
        · exact hclose
        · exact absurd hs halive

/-- A heartbeat is never understood: the string of an object is asked for. -/
theorem understand_heartbeat {appId_ type : Bytes} :
    understand json appId_ message ≠ some (.heartbeat type) := by
  have hcommand {d : Json Bytes} {typeStr : Bytes} (h : readCommand d typeStr = some (.heartbeat type)) :
      False := by
    unfold readCommand at h
    split at h
    · cases h
    · split at h
      · cases h
      · split at h
        · obtain ⟨value, -, h⟩ := Option.bind_eq_some_iff.mp h
          split at h
          · obtain ⟨text, -, h⟩ := Option.bind_eq_some_iff.mp h
            cases h
          · cases h
        · split at h
          · obtain ⟨value, hvalue, h⟩ := Option.bind_eq_some_iff.mp h
            split at h
            · cases h
            · obtain ⟨text, htext, -⟩ := Option.bind_eq_some_iff.mp h
              cases d with
              | object members => cases htext
              | _ => cases hvalue
          · cases h
  intro h
  unfold understand at h
  split at h
  · cases h
  · cases h
  · obtain ⟨appId, -, h⟩ := Option.bind_eq_some_iff.mp h
    split at h
    · cases h
    · obtain ⟨id, -, h⟩ := Option.bind_eq_some_iff.mp h
      split at h
      · cases h
      · obtain ⟨typeValue, -, h⟩ := Option.bind_eq_some_iff.mp h
        split at h
        · cases h
        · obtain ⟨typeStr, -, h⟩ := Option.bind_eq_some_iff.mp h
          exact hcommand h

/-- What the daemon's events say of a message that comes to this command. -/
def described (appId : Bytes) : Command → Option ReceiverMessage
  | .dropped => none
  | .register => some ⟨some appId, some (str "register"), none, false⟩
  | .unregister => some ⟨some appId, some (str "unregister"), none, false⟩
  | .additionaldata data => some ⟨some appId, some (str "additionaldata"), some data, false⟩
  | .heartbeat _ => none

/-- A text that comes to its end is a message of the daemon's events. -/
theorem onText_step (h : s.onText json handler uuid message = .ok s') :
    ∃ e, s.step e = .ok s' := by
  unfold onText at h
  have hevent (d : Option ReceiverMessage) (hd : s.onMessage handler uuid d = .ok s') :
      ∃ e, s.step e = .ok s' := ⟨.message handler uuid d, hd⟩
  cases hr : s.handlers handler with
  | none =>
    rw [hr] at h
    refine hevent none ?_
    simp only [onMessage, hr]
    exact h
  | some r =>
    simp only [hr] at h
    by_cases hopen : r.isOpen = false
    · rw [if_pos hopen] at h
      refine hevent none ?_
      simp only [onMessage, hr]
      rw [if_pos hopen]
      exact h
    rw [if_neg hopen] at h
    obtain ⟨⟨alive, t⟩, hlook, h⟩ := bind_eq_ok.mp h
    by_cases halive : alive = some true ∧ t.manager.getAliveApplication.isSome = true
    · obtain ⟨rfl, hsome⟩ := halive
      obtain ⟨app, happ⟩ := Option.isSome_iff_exists.mp hsome
      simp only [happ] at h
      cases hc : understand json r.appId message with
      | none =>
        rw [hc] at h
        cases h
      | some command =>
        rw [hc] at h
        refine hevent (described r.appId command) ?_
        simp only [onMessage, hr]
        rw [if_neg hopen, hlook, ok_bind]
        simp only [happ]
        cases command with
        | dropped => exact h
        | heartbeat type => exact absurd hc understand_heartbeat
        | _ =>
          simp only [described, ne_eq, not_true, if_false]
          exact h
    · refine hevent none ?_
      simp only [onMessage, hr]
      rw [if_neg hopen, hlook, ok_bind]
      rcases alive with - | - | -
      · exact h
      · exact h
      · cases happ : t.manager.getAliveApplication with
        | none =>
          simp only [happ] at h ⊢
          exact h
        | some app => exact absurd ⟨rfl, by simp [happ]⟩ halive

/-! ### Bodies of senders -/

end Daemon

/-- What `doLaunch` reads has the kinds that it is read as. -/
def AppInfoReadable (json : Rapidjson) (appInfoRaw : Bytes) : Prop :=
  ∃ members url, json.parse appInfoRaw = some (.object members) ∧
    Json.get members (str "url") = .string url ∧
    (Json.get members (str "useIpc")).getBool.isSome = true ∧
    (Json.get members (str "maxInactive")).getInt.isSome = true

theorem readAppInfo_iff {json : Rapidjson} {raw : Bytes} :
    (readAppInfo json raw).isSome = true ↔ AppInfoReadable json raw := by
  unfold readAppInfo AppInfoReadable
  cases hparse : json.parse raw with
  | none => simp
  | some d =>
    cases d with
    | object members =>
      simp only [Json.at?_object, bind, Option.bind_some, Option.some.injEq, Json.object.injEq]
      cases hurl : Json.get members (str "url") with
      | string url =>
        simp only [Json.getString, Option.bind_some]
        cases hipc : (Json.get members (str "useIpc")).getBool with
        | none => simp [hipc]
        | some useIpc =>
          cases hmax : (Json.get members (str "maxInactive")).getInt with
          | none => simp [hmax]
          | some maxInactive =>
            refine iff_of_true rfl ⟨members, url, rfl, hurl, ?_, ?_⟩
            · rw [hipc]
              rfl
            · rw [hmax]
              rfl
      | _ =>
        refine iff_of_false (by simp [Json.getString]) ?_
        rintro ⟨members', url, rfl, hother, -⟩
        rw [hurl] at hother
        cases hother
    | _ => simp [Json.at?]

namespace Daemon
open ApplicationManager
variable {json : Rapidjson} {s s' : Daemon} {ph : Phase} {q : List Nat}
variable {appId authToken uuid data message type : Bytes} {handler app : Nat}

/-- What is read of the text of a body has the kinds that it is read as. What is to be launched is
read after the alive application was asked to stop, which must not be deleted. -/
def BodyTextReadable (json : Rapidjson) (s : Daemon) (appId data : Bytes) : Prop :=
  data = [] ∨ ∀ d, json.parse data = some d → d.isNull = false → ∃ members, d = .object members ∧
    ((Json.get members (str "type")).isNull = false →
      (Json.get members (str "app_info")).isNull = false →
        ∃ type, Json.get members (str "type") = .string type ∧
          (s.launches appId (cStr type) = true →
            AppInfoReadable json (json.write (Json.get members (str "app_info"))) ∨
              (s.alive appId).isSome = true ∧ ¬ s.manager.AliveLives))

theorem launchOrJoin_fault (h : s.Sound ph q) (appId type : Bytes) (info : AppInfo) :
    Ends (s.launchOrJoin appId type info) (· ≠ .misused) fun _ => True := by
  obtain ⟨k, -, hlook⟩ := h.aliveIs appId
  have hn := h.note k
  rw [← launchOrJoinBy_doLaunch]
  cases hl : s.launches appId type with
  | false =>
    obtain ⟨code, hrests⟩ := launchOrJoinBy_rests hl hlook
    rw [hrests]
    trivial
  | true =>
    rw [launchOrJoinBy_launches _ hl hlook]
    cases ha : s.alive appId with
    | none =>
      rw [Option.isSome_none, if_neg Bool.false_ne_true, ok_bind]
      exact (manager_fault (launch_reaches appId info hn.shows (alive_none h ha).1)).bind
        fun _ _ _ => trivial
    | some same =>
      rw [Option.isSome_some, if_pos rfl, ← bind_assoc, replace_eq]
      exact (manager_fault (replace_reaches appId info hn.shows hn.quiet)).bind fun _ _ _ => trivial

theorem launchOrJoinText_misused (json : Rapidjson) (h : s.Sound ph q) (appId type raw : Bytes) :
    s.launchOrJoinBy (doLaunchText json · appId raw) appId type ≠ .error .misused ↔
      (s.launches appId type = true → AppInfoReadable json raw ∨
        (s.alive appId).isSome = true ∧ ¬ s.manager.AliveLives) := by
  obtain ⟨k, -, hlook⟩ := h.aliveIs appId
  have hn := h.note k
  rw [← readAppInfo_iff]
  cases hread : readAppInfo json raw with
  | some info =>
    rw [doLaunchText_read hread, launchOrJoinBy_doLaunch]
    exact iff_of_true (fun hmisused => (launchOrJoin_fault h appId type info).of_error hmisused rfl)
      (by simp)
  | none =>
    cases hl : s.launches appId type with
    | false =>
      obtain ⟨code, hrests⟩ := launchOrJoinBy_rests hl hlook
      rw [hrests]
      simp
    | true =>
      have hunread (t : Daemon) : doLaunchText json t appId raw = .error .misused := by
        simp only [doLaunchText, hread]
      rw [launchOrJoinBy_launches _ hl hlook]
      simp only [hunread]
      cases ha : s.alive appId with
      | none =>
        rw [Option.isSome_none, if_neg Bool.false_ne_true]
        simp [bind, Except.bind]
      | some same =>
        rw [Option.isSome_some, if_pos rfl]
        have hstop := doStop_returns hn appId
        cases hd : ({ s with manager := s.manager.note k } : Daemon).doStop appId with
        | ok t =>
          have hlives : s.manager.AliveLives := hstop.mp ⟨t, hd⟩
          simp [bind, Except.bind, hlives]
        | error f =>
          have hnot : ¬ s.manager.AliveLives := fun hlives => by
            obtain ⟨t, ht⟩ := hstop.mpr hlives
            rw [hd] at ht
            cases ht
          have hf : f ≠ .misused := (doStop_fault hn appId).of_error hd
          simp [bind, Except.bind, hnot, hf]

/-- A request of a known type is misread just where its launch is. -/
theorem onPostText_request (h : s.Sound ph q) {appInfo : Json Bytes}
    (hread : readPost json data = some (.request type appInfo)) :
    s.onPostText json appId authToken uuid data ≠ .error .misused ↔
      (s.launches appId type = true → AppInfoReadable json (json.write appInfo) ∨
        (s.alive appId).isSome = true ∧ ¬ s.manager.AliveLives) := by
  unfold onPostText
  rw [hread]
  dsimp only
  by_cases htype : type ≠ str "launch" ∧ type ≠ str "relaunch" ∧ type ≠ str "join"
  · rw [if_pos htype]
    refine iff_of_true (by simp) fun hlaunches => ?_
    rcases launches_type hlaunches with hlaunch | hrelaunch
    · exact absurd hlaunch htype.1
    · exact absurd hrelaunch htype.2.1
  · rw [if_neg htype]
    have hjoin {t : Daemon} (ht : s.Still t) (token : Bytes) :
        (t.launchOrJoinBy (doLaunchText json · appId (json.write appInfo)) appId type >>=
          fun p => (.ok (p.1, if p.2 = 400 then .status p.2 else .token p.2 token) :
            Except Fault (Daemon × Reply))) ≠ .error .misused ↔
          (s.launches appId type = true → AppInfoReadable json (json.write appInfo) ∨
            (s.alive appId).isSome = true ∧ ¬ s.manager.AliveLives) := by
      have hmisused := launchOrJoinText_misused json (h.still ht) appId type (json.write appInfo)
      rw [launches_congr ht.manager, alive_congr ht.manager, ht.manager] at hmisused
      rw [← hmisused]
      cases t.launchOrJoinBy (doLaunchText json · appId (json.write appInfo)) appId type <;>
        simp [bind, Except.bind]
    by_cases hauth : authToken = []
    · obtain ⟨t, hcreate, ht⟩ := createSender_ok h.tables appId uuid
      rw [if_pos hauth, hcreate]
      exact hjoin ht uuid
    · rw [if_neg hauth]
      exact hjoin (.refl h.tables) authToken

theorem readPost_object {members : List (Bytes × Json Bytes)} (hdata : data ≠ [])
    (hparse : json.parse data = some (.object members)) :
    readPost json data =
      if (Json.get members (str "type")).isNull then some .rejected
      else if (Json.get members (str "app_info")).isNull then some .rejected
      else (Json.get members (str "type")).getString.map
        (.request · (Json.get members (str "app_info"))) := by
  unfold readPost
  rw [if_neg hdata, hparse]
  simp only [Json.at?_object, bind, Option.bind_some]
  split
  · rfl
  · split
    · rfl
    · cases (Json.get members (str "type")).getString <;> rfl

/-- A body breaks the handler just where it cannot be read as far as it is. -/
theorem onPostText_misused (h : s.Sound ph q) :
    s.onPostText json appId authToken uuid data ≠ .error .misused ↔
      s.BodyTextReadable json appId data := by
  have hread (text : PostText) (hread : readPost json data = some text)
      (htext : text = .empty ∨ text = .rejected) :
      s.onPostText json appId authToken uuid data ≠ .error .misused := by
    unfold onPostText
    rcases htext with rfl | rfl <;> simp [hread]
  have hnone (hnone : readPost json data = none) :
      s.onPostText json appId authToken uuid data = .error .misused := by
    unfold onPostText
    rw [hnone]
  unfold BodyTextReadable
  by_cases hdata : data = []
  · exact iff_of_true (hread _ (readPost_empty.mpr hdata) (.inl rfl)) (.inl hdata)
  simp only [hdata, false_or]
  cases hparse : json.parse data with
  | none =>
    refine iff_of_true (hread .rejected ?_ (.inr rfl)) (by simp)
    simp [readPost, hdata, hparse]
  | some d =>
    simp only [Option.some.injEq, forall_eq']
    cases d with
    | null =>
      refine iff_of_true (hread .rejected ?_ (.inr rfl)) (by simp [Json.isNull])
      simp [readPost, hdata, hparse]
    | object members =>
      have hobject := readPost_object hdata hparse
      simp only [show (Json.object members).isNull = false from rfl, true_imp_iff,
        Json.object.injEq, exists_eq_left']
      by_cases htype : (Json.get members (str "type")).isNull = true
      · rw [if_pos htype] at hobject
        exact iff_of_true (hread _ hobject (.inr rfl)) (by simp [htype])
      rw [if_neg htype] at hobject
      by_cases hinfo : (Json.get members (str "app_info")).isNull = true
      · rw [if_pos hinfo] at hobject
        exact iff_of_true (hread _ hobject (.inr rfl)) (by simp [hinfo])
      rw [if_neg hinfo] at hobject
      rw [Bool.not_eq_true] at htype hinfo
      simp only [htype, hinfo, true_imp_iff]
      cases hvalue : Json.get members (str "type") with
      | string text =>
        rw [hvalue] at hobject
        rw [onPostText_request h hobject]
        simp
      | _ =>
        rw [hvalue] at hobject
        rw [hnone hobject]
        simp
    | _ =>
      refine iff_of_false (fun hok => hok (hnone ?_)) (by simp [Json.isNull])
      simp [readPost, hdata, hparse, Json.at?]

end Daemon
end Flingd.App
