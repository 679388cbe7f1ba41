import Flingd.App.FlintServer

/-! When an HTTP request is answered once. Texts that are logged and dropped are not answered, nor
are requests that use a deleted application or a member of another kind. -/
namespace Flingd.App
open Outcome

namespace ApplicationManager
variable {m : ApplicationManager} {ph : Phase} {st : AppState} {q : List Nat} {app : Nat}
variable {appId : Bytes} {info : AppInfo}

/-- The alive application is not deleted. -/
def AliveLives (m : ApplicationManager) : Prop :=
  ∀ app ∈ m.getAliveApplication, ∀ a ∈ m.apps app, a.deleted = false

/-- A new application can take the place of the alive one: it is not up at once while others
wait. -/
def Replaces (m : ApplicationManager) (info : AppInfo) : Prop :=
  m.AliveLives ∧
    (m.awaitsStop = false → info.accepted = true → info.useIpc = true ∨ m.settled = [])

theorem Shows.aliveLives_iff (h : m.Shows ph st q) :
    m.AliveLives ↔ ∀ app, ph ≠ .dangling app := by
  have hlive {p : Application → Prop} {i : Nat} (hl : m.Live i p) :
      ∀ a ∈ m.apps i, a.deleted = false := by
    obtain ⟨b, hb, hd, -⟩ := hl
    rintro a ha
    rw [hb] at ha
    cases ha
    exact hd
  have hwaits : ∀ i ∈ q.head?, ∀ a ∈ m.apps i, a.deleted = false :=
    fun i hi => hlive (h.waits.2 i (List.mem_of_mem_head? hi))
  have hfits := h.fits
  unfold AliveLives getAliveApplication
  rw [h.top, h.starting, h.queue]
  cases ph with
  | idle => exact iff_of_true hwaits (by simp)
  | stopping slot => exact iff_of_true hwaits (by simp)
  | starting slot =>
    refine iff_of_true (fun i hi => ?_) (by simp)
    cases hi
    exact hlive hfits
  | running slot =>
    refine iff_of_true (fun i hi => ?_) (by simp)
    cases hi
    exact hlive hfits
  | dangling slot =>
    obtain ⟨b, hb, hd, -⟩ := hfits
    refine iff_of_false (fun hall => ?_) fun hall => hall slot rfl
    rw [hall slot rfl b hb] at hd
    cases hd

theorem Shows.stopTo_iff (h : m.Shows ph st q) : m.stopTo ph q ≠ none ↔ m.AliveLives := by
  rw [h.aliveLives_iff]
  unfold stopTo
  cases ph with
  | idle => simp
  | stopping slot => simp
  | starting slot => cases hs : m.stopsAtOnce slot <;> simp [hs]
  | running slot => cases hs : m.stopsAtOnce slot <;> simp [hs]
  | dangling slot => simp

theorem landing_iff :
    m.landing app q ≠ none ↔ (m.accepts app = true → m.usesIpc app = true ∨ q = []) := by
  unfold landing
  by_cases hacc : m.accepts app = true
  · rw [if_pos hacc]
    by_cases hipc : m.usesIpc app = true
    · simp [hipc]
    · rw [if_neg hipc]
      by_cases hq : q = []
      · simp [hq]
      · simp [hacc, hipc, hq]
  · simp [hacc]

theorem after_ne_none {c : Course} {marks : List Mark} : c.after marks ≠ none ↔ c ≠ none := by
  cases c <;> simp [Course.after]

theorem newApplication_landing :
    (m.newApplication appId info).landing m.nextApp q ≠ none ↔
      (info.accepted = true → info.useIpc = true ∨ q = []) := by
  have hsig := signature_of_apps (newApplication_self (m := m) appId info)
  rw [landing_iff]
  simp [accepts, usesIpc, hsig]

theorem Shows.replaceTo_iff (h : m.Shows ph st q) (appId : Bytes) (info : AppInfo) :
    m.replaceTo appId info ph q ≠ none ↔ m.Replaces info := by
  unfold replaceTo Replaces
  rw [← h.stopTo_iff]
  rcases hc : m.stopTo ph q with - | ⟨ph', q', marks⟩
  · exact iff_of_false (fun hne => hne rfl) fun hne => hne.1 rfl
  · rw [Course.next, Option.bind_some, after_ne_none]
    rcases stopTo_settled h ph' q' marks hc with ⟨hwaits, ⟨slot, rfl⟩, -⟩ | ⟨hwaits, rfl, rfl⟩
    · exact iff_of_true (by simp [launchTo]) ⟨by simp, by simp [hwaits]⟩
    · simp only [launchTo, newApplication_landing, hwaits]
      simp

theorem Reaches.returns_iff {x : Except Fault ApplicationManager} {c : Course}
    (h : m.Reaches x c) : Returns x ↔ c ≠ none := by
  rcases c with - | ⟨ph, q, marks⟩
  · rw [show x = .error .freed from h]
    exact iff_of_false (not_returns_error _) fun hne => hne rfl
  · obtain ⟨m', hm, -⟩ := h
    exact iff_of_true ⟨m', hm⟩ (by simp)

end ApplicationManager

namespace Daemon
open ApplicationManager
variable {s s' : Daemon} {ph : Phase} {q : List Nat} {appId type : Bytes} {info : AppInfo}
variable {handler : Nat}

/-! ### What always returns -/

theorem send_ok (hh : (s.handlers handler).isSome = true) (frame : Frame) :
    Returns (s.send handler frame) := by
  obtain ⟨r, -, hd⟩ := derefHandler_ok hh
  unfold send
  rw [hd, ok_bind]
  exact .ok _

theorem notify_ok (h : s.Tables) (frame : Frame) : Returns (s.notify frame) := by
  unfold notify
  cases hl : s.sessionListener_ with
  | none => exact .ok s
  | some l => exact send_ok (h.listener l hl) frame

theorem createSender_ok (h : s.Tables) (appId token : Bytes) :
    ∃ t, s.createSender appId token = .ok t ∧ s.Still t := by
  obtain ⟨t, ht⟩ := notify_ok (s := { s with senderSessions_ := s.senderSessions_.insert token appId })
    ⟨h.listener, h.fresh⟩ (.senderconnected token)
  exact ⟨t, ht, (createSender_ends h appId token).of_ok ht⟩

theorem disconnectSender_ok (h : s.Tables) (token : Bytes) :
    ∃ t, s.disconnectSender token = .ok t ∧ s.Still t := by
  have hret : Returns (s.disconnectSender token) := by
    unfold disconnectSender
    split
    · exact notify_ok (s := { s with senderSessions_ := s.senderSessions_.eraseFirst (token = ·) })
        ⟨h.listener, h.fresh⟩ _
    · exact .ok s
  obtain ⟨t, ht⟩ := hret
  exact ⟨t, ht, (disconnectSender_ends h token).of_ok ht⟩

/-! ### The manager -/

theorem manager_returns {x : Except Fault ApplicationManager} {c : Course}
    (hx : s.manager.Reaches x c) :
    Returns (x >>= fun m => (.ok { s with manager := m } : Except Fault Daemon)) ↔ c ≠ none := by
  rw [← hx.returns_iff]
  exact returns_bind_ok

theorem doStop_returns (h : s.Sound ph q) (appId : Bytes) :
    Returns (s.doStop appId) ↔ s.manager.AliveLives := by
  rw [← h.shows.stopTo_iff]
  exact manager_returns (stop_reaches h.shows h.quiet).reaches

theorem doLaunch_returns (h : s.Sound ph q) (hph : ph.slot = ph.stoppingSlot) (hq : q = [])
    (appId : Bytes) (info : AppInfo) : Returns (s.doLaunch appId info) := by
  refine (manager_returns (launch_reaches appId info h.shows hph)).mpr ?_
  subst hq
  cases ph with
  | idle =>
    simp only [launchTo, newApplication_landing]
    simp
  | stopping slot => simp [launchTo]
  | _ => cases hph

theorem replace_returns (h : s.Sound ph q) (appId : Bytes) (info : AppInfo) :
    Returns (do let s ← s.doStop appId; s.doLaunch appId info) ↔ s.manager.Replaces info := by
  rw [replace_eq, ← h.shows.replaceTo_iff appId info]
  exact manager_returns (replace_reaches appId info h.shows h.quiet)

/-! ### The requests -/

theorem alive_some {same : Bool} (h : s.alive appId = some same) :
    ∃ app a, s.manager.getAliveApplication = some app ∧ s.manager.apps app = some a ∧
      decide (a.appId = appId) = same := by
  obtain ⟨app, happ, h⟩ := Option.bind_eq_some_iff.mp h
  obtain ⟨a, ha, h⟩ := Option.map_eq_some_iff.mp h
  exact ⟨app, a, happ, ha, h⟩

theorem writeStatus_returns (h : s.Sound ph q) (appId : Bytes) :
    Returns (s.writeStatus appId) ↔ (s.alive appId = some true → s.manager.AliveLives) := by
  obtain ⟨k, -, hlook⟩ := h.aliveIs appId
  unfold writeStatus
  rw [hlook, ok_bind]
  by_cases halive : s.alive appId = some true
  · obtain ⟨app, a, happ, ha, -⟩ := alive_some halive
    have happ' : (s.manager.note k).getAliveApplication = some app := happ
    have hlives : s.manager.AliveLives ↔ a.deleted = false := by
      unfold AliveLives
      rw [happ]
      simp [ha]
    have hderef : (s.manager.note k).deref app = if a.deleted then .error .freed else .ok a := by
      simp only [deref, show (s.manager.note k).apps app = some a from ha]
    simp only [halive, happ', hderef, hlives, true_imp_iff]
    cases a.deleted with
    | false => exact iff_of_true (.ok _) rfl
    | true => exact iff_of_false (not_returns_error _) (by simp)
  · refine iff_of_true ?_ fun hsame => absurd hsame halive
    dsimp only
    split
    · rename_i hsame _
      exact absurd hsame halive
    · exact .ok _

theorem stopAlive_returns (h : s.Sound ph q) (appId : Bytes) :
    Returns (s.stopAlive appId) ↔ (s.alive appId = some true → s.manager.AliveLives) := by
  obtain ⟨k, -, hlook⟩ := h.aliveIs appId
  have hstop := doStop_returns (h.note k) appId
  unfold stopAlive
  rw [hlook, ok_bind]
  rcases s.alive appId with - | - | -
  · exact iff_of_true (.ok _) (by simp)
  · exact iff_of_true (.ok _) (by simp)
  · rw [returns_bind_ok, hstop]
    exact ⟨fun hlives _ => hlives, fun hlives => hlives rfl⟩

theorem launchOrJoin_returns (h : s.Sound ph q) (appId type : Bytes) (info : AppInfo) :
    Returns (s.launchOrJoin appId type info) ↔
      (s.launches appId type = true → (s.alive appId).isSome = true → s.manager.Replaces info) := by
  obtain ⟨k, -, hlook⟩ := h.aliveIs appId
  have hn := h.note k
  rw [← launchOrJoinBy_doLaunch]
  cases hl : s.launches appId type with
  | false =>
    obtain ⟨code, hrests⟩ := launchOrJoinBy_rests hl hlook
    exact iff_of_true ⟨_, hrests _⟩ (by simp)
  | true =>
    rw [launchOrJoinBy_launches _ hl hlook]
    cases ha : s.alive appId with
    | none =>
      obtain ⟨hph, hq⟩ := alive_none h ha
      obtain ⟨t, ht⟩ := doLaunch_returns hn hph hq appId info
      rw [Option.isSome_none, if_neg Bool.false_ne_true, ok_bind]
      exact iff_of_true ⟨(t, 201), bind_eq_ok.mpr ⟨t, ht, rfl⟩⟩ (by simp)
    | some same =>
      rw [Option.isSome_some, if_pos rfl, ← bind_assoc, returns_bind_ok, replace_returns hn appId info]
      exact ⟨fun hreplaces _ _ => hreplaces, fun hreplaces => hreplaces rfl rfl⟩

end Daemon

/-! ### Texts -/

section
variable {json : Rapidjson} {data type : Bytes} {appInfo : Json Bytes}

theorem getString_eq {j : Json Bytes} {s : Bytes} :
    j.getString = some s ↔ ∃ text, j = .string text ∧ cStr text = s := by
  cases j <;> simp [Json.getString]

theorem readPost_empty : readPost json data = some .empty ↔ data = [] := by
  unfold readPost
  by_cases hdata : data = []
  · simp [hdata]
  · rw [if_neg hdata]
    refine iff_of_false (fun h => ?_) hdata
    split at h
    · cases h
    · cases h
    · obtain ⟨type, -, h⟩ := Option.bind_eq_some_iff.mp h
      split at h
      · cases h
      · obtain ⟨appInfo, -, h⟩ := Option.bind_eq_some_iff.mp h
        split at h
        · cases h
        · obtain ⟨typeStr, -, h⟩ := Option.bind_eq_some_iff.mp h
          cases h

theorem readPost_request : readPost json data = some (.request type appInfo) ↔
    data ≠ [] ∧ ∃ members text, json.parse data = some (.object members) ∧
      Json.get members (str "type") = .string text ∧ cStr text = type ∧
      Json.get members (str "app_info") = appInfo ∧ appInfo.isNull = false := by
  constructor
  · intro h
    unfold readPost at h
    by_cases hdata : data = []
    · rw [if_pos hdata] at h
      cases h
    rw [if_neg hdata] at h
    refine ⟨hdata, ?_⟩
    split at h
    · cases h
    · cases h
    · rename_i d _ hparse
      obtain ⟨typeValue, htype, h⟩ := Option.bind_eq_some_iff.mp h
      cases d with
      | object members =>
        cases htype
        split at h
        · cases h
        obtain ⟨_, hinfo, h⟩ := Option.bind_eq_some_iff.mp h
        cases hinfo
        split at h
        · cases h
        rename_i hnull
        obtain ⟨typeStr, hstring, h⟩ := Option.bind_eq_some_iff.mp h
        cases h
        obtain ⟨text, htext, hcstr⟩ := getString_eq.mp hstring
        exact ⟨members, text, hparse, htext, hcstr, rfl, by simpa using hnull⟩
      | _ => cases htype
  · rintro ⟨hdata, members, text, hparse, htype, rfl, rfl, hnull⟩
    unfold readPost
    rw [if_neg hdata, hparse]
    simp only [Json.at?_object, bind, Option.bind_some, htype, hnull]
    rfl

end

/-- A body that `SystemControlHandler` can read. -/
def SystemControlHandler.Readable (json : Rapidjson) (data : Bytes) : Prop :=
  data = [] ∨ ∃ members type, json.parse data = some (.object members) ∧
    Json.get members (str "type") = .string type ∧
    (iequals (cStr type) (str "SET_VOLUME") = true →
      (Json.get members (str "level")).getDouble.isSome = true) ∧
    (iequals (cStr type) (str "SET_MUTED") = true →
      (Json.get members (str "muted")).getBool.isSome = true)

/-- The actions hold one call of `response`. -/
def Once (actions : List Action) : Prop := actions.countP Action.isResponse = 1

namespace SystemControlHandler
variable {json : Rapidjson} {data typeStr : Bytes} {members : List (Bytes × Json Bytes)}

/-- A member of which a value is asked for, and that may not be null. -/
theorem member_iff {α : Type} (read : Json Bytes → Option α) (make : α → Command)
    (hnull : read .null = none) (hmake : ∀ a, make a ≠ .rejected) (j : Json Bytes) :
    (∃ c, (if j.isNull then some .rejected else (read j).map make) = some c ∧ c ≠ .rejected) ↔
      (read j).isSome = true := by
  cases hj : j.isNull with
  | true =>
    have heq : j = .null := by
      cases j <;> first | rfl | cases hj
    rw [heq, hnull]
    refine iff_of_false ?_ (by simp)
    rintro ⟨c, hc, hne⟩
    cases hc
    exact hne rfl
  | false =>
    rw [if_neg Bool.false_ne_true]
    cases read j with
    | none => simp
    | some a => simp [hmake a]

theorem readCommand_iff :
    (∃ c, readCommand (.object members) typeStr = some c ∧ c ≠ .rejected) ↔
      (iequals typeStr (str "SET_VOLUME") = true →
        (Json.get members (str "level")).getDouble.isSome = true) ∧
      (iequals typeStr (str "SET_MUTED") = true →
        (Json.get members (str "muted")).getBool.isSome = true) := by
  unfold readCommand
  by_cases hget : iequals typeStr (str "GET_VOLUME") = true
  · rw [if_pos hget, iequals_other (by decide) hget, iequals_other (by decide) hget]
    simp
  rw [if_neg hget]
  by_cases hmuted : iequals typeStr (str "GET_MUTED") = true
  · rw [if_pos hmuted, iequals_other (by decide) hmuted, iequals_other (by decide) hmuted]
    simp
  rw [if_neg hmuted]
  by_cases hvolume : iequals typeStr (str "SET_VOLUME") = true
  · have hnot : iequals typeStr (str "SET_MUTED") = false := iequals_other (by decide) hvolume
    have hmember := member_iff Json.getDouble Command.setVolume rfl (by simp)
      (Json.get members (str "level"))
    rw [if_pos hvolume, hnot]
    simpa [hvolume] using hmember
  rw [if_neg hvolume]
  by_cases hset : iequals typeStr (str "SET_MUTED") = true
  · have hmember := member_iff Json.getBool Command.setMuted rfl (by simp)
      (Json.get members (str "muted"))
    rw [if_pos hset]
    simpa [hvolume, hset] using hmember
  · rw [if_neg hset]
    simp [hvolume, hset]

theorem read_iff : (∃ c, read json data = some c ∧ c ≠ .rejected) ↔ Readable json data := by
  unfold read Readable
  by_cases hdata : data = []
  · simp [hdata]
  · rw [if_neg hdata]
    simp only [hdata, false_or]
    constructor
    · rintro ⟨c, hc, hne⟩
      split at hc
      · cases hc
        exact absurd rfl hne
      · cases hc
        exact absurd rfl hne
      · rename_i d _ hparse
        obtain ⟨type, htype, hc⟩ := Option.bind_eq_some_iff.mp hc
        cases d with
        | object members =>
          cases htype
          split at hc
          · cases hc
            exact absurd rfl hne
          obtain ⟨typeStr, hstring, hc⟩ := Option.bind_eq_some_iff.mp hc
          obtain ⟨text, htext, rfl⟩ := getString_eq.mp hstring
          exact ⟨members, text, hparse, htext, readCommand_iff.mp ⟨c, hc, hne⟩⟩
        | _ => cases htype
    · rintro ⟨members, text, hparse, htype, hkinds⟩
      rw [hparse]
      simp only [Json.at?_object, bind, Option.bind_some, htype]
      exact readCommand_iff.mpr hkinds

theorem perform_once {device : Device} {c : Command} :
    Once (perform json device c) ↔ c ≠ .rejected := by
  cases c <;> simp [Once, perform, Action.isResponse, Action.status]

end SystemControlHandler

namespace Daemon
open ApplicationManager
variable {json : Rapidjson} {s s' : Daemon} {ph : Phase} {q : List Nat}
variable {appId authToken uuid data : Bytes}

/-- A body that `ApplicationControlHandler` can read, and that does not ask for what cannot be
launched. -/
def Postable (json : Rapidjson) (s : Daemon) (appId data : Bytes) : Prop :=
  data = [] ∨ ∃ members type, json.parse data = some (.object members) ∧
    Json.get members (str "type") = .string type ∧
    (Json.get members (str "app_info")).isNull = false ∧
    (s.launches appId (cStr type) = true →
      ∃ info, readAppInfo json (json.write (Json.get members (str "app_info"))) = some info ∧
        ((s.alive appId).isSome = true → s.manager.Replaces info))

/-- The alive application is not deleted where it has this id. -/
def Usable (s : Daemon) (appId : Bytes) : Prop := s.alive appId = some true → s.manager.AliveLives

/-- There is a reply, which is not silence. -/
def Replied (x : Except Fault (Daemon × Reply)) : Prop := ∃ s reply, x = .ok (s, reply) ∧ reply ≠ .silence

theorem replied_ok {reply : Reply} (h : reply ≠ .silence) : Replied (.ok (s, reply)) := ⟨s, reply, rfl, h⟩

theorem replied_iff_returns {x : Except Fault (Daemon × Reply)}
    (h : ∀ p, x = .ok p → p.2 ≠ .silence) : Replied x ↔ Returns x := by
  constructor
  · rintro ⟨t, reply, hok, -⟩
    exact ⟨(t, reply), hok⟩
  · rintro ⟨⟨t, reply⟩, hok⟩
    exact ⟨t, reply, hok, h _ hok⟩

theorem replied_bind {α : Type} {x : Except Fault α} {f : α → Except Fault (Daemon × Reply)} :
    Replied (x >>= f) ↔ ∃ a, x = .ok a ∧ Replied (f a) := by
  constructor
  · rintro ⟨t, reply, h, hne⟩
    obtain ⟨a, ha, h⟩ := bind_eq_ok.mp h
    exact ⟨a, ha, t, reply, h, hne⟩
  · rintro ⟨a, ha, t, reply, h, hne⟩
    exact ⟨t, reply, bind_eq_ok.mpr ⟨a, ha, h⟩, hne⟩

/-- Where every result is a reply, it is enough that there is one. -/
theorem replied_bind_ok {α : Type} {x : Except Fault α} {g : α → Daemon × Reply}
    (h : ∀ a, (g a).2 ≠ .silence) : Replied (x >>= fun a => .ok (g a)) ↔ Returns x := by
  rw [replied_bind]
  constructor
  · rintro ⟨a, ha, -⟩
    exact ⟨a, ha⟩
  · rintro ⟨a, ha⟩
    exact ⟨a, ha, replied_ok (h a)⟩

theorem launchOrJoinText_returns (json : Rapidjson) (h : s.Sound ph q) (appId type raw : Bytes) :
    Returns (s.launchOrJoinBy (doLaunchText json · appId raw) appId type) ↔
      (s.launches appId type = true → ∃ info, readAppInfo json raw = some info ∧
        ((s.alive appId).isSome = true → s.manager.Replaces info)) := by
  cases hread : readAppInfo json raw with
  | some info =>
    rw [doLaunchText_read hread, launchOrJoinBy_doLaunch, launchOrJoin_returns h]
    simp
  | none =>
    cases hlaunches : s.launches appId type with
    | true =>
      obtain ⟨f, hf⟩ := launchOrJoinBy_fails _ hlaunches (doLaunchText_unread hread)
      rw [hf]
      exact iff_of_false (not_returns_error f) (by simp)
    | false =>
      obtain ⟨k, -, hlook⟩ := h.aliveIs appId
      obtain ⟨code, hrests⟩ := launchOrJoinBy_rests hlaunches hlook
      exact iff_of_true ⟨_, hrests _⟩ (by simp)

/-! ### The handlers -/

theorem writeStatus_replied (h : s.Sound ph q) :
    Replied (s.writeStatus appId) ↔ s.Usable appId := by
  unfold Usable
  rw [← writeStatus_returns h]
  refine replied_iff_returns fun p hok => ?_
  obtain ⟨⟨alive, u⟩, -, hok⟩ := bind_eq_ok.mp hok
  dsimp only at hok
  split at hok
  · obtain ⟨a, -, hok⟩ := bind_eq_ok.mp hok
    cases hok
    simp
  · cases hok
    simp

theorem stopAlive_replied (h : s.Sound ph q) :
    Replied (s.stopAlive appId) ↔ s.Usable appId := by
  unfold Usable
  rw [← stopAlive_returns h]
  refine replied_iff_returns fun p hok => ?_
  obtain ⟨⟨alive, u⟩, -, hok⟩ := bind_eq_ok.mp hok
  dsimp only at hok
  split at hok
  · obtain ⟨v, -, hok⟩ := bind_eq_ok.mp hok
    cases hok
    simp
  · cases hok
    simp
  · cases hok
    simp

theorem onDelete_replied (h : s.Sound ph q) {isInstance : Bool} :
    Replied (s.onDelete appId authToken isInstance) ↔
      (authToken ≠ [] ∧ s.checkSender authToken = true ∧ isInstance = true → s.Usable appId) := by
  unfold onDelete
  by_cases htoken : authToken = [] ∨ s.checkSender authToken = false
  · rw [if_pos htoken]
    refine iff_of_true (replied_ok (by simp)) fun hvalid => ?_
    rcases htoken with hempty | hunknown
    · exact absurd hempty hvalid.1
    · rw [hunknown] at hvalid
      simp at hvalid
  · rw [if_neg htoken]
    obtain ⟨hne, hknown⟩ := not_or.mp htoken
    obtain ⟨t, ht, hstill⟩ := disconnectSender_ok h.tables authToken
    rw [ht, ok_bind]
    cases isInstance with
    | false => exact iff_of_true (replied_ok (by simp)) (by simp)
    | true =>
      rw [if_pos rfl, stopAlive_replied (h.still hstill)]
      have husable : t.Usable appId ↔ s.Usable appId := by
        unfold Usable
        rw [alive_congr hstill.manager, hstill.manager]
      rw [husable]
      exact ⟨fun husable _ => husable, fun husable => husable ⟨hne, by simpa using hknown, rfl⟩⟩

theorem onDialPost_replied (h : s.Sound ph q) :
    Replied (s.onDialPost appId data) ↔ ∀ info, makeDialApplication appId data = some info →
      s.launches appId (str "launch") = true → (s.alive appId).isSome = true →
        s.manager.Replaces info := by
  unfold onDialPost
  cases hmake : makeDialApplication appId data with
  | none => exact iff_of_true (replied_ok (by simp)) (by simp)
  | some info =>
    dsimp only
    rw [replied_bind_ok (fun _ => by simp), launchOrJoin_returns h]
    simp

theorem onGet_replied (h : s.Sound ph q) : Replied (s.onGet appId authToken) ↔
    (authToken = [] ∨ s.checkSender authToken = true → s.Usable appId) := by
  unfold onGet
  by_cases htoken : authToken ≠ [] ∧ s.checkSender authToken = false
  · rw [if_pos htoken]
    exact iff_of_true (replied_ok (by simp)) fun hvalid => absurd hvalid (by simp [htoken])
  · rw [if_neg htoken]
    have hvalid : authToken = [] ∨ s.checkSender authToken = true := by
      by_cases hempty : authToken = []
      · exact .inl hempty
      · exact .inr (by simpa [hempty] using htoken)
    rw [writeStatus_replied h]
    exact ⟨fun hlives _ => hlives, fun hlives => hlives hvalid⟩

theorem postable_request {type : Bytes} {appInfo : Json Bytes}
    (hread : readPost json data = some (.request type appInfo)) :
    s.Postable json appId data ↔ (s.launches appId type = true →
      ∃ info, readAppInfo json (json.write appInfo) = some info ∧
        ((s.alive appId).isSome = true → s.manager.Replaces info)) := by
  obtain ⟨hdata, members, text, hparse, htype, rfl, rfl, hnull⟩ := readPost_request.mp hread
  constructor
  · rintro (hempty | ⟨members', text', hparse', htype', -, hlaunch⟩)
    · exact absurd hempty hdata
    · rw [hparse] at hparse'
      cases hparse'
      rw [htype] at htype'
      cases htype'
      exact hlaunch
  · exact fun hlaunch => .inr ⟨members, text, hparse, htype, hnull, hlaunch⟩

/-- Only an empty text and a request can be posted. -/
theorem not_postable (hne : readPost json data ≠ some .empty)
    (hne' : ∀ type appInfo, readPost json data ≠ some (.request type appInfo)) :
    ¬ s.Postable json appId data := by
  rintro (hempty | ⟨members, text, hparse, htype, hnull, -⟩)
  · exact hne (readPost_empty.mpr hempty)
  · exact hne' _ _ (readPost_request.mpr ⟨fun hempty => hne (readPost_empty.mpr hempty), members,
      text, hparse, htype, rfl, rfl, hnull⟩)

theorem onPostText_replied (h : s.Sound ph q) :
    Replied (s.onPostText json appId authToken uuid data) ↔ s.Postable json appId data := by
  unfold onPostText
  cases hread : readPost json data with
  | none =>
    refine iff_of_false (fun ⟨_, _, hx, _⟩ => by cases hx) (not_postable ?_ ?_) <;> simp [hread]
  | some text =>
    cases text with
    | empty => exact iff_of_true (replied_ok (by simp)) (.inl (readPost_empty.mp hread))
    | rejected =>
      refine iff_of_false ?_ (not_postable ?_ ?_)
      · rintro ⟨t, reply, hx, hne⟩
        cases hx
        exact hne rfl
      · simp [hread]
      · simp [hread]
    | request type appInfo =>
      rw [postable_request hread]
      dsimp only
      by_cases htype : type ≠ str "launch" ∧ type ≠ str "relaunch" ∧ type ≠ str "join"
      · rw [if_pos htype]
        refine iff_of_true (replied_ok (by simp)) fun hlaunches => ?_
        rcases launches_type hlaunches with hlaunch | hrelaunch
        · exact absurd hlaunch htype.1
        · exact absurd hrelaunch htype.2.1
      · rw [if_neg htype]
        have hjoin {t : Daemon} (ht : s.Still t) (token : Bytes) :
            Replied (t.launchOrJoinBy (doLaunchText json · appId (json.write appInfo)) appId type >>=
              fun p => (.ok (p.1, if p.2 = 400 then .status p.2 else .token p.2 token) :
                Except Fault (Daemon × Reply))) ↔ (s.launches appId type = true →
              ∃ info, readAppInfo json (json.write appInfo) = some info ∧
                ((s.alive appId).isSome = true → s.manager.Replaces info)) := by
          have hret := launchOrJoinText_returns json (h.still ht) appId type
            (json.write appInfo)
          rw [launches_congr ht.manager, alive_congr ht.manager, ht.manager] at hret
          rw [replied_bind_ok, hret]
          intro p
          split <;> simp
        by_cases hauth : authToken = []
        · obtain ⟨t, hcreate, ht⟩ := createSender_ok h.tables appId uuid
          rw [if_pos hauth, hcreate]
          exact hjoin ht uuid
        · rw [if_neg hauth]
          exact hjoin (.refl h.tables) authToken

/-! ### The condition -/

def ControlServed (json : Rapidjson) (s : Daemon) (r : HttpRequest) : Prop :=
  let appId := parseAppId r.path
  appId ≠ [] ∧ istartsWith appId (str "~") = true →
    match r.methodOf with
    | .get => r.authorization = [] ∨ s.checkSender r.authorization = true → s.Usable appId
    | .post => s.Postable json appId r.body
    | .delete => r.authorization ≠ [] ∧ s.checkSender r.authorization = true ∧
        isRunningInstance r.path appId = true → s.Usable appId
    | _ => True

def DialServed (s : Daemon) (r : HttpRequest) : Prop :=
  let appId := parseAppId r.path
  appId ≠ [] →
    match r.methodOf with
    | .get => s.Usable appId
    | .post => ∀ info, makeDialApplication appId r.body = some info →
        s.launches appId (str "launch") = true → (s.alive appId).isSome = true →
          s.manager.Replaces info
    | .delete => s.Usable appId
    | _ => True

/-- There is a handler for the path, its body can be read where it has to be, and nothing is asked of
an application that is deleted or would be. -/
def Served (json : Rapidjson) (s : Daemon) (r : HttpRequest) : Prop :=
  match handlerOf r.path with
  | none => False
  | some .deviceDesc => True
  | some .systemControl => r.methodOf = .post → SystemControlHandler.Readable json r.body
  | some .applicationControl => s.ControlServed json r
  | some .dial => s.DialServed r

/-- The request comes to its end, with one call of `response`. -/
def AnsweredOnce (x : Except Fault (Daemon × List Action)) : Prop :=
  ∃ s actions, x = .ok (s, actions) ∧ Once actions

theorem actions_once {reply : Reply} : Once reply.actions ↔ reply ≠ .silence := by
  cases reply <;> simp [Once, Reply.actions, Action.isResponse]

theorem replied_once {x : Except Fault (Daemon × Reply)} :
    AnsweredOnce (x >>= fun p => .ok (p.1, p.2.actions)) ↔ Replied x := by
  constructor
  · rintro ⟨t, actions, hok, honce⟩
    obtain ⟨⟨u, reply⟩, hx, hok⟩ := bind_eq_ok.mp hok
    cases hok
    exact ⟨u, reply, hx, actions_once.mp honce⟩
  · rintro ⟨t, reply, rfl, hne⟩
    exact ⟨t, reply.actions, rfl, actions_once.mpr hne⟩

theorem systemControlHandler_once (device : Device) (s : Daemon) (r : HttpRequest) :
    AnsweredOnce (systemControlHandler json device r >>= fun actions => .ok (s, actions)) ↔
      (r.methodOf = .post → SystemControlHandler.Readable json r.body) := by
  unfold systemControlHandler
  cases r.methodOf with
  | post =>
    rw [← SystemControlHandler.read_iff]
    unfold SystemControlHandler.onPost
    cases hread : SystemControlHandler.read json r.body with
    | none =>
      refine iff_of_false ?_ (by simp)
      rintro ⟨t, actions, hok, -⟩
      cases hok
    | some c =>
      constructor
      · rintro ⟨t, actions, hok, honce⟩ -
        cases hok
        exact ⟨c, rfl, SystemControlHandler.perform_once.mp honce⟩
      · intro h
        obtain ⟨c', hc, hne⟩ := h rfl
        cases hc
        exact ⟨s, _, rfl, SystemControlHandler.perform_once.mpr hne⟩
  | _ => exact iff_of_true ⟨s, _, rfl, rfl⟩ (by simp)

theorem applicationControlHandler_replied (h : s.Sound ph q) (r : HttpRequest) :
    Replied (s.applicationControlHandler json uuid r) ↔ s.ControlServed json r := by
  unfold applicationControlHandler ControlServed
  by_cases hid : parseAppId r.path ≠ [] ∧ istartsWith (parseAppId r.path) (str "~") = true
  · dsimp only
    rw [if_pos hid, forall_prop_of_true hid]
    cases r.methodOf with
    | get => exact onGet_replied h
    | post => exact onPostText_replied h
    | delete => exact onDelete_replied h
    | _ => exact iff_of_true (replied_ok (by simp)) trivial
  · dsimp only
    rw [if_neg hid]
    exact iff_of_true (replied_ok (by simp)) fun hid' => absurd hid' hid

theorem dialHandler_replied (h : s.Sound ph q) (r : HttpRequest) :
    Replied (s.dialHandler r) ↔ s.DialServed r := by
  unfold dialHandler DialServed
  by_cases hid : parseAppId r.path ≠ []
  · dsimp only
    rw [if_pos hid, forall_prop_of_true hid]
    cases r.methodOf with
    | get => exact writeStatus_replied h
    | post => exact onDialPost_replied h
    | delete => exact stopAlive_replied h
    | _ => exact iff_of_true (replied_ok (by simp)) trivial
  · dsimp only
    rw [if_neg hid]
    exact iff_of_true (replied_ok (by simp)) fun hid' => absurd hid' hid

/-- A request is answered once just where it is served. -/
theorem answered_once_iff {es : List Event} (hrun : start.run es = .ok s) (json : Rapidjson)
    (device : Device) (uuid : Bytes) (r : HttpRequest) :
    AnsweredOnce (s.onHttpRequest json device uuid r) ↔ s.Served json r := by
  obtain ⟨ph, q, h⟩ := run_sound hrun
  unfold onHttpRequest Served
  cases handlerOf r.path with
  | none =>
    refine iff_of_false ?_ not_false
    rintro ⟨t, actions, hok, honce⟩
    cases hok
    cases honce
  | some handler =>
    cases handler with
    | deviceDesc =>
      refine iff_of_true ⟨s, _, rfl, ?_⟩ trivial
      unfold deviceDescHandler
      dsimp only
      split <;> rfl
    | systemControl => exact systemControlHandler_once device s r
    | applicationControl => exact replied_once.trans (applicationControlHandler_replied h r)
    | dial => exact replied_once.trans (dialHandler_replied h r)

def posted (body : Bytes) : HttpRequest := ⟨str "/apps/~a", str "POST", str "tv", [], body⟩

def matchstick : Device := ⟨str "Matchstick", str "Matchstick", str "uuid", str "0.5", false⟩

theorem answered_once_registered : ∃ s, start.run registered = .ok s ∧
    (AnsweredOnce (s.onHttpRequest .compact matchstick (str "token") (posted [])) ↔
      s.Served .compact (posted [])) := by
  obtain ⟨s, hs⟩ := registered_ok
  exact ⟨s, hs, answered_once_iff hs .compact matchstick (str "token") (posted [])⟩

/-- A body without a type is logged and dropped. -/
theorem untyped_unanswered : ¬ AnsweredOnce
    (start.onHttpRequest .compact matchstick (str "token") (posted (str "\x7b\x7d"))) := by
  rintro ⟨t, actions, hok, honce⟩
  have hnone : yields (start.onHttpRequest .compact matchstick (str "token")
      (posted (str "\x7b\x7d"))) (fun p => p.2 = []) = true := by decide +kernel
  rw [hok] at hnone
  rw [show actions = [] from of_decide_eq_true hnone] at honce
  cases honce

end Daemon
end Flingd.App
