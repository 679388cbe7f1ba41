import Flingd.App.Requests

/-! Every event of the daemon asks one thing of the manager, and comes to its end unless a
deleted application is used, a websocket cannot be closed or a heartbeat comes in. -/
namespace Flingd.App
open Outcome

inductive Request where
  | nothing
  | stop
  | launch (appId : Bytes) (info : AppInfo)
  | replace (appId : Bytes) (info : AppInfo)
  | started (app : Nat)
  | close
  | expire (app : Nat) (name : ApplicationManager.TimerName)
deriving DecidableEq

def Request.course (m : ApplicationManager) (ph : Phase) (q : List Nat) : Request → Course
  | .nothing => some (ph, q, [])
  | .stop => m.stopTo ph q
  | .launch appId info => (m.newApplication appId info).launchTo m.nextApp ph q
  | .replace appId info => m.replaceTo appId info ph q
  | .started app => ApplicationManager.startedTo app ph q
  | .close => m.closeTo ph q
  | .expire app name => m.expireTo app name ph q

namespace Daemon
variable {s s' : Daemon} {ph : Phase} {q : List Nat} {c : Course} {handler : Nat}

/-! ### Requests -/

def alive (s : Daemon) (appId : Bytes) : Option Bool :=
  s.manager.getAliveApplication.bind fun app =>
    (s.manager.apps app).map fun a => decide (a.appId = appId)

def launchRequest (s : Daemon) (appId type : Bytes) (appInfo : AppInfo) : Request :=
  match s.alive appId with
  | some same =>
    if type = str "launch" then if same then .nothing else .replace appId appInfo
    else if type = str "relaunch" then if same then .replace appId appInfo else .nothing
    else .nothing
  | none => if type = str "launch" then .launch appId appInfo else .nothing

def postRequest (s : Daemon) (appId : Bytes) : PostBody → Request
  | .request type appInfo =>
    if type ≠ str "launch" ∧ type ≠ str "relaunch" ∧ type ≠ str "join" then .nothing
    else s.launchRequest appId type appInfo
  | _ => .nothing

def stopRequest (s : Daemon) (appId : Bytes) : Request :=
  if s.alive appId = some true then .stop else .nothing

def deleteRequest (s : Daemon) (appId authToken : Bytes) (isInstance : Bool) : Request :=
  if authToken = [] ∨ s.checkSender authToken = false then .nothing
  else if isInstance then s.stopRequest appId else .nothing

def dialPostRequest (s : Daemon) (appId data : Bytes) : Request :=
  match makeDialApplication appId data with
  | none => .nothing
  | some appInfo => s.launchRequest appId (str "launch") appInfo

def typedRequest (s : Daemon) (app : Nat) (type : Bytes) : Request :=
  if iequals type (str "register") then
    if s.manager.usesIpc app then
      if s.receiverSession_ = none then .started app else .nothing
    else .stop
  else if iequals type (str "unregister") then .stop
  else .nothing

def messageRequest (s : Daemon) (handler : Nat) (d : Option ReceiverMessage) : Request :=
  match s.handlers handler with
  | none => .nothing
  | some r =>
    if r.isOpen = false ∨ s.alive r.appId ≠ some true then .nothing
    else
      match s.manager.getAliveApplication, d with
      | some app, some d =>
        if d.appid ≠ some r.appId then .nothing
        else
          match d.type with
          | none => .nothing
          | some type => s.typedRequest app type
      | _, _ => .nothing

def request (s : Daemon) : Event → Request
  | .post appId _ _ body => s.postRequest appId body
  | .delete appId authToken isInstance => s.deleteRequest appId authToken isInstance
  | .dialPost appId data => s.dialPostRequest appId data
  | .dialDelete appId => s.stopRequest appId
  | .message handler _ d => s.messageRequest handler d
  | .closed handler => if (s.handlers handler).isSome then .close else .nothing
  | .expire app name => .expire app name
  | .get .. | .dialGet _ | .connect _ | .elapse .. | .senderTimeout _ | .receiverTimeout _ => .nothing

/-! ### Handlers -/

/-- The listener is a handler that is there, and numbers are not given out twice. -/
structure Tables (s : Daemon) : Prop where
  listener : ∀ l, s.sessionListener_ = some l → (s.handlers l).isSome = true
  fresh : ∀ i, s.nextHandler ≤ i → s.handlers i = none

structure Still (s s' : Daemon) : Prop where
  manager : s'.manager = s.manager
  handlers : ∀ i, (s'.handlers i).isSome = (s.handlers i).isSome
  tables : s'.Tables

theorem Still.refl (h : s.Tables) : s.Still s := ⟨rfl, fun _ => rfl, h⟩

theorem Still.trans {s'' : Daemon} (h : s.Still s') (h' : s'.Still s'') : s.Still s'' :=
  ⟨h'.manager.trans h.manager, fun i => (h'.handlers i).trans (h.handlers i), h'.tables⟩

theorem Tables.setHandler {r : ReceiverApplicationHandler} (h : s.Tables)
    (hh : (s.handlers handler).isSome = true) : s.Still (s.setHandler handler (some r)) := by
  have hsome (i : Nat) : ((s.setHandler handler (some r)).handlers i).isSome = (s.handlers i).isSome := by
    unfold Daemon.setHandler
    simp only
    split
    · rename_i hi
      rw [hi, hh]
      rfl
    · rfl
  refine ⟨rfl, hsome, fun l hl => (hsome l).trans (h.listener l hl), fun i hi => ?_⟩
  have := hsome i
  rw [h.fresh i hi] at this
  exact Option.not_isSome_iff_eq_none.mp (by simp [this])

theorem derefHandler_ok (hh : (s.handlers handler).isSome = true) :
    ∃ r, s.handlers handler = some r ∧ s.derefHandler handler = .ok r := by
  obtain ⟨r, hr⟩ := Option.isSome_iff_exists.mp hh
  exact ⟨r, hr, by simp [derefHandler, hr]⟩

theorem send_ends (h : s.Tables) (hh : (s.handlers handler).isSome = true) (frame : Frame) :
    Ends (s.send handler frame) (· = .thrown) fun s' =>
      s.Still s' ∧ s'.sessionListener_ = s.sessionListener_ ∧
        s'.receiverSession_ = s.receiverSession_ := by
  obtain ⟨r, hr, hd⟩ := derefHandler_ok hh
  unfold send
  rw [hd, ok_bind]
  simp only [Ends]
  split
  · exact ⟨h.setHandler hh, rfl, rfl⟩
  · exact ⟨.refl h, rfl, rfl⟩

theorem close_ends (h : s.Tables) (hh : (s.handlers handler).isSome = true) :
    Ends (s.close handler) (· = .thrown) (s.Still ·) := by
  obtain ⟨r, hr, hd⟩ := derefHandler_ok hh
  unfold close
  rw [hd, ok_bind]
  split
  · exact h.setHandler hh
  · rfl

theorem notify_ends (h : s.Tables) (frame : Frame) :
    Ends (s.notify frame) (· = .thrown) (s.Still ·) := by
  unfold notify
  cases hl : s.sessionListener_ with
  | none => exact .refl h
  | some l => exact (send_ends h (h.listener l hl) frame).mono (fun _ hf => hf) fun _ hs => hs.1

theorem createSender_ends (h : s.Tables) (appId token : Bytes) :
    Ends (s.createSender appId token) (· = .thrown) (s.Still ·) :=
  (notify_ends (s := { s with senderSessions_ := s.senderSessions_.insert token appId })
    ⟨h.listener, h.fresh⟩ _).mono (fun _ hf => hf) fun _ hs => ⟨hs.manager, hs.handlers, hs.tables⟩

theorem disconnectSender_ends (h : s.Tables) (token : Bytes) :
    Ends (s.disconnectSender token) (· = .thrown) (s.Still ·) := by
  unfold disconnectSender
  split
  · exact (notify_ends (s := { s with senderSessions_ := s.senderSessions_.eraseFirst (token = ·) })
      ⟨h.listener, h.fresh⟩ _).mono (fun _ hf => hf) fun _ hs => ⟨hs.manager, hs.handlers, hs.tables⟩
  · exact .refl h

theorem setSessionListender_ends (h : s.Tables) (hh : (s.handlers handler).isSome = true) :
    Ends (s.setSessionListender (some handler)) (· = .thrown) fun s' =>
      s.Still s' ∧ s'.receiverSession_ = s.receiverSession_ := by
  have h₀ : s.Still { s with sessionListener_ := some handler } :=
    ⟨rfl, fun _ => rfl, fun l hl => by cases hl; exact hh, h.fresh⟩
  refine Ends.foldlM (I := fun t => s.Still t ∧ t.receiverSession_ = s.receiverSession_)
    (fun t e _ ht => ?_) ⟨h₀, rfl⟩
  exact (send_ends ht.1.tables ((ht.1.handlers handler).trans hh) _).mono (fun _ hf => hf)
    fun t' ht' => ⟨ht.1.trans ht'.1, ht'.2.2.trans ht.2⟩

theorem onReceiverTimeout_ends (h : s.Tables) (token : Bytes) :
    Ends (s.onReceiverTimeout token) (· = .thrown) (s.Still ·) := by
  unfold onReceiverTimeout
  split
  · exact .refl h
  · split
    · exact .refl h
    · split
      · exact ⟨rfl, fun _ => rfl, h.listener, h.fresh⟩
      · rename_i listener hl
        obtain ⟨r, -, hd⟩ := derefHandler_ok (h.listener listener hl)
        have hstill {t : Daemon} (ht : s.Still t) : s.Still { t with receiverSession_ := none } :=
          ⟨ht.manager, ht.handlers, ht.tables.listener, ht.tables.fresh⟩
        rw [hd, ok_bind]
        split
        · exact (close_ends h (h.listener listener hl)).bind fun t _ ht => Ends.ok (hstill ht)
        · exact hstill (.refl h)

/-! ### The manager -/

structure Sound (s : Daemon) (ph : Phase) (q : List Nat) : Prop where
  shows : s.manager.Shows ph ph.state q
  quiet : ApplicationManager.Quiet ph q
  tables : s.Tables

/-- Only the id of a deleted application is read, through the starting slot. -/
def Stale (ph : Phase) (marks : List Mark) : Prop :=
  ∀ k ∈ marks, ∃ app, ph = .dangling app ∧ k = .stale app

theorem stale_nil : Stale ph [] := by
  rintro k hk
  cases hk

theorem Stale.append {marks marks' : List Mark} (h : Stale ph marks) (h' : Stale ph marks') :
    Stale ph (marks ++ marks') := by
  rintro k hk
  exact (List.mem_append.mp hk).elim (h k) (h' k)

theorem stale_staleMarks : Stale ph ph.staleMarks := by
  rintro k hk
  cases ph with
  | dangling app => exact ⟨app, rfl, List.mem_singleton.mp hk⟩
  | _ => cases hk

/-- Why an event may not come to its end. -/
def Excused (ph : Phase) (c : Course) (f : Fault) : Prop :=
  f = .thrown ∨ f = .misused ∨ f = .freed ∧ (c = none ∨ ∃ app, ph = .dangling app)

structure Follows (s : Daemon) (ph : Phase) (c : Course) (s' : Daemon) : Prop where
  tables : s'.Tables
  course : ∃ k ph' q' marks, c = some (ph', q', marks) ∧ Stale ph k ∧
    s.manager.Took s'.manager ph' q' (k ++ marks)

theorem Sound.took (h : s.Sound ph q) : s.manager.Took s.manager ph q [] :=
  ⟨h.shows, fun _ _ hi => hi, (List.append_nil _).symm⟩

theorem Sound.still (h : s.Sound ph q) (hs : s.Still s') : s'.Sound ph q :=
  ⟨hs.manager ▸ h.shows, h.quiet, hs.tables⟩

theorem Sound.follows (h : s.Sound ph q) (hs : s.Still s') : s.Follows ph (some (ph, q, [])) s' :=
  ⟨hs.tables, [], ph, q, [], rfl, stale_nil, hs.manager ▸ h.took⟩

theorem Follows.still {s'' : Daemon} (h : s.Follows ph c s') (hs : s'.Still s'') :
    s.Follows ph c s'' :=
  ⟨hs.tables, hs.manager ▸ h.course⟩

theorem Follows.of_still {s'' : Daemon} (hs : s.Still s') (h : s'.Follows ph c s'') :
    s.Follows ph c s'' :=
  ⟨h.tables, hs.manager ▸ h.course⟩

theorem excused_of_thrown {f : Fault} (h : f = .thrown) : Excused ph c f := .inl h

/-- An event that asks nothing of the manager. -/
theorem Sound.still_ends {x : Except Fault Daemon} (h : s.Sound ph q)
    (hx : Ends x (· = .thrown) (s.Still ·)) :
    Ends x (Excused ph (some (ph, q, []))) (s.Follows ph (some (ph, q, []))) :=
  hx.mono (fun _ => excused_of_thrown) fun _ => h.follows

theorem reaches_ends {m : ApplicationManager} {x : Except Fault ApplicationManager}
    (hx : m.Reaches x c) : Ends x (Excused ph c) fun m' =>
      ∃ ph' q' marks, c = some (ph', q', marks) ∧ m.Took m' ph' q' marks := by
  rcases c with - | ⟨ph', q', marks⟩
  · rw [show x = .error .freed from hx]
    exact .inr (.inr ⟨rfl, .inl rfl⟩)
  · obtain ⟨m', rfl, h'⟩ := hx
    exact ⟨ph', q', marks, rfl, h'⟩

theorem manager_ends {x : Except Fault ApplicationManager} (ht : s.Tables)
    (hx : s.manager.Reaches x c) :
    Ends (x >>= fun m => .ok { s with manager := m }) (Excused ph c) (s.Follows ph c) := by
  refine (reaches_ends hx).bind fun m _ hm => Ends.ok ?_
  obtain ⟨ph', q', marks, hc, htook⟩ := hm
  exact ⟨⟨ht.listener, ht.fresh⟩, [], ph', q', marks, hc, stale_nil, htook⟩

theorem doStop_ends (h : s.Sound ph q) (appId : Bytes) :
    Ends (s.doStop appId) (Excused ph (s.manager.stopTo ph q)) (s.Follows ph (s.manager.stopTo ph q)) :=
  manager_ends h.tables (ApplicationManager.stop_reaches h.shows h.quiet).reaches

theorem doLaunch_ends (h : s.Sound ph q) (hph : ph.slot = ph.stoppingSlot) (appId : Bytes)
    (info : AppInfo) :
    Ends (s.doLaunch appId info)
      (Excused ph ((Request.launch appId info).course s.manager ph q))
      (s.Follows ph ((Request.launch appId info).course s.manager ph q)) :=
  manager_ends h.tables (ApplicationManager.launch_reaches appId info h.shows hph)

/-- A stop and a launch are one call of the manager. -/
theorem replace_eq (s : Daemon) (appId appId' : Bytes) (info : AppInfo) :
    (do let s ← s.doStop appId; s.doLaunch appId' info) =
      ((ApplicationManager.stopApplication ApplicationManager.launchApplication s.manager >>= fun m =>
        (m.newApplication appId' info).launchApplication m.nextApp) >>= fun m =>
          (.ok { s with manager := m } : Except Fault Daemon)) := by
  unfold doStop doLaunch ApplicationManager.stopApplicationByAppId
  cases ApplicationManager.stopApplication ApplicationManager.launchApplication s.manager <;> rfl

theorem replace_ends (h : s.Sound ph q) (appId appId' : Bytes) (info : AppInfo) :
    Ends (do let s ← s.doStop appId; s.doLaunch appId' info)
      (Excused ph ((Request.replace appId' info).course s.manager ph q))
      (s.Follows ph ((Request.replace appId' info).course s.manager ph q)) := by
  rw [replace_eq]
  exact manager_ends h.tables (ApplicationManager.replace_reaches appId' info h.shows h.quiet)

/-! ### The alive application -/

theorem Sound.aliveIs (h : s.Sound ph q) (appId : Bytes) :
    ∃ k, Stale ph k ∧
      s.aliveIs appId = .ok (s.alive appId, { s with manager := s.manager.note k }) := by
  unfold Daemon.aliveIs alive
  cases ha : s.manager.getAliveApplication with
  | none => exact ⟨[], stale_nil, by simp [ApplicationManager.note]⟩
  | some app =>
    rcases h.shows.alive ha with ⟨hs, -⟩ | hq
    · obtain ⟨a, happ, hget⟩ := h.shows.getAppId hs
      exact ⟨ph.staleMarks, stale_staleMarks, by simp [hget, happ]⟩
    · obtain ⟨a, happ, hd, -⟩ := h.shows.waits.2 app hq
      refine ⟨[], stale_nil, ?_⟩
      simp [ApplicationManager.getAppId, happ, hd, ApplicationManager.note]

theorem Sound.note (h : s.Sound ph q) (k : List Mark) :
    Sound { s with manager := s.manager.note k } ph q :=
  ⟨(h.shows.note k).shows, h.quiet, h.tables.listener, h.tables.fresh⟩

theorem Follows.of_note {k : List Mark} (hk : Stale ph k)
    (h : Follows { s with manager := s.manager.note k } ph c s') : s.Follows ph c s' := by
  obtain ⟨ht, k', ph', q', marks, hc, hk', htook⟩ := h
  refine ⟨ht, k ++ k', ph', q', marks, hc, hk.append hk', htook.shows, htook.signature, ?_⟩
  rw [htook.log]
  simp [ApplicationManager.note]

/-- A deleted application is used through the starting slot only. -/
theorem Sound.deref_alive {app : Nat} (h : s.Sound ph q)
    (ha : s.manager.getAliveApplication = some app) :
    Ends (s.manager.deref app) (fun f => f = .freed ∧ ∃ app, ph = .dangling app)
      fun a => s.manager.apps app = some a ∧ a.deleted = false := by
  cases hd : s.manager.deref app with
  | ok a => exact ApplicationManager.deref_ok.mp hd
  | error f =>
    have hlive {p : Application → Prop} (hl : s.manager.Live app p) : False := by
      obtain ⟨a, hok, -⟩ := hl.deref
      rw [hd] at hok
      cases hok
    rcases h.shows.alive ha with ⟨hs, -⟩ | hq
    · have hfits := h.shows.fits
      cases ph with
      | idle => cases hs
      | dangling p =>
        cases hs
        obtain ⟨b, hb, hbd⟩ := hfits
        rw [ApplicationManager.deref_deleted hb hbd.1] at hd
        cases hd
        exact ⟨rfl, app, rfl⟩
      | _ p =>
        cases hs
        exact (hlive hfits).elim
    · exact (hlive (h.shows.waits.2 app hq)).elim

theorem excused_of_dangling {f : Fault} (h : f = .freed ∧ ∃ app, ph = .dangling app) :
    Excused ph c f := .inr (.inr ⟨h.1, .inr h.2⟩)

/-! ### Requests of clients -/

theorem writeStatus_ends (h : s.Sound ph q) (appId : Bytes) :
    Ends (s.writeStatus appId) (Excused ph (some (ph, q, [])))
      fun p => s.Follows ph (some (ph, q, [])) p.1 := by
  obtain ⟨k, hk, hlook⟩ := h.aliveIs appId
  have hnote : s.Follows ph (some (ph, q, [])) { s with manager := s.manager.note k } :=
    .of_note hk ((h.note k).follows (.refl (h.note k).tables))
  unfold writeStatus
  rw [hlook, ok_bind]
  simp only
  split
  · rename_i app _ ha
    exact ((h.note k).deref_alive ha).mono (fun _ => excused_of_dangling) (fun _ ha => ha)
      |>.bind fun _ _ _ => Ends.ok hnote
  · exact hnote

theorem onGet_ends (h : s.Sound ph q) (appId authToken : Bytes) :
    Ends (s.onGet appId authToken) (Excused ph (some (ph, q, [])))
      fun p => s.Follows ph (some (ph, q, [])) p.1 := by
  unfold onGet
  split
  · exact h.follows (.refl h.tables)
  · exact writeStatus_ends h appId

theorem alive_none (h : s.Sound ph q) {appId : Bytes} (ha : s.alive appId = none) :
    ph.slot = ph.stoppingSlot ∧ q = [] := by
  unfold alive at ha
  cases hm : s.manager.getAliveApplication with
  | none =>
    unfold ApplicationManager.getAliveApplication at hm
    rw [h.shows.top, h.shows.starting, h.shows.queue] at hm
    cases ph with
    | idle => exact ⟨rfl, List.head?_eq_none_iff.mp hm⟩
    | stopping app => exact ⟨rfl, List.head?_eq_none_iff.mp hm⟩
    | _ => cases hm
  | some app =>
    have happ : ∃ a, s.manager.apps app = some a := by
      rcases h.shows.alive hm with ⟨hs, -⟩ | hq
      · obtain ⟨a, ha, -⟩ := h.shows.slot_apps hs
        exact ⟨a, ha⟩
      · obtain ⟨a, ha, -⟩ := h.shows.waits.2 app hq
        exact ⟨a, ha⟩
    obtain ⟨a, happ⟩ := happ
    simp [hm, happ] at ha

theorem launchOrJoin_ends (h : s.Sound ph q) (appId type : Bytes) (info : AppInfo) :
    Ends (s.launchOrJoin appId type info)
      (Excused ph ((s.launchRequest appId type info).course s.manager ph q))
      fun p => s.Follows ph ((s.launchRequest appId type info).course s.manager ph q) p.1 := by
  obtain ⟨k, hk, hlook⟩ := h.aliveIs appId
  have hn := h.note k
  have hnote : s.Follows ph (some (ph, q, [])) { s with manager := s.manager.note k } :=
    .of_note hk (hn.follows (.refl hn.tables))
  have hreplace : Ends (do
      let s ← ({ s with manager := s.manager.note k } : Daemon).doStop appId
      let s ← s.doLaunch appId info
      (.ok (s, 201) : Except Fault (Daemon × Nat)))
      (Excused ph ((Request.replace appId info).course s.manager ph q))
      fun p => s.Follows ph ((Request.replace appId info).course s.manager ph q) p.1 := by
    rw [← bind_assoc]
    exact (replace_ends hn appId appId info).bind fun t _ ht => Ends.ok (.of_note hk ht)
  unfold launchOrJoin launchRequest
  rw [hlook, ok_bind]
  simp only
  cases ha : s.alive appId with
  | none =>
    simp only
    split
    · exact (doLaunch_ends hn (alive_none h ha).1 appId info).bind fun t _ ht => Ends.ok (.of_note hk ht)
    · exact hnote
  | some same =>
    simp only
    split
    · split
      · exact hnote
      · exact hreplace
    · split
      · split
        · exact hreplace
        · exact hnote
      · split
        · exact hnote
        · exact hnote

theorem launchRequest_congr (h : s'.manager = s.manager) (appId type : Bytes) (info : AppInfo) :
    s'.launchRequest appId type info = s.launchRequest appId type info := by
  unfold launchRequest alive
  rw [h]

theorem onPost_ends (h : s.Sound ph q) (appId authToken uuid : Bytes) (body : PostBody) :
    Ends (s.onPost appId authToken uuid body)
      (Excused ph ((s.postRequest appId body).course s.manager ph q))
      fun p => s.Follows ph ((s.postRequest appId body).course s.manager ph q) p.1 := by
  have hsame := h.follows (.refl h.tables)
  cases body with
  | empty => exact hsame
  | rejected => exact hsame
  | request type info =>
    simp only [onPost, postRequest]
    by_cases htype : type ≠ str "launch" ∧ type ≠ str "relaunch" ∧ type ≠ str "join"
    · rw [if_pos htype, if_pos htype]
      exact hsame
    · rw [if_neg htype, if_neg htype]
      have hjoin {t : Daemon} (ht : s.Still t) (token : Bytes) :
          Ends (t.launchOrJoin appId type info >>= fun p =>
            (.ok (p.1, if p.2 = 400 then .status p.2 else .token p.2 token) :
              Except Fault (Daemon × Reply)))
            (Excused ph ((s.launchRequest appId type info).course s.manager ph q))
            fun p => s.Follows ph ((s.launchRequest appId type info).course s.manager ph q) p.1 := by
        have hl := launchOrJoin_ends (h.still ht) appId type info
        rw [launchRequest_congr ht.manager, ht.manager] at hl
        exact hl.bind fun p _ hp => Ends.ok (.of_still ht hp)
      split
      · exact ((createSender_ends h.tables appId uuid).mono (fun _ => excused_of_thrown)
          fun _ ht => ht).bind fun t _ ht => hjoin ht uuid
      · exact hjoin (.refl h.tables) authToken

theorem stopAlive_ends (h : s.Sound ph q) (appId : Bytes) :
    Ends (s.stopAlive appId) (Excused ph ((s.stopRequest appId).course s.manager ph q))
      fun p => s.Follows ph ((s.stopRequest appId).course s.manager ph q) p.1 := by
  obtain ⟨k, hk, hlook⟩ := h.aliveIs appId
  have hn := h.note k
  have hnote : s.Follows ph (some (ph, q, [])) { s with manager := s.manager.note k } :=
    .of_note hk (hn.follows (.refl hn.tables))
  unfold stopAlive stopRequest
  rw [hlook, ok_bind]
  rcases s.alive appId with - | - | -
  · exact hnote
  · exact hnote
  · exact (doStop_ends hn appId).bind fun t _ ht => Ends.ok (.of_note hk ht)

theorem stopRequest_congr (h : s'.manager = s.manager) (appId : Bytes) :
    s'.stopRequest appId = s.stopRequest appId := by
  unfold stopRequest alive
  rw [h]

theorem onDelete_ends (h : s.Sound ph q) (appId authToken : Bytes) (isInstance : Bool) :
    Ends (s.onDelete appId authToken isInstance)
      (Excused ph ((s.deleteRequest appId authToken isInstance).course s.manager ph q))
      fun p => s.Follows ph
        ((s.deleteRequest appId authToken isInstance).course s.manager ph q) p.1 := by
  unfold onDelete deleteRequest
  by_cases htoken : authToken = [] ∨ s.checkSender authToken = false
  · rw [if_pos htoken, if_pos htoken]
    exact h.follows (.refl h.tables)
  · rw [if_neg htoken, if_neg htoken]
    refine ((disconnectSender_ends h.tables authToken).mono (fun _ => excused_of_thrown)
      fun _ ht => ht).bind fun t _ ht => ?_
    cases isInstance with
    | false => exact h.follows ht
    | true =>
      have hl := stopAlive_ends (h.still ht) appId
      rw [stopRequest_congr ht.manager, ht.manager] at hl
      exact hl.mono (fun _ hf => hf) fun p hp => .of_still ht hp

theorem onDialPost_ends (h : s.Sound ph q) (appId data : Bytes) :
    Ends (s.onDialPost appId data)
      (Excused ph ((s.dialPostRequest appId data).course s.manager ph q))
      fun p => s.Follows ph ((s.dialPostRequest appId data).course s.manager ph q) p.1 := by
  unfold onDialPost dialPostRequest
  cases makeDialApplication appId data with
  | none => exact h.follows (.refl h.tables)
  | some info =>
    exact (launchOrJoin_ends h appId (str "launch") info).bind fun p _ hp => Ends.ok hp

/-! ### Receivers -/

theorem stopAndClose_ends (h : s.Sound ph q) (hh : (s.handlers handler).isSome = true)
    (appId : Bytes) :
    Ends (s.stopAndClose handler appId) (Excused ph (Request.stop.course s.manager ph q))
      (s.Follows ph (Request.stop.course s.manager ph q)) := by
  refine (doStop_ends h appId).bind fun t ht hf => ?_
  have hhandlers : t.handlers = s.handlers := by
    obtain ⟨m, -, hm⟩ := bind_eq_ok.mp ht
    cases hm
    rfl
  exact (close_ends hf.tables (hhandlers ▸ hh)).mono (fun _ => excused_of_thrown) fun _ => hf.still

theorem register_ends {app : Nat} (h : s.Sound ph q) (hh : (s.handlers handler).isSome = true)
    (ha : s.manager.getAliveApplication = some app)
    (hi : s.manager.Live app fun a => a.info.useIpc = true) (appId uuid : Bytes) :
    Ends (s.register handler app appId uuid)
      (Excused ph ((if s.receiverSession_ = none then Request.started app else
        Request.nothing).course s.manager ph q))
      (s.Follows ph ((if s.receiverSession_ = none then Request.started app else
        Request.nothing).course s.manager ph q)) := by
  unfold register
  refine ((setSessionListender_ends h.tables hh).mono (fun _ => excused_of_thrown)
    fun _ ht => ht).bind fun t _ ⟨ht, hsession⟩ => ?_
  have hht : (t.handlers handler).isSome = true := (ht.handlers handler).trans hh
  unfold createReceiver
  rw [hsession]
  cases hr : s.receiverSession_ with
  | some r =>
    simp only [reduceCtorEq, if_false]
    exact (close_ends ht.tables hht).mono (fun _ => excused_of_thrown) fun _ hc =>
      h.follows (ht.trans hc)
  | none =>
    simp only [if_true]
    rw [ht.manager]
    refine (reaches_ends (ApplicationManager.started_leads h.shows ha hi).reaches).bind
      fun m _ ⟨ph', q', marks, hc, htook⟩ => ?_
    have hm : s.Follows ph (Request.course s.manager ph q (.started app))
        { t with manager := m, receiverSession_ := some ⟨uuid, appId, handler⟩ } :=
      ⟨⟨ht.tables.listener, ht.tables.fresh⟩, [], ph', q', marks, hc, stale_nil, htook⟩
    refine ((send_ends hm.tables hht .registerok).mono (fun _ => excused_of_thrown)
      fun _ ht => ht).bind fun u _ hu => ?_
    exact (send_ends hu.1.tables ((hu.1.handlers handler).trans hht) .startHeartbeat).mono
      (fun _ => excused_of_thrown) fun _ hv => (hm.still hu.1).still hv.1

theorem Sound.harmless {f : Application → Application} {app : Nat} (h : s.Sound ph q)
    (hf : ApplicationManager.Harmless f) :
    s.Follows ph (some (ph, q, [])) { s with manager := s.manager.modify app f } :=
  ⟨⟨h.tables.listener, h.tables.fresh⟩, [], ph, q, [], rfl, stale_nil, (h.shows.harmless app hf).took⟩

theorem onTypedMessage_ends {app : Nat} (h : s.Sound ph q)
    (hh : (s.handlers handler).isSome = true) (ha : s.manager.getAliveApplication = some app)
    (appId uuid type : Bytes) (d : ReceiverMessage) :
    Ends (s.onTypedMessage handler app appId uuid type d)
      (Excused ph ((s.typedRequest app type).course s.manager ph q))
      (s.Follows ph ((s.typedRequest app type).course s.manager ph q)) := by
  unfold onTypedMessage typedRequest
  split
  · refine ((h.deref_alive ha).mono (fun _ => excused_of_dangling) fun _ ha => ha).bind
      fun a _ ⟨happ, hd⟩ => ?_
    have hi : s.manager.usesIpc app = a.info.useIpc := by
      simp [ApplicationManager.usesIpc, ApplicationManager.signature_of_apps happ]
    rw [hi]
    split
    · exact register_ends h hh ha ⟨a, happ, hd, ‹_›⟩ appId uuid
    · exact stopAndClose_ends h hh appId
  · split
    · exact stopAndClose_ends h hh appId
    · split
      · split
        · exact h.follows (.refl h.tables)
        · rename_i data _
          unfold ApplicationManager.update
          rw [bind_assoc]
          refine ((h.deref_alive ha).mono (fun _ => excused_of_dangling) fun _ ha => ha).bind
            fun a _ _ => Ends.ok (h.harmless ?_)
          exact ⟨fun _ => rfl, fun _ => rfl, fun _ => rfl, fun _ => rfl, fun _ => rfl,
            fun _ h => h, fun _ h => h⟩
      · split
        · exact .inr (.inl rfl)
        · exact h.follows (.refl h.tables)

theorem onMessage_ends (h : s.Sound ph q) (uuid : Bytes) (d : Option ReceiverMessage) :
    Ends (s.onMessage handler uuid d)
      (Excused ph ((s.messageRequest handler d).course s.manager ph q))
      (s.Follows ph ((s.messageRequest handler d).course s.manager ph q)) := by
  have hsame := h.follows (.refl h.tables)
  unfold onMessage messageRequest
  cases hr : s.handlers handler with
  | none => exact hsame
  | some r =>
    simp only
    cases hopen : r.isOpen with
    | false => exact hsame
    | true =>
      obtain ⟨k, hk, hlook⟩ := h.aliveIs r.appId
      have hn := h.note k
      have hnote : s.Follows ph (some (ph, q, [])) { s with manager := s.manager.note k } :=
        .of_note hk (hn.follows (.refl hn.tables))
      have hh : (s.handlers handler).isSome = true := by simp [hr]
      have hclose : Ends (Daemon.close { s with manager := s.manager.note k } handler)
          (Excused ph (some (ph, q, []))) (s.Follows ph (some (ph, q, []))) :=
        (close_ends hn.tables hh).mono (fun _ => excused_of_thrown) fun _ => hnote.still
      rw [if_neg (by simp), hlook, ok_bind]
      simp only
      rcases s.alive r.appId with - | - | -
      · simp only [Bool.true_eq_false, false_or, ne_eq, reduceCtorEq, not_false_eq_true, if_true]
        exact hclose
      · simp only [Bool.true_eq_false, false_or, ne_eq, Option.some.injEq, Bool.false_eq_true,
          not_false_eq_true, if_true]
        exact hclose
      · simp only [Bool.true_eq_false, false_or, ne_eq, not_true, if_false]
        cases ha : s.manager.getAliveApplication with
        | none =>
          have ha' : (s.manager.note k).getAliveApplication = none := ha
          simp only [ha']
          exact hnote
        | some app =>
          have ha' : (s.manager.note k).getAliveApplication = some app := ha
          simp only [ha']
          cases d with
          | none => exact hnote
          | some d =>
            simp only
            split
            · exact hnote
            · cases d.type with
              | none => exact hnote
              | some type =>
                exact (onTypedMessage_ends hn hh ha r.appId uuid type d).mono (fun _ hf => hf)
                  fun _ => .of_note hk

/-! ### Websockets and timers -/

theorem onClose_ends (h : s.Sound ph q) (handler : Nat) :
    Ends (s.onClose handler)
      (Excused ph ((s.request (.closed handler)).course s.manager ph q))
      (s.Follows ph ((s.request (.closed handler)).course s.manager ph q)) := by
  simp only [onClose, request]
  cases hr : s.handlers handler with
  | none => exact h.follows (.refl h.tables)
  | some r =>
    have hdisc : (s.disconnectReceiver r.appId).manager = s.manager ∧
        (s.disconnectReceiver r.appId).handlers = s.handlers ∧
        (s.disconnectReceiver r.appId).nextHandler = s.nextHandler := by
      unfold disconnectReceiver
      split
      · split <;> exact ⟨rfl, rfl, rfl⟩
      · exact ⟨rfl, rfl, rfl⟩
    obtain ⟨hm, hhandlers, hnext⟩ := hdisc
    simp only [setSessionListender, ok_bind, hm, Option.isSome_some, if_true]
    refine (reaches_ends (ApplicationManager.close_leads r.appId h.shows h.quiet).reaches).bind
      fun m _ ⟨ph', q', marks, hc, htook⟩ => Ends.ok ?_
    refine ⟨⟨fun l hl => ?_, fun i hi => ?_⟩, [], ph', q', marks, hc, stale_nil, htook⟩
    · cases hl
    · have hi' : s.nextHandler ≤ i := hnext ▸ hi
      unfold setHandler
      simp only [hhandlers]
      split
      · rfl
      · exact h.tables.fresh i hi'

theorem connect_still (h : s.Tables) (appId : Bytes) :
    (s.connect appId).manager = s.manager ∧ (s.connect appId).Tables := by
  refine ⟨rfl, fun l hl => ?_, fun i hi => ?_⟩
  · have := h.listener l hl
    unfold connect setHandler
    simp only
    split
    · rfl
    · exact this
  · have hi' : s.nextHandler + 1 ≤ i := hi
    unfold connect setHandler
    simp only
    rw [if_neg (by omega)]
    exact h.fresh i (by omega)

/-- Every event takes the course of its request. -/
theorem step_ends (h : s.Sound ph q) (e : Event) :
    Ends (s.step e) (Excused ph ((s.request e).course s.manager ph q))
      (s.Follows ph ((s.request e).course s.manager ph q)) := by
  cases e with
  | get appId authToken => exact (onGet_ends h appId authToken).map
  | post appId authToken uuid body => exact (onPost_ends h appId authToken uuid body).map
  | delete appId authToken isInstance => exact (onDelete_ends h appId authToken isInstance).map
  | dialGet appId => exact (writeStatus_ends h appId).map
  | dialPost appId data => exact (onDialPost_ends h appId data).map
  | dialDelete appId => exact (stopAlive_ends h appId).map
  | connect appId =>
    obtain ⟨hm, ht⟩ := connect_still h.tables appId
    exact ⟨ht, [], ph, q, [], rfl, stale_nil, hm.symm ▸ h.took⟩
  | message handler uuid d => exact onMessage_ends h uuid d
  | closed handler => exact onClose_ends h handler
  | elapse app name => exact h.harmless (ApplicationManager.harmless_elapse name)
  | expire app name =>
    exact manager_ends h.tables (ApplicationManager.expire_leads h.shows h.quiet name).reaches
  | senderTimeout token => exact h.still_ends (disconnectSender_ends h.tables token)
  | receiverTimeout token => exact h.still_ends (onReceiverTimeout_ends h.tables token)

/-! ### What is asked for -/

/-- The event is a request to launch or relaunch an application of this id and info. -/
def Event.Makes (sig : Bytes × AppInfo) : Event → Prop
  | .post appId _ _ (.request type info) =>
    (appId, info) = sig ∧ (type = str "launch" ∨ type = str "relaunch")
  | .dialPost appId data => appId = sig.1 ∧ makeDialApplication appId data = some sig.2
  | _ => False

inductive Asks (s : Daemon) (e : Event) : Request → Prop where
  | nothing : s.Asks e .nothing
  | stop : s.Asks e .stop
  | launch {appId : Bytes} {info : AppInfo} (he : e.Makes (appId, info)) (ha : s.alive appId = none) :
    s.Asks e (.launch appId info)
  | replace {appId : Bytes} {info : AppInfo} (he : e.Makes (appId, info)) :
    s.Asks e (.replace appId info)
  | started {app : Nat} (ha : s.manager.getAliveApplication = some app) : s.Asks e (.started app)
  | close {handler : Nat} (he : e = .closed handler) : s.Asks e .close
  | expire {app : Nat} {name : ApplicationManager.TimerName} (he : e = .expire app name) :
    s.Asks e (.expire app name)

theorem launchRequest_asks {e : Event} {appId type : Bytes} {info : AppInfo}
    (he : type = str "launch" ∨ type = str "relaunch" → e.Makes (appId, info)) :
    s.Asks e (s.launchRequest appId type info) := by
  unfold launchRequest
  cases ha : s.alive appId with
  | none =>
    dsimp only
    split
    · rename_i htype
      exact .launch (he (.inl htype)) ha
    · exact .nothing
  | some same =>
    dsimp only
    split
    · rename_i htype
      split
      · exact .nothing
      · exact .replace (he (.inl htype))
    · split
      · rename_i htype
        split
        · exact .replace (he (.inr htype))
        · exact .nothing
      · exact .nothing

theorem stopRequest_asks {e : Event} (appId : Bytes) : s.Asks e (s.stopRequest appId) := by
  unfold stopRequest
  split
  · exact .stop
  · exact .nothing

theorem messageRequest_asks {e : Event} (d : Option ReceiverMessage) :
    s.Asks e (s.messageRequest handler d) := by
  unfold messageRequest
  split
  · exact .nothing
  · split
    · exact .nothing
    · split
      · rename_i halive
        split
        · exact .nothing
        · split
          · exact .nothing
          · unfold typedRequest
            split
            · split
              · split
                · exact .started halive
                · exact .nothing
              · exact .stop
            · split
              · exact .stop
              · exact .nothing
      · exact .nothing

theorem request_asks (s : Daemon) (e : Event) : s.Asks e (s.request e) := by
  cases e with
  | post appId authToken uuid body =>
    cases body with
    | request type info =>
      simp only [request, postRequest]
      split
      · exact .nothing
      · exact launchRequest_asks fun htype => ⟨rfl, htype⟩
    | _ => exact .nothing
  | delete appId authToken isInstance =>
    simp only [request, deleteRequest]
    split
    · exact .nothing
    · split
      · exact stopRequest_asks appId
      · exact .nothing
  | dialPost appId data =>
    simp only [request, dialPostRequest]
    split
    · exact .nothing
    · rename_i info hinfo
      exact launchRequest_asks fun _ => ⟨rfl, hinfo⟩
  | dialDelete appId => exact stopRequest_asks appId
  | message handler uuid d => exact messageRequest_asks d
  | closed handler =>
    simp only [request]
    split
    · exact .close rfl
    · exact .nothing
  | expire app name => exact .expire rfl
  | _ => exact .nothing

end Daemon
end Flingd.App
