import Flingd.App.Answers

/-! How a receiver registers. There is one session of a receiver, whosever it is, and the listener is
set before a session is asked for. -/
namespace Flingd.App
open Outcome

/-! ### An application that is starting uses IPC -/

namespace ApplicationManager
variable {m : ApplicationManager} {ph : Phase} {q : List Nat} {app : Nat}

def StartsIpc (m : ApplicationManager) (ph : Phase) (c : Course) : Prop :=
  c.Sat fun ph' _ _ => ∀ app, ph' = .starting app → ph = .starting app ∨ m.usesIpc app = true

theorem landing_ipc : StartsIpc m ph (m.landing app q) := by
  unfold landing
  split
  · split
    · rename_i hipc
      refine Course.sat_some.mpr fun i hi => .inr ?_
      cases hi
      exact hipc
    · split
      · exact Course.sat_some.mpr fun i hi => by cases hi
      · exact Course.sat_none
  · exact Course.sat_some.mpr fun i hi => by cases hi

theorem launchTo_ipc {ph' : Phase} : StartsIpc m ph (m.launchTo app ph' q) := by
  unfold launchTo
  split
  · exact Course.sat_some.mpr fun i hi => by cases hi
  · exact landing_ipc

theorem stopTo_ipc : StartsIpc m ph (m.stopTo ph q) := by
  intro ph' q' marks hto i hi
  rcases stopTo_stopping hto with rfl | ⟨slot, rfl⟩ <;> cases hi

theorem stoppedTo_ipc : StartsIpc m ph (m.stoppedTo app q) := by
  cases q with
  | nil => exact Course.sat_some.mpr fun i hi => by cases hi
  | cons next rest => exact Course.Sat.after landing_ipc

end ApplicationManager

open ApplicationManager

def Request.asked (m : ApplicationManager) : Request → ApplicationManager
  | .launch appId info => m.newApplication appId info
  | .replace appId info => m.newApplication appId info
  | _ => m

theorem Request.course_ipc {m : ApplicationManager} {ph : Phase} {q : List Nat} (req : Request) :
    StartsIpc (req.asked m) ph (req.course m ph q) := by
  have hsame : StartsIpc m ph (some (ph, q, [])) := Course.sat_some.mpr fun i hi => .inl hi
  cases req with
  | nothing => exact hsame
  | stop => exact stopTo_ipc
  | launch appId info => exact launchTo_ipc
  | replace appId info => exact Course.Sat.next stopTo_quiet fun _ _ _ _ => launchTo_ipc
  | started app =>
    simp only [Request.course, startedTo]
    split
    · split
      · exact Course.sat_some.mpr fun i hi => by cases hi
      · exact Course.sat_some.mpr fun i hi => by cases hi
    · exact hsame
  | close =>
    refine Course.Sat.next stopTo_ipc fun ph' q' _ hph' => ?_
    unfold finishTo
    split
    · exact stoppedTo_ipc
    · exact Course.sat_some.mpr hph'
  | expire app name =>
    simp only [Request.course, expireTo]
    split
    · exact hsame
    · split
      · exact hsame
      · split
        · exact Course.sat_none
        · split
          · exact stoppedTo_ipc
          · split
            · exact hsame
            · exact stopTo_ipc

namespace Daemon
open ApplicationManager
variable {s s' : Daemon} {ph : Phase} {q : List Nat} {handler app : Nat} {appId uuid : Bytes}
variable {r : ReceiverApplicationHandler}

/-! ### Frames on an open websocket -/

def wrote (s : Daemon) (handler : Nat) (r : ReceiverApplicationHandler) (frames : List Frame) :
    Daemon :=
  s.setHandler handler (some { r with sent := r.sent ++ frames })

@[simp] theorem setHandler_self (s : Daemon) (handler : Nat)
    (r : Option ReceiverApplicationHandler) : (s.setHandler handler r).handlers handler = r := if_pos rfl

theorem setHandler_setHandler (s : Daemon) (handler : Nat)
    (r r' : Option ReceiverApplicationHandler) :
    (s.setHandler handler r).setHandler handler r' = s.setHandler handler r' := by
  unfold setHandler
  congr 1
  funext i
  dsimp only
  split <;> rfl

theorem setHandler_same (hr : s.handlers handler = some r) : s.setHandler handler (some r) = s := by
  have hsame : (fun i => if i = handler then some r else s.handlers i) = s.handlers := by
    funext i
    split
    · rename_i hi
      rw [hi, hr]
    · rfl
  unfold setHandler
  rw [hsame]

theorem send_open (hr : s.handlers handler = some r) (hopen : r.isOpen = true) (frame : Frame) :
    s.send handler frame = .ok (s.wrote handler r [frame]) := by
  unfold send derefHandler
  rw [hr, ok_bind, if_pos hopen]
  rfl

theorem sends_open (frames : List Frame) (hr : s.handlers handler = some r)
    (hopen : r.isOpen = true) :
    frames.foldlM (fun s frame => s.send handler frame) s = .ok (s.wrote handler r frames) := by
  induction frames generalizing s r with
  | nil =>
    unfold wrote
    rw [List.append_nil, setHandler_same hr]
    rfl
  | cons frame frames ih =>
    rw [List.foldlM_cons, send_open hr hopen, ok_bind]
    rw [ih (s := s.wrote handler r [frame]) (r := { r with sent := r.sent ++ [frame] })
      (setHandler_self s handler _) hopen]
    unfold wrote
    rw [setHandler_setHandler, List.append_assoc]
    rfl

def connectedFrames (s : Daemon) : List Frame :=
  s.senderSessions_.entries.map fun e => .senderconnected e.1

theorem setSessionListender_open (hr : s.handlers handler = some r) (hopen : r.isOpen = true) :
    ∃ t, s.setSessionListender (some handler) = .ok t ∧ t.manager = s.manager ∧
      t.receiverSession_ = s.receiverSession_ ∧ t.sessionListener_ = some handler ∧
        t.handlers handler = some { r with sent := r.sent ++ s.connectedFrames } := by
  have hsend := sends_open (s := { s with sessionListener_ := some handler }) s.connectedFrames hr hopen
  rw [connectedFrames, List.foldlM_map] at hsend
  exact ⟨_, hsend, rfl, rfl, rfl, setHandler_self _ _ _⟩

theorem Event.Makes.unique {e : Event} {sig sig' : Bytes × AppInfo} (h : e.Makes sig)
    (h' : e.Makes sig') : sig = sig' := by
  cases e with
  | post appId authToken uuid body =>
    cases body with
    | request type info => exact h.1.symm.trans h'.1
    | _ => cases h
  | dialPost appId data => exact Prod.ext (h.1.symm.trans h'.1) (Option.some.inj (h.2.symm.trans h'.2))
  | _ => cases h

theorem step_ipc {e : Event} {k marks : List Mark} {ph' : Phase} {q' : List Nat} (h : s.Sound ph q)
    (hi : ∀ app, ph = .starting app → s.manager.usesIpc app = true) (hstep : s.step e = .ok s')
    (hcourse : (s.request e).course s.manager ph q = some (ph', q', marks))
    (htook : s.manager.Took s'.manager ph' q' (k ++ marks)) :
    ∀ app, ph' = .starting app → s'.manager.usesIpc app = true := by
  rintro app rfl
  have hkept (hold : s.manager.usesIpc app = true) : s'.manager.usesIpc app = true := by
    unfold usesIpc at hold ⊢
    cases hsig : s.manager.signature app with
    | none => simp [hsig] at hold
    | some sig => rwa [htook.signature app sig hsig, ← hsig]
  have hnew {id : Bytes} {info : AppInfo} (he : e.Makes (id, info))
      (hipc : (s.manager.newApplication id info).usesIpc app = true) : s'.manager.usesIpc app = true := by
    by_cases happ : app = s.manager.nextApp
    · obtain ⟨a, ha, -⟩ := htook.shows.fits
      have hsig := signature_of_apps ha
      rcases (step_names s e).of_ok hstep app _ hsig with hold | hmade
      · rw [happ, signature, h.shows.heap.known _ le_rfl] at hold
        cases hold
      · rw [happ] at hipc
        rw [usesIpc, signature_of_apps (newApplication_self id info)] at hipc
        rw [usesIpc, hsig, ← he.unique hmade]
        exact hipc
    · refine hkept ?_
      unfold usesIpc signature at hipc ⊢
      rwa [newApplication_apps id info happ] at hipc
  rcases Request.course_ipc (s.request e) _ _ _ hcourse app rfl with hold | hnow
  · exact hkept (hi app hold)
  · have hasks := request_asks s e
    generalize s.request e = req at hnow hasks
    cases hasks with
    | launch he _ => exact hnew he hnow
    | replace he => exact hnew he hnow
    | _ => exact hkept hnow

theorem run_ipc {es : List Event} (hrun : start.run es = .ok s) : ∃ ph q, s.Sound ph q ∧
    ∀ app, ph = .starting app → s.manager.usesIpc app = true := by
  refine foldlM_keeps (I := fun t : Daemon => ∃ ph q, t.Sound ph q ∧
    ∀ app, ph = .starting app → t.manager.usesIpc app = true) ?_
    ⟨.idle, [], start_sound, fun app happ => by cases happ⟩ hrun
  intro t t' e _ ⟨ph, q, ht, hi⟩ hstep
  obtain ⟨k, ph', q', marks, hcourse, -, htook, ht'⟩ := step_follows ht hstep
  exact ⟨ph', q', ht', step_ipc ht hi hstep hcourse htook⟩

/-! ### The register message -/

/-- The receiver of the alive application sends `register`. -/
structure SendsRegister (s : Daemon) (handler app : Nat) (r : ReceiverApplicationHandler)
    (d : ReceiverMessage) : Prop where
  handler : s.handlers handler = some r
  isOpen : r.isOpen = true
  alive : s.manager.getAliveApplication = some app
  idOf : s.manager.idOf app = some r.appId
  appid : d.appid = some r.appId
  type : ∃ type, d.type = some type ∧ iequals type (str "register") = true

structure Registers (s : Daemon) (handler app : Nat) (r : ReceiverApplicationHandler)
    (d : ReceiverMessage) : Prop extends s.SendsRegister handler app r d where
  usesIpc : s.manager.usesIpc app = true

/-- `registerok` was sent, the session is that of the application, and the application is the top
application, or was replaced at once for what waits. -/
structure Registered (s s' : Daemon) (handler app : Nat) (r : ReceiverApplicationHandler) : Prop where
  told : ∃ r' frames, s'.handlers handler = some r' ∧ r'.sent = r.sent ++ frames ∧
    .registerok ∈ frames
  session : ∃ session, s'.receiverSession_ = some session ∧ session.appId = r.appId
  listener : s'.sessionListener_ = some handler
  top : s'.manager.topApplication_ = some app ∨ s.manager.penddingApplications_ ≠ [] ∧
    s'.manager.stoppingApplication_ = some app

/-- The listener, the session and the manager are as before. -/
structure LeftAlone (s s' : Daemon) : Prop where
  listener : s'.sessionListener_ = s.sessionListener_
  session : s'.receiverSession_ = s.receiverSession_
  manager : s'.manager = s.manager

theorem SendsRegister.typed {d : ReceiverMessage} (hr : s.SendsRegister handler app r d) (uuid : Bytes) :
    ∃ m type, m.apps = s.manager.apps ∧ iequals type (str "register") = true ∧
      (s.manager.Live app (fun _ => True) → m = s.manager) ∧ s.onMessage handler uuid (some d) =
        onTypedMessage { s with manager := m } handler app r.appId uuid type d := by
  obtain ⟨type, htype, hregister⟩ := hr.type
  obtain ⟨sig, hsig, hid⟩ := Option.map_eq_some_iff.mp hr.idOf
  obtain ⟨a, ha, rfl⟩ := Option.map_eq_some_iff.mp hsig
  have hget : s.manager.getAppId app =
      .ok (r.appId, if a.deleted then s.manager.mark (.stale app) else s.manager) := by
    rw [getAppId, ha, ← hid]
  refine ⟨if a.deleted then s.manager.mark (.stale app) else s.manager, type, ?_, hregister, ?_, ?_⟩
  · split <;> rfl
  · rintro ⟨b, hb, hd, -⟩
    rw [ha] at hb
    cases hb
    rw [hd]
    rfl
  · have hlook : s.aliveIs r.appId = .ok (some true,
        { s with manager := if a.deleted then s.manager.mark (.stale app) else s.manager }) := by
      unfold aliveIs
      rw [hr.alive]
      simp only [hget, ok_bind, decide_true]
    have halive : (if a.deleted then s.manager.mark (.stale app) else s.manager).getAliveApplication =
        some app := by
      split <;> exact hr.alive
    unfold onMessage
    rw [hr.handler]
    simp only
    rw [if_neg (by simp [hr.isOpen]), hlook, ok_bind]
    simp only [halive, hr.appid, htype]
    rw [if_neg (by simp)]

/-- The message of a live application comes to the branch `register`, and that of a deleted one uses
it. -/
theorem onMessage_register {d : ReceiverMessage} (hr : s.Registers handler app r d)
    (hl : s.manager.Live app fun _ => True) :
    s.onMessage handler uuid (some d) = s.register handler app r.appId uuid := by
  obtain ⟨m, type, -, hregister, hm, hmessage⟩ := hr.typed uuid
  obtain ⟨a, ha, hd, -⟩ := id hl
  have hipc : a.info.useIpc = true := by
    have hipc := hr.usesIpc
    rwa [ApplicationManager.usesIpc, signature_of_apps ha] at hipc
  rw [hmessage, hm hl]
  unfold onTypedMessage
  rw [if_pos hregister, deref_ok.mpr ⟨ha, hd⟩, ok_bind, if_pos hipc]

theorem onMessage_deleted {d : ReceiverMessage} (hr : s.SendsRegister handler app r d)
    (hl : ¬ s.manager.Live app fun _ => True) :
    s.onMessage handler uuid (some d) = .error .freed := by
  obtain ⟨m, type, happs, hregister, -, hmessage⟩ := hr.typed uuid
  have hderef : m.deref app = .error .freed := by
    unfold deref
    rw [happs]
    cases ha : s.manager.apps app with
    | none => rfl
    | some a =>
      cases hd : a.deleted with
      | true => simp [hd]
      | false => exact absurd ⟨a, ha, hd, trivial⟩ hl
  rw [hmessage]
  unfold onTypedMessage
  rw [if_pos hregister]
  simp only [hderef]
  rfl

/-- With a session there already, the listener stays set and the websocket is closed. -/
theorem register_taken {session : ReceiverSession} (app : Nat) (appId uuid : Bytes)
    (hr : s.handlers handler = some r) (hopen : r.isOpen = true) (hs : s.receiverSession_ = some session) :
    ∃ s', s.register handler app appId uuid = .ok s' ∧ s'.manager = s.manager ∧
      s'.receiverSession_ = s.receiverSession_ ∧ s'.sessionListener_ = some handler ∧
        s'.handlers handler = some ⟨r.appId, false, r.sent ++ s.connectedFrames⟩ := by
  obtain ⟨t, ht, hmanager, hsession, hlistener, hhandler⟩ := setSessionListender_open hr hopen
  unfold register createReceiver
  simp only [ht, ok_bind, hsession, hs]
  unfold close derefHandler
  simp only [hhandler, ok_bind, hopen, if_true]
  exact ⟨_, rfl, hmanager, hsession.trans hs, hlistener, setHandler_self _ _ _⟩

/-- With none there, the application is told that its receiver is there. -/
theorem register_free (h : s.Sound ph q) (appId uuid : Bytes) (hr : s.handlers handler = some r)
    (hopen : r.isOpen = true) (hs : s.receiverSession_ = none)
    (halive : s.manager.getAliveApplication = some app)
    (hipc : s.manager.Live app fun a => a.info.useIpc = true) :
    ∃ s' ph' q' marks, s.register handler app appId uuid = .ok s' ∧
      startedTo app ph q = some (ph', q', marks) ∧ s'.manager.Shows ph' ph'.state q' ∧
        s'.receiverSession_ = some ⟨uuid, appId, handler⟩ ∧ s'.sessionListener_ = some handler ∧
          s'.handlers handler = some { r with
            sent := r.sent ++ s.connectedFrames ++ [.registerok, .startHeartbeat] } := by
  obtain ⟨t, ht, hmanager, hsession, hlistener, hhandler⟩ := setSessionListender_open hr hopen
  have hleads := started_leads h.shows halive hipc
  obtain ⟨ph', q', marks, hto⟩ : ∃ ph' q' marks, startedTo app ph q = some (ph', q', marks) := by
    unfold startedTo
    split
    · split <;> exact ⟨_, _, _, rfl⟩
    · exact ⟨_, _, _, rfl⟩
  rw [hto] at hleads
  obtain ⟨m, hm, hbecame⟩ := hleads
  have htell := sends_open [.registerok, .startHeartbeat]
    (s := { t with receiverSession_ := some ⟨uuid, appId, handler⟩, manager := m }) hhandler hopen
  simp only [List.foldlM_cons, List.foldlM_nil, bind_pure] at htell
  unfold register createReceiver
  simp only [ht, ok_bind, hsession, hs, hmanager, hm]
  exact ⟨_, ph', q', marks, htell, hto, hbecame.shows, rfl, hlistener, setHandler_self _ _ _⟩

/-! ### All or nothing -/

theorem Shows.up_iff {m : ApplicationManager} (h : m.Shows ph ph.state q) :
    m.topApplication_ = some app ∨ m.startingApplication_ = some app ↔
      ph.slot = some app ∧ ph.stoppingSlot = none := by
  rw [h.top, h.starting]
  cases ph <;> simp [Phase.top, Phase.startingSlot, Phase.slot, Phase.stoppingSlot]

/-- Where no session is there, the registration succeeds just for an application that is up or
starting. -/
theorem registered_free_iff {d : ReceiverMessage} (h : s.Sound ph q) (uuid : Bytes)
    (hr : s.Registers handler app r d) (hl : s.manager.Live app fun _ => True)
    (hs : s.receiverSession_ = none) :
    ∃ s', s.onMessage handler uuid (some d) = .ok s' ∧ s'.receiverSession_ ≠ none ∧
      (s.Registered s' handler app r ↔
        s.manager.topApplication_ = some app ∨ s.manager.startingApplication_ = some app) := by
  have hipc : s.manager.Live app fun a => a.info.useIpc = true := by
    obtain ⟨a, ha, hd, -⟩ := hl
    have hipc := hr.usesIpc
    rw [ApplicationManager.usesIpc, signature_of_apps ha] at hipc
    exact ⟨a, ha, hd, hipc⟩
  obtain ⟨s', ph', q', marks, hok, hto, hshows, hsession, hlistener, hhandler⟩ :=
    register_free h r.appId uuid hr.handler hr.isOpen hs hr.alive hipc
  refine ⟨s', by rw [onMessage_register hr hl, hok], by simp [hsession], ?_⟩
  have htold : ∃ r' frames, s'.handlers handler = some r' ∧ r'.sent = r.sent ++ frames ∧
      Frame.registerok ∈ frames :=
    ⟨_, s.connectedFrames ++ [.registerok, .startHeartbeat], hhandler, List.append_assoc .., by simp⟩
  rw [Shows.up_iff h.shows]
  unfold startedTo at hto
  constructor
  · intro hreg
    by_contra hnot
    have hmem : app ∈ q := (h.shows.alive hr.alive).resolve_left hnot
    have hslot : ph.slot ≠ some app := fun hslot => h.shows.slot_not_mem hslot hmem
    rw [if_neg hslot] at hto
    cases hto
    -- It only waits, and its signal has no slots.
    have htop := hreg.top
    rw [hshows.top, hshows.stopping] at htop
    cases ph <;> simp_all [Phase.top, Phase.slot, Phase.stoppingSlot]
  · rintro ⟨hslot, hnone⟩
    rw [if_pos hslot] at hto
    refine ⟨htold, ⟨_, hsession, rfl⟩, hlistener, ?_⟩
    by_cases hq : q = []
    · rw [if_pos hq] at hto
      cases hto
      exact .inl hshows.top
    · rw [if_neg hq] at hto
      cases hto
      exact .inr ⟨h.shows.queue ▸ hq, hshows.stopping⟩

theorem not_registered {isOpen : Bool}
    (hr : s'.handlers handler = some ⟨r.appId, isOpen, r.sent ++ s.connectedFrames⟩) :
    ¬ s.Registered s' handler app r := by
  intro hreg
  obtain ⟨r', frames, hr', hsent, hmem⟩ := hreg.told
  rw [hr] at hr'
  cases hr'
  rw [List.append_cancel_left hsent.symm] at hmem
  simp [connectedFrames] at hmem

/-- A registration is done or leaves no trace just where the application is there and, without a
session, up or starting, or, with one, its receiver is the listener already. -/
theorem register_all_or_nothing_iff {es : List Event} {d : ReceiverMessage}
    (hrun : start.run es = .ok s) (hr : s.Registers handler app r d) :
    (∃ s', s.onMessage handler uuid (some d) = .ok s' ∧
      (s.Registered s' handler app r ∨ s.LeftAlone s')) ↔
      s.manager.Live app (fun _ => True) ∧
        (s.receiverSession_ = none ∧
            (s.manager.topApplication_ = some app ∨ s.manager.startingApplication_ = some app) ∨
          s.receiverSession_ ≠ none ∧ s.sessionListener_ = some handler) := by
  obtain ⟨ph, q, h⟩ := run_sound hrun
  by_cases hl : s.manager.Live app fun _ => True
  · cases hs : s.receiverSession_ with
    | none =>
      obtain ⟨s', hok, hsession, hiff⟩ := registered_free_iff h uuid hr hl hs
      constructor
      · intro ⟨t, ht, hcase⟩
        cases hok.symm.trans ht
        refine ⟨hl, .inl ⟨rfl, hiff.mp (hcase.resolve_right fun hsame => ?_)⟩⟩
        exact hsession (hsame.session.trans hs)
      · intro ⟨_, hcase⟩
        rcases hcase with ⟨-, hup⟩ | ⟨hnot, -⟩
        · exact ⟨s', hok, .inl (hiff.mpr hup)⟩
        · exact absurd rfl hnot
    | some session =>
      obtain ⟨s', hok, hmanager, hsession, hlistener, hhandler⟩ :=
        register_taken app r.appId uuid hr.handler hr.isOpen hs
      rw [← onMessage_register hr hl] at hok
      constructor
      · intro ⟨t, ht, hcase⟩
        cases hok.symm.trans ht
        refine ⟨hl, .inr ⟨by simp, ?_⟩⟩
        rcases hcase with hreg | hsame
        · exact (not_registered hhandler hreg).elim
        · rw [← hsame.listener, hlistener]
      · intro ⟨_, hcase⟩
        rcases hcase with ⟨hnot, -⟩ | ⟨-, hsame⟩
        · cases hnot
        · exact ⟨s', hok, .inr ⟨hlistener.trans hsame.symm, hsession, hmanager⟩⟩
  · refine iff_of_false (fun ⟨s', hok, _⟩ => ?_) fun hcase => hl hcase.1
    rw [onMessage_deleted hr.toSendsRegister hl] at hok
    cases hok

def registerMessage (appId : Bytes) : ReceiverMessage := ⟨some appId, some (str "register"), none, false⟩

theorem register_all_or_nothing_started : ∃ s : Daemon,
    start.run [.launch (str "~a") (str "http://a") true, .connect (str "~a")] = .ok s ∧
      ((∃ s', s.onMessage 0 (str "receiver") (some (registerMessage (str "~a"))) = .ok s' ∧
        (s.Registered s' 0 0 ⟨str "~a", true, []⟩ ∨ s.LeftAlone s')) ↔
        s.manager.Live 0 (fun _ => True) ∧
          (s.receiverSession_ = none ∧
              (s.manager.topApplication_ = some 0 ∨ s.manager.startingApplication_ = some 0) ∨
            s.receiverSession_ ≠ none ∧ s.sessionListener_ = some 0)) := by
  obtain ⟨s, hs, h⟩ := yields_iff.mp (show yields (start.run
    [.launch (str "~a") (str "http://a") true, .connect (str "~a")]) (fun s =>
      s.handlers 0 = some ⟨str "~a", true, []⟩ ∧ s.manager.getAliveApplication = some 0 ∧
        s.manager.idOf 0 = some (str "~a") ∧ s.manager.usesIpc 0 = true) = true by decide +kernel)
  obtain ⟨hhandler, halive, hid, hipc⟩ := of_decide_eq_true h
  refine ⟨s, hs, register_all_or_nothing_iff hs ⟨⟨hhandler, rfl, halive, hid, rfl, ?_⟩, hipc⟩⟩
  exact ⟨str "register", rfl, by decide +kernel⟩

/-- A second receiver of an application registers: it is refused, and is the listener. -/
theorem register_half_done : ∃ s s' : Daemon,
    start.run (registered ++ [.connect (str "~a")]) = .ok s ∧
      s.Registers 1 0 ⟨str "~a", true, []⟩ (registerMessage (str "~a")) ∧
        s.onMessage 1 (str "second") (some (registerMessage (str "~a"))) = .ok s' ∧
          ¬ s.Registered s' 1 0 ⟨str "~a", true, []⟩ ∧ ¬ s.LeftAlone s' := by
  obtain ⟨s, hs, h⟩ := yields_iff.mp (show yields (start.run (registered ++ [.connect (str "~a")]))
    (fun s => s.handlers 1 = some ⟨str "~a", true, []⟩ ∧ s.manager.getAliveApplication = some 0 ∧
      s.manager.idOf 0 = some (str "~a") ∧ s.manager.usesIpc 0 = true ∧ s.sessionListener_ = some 0 ∧
        yields (s.onMessage 1 (str "second") (some (registerMessage (str "~a")))) fun s' =>
          s'.sessionListener_ = some 1 ∧
            s'.handlers 1 = some ⟨str "~a", false, [.senderconnected (str "token")]⟩) = true by
      decide +kernel)
  obtain ⟨hhandler, halive, hid, hipc, hlistener, h⟩ := of_decide_eq_true h
  obtain ⟨s', hs', h⟩ := yields_iff.mp h
  obtain ⟨hlistener', hhandler'⟩ := of_decide_eq_true h
  have htype : iequals (str "register") (str "register") = true := by decide +kernel
  refine ⟨s, s', hs, ⟨⟨hhandler, rfl, halive, hid, rfl, _, rfl, htype⟩, hipc⟩, hs', ?_, ?_⟩
  · intro hreg
    obtain ⟨r', frames, hr', hsent, hmem⟩ := hreg.told
    rw [hhandler'] at hr'
    cases hr'
    rw [List.nil_append] at hsent
    simp [← hsent] at hmem
  · intro hsame
    have hlistener := hsame.listener.trans hlistener
    rw [hlistener'] at hlistener
    cases hlistener

/-! ### The session of another application -/

/-- The session whose timer is restarted. The id is not looked at. -/
def touchReceiver (s : Daemon) (_appId : Bytes) : Option ReceiverSession := s.receiverSession_

/-- The sessions of receivers whose timers `onMessage` restarts: once before the message is looked at
and once after a session has been created. -/
def touched (s : Daemon) (handler : Nat) (uuid : Bytes) (d : Option ReceiverMessage) :
    List ReceiverSession :=
  match s.handlers handler with
  | none => []
  | some r =>
    if r.isOpen = false then []
    else
      match s.aliveIs r.appId, d with
      | .ok (some true, t), some d =>
        if d.appid ≠ some r.appId then []
        else
          match d.type with
          | none => []
          | some type => (t.touchReceiver r.appId).toList ++
            match s.onMessage handler uuid (some d) with
            | .ok s' => if iequals type (str "register") ∧ s.receiverSession_ = none then
                (s'.touchReceiver r.appId).toList else []
            | .error _ => []
      | _, _ => []

/-- The message is from the receiver of the alive application, and has a type. -/
def Heard (s : Daemon) (r : ReceiverApplicationHandler) (d : Option ReceiverMessage) : Prop :=
  r.isOpen = true ∧ s.alive r.appId = some true ∧
    ∃ d', d = some d' ∧ d'.appid = some r.appId ∧ d'.type.isSome = true

/-- A session that there is after a message was there before, or is that of the receiver. -/
def KeepsSession (s : Daemon) (appId : Bytes) (x : Except Fault Daemon) : Prop :=
  Ends x (fun _ => True) fun s' => ∀ session, s'.receiverSession_ = some session →
    s.receiverSession_ = some session ∨ session.appId = appId

theorem Sends.session {x : Except Fault Daemon} (h : s.Sends x) :
    Ends x (fun _ => True) fun s' => s'.receiverSession_ = s.receiverSession_ :=
  h.mono (fun _ hf => hf) fun _ ht => by rw [ht]

theorem close_session (s : Daemon) (handler : Nat) :
    Ends (s.close handler) (fun _ => True) fun s' => s'.receiverSession_ = s.receiverSession_ := by
  unfold close
  cases s.derefHandler handler with
  | error f => trivial
  | ok r =>
    rw [ok_bind]
    split
    · rfl
    · trivial

theorem register_session (s : Daemon) (handler app : Nat) (appId uuid : Bytes) :
    s.KeepsSession appId (s.register handler app appId uuid) := by
  have hlisten : Ends (s.setSessionListender (some handler)) (fun _ => True) fun t =>
      t.receiverSession_ = s.receiverSession_ :=
    Ends.foldlM (I := fun t : Daemon => t.receiverSession_ = s.receiverSession_)
      (fun t e _ ht => (send_sends t handler _).session.mono (fun _ hf => hf) fun _ hu => hu.trans ht) rfl
  refine hlisten.bind fun t _ ht => ?_
  unfold createReceiver
  cases hs : t.receiverSession_ with
  | some session =>
    refine (close_session t handler).mono (fun _ hf => hf) fun u hu session' hsession' => .inl ?_
    rw [← ht, ← hu, hsession']
  | none =>
    refine Ends.bind (started_steady launchApplication_steady t.manager app) fun m _ _ => ?_
    refine (send_sends _ handler .registerok).session.bind fun u _ hu => ?_
    refine (send_sends u handler .startHeartbeat).session.mono (fun _ hf => hf) fun v hv session hsession => ?_
    rw [hv, hu] at hsession
    cases hsession
    exact .inr rfl

theorem onMessage_session (hr : s.handlers handler = some r) (uuid : Bytes) (d : Option ReceiverMessage) :
    s.KeepsSession r.appId (s.onMessage handler uuid d) := by
  have hsame {t : Daemon} (ht : t.receiverSession_ = s.receiverSession_) :
      ∀ session, t.receiverSession_ = some session →
        s.receiverSession_ = some session ∨ session.appId = r.appId :=
    fun session hsession => .inl (ht ▸ hsession)
  unfold onMessage
  rw [hr]
  dsimp only
  split
  · exact hsame rfl
  · refine Ends.bind (aliveIs_manages (fun _ => True) s r.appId) fun p _ hp => ?_
    obtain ⟨alive, t⟩ := p
    have ht : t.receiverSession_ = s.receiverSession_ := by
      have hframe := congrArg Daemon.receiverSession_ hp.frame
      exact hframe
    have hclose (t : Daemon) (ht : t.receiverSession_ = s.receiverSession_) :
        s.KeepsSession r.appId (t.close handler) :=
      (close_session t handler).mono (fun _ hf => hf) fun _ hu => hsame (hu.trans ht)
    have hstop : s.KeepsSession r.appId (t.stopAndClose handler r.appId) := by
      refine Ends.bind (doStop_manages (fun _ => True) t r.appId) fun u _ hu => hclose u ?_
      rw [hu.frame]
      exact ht
    dsimp only
    split
    · split
      · exact hsame ht
      · split
        · exact hsame ht
        · unfold onTypedMessage
          split
          · cases t.manager.deref _ with
            | error f => trivial
            | ok a =>
              rw [ok_bind]
              split
              · exact (register_session t handler _ r.appId uuid).mono (fun _ hf => hf)
                  fun u hu session hsession => (hu session hsession).imp (ht ▸ ·) id
              · exact hstop
          · split
            · exact hstop
            · split
              · split
                · exact hsame ht
                · cases t.manager.update _ _ with
                  | error f => trivial
                  | ok m => exact hsame ht
              · split
                · trivial
                · exact hsame ht
    · exact hsame ht
    · exact hclose t ht

theorem touched_unheard (h : s.Sound ph q) (hr : s.handlers handler = some r) (uuid : Bytes)
    {d : Option ReceiverMessage} (hheard : ¬ s.Heard r d) : s.touched handler uuid d = [] := by
  obtain ⟨k, -, hlook⟩ := h.aliveIs r.appId
  unfold touched
  rw [hr]
  dsimp only
  split
  · rfl
  · rename_i hopen
    rw [hlook]
    split
    · rename_i t d hcase
      have halive : s.alive r.appId = some true := congrArg Prod.fst (Except.ok.inj hcase)
      split
      · rfl
      · rename_i hid
        split
        · rfl
        · rename_i type htype
          refine absurd ⟨by simpa using hopen, halive, d, rfl, by simpa using hid, ?_⟩ hheard
          rw [htype]
          rfl
    · rfl

theorem touched_heard (h : s.Sound ph q) (hr : s.handlers handler = some r) (uuid : Bytes)
    {d : Option ReceiverMessage} (hheard : s.Heard r d) : ∃ more, s.touched handler uuid d =
      s.receiverSession_.toList ++ more ∧ ∀ session ∈ more, session.appId = r.appId := by
  obtain ⟨k, -, hlook⟩ := h.aliveIs r.appId
  obtain ⟨hopen, halive, d, rfl, hid, htype⟩ := hheard
  obtain ⟨type, htype⟩ := Option.isSome_iff_exists.mp htype
  unfold touched
  rw [hr]
  dsimp only
  rw [if_neg (by simp [hopen]), hlook, halive]
  dsimp only
  rw [if_neg (not_not.mpr hid), htype]
  refine ⟨_, rfl, fun session hsession => ?_⟩
  cases hok : s.onMessage handler uuid (some d) with
  | error f => simp [hok] at hsession
  | ok s' =>
    simp only [hok] at hsession
    split at hsession
    · rename_i hnew
      rcases (onMessage_session hr uuid (some d)).of_ok hok session (by simpa [touchReceiver] using hsession)
        with hold | hown
      · rw [hnew.2] at hold
        cases hold
      · exact hown
    · cases hsession

/-- The timers that a message restarts are those of the application just where the session is. -/
theorem touched_own_iff (h : s.Sound ph q) (hr : s.handlers handler = some r) (uuid : Bytes)
    (d : Option ReceiverMessage) :
    (∀ session ∈ s.touched handler uuid d, session.appId = r.appId) ↔
      (s.Heard r d → ∀ session, s.receiverSession_ = some session → session.appId = r.appId) := by
  by_cases hheard : s.Heard r d
  · obtain ⟨more, heq, hmore⟩ := touched_heard h hr uuid hheard
    rw [heq]
    constructor
    · intro hall _ session hsession
      exact hall session (List.mem_append_left _ (by simp [hsession]))
    · intro hown session hsession
      rcases List.mem_append.mp hsession with hsession | hsession
      · exact hown hheard session (by simpa using hsession)
      · exact hmore session hsession
  · rw [touched_unheard h hr uuid hheard]
    exact iff_of_true (by simp) fun hnow => absurd hnow hheard

/-- The receiver of the starting application registers just where no session is there, and its
messages leave the timers of others alone just where there is no session of another. -/
theorem receivers_apart_iff {es : List Event} (hrun : start.run es = .ok s)
    (hr : s.handlers handler = some r) (uuid : Bytes) :
    (∀ app d, s.SendsRegister handler app r d → s.manager.startingApplication_ = some app →
      ((∃ s', s.onMessage handler uuid (some d) = .ok s' ∧ s.Registered s' handler app r) ↔
        s.manager.Live app (fun _ => True) ∧ s.receiverSession_ = none)) ∧
    ∀ d, (∀ session ∈ s.touched handler uuid d, session.appId = r.appId) ↔
      (s.Heard r d → ∀ session, s.receiverSession_ = some session → session.appId = r.appId) := by
  obtain ⟨ph, q, h, hipc⟩ := run_ipc hrun
  refine ⟨fun app d hsends hstarting => ?_, touched_own_iff h hr uuid⟩
  by_cases hl : s.manager.Live app fun _ => True
  · have hph : ph = .starting app := by
      have hslot := h.shows.starting.symm.trans hstarting
      cases ph with
      | starting i =>
        cases hslot
        rfl
      | dangling i =>
        cases hslot
        obtain ⟨a, ha, hd, -⟩ := hl
        obtain ⟨b, hb, hbd, -⟩ := h.shows.fits
        rw [hb] at ha
        cases ha
        rw [hd] at hbd
        cases hbd
      | _ => cases hslot
    have hreg : s.Registers handler app r d := ⟨hsends, hipc app hph⟩
    cases hs : s.receiverSession_ with
    | none =>
      obtain ⟨s', hok, -, hiff⟩ := registered_free_iff h uuid hreg hl hs
      exact iff_of_true ⟨s', hok, hiff.mpr (.inr hstarting)⟩ ⟨hl, rfl⟩
    | some session =>
      obtain ⟨s', hok, -, -, -, hhandler⟩ :=
        register_taken app r.appId uuid hsends.handler hsends.isOpen hs
      rw [← onMessage_register hreg hl] at hok
      refine iff_of_false (fun ⟨t, ht, hdone⟩ => ?_) (by simp)
      cases hok.symm.trans ht
      exact not_registered hhandler hdone
  · refine iff_of_false (fun ⟨s', hok, _⟩ => ?_) fun hcase => hl hcase.1
    rw [onMessage_deleted hsends hl] at hok
    cases hok

theorem receivers_apart_started : ∃ s : Daemon,
    start.run [.launch (str "~a") (str "http://a") true, .connect (str "~a")] = .ok s ∧
      s.handlers 0 = some ⟨str "~a", true, []⟩ ∧
      (∀ app d, s.SendsRegister 0 app ⟨str "~a", true, []⟩ d →
        s.manager.startingApplication_ = some app →
        ((∃ s', s.onMessage 0 (str "receiver") (some d) = .ok s' ∧
          s.Registered s' 0 app ⟨str "~a", true, []⟩) ↔
          s.manager.Live app (fun _ => True) ∧ s.receiverSession_ = none)) ∧
      ∀ d, (∀ session ∈ s.touched 0 (str "receiver") d, session.appId = str "~a") ↔
        (s.Heard ⟨str "~a", true, []⟩ d → ∀ session, s.receiverSession_ = some session →
          session.appId = str "~a") := by
  obtain ⟨s, hs, h⟩ := yields_iff.mp (show yields (start.run
    [.launch (str "~a") (str "http://a") true, .connect (str "~a")]) (fun s =>
      s.handlers 0 = some ⟨str "~a", true, []⟩) = true by decide +kernel)
  have hhandler := of_decide_eq_true h
  exact ⟨s, hs, hhandler, receivers_apart_iff hs hhandler (str "receiver")⟩

/-- `~a` is stopped by its timer while its websocket stays open, and `~b` is starting. -/
def sessionLeft : List Event :=
  registered ++ [.launch (str "~b") (str "http://b") true, .elapse 0 .stop, .expire 0 .stop,
    .connect (str "~b")]

/-- The session of `~a` keeps `~b` from registering, and its timer is restarted. -/
theorem session_in_the_way : ∃ s s' : Daemon, start.run sessionLeft = .ok s ∧
    s.SendsRegister 1 1 ⟨str "~b", true, []⟩ (registerMessage (str "~b")) ∧
      s.manager.startingApplication_ = some 1 ∧
        s.onMessage 1 (str "second") (some (registerMessage (str "~b"))) = .ok s' ∧
          ¬ s.Registered s' 1 1 ⟨str "~b", true, []⟩ ∧
            ⟨str "receiver", str "~a", 0⟩ ∈
              s.touched 1 (str "second") (some (registerMessage (str "~b"))) := by
  obtain ⟨s, hs, h⟩ := yields_iff.mp (show yields (start.run sessionLeft) (fun s =>
    s.handlers 1 = some ⟨str "~b", true, []⟩ ∧ s.manager.getAliveApplication = some 1 ∧
      s.manager.idOf 1 = some (str "~b") ∧ s.manager.startingApplication_ = some 1 ∧
        ⟨str "receiver", str "~a", 0⟩ ∈
            s.touched 1 (str "second") (some (registerMessage (str "~b"))) ∧
          yields (s.onMessage 1 (str "second") (some (registerMessage (str "~b")))) fun s' =>
            s'.receiverSession_ = some ⟨str "receiver", str "~a", 0⟩) = true by decide +kernel)
  obtain ⟨hhandler, halive, hid, hstarting, htouched, h⟩ := of_decide_eq_true h
  obtain ⟨s', hs', h⟩ := yields_iff.mp h
  have hsession := of_decide_eq_true h
  have htype : iequals (str "register") (str "register") = true := by decide +kernel
  refine ⟨s, s', hs, ⟨hhandler, rfl, halive, hid, rfl, _, rfl, htype⟩, hstarting, hs', ?_, htouched⟩
  intro hreg
  obtain ⟨session, hsame, hown⟩ := hreg.session
  rw [hsession] at hsame
  cases hsame
  exact absurd hown (by decide +kernel)

end Daemon
end Flingd.App
