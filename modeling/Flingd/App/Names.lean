import Flingd.App.Runs

/-! What an event can change. The id of an application and what a request said of it stay as they
are, and a new one comes from a request that launches or relaunches its id. -/
namespace Flingd.App
open Outcome

namespace ApplicationManager
variable {m m' : ApplicationManager} {app : Nat}
variable {r : ApplicationManager → Nat → Except Fault ApplicationManager}

/-- The call makes no application and renames none. -/
def Steady (m : ApplicationManager) (x : Except Fault ApplicationManager) : Prop :=
  Ends x (fun _ => True) fun m' => m'.signature = m.signature

theorem Steady.of_eq {x : Except Fault ApplicationManager} (h : m'.signature = m.signature)
    (hx : m'.Steady x) : m.Steady x :=
  Ends.mono hx (fun _ hf => hf) fun _ ht => ht.trans h

theorem Steady.bind {x : Except Fault ApplicationManager}
    {g : ApplicationManager → Except Fault ApplicationManager} (hx : m.Steady x)
    (hg : ∀ m' : ApplicationManager, m'.Steady (g m')) : m.Steady (x >>= g) :=
  Ends.bind hx fun m' _ h => (hg m').of_eq h

/-- What is read before makes no difference. -/
theorem Steady.read {α : Type} {x : Except Fault α} {g : α → Except Fault ApplicationManager}
    (hg : ∀ a, m.Steady (g a)) : m.Steady (x >>= g) := by
  cases x with
  | ok a => exact hg a
  | error f => trivial

theorem Steady.slots {handler : ApplicationManager → Except Fault ApplicationManager}
    (h : ∀ m : ApplicationManager, m.Steady (handler m)) (n : Nat) (m : ApplicationManager) :
    m.Steady (runSlots handler n m) :=
  Ends.runSlots (I := fun t : ApplicationManager => t.signature = m.signature) (fun t ht => (h t).of_eq ht) rfl

theorem update_steady {f : Application → Application}
    (hf : ∀ a, (f a).appId = a.appId ∧ (f a).info = a.info) : m.Steady (m.update app f) :=
  .read fun _ => signature_modify hf

/-- The nested calls of `launchApplication`. -/
def Relaunches (r : ApplicationManager → Nat → Except Fault ApplicationManager) : Prop :=
  ∀ (m : ApplicationManager) (app : Nat), m.Steady (r m app)

theorem onAppStopped_steady (hr : Relaunches r) (m : ApplicationManager) (app : Nat) :
    m.Steady (onAppStopped r m app) := by
  unfold onAppStopped
  have hupdate : m.Steady ((m.mark (.stopped app m.stoppingApplication_)).update app
      Application.onStoped) := update_steady (m := m.mark _) fun a => ⟨rfl, rfl⟩
  refine hupdate.bind fun m' => ?_
  split
  · rfl
  · exact (hr _ _).of_eq rfl

theorem stopped_steady (hr : Relaunches r) (m : ApplicationManager) (app : Nat) :
    m.Steady (stopped r m app) := by
  refine .read fun a => ?_
  refine .of_eq ?_ (.slots (fun m => onAppStopped_steady hr m app) a.slots _)
  exact signature_modify fun a => ⟨rfl, rfl⟩

theorem onStopping_steady (hr : Relaunches r) (m : ApplicationManager) (app : Nat) :
    m.Steady (onStopping r m app) := by
  refine .read fun a => ?_
  have hstate : (m.modify app fun a => { a with appState := .stopping }).signature = m.signature :=
    signature_modify fun a => ⟨rfl, rfl⟩
  refine .of_eq hstate ?_
  dsimp only
  split
  · exact update_steady fun a => ⟨rfl, rfl⟩
  · exact stopped_steady hr _ app

theorem stopApplication_steady (hr : Relaunches r) (m : ApplicationManager) :
    m.Steady (stopApplication r m) := by
  have hdo (m : ApplicationManager) (app : Nat) : m.Steady (_doStopApplication r m app) :=
    .read fun a => (onStopping_steady hr _ app).of_eq rfl
  unfold stopApplication
  split
  · rfl
  · split
    · exact (hdo m _).bind fun _ => rfl
    · split
      · exact (hdo m _).bind fun _ => rfl
      · rfl

theorem started_steady (hr : Relaunches r) (m : ApplicationManager) (app : Nat) :
    m.Steady (started r m app) := by
  have hheard (m : ApplicationManager) : m.Steady (onAppStarted r m app) := by
    unfold onAppStarted
    refine .bind (update_steady fun a => ⟨rfl, rfl⟩) fun m' => ?_
    dsimp only
    split
    · rfl
    · exact (stopApplication_steady hr _).of_eq rfl
  refine .read fun a => ?_
  refine .of_eq ?_ (.slots hheard a.slots _)
  exact signature_modify fun a => ⟨rfl, rfl⟩

theorem onStarting_steady (hr : Relaunches r) (m : ApplicationManager) (app : Nat) :
    m.Steady (onStarting r m app) := by
  refine .read fun a => ?_
  have hstate : (m.modify app fun a => { a with appState := .starting }).signature = m.signature :=
    signature_modify fun a => ⟨rfl, rfl⟩
  refine .of_eq hstate ?_
  dsimp only
  split
  · exact update_steady fun a => ⟨rfl, rfl⟩
  · refine (started_steady hr _ app).bind fun m' => .read fun a => ?_
    split
    · exact update_steady fun a => ⟨rfl, rfl⟩
    · rfl

theorem _doLaunchApplication_steady (hr : Relaunches r) (m : ApplicationManager) (app : Nat) :
    m.Steady (_doLaunchApplication r m app) := by
  unfold _doLaunchApplication
  have hslot : { m with startingApplication_ := some app }.signature = m.signature := rfl
  refine .of_eq hslot ?_
  refine .bind (update_steady fun a => ⟨rfl, rfl⟩) fun m' => .read fun a => ?_
  have hmark : (m'.mark (.handed app)).signature = m'.signature := rfl
  refine .of_eq hmark ?_
  dsimp only
  split
  · exact onStarting_steady hr _ app
  · exact stopped_steady hr _ app

theorem getAppId_steady {g : Bytes × ApplicationManager → Except Fault ApplicationManager} {slot : Nat}
    (hg : ∀ id (m' : ApplicationManager), m'.Steady (g (id, m'))) :
    m.Steady (m.getAppId slot >>= g) := by
  unfold getAppId
  split
  · trivial
  · refine (hg _ _).of_eq ?_
    split <;> rfl

theorem launchBody_steady (hr : Relaunches r) : Relaunches (launchBody r) := by
  intro m app
  unfold launchBody
  refine .bind (update_steady fun a => ⟨rfl, rfl⟩) fun m' => .read fun a => ?_
  split
  · refine getAppId_steady fun id m₁ => ?_
    dsimp only
    split <;> rfl
  · split
    · refine getAppId_steady fun id m₁ => ?_
      dsimp only
      split
      · exact (stopApplication_steady hr _).of_eq rfl
      · rfl
    · split
      · exact getAppId_steady fun id m₁ => rfl
      · exact _doLaunchApplication_steady hr m' app

theorem launchApplication_steady : Relaunches launchApplication := by
  have hwithin (depth : Nat) : Relaunches (launchWithin depth) := by
    induction depth with
    | zero => exact fun _ _ => trivial
    | succ depth ih => exact launchBody_steady ih
  exact hwithin 2

theorem expire_steady (m : ApplicationManager) (app : Nat) (name : TimerName) :
    m.Steady (m.expire app name) := by
  have hstop (m : ApplicationManager) : m.Steady (onDoAppStop m app) :=
    .read fun a => stopApplication_steady launchApplication_steady m
  have htimer {f : Application → Timer} {m : ApplicationManager} :
      (m.modify app fun a => a.setTimer (f a) name).signature = m.signature := by
    refine signature_modify fun a => ?_
    cases name <;> exact ⟨rfl, rfl⟩
  unfold expire
  split
  · rfl
  · split
    · rfl
    · rename_i due _
      refine .of_eq (htimer (f := fun a => { a.timer name with due := due })) ?_
      unfold onTimeout
      split
      · exact .read fun a => .slots hstop a.slots _
      · exact stopped_steady launchApplication_steady _ app
      · refine .read fun a => .of_eq ?_ (.slots hstop a.slots _)
        exact signature_modify fun a => ⟨rfl, rfl⟩

/-- Applications have been added that are as in `made`, and none was renamed. -/
def Named (made : Bytes × AppInfo → Prop) (m m' : ApplicationManager) : Prop :=
  ∀ i sig, m'.signature i = some sig → m.signature i = some sig ∨ made sig

variable {made : Bytes × AppInfo → Prop}

theorem Named.of_signature (h : m'.signature = m.signature) : Named made m m' :=
  fun i sig hi => .inl (by rwa [h] at hi)

theorem Named.refl (m : ApplicationManager) : Named made m m := .of_signature rfl

theorem Named.trans {m'' : ApplicationManager} (h : Named made m m') (h' : Named made m' m'') :
    Named made m m'' := fun i sig hi => (h' i sig hi).elim (h i sig) .inr

theorem newApplication_named {appId : Bytes} {info : AppInfo} (h : made (appId, info)) :
    Named made m (m.newApplication appId info) := by
  intro i sig hi
  by_cases hnew : i = m.nextApp
  · rw [hnew, signature_of_apps (newApplication_self appId info)] at hi
    cases hi
    exact .inr h
  · unfold signature at hi ⊢
    rw [newApplication_apps appId info hnew] at hi
    exact .inl hi

end ApplicationManager

def Daemon.Event.Launches (appId : Bytes) : Daemon.Event → Prop
  | .post appId' _ _ (.request type _) =>
    appId' = appId ∧ (type = str "launch" ∨ type = str "relaunch")
  | .dialPost appId' _ => appId' = appId
  | _ => False

theorem Daemon.Event.Makes.launches {e : Daemon.Event} {sig : Bytes × AppInfo} (h : e.Makes sig) :
    e.Launches sig.1 := by
  cases e with
  | post appId authToken uuid body =>
    cases body with
    | request type info => exact ⟨congrArg Prod.fst h.1, h.2⟩
    | _ => cases h
  | dialPost appId data => exact h.1
  | _ => cases h

namespace Daemon
open ApplicationManager
variable {s s' : Daemon} {made : Bytes × AppInfo → Prop} {appId : Bytes}

/-! ### Requests, which leave all but the manager as it is -/

structure Manages (made : Bytes × AppInfo → Prop) (s s' : Daemon) : Prop where
  frame : s' = { s with manager := s'.manager }
  named : Named made s.manager s'.manager

theorem Manages.refl (s : Daemon) : Manages made s s := ⟨rfl, .refl s.manager⟩

theorem Manages.trans {s'' : Daemon} (h : Manages made s s') (h' : Manages made s' s'') :
    Manages made s s'' := by
  refine ⟨?_, h.named.trans h'.named⟩
  rw [h'.frame, h.frame]

theorem aliveIs_manages (made : Bytes × AppInfo → Prop) (s : Daemon) (appId : Bytes) :
    Ends (s.aliveIs appId) (fun _ => True) fun p => Manages made s p.2 := by
  unfold aliveIs
  split
  · exact .refl s
  · unfold getAppId
    split
    · trivial
    · refine ⟨rfl, .of_signature ?_⟩
      dsimp only
      split <;> rfl

theorem doStop_manages (made : Bytes × AppInfo → Prop) (s : Daemon) (appId : Bytes) :
    Ends (s.doStop appId) (fun _ => True) (Manages made s) :=
  Ends.bind (stopApplication_steady launchApplication_steady s.manager)
    fun _ _ hm => ⟨rfl, .of_signature hm⟩

theorem doLaunch_manages (s : Daemon) (info : AppInfo) (h : made (appId, info)) :
    Ends (s.doLaunch appId info) (fun _ => True) (Manages made s) :=
  Ends.bind (launchApplication_steady (s.manager.newApplication appId info) s.manager.nextApp)
    fun _ _ hm => ⟨rfl, (newApplication_named h).trans (.of_signature hm)⟩

theorem replace_manages (s : Daemon) (info : AppInfo) (h : made (appId, info)) (code : Nat) :
    Ends (do let s ← s.doStop appId; let s ← s.doLaunch appId info; .ok (s, code)) (fun _ => True)
      fun p => Manages made s p.1 := by
  refine (doStop_manages made s appId).bind fun t _ ht => ?_
  exact (doLaunch_manages t info h).bind fun u _ hu => ht.trans hu

theorem launchOrJoin_manages (s : Daemon) (type : Bytes) (info : AppInfo)
    (h : type = str "launch" ∨ type = str "relaunch" → made (appId, info)) :
    Ends (s.launchOrJoin appId type info) (fun _ => True) fun p => Manages made s p.1 := by
  refine (aliveIs_manages made s appId).bind fun p _ hp => ?_
  obtain ⟨alive, t⟩ := p
  have hreplace (hmade : made (appId, info)) : Ends (do
        let s ← t.doStop appId; let s ← s.doLaunch appId info; .ok (s, 201)) (fun _ => True)
      fun p => Manages made s p.1 :=
    (replace_manages t info hmade 201).mono (fun _ hf => hf) fun _ ht => hp.trans ht
  cases alive with
  | none =>
    dsimp only
    split
    · rename_i htype
      exact (doLaunch_manages t info (h (.inl htype))).bind fun u _ hu => hp.trans hu
    · exact hp
  | some same =>
    dsimp only
    split
    · rename_i htype
      split
      · exact hp
      · exact hreplace (h (.inl htype))
    · split
      · rename_i htype
        split
        · exact hreplace (h (.inr htype))
        · exact hp
      · split
        · exact hp
        · exact hp

theorem stopAlive_manages (made : Bytes × AppInfo → Prop) (s : Daemon) (appId : Bytes) :
    Ends (s.stopAlive appId) (fun _ => True) fun p => Manages made s p.1 := by
  refine (aliveIs_manages made s appId).bind fun p _ hp => ?_
  obtain ⟨alive, t⟩ := p
  dsimp only
  split
  · exact (doStop_manages made t appId).bind fun u _ hu => hp.trans hu
  · exact hp
  · exact hp

theorem writeStatus_manages (made : Bytes × AppInfo → Prop) (s : Daemon) (appId : Bytes) :
    Ends (s.writeStatus appId) (fun _ => True) fun p => Manages made s p.1 := by
  refine (aliveIs_manages made s appId).bind fun p _ hp => ?_
  obtain ⟨alive, t⟩ := p
  dsimp only
  split
  · cases ht : t.manager.deref _ with
    | error f => trivial
    | ok a => exact hp
  · exact hp

theorem stopAnyway_steady (m : ApplicationManager) (appId : Bytes) :
    m.Steady (m.stopApplicationByAppId appId >>= fun m =>
      match m.getStoppingApplication with
      | some app => m.stopped launchApplication app
      | none => .ok m) := by
  refine .bind (stopApplication_steady launchApplication_steady m) fun m' => ?_
  split
  · exact stopped_steady launchApplication_steady m' _
  · rfl

theorem closeApplication_steady (m : ApplicationManager) (appId : Bytes) :
    m.Steady (closeApplication m appId) := by
  unfold closeApplication
  dsimp only
  split
  · exact stopAnyway_steady m appId
  · refine getAppId_steady fun id m' => ?_
    dsimp only
    split
    · exact stopped_steady launchApplication_steady m' _
    · exact stopAnyway_steady m' appId

/-! ### All events -/

/-- A relation that holds of every change an event is made of; applications are added as in `made`. -/
structure Covers (made : Bytes × AppInfo → Prop) (R : Daemon → Daemon → Prop) : Prop where
  refl : ∀ s, R s s
  trans : ∀ {s t u}, R s t → R t u → R s u
  manager : ∀ s m, Named made s.manager m → R s { s with manager := m }
  handlers : ∀ s handlers nextHandler, R s { s with handlers := handlers, nextHandler := nextHandler }
  session : ∀ s session, R s { s with receiverSession_ := session }
  listener : ∀ s listener, R s { s with sessionListener_ := listener }
  insert : ∀ s token appId,
    R s { s with senderSessions_ := s.senderSessions_.insert token appId }
  erase : ∀ s token, s.checkSender token = true →
    R s { s with senderSessions_ := s.senderSessions_.eraseFirst (token = ·) }

namespace Covers
variable {R : Daemon → Daemon → Prop}

theorem after {t : Daemon} {x : Except Fault Daemon} (h : Covers made R) (ht : R s t)
    (hx : Ends x (fun _ => True) (R t)) : Ends x (fun _ => True) (R s) :=
  hx.mono (fun _ hf => hf) fun _ hu => h.trans ht hu

theorem bind {x : Except Fault Daemon} {g : Daemon → Except Fault Daemon} (h : Covers made R)
    (hx : Ends x (fun _ => True) (R s)) (hg : ∀ t, Ends (g t) (fun _ => True) (R t)) :
    Ends (x >>= g) (fun _ => True) (R s) :=
  Ends.bind hx fun t _ ht => h.after ht (hg t)

theorem manages {t : Daemon} (h : Covers made R) (ht : Manages made s t) : R s t := by
  rw [ht.frame]
  exact h.manager s _ ht.named

theorem setHandler (h : Covers made R) (s : Daemon) (handler : Nat)
    (r : Option ReceiverApplicationHandler) : R s (s.setHandler handler r) := h.handlers s _ s.nextHandler

theorem send (h : Covers made R) (s : Daemon) (handler : Nat) (frame : Frame) :
    Ends (s.send handler frame) (fun _ => True) (R s) := by
  unfold Daemon.send
  cases s.derefHandler handler with
  | error f => trivial
  | ok r =>
    rw [ok_bind]
    split
    · exact h.setHandler s handler _
    · exact h.refl s

theorem close (h : Covers made R) (s : Daemon) (handler : Nat) :
    Ends (s.close handler) (fun _ => True) (R s) := by
  unfold Daemon.close
  cases s.derefHandler handler with
  | error f => trivial
  | ok r =>
    rw [ok_bind]
    split
    · exact h.setHandler s handler _
    · trivial

theorem notify (h : Covers made R) (s : Daemon) (frame : Frame) :
    Ends (s.notify frame) (fun _ => True) (R s) := by
  unfold Daemon.notify
  split
  · exact h.send s _ frame
  · exact h.refl s

theorem createSender (h : Covers made R) (s : Daemon) (appId token : Bytes) :
    Ends (s.createSender appId token) (fun _ => True) (R s) :=
  h.after (h.insert s token appId) (h.notify _ _)

theorem disconnectSender (h : Covers made R) (s : Daemon) (token : Bytes) :
    Ends (s.disconnectSender token) (fun _ => True) (R s) := by
  unfold Daemon.disconnectSender
  split
  · rename_i hin
    exact h.after (h.erase s token hin) (h.notify _ _)
  · exact h.refl s

theorem setSessionListender (h : Covers made R) (s : Daemon) (listener : Option Nat) :
    Ends (s.setSessionListender listener) (fun _ => True) (R s) := by
  cases listener with
  | none => exact h.listener s none
  | some listener =>
    exact Ends.foldlM (I := R s) (fun t e _ ht => h.after ht (h.send t listener _)) (h.listener s _)

theorem onReceiverTimeout (h : Covers made R) (s : Daemon) (token : Bytes) :
    Ends (s.onReceiverTimeout token) (fun _ => True) (R s) := by
  unfold Daemon.onReceiverTimeout
  split
  · exact h.refl s
  · split
    · exact h.refl s
    · split
      · exact h.session s none
      · cases s.derefHandler _ with
        | error f => trivial
        | ok r =>
          rw [ok_bind]
          split
          · exact h.bind (h.close s _) fun t => h.session t none
          · exact h.session s none

theorem doStop (h : Covers made R) (s : Daemon) (appId : Bytes) :
    Ends (s.doStop appId) (fun _ => True) (R s) :=
  (doStop_manages made s appId).mono (fun _ hf => hf) fun _ ht => h.manages ht

/-- What the manager does and the daemon takes over. -/
theorem takes {x : Except Fault ApplicationManager} (h : Covers made R) (hx : s.manager.Steady x) :
    Ends (x >>= fun m => .ok { s with manager := m }) (fun _ => True) (R s) :=
  Ends.bind hx fun m _ hm => h.manager s m (.of_signature hm)

theorem onPost (h : Covers made R) (s : Daemon) (authToken uuid : Bytes) (body : PostBody)
    (hmade : ∀ type info, body = .request type info → type = str "launch" ∨ type = str "relaunch" →
      made (appId, info)) :
    Ends ((s.onPost appId authToken uuid body).map (·.1)) (fun _ => True) (R s) := by
  refine Ends.map ?_
  cases body with
  | empty => exact h.refl s
  | rejected => exact h.refl s
  | request type info =>
    unfold Daemon.onPost
    dsimp only
    split
    · exact h.refl s
    · have hrest (t : Daemon) (token : Bytes) :
          Ends (t.launchOrJoin appId type info >>= fun p =>
            (.ok (p.1, if p.2 = 400 then .status p.2 else .token p.2 token) :
              Except Fault (Daemon × Reply))) (fun _ => True) fun p => R t p.1 :=
        (launchOrJoin_manages t type info (hmade type info rfl)).bind fun p _ hp => h.manages hp
      split
      · refine Ends.bind (h.createSender s appId uuid) fun t _ ht => ?_
        exact (hrest t uuid).mono (fun _ hf => hf) fun p hp => h.trans ht hp
      · exact hrest s authToken

theorem onDelete (h : Covers made R) (s : Daemon) (authToken : Bytes) (isInstance : Bool) :
    Ends ((s.onDelete appId authToken isInstance).map (·.1)) (fun _ => True) (R s) := by
  refine Ends.map ?_
  unfold Daemon.onDelete
  split
  · exact h.refl s
  · refine Ends.bind (h.disconnectSender s authToken) fun t _ ht => ?_
    split
    · exact (stopAlive_manages made t appId).mono (fun _ hf => hf) fun p hp => h.trans ht (h.manages hp)
    · exact ht

theorem register (h : Covers made R) (s : Daemon) (handler app : Nat) (appId uuid : Bytes) :
    Ends (s.register handler app appId uuid) (fun _ => True) (R s) := by
  refine h.bind (h.setSessionListender s _) fun t => ?_
  unfold createReceiver
  cases t.receiverSession_ with
  | some session => exact h.close t handler
  | none =>
    dsimp only
    refine h.after (h.session t (some ⟨uuid, appId, handler⟩)) ?_
    refine Ends.bind (started_steady launchApplication_steady t.manager app) fun m _ hm => ?_
    refine h.after (h.manager _ m (.of_signature hm)) ?_
    exact h.bind (h.send _ handler _) fun u => h.send u handler _

theorem onTypedMessage (h : Covers made R) (s : Daemon) (handler app : Nat) (appId uuid type : Bytes)
    (d : ReceiverMessage) :
    Ends (s.onTypedMessage handler app appId uuid type d) (fun _ => True) (R s) := by
  have hclose (s : Daemon) : Ends (s.stopAndClose handler appId) (fun _ => True) (R s) :=
    h.bind (h.doStop s appId) fun t => h.close t handler
  unfold Daemon.onTypedMessage
  split
  · cases s.manager.deref app with
    | error f => trivial
    | ok a =>
      rw [ok_bind]
      split
      · exact h.register s handler app appId uuid
      · exact hclose s
  · split
    · exact hclose s
    · split
      · split
        · exact h.refl s
        · exact h.takes (update_steady fun a => ⟨rfl, rfl⟩)
      · split
        · trivial
        · exact h.refl s

theorem onMessage (h : Covers made R) (s : Daemon) (handler : Nat) (uuid : Bytes)
    (d : Option ReceiverMessage) : Ends (s.onMessage handler uuid d) (fun _ => True) (R s) := by
  unfold Daemon.onMessage
  split
  · exact h.refl s
  · split
    · exact h.refl s
    · refine Ends.bind (aliveIs_manages made s _) fun p _ hp => ?_
      obtain ⟨alive, t⟩ := p
      have ht := h.manages hp
      dsimp only
      split
      · split
        · exact ht
        · split
          · exact ht
          · exact h.after ht (h.onTypedMessage t handler _ _ uuid _ _)
      · exact ht
      · exact h.after ht (h.close t handler)

theorem onClose (h : Covers made R) (s : Daemon) (handler : Nat) :
    Ends (s.onClose handler) (fun _ => True) (R s) := by
  unfold Daemon.onClose
  split
  · exact h.refl s
  · rename_i r _
    have hdisconnect : R s (s.disconnectReceiver r.appId) := by
      unfold disconnectReceiver
      split
      · split
        · exact h.session s none
        · exact h.refl s
      · exact h.refl s
    refine h.after hdisconnect (h.bind (h.setSessionListender _ none) fun t => ?_)
    refine Ends.bind (closeApplication_steady t.manager r.appId) fun m _ hm => ?_
    exact h.trans (h.manager t m (.of_signature hm)) (h.setHandler _ handler none)

/-- The relation holds of every event that adds applications as in `made`. -/
theorem step {e : Event} (h : Covers (e.Makes ·) R) (s : Daemon) :
    Ends (s.step e) (fun _ => True) (R s) := by
  cases e with
  | get appId authToken =>
    refine Ends.map ?_
    unfold onGet
    split
    · exact h.refl s
    · exact (writeStatus_manages _ s appId).mono (fun _ hf => hf) fun p hp => h.manages hp
  | post appId authToken uuid body =>
    refine h.onPost s authToken uuid body fun type info hbody htype => ?_
    rw [hbody]
    exact ⟨rfl, htype⟩
  | delete appId authToken isInstance => exact h.onDelete s authToken isInstance
  | dialGet appId =>
    exact ((writeStatus_manages _ s appId).mono (fun _ hf => hf) fun p hp => h.manages hp).map
  | dialPost appId data =>
    refine Ends.map ?_
    unfold onDialPost
    split
    · exact h.refl s
    · rename_i info hinfo
      exact (launchOrJoin_manages s _ info fun _ => ⟨rfl, hinfo⟩).bind fun p _ hp => h.manages hp
  | dialDelete appId =>
    exact ((stopAlive_manages _ s appId).mono (fun _ hf => hf) fun p hp => h.manages hp).map
  | connect appId => exact h.handlers s _ _
  | message handler uuid d => exact h.onMessage s handler uuid d
  | closed handler => exact h.onClose s handler
  | elapse app name =>
    refine h.manager s _ (.of_signature (signature_modify fun a => ?_))
    split
    · cases name <;> exact ⟨rfl, rfl⟩
    · exact ⟨rfl, rfl⟩
  | expire app name => exact h.takes (expire_steady s.manager app name)
  | senderTimeout token => exact h.disconnectSender s token
  | receiverTimeout token => exact h.onReceiverTimeout s token

end Covers

/-- An event adds applications that it asks for, and no others. -/
theorem step_names (s : Daemon) (e : Event) :
    Ends (s.step e) (fun _ => True) fun s' => Named (e.Makes ·) s.manager s'.manager := by
  have hcovers : Covers (e.Makes ·) fun s s' => Named (e.Makes ·) s.manager s'.manager :=
    { refl := fun s => .refl s.manager
      trans := fun h h' => h.trans h'
      manager := fun _ _ h => h
      handlers := fun s _ _ => .refl s.manager
      session := fun s _ => .refl s.manager
      listener := fun s _ => .refl s.manager
      insert := fun s _ _ => .refl s.manager
      erase := fun s _ _ => .refl s.manager }
  exact hcovers.step s

end Daemon
end Flingd.App
