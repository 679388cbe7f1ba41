import Flingd.App.Names

/-! What an application holds of its receiver's data. The calls of the manager change the states, the
timers and the slots of applications, so that a property of the rest is kept by all of them; and
nothing but a message of the receiver changes the data. -/
namespace Flingd.App
open Outcome

structure Application.Same (a b : Application) : Prop where
  appId : b.appId = a.appId
  info : b.info = a.info
  additionalData : b.additionalData = a.additionalData

namespace ApplicationManager
variable {m : ApplicationManager} {app : Nat} {I : ApplicationManager → Prop}
variable {r : ApplicationManager → Nat → Except Fault ApplicationManager}

/-- A property of the applications, and of no more of them than what was asked for and sent. -/
structure Closed (I : ApplicationManager → Prop) : Prop where
  frame : ∀ {m m' : ApplicationManager}, I m → m'.apps = m.apps → m'.nextApp = m.nextApp → I m'
  modify : ∀ {m : ApplicationManager} (app : Nat) {f : Application → Application},
    (∀ a : Application, a.Same (f a)) → I m → I (m.modify app f)

def Keeps (I : ApplicationManager → Prop) (x : Except Fault ApplicationManager) : Prop :=
  Ends x (fun _ => True) I

theorem Keeps.bind {x : Except Fault ApplicationManager}
    {g : ApplicationManager → Except Fault ApplicationManager} (hx : Keeps I x)
    (hg : ∀ m, I m → Keeps I (g m)) : Keeps I (x >>= g) := Ends.bind hx fun m _ hm => hg m hm

/-- What is read before makes no difference. -/
theorem Keeps.read {α : Type} {x : Except Fault α} {g : α → Except Fault ApplicationManager}
    (hg : ∀ a, Keeps I (g a)) : Keeps I (x >>= g) := by
  cases x with
  | ok a => exact hg a
  | error f => trivial

/-- The nested calls of `launchApplication` keep the property. -/
def Nested (I : ApplicationManager → Prop)
    (r : ApplicationManager → Nat → Except Fault ApplicationManager) : Prop :=
  ∀ m app, I m → Keeps I (r m app)

namespace Closed

theorem update (h : Closed I) (hm : I m) {f : Application → Application}
    (hf : ∀ a : Application, a.Same (f a)) : Keeps I (m.update app f) := .read fun _ => h.modify app hf hm

theorem getAppId (h : Closed I) (hm : I m) {slot : Nat}
    {g : Bytes × ApplicationManager → Except Fault ApplicationManager}
    (hg : ∀ id m', I m' → Keeps I (g (id, m'))) : Keeps I (m.getAppId slot >>= g) := by
  unfold ApplicationManager.getAppId
  split
  · trivial
  · refine hg _ _ ?_
    split
    · exact h.frame hm rfl rfl
    · exact hm

theorem onAppStopped (h : Closed I) (hr : Nested I r) (hm : I m) :
    Keeps I (onAppStopped r m app) := by
  unfold ApplicationManager.onAppStopped
  have hmark : I (m.mark (.stopped app m.stoppingApplication_)) := h.frame hm rfl rfl
  refine .bind (h.update hmark fun a => ⟨rfl, rfl, rfl⟩) fun m' hm' => ?_
  split
  · exact h.frame hm' rfl rfl
  · exact hr _ _ (h.frame hm' rfl rfl)

theorem stopped (h : Closed I) (hr : Nested I r) (hm : I m) : Keeps I (stopped r m app) :=
  .read fun _ => Ends.runSlots (fun _ ht => h.onAppStopped hr ht)
    (h.modify app (fun _ => ⟨rfl, rfl, rfl⟩) hm)

theorem onStopping (h : Closed I) (hr : Nested I r) (hm : I m) : Keeps I (onStopping r m app) := by
  refine .read fun a => ?_
  have hstate := h.modify app (f := fun a => { a with appState := .stopping })
    (fun a => ⟨rfl, rfl, rfl⟩) hm
  dsimp only
  split
  · exact h.update hstate fun a => ⟨rfl, rfl, rfl⟩
  · exact h.stopped hr hstate

theorem stopApplication (h : Closed I) (hr : Nested I r) (hm : I m) :
    Keeps I (stopApplication r m) := by
  have hdo (app : Nat) : Keeps I (_doStopApplication r m app) :=
    .read fun a => h.onStopping hr (h.frame hm rfl rfl)
  unfold ApplicationManager.stopApplication
  split
  · exact hm
  · split
    · exact (hdo _).bind fun _ ht => h.frame ht rfl rfl
    · split
      · exact (hdo _).bind fun _ ht => h.frame ht rfl rfl
      · exact hm

theorem started (h : Closed I) (hr : Nested I r) (hm : I m) : Keeps I (started r m app) := by
  have hheard (m : ApplicationManager) (hm : I m) : Keeps I (onAppStarted r m app) := by
    unfold onAppStarted
    refine .bind (h.update hm fun a => ⟨rfl, rfl, rfl⟩) fun m' hm' => ?_
    dsimp only
    split
    · exact h.frame hm' rfl rfl
    · exact h.stopApplication hr (h.frame hm' rfl rfl)
  exact .read fun a => Ends.runSlots hheard (h.modify app (fun a => ⟨rfl, rfl, rfl⟩) hm)

theorem onStarting (h : Closed I) (hr : Nested I r) (hm : I m) : Keeps I (onStarting r m app) := by
  refine .read fun a => ?_
  have hstate := h.modify app (f := fun a => { a with appState := .starting })
    (fun a => ⟨rfl, rfl, rfl⟩) hm
  dsimp only
  split
  · exact h.update hstate fun a => ⟨rfl, rfl, rfl⟩
  · refine .bind (h.started hr hstate) fun m' hm' => .read fun a => ?_
    split
    · exact h.update hm' fun a => ⟨rfl, rfl, rfl⟩
    · exact hm'

theorem _doLaunchApplication (h : Closed I) (hr : Nested I r) (hm : I m) :
    Keeps I (_doLaunchApplication r m app) := by
  unfold ApplicationManager._doLaunchApplication
  have hslot : I { m with startingApplication_ := some app } := h.frame hm rfl rfl
  refine .bind (h.update hslot fun a => ⟨rfl, rfl, rfl⟩) fun m' hm' => .read fun a => ?_
  have hmark : I (m'.mark (.handed app)) := h.frame hm' rfl rfl
  dsimp only
  split
  · exact h.onStarting hr hmark
  · exact h.stopped hr hmark

theorem launchBody (h : Closed I) (hr : Nested I r) : Nested I (launchBody r) := by
  intro m app hm
  have hpush {t : ApplicationManager} (ht : I t) : I (t.push app) := h.frame ht rfl rfl
  unfold ApplicationManager.launchBody
  refine .bind (h.update hm fun a => ⟨rfl, rfl, rfl⟩) fun m' hm' => .read fun a => ?_
  split
  · refine h.getAppId hm' fun id t ht => ?_
    dsimp only
    split
    · exact hpush ht
    · exact ht
  · split
    · refine h.getAppId hm' fun id t ht => ?_
      dsimp only
      split
      · exact h.stopApplication hr (hpush ht)
      · exact ht
    · split
      · exact h.getAppId hm' fun id t ht => hpush ht
      · exact h._doLaunchApplication hr hm'

theorem launchApplication (h : Closed I) : Nested I launchApplication := by
  have hwithin (depth : Nat) : Nested I (launchWithin depth) := by
    induction depth with
    | zero => exact fun _ _ _ => trivial
    | succ depth ih => exact h.launchBody ih
  exact hwithin 2

theorem elapse (h : Closed I) (hm : I m) (name : TimerName) : I (m.elapse app name) := by
  refine h.modify app (fun a => ?_) hm
  split
  · cases name <;> exact ⟨rfl, rfl, rfl⟩
  · exact ⟨rfl, rfl, rfl⟩

theorem expire (h : Closed I) (hm : I m) (name : TimerName) : Keeps I (m.expire app name) := by
  have hstop (t : ApplicationManager) (ht : I t) : Keeps I (onDoAppStop t app) :=
    .read fun a => h.stopApplication h.launchApplication ht
  unfold ApplicationManager.expire
  split
  · exact hm
  · split
    · exact hm
    · rename_i due _
      have htimer := h.modify app (f := fun a => a.setTimer { a.timer name with due := due } name)
        (fun a => by cases name <;> exact ⟨rfl, rfl, rfl⟩) hm
      unfold onTimeout
      split
      · exact .read fun a => Ends.runSlots hstop htimer
      · exact h.stopped h.launchApplication htimer
      · exact .read fun a => Ends.runSlots hstop (h.modify app (fun a => ⟨rfl, rfl, rfl⟩) htimer)

end Closed

end ApplicationManager

/-! ### Events -/

/-- The message brings data of a receiver. -/
def Daemon.Event.Says : Daemon.Event → Prop
  | .message _ _ (some d) =>
    d.additionaldata ≠ none ∧ ∃ type ∈ d.type, iequals type (str "additionaldata") = true
  | _ => False

instance : DecidablePred Daemon.Event.Says
  | .message _ _ (some d) => inferInstanceAs (Decidable (d.additionaldata ≠ none ∧
      ∃ type ∈ d.type, iequals type (str "additionaldata") = true))
  | .message _ _ none | .get .. | .post .. | .delete .. | .dialGet .. | .dialPost ..
  | .dialDelete .. | .connect .. | .closed .. | .elapse .. | .expire .. | .senderTimeout ..
  | .receiverTimeout .. => isFalse id

namespace Daemon
open ApplicationManager
variable {s : Daemon} {I : ApplicationManager → Prop} {appId : Bytes}

/-- Neither does a new application break it. -/
structure Lasting (I : ApplicationManager → Prop) : Prop extends Closed I where
  newApplication : ∀ {m : ApplicationManager} (appId : Bytes) (info : AppInfo), I m →
    I (m.newApplication appId info)

/-- New data does not. -/
def Rewritable (I : ApplicationManager → Prop) : Prop :=
  ∀ {m : ApplicationManager} (app : Nat) (data : Bytes), I m →
    I (m.modify app fun a => { a with additionalData := data })

def Kept (I : ApplicationManager → Prop) (x : Except Fault Daemon) : Prop :=
  Ends x (fun _ => True) fun s => I s.manager

theorem Kept.bind {x : Except Fault Daemon} {g : Daemon → Except Fault Daemon}
    (hx : Kept I x) (hg : ∀ s, I s.manager → Kept I (g s)) :
    Kept I (x >>= g) := Ends.bind hx fun s _ hs => hg s hs

theorem Kept.takes {x : Except Fault ApplicationManager} (hx : Keeps I x) (s : Daemon) :
    Kept I (x >>= fun m => .ok { s with manager := m }) := Ends.bind hx fun _ _ hm => hm

theorem Kept.send (hs : I s.manager) (handler : Nat) (frame : Frame) :
    Kept I (s.send handler frame) := by
  unfold Daemon.send
  cases s.derefHandler handler with
  | error f => trivial
  | ok r =>
    rw [ok_bind]
    split
    · exact hs
    · exact hs

theorem Kept.close (hs : I s.manager) (handler : Nat) :
    Kept I (s.close handler) := by
  unfold Daemon.close
  cases s.derefHandler handler with
  | error f => trivial
  | ok r =>
    rw [ok_bind]
    split
    · exact hs
    · trivial

theorem Kept.notify (hs : I s.manager) (frame : Frame) :
    Kept I (s.notify frame) := by
  unfold Daemon.notify
  split
  · exact Kept.send hs _ frame
  · exact hs

theorem Kept.disconnectSender (hs : I s.manager) (token : Bytes) :
    Kept I (s.disconnectSender token) := by
  unfold Daemon.disconnectSender
  split
  · exact Kept.notify (s := { s with
      senderSessions_ := s.senderSessions_.eraseFirst (token = ·) }) hs _
  · exact hs

theorem Kept.setSessionListender (hs : I s.manager) (listener : Option Nat) :
    Kept I (s.setSessionListender listener) := by
  cases listener with
  | none => exact hs
  | some listener =>
    exact Ends.foldlM (I := fun t : Daemon => I t.manager)
      (fun t e _ ht => Kept.send ht listener _) hs

theorem Kept.onReceiverTimeout (hs : I s.manager) (token : Bytes) :
    Kept I (s.onReceiverTimeout token) := by
  unfold Daemon.onReceiverTimeout
  split
  · exact hs
  · split
    · exact hs
    · split
      · exact hs
      · cases s.derefHandler _ with
        | error f => trivial
        | ok r =>
          rw [ok_bind]
          split
          · exact (Kept.close hs _).bind fun _ ht => ht
          · exact hs

namespace Lasting

theorem aliveIs (h : Lasting I) (hs : I s.manager) (appId : Bytes) :
    Ends (s.aliveIs appId) (fun _ => True) fun p => I p.2.manager := by
  unfold Daemon.aliveIs
  split
  · exact hs
  · unfold ApplicationManager.getAppId
    split
    · trivial
    · change I (if _ then _ else _)
      split
      · exact h.frame hs rfl rfl
      · exact hs

theorem doStop (h : Lasting I) (hs : I s.manager) (appId : Bytes) :
    Kept I (s.doStop appId) :=
  .takes (h.stopApplication h.launchApplication hs) s

theorem doLaunch (h : Lasting I) (hs : I s.manager) (appId : Bytes) (info : AppInfo) :
    Kept I (s.doLaunch appId info) :=
  .takes (h.launchApplication _ _ (h.newApplication appId info hs)) s

theorem launchOrJoin (h : Lasting I) (hs : I s.manager) (appId type : Bytes) (info : AppInfo) :
    Ends (s.launchOrJoin appId type info) (fun _ => True) fun p => I p.1.manager := by
  have hlaunch {t : Daemon} (ht : I t.manager) :
      Ends (do let s ← t.doLaunch appId info; .ok (s, 201)) (fun _ => True)
        fun p : Daemon × Nat => I p.1.manager :=
    Ends.bind (h.doLaunch ht appId info) fun _ _ hu => hu
  have hreplace {t : Daemon} (ht : I t.manager) :
      Ends (do let s ← t.doStop appId; let s ← s.doLaunch appId info; .ok (s, 201)) (fun _ => True)
        fun p : Daemon × Nat => I p.1.manager :=
    Ends.bind (h.doStop ht appId) fun _ _ hu => hlaunch hu
  refine Ends.bind (h.aliveIs hs appId) fun p _ hp => ?_
  obtain ⟨alive, t⟩ := p
  cases alive with
  | none =>
    dsimp only
    split
    · exact hlaunch hp
    · exact hp
  | some same =>
    dsimp only
    split
    · split
      · exact hp
      · exact hreplace hp
    · split
      · split
        · exact hreplace hp
        · exact hp
      · split
        · exact hp
        · exact hp

theorem stopAlive (h : Lasting I) (hs : I s.manager) (appId : Bytes) :
    Ends (s.stopAlive appId) (fun _ => True) fun p => I p.1.manager := by
  refine Ends.bind (h.aliveIs hs appId) fun p _ hp => ?_
  obtain ⟨alive, t⟩ := p
  dsimp only
  split
  · exact Ends.bind (h.doStop hp appId) fun _ _ hu => hu
  · exact hp
  · exact hp

theorem writeStatus (h : Lasting I) (hs : I s.manager) (appId : Bytes) :
    Ends (s.writeStatus appId) (fun _ => True) fun p => I p.1.manager := by
  refine Ends.bind (h.aliveIs hs appId) fun p _ hp => ?_
  obtain ⟨alive, t⟩ := p
  dsimp only
  split
  · cases t.manager.deref _ with
    | error f => trivial
    | ok a => exact hp
  · exact hp

theorem onPost (h : Lasting I) (hs : I s.manager) (appId authToken uuid : Bytes) (body : PostBody) :
    Ends (s.onPost appId authToken uuid body) (fun _ => True) fun p => I p.1.manager := by
  cases body with
  | empty => exact hs
  | rejected => exact hs
  | request type info =>
    have hjoin {t : Daemon} (ht : I t.manager) (token : Bytes) :
        Ends (t.launchOrJoin appId type info >>= fun p =>
          (.ok (p.1, if p.2 = 400 then .status p.2 else .token p.2 token) :
            Except Fault (Daemon × Reply))) (fun _ => True) fun p => I p.1.manager :=
      Ends.bind (h.launchOrJoin ht appId type info) fun _ _ hp => hp
    unfold Daemon.onPost
    dsimp only
    split
    · exact hs
    · split
      · refine Ends.bind (Kept.notify (s := { s with
          senderSessions_ := s.senderSessions_.insert uuid appId }) hs _) fun t _ ht => ?_
        exact hjoin ht uuid
      · exact hjoin hs authToken

theorem onDelete (h : Lasting I) (hs : I s.manager) (appId authToken : Bytes) (isInstance : Bool) :
    Ends (s.onDelete appId authToken isInstance) (fun _ => True)
      fun p => I p.1.manager := by
  unfold Daemon.onDelete
  split
  · exact hs
  · refine Ends.bind (Kept.disconnectSender hs authToken) fun t _ ht => ?_
    split
    · exact h.stopAlive ht appId
    · exact ht

theorem stopAndClose (h : Lasting I) (hs : I s.manager) (handler : Nat) (appId : Bytes) :
    Kept I (s.stopAndClose handler appId) :=
  (h.doStop hs appId).bind fun _ ht => Kept.close ht handler

theorem register (h : Lasting I) (hs : I s.manager) (handler app : Nat) (appId uuid : Bytes) :
    Kept I (s.register handler app appId uuid) := by
  refine (Kept.setSessionListender hs (some handler)).bind fun t ht => ?_
  unfold createReceiver
  cases t.receiverSession_ with
  | some session => exact Kept.close ht handler
  | none =>
    refine Ends.bind (h.started h.launchApplication ht) fun m _ hm => ?_
    exact (Kept.send (s := { t with receiverSession_ := _, manager := m }) hm handler _).bind
      fun u hu => Kept.send hu handler _

theorem onTypedMessage (h : Lasting I) (hs : I s.manager) (handler app : Nat)
    (appId uuid type : Bytes) {d : ReceiverMessage}
    (hd : d.additionaldata ≠ none → iequals type (str "additionaldata") = true → Rewritable I) :
    Kept I (s.onTypedMessage handler app appId uuid type d) := by
  unfold Daemon.onTypedMessage
  split
  · cases s.manager.deref app with
    | error f => trivial
    | ok a =>
      rw [ok_bind]
      split
      · exact h.register hs handler app appId uuid
      · exact h.stopAndClose hs handler appId
  · split
    · exact h.stopAndClose hs handler appId
    · split
      · rename_i htype
        split
        · exact hs
        · rename_i data hdata
          refine .takes (.read fun a => ?_) s
          exact hd (hdata ▸ Option.some_ne_none data) htype app data hs
      · split
        · trivial
        · exact hs

theorem onMessage (h : Lasting I) (hs : I s.manager) (handler : Nat) (uuid : Bytes)
    {d : Option ReceiverMessage} (hd : (Event.message handler uuid d).Says → Rewritable I) :
    Kept I (s.onMessage handler uuid d) := by
  unfold Daemon.onMessage
  split
  · exact hs
  · split
    · exact hs
    · refine Ends.bind (h.aliveIs hs _) fun p _ hp => ?_
      obtain ⟨alive, t⟩ := p
      dsimp only
      split
      · split
        · exact hp
        · split
          · exact hp
          · rename_i d _ type htype
            refine h.onTypedMessage hp handler _ _ uuid type fun hdata hsays => ?_
            exact hd ⟨hdata, type, htype, hsays⟩
      · exact hp
      · exact Kept.close hp handler

theorem closeApplication (h : Lasting I) {m : ApplicationManager} (hm : I m) (appId : Bytes) :
    Keeps I (Daemon.closeApplication m appId) := by
  have hstop {t : ApplicationManager} (ht : I t) (app : Nat) :
      Keeps I (t.stopped launchApplication app) := h.stopped h.launchApplication ht
  unfold Daemon.closeApplication
  dsimp only
  split
  · refine .bind (h.stopApplication h.launchApplication hm) fun u hu => ?_
    split
    · exact hstop hu _
    · exact hu
  · refine h.getAppId hm fun id t ht => ?_
    dsimp only
    split
    · exact hstop ht _
    · refine .bind (h.stopApplication h.launchApplication ht) fun u hu => ?_
      split
      · exact hstop hu _
      · exact hu

theorem onClose (h : Lasting I) (hs : I s.manager) (handler : Nat) :
    Kept I (s.onClose handler) := by
  unfold Daemon.onClose
  split
  · exact hs
  · rename_i r _
    have hdisconnect : I (s.disconnectReceiver r.appId).manager := by
      unfold disconnectReceiver
      split
      · split <;> exact hs
      · exact hs
    refine (Kept.setSessionListender hdisconnect none).bind fun t ht => ?_
    exact Ends.bind (h.closeApplication ht r.appId) fun _ _ hm => hm

theorem step (h : Lasting I) (hs : I s.manager) {e : Event} (he : e.Says → Rewritable I) :
    Kept I (s.step e) := by
  cases e with
  | get appId authToken =>
    refine Ends.map ?_
    unfold onGet
    split
    · exact hs
    · exact h.writeStatus hs appId
  | post appId authToken uuid body => exact Ends.map (h.onPost hs appId authToken uuid body)
  | delete appId authToken isInstance =>
    exact Ends.map (h.onDelete hs appId authToken isInstance)
  | dialGet appId => exact Ends.map (h.writeStatus hs appId)
  | dialPost appId data =>
    refine Ends.map ?_
    unfold onDialPost
    split
    · exact hs
    · exact Ends.bind (h.launchOrJoin hs appId _ _) fun _ _ hp => hp
  | dialDelete appId => exact Ends.map (h.stopAlive hs appId)
  | connect appId => exact hs
  | message handler uuid d => exact h.onMessage hs handler uuid he
  | closed handler => exact h.onClose hs handler
  | elapse app name => exact h.elapse hs name
  | expire app name => exact .takes (h.expire hs name) s
  | senderTimeout token => exact Kept.disconnectSender hs token
  | receiverTimeout token => exact Kept.onReceiverTimeout hs token

theorem run (h : Lasting I) (hs : I s.manager) {es : List Event}
    (hes : ∀ e ∈ es, e.Says → Rewritable I) : Kept I (s.run es) :=
  Ends.foldlM (I := fun t : Daemon => I t.manager) (fun _ e he ht => h.step ht (hes e he)) hs

end Lasting

end Daemon

/-! ### The data -/

namespace ApplicationManager
variable {m : ApplicationManager} {app : Nat}

def Known (m : ApplicationManager) : Prop := ∀ app, m.nextApp ≤ app → m.apps app = none

theorem modify_known {f : Application → Application} (hm : m.Known) : (m.modify app f).Known := by
  intro i hi
  unfold ApplicationManager.modify
  dsimp only
  rw [hm i hi]
  split <;> rfl

theorem known_lasting : Daemon.Lasting Known where
  frame hm happs hnext i hi := by rw [happs, hm i (hnext ▸ hi)]
  modify _ _ _ hm := modify_known hm
  newApplication appId info hm i hi := by
    rw [newApplication_apps appId info (Nat.lt_of_succ_le hi).ne', hm i (Nat.le_of_succ_le hi)]

theorem known_rewritable : Daemon.Rewritable Known := fun _ _ hm => modify_known hm

theorem made_lasting : Daemon.Lasting fun m => app < m.nextApp where
  frame hm _ hnext := hnext ▸ hm
  modify _ _ _ hm := hm
  newApplication _ _ hm := hm.trans (Nat.lt_succ_self _)

theorem made_rewritable : Daemon.Rewritable fun m => app < m.nextApp := fun _ _ hm => hm

structure Stores (app : Nat) (data : Bytes) (m : ApplicationManager) : Prop where
  made : app < m.nextApp
  data : (m.apps app).map (·.additionalData) = some data

theorem stores_lasting (app : Nat) (data : Bytes) : Daemon.Lasting (Stores app data) where
  frame hm happs hnext := ⟨hnext ▸ hm.made, happs ▸ hm.data⟩
  modify i f hf hm := by
    refine ⟨hm.made, ?_⟩
    rw [modify_apps]
    split
    · rw [Option.map_map, ← hm.data]
      exact congrArg (Option.map · (_)) (funext fun a => (hf a).additionalData)
    · exact hm.data
  newApplication appId info hm := by
    refine ⟨hm.made.trans (Nat.lt_succ_self _), ?_⟩
    rw [newApplication_apps appId info hm.made.ne]
    exact hm.data

/-- New data takes the place of what was there. -/
theorem update_stores {m' : ApplicationManager} (hmade : app < m.nextApp) {data : Bytes}
    (h : (m.update app fun a => { a with additionalData := data }) = .ok m') :
    m'.Stores app data := by
  obtain ⟨a, ha, h⟩ := bind_eq_ok.mp h
  cases h
  refine ⟨hmade, ?_⟩
  rw [modify_apps, if_pos rfl, (deref_ok.mp ha).1]
  rfl

end ApplicationManager
end Flingd.App
