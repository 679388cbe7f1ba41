import Flingd.App.Queue

/-! What the close of a receiver's websocket does to applications and registrations of others.
`stopApplicationByAppId` does not look at its argument, and the listener is taken away whoever
it is. -/
namespace Flingd.App
open Outcome
namespace ApplicationManager
variable {m : ApplicationManager} {ph : Phase} {st : AppState} {q : List Nat}

def target (m : ApplicationManager) : Option Nat :=
  match m.stoppingApplication_, m.topApplication_ with
  | some app, _ => some app
  | none, some app => some app
  | none, none => m.startingApplication_

theorem Shows.target (h : m.Shows ph st q) : m.target = ph.slot := by
  unfold ApplicationManager.target
  rw [h.stopping, h.top, h.starting]
  cases ph <;> rfl

/-- The first application that waits is not one that is up at once while others wait. -/
def NextLands (m : ApplicationManager) : Prop :=
  ∀ app ∈ m.penddingApplications_.head?, m.accepts app = true →
    m.usesIpc app = true ∨ m.penddingApplications_.tail = []

/-- The marks of a stop: the application is told to stop, or its stop is complete. -/
def Stops (marks : List Mark) (app : Nat) : Prop :=
  .stopping app ∈ marks ∨ .stopped app (some app) ∈ marks

theorem landing_stops {app i : Nat} : (m.landing app q).Sat fun _ _ marks => ¬ Stops marks i := by
  unfold landing
  split
  · split
    · exact Course.sat_some.mpr (by simp [Stops])
    · split
      · exact Course.sat_some.mpr (by simp [Stops])
      · exact Course.sat_none
  · refine Course.sat_some.mpr ?_
    cases q with
    | nil => simp [Stops, settleMarks]
    | cons next rest =>
      simp only [settleMarks, queuedMarks]
      split <;> simp [Stops]

theorem settleMarks_stops {app i : Nat} : ¬ Stops (m.settleMarks app q) i := by
  cases q with
  | nil => simp [Stops, settleMarks]
  | cons next rest =>
    simp only [settleMarks, queuedMarks]
    split <;> simp [Stops]

theorem Stops.append {marks marks' : List Mark} {i : Nat} :
    Stops (marks ++ marks') i ↔ Stops marks i ∨ Stops marks' i := by
  simp only [Stops, List.mem_append]
  tauto

theorem stoppedTo_stops {app i : Nat} :
    (m.stoppedTo app q).Sat fun _ _ marks => Stops marks i ↔ i = app := by
  cases q with
  | nil => exact Course.sat_some.mpr (by simp [Stops])
  | cons next rest =>
    refine Course.Sat.after ((landing_stops (i := i)).mono fun _ _ marks hm => ?_)
    rw [Stops.append]
    simp [hm]
    simp [Stops]

/-- A close stops the target, and nothing else. -/
theorem closeTo_stops {i : Nat} :
    (m.closeTo ph q).Sat fun _ _ marks => Stops marks i ↔ ph.slot = some i := by
  cases ph with
  | idle => exact Course.sat_some.mpr (by simp [Stops, Phase.slot])
  | dangling app => exact Course.sat_none
  | stopping app =>
    rw [closeTo_stopping]
    exact stoppedTo_stops.mono fun _ _ _ hm => hm.trans (by simp [Phase.slot, eq_comm])
  | running app =>
    simp only [closeTo, stopTo]
    cases m.stopsAtOnce app with
    | true => exact Course.sat_some.mpr (by simp [Stops, Phase.slot, eq_comm])
    | false =>
      refine Course.Sat.after ((stoppedTo_stops (i := i)).mono fun _ _ _ hm => ?_)
      rw [Stops.append, hm]
      simp [Stops, Phase.slot, eq_comm]
  | starting app =>
    simp only [closeTo, stopTo]
    cases m.stopsAtOnce app with
    | true =>
      refine Course.sat_some.mpr ?_
      rw [Stops.append, Stops.append]
      simp [settleMarks_stops]
      simp [Stops, Phase.slot, eq_comm]
    | false =>
      refine Course.Sat.after ((stoppedTo_stops (i := i)).mono fun _ _ _ hm => ?_)
      rw [Stops.append, hm]
      simp [Stops, Phase.slot, eq_comm]

theorem landing_eq_none {app : Nat} : m.landing app q = none ↔
    m.accepts app = true ∧ m.usesIpc app = false ∧ q ≠ [] := by
  unfold landing
  cases m.accepts app <;> cases m.usesIpc app <;> by_cases hq : q = [] <;> simp [hq]

theorem stoppedTo_ne_none {app : Nat} (hq : m.penddingApplications_ = q) :
    m.stoppedTo app q ≠ none ↔ m.NextLands := by
  unfold NextLands
  rw [hq]
  cases q with
  | nil => simp [stoppedTo]
  | cons next rest =>
    have hmap (c : Course) (k : List Mark) : c.after k = none ↔ c = none := by
      cases c <;> simp [Course.after]
    simp only [stoppedTo, ne_eq, hmap, landing_eq_none, List.head?_cons, Option.mem_some_iff,
      forall_eq', List.tail_cons]
    cases m.accepts next <;> cases m.usesIpc next <;> simp

/-- A close comes to its end unless the target is deleted, or what is launched next is. -/
theorem closeTo_ne_none (h : m.Shows ph st q) : m.closeTo ph q ≠ none ↔
    (∀ app, ph ≠ .dangling app) ∧ (m.awaitsStop = true → m.NextLands) := by
  have hmap (c : Course) (k : List Mark) : c.after k = none ↔ c = none := by
    cases c <;> simp [Course.after]
  unfold awaitsStop
  rw [h.stopping, h.top, h.starting]
  cases ph with
  | idle => simp [closeTo, stopTo, Course.next, finishTo, Course.after, Phase.stoppingSlot, Phase.top,
      Phase.startingSlot]
  | dangling app => simp [closeTo, stopTo, Course.next]
  | stopping app =>
    rw [closeTo_stopping, stoppedTo_ne_none h.queue]
    simp [Phase.stoppingSlot]
  | running app =>
    have hnext : m.stoppedTo app q ≠ none ↔ m.NextLands := stoppedTo_ne_none h.queue
    simp only [closeTo, stopTo, Phase.stoppingSlot, Phase.top]
    cases m.stopsAtOnce app with
    | true => simp [Course.next, finishTo, Course.after]
    | false => simpa [Course.next, finishTo, hmap] using hnext
  | starting app =>
    have hnext : m.stoppedTo app q ≠ none ↔ m.NextLands := stoppedTo_ne_none h.queue
    simp only [closeTo, stopTo, Phase.stoppingSlot, Phase.top, Phase.startingSlot]
    cases m.stopsAtOnce app with
    | true => simp [Course.next, finishTo, Course.after]
    | false => simpa [Course.next, finishTo, hmap] using hnext

/-- The application in the slot is deleted only in the phase that says so. -/
theorem Shows.slot_live (h : m.Shows ph st q) {app : Nat} {a : Application}
    (hs : ph.slot = some app) (ha : m.apps app = some a) :
    a.deleted = false ↔ ∀ i, ph ≠ .dangling i := by
  have hlive (p : Application → Prop) (hl : m.Live app p) : a.deleted = false := by
    obtain ⟨a', ha', hd, -⟩ := hl
    rw [ha] at ha'
    cases ha'
    exact hd
  have hfits := h.fits
  cases ph with
  | idle => cases hs
  | dangling i =>
    cases hs
    obtain ⟨a', ha', hd, -⟩ := hfits
    rw [ha] at ha'
    cases ha'
    simp [hd]
  | _ =>
    cases hs
    simpa using hlive _ hfits

end ApplicationManager

namespace Daemon
variable {s s' : Daemon} {ph : Phase} {q : List Nat} {handler : Nat}
variable {r : ReceiverApplicationHandler}

/-- The close of the handler's websocket stops no application of another id, and takes no
listener and no receiver session away that another live handler has registered. -/
def CloseSpares (s : Daemon) (handler : Nat) (appId : Bytes) : Prop :=
  ∃ s', s.step (.closed handler) = .ok s' ∧
    (∀ marks, s'.manager.log = s.manager.log ++ marks → ∀ app,
      ApplicationManager.Stops marks app → s.manager.idOf app = some appId) ∧
    (∀ l, s.sessionListener_ = some l → l ≠ handler → s'.sessionListener_ = some l) ∧
    ∀ session, s.receiverSession_ = some session →
      session.appId ≠ appId ∨ session.handler ≠ handler ∧ s.handlers session.handler ≠ none →
        s'.receiverSession_ = some session

/-- What a close does, the manager apart. -/
theorem onClose_ok (hr : s.handlers handler = some r) :
    s.onClose handler = .ok s' ↔ ∃ m, closeApplication s.manager r.appId = .ok m ∧
      s' = { s.disconnectReceiver r.appId with
        manager := m, sessionListener_ := none
        handlers := fun i => if i = handler then none else s.handlers i } := by
  have hm : (s.disconnectReceiver r.appId).manager = s.manager ∧
      (s.disconnectReceiver r.appId).handlers = s.handlers := by
    unfold disconnectReceiver
    split
    · split <;> exact ⟨rfl, rfl⟩
    · exact ⟨rfl, rfl⟩
  simp only [onClose, hr, setSessionListender, ok_bind, hm.1, bind_eq_ok, setHandler, hm.2,
    Except.ok.injEq]
  exact exists_congr fun m => and_congr_right fun _ => eq_comm

theorem disconnectReceiver_session (s : Daemon) (appId : Bytes) (session : ReceiverSession) :
    (s.disconnectReceiver appId).receiverSession_ = some session ↔
      s.receiverSession_ = some session ∧ session.appId ≠ appId := by
  unfold disconnectReceiver
  cases hr : s.receiverSession_ with
  | none => simp [hr]
  | some r =>
    simp only [Option.some.injEq]
    by_cases h : appId = r.appId
    · rw [if_pos h]
      constructor
      · intro h'
        cases h'
      · rintro ⟨rfl, h'⟩
        exact absurd h.symm h'
    · rw [if_neg h, hr, Option.some.injEq]
      constructor
      · rintro rfl
        exact ⟨rfl, fun h' => h h'.symm⟩
      · exact And.left

/-- When the close of a websocket leaves alone what is not its own. -/
theorem close_spares_iff {es : List Event} (hrun : start.run es = .ok s)
    (hr : s.handlers handler = some r) :
    s.CloseSpares handler r.appId ↔
      (∀ app ∈ s.manager.target, ∃ a, s.manager.apps app = some a ∧ a.deleted = false ∧
        a.appId = r.appId) ∧
      (s.manager.awaitsStop = true → s.manager.NextLands) ∧
      (∀ l ∈ s.sessionListener_, l = handler) ∧
      ∀ session ∈ s.receiverSession_, session.appId = r.appId →
        session.handler = handler ∨ s.handlers session.handler = none := by
  obtain ⟨ph, q, hs⟩ := run_sound hrun
  have hleads := ApplicationManager.close_leads r.appId hs.shows hs.quiet
  have hne := ApplicationManager.closeTo_ne_none hs.shows
  have hid {app : Nat} {a : Application} (ha : s.manager.apps app = some a) :
      s.manager.idOf app = some r.appId ↔ a.appId = r.appId := by
    rw [ApplicationManager.idOf_of_apps ha, Option.some_inj]
  rw [hs.shows.target]
  constructor
  · rintro ⟨s', hstep, hmarks, hlistener, hsession⟩
    obtain ⟨m, hm, rfl⟩ := (onClose_ok hr).mp hstep
    rcases hc : s.manager.closeTo ph q with - | ⟨ph', q', marks⟩
    · rw [hc] at hleads
      rw [show closeApplication s.manager r.appId = .error .freed from hleads] at hm
      cases hm
    · obtain ⟨hdangling, hnext⟩ := hne.mp (by simp [hc])
      rw [hc] at hleads
      obtain ⟨m', hm', hbecame⟩ := hleads
      rw [hm] at hm'
      cases hm'
      refine ⟨fun app happ => ?_, hnext, fun l hl => ?_, fun session hse hid' => ?_⟩
      · have hstops := (ApplicationManager.closeTo_stops (i := app) ph' q' marks hc).mpr happ
        obtain ⟨a, ha, -⟩ := hs.shows.slot_apps happ
        exact ⟨a, ha, (hs.shows.slot_live happ ha).mpr hdangling,
          (hid ha).mp (hmarks marks hbecame.log app hstops)⟩
      · by_contra hne
        have := hlistener l hl hne
        cases this
      · by_contra hnot
        push Not at hnot
        have := hsession session hse (.inr hnot)
        exact ((disconnectReceiver_session s r.appId session).mp this).2 hid'
  · rintro ⟨htarget, hnext, hlistener, hsession⟩
    have hdangling (i : Nat) : ph ≠ .dangling i := by
      rintro rfl
      obtain ⟨a, ha, hd, -⟩ := htarget i rfl
      exact (hs.shows.slot_live rfl ha).mp hd i rfl
    rcases hc : s.manager.closeTo ph q with - | ⟨ph', q', marks⟩
    · exact absurd hc (hne.mpr ⟨hdangling, hnext⟩)
    · rw [hc] at hleads
      obtain ⟨m, hm, hbecame⟩ := hleads
      refine ⟨_, (onClose_ok hr).mpr ⟨m, hm, rfl⟩, fun marks' hmarks app hstops => ?_,
        fun l hl hne => absurd (hlistener l hl) hne, fun session hse hother => ?_⟩
      · have hlog : s.manager.log ++ marks' = s.manager.log ++ marks := hmarks.symm.trans hbecame.log
        obtain rfl := List.append_cancel_left hlog
        have happ := (ApplicationManager.closeTo_stops (i := app) ph' q' marks' hc).mp hstops
        obtain ⟨a, ha, -, hx⟩ := htarget app happ
        exact (hid ha).mpr hx
      · refine (disconnectReceiver_session s r.appId session).mpr ⟨hse, fun hx => ?_⟩
        rcases hother with hother | ⟨hother, hthere⟩
        · exact hother hx
        · exact (hsession session hse hx).elim hother hthere

/-- The close of the receiver that registered. -/
theorem close_spares_registered :
    ∃ s, start.run registered = .ok s ∧ s.CloseSpares 0 (str "~a") := by
  obtain ⟨s, hs, h⟩ := yields_iff.mp (show yields (start.run registered) (fun s =>
    (s.handlers 0).map (·.appId) = some (str "~a") ∧ s.manager.stoppingApplication_ = none ∧
      s.manager.topApplication_ = some 0 ∧
      (s.manager.apps 0).any (fun a => a.deleted = false ∧ a.appId = str "~a") ∧
      s.manager.penddingApplications_ = [] ∧ s.sessionListener_ = some 0 ∧
      s.receiverSession_ = some ⟨str "receiver", str "~a", 0⟩) = true by decide +kernel)
  obtain ⟨hr, hstopping, htop, ha, hqueue, hlistener, hsession⟩ := of_decide_eq_true h
  obtain ⟨r, hr, hid⟩ := Option.map_eq_some_iff.mp hr
  obtain ⟨a, ha, hd, hx⟩ : ∃ a, s.manager.apps 0 = some a ∧ a.deleted = false ∧ a.appId = str "~a" := by
    simpa [Option.any_eq_true] using ha
  refine ⟨s, hs, hid ▸ (close_spares_iff hs hr).mpr ⟨?_, ?_, ?_, ?_⟩⟩
  · simp only [ApplicationManager.target, hstopping, htop]
    rintro app ⟨⟩
    exact ⟨a, ha, hd, by rw [hx, hid]⟩
  · intro _ app happ
    rw [hqueue] at happ
    cases happ
  · rw [hlistener]
    rintro l ⟨⟩
    rfl
  · rw [hsession]
    rintro session ⟨⟩ -
    exact .inl rfl

/-- A websocket that never registered is closed while `~a` runs: `~a` is told to stop, and
its receiver is no longer listened to. -/
theorem close_meddles : ∃ s, start.run (registered ++ [.connect (str "~b")]) = .ok s ∧
    (s.handlers 1).map (·.appId) = some (str "~b") ∧ ¬ s.CloseSpares 1 (str "~b") := by
  obtain ⟨s, hs, h⟩ := yields_iff.mp (show yields (start.run (registered ++ [.connect (str "~b")]))
    (fun s => (s.handlers 1).map (·.appId) = some (str "~b") ∧ s.sessionListener_ = some 0) = true by
      decide +kernel)
  obtain ⟨hid, hlistener⟩ := of_decide_eq_true h
  refine ⟨s, hs, hid, ?_⟩
  rintro ⟨s', hstep, -, hkept, -⟩
  obtain ⟨r, hr, -⟩ := Option.map_eq_some_iff.mp hid
  obtain ⟨m, -, rfl⟩ := (onClose_ok hr).mp hstep
  cases hkept 0 hlistener (by decide)

end Daemon
end Flingd.App
