import Flingd.App.Runs

/-! When no deleted application is used. An application is deleted in a slot that is cleared
later: where it was starting and stops at once, where the platform refuses it, and where it is
up at once while others wait. -/
namespace Flingd.App
open Outcome
namespace ApplicationManager
variable {m : ApplicationManager} {ph : Phase} {st : AppState} {q : List Nat} {app : Nat}

/-- No id was read of a deleted application, and no slot and no entry of the queue names one. -/
structure Intact (m : ApplicationManager) : Prop where
  unread : ∀ app, .stale app ∉ m.log
  named : ∀ app, (m.topApplication_ = some app ∨ m.startingApplication_ = some app ∨
    m.stoppingApplication_ = some app ∨ app ∈ m.penddingApplications_) →
    ∃ a, m.apps app = some a ∧ a.deleted = false

/-! ### The condition -/

def awaitsStop (m : ApplicationManager) : Bool :=
  match m.stoppingApplication_, m.topApplication_, m.startingApplication_ with
  | some _, _, _ => true
  | none, some app, _ => !m.stopsAtOnce app
  | none, none, some app => !m.stopsAtOnce app
  | none, none, none => false

/-- Nothing waits when a starting application stops at once. -/
def StopClean (m : ApplicationManager) : Prop :=
  m.stoppingApplication_ = none → m.topApplication_ = none →
    m.startingApplication_.any m.stopsAtOnce = true → m.penddingApplications_ = []

/-- A new application can be launched: the platform takes it, and it is not up at once while
others wait. -/
def Lands (m : ApplicationManager) (info : AppInfo) : Prop :=
  info.accepted = true ∧ (info.useIpc = true ∨ m.penddingApplications_ = [])

/-- So can the first application that waits. -/
def NextClean (m : ApplicationManager) : Prop :=
  ∀ app ∈ m.penddingApplications_.head?, m.accepts app = true ∧
    (m.usesIpc app = true ∨ m.penddingApplications_.tail = [])

instance : Decidable m.StopClean := inferInstanceAs (Decidable (_ → _ → _ → _ = _))

instance (info : AppInfo) : Decidable (m.Lands info) := inferInstanceAs (Decidable (_ ∧ _))

instance : Decidable m.NextClean := inferInstanceAs (Decidable (∀ app ∈ _, _))

end ApplicationManager

def Request.Clean (m : ApplicationManager) : Request → Prop
  | .nothing => True
  | .started _ => True
  | .stop => m.StopClean
  | .launch _ info => m.stoppingApplication_ = none → m.Lands info
  | .replace _ info => m.StopClean ∧ (m.awaitsStop = false → m.Lands info)
  | .close => m.StopClean ∧ (m.awaitsStop = true → m.NextClean)
  | .expire app name => ∀ a ∈ m.apps app, 0 < (a.timer name).due →
    a.deleted = false ∧ if name = .stop then m.NextClean else 0 < a.slots → m.StopClean

instance (m : ApplicationManager) : (req : Request) → Decidable (req.Clean m)
  | .nothing => isTrue trivial
  | .started _ => isTrue trivial
  | .stop => inferInstanceAs (Decidable m.StopClean)
  | .launch _ info => inferInstanceAs (Decidable (_ → m.Lands info))
  | .replace _ info => inferInstanceAs (Decidable (m.StopClean ∧ (_ → m.Lands info)))
  | .close => inferInstanceAs (Decidable (m.StopClean ∧ (_ → m.NextClean)))
  | .expire app name => inferInstanceAs (Decidable (∀ a ∈ m.apps app, 0 < (a.timer name).due →
    a.deleted = false ∧ if name = .stop then m.NextClean else 0 < a.slots → m.StopClean))

/-- The course leads somewhere, and no deleted application is in a slot or read meanwhile. -/
def Course.Clean (c : Course) : Prop :=
  ∃ ph q marks, c = some (ph, q, marks) ∧ (∀ app, ph ≠ .dangling app) ∧ ∀ app, .stale app ∉ marks

theorem Course.Clean.after {c : Course} {marks : List Mark} (h : c.Clean)
    (hm : ∀ app, .stale app ∉ marks) : (c.after marks).Clean := by
  obtain ⟨ph, q, k, rfl, hph, hk⟩ := h
  refine ⟨ph, q, marks ++ k, rfl, hph, fun app ha => ?_⟩
  exact (List.mem_append.mp ha).elim (hm app) (hk app)

namespace ApplicationManager
variable {m : ApplicationManager} {ph : Phase} {st : AppState} {q : List Nat} {app : Nat}

theorem landing_clean (ha : m.accepts app = true) (hq : m.usesIpc app = true ∨ q = []) :
    (m.landing app q).Clean := by
  unfold landing
  rw [if_pos ha]
  cases hi : m.usesIpc app with
  | true => exact ⟨_, _, _, rfl, by simp, by simp⟩
  | false =>
    have hq' : q = [] := hq.resolve_left (by simp [hi])
    rw [if_neg (by simp), if_pos hq']
    exact ⟨_, _, _, rfl, by simp, by simp⟩

theorem stopTo_clean (h : m.Shows ph st q) (hph : ∀ app, ph ≠ .dangling app) (hc : m.StopClean) :
    ∃ ph' marks, m.stopTo ph q = some (ph', q, marks) ∧ (∀ app, .stale app ∉ marks) ∧
      (m.awaitsStop = false → ph' = .idle) ∧ (m.awaitsStop = true → ∃ app, ph' = .stopping app) := by
  unfold StopClean at hc
  unfold awaitsStop
  rw [h.stopping, h.top, h.starting, h.queue] at hc
  rw [h.stopping, h.top, h.starting]
  cases ph with
  | idle => exact ⟨_, _, rfl, by simp, by simp, by simp [Phase.stoppingSlot, Phase.top, Phase.startingSlot]⟩
  | dangling app => exact absurd rfl (hph app)
  | stopping app => exact ⟨_, _, rfl, by simp, by simp [Phase.stoppingSlot], fun _ => ⟨app, rfl⟩⟩
  | running app =>
    simp only [Phase.stoppingSlot, Phase.top, stopTo]
    cases hs : m.stopsAtOnce app with
    | true => exact ⟨_, _, rfl, by simp, by simp, by simp⟩
    | false => exact ⟨_, _, rfl, by simp, by simp, fun _ => ⟨app, rfl⟩⟩
  | starting app =>
    simp only [Phase.stoppingSlot, Phase.top, Phase.startingSlot, stopTo]
    cases hs : m.stopsAtOnce app with
    | true =>
      obtain rfl : q = [] := hc rfl rfl (by simpa [Phase.startingSlot] using hs)
      exact ⟨_, _, rfl, by simp [settleMarks], by simp, by simp⟩
    | false => exact ⟨_, _, rfl, by simp, by simp, fun _ => ⟨app, rfl⟩⟩

theorem stoppedTo_clean (hq : m.penddingApplications_ = q) (hc : m.NextClean) :
    (m.stoppedTo app q).Clean := by
  unfold NextClean at hc
  rw [hq] at hc
  cases q with
  | nil => exact ⟨_, _, _, rfl, by simp, by simp⟩
  | cons next rest =>
    obtain ⟨hacc, hq⟩ := hc next rfl
    exact (landing_clean hacc hq).after (by simp)

theorem newApplication_lands {appId : Bytes} {info : AppInfo} (h : m.Lands info)
    (hq : m.penddingApplications_ = q) :
    ((m.newApplication appId info).landing m.nextApp q).Clean := by
  have hsig := signature_of_apps (newApplication_self (m := m) appId info)
  refine landing_clean (by simpa [accepts, hsig] using h.1) ?_
  rw [← hq]
  exact h.2.imp (fun hi => by simpa [usesIpc, hsig] using hi) id

end ApplicationManager

open ApplicationManager in
theorem Request.Clean.course {m : ApplicationManager} {ph : Phase} {q : List Nat}
    (h : m.Shows ph ph.state q) (hph : ∀ app, ph ≠ .dangling app) {req : Request}
    (hc : req.Clean m) (hlaunch : ∀ appId info, req = .launch appId info → ph.slot = ph.stoppingSlot) :
    (req.course m ph q).Clean := by
  have hsame : Course.Clean (some (ph, q, [])) := ⟨_, _, _, rfl, hph, by simp⟩
  cases req with
  | nothing => exact hsame
  | started app =>
    simp only [Request.course, startedTo]
    split
    · split
      · exact ⟨_, _, _, rfl, by simp, by simp⟩
      · exact ⟨_, _, _, rfl, by simp, by simp⟩
    · exact hsame
  | stop =>
    obtain ⟨ph', k, hto, hk, hidle, hstopping⟩ := stopTo_clean h hph hc
    refine ⟨ph', q, k, hto, fun app ha => ?_, hk⟩
    rcases stopTo_stopping hto with rfl | ⟨app', rfl⟩ <;> cases ha
  | launch appId info =>
    have hslot := hlaunch appId info rfl
    simp only [Request.course, launchTo]
    cases ph with
    | idle => exact newApplication_lands (hc (by rw [h.stopping]; rfl)) h.queue
    | stopping app => exact ⟨_, _, _, rfl, by simp, by simp⟩
    | _ => cases hslot
  | replace appId info =>
    obtain ⟨ph', k, hto, hk, hidle, hstopping⟩ := stopTo_clean h hph hc.1
    simp only [Request.course, replaceTo, hto, Course.next, Option.bind_some]
    cases ha : m.awaitsStop with
    | false =>
      rw [hidle ha]
      exact (newApplication_lands (hc.2 ha) h.queue).after hk
    | true =>
      obtain ⟨app, rfl⟩ := hstopping ha
      exact Course.Clean.after ⟨_, _, _, rfl, by simp, by simp⟩ hk
  | close =>
    obtain ⟨ph', k, hto, hk, hidle, hstopping⟩ := stopTo_clean h hph hc.1
    simp only [Request.course, closeTo, hto, Course.next, Option.bind_some]
    cases ha : m.awaitsStop with
    | false =>
      rw [hidle ha]
      exact Course.Clean.after ⟨_, _, _, rfl, by simp, by simp⟩ hk
    | true =>
      obtain ⟨app, rfl⟩ := hstopping ha
      exact (stoppedTo_clean h.queue (hc.2 ha)).after hk
  | expire app name =>
    simp only [Request.course, expireTo]
    cases ha : m.apps app with
    | none => exact hsame
    | some a =>
      simp only
      by_cases hdue : (a.timer name).due = 0
      · rw [if_pos hdue]
        exact hsame
      · obtain ⟨hd, hrest⟩ := hc a ha (by omega)
        rw [if_neg hdue, if_neg (by simp [hd])]
        by_cases hname : name = .stop
        · rw [if_pos hname] at hrest ⊢
          exact stoppedTo_clean h.queue hrest
        · rw [if_neg hname] at hrest ⊢
          split
          · exact hsame
          · obtain ⟨ph', k, hto, hk, -⟩ := stopTo_clean h hph (hrest (by omega))
            refine ⟨ph', q, k, hto, fun app ha => ?_, hk⟩
            rcases stopTo_stopping hto with rfl | ⟨app', rfl⟩ <;> cases ha

namespace Daemon
variable {s s' : Daemon} {ph : Phase} {q : List Nat}

/-- An application is launched outright only while no other is up or starting or waits. -/
theorem launch_requested (h : s.Sound ph q) {e : Event} {appId : Bytes} {info : AppInfo}
    (he : s.request e = .launch appId info) : ph.slot = ph.stoppingSlot ∧ q = [] := by
  have hasks := request_asks s e
  rw [he] at hasks
  cases hasks with
  | launch _ ha => exact alive_none h ha

def CleanSound (s : Daemon) : Prop :=
  ∃ ph q, s.Sound ph q ∧ (∀ app, ph ≠ .dangling app) ∧ ∀ app, .stale app ∉ s.manager.log

theorem CleanSound.intact (h : s.CleanSound) : s.manager.Intact := by
  obtain ⟨ph, q, hs, hph, hlog⟩ := h
  refine ⟨hlog, fun app happ => ?_⟩
  have hslot (hsl : ph.slot = some app) : ∃ a, s.manager.apps app = some a ∧ a.deleted = false := by
    have hfits := hs.shows.fits
    cases ph with
    | idle => cases hsl
    | dangling p => exact absurd rfl (hph p)
    | _ p =>
      cases hsl
      obtain ⟨a, ha, hd, -⟩ := hfits
      exact ⟨a, ha, hd⟩
  rw [hs.shows.top, hs.shows.starting, hs.shows.stopping, hs.shows.queue] at happ
  rcases happ with h | h | h | h
  · exact hslot (by cases ph <;> cases h; rfl)
  · exact hslot (by cases ph <;> cases h <;> rfl)
  · exact hslot (by cases ph <;> cases h; rfl)
  · obtain ⟨a, ha, hd, -⟩ := hs.shows.waits.2 app h
    exact ⟨a, ha, hd⟩

theorem step_clean {e : Event} (h : s.CleanSound) (hc : (s.request e).Clean s.manager) :
    Ends (s.step e) (· ≠ .freed) CleanSound := by
  obtain ⟨ph, q, hs, hph, hlog⟩ := h
  obtain ⟨ph', q', marks, hto, hph', hmarks⟩ :=
    Request.Clean.course hs.shows hph hc fun _ _ he => (launch_requested hs he).1
  have hends := step_ends hs e
  rw [hto] at hends
  cases hstep : s.step e with
  | error f =>
    have hf := hends.of_error hstep
    rintro rfl
    rcases hf with hf | hf | ⟨-, hf | ⟨app, hf⟩⟩
    · cases hf
    · cases hf
    · cases hf
    · exact hph app hf
  | ok s' =>
    have hquiet := Request.course_quiet (m := s.manager) hs.quiet (s.request e)
    rw [hto] at hquiet
    obtain ⟨k, ph'', q'', marks', he, hk, htook, hs'⟩ := (hends.of_ok hstep).sound hquiet
    cases he
    refine ⟨ph', q', hs', hph', fun app ha => ?_⟩
    rw [htook.log] at ha
    rcases List.mem_append.mp ha with ha | ha
    · exact hlog app ha
    · rcases List.mem_append.mp ha with ha | ha
      · obtain ⟨app', hd, -⟩ := hk _ ha
        exact hph app' hd
      · exact hmarks app ha

/-- While every request is clean no deleted application is used. -/
theorem run_intact {es : List Event}
    (h : Meets step (fun s e => (s.request e).Clean s.manager) start es) :
    start.run es ≠ .error .freed ∧ ∀ s, start.run es = .ok s → s.manager.Intact := by
  have hrun : Ends (start.run es) (· ≠ .freed) CleanSound :=
    h.ends (fun s e hs he => step_clean hs he) ⟨_, _, start_sound, by simp, by simp [start,
      ApplicationManager.start]⟩
  exact ⟨fun he => hrun.of_error he rfl, fun s hs => (hrun.of_ok hs).intact⟩

def registered : List Event :=
  [.launch (str "~a") (str "http://a") true, .connect (str "~a"), .register 0 (str "~a")]

/-- `~b` waits until `~a` has stopped. -/
def queuedSecond : List Event :=
  registered ++ [.post (str "~b") [] (str "second") (.request (str "launch") ⟨str "http://b", true, -1⟩)]

/-- `~a` is deleted when its receiver goes, and `~b` is launched. -/
theorem run_intact_second : start.run (queuedSecond ++ [.closed 0]) ≠ .error .freed ∧
    ∀ s, start.run (queuedSecond ++ [.closed 0]) = .ok s → s.manager.Intact :=
  run_intact (by decide +kernel)

theorem registered_ok : ∃ s, start.run registered = .ok s := by
  obtain ⟨s, hs, -⟩ := yields_iff.mp (show yields (start.run registered) (fun _ => true) = true by
    decide +kernel)
  exact ⟨s, hs⟩

/-- The status of an application that the platform refused is read after it is deleted. -/
theorem refused_launch_freed :
    start.run [.launch (str "~a") (str "ftp://a") true, .get (str "~a") []] = .error .freed := by
  rfl

end Daemon
end Flingd.App
