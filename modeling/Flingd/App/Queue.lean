import Flingd.App.Deleted

/-! When something waits, something is under way that will take the queue forward. The first
entry can miss its turn: it is launched next to an application that was just deleted, whose
slot is cleared only after that. -/
namespace Flingd.App
open Outcome
namespace ApplicationManager
variable {m : ApplicationManager} {ph : Phase} {st : AppState} {q : List Nat} {app : Nat}

/-- While an application waits, one is starting or stopping. -/
def Served (m : ApplicationManager) : Prop :=
  m.penddingApplications_ ≠ [] → ∃ app a,
    (m.startingApplication_ = some app ∨ m.stoppingApplication_ = some app) ∧
      m.apps app = some a ∧ a.deleted = false

/-! ### The condition -/

def settled (m : ApplicationManager) : List Nat :=
  match m.stoppingApplication_, m.topApplication_, m.startingApplication_ with
  | none, none, some app =>
    if m.stopsAtOnce app then m.settle app m.penddingApplications_ else m.penddingApplications_
  | _, _, _ => m.penddingApplications_

/-- Nothing is left in the queue where a stop leaves no application. -/
def StopServes (m : ApplicationManager) : Prop := m.awaitsStop = false → m.settled = []

/-- The platform takes the first application that waits, or nothing is left behind it. -/
def NextServes (m : ApplicationManager) : Prop :=
  ∀ app ∈ m.penddingApplications_.head?,
    m.accepts app = true ∨ m.settle app m.penddingApplications_.tail = []

instance : Decidable m.StopServes := inferInstanceAs (Decidable (_ → _ = _))

instance : Decidable m.NextServes := inferInstanceAs (Decidable (∀ app ∈ _, _))

end ApplicationManager

def Request.Serves (m : ApplicationManager) : Request → Prop
  | .nothing => True
  | .started _ => True
  | .stop => m.StopServes
  | .launch _ _ => True
  | .replace appId info => m.awaitsStop = false → info.accepted = true ∨
    (m.newApplication appId info).settle m.nextApp m.settled = []
  | .close => m.StopServes ∧ (m.awaitsStop = true → m.NextServes)
  | .expire app name => ∀ a ∈ m.apps app, 0 < (a.timer name).due → a.deleted = false →
    if name = .stop then m.NextServes else 0 < a.slots → m.StopServes

instance (m : ApplicationManager) : (req : Request) → Decidable (req.Serves m)
  | .nothing => isTrue trivial
  | .started _ => isTrue trivial
  | .stop => inferInstanceAs (Decidable m.StopServes)
  | .launch _ _ => isTrue trivial
  | .replace appId info => inferInstanceAs (Decidable (_ → _ ∨
    (m.newApplication appId info).settle m.nextApp m.settled = []))
  | .close => inferInstanceAs (Decidable (m.StopServes ∧ (_ → m.NextServes)))
  | .expire app name => inferInstanceAs (Decidable (∀ a ∈ m.apps app, 0 < (a.timer name).due →
    a.deleted = false → if name = .stop then m.NextServes else 0 < a.slots → m.StopServes))

namespace ApplicationManager
variable {m : ApplicationManager} {ph : Phase} {st : AppState} {q : List Nat} {app : Nat}

/-- The queue is empty unless an application is starting or stopping. -/
def Flows (ph : Phase) (q : List Nat) : Prop :=
  (∀ app, ph ≠ .starting app) → (∀ app, ph ≠ .stopping app) → q = []

theorem landing_flows (h : m.accepts app = true ∨ m.settle app q = []) :
    (m.landing app q).Sat fun ph q _ => Flows ph q := by
  unfold landing
  split
  · split
    · exact Course.sat_some.mpr fun hs _ => absurd rfl (hs app)
    · split
      · exact Course.sat_some.mpr fun _ _ => rfl
      · exact Course.sat_none
  · rename_i hacc
    exact Course.sat_some.mpr fun _ _ => h.resolve_left hacc

/-- A stop leads to an application that is waited for, or to no application at all. -/
theorem stopTo_settled (h : m.Shows ph st q) : (m.stopTo ph q).Sat fun ph' q' _ =>
    (m.awaitsStop = true ∧ (∃ app, ph' = .stopping app) ∧ q' = q) ∨
      (m.awaitsStop = false ∧ ph' = .idle ∧ q' = m.settled) := by
  unfold awaitsStop settled
  rw [h.stopping, h.top, h.starting, h.queue]
  cases ph with
  | idle => exact Course.sat_some.mpr (.inr ⟨rfl, rfl, rfl⟩)
  | dangling app => exact Course.sat_none
  | stopping app => exact Course.sat_some.mpr (.inl ⟨rfl, ⟨app, rfl⟩, rfl⟩)
  | running app =>
    simp only [Phase.stoppingSlot, Phase.top, stopTo]
    cases m.stopsAtOnce app with
    | true => exact Course.sat_some.mpr (.inr ⟨rfl, rfl, rfl⟩)
    | false => exact Course.sat_some.mpr (.inl ⟨rfl, ⟨app, rfl⟩, rfl⟩)
  | starting app =>
    simp only [Phase.stoppingSlot, Phase.top, Phase.startingSlot, stopTo]
    cases m.stopsAtOnce app with
    | true => exact Course.sat_some.mpr (.inr ⟨rfl, rfl, rfl⟩)
    | false => exact Course.sat_some.mpr (.inl ⟨rfl, ⟨app, rfl⟩, rfl⟩)

theorem stopTo_flows (h : m.Shows ph st q) (hc : m.StopServes) :
    (m.stopTo ph q).Sat fun ph q _ => Flows ph q := by
  refine (stopTo_settled h).mono fun ph' q' _ hto _ hs => ?_
  rcases hto with ⟨-, ⟨app, rfl⟩, -⟩ | ⟨ha, -, rfl⟩
  · exact absurd rfl (hs app)
  · exact hc ha

theorem stoppedTo_flows (hq : m.penddingApplications_ = q) (hc : m.NextServes) :
    (m.stoppedTo app q).Sat fun ph q _ => Flows ph q := by
  unfold NextServes at hc
  rw [hq] at hc
  cases q with
  | nil => exact Course.sat_some.mpr fun _ _ => rfl
  | cons next rest => exact (landing_flows (hc next rfl)).after

theorem closeTo_flows (h : m.Shows ph st q) (hstop : m.StopServes)
    (hnext : m.awaitsStop = true → m.NextServes) :
    (m.closeTo ph q).Sat fun ph q _ => Flows ph q := by
  refine (stopTo_settled h).next fun ph' q' _ hto => ?_
  rcases hto with ⟨ha, ⟨app, rfl⟩, rfl⟩ | ⟨ha, rfl, rfl⟩
  · exact stoppedTo_flows h.queue (hnext ha)
  · exact Course.sat_some.mpr fun _ _ => hstop ha

theorem replaceTo_flows {appId : Bytes} {info : AppInfo} (h : m.Shows ph st q)
    (hc : m.awaitsStop = false → info.accepted = true ∨
      (m.newApplication appId info).settle m.nextApp m.settled = []) :
    (m.replaceTo appId info ph q).Sat fun ph q _ => Flows ph q := by
  have hsig := signature_of_apps (newApplication_self (m := m) appId info)
  refine (stopTo_settled h).next fun ph' q' _ hto => ?_
  rcases hto with ⟨ha, ⟨app, rfl⟩, rfl⟩ | ⟨ha, rfl, rfl⟩
  · exact Course.sat_some.mpr fun _ hs => absurd rfl (hs app)
  · exact landing_flows ((hc ha).imp (fun hi => by simpa [accepts, hsig] using hi) id)

theorem flows_served (h : m.Shows ph st q) (hf : Flows ph q) : m.Served := by
  unfold Served
  rw [h.queue, h.starting, h.stopping]
  intro hq
  have hfits := h.fits
  cases ph with
  | starting app =>
    obtain ⟨a, ha, hd, -⟩ := hfits
    exact ⟨app, a, .inl rfl, ha, hd⟩
  | stopping app =>
    obtain ⟨a, ha, hd, -⟩ := hfits
    exact ⟨app, a, .inr rfl, ha, hd⟩
  | _ => exact absurd (hf (by simp) (by simp)) hq

end ApplicationManager

open ApplicationManager in
theorem Request.Serves.course {m : ApplicationManager} {ph : Phase} {q : List Nat}
    (h : m.Shows ph ph.state q) (hf : Flows ph q) {req : Request} (hc : req.Serves m)
    (hlaunch : ∀ appId info, req = .launch appId info → ph.slot = ph.stoppingSlot) :
    (req.course m ph q).Sat fun ph q _ => Flows ph q := by
  have hsame : Course.Sat (some (ph, q, [])) fun ph q _ => Flows ph q := Course.sat_some.mpr hf
  cases req with
  | nothing => exact hsame
  | stop => exact stopTo_flows h hc
  | replace appId info => exact replaceTo_flows h hc
  | close => exact closeTo_flows h hc.1 hc.2
  | started app =>
    simp only [Request.course, startedTo]
    split
    · split
      · exact Course.sat_some.mpr fun _ _ => rfl
      · exact Course.sat_some.mpr fun _ hs => absurd rfl (hs app)
    · exact hsame
  | launch appId info =>
    have hslot := hlaunch appId info rfl
    simp only [Request.course, launchTo]
    cases ph with
    | idle =>
      obtain rfl := hf (by simp) (by simp)
      exact landing_flows (.inr rfl)
    | stopping app => exact Course.sat_some.mpr fun _ hs => absurd rfl (hs app)
    | _ => cases hslot
  | expire app name =>
    simp only [Request.course, expireTo]
    cases ha : m.apps app with
    | none => exact hsame
    | some a =>
      simp only
      by_cases hdue : (a.timer name).due = 0
      · rw [if_pos hdue]
        exact hsame
      · rw [if_neg hdue]
        cases hd : a.deleted with
        | true => exact Course.sat_none
        | false =>
          have hrest := hc a ha (by omega) hd
          rw [if_neg (by simp)]
          by_cases hname : name = .stop
          · rw [if_pos hname] at hrest ⊢
            exact stoppedTo_flows h.queue hrest
          · rw [if_neg hname] at hrest ⊢
            split
            · exact hsame
            · exact stopTo_flows h (hrest (by omega))

namespace Daemon
variable {s s' : Daemon} {ph : Phase} {q : List Nat}

/-- What every step keeps that meets a condition, every run keeps whose steps meet it. -/
theorem run_keeps {P : Daemon → Event → Prop} {I : Daemon → Phase → List Nat → Prop}
    (hstart : I start .idle []) (hstep : ∀ s s' ph q e k ph' q' marks, s.Sound ph q → I s ph q →
      P s e → (s.request e).course s.manager ph q = some (ph', q', marks) → Stale ph k →
      s.manager.Took s'.manager ph' q' (k ++ marks) → s'.Sound ph' q' → I s' ph' q')
    {es : List Event} (h : Meets step P start es) (hrun : start.run es = .ok s) :
    ∃ ph q, s.Sound ph q ∧ I s ph q := by
  refine (h.ends (F := fun _ => True) (I := fun s => ∃ ph q, s.Sound ph q ∧ I s ph q) ?_
    ⟨_, _, start_sound, hstart⟩).of_ok hrun
  rintro s e ⟨ph, q, hs, hi⟩ he
  cases hse : s.step e with
  | error f => trivial
  | ok s' =>
    obtain ⟨k, ph', q', marks, hc, hk, htook, hs'⟩ := step_follows hs hse
    exact ⟨ph', q', hs', hstep s s' ph q e k ph' q' marks hs hi he hc hk htook hs'⟩

/-- While every request serves the queue, no launch gets stuck in it. -/
theorem run_served {es : List Event}
    (h : Meets step (fun s e => (s.request e).Serves s.manager) start es)
    (hrun : start.run es = .ok s) : s.manager.Served := by
  obtain ⟨ph, q, hs, hf⟩ := run_keeps (I := fun _ ph q => ApplicationManager.Flows ph q) (fun _ _ => rfl)
    (fun s s' ph q e k ph' q' marks hs hf he hc _ _ _ =>
      Request.Serves.course hs.shows hf he (fun _ _ hl => (launch_requested hs hl).1) ph' q' marks hc)
    h hrun
  exact ApplicationManager.flows_served hs.shows hf

/-- `~b` waits while `~a` stops, and is launched after it. -/
theorem run_served_second : ∃ s s', start.run queuedSecond = .ok s ∧
    s.manager.penddingApplications_ = [1] ∧ s.manager.Served ∧
    start.run (queuedSecond ++ [.closed 0]) = .ok s' ∧
    s'.manager.startingApplication_ = some 1 ∧ s'.manager.Served := by
  obtain ⟨s, hs, hqueue⟩ := yields_iff.mp (show yields (start.run queuedSecond)
    (fun s => s.manager.penddingApplications_ = [1]) = true by decide +kernel)
  obtain ⟨s', hs', hstarting⟩ := yields_iff.mp (show yields (start.run (queuedSecond ++ [.closed 0]))
    (fun s => s.manager.startingApplication_ = some 1) = true by decide +kernel)
  exact ⟨s, s', hs, of_decide_eq_true hqueue, run_served (by decide +kernel) hs, hs',
    of_decide_eq_true hstarting, run_served (by decide +kernel) hs'⟩

/-- The start of `~b` is given up while `~c` waits. -/
def givenUp : List Event :=
  registered ++ [.launch (str "~b") (str "http://b") true, .launch (str "~c") (str "http://c") true,
    .closed 0, .elapse 1 .start, .expire 1 .start]

/-- Every slot is empty then, and `~c` waits. -/
theorem givenUp_stuck : ∃ s, start.run givenUp = .ok s ∧ ¬ s.manager.Served := by
  obtain ⟨s, hs, h⟩ := yields_iff.mp (show yields (start.run givenUp) (fun s =>
    s.manager.penddingApplications_ = [2] ∧ s.manager.startingApplication_ = none ∧
      s.manager.stoppingApplication_ = none) = true by decide +kernel)
  obtain ⟨hq, hstarting, hstopping⟩ := of_decide_eq_true h
  refine ⟨s, hs, fun hserved => ?_⟩
  obtain ⟨app, a, happ, -⟩ := hserved (by simp [hq])
  simp [hstarting, hstopping] at happ

end Daemon
end Flingd.App
