import Flingd.App.Runs

/-! What is left of an application that the platform refuses. -/
namespace Flingd.App
open Outcome
namespace ApplicationManager
variable {m : ApplicationManager} {appId : Bytes} {info : AppInfo}

/-- No application is in a slot, and none waits. -/
def Vacant (m : ApplicationManager) : Prop :=
  m.topApplication_ = none ∧ m.startingApplication_ = none ∧ m.stoppingApplication_ = none ∧
    m.penddingApplications_ = []

instance (m : ApplicationManager) : Decidable m.Vacant := inferInstanceAs (Decidable (_ ∧ _))

def launchNew (m : ApplicationManager) (appId : Bytes) (info : AppInfo) :
    Except Fault ApplicationManager :=
  (m.newApplication appId info).launchApplication m.nextApp

/-- A new application is handed to the platform when it is launched. -/
def HandsOn (m : ApplicationManager) (appId : Bytes) (info : AppInfo) : Prop :=
  ∃ m' marks, m.launchNew appId info = .ok m' ∧ m'.log = m.log ++ marks ∧ .handed m.nextApp ∈ marks

/-- A launch leaves every slot and the queue empty, so that the next one is handed on. -/
def LeavesNoTrace (m : ApplicationManager) (appId : Bytes) (info : AppInfo) : Prop :=
  ∃ m', m.launchNew appId info = .ok m' ∧ m'.Vacant ∧
    ∀ appId info, info.accepted = true → m'.HandsOn appId info

/-- A refused application stays in the starting slot, after it was deleted. -/
theorem Shows.launch_refused (h : m.Shows .idle .stopped []) (hinfo : info.accepted = false) :
    ∃ m', m.launchNew appId info = .ok m' ∧
      m'.Shows (.dangling m.nextApp) .stopped [] := by
  obtain ⟨h₁, hlive, hnot⟩ := h.newApplication appId info
  have hland : (m.newApplication appId info).landing m.nextApp [] =
      some (.dangling m.nextApp, [], [.handed m.nextApp, .stopped m.nextApp none]) := by
    have hacc : (m.newApplication appId info).accepts m.nextApp = false := by
      simp [accepts, signature_of_apps (newApplication_self (m := m) appId info), hinfo]
    rw [landing, hacc]
    rfl
  have hleads := launchBody_idle (r := launchWithin 0) h₁.shows hlive hnot
  rw [hland] at hleads
  obtain ⟨m', hm', hbecame⟩ := hleads
  exact ⟨m', hm', hbecame.shows⟩

/-- Nothing is handed on next to an application that was deleted in the starting slot. -/
theorem Shows.hands_nothing {slot : Nat} (h : m.Shows (.dangling slot) .stopped [])
    (appId : Bytes) (info : AppInfo) : ¬ m.HandsOn appId info := by
  rintro ⟨m', marks, hm', hlog, hmem⟩
  obtain ⟨h₁, hlive, hnot⟩ := h.newApplication appId info
  obtain ⟨m₂, hm₂, hbecame⟩ := launchBody_dangling (r := launchWithin 1) h₁.shows hlive hnot
  obtain rfl : m' = m₂ := Except.ok.inj (hm'.symm.trans hm₂)
  have hmarks : marks = .stale slot :: (m.newApplication appId info).queuedMarks slot m.nextApp :=
    List.append_cancel_left (hlog.symm.trans hbecame.log)
  rw [hmarks, queuedMarks] at hmem
  split at hmem
  · simp at hmem
  · simp at hmem

end ApplicationManager

namespace Daemon
open ApplicationManager
variable {s : Daemon} {es : List Event} {appId : Bytes} {info : AppInfo}

theorem Sound.idle_of_vacant {ph : Phase} {q : List Nat} (h : s.Sound ph q)
    (hvacant : s.manager.Vacant) : s.manager.Shows .idle .stopped [] := by
  obtain ⟨htop, hstarting, hstopping, hqueue⟩ := hvacant
  have hshows := h.shows
  cases ph with
  | idle =>
    obtain rfl : q = [] := hshows.queue.symm.trans hqueue
    exact hshows
  | starting app | dangling app => exact nomatch hshows.starting.symm.trans hstarting
  | running app => exact nomatch hshows.top.symm.trans htop
  | stopping app => exact nomatch hshows.stopping.symm.trans hstopping

/-- A refused launch always leaves a trace: the application stays in the starting slot, and nothing
that is launched next is handed to the platform. -/
theorem refused_leaves_trace (hrun : start.run es = .ok s) (hvacant : s.manager.Vacant)
    (hrefused : info.accepted = false) :
    ¬ s.manager.LeavesNoTrace appId info ∧
      ∃ m', s.manager.launchNew appId info = .ok m' ∧
        m'.startingApplication_ = some s.manager.nextApp ∧
        ∀ appId' info', ¬ m'.HandsOn appId' info' := by
  obtain ⟨ph, q, hsound⟩ := run_sound hrun
  obtain ⟨m', hm', hshows⟩ : ∃ m', s.manager.launchNew appId info = .ok m' ∧
      m'.Shows (.dangling s.manager.nextApp) .stopped [] :=
    (hsound.idle_of_vacant hvacant).launch_refused hrefused
  refine ⟨?_, m', hm', hshows.starting, hshows.hands_nothing⟩
  rintro ⟨m₂, hm₂, ⟨-, hstarting, -⟩, -⟩
  obtain rfl : m' = m₂ := Except.ok.inj (hm'.symm.trans hm₂)
  exact nomatch hshows.starting.symm.trans hstarting

/-- An application that the platform does not know how to launch. -/
def unknown : AppInfo := ⟨str "ftp://tv/", true, -1⟩

theorem refused_leaves_trace_unknown : ¬ start.manager.LeavesNoTrace (str "~a") unknown ∧
    ∃ m', start.manager.launchNew (str "~a") unknown = .ok m' ∧
      m'.startingApplication_ = some 0 ∧ ∀ appId' info', ¬ m'.HandsOn appId' info' :=
  refused_leaves_trace (show start.run [] = .ok start from rfl) (by decide) (by decide)

theorem refused_blocks : start.manager.Vacant ∧ unknown.accepted = false ∧
    ¬ start.manager.LeavesNoTrace (str "~a") unknown := by
  refine ⟨by decide, by decide, ?_⟩
  rintro ⟨m', hm', ⟨-, hstarting, -⟩, -⟩
  obtain ⟨m₂, hm₂, htest⟩ := yields_iff.mp (show yields (start.manager.launchNew (str "~a") unknown)
    (fun m => m.startingApplication_ = some 0) = true by decide +kernel)
  obtain rfl : m' = m₂ := Except.ok.inj (hm'.symm.trans hm₂)
  rw [of_decide_eq_true htest] at hstarting
  cases hstarting

end Daemon
end Flingd.App
