import Flingd.App.Steps

/-! Runs of the daemon. In each state that is reached at most one slot is occupied, and an
application is up only while the queue is empty. -/
namespace Flingd.App
open Outcome

def Course.Sat (c : Course) (P : Phase → List Nat → List Mark → Prop) : Prop :=
  ∀ ph q marks, c = some (ph, q, marks) → P ph q marks

section
variable {c : Course} {P P' : Phase → List Nat → List Mark → Prop} {ph : Phase} {q : List Nat}
variable {marks : List Mark}

theorem Course.sat_some : Course.Sat (some (ph, q, marks)) P ↔ P ph q marks := by
  constructor
  · intro h
    exact h ph q marks rfl
  · rintro h ph q marks he
    cases he
    exact h

theorem Course.sat_none : Course.Sat none P := by
  rintro ph q marks h
  cases h

theorem Course.Sat.mono (h : c.Sat P) (hp : ∀ ph q marks, P ph q marks → P' ph q marks) :
    c.Sat P' := fun ph q marks he => hp ph q marks (h ph q marks he)

theorem Course.Sat.after (h : c.Sat fun ph q k => P ph q (marks ++ k)) : (c.after marks).Sat P := by
  rcases c with - | ⟨ph, q, k⟩
  · exact sat_none
  · exact sat_some.mpr (h ph q k rfl)

theorem Course.Sat.next {f : Phase → List Nat → Course} (h : c.Sat P')
    (hf : ∀ ph q k, P' ph q k → (f ph q).Sat fun ph' q' k' => P ph' q' (k ++ k')) :
    (c.next f).Sat P := by
  rcases c with - | ⟨ph, q, k⟩
  · exact sat_none
  · exact (hf ph q k (h ph q k rfl)).after

end

namespace ApplicationManager
variable {m : ApplicationManager} {ph : Phase} {q : List Nat} {app : Nat}

/-! ### The top application and the queue -/

theorem quiet_nil : Quiet ph [] := fun _ _ => rfl

theorem landing_quiet : (m.landing app q).Sat fun ph q _ => Quiet ph q := by
  unfold landing
  split
  · split
    · exact Course.sat_some.mpr fun _ h => by cases h
    · split
      · exact Course.sat_some.mpr quiet_nil
      · exact Course.sat_none
  · exact Course.sat_some.mpr fun _ h => by cases h

theorem stopTo_quiet : (m.stopTo ph q).Sat fun ph q _ => Quiet ph q := by
  intro ph' q' k h app ha
  rcases stopTo_stopping h with rfl | ⟨app', rfl⟩ <;> cases ha

theorem launchTo_quiet : (m.launchTo app ph q).Sat fun ph q _ => Quiet ph q := by
  unfold launchTo
  split
  · exact Course.sat_some.mpr fun _ h => by cases h
  · exact landing_quiet

theorem stoppedTo_quiet : (m.stoppedTo app q).Sat fun ph q _ => Quiet ph q := by
  cases q with
  | nil => exact Course.sat_some.mpr quiet_nil
  | cons next rest => exact landing_quiet.after

theorem closeTo_quiet : (m.closeTo ph q).Sat fun ph q _ => Quiet ph q :=
  stopTo_quiet.next fun ph' q' _ hq => by
    unfold finishTo
    split
    · exact stoppedTo_quiet
    · exact Course.sat_some.mpr hq

theorem startedTo_quiet (hq : Quiet ph q) : (startedTo app ph q).Sat fun ph q _ => Quiet ph q := by
  unfold startedTo
  split
  · split
    · exact Course.sat_some.mpr quiet_nil
    · exact Course.sat_some.mpr fun _ h => by cases h
  · exact Course.sat_some.mpr hq

theorem expireTo_quiet (hq : Quiet ph q) (name : TimerName) :
    (m.expireTo app name ph q).Sat fun ph q _ => Quiet ph q := by
  have hsame : Course.Sat (some (ph, q, [])) fun ph q _ => Quiet ph q := Course.sat_some.mpr hq
  unfold expireTo
  split
  · exact hsame
  · split
    · exact hsame
    · split
      · exact Course.sat_none
      · split
        · exact stoppedTo_quiet
        · split
          · exact hsame
          · exact stopTo_quiet

end ApplicationManager

open ApplicationManager in
theorem Request.course_quiet {m : ApplicationManager} {ph : Phase} {q : List Nat}
    (hq : Quiet ph q) (req : Request) : (req.course m ph q).Sat fun ph q _ => Quiet ph q := by
  cases req with
  | nothing => exact Course.sat_some.mpr hq
  | stop => exact stopTo_quiet
  | launch appId info => exact launchTo_quiet
  | replace appId info => exact stopTo_quiet.next fun _ _ _ _ => launchTo_quiet
  | started app => exact startedTo_quiet hq
  | close => exact closeTo_quiet
  | expire app name => exact expireTo_quiet hq name

namespace Daemon
variable {s s' : Daemon} {ph : Phase} {q : List Nat}

/-! ### Runs -/

theorem start_sound : start.Sound .idle [] where
  shows := ⟨rfl, rfl, rfl, rfl, trivial, ⟨.nil, by simp⟩, ⟨fun _ _ => rfl, fun _ _ h => by cases h⟩,
    fun _ _ h => by cases h⟩
  quiet := ApplicationManager.quiet_nil
  tables := ⟨fun _ h => (by cases h), fun _ _ => rfl⟩

theorem Follows.sound {c : Course} (h : s.Follows ph c s')
    (hc : c.Sat fun ph q _ => ApplicationManager.Quiet ph q) : ∃ k ph' q' marks,
      c = some (ph', q', marks) ∧ Stale ph k ∧ s.manager.Took s'.manager ph' q' (k ++ marks) ∧
        s'.Sound ph' q' := by
  obtain ⟨ht, k, ph', q', marks, he, hk, htook⟩ := h
  exact ⟨k, ph', q', marks, he, hk, htook, htook.shows, hc ph' q' marks he, ht⟩

/-- What a step makes of a state, when it comes to its end. -/
theorem step_follows (h : s.Sound ph q) {e : Event} (hstep : s.step e = .ok s') :
    ∃ k ph' q' marks, (s.request e).course s.manager ph q = some (ph', q', marks) ∧
      Stale ph k ∧ s.manager.Took s'.manager ph' q' (k ++ marks) ∧ s'.Sound ph' q' :=
  ((step_ends h e).of_ok hstep).sound (Request.course_quiet h.quiet _)

theorem step_sound (h : s.Sound ph q) {e : Event} (hstep : s.step e = .ok s') :
    ∃ ph' q', s'.Sound ph' q' := by
  obtain ⟨k, ph', q', marks, -, -, -, hs⟩ := step_follows h hstep
  exact ⟨ph', q', hs⟩

theorem run_sound {es : List Event} (h : start.run es = .ok s) : ∃ ph q, s.Sound ph q := by
  have hkeeps (t t' : Daemon) (e : Event) (_ : e ∈ es) (ht : ∃ ph q, t.Sound ph q)
      (hstep : t.step e = .ok t') : ∃ ph q, t'.Sound ph q := by
    obtain ⟨ph, q, ht⟩ := ht
    exact step_sound ht hstep
  exact foldlM_keeps hkeeps ⟨_, _, start_sound⟩ h

/-- No call is nested deeper than the model allows for, and no handler is used that is gone. -/
theorem step_faults (h : s.Sound ph q) {e : Event} {f : Fault} (hstep : s.step e = .error f) :
    f = .thrown ∨ f = .misused ∨ f = .freed := by
  have := (step_ends h e).of_error hstep
  exact this.imp id (Or.imp id And.left)

end Daemon
end Flingd.App
