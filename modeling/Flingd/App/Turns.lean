import Flingd.App.Receivers
import Flingd.Base.Turns

/-! What the platform is asked for takes turns: an application is launched while none is up, and
the one that is up is stopped. -/
namespace Flingd.App
open Outcome

/-- The application that the platform has taken and was not yet asked to stop. -/
def Phase.up : Phase → Option Nat
  | .starting app => some app
  | .running app => some app
  | _ => none

theorem Phase.slot_of_active {ph : Phase} {app : Nat} (h : ph.active = some app) :
    ph.slot = some app := by
  cases ph <;> first | exact h | cases h

/-- What is asked of the platform where this is noted. It does not take every application. -/
def Mark.turn (accepts : Nat → Bool) : Mark → Option (Turn Nat)
  | .handed app => if accepts app then some (.start app) else none
  | .stopping app => some (.stop app)
  | _ => none

/-- The turns that are noted lead from the phase to the next one, and what is handed over is in the
slot then. -/
def Course.InTurn (accepts : Nat → Bool) (ph : Phase) (c : Course) : Prop :=
  c.Sat fun ph' _ marks => TakeTurns ph.up (marks.filterMap (Mark.turn accepts)) ph'.up ∧
    ∀ app, .handed app ∈ marks → ph'.slot = some app

namespace ApplicationManager
variable {m : ApplicationManager} {ph : Phase} {q : List Nat} {app slot : Nat}
variable {accepts : Nat → Bool}

/-- The application that is up: the starting one may be deleted. -/
def up (m : ApplicationManager) : Option Nat :=
  match m.topApplication_ with
  | some app => some app
  | none => m.startingApplication_.filter fun app => (m.apps app).any (!·.deleted)

theorem Shows.up {st : AppState} (h : m.Shows ph st q) : m.up = ph.up := by
  have hfits := h.fits
  unfold ApplicationManager.up
  rw [h.top, h.starting]
  cases ph with
  | starting app =>
    obtain ⟨a, ha, hd, -⟩ := hfits
    simp [Phase.top, Phase.startingSlot, Phase.up, Option.filter, ha, hd]
  | dangling app =>
    obtain ⟨a, ha, hd, -⟩ := hfits
    simp [Phase.top, Phase.startingSlot, Phase.up, Option.filter, ha, hd]
  | _ => rfl

/-! ### Where a request leads to -/

theorem inTurn_same : Course.InTurn accepts ph (some (ph, q, [])) :=
  Course.sat_some.mpr ⟨.nil _, fun _ h => absurd h List.not_mem_nil⟩

theorem turns_settleMarks : (m.settleMarks slot q).filterMap (Mark.turn accepts) = [] := by
  cases q with
  | nil => rfl
  | cons next rest =>
    rw [settleMarks, queuedMarks]
    split <;> rfl

theorem landing_inTurn (hph : ph.up = none) : (m.landing app q).InTurn m.accepts ph := by
  unfold landing
  cases hacc : m.accepts app with
  | true =>
    have htaken {ph' : Phase} (hup : ph'.up = some app) (hslot : ph'.slot = some app) :
        TakeTurns ph.up ([Mark.handed app].filterMap (Mark.turn m.accepts)) ph'.up ∧
          ∀ i, Mark.handed i ∈ [Mark.handed app] → ph'.slot = some i := by
      have hturns : [Mark.handed app].filterMap (Mark.turn m.accepts) = [.start app] := by
        simp [Mark.turn, hacc]
      rw [hturns, hph, hup]
      refine ⟨rfl, fun i hi => ?_⟩
      cases List.mem_singleton.mp hi
      exact hslot
    rw [if_pos rfl]
    split
    · exact Course.sat_some.mpr (htaken rfl rfl)
    · split
      · exact Course.sat_some.mpr (htaken rfl rfl)
      · exact Course.sat_none
  | false =>
    have hturns : [Mark.handed app, .stopped app none].filterMap (Mark.turn m.accepts) = [] := by
      simp [Mark.turn, hacc]
    rw [if_neg Bool.false_ne_true]
    refine Course.sat_some.mpr ⟨?_, fun i hi => ?_⟩
    · rw [List.filterMap_append, hturns, turns_settleMarks, hph]
      exact .nil none
    · rcases List.mem_append.mp hi with hi | hi
      · have heq : i = app := by simpa using hi
        rw [heq]
        rfl
      · exact absurd hi handed_settleMarks

/-- A stop hands nothing over. -/
theorem stopTo_turns : (m.stopTo ph q).Sat fun ph' _ marks =>
    TakeTurns ph.up (marks.filterMap (Mark.turn accepts)) ph'.up ∧ ∀ app, .handed app ∉ marks := by
  cases ph with
  | idle => exact Course.sat_some.mpr ⟨.nil _, fun _ => List.not_mem_nil⟩
  | dangling app => exact Course.sat_none
  | stopping app => exact Course.sat_some.mpr ⟨.nil _, fun _ => List.not_mem_nil⟩
  | running app =>
    rw [stopTo]
    split
    · exact Course.sat_some.mpr ⟨⟨rfl, rfl⟩, by simp⟩
    · exact Course.sat_some.mpr ⟨⟨rfl, rfl⟩, by simp⟩
  | starting app =>
    rw [stopTo]
    split
    · refine Course.sat_some.mpr ⟨?_, fun i hi => ?_⟩
      · rw [List.filterMap_append, turns_settleMarks]
        exact ⟨rfl, rfl⟩
      · rcases List.mem_append.mp hi with hi | hi
        · simp at hi
        · exact handed_settleMarks hi
    · exact Course.sat_some.mpr ⟨⟨rfl, rfl⟩, by simp⟩

theorem stopTo_inTurn : (m.stopTo ph q).InTurn accepts ph :=
  stopTo_turns.mono fun _ _ _ h => ⟨h.1, fun app happ => absurd happ (h.2 app)⟩

theorem launchTo_inTurn (hph : ph.slot = ph.stoppingSlot) :
    (m.launchTo app ph q).InTurn m.accepts ph := by
  cases ph with
  | stopping slot => exact Course.sat_some.mpr ⟨.nil none, by simp⟩
  | idle => exact landing_inTurn rfl
  | _ => cases hph

theorem stoppedTo_inTurn (hph : ph.up = none) : (m.stoppedTo app q).InTurn m.accepts ph := by
  cases q with
  | nil =>
    refine Course.sat_some.mpr ⟨?_, by simp⟩
    rw [hph]
    exact .nil none
  | cons next rest =>
    refine Course.Sat.after ((landing_inTurn hph).mono fun ph' q' k hk => ⟨hk.1, fun i hi => ?_⟩)
    exact hk.2 i ((List.mem_append.mp hi).resolve_left (by simp))

/-- What follows a stop begins with no application that is up. -/
theorem InTurn.next {f : Phase → List Nat → Course}
    (hf : ∀ ph' q', ph' = .idle ∨ (∃ app, ph' = .stopping app) → (f ph' q').InTurn accepts ph') :
    ((m.stopTo ph q).next f).InTurn accepts ph := by
  have hstop : (m.stopTo ph q).Sat fun ph' _ k => (ph' = .idle ∨ ∃ app, ph' = .stopping app) ∧
      TakeTurns ph.up (k.filterMap (Mark.turn accepts)) ph'.up ∧ ∀ app, .handed app ∉ k :=
    fun ph' q' k hk => ⟨stopTo_stopping hk, stopTo_turns ph' q' k hk⟩
  refine hstop.next fun ph' q' k hk => ?_
  refine (hf ph' q' hk.1).mono fun ph'' q'' k' hk' => ⟨?_, fun app happ => ?_⟩
  · rw [List.filterMap_append]
    exact hk.2.1.append hk'.1
  · exact hk'.2 app ((List.mem_append.mp happ).resolve_left (hk.2.2 app))

end ApplicationManager

/-- The manager that a request is carried out with: a new application is there before. -/
def Request.manager (m : ApplicationManager) : Request → ApplicationManager
  | .launch appId info => m.newApplication appId info
  | .replace appId info => m.newApplication appId info
  | _ => m

open ApplicationManager in
theorem Request.course_inTurn {m : ApplicationManager} {ph : Phase} {q : List Nat}
    (h : m.Shows ph ph.state q) {req : Request}
    (hlaunch : ∀ appId info, req = .launch appId info → ph.slot = ph.stoppingSlot)
    (hstarted : ∀ app, req = .started app → ph.slot = some app → ph.up = some app) :
    (req.course m ph q).InTurn (req.manager m).accepts ph := by
  cases req with
  | nothing => exact inTurn_same
  | stop => exact stopTo_inTurn
  | launch appId info => exact launchTo_inTurn (hlaunch appId info rfl)
  | replace appId info =>
    refine InTurn.next fun ph' q' hph' => launchTo_inTurn ?_
    rcases hph' with rfl | ⟨app, rfl⟩ <;> rfl
  | started app =>
    simp only [Request.course, startedTo]
    split
    · rename_i hslot
      have hup := hstarted app rfl hslot
      split
      · refine Course.sat_some.mpr ⟨?_, by simp⟩
        rw [hup]
        exact .nil _
      · refine Course.sat_some.mpr ⟨?_, by simp⟩
        rw [hup]
        exact ⟨rfl, rfl⟩
    · exact inTurn_same
  | close =>
    refine InTurn.next fun ph' q' hph' => ?_
    rcases hph' with rfl | ⟨app, rfl⟩
    · exact inTurn_same
    · exact stoppedTo_inTurn rfl
  | expire app name =>
    simp only [Request.course, expireTo]
    split
    · exact inTurn_same
    · rename_i a ha
      split
      · exact inTurn_same
      · rename_i hdue
        cases hd : a.deleted with
        | true => exact Course.sat_none
        | false =>
          rw [if_neg Bool.false_ne_true]
          split
          · rename_i hname
            subst hname
            have hslot := h.timers app a ha hd (.inr (Nat.pos_of_ne_zero hdue))
            refine stoppedTo_inTurn ?_
            cases ph <;> first | rfl | cases hslot
          · split
            · exact inTurn_same
            · exact stopTo_inTurn

namespace Daemon
open ApplicationManager
variable {s s' : Daemon} {ph : Phase} {q : List Nat} {app : Nat}

/-! ### Steps -/

theorem launchRequest_ne (appId type : Bytes) (info : AppInfo) :
    s.launchRequest appId type info ≠ .started app := by
  unfold launchRequest
  cases s.alive appId with
  | none =>
    dsimp only
    split <;> simp
  | some same =>
    dsimp only
    split_ifs <;> simp

theorem stopRequest_ne (appId : Bytes) : s.stopRequest appId ≠ .started app := by
  unfold stopRequest
  split <;> simp

theorem typedRequest_started {app' : Nat} {type : Bytes}
    (he : s.typedRequest app' type = .started app) :
    app' = app ∧ iequals type (str "register") = true := by
  unfold typedRequest at he
  split_ifs at he with hregister
  cases he
  exact ⟨rfl, hregister⟩

/-- The manager is told that an application has started where its receiver sends `register`. -/
theorem message_requested {e : Event} (he : s.request e = .started app) :
    ∃ handler uuid r d, e = .message handler uuid (some d) ∧ s.SendsRegister handler app r d := by
  cases e with
  | message handler uuid d =>
    simp only [request, messageRequest] at he
    split at he
    · cases he
    · rename_i r hr
      split at he
      · cases he
      · rename_i hopen
        push Not at hopen
        obtain ⟨hopen, halive⟩ := hopen
        split at he
        · rename_i app' d happ
          split at he
          · cases he
          · rename_i happid
            split at he
            · cases he
            · rename_i type htype
              obtain ⟨rfl, hregister⟩ := typedRequest_started he
              obtain ⟨i, hi, hid⟩ := alive_idOf halive
              rw [happ] at hi
              cases hi
              exact ⟨handler, uuid, r, d, rfl, hr, by simpa using hopen, happ, hid,
                not_not.mp happid, type, htype, hregister⟩
        · cases he
  | post appId authToken uuid body =>
    cases body with
    | request type info =>
      simp only [request, postRequest] at he
      split at he
      · cases he
      · exact absurd he (launchRequest_ne _ _ _)
    | _ => cases he
  | delete appId authToken isInstance =>
    simp only [request, deleteRequest] at he
    split_ifs at he
    exact absurd he (stopRequest_ne _)
  | dialPost appId data =>
    simp only [request, dialPostRequest] at he
    split at he
    · cases he
    · exact absurd he (launchRequest_ne _ _ _)
  | dialDelete appId => exact absurd he (stopRequest_ne _)
  | closed handler =>
    simp only [request] at he
    split at he <;> cases he
  | _ => cases he

/-- The receiver of an application that is deleted is not heard. -/
theorem started_up {e : Event} (h : s.Sound ph q) (he : s.request e = .started app)
    (hstep : s.step e = .ok s') (hslot : ph.slot = some app) : ph.up = some app := by
  obtain ⟨handler, uuid, r, d, rfl, hr⟩ := message_requested he
  rcases h.shows.alive hr.alive with ⟨-, hstopping⟩ | hq
  · cases ph with
    | idle => cases hslot
    | dangling i =>
      cases hslot
      obtain ⟨a, ha, hd, -⟩ := h.shows.fits
      have hdead : ¬ s.manager.Live app fun _ => True := by
        rintro ⟨b, hb, hb', -⟩
        rw [ha] at hb
        cases hb
        rw [hd] at hb'
        cases hb'
      rw [step, onMessage_deleted hr hdead] at hstep
      cases hstep
    | stopping i => cases hstopping
    | _ => exact hslot
  · exact absurd hq (h.shows.slot_not_mem hslot)

theorem manager_accepts {st : AppState} (h : s.manager.Shows ph st q)
    (hsig : (s.manager.signature app).isSome = true) (req : Request) :
    (req.manager s.manager).accepts app = s.manager.accepts app := by
  have hne : app ≠ s.manager.nextApp := by
    rintro rfl
    rw [signature, h.heap.known _ le_rfl] at hsig
    cases hsig
  have hnew (appId : Bytes) (info : AppInfo) :
      (s.manager.newApplication appId info).accepts app = s.manager.accepts app := by
    unfold accepts signature
    rw [newApplication_apps appId info hne]
  cases req with
  | launch appId info => exact hnew appId info
  | replace appId info => exact hnew appId info
  | _ => rfl

/-- The platform takes a new application just where it takes what the request describes. -/
theorem made_accepts {e : Event} {sig : Bytes × AppInfo} (h : s.Sound ph q)
    (hstep : s.step e = .ok s') (hmade : (s.request e).made s.manager = some app)
    (hsig : s'.manager.signature app = some sig) :
    ((s.request e).manager s.manager).accepts app = s'.manager.accepts app := by
  have hnew {id : Bytes} {info : AppInfo} (he : e.Makes (id, info)) (happ : s.manager.nextApp = app) :
      (s.manager.newApplication id info).accepts app = s'.manager.accepts app := by
    subst happ
    rcases (step_names s e).of_ok hstep _ sig hsig with hold | hmakes
    · rw [signature, h.shows.heap.known _ le_rfl] at hold
      cases hold
    · rw [accepts, accepts, hsig, signature_of_apps (newApplication_self id info), he.unique hmakes]
  have hasks := request_asks s e
  generalize s.request e = req at hmade hasks
  cases hasks with
  | launch he _ => exact hnew he (Option.some.inj hmade)
  | replace he => exact hnew he (Option.some.inj hmade)
  | _ => cases hmade

structure Turned (s s' : Daemon) (ph ph' : Phase) (marks : List Mark) : Prop where
  log : s'.manager.log = s.manager.log ++ marks
  kept : ∀ i sig, s.manager.signature i = some sig → s'.manager.signature i = some sig
  known : ∀ app, .handed app ∈ marks → (s'.manager.signature app).isSome = true
  turns : TakeTurns ph.up (marks.filterMap (Mark.turn s'.manager.accepts)) ph'.up

theorem turns_congr {marks : List Mark} {accepts accepts' : Nat → Bool}
    (h : ∀ app, .handed app ∈ marks → accepts app = accepts' app) :
    marks.filterMap (Mark.turn accepts) = marks.filterMap (Mark.turn accepts') := by
  refine List.filterMap_congr fun k hk => ?_
  cases k with
  | handed app => rw [Mark.turn, Mark.turn, h app hk]
  | _ => rfl

theorem turns_stale {k : List Mark} {accepts : Nat → Bool} (h : Stale ph k) :
    k.filterMap (Mark.turn accepts) = [] := by
  rw [List.filterMap_eq_nil_iff]
  intro x hx
  obtain ⟨app, -, rfl⟩ := h x hx
  rfl

theorem step_turned {e : Event} (h : s.Sound ph q) (hstep : s.step e = .ok s') :
    ∃ ph' q' marks, s'.Sound ph' q' ∧ s.Turned s' ph ph' marks := by
  obtain ⟨k, ph', q', marks, hcourse, hk, htook, hs'⟩ := step_follows h hstep
  have hslot (i : Nat) (hi : ph.slot = some i) : (s.manager.signature i).isSome = true := by
    obtain ⟨a, ha, -⟩ := h.shows.slot_apps hi
    rw [signature_of_apps ha]
    rfl
  have hqueue (i : Nat) (hi : i ∈ q) : (s.manager.signature i).isSome = true := by
    obtain ⟨a, ha, -⟩ := h.shows.waits.2 i hi
    rw [signature_of_apps ha]
    rfl
  obtain ⟨hturns, hhanded⟩ := Request.course_inTurn h.shows
    (fun _ _ he => (launch_requested h he).1) (fun i he hi => started_up h he hstep hi)
    ph' q' marks hcourse
  -- What is handed over was known before, or is what the request has made.
  have hdraws : ((s.request e).course s.manager ph q).Draws fun i =>
      (s.manager.signature i).isSome = true ∨ (s.request e).made s.manager = some i :=
    Request.course_draws (fun i hi => .inl (hslot i (Phase.slot_of_active hi)))
      (fun i hi => .inl (hqueue i hi)) (fun i hi => .inr hi) fun i _ hi => .inl (hslot i hi)
  have hsome (app : Nat) (happ : .handed app ∈ marks) : (s'.manager.signature app).isSome = true := by
    obtain ⟨a, ha, -⟩ := hs'.shows.slot_apps (hhanded app happ)
    rw [signature_of_apps ha]
    rfl
  have hagree (app : Nat) (happ : .handed app ∈ marks) :
      ((s.request e).manager s.manager).accepts app = s'.manager.accepts app := by
    rcases hdraws ph' q' marks hcourse app (.inr (.inr happ)) with hsig | hmade
    · rw [manager_accepts h.shows hsig]
      obtain ⟨sig, hsig⟩ := Option.isSome_iff_exists.mp hsig
      rw [accepts, accepts, hsig, htook.signature app sig hsig]
    · obtain ⟨sig, hsig⟩ := Option.isSome_iff_exists.mp (hsome app happ)
      exact made_accepts h hstep hmade hsig
  refine ⟨ph', q', k ++ marks, hs', htook.log, htook.signature, fun app happ => ?_, ?_⟩
  · rcases List.mem_append.mp happ with hi | hi
    · obtain ⟨i, -, hi⟩ := hk _ hi
      cases hi
    · exact hsome app hi
  · rw [List.filterMap_append, turns_stale hk, List.nil_append, ← turns_congr hagree]
    exact hturns

/-! ### Runs -/

theorem Turned.refl (s : Daemon) (ph : Phase) : s.Turned s ph ph [] :=
  ⟨(List.append_nil _).symm, fun _ _ hi => hi, fun _ happ => absurd happ List.not_mem_nil, .nil _⟩

theorem Turned.trans {s'' : Daemon} {ph' ph'' : Phase} {marks marks' : List Mark}
    (h : s.Turned s' ph ph' marks) (h' : s'.Turned s'' ph' ph'' marks') :
    s.Turned s'' ph ph'' (marks ++ marks') := by
  have hknown (app : Nat) (happ : .handed app ∈ marks) :
      s''.manager.signature app = s'.manager.signature app := by
    obtain ⟨sig, hsig⟩ := Option.isSome_iff_exists.mp (h.known app happ)
    rw [hsig, h'.kept app sig hsig]
  refine ⟨by rw [h'.log, h.log, List.append_assoc], fun i sig hi => h'.kept i sig (h.kept i sig hi),
    fun app happ => ?_, ?_⟩
  · rcases List.mem_append.mp happ with hi | hi
    · rw [hknown app hi]
      exact h.known app hi
    · exact h'.known app hi
  · rw [List.filterMap_append]
    have hsame : marks.filterMap (Mark.turn s''.manager.accepts) =
        marks.filterMap (Mark.turn s'.manager.accepts) :=
      turns_congr fun app happ => by rw [accepts, accepts, hknown app happ]
    rw [hsame]
    exact h.turns.append h'.turns

/-- From any state that is reached, what the platform is asked for takes turns. -/
theorem run_turned {before es : List Event} {s₀ : Daemon} (hbefore : start.run before = .ok s₀)
    (hrun : s₀.run es = .ok s) : ∃ ph₀ q₀ ph q marks, s₀.Sound ph₀ q₀ ∧ s.Sound ph q ∧
      s₀.Turned s ph₀ ph marks := by
  obtain ⟨ph₀, q₀, h₀⟩ := run_sound hbefore
  have hstep (t t' : Daemon) (e : Event) (_ : e ∈ es)
      (ht : ∃ ph q marks, t.Sound ph q ∧ s₀.Turned t ph₀ ph marks) (hstep : t.step e = .ok t') :
      ∃ ph q marks, t'.Sound ph q ∧ s₀.Turned t' ph₀ ph marks := by
    obtain ⟨ph, q, marks, ht, hturned⟩ := ht
    obtain ⟨ph', q', marks', ht', hturned'⟩ := step_turned ht hstep
    exact ⟨ph', q', marks ++ marks', ht', hturned.trans hturned'⟩
  obtain ⟨ph, q, marks, hs, hturned⟩ := foldlM_keeps hstep ⟨ph₀, q₀, [], h₀, .refl s₀ ph₀⟩ hrun
  exact ⟨ph₀, q₀, ph, q, marks, h₀, hs, hturned⟩

end Daemon
end Flingd.App
