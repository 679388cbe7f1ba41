import Flingd.App.Names
import Flingd.App.Queue

/-! When a stop that is confirmed is final. A request to stop an application acts on the slots, also
where the application only waits, and what waits behind it can have its id. -/
namespace Flingd.App
open Outcome

namespace ApplicationManager
variable {m m' : ApplicationManager} {appId : Bytes}

/-- No application of that id is up, starting or waiting. -/
def Gone (m : ApplicationManager) (appId : Bytes) : Prop :=
  ∀ app, (m.topApplication_ = some app ∨ m.startingApplication_ = some app ∨
    app ∈ m.penddingApplications_) → m.idOf app ≠ some appId

/-- An application is up or starting, and a stop leaves none of that id in the queue. -/
def StopsAll (m : ApplicationManager) (appId : Bytes) : Prop :=
  (m.topApplication_.isSome ∨ m.startingApplication_.isSome) ∧
    ∀ app ∈ m.settled, m.idOf app ≠ some appId

end ApplicationManager

def Phase.active (ph : Phase) : Option Nat := ph.top.or ph.startingSlot

/-- What is up, starting, waiting or handed over comes from `src`. -/
def Course.Draws (src : Nat → Prop) (c : Course) : Prop :=
  c.Sat fun ph q marks => ∀ app, ph.active = some app ∨ app ∈ q ∨ .handed app ∈ marks → src app

namespace ApplicationManager
variable {m m' : ApplicationManager} {ph : Phase} {q : List Nat} {app slot : Nat} {appId : Bytes}
variable {src : Nat → Prop}

/-! ### Where the applications come from -/

theorem draws_some {marks : List Mark} (hph : ∀ i, ph.active = some i → src i) (hq : ∀ i ∈ q, src i)
    (hmarks : ∀ i, .handed i ∈ marks → src i) : Course.Draws src (some (ph, q, marks)) :=
  Course.sat_some.mpr fun i hi => hi.elim (hph i) fun hi => hi.elim (hq i) (hmarks i)

theorem mem_settle (h : app ∈ m.settle slot q) : app ∈ q := by
  cases q with
  | nil => exact h
  | cons next rest =>
    rw [settle, queuedBehind] at h
    split at h
    · exact List.mem_cons_of_mem _ h
    · exact List.mem_cons.mpr ((List.mem_append.mp h).symm.imp List.mem_singleton.mp id)

theorem handed_settleMarks : .handed app ∉ m.settleMarks slot q := by
  cases q with
  | nil => exact List.not_mem_nil
  | cons next rest =>
    unfold settleMarks queuedMarks
    split <;> simp

theorem landing_draws (happ : src app) (hq : ∀ i ∈ q, src i) : (m.landing app q).Draws src := by
  unfold landing
  split
  · split
    · refine draws_some (fun i hi => ?_) hq (by simpa using happ)
      cases hi
      exact happ
    · split
      · refine draws_some (fun i hi => ?_) (by simp) (by simpa using happ)
        cases hi
        exact happ
      · exact Course.sat_none
  · refine draws_some (fun i hi => ?_) (fun i hi => hq i (mem_settle hi)) fun i hi => ?_
    · cases hi
      exact happ
    · rcases List.mem_append.mp hi with hi | hi
      · have heq : i = app := by simpa using hi
        exact heq ▸ happ
      · exact absurd hi handed_settleMarks

theorem stopTo_draws (hq : ∀ i ∈ q, src i) : (m.stopTo ph q).Draws src := by
  unfold stopTo
  split
  · exact draws_some (fun i hi => by cases hi) hq (by simp)
  · split
    · refine draws_some (fun i hi => by cases hi) (fun i hi => hq i (mem_settle hi)) fun i hi => ?_
      rcases List.mem_append.mp hi with hi | hi
      · simp at hi
      · exact absurd hi handed_settleMarks
    · exact draws_some (fun i hi => by cases hi) hq (by simp)
  · exact Course.sat_none
  · split
    · exact draws_some (fun i hi => by cases hi) hq (by simp)
    · exact draws_some (fun i hi => by cases hi) hq (by simp)
  · exact draws_some (fun i hi => by cases hi) hq (by simp)

theorem Draws.next {c : Course} {f : Phase → List Nat → Course} (h : c.Draws src)
    (hf : ∀ ph q, (∀ i, ph.active = some i → src i) → (∀ i ∈ q, src i) → (f ph q).Draws src) :
    (c.next f).Draws src := by
  refine Course.Sat.next h fun ph q k hk => ?_
  refine (hf ph q (fun i hi => hk i (.inl hi)) fun i hi => hk i (.inr (.inl hi))).mono fun ph' q' k' hk' i hi => ?_
  rcases hi with hi | hi | hi
  · exact hk' i (.inl hi)
  · exact hk' i (.inr (.inl hi))
  · rcases List.mem_append.mp hi with hi | hi
    · exact hk i (.inr (.inr hi))
    · exact hk' i (.inr (.inr hi))

theorem launchTo_draws (happ : src app) (hq : ∀ i ∈ q, src i) :
    (m.launchTo app ph q).Draws src := by
  unfold launchTo
  split
  · refine draws_some (fun i hi => by cases hi) (fun i hi => ?_) (by simp)
    rcases List.mem_append.mp hi with hi | hi
    · exact hq i hi
    · exact List.mem_singleton.mp hi ▸ happ
  · exact landing_draws happ hq

theorem stoppedTo_draws (hq : ∀ i ∈ q, src i) : (m.stoppedTo app q).Draws src := by
  cases q with
  | nil => exact draws_some (fun i hi => by cases hi) hq (by simp)
  | cons next rest =>
    obtain ⟨hnext, hrest⟩ := List.forall_mem_cons.mp hq
    refine Course.Sat.after ((landing_draws hnext hrest).mono fun ph' q' k hk i hi => hk i ?_)
    exact hi.imp id (Or.imp id fun hi => (List.mem_append.mp hi).resolve_left (by simp))

/-! ### What a stop leaves behind -/

/-- A stop leaves no application up or starting. -/
theorem stopTo_empties {st : AppState} (h : m.Shows ph st q) :
    (m.stopTo ph q).Sat fun ph' q' _ => ph'.active = none ∧ q' = m.settled := by
  refine (stopTo_settled h).mono fun ph' q' _ hto => ?_
  rcases hto with ⟨hwaits, ⟨app, rfl⟩, rfl⟩ | ⟨-, rfl, rfl⟩
  · refine ⟨rfl, ?_⟩
    unfold awaitsStop at hwaits
    unfold settled
    rw [h.queue]
    split
    · rename_i heq₁ heq₂ heq₃
      rw [heq₁, heq₂, heq₃] at hwaits
      rw [if_neg (by simpa using hwaits)]
    · rfl
  · exact ⟨rfl, rfl⟩

theorem Shows.mem_settled {st : AppState} (h : m.Shows ph st q) (happ : app ∈ m.settled) :
    app ∈ q := by
  unfold settled at happ
  rw [h.queue] at happ
  split at happ
  · split at happ
    · exact mem_settle happ
    · exact happ
  · exact happ

/-- Where the application that is alive only waits, it is left in the queue. -/
theorem stopsAll_iff (halive : m.getAliveApplication = some app) (hid : m.idOf app = some appId) :
    m.StopsAll appId ↔ ∀ app ∈ m.settled, m.idOf app ≠ some appId := by
  refine ⟨fun hall => hall.2, fun hnot => ⟨?_, hnot⟩⟩
  cases htop : m.topApplication_ with
  | some top => exact .inl rfl
  | none =>
    cases hstarting : m.startingApplication_ with
    | some starting => exact .inr rfl
    | none =>
      have hhead : m.penddingApplications_.head? = some app := by
        simpa [getAliveApplication, htop, hstarting] using halive
      have hleft : m.settled = m.penddingApplications_ := by
        unfold settled
        rw [htop, hstarting]
        cases m.stoppingApplication_ <;> rfl
      exact absurd hid (hnot app (hleft ▸ List.mem_of_mem_head? hhead))

end ApplicationManager

def Request.made (m : ApplicationManager) : Request → Option Nat
  | .launch _ _ | .replace _ _ => some m.nextApp
  | _ => none

open ApplicationManager in
theorem Request.course_draws {m : ApplicationManager} {ph : Phase} {q : List Nat}
    {src : Nat → Prop} {req : Request} (hph : ∀ i, ph.active = some i → src i) (hq : ∀ i ∈ q, src i)
    (hmade : ∀ i, req.made m = some i → src i)
    (hstarted : ∀ i, req = .started i → ph.slot = some i → src i) :
    (req.course m ph q).Draws src := by
  have hsame : Course.Draws src (some (ph, q, [])) := draws_some hph hq (by simp)
  cases req with
  | nothing => exact hsame
  | stop => exact stopTo_draws hq
  | launch appId info => exact launchTo_draws (hmade _ rfl) hq
  | replace appId info =>
    exact Draws.next (stopTo_draws hq) fun ph' q' _ hq' => launchTo_draws (hmade _ rfl) hq'
  | started app =>
    simp only [Request.course, startedTo]
    split
    · rename_i hslot
      split
      · refine draws_some (fun i hi => ?_) (by simp) (by simp)
        cases hi
        exact hstarted app rfl hslot
      · exact draws_some (fun i hi => by cases hi) hq (by simp)
    · exact hsame
  | close =>
    refine Draws.next (stopTo_draws hq) fun ph' q' hph' hq' => ?_
    unfold finishTo
    split
    · exact stoppedTo_draws hq'
    · exact draws_some hph' hq' (by simp)
  | expire app name =>
    simp only [Request.course, expireTo]
    split
    · exact hsame
    · split
      · exact hsame
      · split
        · exact Course.sat_none
        · split
          · exact stoppedTo_draws hq
          · split
            · exact hsame
            · exact stopTo_draws hq

namespace Daemon
open ApplicationManager
variable {s s' : Daemon} {ph : Phase} {q : List Nat} {appId : Bytes}

/-- Only the application that is alive is told that its receiver is there. -/
theorem started_requested {e : Event} {app : Nat} (he : s.request e = .started app) :
    s.manager.getAliveApplication = some app := by
  have hasks := request_asks s e
  rw [he] at hasks
  cases hasks with
  | started ha => exact ha

theorem Sound.gone_iff (h : s.Sound ph q) : s.manager.Gone appId ↔
    (∀ app, ph.active = some app → s.manager.idOf app ≠ some appId) ∧
      ∀ app ∈ q, s.manager.idOf app ≠ some appId := by
  unfold Gone
  rw [h.shows.top, h.shows.starting, h.shows.queue]
  have hactive (app : Nat) : ph.active = some app ↔ ph.top = some app ∨ ph.startingSlot = some app := by
    cases ph <;> simp [Phase.active, Phase.top, Phase.startingSlot]
  simp only [hactive]
  constructor
  · intro hg
    exact ⟨fun app happ => hg app (happ.imp id .inl), fun app happ => hg app (.inr (.inr happ))⟩
  · rintro ⟨hph, hq⟩ app happ
    rcases happ with happ | happ | happ
    · exact hph app (.inl happ)
    · exact hph app (.inr happ)
    · exact hq app happ

/-- Once no application of an id is up, starting or waiting, an event that does not launch the id
does not bring one back. -/
theorem gone_step {e : Event} (h : s.Sound ph q) (hg : s.manager.Gone appId)
    (he : ¬ e.Launches appId) (hstep : s.step e = .ok s') :
    (∃ ph' q', s'.Sound ph' q') ∧ s'.manager.Gone appId ∧ ∃ marks,
      s'.manager.log = s.manager.log ++ marks ∧
        ∀ app, .handed app ∈ marks → s'.manager.idOf app ≠ some appId := by
  obtain ⟨k, ph', q', marks, hcourse, hk, htook, hs'⟩ := step_follows h hstep
  obtain ⟨hph, hq⟩ := h.gone_iff.mp hg
  -- An application of the id was there before.
  have hold (app : Nat) (hid : s.manager.idOf app ≠ some appId) : s'.manager.idOf app ≠ some appId := by
    intro hid'
    obtain ⟨sig, hsig, rfl⟩ := Option.map_eq_some_iff.mp hid'
    rcases (step_names s e).of_ok hstep app sig hsig with hsame | hnew
    · exact hid (by rw [idOf, hsame]; rfl)
    · exact he hnew.launches
  have hdraws : ((s.request e).course s.manager ph q).Draws
      fun app => s'.manager.idOf app ≠ some appId := by
    refine Request.course_draws (fun i hi => hold i (hph i hi)) (fun i hi => hold i (hq i hi))
      (fun i hi => hold i ?_) fun i hi hslot => hold i ?_
    · have hnext : i = s.manager.nextApp := by
        unfold Request.made at hi
        split at hi <;> cases hi <;> rfl
      rw [hnext, idOf, signature, h.shows.heap.known _ le_rfl]
      simp
    · rcases h.shows.alive (started_requested hi) with ⟨-, hnone⟩ | hmem
      · refine hph i ?_
        cases ph with
        | stopping app => cases hnone
        | _ => exact hslot
      · exact hq i hmem
  have hlands := hdraws ph' q' marks hcourse
  refine ⟨⟨ph', q', hs'⟩, hs'.gone_iff.mpr ⟨fun app ha => hlands app (.inl ha),
    fun app ha => hlands app (.inr (.inl ha))⟩, k ++ marks, htook.log, fun app ha => ?_⟩
  rcases List.mem_append.mp ha with ha | ha
  · obtain ⟨i, -, hi⟩ := hk _ ha
    cases hi
  · exact hlands app (.inr (.inr ha))

/-- No application of the id is up, starting or waiting, and none is handed to the platform before
the id is launched again. -/
structure StoppedFor (s : Daemon) (appId : Bytes) : Prop where
  gone : s.manager.Gone appId
  never : ∀ es, (∀ e ∈ es, ¬ e.Launches appId) → ∀ s' marks, s.run es = .ok s' →
    s'.manager.log = s.manager.log ++ marks →
    ∀ app, .handed app ∈ marks → s'.manager.idOf app ≠ some appId

theorem gone_run {es : List Event} (h : s.Sound ph q) (hg : s.manager.Gone appId)
    (hes : ∀ e ∈ es, ¬ e.Launches appId) (hrun : s.run es = .ok s') :
    ∃ marks, s'.manager.log = s.manager.log ++ marks ∧
      ∀ app, .handed app ∈ marks → s'.manager.idOf app ≠ some appId := by
  refine (foldlM_keeps (I := fun t => (∃ ph q, t.Sound ph q) ∧ t.manager.Gone appId ∧
    ∃ marks, t.manager.log = s.manager.log ++ marks ∧
      ∀ app, .handed app ∈ marks → t.manager.idOf app ≠ some appId) ?_
    ⟨⟨ph, q, h⟩, hg, [], (List.append_nil _).symm, fun app ha => absurd ha List.not_mem_nil⟩ hrun).2.2
  intro t t' e he ⟨⟨ph, q, ht⟩, hgone, marks, hlog, hmarks⟩ hstep
  obtain ⟨hsound, hgone', marks', hlog', hmarks'⟩ := gone_step ht hgone (hes e he) hstep
  refine ⟨hsound, hgone', marks ++ marks', by rw [hlog', hlog, List.append_assoc], fun app ha => ?_⟩
  rcases List.mem_append.mp ha with ha | ha
  · intro hid
    obtain ⟨sig, hsig, rfl⟩ := Option.map_eq_some_iff.mp hid
    rcases (step_names t e).of_ok hstep app sig hsig with hsame | hnew
    · exact hmarks app ha (by rw [idOf, hsame]; rfl)
    · exact hes e he hnew.launches
  · exact hmarks' app ha

theorem Sound.stoppedFor_iff (h : s.Sound ph q) : s.StoppedFor appId ↔ s.manager.Gone appId := by
  refine ⟨fun hs => hs.gone, fun hg => ⟨hg, fun es hes s' marks hrun hlog => ?_⟩⟩
  obtain ⟨marks', hlog', hmarks⟩ := gone_run h hg hes hrun
  rw [hlog', List.append_cancel_left_eq] at hlog
  exact hlog ▸ hmarks

/-! ### The stop -/

theorem onDelete_stops {token : Bytes} (h : s.Sound ph q)
    (hdel : s.onDelete appId token true = .ok (s', .status 200)) :
    s.alive appId = some true ∧ s.deleteRequest appId token true = .stop := by
  unfold onDelete at hdel
  by_cases htoken : token = [] ∨ s.checkSender token = false
  · rw [if_pos htoken] at hdel
    simp at hdel
  · rw [if_neg htoken] at hdel
    obtain ⟨t, ht, hdel⟩ := bind_eq_ok.mp hdel
    have hstill := (disconnectSender_ends h.tables token).of_ok ht
    obtain ⟨k, -, hlook⟩ := (h.still hstill).aliveIs appId
    have halive : t.alive appId = some true := by
      simp only [if_true, stopAlive, hlook, ok_bind] at hdel
      cases hcase : t.alive appId with
      | none => simp [hcase] at hdel
      | some same =>
        cases same with
        | false => simp [hcase] at hdel
        | true => rfl
    have hsame : s.alive appId = some true := by
      unfold alive at halive ⊢
      rwa [hstill.manager] at halive
    refine ⟨hsame, ?_⟩
    unfold deleteRequest stopRequest
    rw [if_neg htoken, if_pos rfl, if_pos hsame]

theorem alive_idOf (h : s.alive appId = some true) : ∃ app,
    s.manager.getAliveApplication = some app ∧ s.manager.idOf app = some appId := by
  unfold alive at h
  obtain ⟨app, happ, hid⟩ := Option.bind_eq_some_iff.mp h
  obtain ⟨a, ha, hid⟩ := Option.map_eq_some_iff.mp hid
  exact ⟨app, happ, by rw [idOf_of_apps ha, of_decide_eq_true hid]⟩

/-- A DELETE that is answered with 200 has stopped the application for good just where an
application is up or starting and nothing of the id is left behind it in the queue. -/
theorem stop_final_iff {es : List Event} {token : Bytes} (hrun : start.run es = .ok s)
    (hdel : s.onDelete appId token true = .ok (s', .status 200)) :
    s'.StoppedFor appId ↔ s.manager.StopsAll appId := by
  obtain ⟨ph, q, h⟩ := run_sound hrun
  obtain ⟨halive, hreq⟩ := onDelete_stops h hdel
  have hfollows := (onDelete_ends h appId token true).of_ok hdel
  rw [hreq] at hfollows
  obtain ⟨k, ph', q', marks, hcourse, -, htook, hs'⟩ := hfollows.sound stopTo_quiet
  obtain ⟨hnone, hleft⟩ := stopTo_empties h.shows ph' q' marks hcourse
  have hid (app : Nat) (happ : app ∈ q') : s'.manager.idOf app = s.manager.idOf app := by
    obtain ⟨a, ha, -⟩ := h.shows.waits.2 app (h.shows.mem_settled (hleft ▸ happ))
    unfold idOf
    rw [htook.signature app _ (signature_of_apps ha), signature_of_apps ha]
  obtain ⟨app, happ, happId⟩ := alive_idOf halive
  rw [hs'.stoppedFor_iff, hs'.gone_iff, stopsAll_iff happ happId, ← hleft]
  constructor
  · intro ⟨_, hgone⟩ i hi
    exact hid i hi ▸ hgone i hi
  · intro hgone
    refine ⟨fun i hi => ?_, fun i hi => (hid i hi).symm ▸ hgone i hi⟩
    rw [hnone] at hi
    cases hi

theorem stop_final_registered : ∃ s s' : Daemon, start.run registered = .ok s ∧
    s.onDelete (str "~a") (str "token") true = .ok (s', .status 200) ∧
      (s'.StoppedFor (str "~a") ↔ s.manager.StopsAll (str "~a")) := by
  obtain ⟨s, hs, h⟩ := yields_iff.mp (show yields (start.run registered) (fun s =>
    yields (s.onDelete (str "~a") (str "token") true) fun p => p.2 = .status 200) = true by
      decide +kernel)
  obtain ⟨⟨s', reply⟩, hdel, hreply⟩ := yields_iff.mp h
  rw [show reply = .status 200 from of_decide_eq_true hreply] at hdel
  exact ⟨s, s', hs, hdel, stop_final_iff hs hdel⟩

/-- The stop of `~b` is confirmed, and `~b` is launched when the websocket of `~a` closes. -/
theorem stop_not_final : ∃ s s' t : Daemon, start.run queuedSecond = .ok s ∧
    s.onDelete (str "~b") (str "second") true = .ok (s', .status 200) ∧
      ¬ s'.StoppedFor (str "~b") ∧ s'.run [.closed 0] = .ok t ∧
        .handed 1 ∉ s'.manager.log ∧ .handed 1 ∈ t.manager.log ∧
          t.manager.idOf 1 = some (str "~b") := by
  obtain ⟨s, hs, h⟩ := yields_iff.mp (show yields (start.run queuedSecond) (fun s =>
    yields (s.onDelete (str "~b") (str "second") true) fun p => p.2 = .status 200 ∧
      p.1.manager.penddingApplications_ = [1] ∧ p.1.manager.idOf 1 = some (str "~b") ∧
        yields (p.1.run [.closed 0]) fun t => .handed 1 ∉ p.1.manager.log ∧
          .handed 1 ∈ t.manager.log ∧ t.manager.idOf 1 = some (str "~b")) = true by
      decide +kernel)
  obtain ⟨⟨s', reply⟩, hdel, h⟩ := yields_iff.mp h
  obtain ⟨hreply, hqueue, hid, h⟩ := of_decide_eq_true h
  obtain ⟨t, ht, h⟩ := yields_iff.mp h
  obtain ⟨hnot, hhanded, hidt⟩ := of_decide_eq_true h
  dsimp only at hreply hqueue hid ht
  rw [hreply] at hdel
  refine ⟨s, s', t, hs, hdel, fun hstopped => ?_, ht, hnot, hhanded, hidt⟩
  exact hstopped.gone 1 (.inr (.inr (by simp [hqueue]))) hid

end Daemon
end Flingd.App
