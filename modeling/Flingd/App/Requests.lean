import Flingd.App.Launches
import Flingd.App.Daemon

/-! What an event of the daemon asks of the manager, and where that leads to. -/
namespace Flingd.App
open Outcome

def Course.next (c : Course) (f : Phase → List Nat → Course) : Course :=
  c.bind fun (ph, q, marks) => (f ph q).after marks

namespace ApplicationManager
variable {m m' : ApplicationManager} {ph : Phase} {st : AppState} {q : List Nat} {app : Nat}
variable {r : ApplicationManager → Nat → Except Fault ApplicationManager}

theorem Leads.next {x : Except Fault ApplicationManager} {c : Course}
    {g : ApplicationManager → Except Fault ApplicationManager} {f : Phase → List Nat → Course}
    (h : Leads m x c) (hg : ∀ m' ph q marks, c = some (ph, q, marks) →
      Became m m' ph ph.state q marks → Leads m' (g m') (f ph q)) : Leads m (x >>= g) (c.next f) := by
  rcases c with - | ⟨ph, q, marks⟩
  · rw [show x = .error .freed from h]
    rfl
  · obtain ⟨m', rfl, hm⟩ := h
    exact (hg m' ph q marks rfl hm).after hm

/-- The top application runs only while nothing waits. -/
def Quiet (ph : Phase) (q : List Nat) : Prop := ∀ app, ph = .running app → q = []

/-! ### New applications -/

/-- As `Became`, but applications may have been added. -/
structure Took (m m' : ApplicationManager) (ph : Phase) (q : List Nat) (marks : List Mark) :
    Prop where
  shows : m'.Shows ph ph.state q
  signature : ∀ i sig, m.signature i = some sig → m'.signature i = some sig
  log : m'.log = m.log ++ marks

theorem Became.took {marks : List Mark} (h : Became m m' ph ph.state q marks) :
    Took m m' ph q marks where
  shows := h.shows
  signature i sig hi := by rw [h.signature, hi]
  log := h.log

theorem Took.trans {m'' : ApplicationManager} {ph' : Phase} {q' : List Nat} {marks marks' : List Mark}
    (h : Took m m' ph q marks) (h' : Took m' m'' ph' q' marks') :
    Took m m'' ph' q' (marks ++ marks') where
  shows := h'.shows
  signature i sig hi := h'.signature i sig (h.signature i sig hi)
  log := by rw [h'.log, h.log, List.append_assoc]

def Reaches (m : ApplicationManager) (x : Except Fault ApplicationManager) : Course → Prop
  | none => x = .error .freed
  | some (ph, q, marks) => ∃ m', x = .ok m' ∧ Took m m' ph q marks

theorem Leads.reaches {x : Except Fault ApplicationManager} {c : Course} (h : Leads m x c) :
    Reaches m x c := by
  rcases c with - | ⟨ph, q, marks⟩
  · exact h
  · obtain ⟨m', hx, hm⟩ := h
    exact ⟨m', hx, hm.took⟩

theorem Reaches.after {x : Except Fault ApplicationManager} {c : Course} {marks : List Mark}
    (h : Took m m' ph q marks) (hx : Reaches m' x c) : Reaches m x (c.after marks) := by
  rcases c with - | ⟨ph', q', marks'⟩
  · exact hx
  · obtain ⟨m'', hm, h'⟩ := hx
    exact ⟨m'', hm, h.trans h'⟩

theorem Reaches.silent {x : Except Fault ApplicationManager} {c : Course}
    (h : Took m m' ph q []) (hx : Reaches m' x c) : Reaches m x c := by
  have h' := hx.after h
  cases c <;> exact h'

theorem HeapSound.known_of_apps {a : Application} (h : HeapSound m) (ha : m.apps app = some a) :
    app ≠ m.nextApp := by
  rintro rfl
  rw [h.known _ le_rfl] at ha
  cases ha

variable (appId : Bytes) (info : AppInfo)

theorem newApplication_apps {i : Nat} (hi : i ≠ m.nextApp) :
    (m.newApplication appId info).apps i = m.apps i := if_neg hi

theorem newApplication_self : (m.newApplication appId info).apps m.nextApp =
    some ⟨appId, info, .stopped, [], false, ⟨false, 0⟩, ⟨false, 0⟩, ⟨false, 0⟩, 0, false⟩ := if_pos rfl

theorem Shows.newApplication (h : m.Shows ph ph.state q) :
    Took m (m.newApplication appId info) ph q [] ∧
      (m.newApplication appId info).Live m.nextApp (fun a => a.slots = 0) ∧ m.nextApp ∉ q := by
  have happs {i : Nat} {a : Application} (ha : m.apps i = some a) :
      (m.newApplication appId info).apps i = some a :=
    (newApplication_apps appId info (h.heap.known_of_apps ha)).trans ha
  have hlive {i : Nat} {p : Application → Prop} (hl : m.Live i p) :
      (m.newApplication appId info).Live i p := by
    obtain ⟨a, ha, hl⟩ := hl
    exact ⟨a, happs ha, hl⟩
  have hold {i : Nat} {a : Application} (ha : (m.newApplication appId info).apps i = some a) :
      m.apps i = some a ∨ a.slots = 0 ∧ ¬ a.stopTimer.Active := by
    by_cases hi : i = m.nextApp
    · subst hi
      rw [newApplication_self] at ha
      cases ha
      exact .inr ⟨rfl, by simp [Timer.Active]⟩
    · exact .inl ((newApplication_apps appId info hi).symm.trans ha)
  refine ⟨⟨⟨h.top, h.starting, h.stopping, h.queue, ?_, ?_, ?_, ?_⟩, ?_, (List.append_nil _).symm⟩,
    ⟨_, newApplication_self appId info, rfl, rfl⟩, fun hq => ?_⟩
  · have hfits := h.fits
    cases ph with
    | idle => trivial
    | dangling p =>
      obtain ⟨a, ha, hd⟩ := hfits
      exact ⟨a, happs ha, hd⟩
    | _ p => exact hlive hfits
  · exact ⟨h.waits.1, fun i hi => hlive (h.waits.2 i hi)⟩
  · constructor
    · intro i hi
      have hi' : m.nextApp + 1 ≤ i := hi
      rw [newApplication_apps appId info (by omega)]
      exact h.heap.known i (by omega)
    · intro i a ha
      rcases hold ha with ha | ⟨ha, -⟩
      · exact h.heap.slots i a ha
      · omega
  · intro i a ha hd hact
    rcases hold ha with ha | ⟨-, ha⟩
    · exact h.timers i a ha hd hact
    · exact absurd hact ha
  · intro i sig hi
    obtain ⟨a, ha, rfl⟩ := Option.map_eq_some_iff.mp hi
    rw [signature_of_apps (happs ha)]
  · obtain ⟨a, ha, -⟩ := h.waits.2 _ hq
    exact h.heap.known_of_apps ha rfl

theorem signature_newApplication (hs : m'.signature = m.signature) (hn : m'.nextApp = m.nextApp) :
    (m'.newApplication appId info).signature = (m.newApplication appId info).signature := by
  funext i
  by_cases hi : i = m.nextApp
  · subst hi
    rw [signature_of_apps (newApplication_self appId info), ← hn,
      signature_of_apps (newApplication_self appId info)]
  · unfold signature
    rw [newApplication_apps appId info hi, newApplication_apps appId info (by rwa [hn])]
    exact congrFun hs i

/-! ### Requests -/

/-- Where a new application leads to that is launched while no application is up or starting. -/
def launchTo (m : ApplicationManager) (app : Nat) : Phase → List Nat → Course
  | .stopping slot, q => some (.stopping slot, q ++ [app], [.queued app])
  | _, q => m.landing app q

theorem launchTo_congr (h : m'.signature = m.signature) (ph : Phase) (q : List Nat) :
    m'.launchTo app ph q = m.launchTo app ph q := by
  unfold launchTo
  split
  · rfl
  · exact landing_congr h app _

theorem launch_reaches (h : m.Shows ph ph.state q) (hph : ph.slot = ph.stoppingSlot) :
    Reaches m ((m.newApplication appId info).launchApplication m.nextApp)
      ((m.newApplication appId info).launchTo m.nextApp ph q) := by
  obtain ⟨h₁, hlive, hnot⟩ := h.newApplication appId info
  refine Reaches.silent h₁ ?_
  cases ph with
  | idle => exact (launchBody_idle h₁.shows hlive hnot).reaches
  | stopping slot => exact (launchBody_stopping h₁.shows hlive hnot).reaches
  | _ => cases hph

theorem stop_reaches (h : m.Shows ph ph.state q) (hq : Quiet ph q) :
    Leads m (stopApplication launchApplication m) (m.stopTo ph q) := stop_leads h hq

/-- A stop leaves no application up or starting. -/
theorem stopTo_slot {ph' : Phase} {q' : List Nat} {marks : List Mark}
    (h : m.stopTo ph q = some (ph', q', marks)) : ph'.slot = ph'.stoppingSlot := by
  unfold stopTo at h
  split at h
  · cases h
    rfl
  · split at h <;> · cases h; rfl
  · cases h
  · split at h <;> · cases h; rfl
  · cases h
    rfl

theorem stopTo_stopping {ph' : Phase} {q' : List Nat} {marks : List Mark}
    (h : m.stopTo ph q = some (ph', q', marks)) : ph' = .idle ∨ ∃ app, ph' = .stopping app := by
  have hs := stopTo_slot h
  cases ph' with
  | idle => exact .inl rfl
  | stopping app => exact .inr ⟨app, rfl⟩
  | _ => cases hs

def replaceTo (m : ApplicationManager) (ph : Phase) (q : List Nat) : Course :=
  (m.stopTo ph q).next ((m.newApplication appId info).launchTo m.nextApp)

theorem replace_reaches (h : m.Shows ph ph.state q) (hq : Quiet ph q) :
    Reaches m (stopApplication launchApplication m >>= fun m =>
      (m.newApplication appId info).launchApplication m.nextApp)
      (m.replaceTo appId info ph q) := by
  have hstop := stop_reaches h hq
  unfold replaceTo
  rcases hc : m.stopTo ph q with - | ⟨ph', q', marks⟩
  · rw [hc] at hstop
    rw [show stopApplication launchApplication m = .error .freed from hstop]
    rfl
  · rw [hc] at hstop
    obtain ⟨m', hm, h'⟩ := hstop
    rw [hm, ok_bind]
    have hl := launch_reaches appId info h'.shows (stopTo_slot hc)
    rw [launchTo_congr (signature_newApplication appId info h'.signature h'.nextApp), h'.nextApp] at hl
    rw [h'.nextApp]
    exact hl.after h'.took

def startedTo (app : Nat) (ph : Phase) (q : List Nat) : Course :=
  if ph.slot = some app then
    if q = [] then some (.running app, [], []) else some (.stopping app, q, [.stopping app])
  else some (ph, q, [])

theorem Shows.alive (h : m.Shows ph st q) (ha : m.getAliveApplication = some app) :
    ph.slot = some app ∧ ph.stoppingSlot = none ∨ app ∈ q := by
  unfold getAliveApplication at ha
  rw [h.top, h.starting, h.queue] at ha
  cases ph with
  | running p => exact .inl ⟨ha, rfl⟩
  | starting p => exact .inl ⟨ha, rfl⟩
  | dangling p => exact .inl ⟨ha, rfl⟩
  | _ => exact .inr (List.mem_of_mem_head? ha)

/-- The application that is launched then is alive and uses IPC. -/
theorem started_leads (h : m.Shows ph ph.state q) (ha : m.getAliveApplication = some app)
    (hi : m.Live app fun a => a.info.useIpc = true) :
    Leads m (started launchApplication m app) (startedTo app ph q) := by
  unfold startedTo
  rcases h.alive ha with ⟨hs, hph⟩ | hq
  · have hl : m.Live app fun a => a.slots = 1 ∧ a.info.useIpc = true := by
      obtain ⟨a, ha, hd, hi⟩ := hi
      obtain ⟨a', ha', hl⟩ := h.slot_apps hs
      rw [ha] at ha'
      cases ha'
      exact ⟨a, ha, hd, hl.resolve_left (by simp [hd]), hi⟩
    rw [if_pos hs]
    by_cases hn : q = []
    · subst hn
      rw [if_pos rfl]
      exact started_quiet h hs hph (hl.mono fun _ ha => ha.1)
    · rw [if_neg hn]
      exact started_ipc h hs hph hl hn
  · rw [if_neg fun hs => h.slot_not_mem hs hq]
    exact started_waiting h hq

/-- The stopping application is not waited for. -/
def finishTo (m : ApplicationManager) : Phase → List Nat → Course
  | .stopping app, q => m.stoppedTo app q
  | ph, q => some (ph, q, [])

def closeTo (m : ApplicationManager) (ph : Phase) (q : List Nat) : Course :=
  (m.stopTo ph q).next m.finishTo

theorem stoppedTo_congr (h : m'.signature = m.signature) (app : Nat) (q : List Nat) :
    m'.stoppedTo app q = m.stoppedTo app q := by
  cases q with
  | nil => rfl
  | cons next rest => exact congrArg (Course.after _) (landing_congr h next rest)

theorem closeTo_stopping : m.closeTo (.stopping app) q = m.stoppedTo app q := by
  simp only [closeTo, stopTo, finishTo, Course.next, Option.bind_some]
  rcases m.stoppedTo app q with - | ⟨ph, q, marks⟩ <;> rfl

/-- The branch of `onClose` that stops an application, and does not wait for it. -/
theorem stopAnyway_leads (h : m.Shows ph ph.state q) (hq : Quiet ph q) :
    Leads m (m.stopApplicationByAppId appId >>= fun m =>
      match m.getStoppingApplication with
      | some app => m.stopped launchApplication app
      | none => .ok m) (m.closeTo ph q) := by
  refine (stop_reaches h hq).next fun m' ph' q' marks hc h' => ?_
  simp only [getStoppingApplication, h'.shows.stopping]
  rcases stopTo_stopping hc with rfl | ⟨app, rfl⟩
  · exact ⟨m', rfl, h'.shows, rfl, rfl, (List.append_nil _).symm⟩
  · change Leads m' (stopped launchApplication m' app) (m.stoppedTo app q')
    rw [← stoppedTo_congr h'.signature]
    exact stopped_leads h'.shows

theorem close_leads (h : m.Shows ph ph.state q) (hq : Quiet ph q) :
    Leads m (Daemon.closeApplication m appId) (m.closeTo ph q) := by
  unfold Daemon.closeApplication
  simp only [getStoppingApplication, h.stopping]
  cases ph with
  | stopping app =>
    obtain ⟨a, -, hget⟩ := h.getAppId rfl
    have h₁ := h.note []
    simp only [Phase.stoppingSlot, hget, ok_bind, Phase.staleMarks]
    split
    · rw [closeTo_stopping, ← stoppedTo_congr h₁.signature]
      exact (stopped_leads h₁.shows).silent h₁
    · exact (stopAnyway_leads appId h₁.shows hq).silent h₁
  | _ => exact stopAnyway_leads appId h hq

/-! ### Timers -/

/-- Where it leads to that the handler of a wait runs. Nobody hears of the timers of an
application that was never launched. -/
def expireTo (m : ApplicationManager) (app : Nat) (name : TimerName) (ph : Phase) (q : List Nat) :
    Course :=
  match m.apps app with
  | none => some (ph, q, [])
  | some a =>
    if (a.timer name).due = 0 then some (ph, q, [])
    else if a.deleted then none
    else if name = .stop then m.stoppedTo app q
    else if a.slots = 0 then some (ph, q, [])
    else m.stopTo ph q

theorem harmless_setTimer {f : Application → Timer} {name : TimerName}
    (hf : ∀ a, (f a).Active → (a.timer name).Active) :
    Harmless fun a => a.setTimer (f a) name := by
  cases name
  · exact ⟨fun _ => rfl, fun _ => rfl, fun _ => rfl, fun _ => rfl, fun _ => rfl, fun _ h => h,
      fun _ h => h⟩
  · exact ⟨fun _ => rfl, fun _ => rfl, fun _ => rfl, fun _ => rfl, fun _ => rfl, fun _ h => h, hf⟩
  · exact ⟨fun _ => rfl, fun _ => rfl, fun _ => rfl, fun _ => rfl, fun _ => rfl, fun _ h => h,
      fun _ h => h⟩

theorem harmless_elapse (name : TimerName) : Harmless fun a : Application =>
    if (a.timer name).armed then a.setTimer ⟨false, (a.timer name).due + 1⟩ name else a := by
  have h : (fun a : Application =>
      if (a.timer name).armed then a.setTimer ⟨false, (a.timer name).due + 1⟩ name else a) =
      fun a => a.setTimer (if (a.timer name).armed then ⟨false, (a.timer name).due + 1⟩
        else a.timer name) name := by
    funext a
    split
    · rfl
    · cases name <;> rfl
  rw [h]
  refine harmless_setTimer fun a ha => ?_
  split at ha
  · exact .inl ‹_›
  · exact ha

theorem stopTo_congr (h : m'.signature = m.signature)
    (hs : ∀ i, m'.stopsAtOnce i = m.stopsAtOnce i) (ph : Phase) (q : List Nat) :
    m'.stopTo ph q = m.stopTo ph q := by
  unfold stopTo
  cases ph <;> simp only [hs, settle_congr h, settleMarks_congr h]

theorem stopsAtOnce_setTimer (f : Application → Timer) (name : TimerName) (i : Nat) :
    (m.modify app fun a => a.setTimer (f a) name).stopsAtOnce i = m.stopsAtOnce i := by
  unfold stopsAtOnce
  rw [modify_apps]
  split
  · cases m.apps i with
    | none => rfl
    | some a => cases name <;> rfl
  · rfl

def elapsed (m : ApplicationManager) (app : Nat) (name : TimerName) : ApplicationManager :=
  m.modify app fun a => a.setTimer { a.timer name with due := (a.timer name).due - 1 } name

theorem elapsed_eq {a : Application} {name : TimerName} {due : Nat} (ha : m.apps app = some a)
    (hdue : (a.timer name).due = due + 1) :
    (m.modify app fun a => a.setTimer { a.timer name with due := due } name) = m.elapsed app name := by
  unfold elapsed modify
  congr 1
  funext i
  split
  · rename_i hi
    rw [hi, ha]
    simp [hdue]
  · rfl

theorem setTimer_slots (a : Application) (t : Timer) (name : TimerName) :
    (a.setTimer t name).slots = a.slots ∧ (a.setTimer t name).deleted = a.deleted := by
  cases name <;> exact ⟨rfl, rfl⟩

/-- The manager hears `DoAppStop` of an application that was launched. -/
theorem doAppStop_leads {a : Application} (h : m.Shows ph ph.state q) (hq : Quiet ph q)
    (ha : m.deref app = .ok a) :
    Leads m (runSlots (onDoAppStop · app) a.slots m)
      (if a.slots = 0 then some (ph, q, []) else m.stopTo ph q) := by
  by_cases hs : a.slots = 0
  · rw [if_pos hs, hs]
    exact ⟨m, rfl, h, rfl, rfl, (List.append_nil _).symm⟩
  · have hs' : a.slots = 1 := by
      have := h.heap.slots app a (deref_ok.mp ha).1
      omega
    rw [if_neg hs, hs', runSlots_one]
    unfold onDoAppStop
    rw [ha, ok_bind]
    exact stop_reaches h hq

theorem expire_leads (h : m.Shows ph ph.state q) (hq : Quiet ph q) (name : TimerName) :
    Leads m (m.expire app name) (m.expireTo app name ph q) := by
  unfold expire expireTo
  cases ha : m.apps app with
  | none => exact ⟨m, rfl, h, rfl, rfl, (List.append_nil _).symm⟩
  | some a =>
    simp only
    cases hdue : (a.timer name).due with
    | zero =>
      rw [if_pos rfl]
      exact ⟨m, rfl, h, rfl, rfl, (List.append_nil _).symm⟩
    | succ due =>
      rw [if_neg (Nat.succ_ne_zero due)]
      simp only
      rw [elapsed_eq ha hdue]
      have h₁ : Became m (m.elapsed app name) ph ph.state q [] :=
        h.harmless app (harmless_setTimer fun a ht => ht.imp id fun ht => by simp at ht; omega)
      have hsig := h₁.signature
      have ha₁ : (m.elapsed app name).apps app =
          some (a.setTimer { a.timer name with due := (a.timer name).due - 1 } name) := by
        simp [elapsed, ha]
      have hstop : (m.elapsed app name).stopTo ph q = m.stopTo ph q :=
        stopTo_congr hsig (stopsAtOnce_setTimer _ name) ph q
      have hslots := setTimer_slots a { a.timer name with due := (a.timer name).due - 1 } name
      cases hd : a.deleted with
      | true =>
        rw [if_pos rfl]
        have herr := deref_deleted ha₁ (hslots.2.trans hd)
        unfold onTimeout
        cases name <;> · simp only [stopped, herr]; rfl
      | false =>
        rw [if_neg (by simp)]
        have hderef := deref_ok.mpr ⟨ha₁, hslots.2.trans hd⟩
        cases name with
        | start =>
          unfold onTimeout
          rw [if_neg (by simp), hderef, ok_bind, ← hslots.1, ← hstop]
          exact (doAppStop_leads h₁.shows hq hderef).silent h₁
        | stop =>
          have hslot : ph.stoppingSlot = some app :=
            h.timers app a ha hd (.inr (by change 0 < (a.timer .stop).due; omega))
          have hph : ph = .stopping app := by
            cases ph <;> cases hslot
            rfl
          subst hph
          unfold onTimeout
          rw [if_pos rfl, ← stoppedTo_congr hsig]
          exact (stopped_leads h₁.shows).silent h₁
        | maxInactive =>
          unfold onTimeout
          have h₂ := h₁.trans (h₁.shows.harmless app (harmless_maxInactiveTimer false))
          have hstop₂ := (stopTo_congr (h₂.signature.trans hsig.symm) (stopsAtOnce_setTimer
            (fun a => { a.maxInactiveTimer with armed := false }) .maxInactive) ph q).trans hstop
          rw [if_neg (by simp), hderef, ok_bind, ← hslots.1, ← hstop₂]
          have hcancel (b : Application) (hb : (m.elapsed app .maxInactive).apps app = some b) :
              ((m.elapsed app .maxInactive).modify app fun a =>
                { a with maxInactiveTimer := { a.maxInactiveTimer with armed := false } }).apps app =
              some { b with maxInactiveTimer := { b.maxInactiveTimer with armed := false } } := by
            simp [hb]
          exact (doAppStop_leads h₂.shows hq
            (deref_ok.mpr ⟨hcancel _ ha₁, hslots.2.trans hd⟩)).silent h₂

end ApplicationManager
end Flingd.App
