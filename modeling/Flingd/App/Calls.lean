import Flingd.App.Phases

/-! Stopping, and launching next to a slot that is occupied: one lemma for each call and
phase. `r` stands for launches that are nested deeper than any that happens. -/
namespace Flingd.App
open Outcome

/-- What is noted when the id of the application in the slot is read. -/
def Phase.staleMarks : Phase → List Mark
  | .dangling app => [.stale app]
  | _ => []

/-- Where a call leads to: the phase, the queue, and what was noted meanwhile. `none` is the
use of a deleted application. -/
abbrev Course := Option (Phase × List Nat × List Mark)

def Course.after (marks : List Mark) (c : Course) : Course :=
  c.map fun (ph, q, marks') => (ph, q, marks ++ marks')

namespace ApplicationManager
variable {m m' : ApplicationManager} {ph : Phase} {st : AppState} {q rest : List Nat}
variable {app slot : Nat} {r : ApplicationManager → Nat → Except Fault ApplicationManager}

def Leads (m : ApplicationManager) (x : Except Fault ApplicationManager) : Course → Prop
  | none => x = .error .freed
  | some (ph, q, marks) => ∃ m', x = .ok m' ∧ Became m m' ph ph.state q marks

theorem Leads.after {marks : List Mark} {x : Except Fault ApplicationManager} {c : Course}
    (h : Became m m' ph st q marks) (hx : Leads m' x c) : Leads m x (c.after marks) := by
  cases c with
  | none => exact hx
  | some dest =>
    obtain ⟨m'', hm, h'⟩ := hx
    exact ⟨m'', hm, h.trans h'⟩

theorem Leads.silent {x : Except Fault ApplicationManager} {c : Course}
    (h : Became m m' ph st q []) (hx : Leads m' x c) : Leads m x c := by
  have h' := hx.after h
  cases c <;> exact h'

/-! ### What is known of an application for good -/

def idOf (m : ApplicationManager) (app : Nat) : Option Bytes := (m.signature app).map (·.1)

def accepts (m : ApplicationManager) (app : Nat) : Bool :=
  (m.signature app).any (·.2.accepted)

def usesIpc (m : ApplicationManager) (app : Nat) : Bool := (m.signature app).any (·.2.useIpc)

theorem signature_of_apps {a : Application} (h : m.apps app = some a) :
    m.signature app = some (a.appId, a.info) := by
  simp [signature, h]

theorem idOf_of_apps {a : Application} (h : m.apps app = some a) : m.idOf app = some a.appId := by
  simp [idOf, signature_of_apps h]

theorem idOf_congr (h : m'.signature = m.signature) (app : Nat) : m'.idOf app = m.idOf app := by
  simp only [idOf, h]

/-! ### Reads and appends -/

def note (m : ApplicationManager) (marks : List Mark) : ApplicationManager :=
  { m with log := m.log ++ marks }

theorem Shows.note (h : m.Shows ph st q) (marks : List Mark) :
    Became m (m.note marks) ph st q marks where
  shows := ⟨h.top, h.starting, h.stopping, h.queue, h.fits, h.waits, ⟨h.heap.known, h.heap.slots⟩,
    h.timers⟩
  signature := rfl
  nextApp := rfl
  log := rfl

/-- The id of the application in the slot can be read, which is noted when it is deleted. -/
theorem Shows.getAppId (h : m.Shows ph st q) (hs : ph.slot = some slot) :
    ∃ a, m.apps slot = some a ∧
      m.getAppId slot = .ok (a.appId, m.note ph.staleMarks) := by
  have hlive (p : Application → Prop) (hl : m.Live slot p) (hn : ph.staleMarks = []) :
      ∃ a, m.apps slot = some a ∧
        m.getAppId slot = .ok (a.appId, m.note ph.staleMarks) := by
    obtain ⟨a, ha, hd, -⟩ := hl
    exact ⟨a, ha, by
        simp [ApplicationManager.getAppId, ha, hd, hn, ApplicationManager.note]⟩
  have hfits := h.fits
  cases ph with
  | idle => cases hs
  | dangling p =>
    cases hs
    obtain ⟨a, ha, hd, -⟩ := hfits
    exact ⟨a, ha, by simp [ApplicationManager.getAppId, ha, hd, mark, Phase.staleMarks,
      ApplicationManager.note]⟩
  | _ p => cases hs; exact hlive _ hfits rfl

/-- An application that was never launched is appended to the queue. -/
theorem Shows.push (h : m.Shows ph st q)
    (ha : m.Live app fun a => a.slots = 0 ∧ a.appState = .starting) (hq : app ∉ q) :
    Became m (m.push app) ph st (q ++ [app]) [.queued app] where
  shows :=
    { top := h.top
      starting := h.starting
      stopping := h.stopping
      queue := by
        change m.penddingApplications_ ++ [app] = _
        rw [h.queue]
      fits := h.fits
      waits := by
        refine ⟨?_, fun i hi => ?_⟩
        · rw [List.nodup_append]
          exact ⟨h.waits.1, by simp, fun i hi j hj => by
            rw [List.mem_singleton.mp hj]
            rintro rfl
            exact hq hi⟩
        · rcases List.mem_append.mp hi with hi | hi
          · exact h.waits.2 i hi
          · exact List.mem_singleton.mp hi ▸ ha
      heap := ⟨h.heap.known, h.heap.slots⟩
      timers := h.timers }
  signature := rfl
  nextApp := rfl
  log := rfl

theorem Shows.pop (h : m.Shows ph st (app :: rest)) :
    Became m { m with penddingApplications_ := rest } ph st rest [] ∧
      m.Live app (fun a => a.slots = 0) ∧ app ∉ rest := by
  obtain ⟨hn, hl⟩ := h.waits
  obtain ⟨hnot, hn⟩ := List.nodup_cons.mp hn
  refine ⟨⟨⟨h.top, h.starting, h.stopping, rfl, h.fits, ⟨hn, fun i hi => hl i (by simp [hi])⟩,
    ⟨h.heap.known, h.heap.slots⟩, h.timers⟩, rfl, rfl, by simp⟩, ?_, hnot⟩
  exact (hl app (by simp)).mono fun _ ha => ha.1

/-- Launching starts with the state of the application. -/
theorem launchBody_state (h : m.Shows ph st q) (ha : m.Live app fun a => a.slots = 0)
    (hq : app ∉ q) :
    ∃ m₁ a, Became m m₁ ph st q [] ∧
      m₁.Live app (fun a => a.slots = 0 ∧ a.appState = .starting) ∧
      m.update app (fun a => { a with appState := .starting }) = .ok m₁ ∧
      m₁.deref app = .ok a ∧ m₁.idOf app = some a.appId := by
  obtain ⟨a, hd, -⟩ := ha.deref
  have hlive : (m.modify app fun a => { a with appState := .starting }).Live app
      (fun a => a.slots = 0 ∧ a.appState = .starting) :=
    ha.modify_self fun _ hd ha => ⟨hd, ha, rfl⟩
  obtain ⟨a', hd', -⟩ := hlive.deref
  exact ⟨_, a', h.setState_fresh ha hq .starting, hlive, update_ok hd, hd',
    idOf_of_apps (deref_ok.mp hd').1⟩

/-! ### Launching next to an occupied slot -/

/-- The queue once `app` was launched next to the starting or top application `slot`. -/
def queuedBehind (m : ApplicationManager) (slot app : Nat) (q : List Nat) : List Nat :=
  if m.idOf slot = m.idOf app then q else q ++ [app]

def queuedMarks (m : ApplicationManager) (slot app : Nat) : List Mark :=
  if m.idOf slot = m.idOf app then [] else [.queued app]

theorem queuedBehind_congr (h : m'.signature = m.signature) (slot app : Nat) (q : List Nat) :
    m'.queuedBehind slot app q = m.queuedBehind slot app q := by
  unfold queuedBehind
  rw [idOf_congr h, idOf_congr h]

theorem queuedMarks_congr (h : m'.signature = m.signature) (slot app : Nat) :
    m'.queuedMarks slot app = m.queuedMarks slot app := by
  unfold queuedMarks
  rw [idOf_congr h, idOf_congr h]

theorem launchBody_dangling (h : m.Shows (.dangling slot) st q)
    (ha : m.Live app fun a => a.slots = 0) (hq : app ∉ q) :
    ∃ m', launchBody r m app = .ok m' ∧ Became m m' (.dangling slot) st
      (m.queuedBehind slot app q) (.stale slot :: m.queuedMarks slot app) := by
  obtain ⟨m₁, a, h₁, hlive, hupd, hd, hid⟩ := launchBody_state h ha hq
  obtain ⟨b, hb, hget⟩ := h₁.shows.getAppId rfl
  have hids : m.idOf slot = m.idOf app ↔ b.appId = a.appId := by
    rw [← idOf_congr h₁.signature slot, ← idOf_congr h₁.signature app, hid, idOf_of_apps hb,
      Option.some_inj]
  have h₂ := h₁.trans (h₁.shows.note [.stale slot])
  unfold launchBody
  simp only [hupd, ok_bind, hd, h₁.shows.starting, Phase.startingSlot, hget, Phase.staleMarks]
  unfold queuedBehind queuedMarks
  by_cases he : b.appId = a.appId
  · simp only [if_pos (hids.mpr he), he, ne_eq, not_true, if_false]
    exact ⟨_, rfl, h₂⟩
  · simp only [if_neg fun hi => he (hids.mp hi), he, ne_eq, not_false_eq_true, if_true]
    exact ⟨_, rfl, h₂.trans (h₂.shows.push hlive hq)⟩

theorem launchBody_stopping (h : m.Shows (.stopping slot) .stopping q)
    (ha : m.Live app fun a => a.slots = 0) (hq : app ∉ q) :
    Leads m (launchBody r m app) (some (.stopping slot, q ++ [app], [.queued app])) := by
  obtain ⟨m₁, a, h₁, hlive, hupd, hd, -⟩ := launchBody_state h ha hq
  obtain ⟨b, hb, hget⟩ := h₁.shows.getAppId rfl
  have h₂ := h₁.trans (h₁.shows.note [])
  unfold launchBody
  simp only [hupd, ok_bind, hd, h₁.shows.starting, h₁.shows.top, h₁.shows.stopping,
    Phase.startingSlot, Phase.top, Phase.stoppingSlot, hget, Phase.staleMarks]
  exact ⟨_, rfl, h₂.trans (h₂.shows.push hlive hq)⟩

/-! ### Deleting an application -/

/-- The manager after `onStoped`, before the queue is looked at. -/
def retired (m : ApplicationManager) (app : Nat) : ApplicationManager :=
  { (m.mark (.stopped app m.stoppingApplication_)).modify app Application.onStoped with
    stoppingApplication_ := none }

def drain (r : ApplicationManager → Nat → Except Fault ApplicationManager)
    (m : ApplicationManager) : Except Fault ApplicationManager :=
  match m.penddingApplications_ with
  | [] => .ok m
  | app :: rest => r { m with penddingApplications_ := rest } app

theorem drain_nil (h : m.penddingApplications_ = []) : drain r m = .ok m := by
  unfold drain
  rw [h]

theorem drain_cons (h : m.penddingApplications_ = app :: rest) :
    drain r m = r { m with penddingApplications_ := rest } app := by
  unfold drain
  rw [h]

theorem onAppStopped_eq {a : Application} (h : m.deref app = .ok a) :
    onAppStopped r m app = drain r (m.retired app) := by
  have hupd : (m.mark (.stopped app m.stoppingApplication_)).update app Application.onStoped =
      .ok ((m.mark (.stopped app m.stoppingApplication_)).modify app Application.onStoped) :=
    update_ok (m := m.mark _) h
  unfold onAppStopped
  rw [hupd, ok_bind]
  rfl

theorem harmless_cancelStop :
    Harmless fun a => { a with stopTimer := { a.stopTimer with armed := false } } :=
  ⟨fun _ => rfl, fun _ => rfl, fun _ => rfl, fun _ => rfl, fun _ => rfl, fun _ h => h,
    fun _ h => .inr (h.resolve_left (by simp))⟩

/-- `stopped` is heard by the manager once. -/
theorem stopped_eq (h : m.Live app fun a => a.slots = 1) :
    stopped r m app = drain r ((m.modify app fun a =>
      { a with stopTimer := { a.stopTimer with armed := false } }).retired app) := by
  obtain ⟨a, hd, hs⟩ := h.deref
  obtain ⟨a', hd', -⟩ := (h.harmless harmless_cancelStop fun _ hp => hp).deref
  unfold stopped
  rw [hd, ok_bind]
  simp only [hs, runSlots_one]
  exact onAppStopped_eq hd'

/-- The timers stay in order when the application in the slot is deleted. -/
theorem Shows.timers_onStoped (h : m.Shows ph st q) (hs : ph.slot = some app) :
    StopTimers (m.modify app Application.onStoped) none := by
  refine h.timers.modify (fun i hi hs' => absurd ?_ hi) fun a _ hd _ =>
    absurd hd (by simp [Application.onStoped])
  cases ph with
  | stopping p =>
    cases hs
    cases hs'
    rfl
  | _ => cases hs'

/-! ### The queue next to a slot that is not cleared -/

/-- What is left of the queue when its first entry is launched next to the application
`slot`, which is deleted: it is dropped where the ids are the same, else it goes to the end. -/
def settle (m : ApplicationManager) (slot : Nat) : List Nat → List Nat
  | [] => []
  | app :: rest => m.queuedBehind slot app rest

def settleMarks (m : ApplicationManager) (slot : Nat) : List Nat → List Mark
  | [] => []
  | app :: _ => .stale slot :: m.queuedMarks slot app

theorem settle_congr (h : m'.signature = m.signature) (slot : Nat) (q : List Nat) :
    m'.settle slot q = m.settle slot q := by
  cases q with
  | nil => rfl
  | cons app rest => exact queuedBehind_congr h slot app rest

theorem settleMarks_congr (h : m'.signature = m.signature) (slot : Nat) (q : List Nat) :
    m'.settleMarks slot q = m.settleMarks slot q := by
  cases q with
  | nil => rfl
  | cons app rest => exact congrArg (.stale slot :: ·) (queuedMarks_congr h slot app)

theorem drain_dangling (h : m.Shows (.dangling slot) st q) :
    ∃ m', drain (launchBody r) m = .ok m' ∧
      Became m m' (.dangling slot) st (m.settle slot q) (m.settleMarks slot q) := by
  cases q with
  | nil => exact ⟨m, drain_nil h.queue, h, rfl, rfl, by simp [settleMarks]⟩
  | cons app rest =>
    rw [drain_cons h.queue]
    obtain ⟨h₁, hlive, hnot⟩ := h.pop
    obtain ⟨m', hm, h₂⟩ := launchBody_dangling (r := r) h₁.shows hlive hnot
    exact ⟨m', hm, h₁.trans h₂⟩

/-! ### `stopApplication` -/

/-- The receiver of an application that does not stop at once is asked to, and waited for. -/
def stopsAtOnce (m : ApplicationManager) (app : Nat) : Bool :=
  (m.apps app).all fun a => !(a.info.useIpc && a.wsConnected)

def stopTo (m : ApplicationManager) : Phase → List Nat → Course
  | .idle, q => some (.idle, q, [])
  | .starting app, q =>
    if m.stopsAtOnce app then some (.idle, m.settle app q,
      [.stopping app, .stopped app (some app)] ++ m.settleMarks app q)
    else some (.stopping app, q, [.stopping app])
  | .dangling _, _ => none
  | .running app, q =>
    if m.stopsAtOnce app then some (.idle, q, [.stopping app, .stopped app (some app)])
    else some (.stopping app, q, [.stopping app])
  | .stopping app, q => some (.stopping app, q, [])

/-- The application in `stoppingApplication_`, asked to stop. -/
def halted (m : ApplicationManager) (app : Nat) : ApplicationManager :=
  (m.note [.stopping app]).modify app fun a => { a with appState := .stopping }

theorem Shows.halted (h : m.Shows ph st q) (hs : ph.slot = some app) :
    Became m (m.halted app) ph .stopping q [.stopping app] :=
  (h.note [.stopping app]).trans ((h.note [.stopping app]).shows.setState hs (by simp))

theorem doStop_async {p : Application → Prop} (h : m.Live app p) (hs : m.stopsAtOnce app = false) :
    _doStopApplication r m app = .ok ({ m.halted app with stoppingApplication_ := some app }.modify
      app fun a => { a with stopTimer := { a.stopTimer with armed := true } }) := by
  obtain ⟨a, ha, hd, -⟩ := h
  have hderef : m.deref app = .ok a := deref_ok.mpr ⟨ha, hd⟩
  have hws : a.info.useIpc = true ∧ a.wsConnected = true := by
    simpa [stopsAtOnce, ha] using hs
  unfold _doStopApplication onStopping
  have h₁ : deref { m with stoppingApplication_ := some app } app = .ok a := hderef
  have h₂ : deref (mark { m with stoppingApplication_ := some app } (.stopping app)) app = .ok a :=
    hderef
  simp only [h₁, h₂, ok_bind, hws, and_self, if_true]
  refine update_ok (a := { a with appState := .stopping }) (deref_ok.mpr ⟨?_, hd⟩)
  simp [mark, ha]

/-- An application that stops at once is deleted. -/
def finished (m : ApplicationManager) (app : Nat) : ApplicationManager :=
  retired ({ m.halted app with stoppingApplication_ := some app }.modify app fun a =>
    { a with stopTimer := { a.stopTimer with armed := false } }) app

theorem doStop_at_once (h : m.Live app fun a => a.slots = 1) (hs : m.stopsAtOnce app = true) :
    _doStopApplication r m app = drain r (m.finished app) := by
  obtain ⟨a, ha, hd, hslots⟩ := h
  have hderef : m.deref app = .ok a := deref_ok.mpr ⟨ha, hd⟩
  have hws : ¬ (a.info.useIpc = true ∧ a.wsConnected = true) := by
    simpa [stopsAtOnce, ha, imp_iff_not_or] using hs
  unfold _doStopApplication onStopping
  have h₁ : deref { m with stoppingApplication_ := some app } app = .ok a := hderef
  have h₂ : deref (mark { m with stoppingApplication_ := some app } (.stopping app)) app = .ok a :=
    hderef
  simp only [h₁, h₂, ok_bind, hws, if_false]
  exact stopped_eq ⟨{ a with appState := .stopping }, by simp [mark, ha], hd, hslots⟩

theorem doStop_freed (h : m.deref app = .error .freed) :
    _doStopApplication r m app = .error .freed := by
  unfold _doStopApplication
  have h₁ : deref { m with stoppingApplication_ := some app } app = .error .freed := h
  simp only [h₁]
  rfl

theorem deref_deleted {a : Application} (ha : m.apps app = some a) (hd : a.deleted = true) :
    m.deref app = .error .freed := by
  simp [deref, ha, hd]

theorem Shows.timers_armed (h : m.Shows ph st q) (hph : ph.stoppingSlot = none) :
    StopTimers (m.modify app fun a => { a with stopTimer := { a.stopTimer with armed := true } })
      (some app) :=
  h.timers.modify (fun i _ hs => by rw [hph] at hs; cases hs) fun _ _ _ _ => rfl

theorem Live.asks_to_stop {p : Application → Prop} (h : m.Live app p)
    (hs : m.stopsAtOnce app = false) :
    m.Live app fun a => p a ∧ a.info.useIpc = true ∧ a.wsConnected = true := by
  obtain ⟨a, ha, hd, hp⟩ := h
  exact ⟨a, ha, hd, hp, by simpa [stopsAtOnce, ha] using hs⟩

/-- With nothing to stop, or a stop under way, nothing happens. -/
theorem stop_idle (h : m.Shows .idle st q) : stopApplication r m = .ok m := by
  unfold stopApplication
  simp only [h.stopping, h.top, h.starting, Phase.stoppingSlot, Phase.top, Phase.startingSlot]

theorem stop_stopping (h : m.Shows (.stopping app) st q) : stopApplication r m = .ok m := by
  unfold stopApplication
  simp only [h.stopping, Phase.stoppingSlot]

theorem stop_dangling (h : m.Shows (.dangling app) st q) :
    stopApplication r m = .error .freed := by
  obtain ⟨a, ha, hd, -⟩ := h.fits
  unfold stopApplication
  simp only [h.stopping, h.top, h.starting, Phase.stoppingSlot, Phase.top, Phase.startingSlot]
  rw [doStop_freed (deref_deleted ha hd)]
  rfl

theorem stop_starting_async (h : m.Shows (.starting app) st q) (hs : m.stopsAtOnce app = false) :
    Leads m (stopApplication r m) (some (.stopping app, q, [.stopping app])) := by
  have h₁ := h.halted rfl
  have hl : (m.halted app).Live app fun a =>
      a.slots = 1 ∧ a.appState = .stopping ∧ a.info.useIpc = true ∧ a.wsConnected = true :=
    (Live.asks_to_stop h.fits hs).modify_self (m := m.note _) fun _ hd ha =>
      ⟨hd, ha.1.1, rfl, ha.2⟩
  unfold stopApplication
  simp only [h.stopping, h.top, h.starting, Phase.stoppingSlot, Phase.top, Phase.startingSlot]
  rw [doStop_async h.fits hs, ok_bind]
  refine ⟨_, rfl, h₁.trans (h₁.shows.change
    (fun a => { a with stopTimer := { a.stopTimer with armed := true } }) (h.slot_not_mem rfl)
    (fun _ => ⟨rfl, rfl⟩) (h₁.shows.heap.slots app)
    (hl.modify_self fun _ hd ha => ⟨hd, ha⟩) (h₁.shows.timers_armed rfl)
    rfl h.top rfl rfl rfl rfl (List.append_nil _).symm)⟩

theorem stop_running_async (h : m.Shows (.running app) st q) (hs : m.stopsAtOnce app = false) :
    Leads m (stopApplication r m) (some (.stopping app, q, [.stopping app])) := by
  have h₁ := h.halted rfl
  have hl : (m.halted app).Live app fun a =>
      a.slots = 1 ∧ a.appState = .stopping ∧ a.info.useIpc = true ∧ a.wsConnected = true :=
    (Live.asks_to_stop h.fits hs).modify_self (m := m.note _) fun _ hd ha =>
      ⟨hd, ha.1.1, rfl, ha.2⟩
  unfold stopApplication
  simp only [h.stopping, h.top, Phase.stoppingSlot, Phase.top]
  rw [doStop_async h.fits hs, ok_bind]
  refine ⟨_, rfl, h₁.trans (h₁.shows.change
    (fun a => { a with stopTimer := { a.stopTimer with armed := true } }) (h.slot_not_mem rfl)
    (fun _ => ⟨rfl, rfl⟩) (h₁.shows.heap.slots app)
    (hl.modify_self fun _ hd ha => ⟨hd, ha⟩) (h₁.shows.timers_armed rfl)
    rfl rfl h.starting rfl rfl rfl (List.append_nil _).symm)⟩

theorem stop_running_at_once (h : m.Shows (.running app) st []) (hs : m.stopsAtOnce app = true) :
    Leads m (stopApplication r m) (some (.idle, [], [.stopping app, .stopped app (some app)])) := by
  have h₁ := h.halted rfl
  have h₂ := h₁.trans (h₁.shows.harmless app harmless_cancelStop)
  unfold stopApplication
  simp only [h.stopping, h.top, Phase.stoppingSlot, Phase.top]
  rw [doStop_at_once (h.fits.mono fun _ ha => ha.1) hs, drain_nil, ok_bind]
  · exact ⟨_, rfl, h₂.trans (h₂.shows.change Application.onStoped (by simp) (fun _ => ⟨rfl, rfl⟩)
      (h₂.shows.heap.slots app) trivial (h₂.shows.timers_onStoped rfl) rfl rfl h.starting rfl rfl rfl
      rfl)⟩
  · exact h.queue

theorem Shows.clear_starting (h : m.Shows (.dangling app) st q) :
    Became m { m with startingApplication_ := none } .idle .stopped q [] where
  shows := ⟨h.top, rfl, h.stopping, h.queue, trivial, h.waits, ⟨h.heap.known, h.heap.slots⟩,
    h.timers⟩
  signature := rfl
  nextApp := rfl
  log := (List.append_nil _).symm

theorem Shows.retire_starting {st' : AppState} {marks : List Mark}
    (h : m.Shows (.starting app) st q) (hst : st' = .stopped → m.accepts app = false)
    (happs : m'.apps = (m.modify app Application.onStoped).apps)
    (htop : m'.topApplication_ = m.topApplication_)
    (hstarting : m'.startingApplication_ = m.startingApplication_)
    (hstopping : m'.stoppingApplication_ = none)
    (hqueue : m'.penddingApplications_ = m.penddingApplications_)
    (hnext : m'.nextApp = m.nextApp) (hlog : m'.log = m.log ++ marks) :
    Became m m' (.dangling app) st' q marks := by
  refine h.change Application.onStoped (h.slot_not_mem rfl) (fun _ => ⟨rfl, rfl⟩) (h.heap.slots app) ?_
    (h.timers_onStoped rfl) happs (htop.trans h.top) (hstarting.trans h.starting) hstopping hqueue
    hnext hlog
  obtain ⟨a, ha, -⟩ := h.fits
  exact ⟨a.onStoped, by simp [ha], rfl, fun hs => by
    simpa [accepts, signature_of_apps ha, Application.onStoped] using hst hs⟩

/-- The queue is tried while the application is still in its slot. -/
theorem stop_starting_at_once (h : m.Shows (.starting app) st q) (hs : m.stopsAtOnce app = true) :
    Leads m (stopApplication (launchBody r) m) (some (.idle, m.settle app q,
      [.stopping app, .stopped app (some app)] ++ m.settleMarks app q)) := by
  have h₁ := h.halted rfl
  have h₂ := h₁.trans (h₁.shows.harmless app harmless_cancelStop)
  have h₃ : Became m (m.finished app) (.dangling app) .stopping q
      [.stopping app, .stopped app (some app)] :=
    h₂.trans (h₂.shows.retire_starting (by simp) rfl rfl rfl rfl rfl rfl rfl)
  obtain ⟨m₄, hdrain, h₄⟩ := drain_dangling (r := r) h₃.shows
  rw [settle_congr h₃.signature, settleMarks_congr h₃.signature] at h₄
  unfold stopApplication
  simp only [h.stopping, h.top, h.starting, Phase.stoppingSlot, Phase.top, Phase.startingSlot]
  rw [doStop_at_once (h.fits.mono fun _ ha => ha.1) hs]
  refine ⟨{ m₄ with startingApplication_ := none }, ?_, ?_⟩
  · exact congrArg (· >>= fun m => .ok { m with startingApplication_ := none }) hdrain
  · rw [← List.append_nil (_ ++ m.settleMarks app q)]
    exact (h₃.trans h₄).trans h₄.shows.clear_starting

/-- The top application runs only while nothing waits. -/
theorem stop_leads (h : m.Shows ph ph.state q) (hq : ∀ app, ph = .running app → q = []) :
    Leads m (stopApplication (launchBody r) m) (m.stopTo ph q) := by
  cases ph with
  | idle => exact ⟨m, stop_idle h, h, rfl, rfl, (List.append_nil _).symm⟩
  | stopping app => exact ⟨m, stop_stopping h, h, rfl, rfl, (List.append_nil _).symm⟩
  | dangling app => exact stop_dangling h
  | starting app =>
    cases hs : m.stopsAtOnce app with
    | true =>
      simp only [stopTo, hs, if_true]
      exact stop_starting_at_once h hs
    | false =>
      simp only [stopTo, hs, Bool.false_eq_true, if_false]
      exact stop_starting_async h hs
  | running app =>
    obtain rfl := hq app rfl
    cases hs : m.stopsAtOnce app with
    | true =>
      simp only [stopTo, hs, if_true]
      exact stop_running_at_once h hs
    | false =>
      simp only [stopTo, hs, Bool.false_eq_true, if_false]
      exact stop_running_async h hs

end ApplicationManager
end Flingd.App
