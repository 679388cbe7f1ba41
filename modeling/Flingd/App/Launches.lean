import Flingd.App.Calls

/-! Launching where every slot is empty, and what follows when an application has started
or has stopped. -/
namespace Flingd.App
open Outcome
namespace ApplicationManager
variable {m m' : ApplicationManager} {ph : Phase} {st : AppState} {q rest : List Nat}
variable {app slot : Nat} {r : ApplicationManager → Nat → Except Fault ApplicationManager}

/-- Where the launch of an application leads to when every slot is empty. An application
that is up at once is stopped for what waits, and used after that. -/
def landing (m : ApplicationManager) (app : Nat) (q : List Nat) : Course :=
  if m.accepts app then
    if m.usesIpc app then some (.starting app, q, [.handed app])
    else if q = [] then some (.running app, [], [.handed app])
    else none
  else some (.dangling app, m.settle app q,
    [.handed app, .stopped app none] ++ m.settleMarks app q)

theorem landing_congr (h : m'.signature = m.signature) (app : Nat) (q : List Nat) :
    m'.landing app q = m.landing app q := by
  unfold landing accepts usesIpc
  rw [h, settle_congr h, settleMarks_congr h]

/-! ### Applications that have started -/

/-- The manager after `onAppStarted`, before the queue is looked at. -/
def begun (m : ApplicationManager) (app : Nat) : ApplicationManager :=
  { (m.modify app fun a => { a with
      startTimer := { a.startTimer with armed := false }
      wsConnected := a.wsConnected || a.info.useIpc }).modify app fun a =>
      { a with appState := .running } with
    topApplication_ := some app, startingApplication_ := none }

theorem harmless_begin : Harmless fun a => { a with
    startTimer := { a.startTimer with armed := false }
    wsConnected := a.wsConnected || a.info.useIpc } :=
  ⟨fun _ => rfl, fun _ => rfl, fun _ => rfl, fun _ => rfl, fun _ => rfl, fun a h => by simp [h],
    fun _ h => h⟩

theorem started_eq (h : m.Live app fun a => a.slots = 1) :
    started r m app = if m.penddingApplications_ = [] then .ok (m.begun app)
      else stopApplication r (m.begun app) := by
  obtain ⟨a, hd, hs⟩ := h.deref
  obtain ⟨a', hd', -⟩ := (h.harmless harmless_begin fun _ hp => hp).deref
  unfold started
  rw [hd, ok_bind]
  simp only [hs, runSlots_one]
  unfold onAppStarted
  rw [update_ok hd', ok_bind]
  rfl

theorem Shows.begin (h : m.Shows ph st q) (hs : ph.slot = some app) (hph : ph.stoppingSlot = none)
    (hl : m.Live app fun a => a.slots = 1) :
    Became m (m.begun app) (.running app) .running q [] := by
  have h₁ := h.harmless app harmless_begin
  have hl₁ : (m.modify app fun a => { a with
      startTimer := { a.startTimer with armed := false }
      wsConnected := a.wsConnected || a.info.useIpc }).Live app
        (fun a => a.slots = 1 ∧ (a.info.useIpc = true → a.wsConnected = true)) :=
    hl.modify_self fun a hd ha => ⟨hd, ha, fun hi => by simp [show a.info.useIpc = true from hi]⟩
  refine h₁.trans (h₁.shows.change (fun a => { a with appState := .running })
    (h.slot_not_mem hs) (fun _ => ⟨rfl, rfl⟩) (h₁.shows.heap.slots app)
    (hl₁.modify_self fun _ hd ha => ⟨hd, ha.1, rfl, ha.2⟩)
    (h₁.shows.timers.modify (fun _ _ ht => absurd ht (by simp [hph])) fun a ha hd hact => ?_)
    rfl rfl rfl (h.stopping.trans hph) rfl rfl (List.append_nil _).symm)
  have := h₁.shows.timers app a ha hd hact
  rw [hph] at this
  cases this

/-- With nothing in the queue the application is the top application then. -/
theorem started_quiet (h : m.Shows ph st []) (hs : ph.slot = some app)
    (hph : ph.stoppingSlot = none) (hl : m.Live app fun a => a.slots = 1) :
    Leads m (started r m app) (some (.running app, [], [])) := by
  rw [started_eq hl, if_pos h.queue]
  exact ⟨_, rfl, h.begin hs hph hl⟩

/-- Else it is asked to stop at once. -/
theorem started_ipc (h : m.Shows ph st q) (hs : ph.slot = some app) (hph : ph.stoppingSlot = none)
    (hl : m.Live app fun a => a.slots = 1 ∧ a.info.useIpc = true) (hq : q ≠ []) :
    Leads m (started r m app) (some (.stopping app, q, [.stopping app])) := by
  have hl' := hl.mono fun _ ha => ha.1
  have h₁ := h.begin hs hph hl'
  have hasync : (m.begun app).stopsAtOnce app = false := by
    obtain ⟨a, ha, -, -, hi⟩ := hl
    simp [stopsAtOnce, begun, ha, hi]
  rw [started_eq hl', h.queue, if_neg hq]
  exact (stop_running_async h₁.shows hasync).silent h₁

/-- An application that waits hears nothing of it. -/
theorem started_waiting (h : m.Shows ph st q) (hq : app ∈ q) :
    ∃ m', started r m app = .ok m' ∧ Became m m' ph st q [] := by
  obtain ⟨a, hd, hs, -⟩ := (h.waits.2 app hq).deref
  refine ⟨_, ?_, h.harmless app harmless_begin⟩
  unfold started
  rw [hd, ok_bind]
  simp only [hs]
  rfl

/-! ### An application that is up while others wait -/

def Deleted (m : ApplicationManager) (app : Nat) : Prop := ∃ a, m.apps app = some a ∧ a.deleted = true

/-- A launch next to a top application that is deleted uses it, or leaves it as it is. -/
theorem launchBody_top_deleted {p : Application → Prop} (htop : m.topApplication_ = some slot)
    (hstarting : m.startingApplication_ = none) (hstopping : m.stoppingApplication_ = none)
    (hs : m.Deleted slot) (ha : m.Live app p) :
    launchBody r m app = .error .freed ∨ ∃ m', launchBody r m app = .ok m' ∧ m'.Deleted slot := by
  obtain ⟨b, hb, hbd⟩ := hs
  obtain ⟨a, happ, had, -⟩ := ha
  have hne : slot ≠ app := by
    rintro rfl
    rw [hb] at happ
    cases happ
    rw [hbd] at had
    cases had
  have hupd := update_ok (f := fun a => { a with appState := .starting }) (deref_ok.mpr ⟨happ, had⟩)
  have hget : (m.modify app fun a => { a with appState := .starting }).getAppId slot =
      .ok (b.appId, (m.modify app fun a => { a with appState := .starting }).mark (.stale slot)) := by
    simp [getAppId, hne, hb, hbd]
  have hd : (m.modify app fun a => { a with appState := .starting }).deref app =
      .ok { a with appState := .starting } :=
    deref_ok.mpr ⟨by simp [happ], had⟩
  unfold launchBody
  simp only [hupd, ok_bind, hd, modify_starting, hstarting, modify_top, htop, hget]
  split
  · left
    unfold stopApplication
    simp only [push, mark, modify_stopping, hstopping, modify_top, htop]
    rw [doStop_freed (deref_deleted (a := b) (by simp [hne, hb]) hbd)]
    rfl
  · exact .inr ⟨_, rfl, b, by simp [mark, hne, hb], hbd⟩

theorem stop_running_busy (h : m.Shows (.running app) st q) (hs : m.stopsAtOnce app = true)
    (hq : q ≠ []) :
    stopApplication (launchBody r) m = .error .freed ∨
      ∃ m', stopApplication (launchBody r) m = .ok m' ∧ m'.Deleted app := by
  obtain ⟨next, rest, rfl⟩ := List.exists_cons_of_ne_nil hq
  obtain ⟨a, ha, -⟩ := h.fits
  have hnext : next ≠ app := by
    rintro rfl
    exact h.slot_not_mem rfl (by simp)
  have hqueue : (m.finished app).penddingApplications_ = next :: rest := h.queue
  have hlive : Live { m.finished app with penddingApplications_ := rest } next
      fun a => a.slots = 0 ∧ a.appState = .starting := by
    obtain ⟨b, hb, hl⟩ := h.waits.2 next (by simp)
    exact ⟨b, by simp [finished, retired, halted, note, mark, hnext, hb], hl⟩
  have hdel : Deleted { m.finished app with penddingApplications_ := rest } app := by
    refine ⟨Application.onStoped { a with
      appState := .stopping, stopTimer := { a.stopTimer with armed := false } }, ?_, rfl⟩
    simp [finished, retired, halted, note, mark, ha]
  unfold stopApplication
  simp only [h.stopping, h.top, Phase.stoppingSlot, Phase.top]
  rw [doStop_at_once (h.fits.mono fun _ ha => ha.1) hs, drain_cons hqueue]
  rcases launchBody_top_deleted (m := { m.finished app with penddingApplications_ := rest }) (r := r)
    h.top h.starting rfl hdel hlive with he | ⟨m', hm, hd⟩
  · exact .inl (by rw [he]; rfl)
  · exact .inr ⟨{ m' with topApplication_ := none }, by rw [hm, ok_bind], hd⟩

/-! ### Launching -/

theorem harmless_startTimer :
    Harmless fun a => { a with startTimer := { a.startTimer with armed := true } } :=
  ⟨fun _ => rfl, fun _ => rfl, fun _ => rfl, fun _ => rfl, fun _ => rfl, fun _ h => h, fun _ h => h⟩

theorem harmless_maxInactiveTimer (armed : Bool) :
    Harmless fun a => { a with maxInactiveTimer := { a.maxInactiveTimer with armed := armed } } :=
  ⟨fun _ => rfl, fun _ => rfl, fun _ => rfl, fun _ => rfl, fun _ => rfl, fun _ h => h, fun _ h => h⟩

theorem onStarting_ipc (h : m.Shows (.starting app) st q) (hi : m.usesIpc app = true) :
    Leads m (onStarting r m app) (some (.starting app, q, [])) := by
  obtain ⟨a, ha, hd, -⟩ := h.fits
  have hi' : a.info.useIpc = true := by simpa [usesIpc, signature_of_apps ha] using hi
  have h₁ : Became m _ (.starting app) .starting _ [] := h.setState rfl (by simp)
  unfold onStarting
  rw [deref_ok.mpr ⟨ha, hd⟩, ok_bind]
  simp only [hi', if_true]
  rw [update_ok (a := { a with appState := .starting }) (deref_ok.mpr ⟨by simp [ha], hd⟩)]
  exact ⟨_, rfl, h₁.trans (h₁.shows.harmless app harmless_startTimer)⟩

theorem onStarting_quiet (h : m.Shows (.starting app) st []) (hi : m.usesIpc app = false) :
    Leads m (onStarting r m app) (some (.running app, [], [])) := by
  obtain ⟨a, ha, hd, hs, -⟩ := h.fits
  have hi' : a.info.useIpc = false := by simpa [usesIpc, signature_of_apps ha] using hi
  have h₁ : Became m _ (.starting app) .starting _ [] := h.setState rfl (by simp)
  obtain ⟨m₂, hstarted, h₂⟩ := started_quiet (r := r) h₁.shows rfl rfl (h₁.shows.fits.mono fun _ ha => ha.1)
  obtain ⟨b, hb, -⟩ := h₂.shows.fits.deref
  unfold onStarting
  rw [deref_ok.mpr ⟨ha, hd⟩, ok_bind]
  simp only [hi', Bool.false_eq_true, if_false]
  rw [hstarted, ok_bind, hb, ok_bind]
  have h₃ := h₁.trans h₂
  by_cases hmax : 0 < b.info.maxInactive
  · rw [if_pos hmax, update_ok hb]
    exact ⟨_, rfl, h₃.trans (h₂.shows.harmless app (harmless_maxInactiveTimer true))⟩
  · rw [if_neg hmax]
    exact ⟨_, rfl, h₃⟩

theorem onStarting_busy (h : m.Shows (.starting app) st q) (hi : m.usesIpc app = false)
    (hq : q ≠ []) : onStarting (launchBody r) m app = .error .freed := by
  obtain ⟨a, ha, hd, hs, -⟩ := h.fits
  have hi' : a.info.useIpc = false := by simpa [usesIpc, signature_of_apps ha] using hi
  have h₁ : Became m _ (.starting app) .starting _ [] := h.setState rfl (by simp)
  have hl := h₁.shows.fits.mono fun _ ha => ha.1
  have h₂ := h₁.shows.begin rfl rfl hl
  have hat : ((m.modify app fun a => { a with appState := .starting }).begun app).stopsAtOnce app =
      true := by
    simp [stopsAtOnce, begun, ha, hi']
  unfold onStarting
  rw [deref_ok.mpr ⟨ha, hd⟩, ok_bind]
  simp only [hi', Bool.false_eq_true, if_false]
  rw [started_eq hl, if_neg (by rw [h₁.shows.queue]; exact hq)]
  rcases stop_running_busy (r := r) h₂.shows hat hq with he | ⟨m', hm, b, hb, hbd⟩
  · rw [he]
    rfl
  · rw [hm, ok_bind, deref_deleted hb hbd]
    rfl

def handed (m : ApplicationManager) (app : Nat) : ApplicationManager :=
  ({ m with startingApplication_ := some app }.modify app fun a =>
    { a with slots := a.slots + 1 }).mark (.handed app)

theorem Shows.handed (h : m.Shows .idle st q)
    (ha : m.Live app fun a => a.slots = 0 ∧ a.appState = .starting) (hq : app ∉ q) :
    Became m (m.handed app) (.starting app) .starting q [.handed app] := by
  refine h.change (fun a => { a with slots := a.slots + 1 }) hq (fun _ => ⟨rfl, rfl⟩) ?_
    (ha.modify_self fun _ hd ha => ⟨hd, by simp [ha.1], ha.2⟩)
    (h.timers.modify (fun _ _ hs => hs) (h.timers app)) rfl h.top rfl h.stopping rfl rfl rfl
  intro a ha'
  obtain ⟨b, hb, -, hs, -⟩ := ha
  rw [hb] at ha'
  cases ha'
  simp [hs]

theorem doLaunch_leads (h : m.Shows .idle st q)
    (ha : m.Live app fun a => a.slots = 0 ∧ a.appState = .starting) (hq : app ∉ q) :
    Leads m (_doLaunchApplication (launchBody r) m app) (m.landing app q) := by
  have h₁ := h.handed ha hq
  obtain ⟨a, hd, -⟩ := ha.deref
  obtain ⟨ha', hd'⟩ := deref_ok.mp hd
  have hupd : update { m with startingApplication_ := some app } app
      (fun a => { a with slots := a.slots + 1 }) =
      .ok ({ m with startingApplication_ := some app }.modify app fun a =>
        { a with slots := a.slots + 1 }) := update_ok (m := { m with startingApplication_ := some app }) hd
  have hd₁ : ({ m with startingApplication_ := some app }.modify app fun a =>
      { a with slots := a.slots + 1 }).deref app = .ok { a with slots := a.slots + 1 } :=
    deref_ok.mpr ⟨by simp [ha'], hd'⟩
  have hacc : m.accepts app = a.info.accepted := by simp [accepts, signature_of_apps ha']
  have heq : _doLaunchApplication (launchBody r) m app =
      if a.info.accepted then onStarting (launchBody r) (m.handed app) app
      else stopped (launchBody r) (m.handed app) app := by
    unfold _doLaunchApplication
    simp only [hupd, ok_bind, hd₁]
    rfl
  have hipc : (m.handed app).usesIpc app = m.usesIpc app := by
    unfold usesIpc
    rw [h₁.signature]
  rw [heq]
  unfold landing
  rw [hacc]
  cases hinfo : a.info.accepted with
  | true =>
    simp only [if_true]
    cases hi : m.usesIpc app with
    | true =>
      simp only [if_true]
      exact (onStarting_ipc h₁.shows (hipc.trans hi)).after h₁
    | false =>
      simp only [Bool.false_eq_true, if_false]
      by_cases hn : q = []
      · subst hn
        rw [if_pos rfl]
        exact (onStarting_quiet h₁.shows (hipc.trans hi)).after h₁
      · rw [if_neg hn]
        exact onStarting_busy h₁.shows (hipc.trans hi) hn
  | false =>
    simp only [Bool.false_eq_true, if_false]
    have h₂ := h₁.trans (h₁.shows.harmless app harmless_cancelStop)
    have h₃ : Became m (((m.handed app).modify app fun a =>
        { a with stopTimer := { a.stopTimer with armed := false } }).retired app) (.dangling app)
        .stopped q [.handed app, .stopped app none] := by
      refine h₂.trans (h₂.shows.retire_starting (fun _ => ?_) rfl rfl rfl rfl rfl rfl ?_)
      · unfold accepts
        rw [h₂.signature]
        exact hacc.trans hinfo
      · change _ ++ [Mark.stopped app m.stoppingApplication_] = _
        rw [h.stopping]
        rfl
    obtain ⟨m₄, hdrain, h₄⟩ := drain_dangling (r := r) h₃.shows
    rw [settle_congr h₃.signature, settleMarks_congr h₃.signature] at h₄
    rw [stopped_eq (h₁.shows.fits.mono fun _ ha => ha.1), hdrain]
    exact ⟨m₄, rfl, h₃.trans h₄⟩

theorem launchBody_idle (h : m.Shows .idle st q) (ha : m.Live app fun a => a.slots = 0)
    (hq : app ∉ q) :
    Leads m (launchBody (launchBody r) m app) (m.landing app q) := by
  obtain ⟨m₁, a, h₁, hlive, hupd, hd, -⟩ := launchBody_state h ha hq
  unfold launchBody
  simp only [hupd, ok_bind, hd, h₁.shows.starting, h₁.shows.top, h₁.shows.stopping,
    Phase.startingSlot, Phase.top, Phase.stoppingSlot]
  rw [← landing_congr h₁.signature]
  exact (doLaunch_leads h₁.shows hlive hq).silent h₁

/-! ### Applications that have stopped -/

def stoppedTo (m : ApplicationManager) (app : Nat) : List Nat → Course
  | [] => some (.idle, [], [.stopped app (some app)])
  | next :: rest => (m.landing next rest).after [.stopped app (some app)]

theorem stopped_leads (h : m.Shows (.stopping app) st q) :
    Leads m (stopped (launchBody (launchBody r)) m app) (m.stoppedTo app q) := by
  have h₁ := h.harmless app harmless_cancelStop
  have h₂ : Became m ((m.modify app fun a =>
      { a with stopTimer := { a.stopTimer with armed := false } }).retired app) .idle .stopped q
      [.stopped app (some app)] := by
    refine h₁.trans (h₁.shows.change Application.onStoped (h.slot_not_mem rfl)
      (fun _ => ⟨rfl, rfl⟩) (h₁.shows.heap.slots app) trivial (h₁.shows.timers_onStoped rfl) rfl h.top
      h.starting rfl rfl rfl ?_)
    change _ ++ [Mark.stopped app m.stoppingApplication_] = _
    rw [h.stopping]
    rfl
  rw [stopped_eq (h.fits.mono fun _ ha => ha.1)]
  cases q with
  | nil => exact ⟨_, drain_nil h.queue, h₂⟩
  | cons next rest =>
    obtain ⟨h₃, hlive, hnot⟩ := h₂.shows.pop
    rw [drain_cons h₂.shows.queue]
    simp only [stoppedTo]
    rw [← landing_congr h₂.signature]
    exact ((launchBody_idle h₃.shows hlive hnot).silent h₃).after h₂

end ApplicationManager
end Flingd.App
