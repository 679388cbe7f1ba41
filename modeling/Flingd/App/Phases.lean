import Flingd.App.ApplicationManager

/-! Which slots of the manager are occupied between two calls, and what each call makes of
them and of the queue. -/
namespace Flingd.App
open Outcome

/-- At most one slot is occupied. `dangling` is a starting application that is deleted: the
platform has refused it, or it stops at once. -/
inductive Phase where
  | idle
  | starting (app : Nat)
  | dangling (app : Nat)
  | running (app : Nat)
  | stopping (app : Nat)
deriving DecidableEq

namespace Phase

def top : Phase → Option Nat
  | .running app => some app
  | _ => none

def startingSlot : Phase → Option Nat
  | .starting app => some app
  | .dangling app => some app
  | _ => none

def stoppingSlot : Phase → Option Nat
  | .stopping app => some app
  | _ => none

def slot : Phase → Option Nat
  | .idle => none
  | .starting app => some app
  | .dangling app => some app
  | .running app => some app
  | .stopping app => some app

def state : Phase → AppState
  | .idle => .stopped
  | .starting _ => .starting
  | .dangling _ => .stopped
  | .running _ => .running
  | .stopping _ => .stopping

end Phase

def Timer.Active (t : Timer) : Prop := t.armed = true ∨ 0 < t.due

namespace ApplicationManager
variable {m m' : ApplicationManager} {ph ph' : Phase} {st st' : AppState} {q q' : List Nat}
variable {app : Nat}

/-! ### The heap -/

@[simp] theorem modify_apps (f : Application → Application) (i : Nat) :
    (m.modify app f).apps i = if i = app then (m.apps i).map f else m.apps i := rfl

@[simp] theorem modify_top (f : Application → Application) :
    (m.modify app f).topApplication_ = m.topApplication_ := rfl

@[simp] theorem modify_starting (f : Application → Application) :
    (m.modify app f).startingApplication_ = m.startingApplication_ := rfl

@[simp] theorem modify_stopping (f : Application → Application) :
    (m.modify app f).stoppingApplication_ = m.stoppingApplication_ := rfl

/-- What never changes of an application. -/
def signature (m : ApplicationManager) (app : Nat) : Option (Bytes × AppInfo) :=
  (m.apps app).map fun a => (a.appId, a.info)

def Live (m : ApplicationManager) (app : Nat) (p : Application → Prop) : Prop :=
  ∃ a, m.apps app = some a ∧ a.deleted = false ∧ p a

theorem Live.mono {p p' : Application → Prop} (h : m.Live app p) (hp : ∀ a, p a → p' a) :
    m.Live app p' := by
  obtain ⟨a, ha, hd, hl⟩ := h
  exact ⟨a, ha, hd, hp a hl⟩

theorem deref_ok {a : Application} :
    m.deref app = .ok a ↔ m.apps app = some a ∧ a.deleted = false := by
  unfold deref
  cases m.apps app with
  | none => simp
  | some b =>
    cases hd : b.deleted with
    | false =>
      simp only [hd, Bool.false_eq_true, if_false]
      constructor
      · rintro h
        cases h
        exact ⟨rfl, hd⟩
      · rintro ⟨h, -⟩
        cases h
        rfl
    | true =>
      simp only [hd, if_true]
      constructor
      · rintro h
        cases h
      · rintro ⟨h, hd'⟩
        cases h
        rw [hd] at hd'
        cases hd'

theorem Live.deref {p : Application → Prop} (h : m.Live app p) :
    ∃ a, m.deref app = .ok a ∧ p a := by
  obtain ⟨a, ha, hd, hp⟩ := h
  exact ⟨a, deref_ok.mpr ⟨ha, hd⟩, hp⟩

theorem update_ok {f : Application → Application} {a : Application} (h : m.deref app = .ok a) :
    m.update app f = .ok (m.modify app f) := by
  unfold update
  rw [h]
  rfl

theorem Live.modify_other {p : Application → Prop} {i : Nat} (f : Application → Application)
    (h : m.Live i p) (hi : i ≠ app) : (m.modify app f).Live i p := by
  obtain ⟨a, ha, hl⟩ := h
  exact ⟨a, by simp [hi, ha], hl⟩

theorem Live.modify_self {p p' : Application → Prop} {f : Application → Application}
    (h : m.Live app p) (hf : ∀ a, a.deleted = false → p a → (f a).deleted = false ∧ p' (f a)) :
    (m.modify app f).Live app p' := by
  obtain ⟨a, ha, hd, hp⟩ := h
  exact ⟨f a, by simp [ha], hf a hd hp⟩

structure HeapSound (m : ApplicationManager) : Prop where
  known : ∀ i, m.nextApp ≤ i → m.apps i = none
  slots : ∀ i a, m.apps i = some a → a.slots ≤ 1

/-- The wait of a stop timer is that of the stopping application. -/
def StopTimers (m : ApplicationManager) (slot : Option Nat) : Prop :=
  ∀ i a, m.apps i = some a → a.deleted = false → a.stopTimer.Active → slot = some i

/-- What waits in the queue is alive and was never launched. -/
def Waits (m : ApplicationManager) (q : List Nat) : Prop :=
  q.Nodup ∧ ∀ i ∈ q, m.Live i fun a => a.slots = 0 ∧ a.appState = .starting

theorem HeapSound.modify {f : Application → Application} (h : HeapSound m)
    (hf : ∀ a, m.apps app = some a → (f a).slots ≤ 1) : HeapSound (m.modify app f) where
  known i hi := by simp [h.known i hi]
  slots i a ha := by
    rw [modify_apps] at ha
    split at ha
    · obtain ⟨a₀, ha₀, rfl⟩ := Option.map_eq_some_iff.mp ha
      exact hf a₀ (by rw [← ha₀, ‹i = app›])
    · exact h.slots i a ha

theorem StopTimers.modify {f : Application → Application} {slot slot' : Option Nat}
    (h : StopTimers m slot) (hslot : ∀ i, i ≠ app → slot = some i → slot' = some i)
    (hf : ∀ a, m.apps app = some a → (f a).deleted = false → (f a).stopTimer.Active →
      slot' = some app) : StopTimers (m.modify app f) slot' := by
  intro i a ha hd hact
  rw [modify_apps] at ha
  split at ha
  · obtain ⟨a₀, ha₀, rfl⟩ := Option.map_eq_some_iff.mp ha
    subst i
    exact hf a₀ ha₀ hd hact
  · rename_i hi
    exact hslot i hi (h i a ha hd hact)

theorem Waits.modify {f : Application → Application} (h : Waits m q) (hq : app ∉ q) :
    Waits (m.modify app f) q :=
  ⟨h.1, fun i hi => (h.2 i hi).modify_other f (fun he => hq (he ▸ hi))⟩

theorem signature_modify {f : Application → Application}
    (hf : ∀ a, (f a).appId = a.appId ∧ (f a).info = a.info) :
    (m.modify app f).signature = m.signature := by
  funext i
  unfold signature
  rw [modify_apps]
  split
  · rw [Option.map_map]
    congr 1
    funext a
    simp [hf a]
  · rfl

/-! ### What holds between two calls -/

/-- What a phase says of the application in its slot, which is in state `st`. -/
def Fits (m : ApplicationManager) (st : AppState) : Phase → Prop
  | .idle => True
  | .starting app => m.Live app fun a => a.slots = 1 ∧ a.appState = st
  | .dangling app => ∃ a, m.apps app = some a ∧ a.deleted = true ∧
    (st = .stopped → a.info.accepted = false)
  | .running app => m.Live app fun a =>
    a.slots = 1 ∧ a.appState = st ∧ (a.info.useIpc = true → a.wsConnected = true)
  | .stopping app => m.Live app fun a =>
    a.slots = 1 ∧ a.appState = st ∧ a.info.useIpc = true ∧ a.wsConnected = true

/-- The slots are those of the phase, and the queue is as given. -/
structure Shows (m : ApplicationManager) (ph : Phase) (st : AppState) (q : List Nat) : Prop where
  top : m.topApplication_ = ph.top
  starting : m.startingApplication_ = ph.startingSlot
  stopping : m.stoppingApplication_ = ph.stoppingSlot
  queue : m.penddingApplications_ = q
  fits : m.Fits st ph
  waits : Waits m q
  heap : HeapSound m
  timers : StopTimers m ph.stoppingSlot

/-- A call has led to a phase and a queue, and this was noted meanwhile. -/
structure Became (m m' : ApplicationManager) (ph : Phase) (st : AppState) (q : List Nat)
    (marks : List Mark) : Prop where
  shows : m'.Shows ph st q
  signature : m'.signature = m.signature
  nextApp : m'.nextApp = m.nextApp
  log : m'.log = m.log ++ marks

theorem Became.trans {m'' : ApplicationManager} {marks marks' : List Mark}
    (h : Became m m' ph st q marks) (h' : Became m' m'' ph' st' q' marks') :
    Became m m'' ph' st' q' (marks ++ marks') where
  shows := h'.shows
  signature := h'.signature.trans h.signature
  nextApp := h'.nextApp.trans h.nextApp
  log := by rw [h'.log, h.log, List.append_assoc]

/-- The application in a slot was launched, or is deleted. -/
theorem Shows.slot_apps (h : m.Shows ph st q) (hs : ph.slot = some app) :
    ∃ a, m.apps app = some a ∧ (a.deleted = true ∨ a.slots = 1) := by
  have hfits := h.fits
  cases ph with
  | idle => cases hs
  | dangling p =>
    cases hs
    obtain ⟨a, ha, hd, -⟩ := hfits
    exact ⟨a, ha, .inl hd⟩
  | _ =>
    cases hs
    obtain ⟨a, ha, -, hl, -⟩ := hfits
    exact ⟨a, ha, .inr hl⟩

theorem Shows.slot_not_fresh (h : m.Shows ph st q) {p : Application → Prop}
    (ha : m.Live app p) (hp : ∀ a, p a → a.slots = 0) : ph.slot ≠ some app := by
  intro hs
  obtain ⟨a, ha, hd, hl⟩ := ha
  obtain ⟨a', ha', hl'⟩ := h.slot_apps hs
  rw [ha] at ha'
  cases ha'
  have := hp a hl
  rcases hl' with hd' | hl'
  · rw [hd] at hd'
    cases hd'
  · omega

theorem Shows.slot_not_mem (h : m.Shows ph st q) (hs : ph.slot = some app) : app ∉ q := fun hq =>
  h.slot_not_fresh (h.waits.2 app hq) (fun _ ha => ha.1) hs

/-- A change of an application that no phase and no queue looks at. -/
structure Harmless (f : Application → Application) : Prop where
  appId : ∀ a, (f a).appId = a.appId
  info : ∀ a, (f a).info = a.info
  appState : ∀ a, (f a).appState = a.appState
  deleted : ∀ a, (f a).deleted = a.deleted
  slots : ∀ a, (f a).slots = a.slots
  wsConnected : ∀ a, a.wsConnected = true → (f a).wsConnected = true
  stopTimer : ∀ a, (f a).stopTimer.Active → a.stopTimer.Active

theorem Live.harmless {p : Application → Prop} {f : Application → Application} {i : Nat}
    (h : m.Live i p) (hf : Harmless f) (hp : ∀ a, p a → p (f a)) : (m.modify app f).Live i p := by
  by_cases hi : i = app
  · subst hi
    exact h.modify_self fun a hd ha => ⟨(hf.deleted a).trans hd, hp a ha⟩
  · exact h.modify_other f hi

theorem Fits.harmless {f : Application → Application} (h : m.Fits st ph) (hf : Harmless f) :
    (m.modify app f).Fits st ph := by
  cases ph with
  | idle => trivial
  | starting p =>
    exact Live.harmless h hf fun a ha => ⟨(hf.slots a).trans ha.1, (hf.appState a).trans ha.2⟩
  | dangling p =>
    obtain ⟨a, ha, hd, hr⟩ := h
    by_cases hp : p = app
    · exact ⟨f a, by simp [← hp, ha], (hf.deleted a).trans hd, by rwa [hf.info]⟩
    · exact ⟨a, by simp [hp, ha], hd, hr⟩
  | running p =>
    refine Live.harmless h hf fun a ha => ⟨(hf.slots a).trans ha.1, (hf.appState a).trans ha.2.1, ?_⟩
    exact fun hi => hf.wsConnected a (ha.2.2 (hf.info a ▸ hi))
  | stopping p =>
    refine Live.harmless h hf fun a ha => ⟨(hf.slots a).trans ha.1, (hf.appState a).trans ha.2.1, ?_⟩
    exact ⟨(congrArg AppInfo.useIpc (hf.info a)).trans ha.2.2.1, hf.wsConnected a ha.2.2.2⟩

theorem Shows.harmless (h : m.Shows ph st q) (app : Nat) {f : Application → Application}
    (hf : Harmless f) :
    Became m (m.modify app f) ph st q [] where
  signature := signature_modify fun a => ⟨hf.appId a, hf.info a⟩
  nextApp := rfl
  log := (List.append_nil _).symm
  shows :=
    { top := h.top
      starting := h.starting
      stopping := h.stopping
      queue := h.queue
      fits := h.fits.harmless hf
      waits := ⟨h.waits.1, fun i hi => (h.waits.2 i hi).harmless hf fun a ha =>
        ⟨(hf.slots a).trans ha.1, (hf.appState a).trans ha.2⟩⟩
      heap := h.heap.modify fun a ha => (hf.slots a) ▸ h.heap.slots app a ha
      timers := h.timers.modify (fun _ _ hs => hs) fun a ha hd hact =>
        h.timers app a ha ((hf.deleted a) ▸ hd) (hf.stopTimer a hact) }

theorem Fits.modify_other {f : Application → Application} (h : m.Fits st ph)
    (hs : ph.slot ≠ some app) : (m.modify app f).Fits st ph := by
  cases ph with
  | idle => trivial
  | dangling p =>
    obtain ⟨a, ha, hd⟩ := h
    exact ⟨a, by simp [show p ≠ app from fun he => hs (he ▸ rfl), ha], hd⟩
  | _ p => exact Live.modify_other f h fun he => hs (he ▸ rfl)

/-- An application that does not wait is changed, and the slots are set. -/
theorem Shows.change {marks : List Mark} (h : m.Shows ph st q) (f : Application → Application)
    (hq : app ∉ q) (hf : ∀ a, (f a).appId = a.appId ∧ (f a).info = a.info)
    (hslots : ∀ a, m.apps app = some a → (f a).slots ≤ 1) (hfits : (m.modify app f).Fits st' ph')
    (htimers : StopTimers (m.modify app f) ph'.stoppingSlot)
    (happs : m'.apps = (m.modify app f).apps) (htop : m'.topApplication_ = ph'.top)
    (hstarting : m'.startingApplication_ = ph'.startingSlot)
    (hstopping : m'.stoppingApplication_ = ph'.stoppingSlot)
    (hqueue : m'.penddingApplications_ = m.penddingApplications_)
    (hnext : m'.nextApp = m.nextApp) (hlog : m'.log = m.log ++ marks) :
    Became m m' ph' st' q marks := by
  have happs' (i : Nat) : m'.apps i = (m.modify app f).apps i := congrFun happs i
  have hlive {i : Nat} {p : Application → Prop} (hl : (m.modify app f).Live i p) : m'.Live i p := by
    obtain ⟨a, ha, hl⟩ := hl
    exact ⟨a, (happs' i).trans ha, hl⟩
  refine ⟨⟨htop, hstarting, hstopping, hqueue.trans h.queue, ?_, ?_, ?_, ?_⟩, ?_, hnext, hlog⟩
  · cases ph' with
    | idle => trivial
    | dangling p =>
      obtain ⟨a, ha, hd⟩ := hfits
      exact ⟨a, (happs' p).trans ha, hd⟩
    | _ p => exact hlive hfits
  · have hw := h.waits.modify (f := f) hq
    exact ⟨hw.1, fun i hi => hlive (hw.2 i hi)⟩
  · have hh := h.heap.modify hslots
    exact ⟨fun i hi => (happs' i).trans (hh.known i (hnext ▸ hi)),
      fun i a ha => hh.slots i a ((happs' i).symm.trans ha)⟩
  · exact fun i a ha => htimers i a ((happs' i).symm.trans ha)
  · have hsig : (m.modify app f).signature = m.signature := signature_modify hf
    rw [← hsig]
    funext i
    unfold signature
    rw [happs]

theorem Fits.setState (h : m.Fits st ph) (hs : ph.slot = some app) (hst : st' ≠ .stopped) :
    (m.modify app fun a => { a with appState := st' }).Fits st' ph := by
  cases ph with
  | idle => trivial
  | dangling p =>
    cases hs
    obtain ⟨a, ha, hd⟩ := h
    exact ⟨{ a with appState := st' }, by simp [ha], hd.1, fun h => absurd h hst⟩
  | starting p =>
    cases hs
    exact Live.modify_self h fun a hd ha => ⟨hd, ha.1, rfl⟩
  | _ p =>
    cases hs
    exact Live.modify_self h fun a hd ha => ⟨hd, ha.1, rfl, ha.2.2⟩

/-- The state of the application in the slot is set. -/
theorem Shows.setState (h : m.Shows ph st q) (hs : ph.slot = some app) (hst : st' ≠ .stopped) :
    Became m (m.modify app fun a => { a with appState := st' }) ph st' q [] :=
  h.change (fun a => { a with appState := st' }) (h.slot_not_mem hs) (fun _ => ⟨rfl, rfl⟩) (h.heap.slots app)
    (h.fits.setState hs hst)
    (h.timers.modify (fun _ _ hs => hs) (h.timers app)) rfl h.top h.starting h.stopping rfl rfl
    (List.append_nil _).symm

/-- The state of an application that was never launched and does not wait is set. -/
theorem Shows.setState_fresh (h : m.Shows ph st q) (ha : m.Live app fun a => a.slots = 0)
    (hq : app ∉ q) (st' : AppState) :
    Became m (m.modify app fun a => { a with appState := st' }) ph st q [] :=
  h.change (fun a => { a with appState := st' }) hq (fun _ => ⟨rfl, rfl⟩) (h.heap.slots app)
    (h.fits.modify_other (h.slot_not_fresh ha fun _ ha => ha))
    (h.timers.modify (fun _ _ hs => hs) (h.timers app)) rfl h.top h.starting h.stopping rfl rfl
    (List.append_nil _).symm

end ApplicationManager
end Flingd.App
