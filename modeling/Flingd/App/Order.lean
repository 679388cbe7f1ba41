import Flingd.App.Queue
import Flingd.Base.Fifo

/-! The order in which applications that waited are handed to the platform. It is kept unless
the first of them is launched next to an application that was just deleted: that puts it
behind the others, or drops it when the ids are the same. -/
namespace Flingd.App
open Outcome Fifo

def Mark.queued? : Mark → Option Nat
  | .queued app => some app
  | _ => none

def Mark.handed? : Mark → Option Nat
  | .handed app => some app
  | _ => none

/-- The applications that were queued, in the order in which they first were. -/
def queuedIn (log : List Mark) : List Nat := firstEntries (log.filterMap Mark.queued?)

/-- The applications that were handed to the platform, queued before or not. -/
def handedIn (log : List Mark) : List Nat := log.filterMap Mark.handed?

/-- What was queued was handed over in the order in which it first was, or waits in it. -/
abbrev Ordered (log : List Mark) (q : List Nat) : Prop := InOrder (queuedIn log) (handedIn log) q

section
variable {log marks : List Mark} {q : List Nat} {app : Nat}

theorem queuedIn_queued : queuedIn (log ++ [.queued app]) =
    if app ∈ queuedIn log then queuedIn log else queuedIn log ++ [app] := by
  unfold queuedIn
  rw [List.filterMap_append]
  exact firstEntries_concat _ _

theorem mem_queuedIn : app ∈ queuedIn log ↔ .queued app ∈ log := by
  unfold queuedIn
  rw [mem_firstEntries, List.mem_filterMap]
  constructor
  · rintro ⟨k, hk, hq⟩
    cases k <;> cases hq
    exact hk
  · exact fun h => ⟨_, h, rfl⟩

theorem mem_handedIn : app ∈ handedIn log ↔ .handed app ∈ log := by
  unfold handedIn
  rw [List.mem_filterMap]
  constructor
  · rintro ⟨k, hk, hq⟩
    cases k <;> cases hq
    exact hk
  · exact fun h => ⟨_, h, rfl⟩

theorem queuedIn_handed : queuedIn (log ++ [.handed app]) = queuedIn log := by
  unfold queuedIn
  rw [List.filterMap_append]
  exact congrArg firstEntries (List.append_nil _)

theorem Ordered.other (h : Ordered log q) (hk : ∀ k ∈ marks, k.queued? = none ∧ k.handed? = none) :
    Ordered (log ++ marks) q := by
  have hq : marks.filterMap Mark.queued? = [] := List.filterMap_eq_nil_iff.mpr fun k hm => (hk k hm).1
  have hh : marks.filterMap Mark.handed? = [] := List.filterMap_eq_nil_iff.mpr fun k hm => (hk k hm).2
  unfold Ordered queuedIn handedIn
  rw [List.filterMap_append, List.filterMap_append, hq, hh, List.append_nil, List.append_nil]
  exact h

theorem Ordered.push (h : Ordered log q) (hq : .queued app ∉ log) (hh : .handed app ∉ log) :
    Ordered (log ++ [.queued app]) (q ++ [app]) := by
  have hq' : app ∉ queuedIn log := fun ha => hq (mem_queuedIn.mp ha)
  have hh' : handedIn (log ++ [.queued app]) = handedIn log := by simp [handedIn, Mark.handed?]
  unfold Ordered
  rw [queuedIn_queued, if_neg hq', hh']
  exact h.enter hq' fun ha => hh (mem_handedIn.mp ha)

/-- One that waits is queued again. -/
theorem Ordered.again (h : Ordered log q) (ha : app ∈ q) : Ordered (log ++ [.queued app]) q := by
  have hh : handedIn (log ++ [.queued app]) = handedIn log := by simp [handedIn, Mark.handed?]
  unfold Ordered
  rw [queuedIn_queued, if_pos (h.mem ha), hh]
  exact h

theorem Ordered.hand (h : Ordered log (app :: q)) : Ordered (log ++ [.handed app]) q := by
  unfold Ordered
  rw [queuedIn_handed, handedIn, List.filterMap_append]
  exact h.leave

theorem Ordered.pass (h : Ordered log q) (hq : .queued app ∉ log) :
    Ordered (log ++ [.handed app]) q := by
  unfold Ordered
  rw [queuedIn_handed, handedIn, List.filterMap_append]
  exact InOrder.pass h fun ha => hq (mem_queuedIn.mp ha)

end

namespace ApplicationManager
variable {m : ApplicationManager} {ph : Phase} {st : AppState} {q rest : List Nat} {app slot : Nat}
variable {log : List Mark}

/-! ### The condition -/

/-- A stop leaves the queue as it is. -/
def StopOrderly (m : ApplicationManager) : Prop := m.settled = m.penddingApplications_

/-- So does the launch of the first application that waits, for the others. -/
def NextOrderly (m : ApplicationManager) : Prop :=
  ∀ app ∈ m.penddingApplications_.head?, m.accepts app = true ∨
    m.settle app m.penddingApplications_.tail = m.penddingApplications_.tail

instance : Decidable m.StopOrderly := inferInstanceAs (Decidable (_ = _))

instance : Decidable m.NextOrderly := inferInstanceAs (Decidable (∀ app ∈ _, _))

end ApplicationManager

def Request.Orderly (m : ApplicationManager) : Request → Prop
  | .nothing => True
  | .started _ => True
  | .stop => m.StopOrderly
  | .launch _ _ => True
  | .replace appId info => m.StopOrderly ∧ (m.awaitsStop = false → info.accepted = true ∨
    (m.newApplication appId info).settle m.nextApp m.penddingApplications_ =
      m.penddingApplications_)
  | .close => m.StopOrderly ∧ (m.awaitsStop = true → m.NextOrderly)
  | .expire app name => ∀ a ∈ m.apps app, 0 < (a.timer name).due → a.deleted = false →
    if name = .stop then m.NextOrderly else 0 < a.slots → m.StopOrderly

instance (m : ApplicationManager) : (req : Request) → Decidable (req.Orderly m)
  | .nothing => isTrue trivial
  | .started _ => isTrue trivial
  | .stop => inferInstanceAs (Decidable m.StopOrderly)
  | .launch _ _ => isTrue trivial
  | .replace appId info => inferInstanceAs (Decidable (m.StopOrderly ∧ (_ → _ ∨
    (m.newApplication appId info).settle m.nextApp m.penddingApplications_ =
      m.penddingApplications_)))
  | .close => inferInstanceAs (Decidable (m.StopOrderly ∧ (_ → m.NextOrderly)))
  | .expire app name => inferInstanceAs (Decidable (∀ a ∈ m.apps app, 0 < (a.timer name).due →
    a.deleted = false → if name = .stop then m.NextOrderly else 0 < a.slots → m.StopOrderly))

def Names (marks : List Mark) (app : Nat) : Prop := .queued app ∈ marks ∨ .handed app ∈ marks

theorem Names.append {marks marks' : List Mark} {i : Nat} (h : Names (marks ++ marks') i) :
    Names marks i ∨ Names marks' i := by
  simp only [Names, List.mem_append] at h ⊢
  tauto

/-- The course keeps the order, and names only applications that wait or are in the slot. -/
def Course.InOrder (c : Course) (log : List Mark) (q : List Nat) : Prop :=
  c.Sat fun ph' q' marks => Ordered (log ++ marks) q' ∧
    ∀ i, Names marks i → i ∈ q ∨ ph'.slot = some i ∨ i ∈ q'

namespace ApplicationManager
variable {m : ApplicationManager} {ph : Phase} {st : AppState} {q rest : List Nat} {app slot : Nat}
variable {log : List Mark}

theorem settleMarks_ordered (h : Ordered log q) : Ordered (log ++ m.settleMarks slot q) q := by
  cases q with
  | nil => exact h.other (by simp [settleMarks])
  | cons app rest =>
    have hstale : Ordered (log ++ [.stale slot]) (app :: rest) :=
      h.other (by simp [Mark.queued?, Mark.handed?])
    simp only [settleMarks, queuedMarks]
    split
    · exact hstale
    · rw [List.append_cons]
      exact hstale.again (by simp)

theorem settleMarks_names {i : Nat} (h : Names (m.settleMarks slot q) i) : i ∈ q := by
  cases q with
  | nil => simp [Names, settleMarks] at h
  | cons app rest =>
    simp only [Names, settleMarks, queuedMarks] at h
    split at h
    · simp at h
    · simp at h
      simp [h]

theorem landing_ordered (h : Ordered (log ++ [.handed app]) q)
    (hc : m.accepts app = true ∨ m.settle app q = q) :
    (m.landing app q).Sat fun ph' q' marks => Ordered (log ++ marks) q' ∧
      ∀ i, Names marks i → i ∈ q ∨ ph'.slot = some i := by
  have hone {ph' : Phase} (hs : ph'.slot = some app) {i : Nat} (hi : Names [.handed app] i) :
      i ∈ q ∨ ph'.slot = some i := by
    simp [Names] at hi
    exact .inr (hi ▸ hs)
  unfold landing
  split
  · split
    · exact Course.sat_some.mpr ⟨h, fun i hi => hone rfl hi⟩
    · split
      · rename_i hq
        subst hq
        exact Course.sat_some.mpr ⟨h, fun i hi => hone rfl hi⟩
      · exact Course.sat_none
  · rename_i hacc
    refine Course.sat_some.mpr ⟨?_, fun i hi => ?_⟩
    · have h' : Ordered (log ++ [.handed app, .stopped app none]) q := by
        rw [List.append_cons]
        exact Ordered.other h (by simp [Mark.queued?, Mark.handed?])
      rw [hc.resolve_left hacc, ← List.append_assoc]
      exact settleMarks_ordered h'
    · rcases Names.append hi with hi | hi
      · exact hone rfl (by simpa [Names] using hi)
      · exact .inl (settleMarks_names hi)

theorem stopTo_ordered (h : m.Shows ph st q) (ho : Ordered log q) (hc : m.StopOrderly) :
    (m.stopTo ph q).Sat fun ph' q' marks => q' = q ∧ Ordered (log ++ marks) q ∧
      (∀ i, Names marks i → i ∈ q) ∧
      (m.awaitsStop = true ∧ (∃ app, ph' = .stopping app) ∨
        m.awaitsStop = false ∧ ph' = .idle) := by
  have hmarks : (m.stopTo ph q).Sat fun _ _ marks =>
      Ordered (log ++ marks) q ∧ ∀ i, Names marks i → i ∈ q := by
    have hsame : Ordered (log ++ []) q := by rwa [List.append_nil]
    have hother {marks : List Mark} (hk : ∀ k ∈ marks, k.queued? = none ∧ k.handed? = none) :
        Ordered (log ++ marks) q ∧ ∀ i, Names marks i → i ∈ q := by
      refine ⟨ho.other hk, fun i hi => ?_⟩
      rcases hi with hi | hi
      · exact absurd (hk _ hi).1 (by simp [Mark.queued?])
      · exact absurd (hk _ hi).2 (by simp [Mark.handed?])
    cases ph with
    | idle => exact Course.sat_some.mpr (hother (by simp))
    | dangling app => exact Course.sat_none
    | stopping app => exact Course.sat_some.mpr (hother (by simp))
    | running app =>
      simp only [stopTo]
      split <;> exact Course.sat_some.mpr (hother (by simp [Mark.queued?, Mark.handed?]))
    | starting app =>
      simp only [stopTo]
      split
      · have hstop : Ordered (log ++ [.stopping app, .stopped app (some app)]) q :=
          ho.other (by simp [Mark.queued?, Mark.handed?])
        refine Course.sat_some.mpr ⟨?_, fun i hi => ?_⟩
        · rw [← List.append_assoc]
          exact settleMarks_ordered hstop
        · rcases Names.append hi with hi | hi
          · simp [Names] at hi
          · exact settleMarks_names hi
      · exact Course.sat_some.mpr (hother (by simp [Mark.queued?, Mark.handed?]))
  intro ph' q' marks hto
  obtain ⟨hm, hn⟩ := hmarks ph' q' marks hto
  rcases stopTo_settled h ph' q' marks hto with ⟨ha, hph, hq⟩ | ⟨ha, hph, hq⟩
  · exact ⟨hq, hm, hn, .inl ⟨ha, hph⟩⟩
  · exact ⟨hq.trans (hc.trans h.queue), hm, hn, .inr ⟨ha, hph⟩⟩

theorem stoppedTo_ordered (hq : m.penddingApplications_ = q) (ho : Ordered log q)
    (hc : m.NextOrderly) : (m.stoppedTo app q).InOrder log q := by
  have hstopped : Ordered (log ++ [.stopped app (some app)]) q :=
    ho.other (by simp [Mark.queued?, Mark.handed?])
  unfold NextOrderly at hc
  rw [hq] at hc
  cases q with
  | nil => exact Course.sat_some.mpr ⟨hstopped, by simp [Names]⟩
  | cons next rest =>
    refine Course.Sat.after ((landing_ordered hstopped.hand (hc next rfl)).mono
      fun ph' q' marks hl => ⟨by rw [← List.append_assoc]; exact hl.1, fun i hi => ?_⟩)
    rcases Names.append hi with hi | hi
    · simp [Names] at hi
    · exact (hl.2 i hi).imp (List.mem_cons_of_mem _) .inl

theorem launchTo_ordered {appId : Bytes} {info : AppInfo} (hph : ph.slot = ph.stoppingSlot)
    (ho : Ordered log q) (hfresh : ¬ Names log m.nextApp) (hc : ph = .idle → info.accepted = true ∨
      (m.newApplication appId info).settle m.nextApp q = q) :
    ((m.newApplication appId info).launchTo m.nextApp ph q).InOrder log q := by
  have hq : .queued m.nextApp ∉ log := fun h => hfresh (.inl h)
  have hh : .handed m.nextApp ∉ log := fun h => hfresh (.inr h)
  have hsig := signature_of_apps (newApplication_self (m := m) appId info)
  cases ph with
  | stopping slot =>
    refine Course.sat_some.mpr ⟨ho.push hq hh, fun i hi => ?_⟩
    simp [Names] at hi
    simp [hi]
  | idle =>
    exact (landing_ordered (Ordered.pass ho hq) ((hc rfl).imp
      (fun hi => by simpa [accepts, hsig] using hi) id)).mono
      fun ph' q' marks hl => ⟨hl.1, fun i hi => (hl.2 i hi).imp id .inl⟩
  | _ => cases hph

/-- A course that goes on from where it led to with the same queue. -/
theorem Course.InOrder.of_next {c : Course} {f : Phase → List Nat → Course}
    {P : Phase → Prop}
    (h : c.Sat fun ph' q' marks => q' = q ∧ Ordered (log ++ marks) q ∧
      (∀ i, Names marks i → i ∈ q) ∧ P ph')
    (hf : ∀ ph' marks, Ordered (log ++ marks) q → (∀ i, Names marks i → i ∈ q) → P ph' →
      (f ph' q).InOrder (log ++ marks) q) : (c.next f).InOrder log q := by
  refine Course.Sat.next h fun ph' q' marks ⟨hq, ho, hn, hp⟩ => ?_
  subst hq
  refine (hf ph' marks ho hn hp).mono fun ph'' q'' marks' hl => ⟨?_, fun i hi => ?_⟩
  · rw [← List.append_assoc]
    exact hl.1
  · rcases Names.append hi with hi | hi
    · exact .inl (hn i hi)
    · exact hl.2 i hi

end ApplicationManager

open ApplicationManager in
theorem Request.Orderly.course {m : ApplicationManager} {ph : Phase} {q : List Nat}
    {log : List Mark} (h : m.Shows ph ph.state q) (ho : Ordered log q)
    (hfresh : ¬ Names log m.nextApp) {req : Request} (hc : req.Orderly m)
    (hlaunch : ∀ appId info, req = .launch appId info → ph.slot = ph.stoppingSlot ∧ q = []) :
    (req.course m ph q).InOrder log q := by
  have hsame {ph' : Phase} : Course.InOrder (some (ph', q, [])) log q :=
    Course.sat_some.mpr ⟨by rwa [List.append_nil], by simp [Names]⟩
  have hnew : m.nextApp ∉ q := (h.newApplication [] ⟨[], false, 0⟩).2.2
  have hstop (hc : m.StopOrderly) : (m.stopTo ph q).InOrder log q :=
    (stopTo_ordered h ho hc).mono fun ph' q' marks hs =>
      ⟨hs.1 ▸ hs.2.1, fun i hi => .inl (hs.2.2.1 i hi)⟩
  cases req with
  | nothing => exact hsame
  | stop => exact hstop hc
  | started app =>
    simp only [Request.course, startedTo]
    split
    · split
      · rename_i hq
        subst hq
        exact hsame
      · exact Course.sat_some.mpr
          ⟨ho.other (by simp [Mark.queued?, Mark.handed?]), by simp [Names]⟩
    · exact hsame
  | launch appId info =>
    obtain ⟨hslot, rfl⟩ := hlaunch appId info rfl
    exact launchTo_ordered hslot ho hfresh fun _ => .inr rfl
  | replace appId info =>
    refine Course.InOrder.of_next (stopTo_ordered h ho hc.1) fun ph' marks ho' hn hph => ?_
    refine launchTo_ordered ?_ ho' (fun hnames => ?_) fun hidle => ?_
    · rcases hph with ⟨-, app, rfl⟩ | ⟨-, rfl⟩ <;> rfl
    · exact (Names.append hnames).elim hfresh fun hi => hnew (hn _ hi)
    · rcases hph with ⟨-, app, rfl⟩ | ⟨ha, -⟩
      · cases hidle
      · exact h.queue ▸ hc.2 ha
  | close =>
    show ((m.stopTo ph q).next m.finishTo).InOrder log q
    refine Course.InOrder.of_next (stopTo_ordered h ho hc.1) fun ph' marks ho' hn hph => ?_
    rcases hph with ⟨ha, app, rfl⟩ | ⟨-, rfl⟩
    · exact stoppedTo_ordered h.queue ho' (hc.2 ha)
    · exact Course.sat_some.mpr ⟨by rwa [List.append_nil], by simp [Names]⟩
  | expire app name =>
    simp only [Request.course, expireTo]
    cases ha : m.apps app with
    | none => exact hsame
    | some a =>
      simp only
      by_cases hdue : (a.timer name).due = 0
      · rw [if_pos hdue]
        exact hsame
      · rw [if_neg hdue]
        cases hd : a.deleted with
        | true => exact Course.sat_none
        | false =>
          have hrest := hc a ha (by omega) hd
          rw [if_neg (by simp)]
          by_cases hname : name = .stop
          · rw [if_pos hname] at hrest ⊢
            exact stoppedTo_ordered h.queue ho hrest
          · rw [if_neg hname] at hrest ⊢
            split
            · exact hsame
            · exact hstop (hrest (by omega))

namespace Daemon
variable {s s' : Daemon} {ph : Phase} {q : List Nat}

/-- The order is kept so far, and every application that is named is known. -/
structure OrderSound (s : Daemon) (q : List Nat) : Prop where
  ordered : Ordered s.manager.log q
  known : ∀ i, Names s.manager.log i → (s.manager.apps i).isSome = true

theorem OrderSound.fresh (h : s.OrderSound q) (hs : s.Sound ph q) :
    ¬ Names s.manager.log s.manager.nextApp := fun hn => by
  have := h.known _ hn
  rw [hs.shows.heap.known _ le_rfl] at this
  cases this

theorem step_ordered {e : Event} {k marks : List Mark} {ph' : Phase} {q' : List Nat}
    (hs : s.Sound ph q) (ho : s.OrderSound q) (he : (s.request e).Orderly s.manager)
    (hc : (s.request e).course s.manager ph q = some (ph', q', marks)) (hk : Stale ph k)
    (htook : s.manager.Took s'.manager ph' q' (k ++ marks)) (hs' : s'.Sound ph' q') :
    s'.OrderSound q' := by
  have hstale : ∀ x ∈ k, x.queued? = none ∧ x.handed? = none := by
    intro x hx
    obtain ⟨app, -, rfl⟩ := hk x hx
    exact ⟨rfl, rfl⟩
  have hnames {i : Nat} (hi : Names (s.manager.log ++ k) i) : Names s.manager.log i := by
    refine (Names.append hi).elim id fun hi => ?_
    rcases hi with hi | hi
    · exact absurd (hstale _ hi).1 (by simp [Mark.queued?])
    · exact absurd (hstale _ hi).2 (by simp [Mark.handed?])
  have hcourse := Request.Orderly.course hs.shows (ho.ordered.other hstale)
    (fun hn => ho.fresh hs (hnames hn)) he fun _ _ hl => launch_requested hs hl
  obtain ⟨hord, hnew⟩ := hcourse ph' q' marks hc
  have hkeeps {i : Nat} (hi : (s.manager.apps i).isSome = true) : (s'.manager.apps i).isSome = true := by
    obtain ⟨a, ha⟩ := Option.isSome_iff_exists.mp hi
    have hsig := htook.signature i _ (ApplicationManager.signature_of_apps ha)
    obtain ⟨a', ha', -⟩ := Option.map_eq_some_iff.mp hsig
    simp [ha']
  have hwaits {i : Nat} {m : ApplicationManager} {q : List Nat} (hw : m.Waits q) (hi : i ∈ q) :
      (m.apps i).isSome = true := by
    obtain ⟨a, ha, -⟩ := hw.2 i hi
    simp [ha]
  constructor
  · rw [htook.log, ← List.append_assoc]
    exact hord
  · intro i hi
    rw [htook.log, ← List.append_assoc] at hi
    rcases Names.append hi with hi | hi
    · exact hkeeps (ho.known i (hnames hi))
    · rcases hnew i hi with hi | hi | hi
      · exact hkeeps (hwaits hs.shows.waits hi)
      · obtain ⟨a, ha, -⟩ := hs'.shows.slot_apps hi
        simp [ha]
      · exact hwaits hs'.shows.waits hi

/-- While every request keeps the order of the queue, what was queued is handed to the
platform in the order in which it first was, or waits in it. -/
theorem run_ordered {es : List Event}
    (h : Meets step (fun s e => (s.request e).Orderly s.manager) start es)
    (hrun : start.run es = .ok s) :
    (handedIn s.manager.log).filter (· ∈ queuedIn s.manager.log) ++
      s.manager.penddingApplications_ = queuedIn s.manager.log ∧ (queuedIn s.manager.log).Nodup := by
  obtain ⟨ph, q, hs, ho⟩ := run_keeps (I := fun s _ q => s.OrderSound q)
    ⟨InOrder.nil, fun i hi => by simp [Names, start, ApplicationManager.start] at hi⟩
    (fun s s' ph q e k ph' q' marks hs ho he hc hk htook hs' =>
      step_ordered hs ho he hc hk htook hs') h hrun
  rw [hs.shows.queue]
  exact ⟨ho.ordered.order, ho.ordered.nodup⟩

/-- `~b` is queued behind `~a`, and handed on after it. -/
theorem run_ordered_second : ∃ s, start.run (queuedSecond ++ [.closed 0]) = .ok s ∧
    queuedIn s.manager.log = [1] ∧ handedIn s.manager.log = [0, 1] ∧
    (handedIn s.manager.log).filter (· ∈ queuedIn s.manager.log) ++
      s.manager.penddingApplications_ = queuedIn s.manager.log ∧
    (queuedIn s.manager.log).Nodup := by
  obtain ⟨s, hs, hlog⟩ := yields_iff.mp (show yields (start.run (queuedSecond ++ [.closed 0]))
    (fun s => queuedIn s.manager.log = [1] ∧ handedIn s.manager.log = [0, 1]) = true by
      decide +kernel)
  obtain ⟨hqueued, hhanded⟩ := of_decide_eq_true hlog
  exact ⟨s, hs, hqueued, hhanded, run_ordered (by decide +kernel) hs⟩

/-- As `givenUp`, but `~d` waits behind `~c`, and comes before it in the end. -/
theorem overtaken : ∃ s, start.run (registered ++ [.launch (str "~b") (str "http://b") true,
      .launch (str "~c") (str "http://c") true, .launch (str "~d") (str "http://d") true, .closed 0,
      .elapse 1 .start, .expire 1 .start]) = .ok s ∧
    (handedIn s.manager.log).filter (· ∈ queuedIn s.manager.log) ++
      s.manager.penddingApplications_ ≠ queuedIn s.manager.log := by
  obtain ⟨s, hs, h⟩ := yields_iff.mp (show yields (start.run (registered ++
    [.launch (str "~b") (str "http://b") true, .launch (str "~c") (str "http://c") true,
      .launch (str "~d") (str "http://d") true, .closed 0, .elapse 1 .start, .expire 1 .start]))
    (fun s => (handedIn s.manager.log).filter (· ∈ queuedIn s.manager.log) ++
      s.manager.penddingApplications_ ≠ queuedIn s.manager.log) = true by decide +kernel)
  exact ⟨s, hs, of_decide_eq_true h⟩

end Daemon
end Flingd.App
