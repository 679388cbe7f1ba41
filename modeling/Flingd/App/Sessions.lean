import Flingd.App.SessionManager
import Flingd.Base.Waits

/-! The sessions with their timers, of senders and of the receiver. A session is deleted by the handler
of its own timer. The memory of a deleted session is taken to keep what it held; what runs on it is
logged. -/
namespace Flingd.App

inductive Ref where
  | sender (i : Nat)
  | receiver (i : Nat)
deriving DecidableEq

/-- `manager` has the sessions of senders and their listener, `receivers` are the `ReceiverSession`s
that were made. `disconnected` are the calls of `onReceiverDisconnected`, `deleted` are the sessions
that deleted themselves, and `strays` those on which something ran after that. -/
structure Sessions where
  manager : SessionManager
  receivers : List Session
  receiverSession_ : Option Nat
  disconnected : List Bytes
  timers : Waits Ref
  deleted : List Ref
  strays : List Ref

namespace Sessions
variable {s : Sessions} {r : Ref}

def start : Sessions := ⟨.start, [], none, [], .none, [], []⟩

def session (s : Sessions) : Ref → Option Session
  | .sender i => s.manager.sessions[i]?
  | .receiver i => s.receivers[i]?

def use (s : Sessions) (r : Ref) : Sessions :=
  if r ∈ s.deleted then { s with strays := s.strays ++ [r] } else s

def triggerTimer (s : Sessions) (r : Ref) : Sessions :=
  let s := s.use r
  { s with timers := s.timers.restart r }

def createSender (s : Sessions) (appId token : Bytes) : Sessions :=
  ({ s with manager := s.manager.createSender appId token } : Sessions).triggerTimer
    (.sender s.manager.sessions.length)

def touchSender (s : Sessions) (token : Bytes) : Bool × Sessions :=
  match s.manager.getSender token with
  | some i => (true, s.triggerTimer (.sender i))
  | none => (false, s)

def disconnectSender (s : Sessions) (token : Bytes) : Bool × Sessions :=
  let (res, manager) := s.manager.disconnectSender token
  (res, { s with manager })

def createReceiver (s : Sessions) (appId token : Bytes) : Bool × Sessions :=
  if s.receiverSession_.isSome then (false, s)
  else
    let session := s.receivers.length
    (true, ({ s with
      receivers := s.receivers ++ [⟨token, appId, false⟩]
      receiverSession_ := some session } : Sessions).triggerTimer (.receiver session))

/-- The id of the application is not looked at. -/
def touchReceiver (s : Sessions) (_appId : Bytes) : Bool × Sessions :=
  match s.receiverSession_ with
  | some i => (true, s.triggerTimer (.receiver i))
  | none => (false, s)

/-- What `receiverSession_` points to. -/
def current (s : Sessions) : Option Session := s.receiverSession_.bind (s.receivers[·]?)

def disconnectReceiver (s : Sessions) (appId : Bytes) : Bool × Sessions :=
  match s.current with
  | none => (false, s)
  | some session =>
    if appId = session.appId then (true, { s with receiverSession_ := none }) else (false, s)

def notifyDisconnected (s : Sessions) (appId : Bytes) : Sessions :=
  if s.manager.sessionListener_.isSome then { s with disconnected := s.disconnected ++ [appId] } else s

def onReceiverTimeout (s : Sessions) (token : Bytes) : Sessions :=
  match s.current with
  | none => s
  | some session =>
    if token = session.token then
      { s.notifyDisconnected session.appId with receiverSession_ := none }
    else s

def setSessionListender (s : Sessions) (listener : Option Nat) : Sessions :=
  { s with manager := s.manager.setSessionListender listener }

/-- The session is closed, and the manager hears of it by the signal `Timeout`. -/
def close (s : Sessions) : Ref → Sessions
  | .sender i => { s with manager := s.manager.onTimeout i }
  | .receiver i =>
    match s.receivers[i]? with
    | none => s
    | some a =>
      ({ s with receivers := s.receivers.set i { a with closed_ := true } } :
        Sessions).onReceiverTimeout a.token

def closed_ (s : Sessions) (r : Ref) : Bool := (s.session r).any (·.closed_)

def delete (s : Sessions) (r : Ref) : Sessions :=
  { s with timers := s.timers.cancel r, deleted := s.deleted ++ [r] }

/-- `Session::onTimeout`, which those of the two kinds of session call. -/
def onTimeout (s : Sessions) (r : Ref) (error : ErrorCode) : Sessions :=
  let s := s.use r
  let s :=
    match error with
    | .success => s.close r
    | .operation_aborted => s
  if s.closed_ r then s.delete r else s

/-- The completion at place `n` of the queue runs. -/
def complete (s : Sessions) (n : Nat) : Sessions :=
  match s.timers.queue[n]? with
  | none => s
  | some (r, error) => ({ s with timers := s.timers.take n } : Sessions).onTimeout r error

/-- What is called of the manager, and what happens to the timers: the time of one is up, or a
completion runs. -/
inductive Event where
  | createSender (appId token : Bytes)
  | touchSender (token : Bytes)
  | disconnectSender (token : Bytes)
  | createReceiver (appId token : Bytes)
  | touchReceiver (appId : Bytes)
  | disconnectReceiver (appId : Bytes)
  | setSessionListender (listener : Option Nat)
  | expire (r : Ref)
  | complete (n : Nat)

def step (s : Sessions) : Event → Sessions
  | .createSender appId token => s.createSender appId token
  | .touchSender token => (s.touchSender token).2
  | .disconnectSender token => (s.disconnectSender token).2
  | .createReceiver appId token => (s.createReceiver appId token).2
  | .touchReceiver appId => (s.touchReceiver appId).2
  | .disconnectReceiver appId => (s.disconnectReceiver appId).2
  | .setSessionListender listener => s.setSessionListender listener
  | .expire r => { s with timers := s.timers.expire r }
  | .complete n => s.complete n

def run (es : List Event) : Sessions := es.foldl step start

def tokens (s : Sessions) : List Bytes := s.manager.sessions.map (·.token) ++ s.receivers.map (·.token)

/-- No two sessions that were made have one token. -/
def Distinct (s : Sessions) : Prop := s.tokens.Nodup

instance : Decidable s.Distinct := inferInstanceAs (Decidable s.tokens.Nodup)

end Sessions

/-! ### The sessions that there are -/

/-- What `onTimeout` makes of the session. -/
def Session.close (a : Session) : Session := { a with closed_ := true }

theorem getElem?_set_some {l : List Session} {i : Nat} {a b : Session} (h : l[i]? = some a) (j : Nat) :
    (l.set i b)[j]? = if j = i then some b else l[j]? := by
  have hi : i < l.length := (List.getElem?_eq_some_iff.mp h).1
  rw [List.getElem?_set, if_pos hi]
  exact if_congr eq_comm rfl rfl

theorem getElem?_concat (l : List Session) (a : Session) (i : Nat) :
    (l ++ [a])[i]? = if i = l.length then some a else l[i]? := by
  grind

theorem eq_of_token_eq {l : List Session} (h : (l.map (·.token)).Nodup) {i j : Nat} {a b : Session}
    (ha : l[i]? = some a) (hb : l[j]? = some b) (ht : a.token = b.token) : i = j := by
  obtain ⟨hi, -⟩ := List.getElem?_eq_some_iff.mp ha
  refine (List.getElem?_inj (by simpa using hi) h).mp ?_
  rw [List.getElem?_map, List.getElem?_map, ha, hb, Option.map_some, Option.map_some, ht]

namespace SessionManager

theorem disconnectSender_sessions (m : SessionManager) (token : Bytes) :
    (m.disconnectSender token).2.sessions = m.sessions := by
  unfold disconnectSender removeSender
  by_cases h : m.checkSender token <;> simp [h]

theorem setSessionListender_sessions (m : SessionManager) (listener : Option Nat) :
    (m.setSessionListender listener).sessions = m.sessions := by
  have hloop (entries : List (Bytes × Nat)) (m : SessionManager) :
      (entries.foldl (fun m e => m.callConnected e.2) m).sessions = m.sessions := by
    induction entries generalizing m with
    | nil => rfl
    | cons e entries ih =>
      have hcall : (m.callConnected e.2).sessions = m.sessions := by
        unfold callConnected
        split
        · rfl
        · exact notify_sessions _ _
      exact (ih _).trans hcall
  unfold setSessionListender
  dsimp only
  split
  · exact hloop _ _
  · rfl

theorem createSender_sessions (m : SessionManager) (appId token : Bytes) :
    (m.createSender appId token).sessions = m.sessions ++ [⟨token, appId, false⟩] := by
  unfold createSender
  rw [notify_sessions, addSender_frame]

theorem onTimeout_sessions (m : SessionManager) (i j : Nat) :
    (m.onTimeout i).sessions[j]? =
      if j = i then (m.sessions[i]?).map Session.close else m.sessions[j]? := by
  unfold onTimeout
  cases h : m.sessions[i]? with
  | none => grind
  | some a =>
    dsimp only
    rw [onSenderTimeout, disconnectSender_sessions]
    exact getElem?_set_some h j

end SessionManager

namespace Sessions
variable {s : Sessions} {r : Ref}

theorem use_frame (s : Sessions) (r : Ref) : s.use r = { s with strays := (s.use r).strays } := by
  unfold use
  split <;> rfl

@[simp] theorem use_session (s : Sessions) (r r' : Ref) : (s.use r).session r' = s.session r' := by
  rw [use_frame]
  cases r' <;> rfl

@[simp] theorem triggerTimer_session (s : Sessions) (r r' : Ref) :
    (s.triggerTimer r).session r' = s.session r' := use_session s r r'

theorem session_eq {t : Sessions} (hm : t.manager.sessions = s.manager.sessions)
    (hr : t.receivers = s.receivers) (r : Ref) : t.session r = s.session r := by
  cases r with
  | sender i => exact congrArg (·[i]?) hm
  | receiver i => exact congrArg (·[i]?) hr

theorem closed_eq {t : Sessions} (h : t.session r = s.session r) : t.closed_ r = s.closed_ r := by
  rw [closed_, closed_, h]

theorem createSender_session (s : Sessions) (appId token : Bytes) (r : Ref) :
    ({ s with manager := s.manager.createSender appId token } : Sessions).session r =
      if r = .sender s.manager.sessions.length then some ⟨token, appId, false⟩ else s.session r := by
  cases r with
  | receiver i => rfl
  | sender i =>
    change (s.manager.createSender appId token).sessions[i]? = _
    rw [SessionManager.createSender_sessions, getElem?_concat]
    exact if_congr (by simp) rfl rfl

theorem createReceiver_session (s : Sessions) (appId token : Bytes) (r : Ref) :
    ({ s with
      receivers := s.receivers ++ [⟨token, appId, false⟩]
      receiverSession_ := some s.receivers.length } : Sessions).session r =
      if r = .receiver s.receivers.length then some ⟨token, appId, false⟩ else s.session r := by
  cases r with
  | sender i => rfl
  | receiver i => exact (getElem?_concat _ _ i).trans (if_congr (by simp) rfl rfl)

theorem onReceiverTimeout_frame (s : Sessions) (token : Bytes) :
    s.onReceiverTimeout token =
      { s with
        receiverSession_ := (s.onReceiverTimeout token).receiverSession_
        disconnected := (s.onReceiverTimeout token).disconnected } := by
  unfold onReceiverTimeout notifyDisconnected
  cases s.current with
  | none => rfl
  | some a =>
    dsimp only
    split
    · split <;> rfl
    · rfl

/-- The session that stays the current one has another token. -/
theorem onReceiverTimeout_current {token : Bytes} {i : Nat}
    (h : (s.onReceiverTimeout token).receiverSession_ = some i) :
    s.receiverSession_ = some i ∧ ∀ a, s.receivers[i]? = some a → a.token ≠ token := by
  have hcurrent (hi : s.receiverSession_ = some i) : s.current = s.receivers[i]? := by
    rw [current, hi]
    rfl
  unfold onReceiverTimeout at h
  cases hc : s.current with
  | none =>
    rw [hc] at h
    exact ⟨h, fun a ha => by rw [hcurrent h, ha] at hc; cases hc⟩
  | some b =>
    rw [hc] at h
    dsimp only at h
    split at h
    · cases h
    · rename_i hne
      refine ⟨h, fun a ha heq => hne ?_⟩
      rw [hcurrent h, ha] at hc
      cases hc
      exact heq.symm

theorem close_session (s : Sessions) (r r' : Ref) :
    (s.close r).session r' = if r' = r then (s.session r).map Session.close else s.session r' := by
  unfold close
  cases r with
  | sender i =>
    cases r' with
    | sender j => exact (s.manager.onTimeout_sessions i j).trans (if_congr (by simp) rfl rfl)
    | receiver j => rfl
  | receiver i =>
    dsimp only
    cases h : s.receivers[i]? with
    | none =>
      dsimp only
      split
      · rename_i heq
        rw [heq]
        exact h.trans (congrArg (Option.map Session.close) h).symm
      · rfl
    | some a =>
      dsimp only
      rw [onReceiverTimeout_frame]
      cases r' with
      | sender j => rfl
      | receiver j =>
        refine (getElem?_set_some h j).trans (if_congr (by simp) ?_ rfl)
        exact (congrArg (Option.map Session.close) h).symm

/-- What is closed does not depend on the timers, nor on what is logged. -/
theorem close_timers (s : Sessions) (r : Ref) (timers : Waits Ref) (strays : List Ref) :
    ({ s with timers, strays } : Sessions).close r = { s.close r with timers, strays } := by
  unfold close onReceiverTimeout current
  cases r with
  | sender i => rfl
  | receiver i =>
    dsimp only
    cases s.receivers[i]? with
    | none => rfl
    | some a =>
      dsimp only
      cases s.receiverSession_.bind ((s.receivers.set i { a with closed_ := true })[·]?) with
      | none => rfl
      | some b =>
        dsimp only [notifyDisconnected]
        split
        · split <;> rfl
        · rfl

theorem close_frame (s : Sessions) (r : Ref) :
    (s.close r).timers = s.timers ∧ (s.close r).deleted = s.deleted ∧ (s.close r).strays = s.strays := by
  unfold close
  cases r with
  | sender i => exact ⟨rfl, rfl, rfl⟩
  | receiver i =>
    dsimp only
    cases s.receivers[i]? with
    | none => exact ⟨rfl, rfl, rfl⟩
    | some a =>
      dsimp only
      rw [onReceiverTimeout_frame]
      exact ⟨rfl, rfl, rfl⟩

/-- The current receiver session and the sessions in the table are not closed, and a session deletes
itself where it is closed. No timer is without its session. -/
structure Sound (s : Sessions) : Prop where
  manager : s.manager.Sound
  current : ∀ i, s.receiverSession_ = some i → ∃ a, s.receivers[i]? = some a ∧ a.closed_ = false
  deleted : ∀ r, r ∈ s.deleted ↔ s.closed_ r = true
  made : ∀ r, s.session r = none → s.timers.Idle r

theorem Sound.triggerTimer (h : s.Sound) (hr : s.session r ≠ none) : (s.triggerTimer r).Sound := by
  have hframe : s.triggerTimer r =
      { s with strays := (s.use r).strays, timers := (s.use r).timers.restart r } := by
    unfold Sessions.triggerTimer
    rw [use_frame]
  have htimers : (s.triggerTimer r).timers = s.timers.restart r := by
    unfold Sessions.triggerTimer
    rw [use_frame]
  refine ⟨?_, ?_, fun r' => ?_, fun r' hnone => ?_⟩
  · rw [hframe]
    exact h.manager
  · rw [hframe]
    exact h.current
  · rw [closed_eq (triggerTimer_session s r r'), ← h.deleted, hframe]
  · rw [triggerTimer_session] at hnone
    rw [htimers]
    exact (h.made r' hnone).restart fun heq => hr (heq ▸ hnone)

/-- A step that leaves the sessions and the timers alone. -/
theorem Sound.keep {t : Sessions} (h : s.Sound) (hmanager : t.manager.Sound)
    (hcurrent : ∀ i, t.receiverSession_ = some i → s.receiverSession_ = some i)
    (hsessions : t.manager.sessions = s.manager.sessions) (hreceivers : t.receivers = s.receivers)
    (htimers : t.timers = s.timers) (hdeleted : t.deleted = s.deleted) : t.Sound where
  manager := hmanager
  current i hi := hreceivers ▸ h.current i (hcurrent i hi)
  deleted r := by rw [hdeleted, closed_eq (session_eq hsessions hreceivers r), h.deleted]
  made r hnone := htimers ▸ h.made r ((session_eq hsessions hreceivers r).symm.trans hnone)

/-- A session is made, and its timer started. -/
theorem Sound.create {t : Sessions} {a : Session} (h : s.Sound) (hnew : s.session r = none)
    (hopen : a.closed_ = false)
    (hsession : ∀ r', t.session r' = if r' = r then some a else s.session r')
    (hmanager : t.manager.Sound)
    (hcurrent : ∀ i, t.receiverSession_ = some i → s.receiverSession_ = some i ∨ r = .receiver i)
    (htimers : t.timers = s.timers) (hdeleted : t.deleted = s.deleted) :
    (t.triggerTimer r).Sound := by
  have hmade : t.session r = some a := (hsession r).trans (if_pos rfl)
  have hold (r' : Ref) (hr' : s.session r' ≠ none) : t.session r' = s.session r' := by
    rw [hsession, if_neg]
    rintro rfl
    exact hr' hnew
  refine Sound.triggerTimer ⟨hmanager, fun i hi => ?_, fun r' => ?_, fun r' hnone => ?_⟩ (by simp [hmade])
  · rcases hcurrent i hi with hi | heq
    · obtain ⟨b, hb, hopen⟩ := h.current i hi
      have hsome : s.session (.receiver i) = some b := hb
      exact ⟨b, (hold (.receiver i) (by simp [hsome])).trans hsome, hopen⟩
    · rw [heq] at hmade
      exact ⟨a, hmade, hopen⟩
  · rw [hdeleted, h.deleted, closed_, closed_, hsession]
    split
    · rename_i heq
      simp [heq, hnew, hopen]
    · rfl
  · rw [htimers]
    rw [hsession] at hnone
    split at hnone
    · cases hnone
    · exact h.made r' hnone

/-- A receiver session that is closed is no longer the current one. -/
theorem Sound.close_current (h : s.Sound) {i : Nat} (hi : (s.close r).receiverSession_ = some i) :
    s.receiverSession_ = some i ∧ r ≠ .receiver i := by
  unfold close at hi
  cases r with
  | sender j => exact ⟨hi, by simp⟩
  | receiver j =>
    dsimp only at hi
    cases hj : s.receivers[j]? with
    | none =>
      rw [hj] at hi
      refine ⟨hi, fun heq => ?_⟩
      obtain ⟨a, ha, -⟩ := h.current i hi
      rw [← Ref.receiver.inj heq, hj] at ha
      cases ha
    | some a =>
      rw [hj] at hi
      obtain ⟨hi, hother⟩ := onReceiverTimeout_current hi
      refine ⟨hi, fun heq => ?_⟩
      obtain rfl := Ref.receiver.inj heq
      exact hother { a with closed_ := true } ((getElem?_set_some hj j).trans (if_pos rfl)) rfl

theorem Sound.take (h : s.Sound) (n : Nat) :
    ({ s with timers := s.timers.take n } : Sessions).Sound :=
  ⟨h.manager, h.current, h.deleted, fun r hnone => (h.made r hnone).take⟩

theorem Sound.use (h : s.Sound) (r : Ref) : (s.use r).Sound := by
  rw [use_frame]
  exact ⟨h.manager, h.current, h.deleted, h.made⟩

theorem closed_close (h : s.session r ≠ none) (r' : Ref) :
    (s.close r).closed_ r' = true ↔ r' = r ∨ s.closed_ r' = true := by
  unfold closed_
  rw [close_session]
  by_cases heq : r' = r
  · rw [if_pos heq]
    obtain ⟨a, ha⟩ := Option.ne_none_iff_exists'.mp h
    simp [ha, heq, Session.close]
  · rw [if_neg heq]
    simp [heq]

/-- A closed session deletes itself. -/
theorem Sound.delete {t : Sessions} (hmanager : t.manager.Sound)
    (hcurrent : ∀ i, t.receiverSession_ = some i → ∃ a, t.receivers[i]? = some a ∧ a.closed_ = false)
    (hdeleted : ∀ r', t.closed_ r' = true ↔ r' = r ∨ r' ∈ t.deleted)
    (hmade : ∀ r, t.session r = none → t.timers.Idle r) : (t.delete r).Sound where
  manager := hmanager
  current := hcurrent
  deleted r' := by
    have hclosed : (t.delete r).closed_ r' = t.closed_ r' := closed_eq (session_eq rfl rfl r')
    rw [hclosed, hdeleted, or_comm]
    exact List.mem_append.trans (or_congr_right List.mem_singleton)
  made r' hnone := (hmade r' ((session_eq rfl rfl r').trans hnone)).conclude

theorem close_receiver_manager (s : Sessions) (i : Nat) :
    (s.close (.receiver i)).manager = s.manager := by
  unfold close
  dsimp only
  cases s.receivers[i]? with
  | none => rfl
  | some a =>
    dsimp only
    rw [onReceiverTimeout_frame]

theorem Sound.close_manager (h : s.Sound) (r : Ref) : (s.close r).manager.Sound := by
  cases r with
  | sender i => exact SessionManager.onTimeout_sound h.manager i
  | receiver i => exact (close_receiver_manager s i).symm ▸ h.manager

theorem Sound.close_delete (h : s.Sound) (hr : s.session r ≠ none) :
    ((s.close r).delete r).Sound := by
  obtain ⟨htimers, hdeleted, -⟩ := close_frame s r
  refine .delete (h.close_manager r) (fun i hi => ?_) (fun r' => ?_) (fun r' hnone => ?_)
  · obtain ⟨hi, hne⟩ := h.close_current hi
    have hsame : (s.close r).session (.receiver i) = s.session (.receiver i) :=
      (close_session s r _).trans (if_neg hne.symm)
    obtain ⟨a, ha, hopen⟩ := h.current i hi
    exact ⟨a, hsame.trans ha, hopen⟩
  · rw [closed_close hr, hdeleted, h.deleted]
  · rw [htimers]
    refine h.made r' ?_
    rw [close_session] at hnone
    split at hnone
    · exact absurd (Option.map_eq_none_iff.mp hnone) hr
    · exact hnone

theorem Sound.onTimeout (h : s.Sound) (hr : s.session r ≠ none) (error : ErrorCode) :
    (s.onTimeout r error).Sound := by
  have hused := h.use r
  have hr' : (s.use r).session r ≠ none := by rwa [use_session]
  unfold Sessions.onTimeout
  cases error with
  | success =>
    have hclosed : ((s.use r).close r).closed_ r = true := (closed_close hr' r).mpr (.inl rfl)
    dsimp only
    rw [if_pos hclosed]
    exact hused.close_delete hr'
  | operation_aborted =>
    dsimp only
    split
    · rename_i hclosed
      refine .delete hused.manager hused.current (fun r' => ?_) hused.made
      rw [← hused.deleted]
      refine ⟨.inr, ?_⟩
      rintro (rfl | hin)
      · exact (hused.deleted _).mpr hclosed
      · exact hin
    · exact hused

/-- A completion belongs to a session that was made. -/
theorem Sound.session_of_queue (h : s.Sound) {error : ErrorCode} (hq : (r, error) ∈ s.timers.queue) :
    s.session r ≠ none := fun hnone => (h.made r hnone).queue error hq

/-- The table has no session that is deleted. -/
theorem Sound.sender (h : s.Sound) {token : Bytes} {i : Nat} (hi : s.manager.getSender token = some i) :
    ∃ a, s.manager.sessions[i]? = some a ∧ a.token = token ∧ a.closed_ = false := by
  obtain ⟨e, hscan, rfl⟩ := Option.map_eq_some_iff.mp hi
  obtain ⟨hin, hkey⟩ := StdMap.scan_some hscan
  rw [of_decide_eq_true hkey]
  exact h.manager.entries e hin

inductive Moves (s : Sessions) : Event → Sessions → Prop
  | nothing (e : Event) : s.Moves e s
  | createSender (appId token : Bytes) : s.Moves (.createSender appId token)
      (({ s with manager := s.manager.createSender appId token } : Sessions).triggerTimer
        (.sender s.manager.sessions.length))
  | touchSender {token : Bytes} {i : Nat} (hi : s.manager.getSender token = some i) :
      s.Moves (.touchSender token) (s.triggerTimer (.sender i))
  | disconnectSender (token : Bytes) : s.Moves (.disconnectSender token)
      { s with manager := (s.manager.disconnectSender token).2 }
  | createReceiver (appId token : Bytes) (hnone : s.receiverSession_ = none) :
      s.Moves (.createReceiver appId token) (({ s with
        receivers := s.receivers ++ [⟨token, appId, false⟩]
        receiverSession_ := some s.receivers.length } : Sessions).triggerTimer
          (.receiver s.receivers.length))
  | touchReceiver {appId : Bytes} {i : Nat} (hi : s.receiverSession_ = some i) :
      s.Moves (.touchReceiver appId) (s.triggerTimer (.receiver i))
  | disconnectReceiver {session : Session} (hc : s.current = some session) :
      s.Moves (.disconnectReceiver session.appId) { s with receiverSession_ := none }
  | setSessionListender (listener : Option Nat) : s.Moves (.setSessionListender listener)
      { s with manager := s.manager.setSessionListender listener }
  | expire (r : Ref) : s.Moves (.expire r) { s with timers := s.timers.expire r }
  | complete {n : Nat} {r : Ref} {error : ErrorCode} (hq : s.timers.queue[n]? = some (r, error)) :
      s.Moves (.complete n) (({ s with timers := s.timers.take n } : Sessions).onTimeout r error)

theorem step_moves (s : Sessions) (e : Event) : s.Moves e (s.step e) := by
  cases e with
  | createSender appId token => exact .createSender appId token
  | touchSender token =>
    change s.Moves _ (s.touchSender token).2
    unfold touchSender
    split
    · rename_i i hi
      exact .touchSender hi
    · exact .nothing _
  | disconnectSender token => exact .disconnectSender token
  | createReceiver appId token =>
    change s.Moves _ (s.createReceiver appId token).2
    unfold createReceiver
    split
    · exact .nothing _
    · rename_i hnone
      exact .createReceiver appId token (Option.not_isSome_iff_eq_none.mp hnone)
  | touchReceiver appId =>
    change s.Moves _ (s.touchReceiver appId).2
    unfold touchReceiver
    split
    · rename_i i hi
      exact .touchReceiver hi
    · exact .nothing _
  | disconnectReceiver appId =>
    change s.Moves _ (s.disconnectReceiver appId).2
    unfold disconnectReceiver
    split
    · exact .nothing _
    · rename_i session hc
      split
      · rename_i happ
        subst happ
        exact .disconnectReceiver hc
      · exact .nothing _
  | setSessionListender listener => exact .setSessionListender listener
  | expire r => exact .expire r
  | complete n =>
    change s.Moves _ (s.complete n)
    unfold complete
    split
    · exact .nothing _
    · rename_i r error hq
      exact .complete hq

theorem step_sound (h : s.Sound) (e : Event) : (s.step e).Sound := by
  have hmoves := step_moves s e
  generalize s.step e = t at hmoves ⊢
  cases hmoves with
  | nothing => exact h
  | createSender appId token =>
    exact h.create (by simp [session]) rfl (createSender_session s appId token)
      (SessionManager.createSender_sound h.manager) (fun _ => .inl) rfl rfl
  | touchSender hi =>
    obtain ⟨a, ha, -⟩ := h.sender hi
    exact h.triggerTimer (by simp [session, ha])
  | disconnectSender token =>
    have hm : (s.manager.disconnectSender token).2.Sound :=
      SessionManager.disconnectSender_sound h.manager.toInformed fun e he _ => h.manager.entries e he
    exact h.keep hm (fun _ => id) (SessionManager.disconnectSender_sessions _ token) rfl rfl rfl
  | createReceiver appId token =>
    refine h.create (by simp [session]) rfl (createReceiver_session s appId token) h.manager
      (fun i hi => .inr ?_) rfl rfl
    rw [Option.some.inj hi]
  | touchReceiver hi =>
    obtain ⟨a, ha, -⟩ := h.current _ hi
    exact h.triggerTimer (by simp [session, ha])
  | disconnectReceiver => exact h.keep h.manager (fun _ hi => nomatch hi) rfl rfl rfl rfl
  | setSessionListender listener =>
    have hm : (s.manager.setSessionListender listener).Sound :=
      SessionManager.setSessionListender_sound h.manager listener
    exact h.keep hm (fun _ => id) (SessionManager.setSessionListender_sessions _ listener) rfl rfl rfl
  | expire r => exact ⟨h.manager, h.current, h.deleted, fun r' hnone => (h.made r' hnone).conclude⟩
  | complete hq => exact (h.take _).onTimeout (h.session_of_queue (List.mem_of_getElem? hq)) _

theorem start_sound : start.Sound where
  manager := SessionManager.run_sound []
  current _ hi := nomatch hi
  deleted r := by cases r <;> simp [start, SessionManager.start, closed_, session]
  made r _ := Waits.idle_none r

theorem run_concat (es : List Event) (e : Event) : run (es ++ [e]) = (run es).step e := List.foldl_append

theorem run_sound (es : List Event) : (run es).Sound := by
  induction es using List.reverseRecOn with
  | nil => exact start_sound
  | append_singleton es e ih =>
    rw [run_concat]
    exact step_sound ih e

/-! ### The handlers of the timers -/

theorem use_timers (s : Sessions) (r : Ref) (timers : Waits Ref) :
    ({ s with timers } : Sessions).use r = { s with timers, strays := (s.use r).strays } := by
  unfold use
  split <;> rfl

theorem complete_eq {n : Nat} {error : ErrorCode} (hq : s.timers.queue[n]? = some (r, error)) :
    s.complete n = ({ s with timers := s.timers.take n } : Sessions).onTimeout r error := by
  rw [complete, hq]

/-- The handler of a wait whose time is up closes the session and deletes it. -/
theorem complete_success {n : Nat} (hq : s.timers.queue[n]? = some (r, .success))
    (hr : s.session r ≠ none) :
    s.complete n = ({ s.close r with
      timers := s.timers.take n
      strays := (s.use r).strays } : Sessions).delete r := by
  have hclosed : (s.close r).closed_ r = true := (closed_close hr r).mpr (.inl rfl)
  rw [complete_eq hq]
  dsimp only [onTimeout]
  rw [use_timers, close_timers]
  exact if_pos ((closed_eq (session_eq rfl rfl r)).trans hclosed)

/-- The handler of a wait that was cancelled deletes the session only where it is closed. -/
theorem complete_aborted {n : Nat} (hq : s.timers.queue[n]? = some (r, .operation_aborted)) :
    s.complete n =
      if s.closed_ r then
        ({ s with timers := s.timers.take n, strays := (s.use r).strays } : Sessions).delete r
      else { s with timers := s.timers.take n, strays := (s.use r).strays } := by
  rw [complete_eq hq]
  dsimp only [onTimeout]
  rw [use_timers]
  exact if_congr (iff_of_eq (congrArg (· = true) (closed_eq (session_eq rfl rfl r)))) rfl rfl

theorem deleted_triggerTimer (s : Sessions) (r : Ref) : (s.triggerTimer r).deleted = s.deleted := by
  unfold triggerTimer
  rw [use_frame]

theorem deleted_onTimeout (s : Sessions) (r : Ref) (error : ErrorCode) :
    ∃ gone, (s.onTimeout r error).deleted = s.deleted ++ gone := by
  have hclose : ((s.use r).close r).deleted = s.deleted := by
    rw [(close_frame _ r).2.1, use_frame]
  have hused : (s.use r).deleted = s.deleted := by rw [use_frame]
  unfold onTimeout
  cases error with
  | success =>
    dsimp only
    split
    · exact ⟨[r], congrArg (· ++ [r]) hclose⟩
    · exact ⟨[], hclose.trans (List.append_nil _).symm⟩
  | operation_aborted =>
    dsimp only
    split
    · exact ⟨[r], congrArg (· ++ [r]) hused⟩
    · exact ⟨[], hused.trans (List.append_nil _).symm⟩

/-- A deleted session is not forgotten to be that. -/
theorem deleted_step (s : Sessions) (e : Event) :
    ∃ gone, (s.step e).deleted = s.deleted ++ gone := by
  have hmoves := step_moves s e
  generalize s.step e = t at hmoves ⊢
  have hsame {t : Sessions} (h : t.deleted = s.deleted) : ∃ gone, t.deleted = s.deleted ++ gone :=
    ⟨[], h.trans (List.append_nil _).symm⟩
  cases hmoves with
  | createSender | touchSender | createReceiver | touchReceiver =>
    exact hsame (deleted_triggerTimer _ _)
  | nothing | disconnectSender | disconnectReceiver | setSessionListender | expire => exact hsame rfl
  | complete => exact deleted_onTimeout _ _ _

theorem deleted_run (s : Sessions) (es : List Event) (hr : r ∈ s.deleted) :
    r ∈ (es.foldl step s).deleted := by
  induction es generalizing s with
  | nil => exact hr
  | cons e es ih =>
    obtain ⟨gone, hgone⟩ := deleted_step s e
    exact ih _ (hgone ▸ List.mem_append_left _ hr)

end Sessions
end Flingd.App
