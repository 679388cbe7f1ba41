import Flingd.App.Receivers
import Mathlib.Data.Finset.Basic

/-! The sessions of senders, and what their listener hears of them. A session is an object with a
timer of its own: when it runs out the session ends, also one that was disconnected before. -/
namespace Flingd.App
open Outcome

/-- A `SenderSession`, which deletes itself when it is closed. -/
structure Session where
  token : Bytes
  appId : Bytes
  closed_ : Bool
deriving DecidableEq

inductive Notice where
  | connected (token : Bytes)
  | disconnected (token : Bytes)
deriving DecidableEq

/-- `sessions` are the sessions that were made, and `heard` is what the listener was told since it was
installed. -/
structure SessionManager where
  sessions : List Session
  senderSessions_ : StdMap Bytes Nat
  sessionListener_ : Option Nat
  heard : List Notice

/-- What is called of the manager; `timeout` is the timer of a session that runs out. -/
inductive Operation where
  | createSender (appId token : Bytes)
  | touchSender (token : Bytes)
  | disconnectSender (token : Bytes)
  | timeout (session : Nat)
  | setSessionListender (listener : Option Nat)

def Operation.created : Operation → Option Bytes
  | .createSender _ token => some token
  | _ => none

def Notice.applied (view : Finset Bytes) : Notice → Finset Bytes
  | .connected token => insert token view
  | .disconnected token => view.erase token

def view (heard : List Notice) : Finset Bytes := heard.foldl Notice.applied ∅

/-- No sender disconnects of which the listener does not know. -/
def Orderly (heard : List Notice) : Prop :=
  ∀ before token after, heard = before ++ .disconnected token :: after → token ∈ view before

namespace SessionManager
variable {s : SessionManager} {appId token : Bytes}

def start : SessionManager := ⟨[], StdMap.empty, none, []⟩

def getSender (s : SessionManager) (token : Bytes) : Option Nat :=
  (s.senderSessions_.scan (token = ·)).map (·.2)

def checkSender (s : SessionManager) (token : Bytes) : Bool := (s.getSender token).isSome

def notify (s : SessionManager) (notice : Notice) : SessionManager :=
  if s.sessionListener_.isSome then { s with heard := s.heard ++ [notice] } else s

def addSender (s : SessionManager) (token : Bytes) (session : Nat) : SessionManager :=
  if s.checkSender token then s
  else { s with senderSessions_ := s.senderSessions_.insert token session }

def createSender (s : SessionManager) (appId token : Bytes) : SessionManager :=
  (({ s with sessions := s.sessions ++ [⟨token, appId, false⟩] } : SessionManager).addSender token
    s.sessions.length).notify (.connected token)

/-- Restarts the timer of the session, where there is one. -/
def touchSender (s : SessionManager) (token : Bytes) : Bool × SessionManager :=
  (s.checkSender token, s)

def removeSender (s : SessionManager) (token : Bytes) : Bool × SessionManager :=
  if s.checkSender token then
    (true, { s with senderSessions_ := s.senderSessions_.eraseFirst (token = ·) })
  else (false, s)

def disconnectSender (s : SessionManager) (token : Bytes) : Bool × SessionManager :=
  let (res, s) := s.removeSender token
  if res then (true, s.notify (.disconnected token)) else (false, s)

def onSenderTimeout (s : SessionManager) (token : Bytes) : SessionManager := (s.disconnectSender token).2

/-- `Session::onTimeout` without an error. -/
def onTimeout (s : SessionManager) (session : Nat) : SessionManager :=
  match s.sessions[session]? with
  | none => s
  | some a =>
    ({ s with sessions := s.sessions.set session { a with closed_ := true } } :
      SessionManager).onSenderTimeout a.token

/-- One pass of the loop over the table, which reads the token of the session. -/
def callConnected (s : SessionManager) (session : Nat) : SessionManager :=
  match s.sessions[session]? with
  | none => s
  | some a => s.notify (.connected a.token)

def setSessionListender (s : SessionManager) (listener : Option Nat) : SessionManager :=
  let s := { s with sessionListener_ := listener, heard := [] }
  if listener.isSome then s.senderSessions_.entries.foldl (fun s e => s.callConnected e.2) s else s

def step (s : SessionManager) : Operation → SessionManager
  | .createSender appId token => s.createSender appId token
  | .touchSender token => (s.touchSender token).2
  | .disconnectSender token => (s.disconnectSender token).2
  | .timeout session => s.onTimeout session
  | .setSessionListender listener => s.setSessionListender listener

def run (ops : List Operation) : SessionManager := ops.foldl step start

/-! ### The view and the table -/

theorem view_append (heard : List Notice) (notice : Notice) :
    view (heard ++ [notice]) = notice.applied (view heard) := List.foldl_append

theorem Orderly.append {heard : List Notice} {notice : Notice} (h : Orderly heard)
    (hnew : ∀ token, notice = .disconnected token → token ∈ view heard) :
    Orderly (heard ++ [notice]) := by
  intro before token after heq
  rcases List.eq_nil_or_concat after with rfl | ⟨init, last, rfl⟩
  · obtain ⟨rfl, hlast⟩ := List.append_inj' heq rfl
    exact hnew token (List.cons.inj hlast).1
  · rw [List.concat_eq_append, ← List.cons_append, ← List.append_assoc] at heq
    exact h before token init (List.append_inj' heq rfl).1

structure Informed (s : SessionManager) : Prop where
  view : s.sessionListener_.isSome → App.view s.heard = s.senderSessions_.keys.toFinset
  orderly : Orderly s.heard

/-- The session of an entry is there, under its token, and not deleted. -/
def Present (s : SessionManager) (e : Bytes × Nat) : Prop :=
  ∃ a, s.sessions[e.2]? = some a ∧ a.token = e.1 ∧ a.closed_ = false

structure Sound (s : SessionManager) : Prop extends s.Informed where
  entries : ∀ e ∈ s.senderSessions_.entries, s.Present e

@[simp] theorem notify_sessions (s : SessionManager) (notice : Notice) :
    (s.notify notice).sessions = s.sessions := by
  unfold notify
  split <;> rfl

@[simp] theorem notify_table (s : SessionManager) (notice : Notice) :
    (s.notify notice).senderSessions_ = s.senderSessions_ := by
  unfold notify
  split <;> rfl

@[simp] theorem notify_listener (s : SessionManager) (notice : Notice) :
    (s.notify notice).sessionListener_ = s.sessionListener_ := by
  unfold notify
  split <;> rfl

theorem Present.of_eq {t : SessionManager} {e : Bytes × Nat} (h : s.Present e)
    (ht : t.sessions = s.sessions) : t.Present e := by
  unfold Present
  rw [ht]
  exact h

theorem checkSender_iff : s.checkSender token = true ↔ token ∈ s.senderSessions_.keys := by
  unfold checkSender getSender
  rw [Option.isSome_map]
  exact StdMap.scan_isSome

theorem addSender_keys (s : SessionManager) (token : Bytes) (session : Nat) :
    (s.addSender token session).senderSessions_.keys.toFinset =
      insert token s.senderSessions_.keys.toFinset := by
  unfold addSender
  split
  · rename_i hin
    rw [Finset.insert_eq_of_mem (List.mem_toFinset.mpr (checkSender_iff.mp hin))]
  · ext i
    rw [List.mem_toFinset, StdMap.mem_keys_insert, Finset.mem_insert, List.mem_toFinset]

/-- A change of the table of which the listener is told. -/
theorem Informed.told {t : SessionManager} {notice : Notice} (h : s.Informed)
    (hlistener : t.sessionListener_ = s.sessionListener_) (hheard : t.heard = s.heard)
    (hkeys : t.senderSessions_.keys.toFinset = notice.applied s.senderSessions_.keys.toFinset)
    (hnew : ∀ token, notice = .disconnected token → token ∈ s.senderSessions_.keys) :
    (t.notify notice).Informed := by
  unfold notify
  split
  · rename_i hsome
    have hview := h.view (hlistener ▸ hsome)
    refine ⟨fun _ => ?_, ?_⟩
    · rw [view_append, hheard, hview, hkeys]
    · refine Orderly.append (hheard ▸ h.orderly) fun token htoken => ?_
      rw [hheard, hview, List.mem_toFinset]
      exact hnew token htoken
  · rename_i hnone
    exact ⟨fun hsome => absurd hsome hnone, hheard ▸ h.orderly⟩

theorem addSender_frame (s : SessionManager) (token : Bytes) (session : Nat) :
    s.addSender token session =
      { s with senderSessions_ := (s.addSender token session).senderSessions_ } := by
  unfold addSender
  split <;> rfl

theorem createSender_sound (h : s.Sound) : (s.createSender appId token).Sound := by
  have hframe := addSender_frame { s with sessions := s.sessions ++ [⟨token, appId, false⟩] } token
    s.sessions.length
  refine ⟨h.toInformed.told ?_ ?_ (addSender_keys _ token _) (fun _ hnew => nomatch hnew), fun e he => ?_⟩
  · rw [hframe]
  · rw [hframe]
  · unfold createSender at he ⊢
    rw [notify_table] at he
    have hin : (e.1 = token ∧ e.2 = s.sessions.length) ∨ e ∈ s.senderSessions_.entries := by
      unfold addSender at he
      split at he
      · exact .inr he
      · refine (StdMap.mem_insert he).imp (fun heq => ?_) id
        rw [heq]
        exact ⟨rfl, rfl⟩
    unfold Present
    rw [notify_sessions, hframe]
    rcases hin with ⟨htoken, hlast⟩ | hold
    · rw [htoken, hlast]
      exact ⟨_, List.getElem?_concat_length, rfl, rfl⟩
    · obtain ⟨a, ha, hl⟩ := h.entries e hold
      exact ⟨a, by rw [List.getElem?_append_left (List.getElem?_eq_some_iff.mp ha).1, ha], hl⟩

/-- A sender is removed, also where the session of its token is deleted already. -/
theorem disconnectSender_sound (h : s.Informed)
    (hentries : ∀ e ∈ s.senderSessions_.entries, e.1 ≠ token → s.Present e) :
    (s.disconnectSender token).2.Sound := by
  by_cases hin : s.checkSender token = true
  · have heq : s.disconnectSender token = (true, SessionManager.notify
        { s with senderSessions_ := s.senderSessions_.eraseFirst (token = ·) } (.disconnected token)) := by
      simp [disconnectSender, removeSender, hin]
    rw [heq]
    refine ⟨h.told rfl rfl ?_ fun t ht => ?_, fun e he => ?_⟩
    · ext i
      simp only [Notice.applied, List.mem_toFinset, Finset.mem_erase]
      exact StdMap.mem_keys_eraseFirst
    · cases ht
      exact checkSender_iff.mp hin
    · rw [notify_table] at he
      have hne : e.1 ≠ token := (StdMap.mem_keys_eraseFirst.mp (List.mem_map_of_mem he)).1
      exact (hentries e (StdMap.mem_eraseFirst he) hne).of_eq (notify_sessions _ _)
  · have heq : s.disconnectSender token = (false, s) := by
      simp [disconnectSender, removeSender, hin]
    rw [heq]
    refine ⟨h, fun e he => hentries e he fun htoken => hin ?_⟩
    rw [checkSender_iff, ← htoken]
    exact List.mem_map_of_mem he

theorem onTimeout_sound (h : s.Sound) (session : Nat) : (s.onTimeout session).Sound := by
  unfold onTimeout
  cases ha : s.sessions[session]? with
  | none => exact h
  | some a =>
    refine disconnectSender_sound ⟨h.view, h.orderly⟩ fun e he htoken => ?_
    obtain ⟨b, hb, hl⟩ := h.entries e he
    have hne : session ≠ e.2 := by
      rintro rfl
      rw [ha] at hb
      cases hb
      exact htoken hl.1.symm
    exact ⟨b, by rw [List.getElem?_set_ne hne, hb], hl⟩

/-- A new listener hears of the entries one after the other. -/
theorem foldl_callConnected (entries : List (Bytes × Nat)) (heard : List Notice)
    (hsome : s.sessionListener_.isSome) (hentries : ∀ e ∈ entries, s.Present e) :
    entries.foldl (fun s e => s.callConnected e.2) { s with heard := heard } =
      { s with heard := heard ++ entries.map fun e => .connected e.1 } := by
  induction entries generalizing heard with
  | nil => simp
  | cons e entries ih =>
    obtain ⟨⟨a, ha, htoken, -⟩, hrest⟩ := List.forall_mem_cons.mp hentries
    have hcall : callConnected { s with heard := heard } e.2 =
        { s with heard := heard ++ [.connected e.1] } := by
      simp [callConnected, ha, notify, hsome, htoken]
    rw [List.foldl_cons, hcall, ih _ hrest, List.append_assoc]
    rfl

theorem view_connected (tokens : List Bytes) : view (tokens.map .connected) = tokens.toFinset := by
  induction tokens using List.reverseRecOn with
  | nil => rfl
  | append_singleton tokens token ih =>
    rw [List.map_append, List.map_singleton, view_append, ih, Notice.applied]
    ext i
    simp

theorem orderly_connected (tokens : List Bytes) : Orderly (tokens.map .connected) := by
  intro before token after heq
  have hmem : Notice.disconnected token ∈ tokens.map Notice.connected := by simp [heq]
  simp at hmem

theorem setSessionListender_sound (h : s.Sound) (listener : Option Nat) :
    (s.setSessionListender listener).Sound := by
  unfold setSessionListender
  cases listener with
  | none =>
    exact ⟨⟨fun hsome => (nomatch hsome), orderly_connected []⟩, fun e he => (h.entries e he).of_eq rfl⟩
  | some listener =>
    have hfold := foldl_callConnected (s := { s with sessionListener_ := some listener })
      s.senderSessions_.entries [] rfl fun e he => (h.entries e he).of_eq rfl
    dsimp only
    rw [if_pos (by rfl), hfold, List.nil_append]
    have htold : (s.senderSessions_.entries.map fun e => Notice.connected e.1) =
        s.senderSessions_.keys.map .connected := by
      rw [StdMap.keys, List.map_map]
      rfl
    refine ⟨⟨fun _ => ?_, ?_⟩, fun e he => (h.entries e he).of_eq rfl⟩
    · rw [htold, view_connected]
    · rw [htold]
      exact orderly_connected _

theorem step_sound (h : s.Sound) (op : Operation) : (s.step op).Sound := by
  cases op with
  | createSender appId token => exact createSender_sound h
  | touchSender token => exact h
  | disconnectSender token => exact disconnectSender_sound h.toInformed fun e he _ => h.entries e he
  | timeout session => exact onTimeout_sound h session
  | setSessionListender listener => exact setSessionListender_sound h listener

theorem run_sound (ops : List Operation) : (run ops).Sound := by
  induction ops using List.reverseRecOn with
  | nil => exact ⟨⟨fun hsome => (nomatch hsome), orderly_connected []⟩, fun e he => (nomatch he)⟩
  | append_singleton ops op ih =>
    unfold run
    rw [List.foldl_append]
    exact step_sound ih op

/-- The listener knows the senders in the table and no others, and hears of the end of a sender only
where it knows it. What the table refers to is there. -/
theorem view_eq_senders (ops : List Operation) :
    ((run ops).sessionListener_.isSome →
      App.view (run ops).heard = (run ops).senderSessions_.keys.toFinset) ∧
      Orderly (run ops).heard ∧ ∀ e ∈ (run ops).senderSessions_.entries, (run ops).Present e :=
  ⟨(run_sound ops).view, (run_sound ops).orderly, (run_sound ops).entries⟩

/-! ### The daemon -/

structure Mirrors (m : SessionManager) (s : Daemon) : Prop where
  senders : ∀ token, token ∈ m.senderSessions_.keys ↔ token ∈ s.senderSessions_.keys
  listener : m.sessionListener_ = s.sessionListener_

/-- What becomes of the daemon becomes of the manager through its operations. -/
def Follows (s s' : Daemon) : Prop :=
  ∀ m, Mirrors m s → ∃ ops : List Operation, Mirrors (ops.foldl step m) s'

theorem createSender_keys (s : SessionManager) (appId token : Bytes) {i : Bytes} :
    i ∈ (s.createSender appId token).senderSessions_.keys ↔ i = token ∨ i ∈ s.senderSessions_.keys := by
  unfold createSender
  rw [notify_table, ← List.mem_toFinset, addSender_keys, Finset.mem_insert, List.mem_toFinset]

theorem createSender_listener (s : SessionManager) (appId token : Bytes) :
    (s.createSender appId token).sessionListener_ = s.sessionListener_ := by
  unfold createSender
  rw [notify_listener, addSender_frame]

theorem disconnectSender_fields (h : s.checkSender token = true) :
    (s.disconnectSender token).2.senderSessions_ = s.senderSessions_.eraseFirst (token = ·) ∧
      (s.disconnectSender token).2.sessionListener_ = s.sessionListener_ := by
  simp [disconnectSender, removeSender, h]

theorem setSessionListender_fields (s : SessionManager) (listener : Option Nat) :
    (s.setSessionListender listener).senderSessions_ = s.senderSessions_ ∧
      (s.setSessionListender listener).sessionListener_ = listener := by
  have hloop (entries : List (Bytes × Nat)) (s : SessionManager) :
      (entries.foldl (fun s e => s.callConnected e.2) s).senderSessions_ = s.senderSessions_ ∧
        (entries.foldl (fun s e => s.callConnected e.2) s).sessionListener_ = s.sessionListener_ := by
    induction entries generalizing s with
    | nil => exact ⟨rfl, rfl⟩
    | cons e entries ih =>
      have hcall : (s.callConnected e.2).senderSessions_ = s.senderSessions_ ∧
          (s.callConnected e.2).sessionListener_ = s.sessionListener_ := by
        unfold callConnected
        split
        · exact ⟨rfl, rfl⟩
        · exact ⟨notify_table _ _, notify_listener _ _⟩
      rw [List.foldl_cons, (ih _).1, (ih _).2]
      exact hcall
  unfold setSessionListender
  dsimp only
  split
  · exact hloop _ _
  · exact ⟨rfl, rfl⟩

theorem covers_follows (made : Bytes × AppInfo → Prop) : Daemon.Covers made Follows where
  refl _ m hm := ⟨[], hm⟩
  trans h h' m hm := by
    obtain ⟨ops, hops⟩ := h m hm
    obtain ⟨ops', hops'⟩ := h' _ hops
    exact ⟨ops ++ ops', by rwa [List.foldl_append]⟩
  manager _ _ _ m hm := ⟨[], hm.senders, hm.listener⟩
  handlers _ _ _ m hm := ⟨[], hm.senders, hm.listener⟩
  session _ _ m hm := ⟨[], hm.senders, hm.listener⟩
  listener s listener m hm := by
    have hfields := setSessionListender_fields m listener
    refine ⟨[.setSessionListender listener], fun token => ?_, hfields.2⟩
    exact (iff_of_eq (congrArg (fun t : StdMap Bytes Nat => token ∈ t.keys) hfields.1)).trans
      (hm.senders token)
  insert s token appId m hm := by
    refine ⟨[.createSender appId token], fun i => ?_, (createSender_listener m _ _).trans hm.listener⟩
    exact (createSender_keys m appId token).trans
      ((or_congr_right (hm.senders i)).trans (StdMap.mem_keys_insert appId).symm)
  erase s token hin m hm := by
    have hhad : m.checkSender token = true :=
      checkSender_iff.mpr ((hm.senders token).mpr (Daemon.checkSender_iff.mp hin))
    have hfields := disconnectSender_fields hhad
    refine ⟨[.disconnectSender token], fun i => ?_, hfields.2.trans hm.listener⟩
    refine (iff_of_eq (congrArg (fun t : StdMap Bytes Nat => i ∈ t.keys) hfields.1)).trans ?_
    exact StdMap.mem_keys_eraseFirst.trans
      ((and_congr_right' (hm.senders i)).trans StdMap.mem_keys_eraseFirst.symm)

/-- Over a run the sessions of the daemon are those of a manager. -/
theorem run_mirrored {es : List Daemon.Event} {s : Daemon} (hrun : Daemon.start.run es = .ok s) :
    ∃ ops, Mirrors (run ops) s := by
  refine foldlM_keeps (I := fun s : Daemon => ∃ ops, Mirrors (run ops) s) ?_
    ⟨[], fun _ => Iff.rfl, rfl⟩ hrun
  intro s s' e _ ⟨ops, hops⟩ hstep
  obtain ⟨ops', hops'⟩ := ((covers_follows (e.Makes ·)).step s).of_ok hstep _ hops
  exact ⟨ops ++ ops', by rwa [run, List.foldl_append]⟩

end SessionManager
end Flingd.App
