import Flingd.App.Stopped

/-! What the answers to requests promise: a created application is there, a token is registered,
and a refusal has changed nothing. -/
namespace Flingd.App
open Outcome

/-! ### Created -/

namespace ApplicationManager
variable {m : ApplicationManager} {ph : Phase} {st : AppState} {q : List Nat} {app : Nat}
variable {appId : Bytes} {info : AppInfo}

def Launched (m : ApplicationManager) (app : Nat) : Prop :=
  m.Live app (fun _ => True) ∧ (m.topApplication_ = some app ∨ m.startingApplication_ = some app ∨
    app ∈ m.penddingApplications_)

def Holds (app : Nat) (ph : Phase) (q : List Nat) : Prop :=
  ph = .starting app ∨ ph = .running app ∨ app ∈ q

theorem Shows.launched_iff (h : m.Shows ph st q) : m.Launched app ↔ Holds app ph q := by
  have hfits := h.fits
  unfold Launched Holds
  rw [h.top, h.starting, h.queue]
  constructor
  · intro ⟨⟨a, ha, hd, _⟩, hslot⟩
    cases ph with
    | starting i => simpa [Phase.top, Phase.startingSlot] using hslot
    | running i => simpa [Phase.top, Phase.startingSlot] using hslot
    | dangling i =>
      obtain ⟨b, hb, hbd, -⟩ := hfits
      refine .inr (.inr ((hslot.resolve_left (by simp [Phase.top])).resolve_left fun hi => ?_))
      cases hi
      rw [hb] at ha
      cases ha
      rw [hd] at hbd
      cases hbd
    | _ => simpa [Phase.top, Phase.startingSlot] using hslot
  · intro hholds
    rcases hholds with rfl | rfl | hq
    · exact ⟨hfits.mono fun _ _ => trivial, .inr (.inl rfl)⟩
    · exact ⟨hfits.mono fun _ _ => trivial, .inl rfl⟩
    · exact ⟨(h.waits.2 app hq).mono fun _ _ => trivial, .inr (.inr hq)⟩

theorem landing_holds (hq : app ∉ q) :
    (m.landing app q).Sat fun ph q' _ => (Holds app ph q' ↔ m.accepts app = true) := by
  unfold landing
  by_cases hacc : m.accepts app = true
  · rw [if_pos hacc]
    split
    · exact Course.sat_some.mpr (iff_of_true (.inl rfl) hacc)
    · split
      · exact Course.sat_some.mpr (iff_of_true (.inr (.inl rfl)) hacc)
      · exact Course.sat_none
  · rw [if_neg hacc]
    refine Course.sat_some.mpr (iff_of_false (fun hholds => ?_) hacc)
    rcases hholds with hph | hph | hmem
    · cases hph
    · cases hph
    · exact hq (mem_settle hmem)

theorem launchTo_holds (hph : ph.slot = ph.stoppingSlot) (hq : app ∉ q) :
    (m.launchTo app ph q).Sat fun ph' q' _ =>
      (Holds app ph' q' ↔ m.accepts app = true ∨ ph.stoppingSlot.isSome = true) := by
  cases ph with
  | idle => exact (landing_holds hq).mono fun ph' q' _ hl => hl.trans (by simp [Phase.stoppingSlot])
  | stopping slot =>
    exact Course.sat_some.mpr (iff_of_true (.inr (.inr (by simp))) (.inr rfl))
  | _ => cases hph

theorem accepts_newApplication (m : ApplicationManager) (appId : Bytes) (info : AppInfo) :
    (m.newApplication appId info).accepts m.nextApp = info.accepted := by
  simp [accepts, signature_of_apps (newApplication_self appId info)]

theorem Shows.awaitsStop_eq (h : m.Shows ph st q) (hph : ph.slot = ph.stoppingSlot) :
    m.awaitsStop = ph.stoppingSlot.isSome := by
  unfold awaitsStop
  rw [h.stopping, h.top, h.starting]
  cases ph with
  | idle => rfl
  | stopping slot => rfl
  | _ => cases hph

theorem launch_holds (h : m.Shows ph ph.state q) (hph : ph.slot = ph.stoppingSlot) :
    ((Request.launch appId info).course m ph q).Sat fun ph' q' _ =>
      (Holds m.nextApp ph' q' ↔ info.accepted = true ∨ m.awaitsStop = true) := by
  rw [h.awaitsStop_eq hph, ← accepts_newApplication m appId info]
  exact launchTo_holds hph (h.newApplication appId info).2.2

theorem replace_holds (h : m.Shows ph ph.state q) :
    ((Request.replace appId info).course m ph q).Sat fun ph' q' _ =>
      (Holds m.nextApp ph' q' ↔ info.accepted = true ∨ m.awaitsStop = true) := by
  have hnot := (h.newApplication appId info).2.2
  rw [← accepts_newApplication m appId info]
  refine (stopTo_settled h).next fun ph' q' _ hto => ?_
  rcases hto with ⟨hwaits, ⟨slot, rfl⟩, rfl⟩ | ⟨hwaits, rfl, rfl⟩
  · rw [hwaits]
    exact launchTo_holds rfl hnot
  · rw [hwaits]
    exact launchTo_holds rfl fun hmem => hnot (h.mem_settled hmem)

end ApplicationManager

def PostBody.Known : PostBody → Prop
  | .request type _ => type = str "launch" ∨ type = str "relaunch" ∨ type = str "join"
  | _ => False

namespace Daemon
open ApplicationManager
variable {s s' : Daemon} {ph : Phase} {q : List Nat} {appId : Bytes} {info : AppInfo}

/-- A POST of a sender or of a DIAL client that is answered with 201. -/
inductive Created (s : Daemon) (appId : Bytes) (info : AppInfo) (s' : Daemon) : Prop where
  | post {authToken uuid type token : Bytes} (h : s.onPost appId authToken uuid (.request type info) =
      .ok (s', .token 201 token))
  | dialPost {data : Bytes} (hinfo : makeDialApplication appId data = some info)
      (h : s.onDialPost appId data = .ok (s', .status 201))

theorem launchOrJoin_created {type : Bytes} (h : s.Sound ph q)
    (hok : s.launchOrJoin appId type info = .ok (s', 201)) :
    s.launchRequest appId type info = .launch appId info ∨
      s.launchRequest appId type info = .replace appId info := by
  obtain ⟨k, -, hlook⟩ := h.aliveIs appId
  unfold launchOrJoin at hok
  rw [hlook, ok_bind] at hok
  unfold launchRequest
  cases halive : s.alive appId with
  | none =>
    simp only [halive] at hok
    by_cases htype : type = str "launch"
    · exact .inl (if_pos htype)
    · rw [if_neg htype] at hok
      simp at hok
  | some same =>
    simp only [halive] at hok
    by_cases htype : type = str "launch"
    · rw [if_pos htype] at hok
      cases same with
      | true => simp at hok
      | false => exact .inr (by simp [htype])
    · rw [if_neg htype] at hok
      by_cases hagain : type = str "relaunch"
      · rw [if_pos hagain] at hok
        cases same with
        | true =>
          refine .inr ?_
          dsimp only
          rw [if_neg htype, if_pos hagain, if_pos rfl]
        | false => simp at hok
      · rw [if_neg hagain] at hok
        cases same <;> simp at hok

/-- A POST that is not refused at once comes to the application, with a session of its own or with the
token that it brought. -/
theorem onPost_joins {authToken uuid type : Bytes} {reply : Reply}
    (htype : ¬ (type ≠ str "launch" ∧ type ≠ str "relaunch" ∧ type ≠ str "join"))
    (hok : s.onPost appId authToken uuid (.request type info) = .ok (s', reply)) :
    ∃ t token code, t.launchOrJoin appId type info = .ok (s', code) ∧
      reply = (if code = 400 then .status code else .token code token) ∧
        (authToken = [] ∧ token = uuid ∧ s.createSender appId uuid = .ok t ∨
          authToken ≠ [] ∧ token = authToken ∧ t = s) := by
  have hrest {t : Daemon} {token : Bytes} (hok : (t.launchOrJoin appId type info >>= fun p =>
      (.ok (p.1, if p.2 = 400 then .status p.2 else .token p.2 token) :
        Except Fault (Daemon × Reply))) = .ok (s', reply)) :
      ∃ code, t.launchOrJoin appId type info = .ok (s', code) ∧
        reply = if code = 400 then .status code else .token code token := by
    obtain ⟨⟨u, code⟩, hu, hok⟩ := bind_eq_ok.mp hok
    cases hok
    exact ⟨code, hu, rfl⟩
  simp only [onPost] at hok
  rw [if_neg htype] at hok
  by_cases hauth : authToken = []
  · rw [if_pos hauth] at hok
    obtain ⟨t, ht, hok⟩ := bind_eq_ok.mp hok
    obtain ⟨code, hjoin, hreply⟩ := hrest hok
    exact ⟨t, uuid, code, hjoin, hreply, .inl ⟨hauth, rfl, ht⟩⟩
  · rw [if_neg hauth] at hok
    obtain ⟨code, hjoin, hreply⟩ := hrest hok
    exact ⟨s, authToken, code, hjoin, hreply, .inr ⟨hauth, rfl, rfl⟩⟩

theorem Created.follows (h : s.Sound ph q) (hc : s.Created appId info s') : ∃ req : Request,
    (req = .launch appId info ∧ ph.slot = ph.stoppingSlot ∨ req = .replace appId info) ∧
      s.Follows ph (req.course s.manager ph q) s' := by
  have hreq (e : Event) (he : s.request e = .launch appId info ∨ s.request e = .replace appId info) :
      s.request e = .launch appId info ∧ ph.slot = ph.stoppingSlot ∨
        s.request e = .replace appId info :=
    he.imp (fun hl => ⟨hl, (launch_requested h hl).1⟩) id
  cases hc with
  | @post authToken uuid type token hok =>
    refine ⟨_, hreq (.post appId authToken uuid (.request type info)) ?_,
      (onPost_ends h appId authToken uuid _).of_ok hok⟩
    simp only [request, postRequest]
    by_cases htype : type ≠ str "launch" ∧ type ≠ str "relaunch" ∧ type ≠ str "join"
    · simp only [onPost] at hok
      rw [if_pos htype] at hok
      cases hok
    · obtain ⟨t, made, code, hjoin, hreply, hcase⟩ := onPost_joins htype hok
      have ht : s.Still t := by
        rcases hcase with ⟨-, -, ht⟩ | ⟨-, -, rfl⟩
        · exact (createSender_ends h.tables appId uuid).of_ok ht
        · exact .refl h.tables
      have hcode : code = 201 := by
        split at hreply
        · cases hreply
        · cases hreply
          rfl
      rw [hcode] at hjoin
      have hl := launchOrJoin_created (h.still ht) hjoin
      rw [if_neg htype]
      rwa [launchRequest_congr ht.manager] at hl
  | @dialPost data hinfo hok =>
    refine ⟨_, hreq (.dialPost appId data) ?_, (onDialPost_ends h appId data).of_ok hok⟩
    unfold onDialPost at hok
    simp only [request, dialPostRequest]
    rw [hinfo] at hok ⊢
    obtain ⟨⟨u, code⟩, hu, hok⟩ := bind_eq_ok.mp hok
    cases hok
    exact launchOrJoin_created h hu

/-- An application that was created is there just where the platform takes its URL, or where it waits
for another one to stop. -/
theorem created_launched_iff {es : List Event} (hrun : start.run es = .ok s)
    (hc : s.Created appId info s') :
    s'.manager.Launched s.manager.nextApp ↔ info.accepted = true ∨ s.manager.awaitsStop = true := by
  obtain ⟨ph, q, h⟩ := run_sound hrun
  obtain ⟨req, hreq, hfollows⟩ := hc.follows h
  obtain ⟨-, k, ph', q', marks, hcourse, -, htook⟩ := hfollows
  rw [htook.shows.launched_iff]
  rcases hreq with ⟨rfl, hph⟩ | rfl
  · exact launch_holds h.shows hph ph' q' marks hcourse
  · exact replace_holds h.shows ph' q' marks hcourse

/-- The platform takes the URLs of DIAL clients. -/
theorem dial_accepted {data : Bytes} (h : makeDialApplication appId data = some info) :
    info.accepted = true := by
  unfold makeDialApplication at h
  split at h
  · cases h
    have hweb : (str "https://").isPrefixOf (str "https://www.youtube.com/tv?" ++ data) = true := by
      rw [List.isPrefixOf_iff_prefix]
      exact (show str "https://" <+: str "https://www.youtube.com/tv?" from
        ⟨str "www.youtube.com/tv?", by decide +kernel⟩).trans (List.prefix_append _ _)
    simp [AppInfo.accepted, isWebApp, hweb]
  · cases h

theorem created_launched_queued : ∃ s s' : Daemon, start.run registered = .ok s ∧
    s.Created (str "~b") ⟨str "http://b", true, -1⟩ s' ∧
      (s'.manager.Launched s.manager.nextApp ↔
        (⟨str "http://b", true, -1⟩ : AppInfo).accepted = true ∨ s.manager.awaitsStop = true) := by
  obtain ⟨s, hs, h⟩ := yields_iff.mp (show yields (start.run registered) (fun s =>
    yields (s.onPost (str "~b") [] (str "second") (.request (str "launch") ⟨str "http://b", true, -1⟩))
      fun p => p.2 = .token 201 (str "second")) = true by decide +kernel)
  obtain ⟨⟨s', reply⟩, hpost, hreply⟩ := yields_iff.mp h
  rw [show reply = .token 201 (str "second") from of_decide_eq_true hreply] at hpost
  exact ⟨s, s', hs, .post hpost, created_launched_iff hs (.post hpost)⟩

/-- The platform refuses the URL, the application is deleted, and the answer is 201. -/
theorem created_not_launched : ∃ s' : Daemon,
    Created start (str "~a") ⟨str "ftp://a", true, -1⟩ s' ∧
      ¬ s'.manager.Launched start.manager.nextApp := by
  obtain ⟨⟨s', reply⟩, hpost, h⟩ := yields_iff.mp (show yields (start.onPost (str "~a") []
    (str "token") (.request (str "launch") ⟨str "ftp://a", true, -1⟩)) (fun p =>
      p.2 = .token 201 (str "token") ∧ (p.1.manager.apps 0).all (·.deleted)) = true by decide +kernel)
  obtain ⟨hreply, hdeleted⟩ := of_decide_eq_true h
  rw [show reply = .token 201 (str "token") from hreply] at hpost
  refine ⟨s', .post hpost, fun ⟨⟨a, ha, hd, _⟩, _⟩ => ?_⟩
  rw [show s'.manager.apps 0 = some a from ha] at hdeleted
  rw [Option.all_some, hd] at hdeleted
  cases hdeleted

/-! ### The sessions of senders -/

/-- Frames are sent, and nothing else is changed. -/
def Sends (s : Daemon) (x : Except Fault Daemon) : Prop :=
  Ends x (fun _ => True) fun s' => s' = { s with handlers := s'.handlers }

theorem send_sends (s : Daemon) (handler : Nat) (frame : Frame) :
    s.Sends (s.send handler frame) := by
  unfold send
  cases s.derefHandler handler with
  | error f => trivial
  | ok r =>
    rw [ok_bind]
    split <;> rfl

theorem notify_sends (s : Daemon) (frame : Frame) : s.Sends (s.notify frame) := by
  unfold notify
  split
  · exact send_sends s _ frame
  · rfl

theorem checkSender_iff {token : Bytes} :
    s.checkSender token = true ↔ token ∈ s.senderSessions_.keys :=
  StdMap.scan_isSome

theorem createSender_sessions (s : Daemon) (appId token : Bytes) :
    Ends (s.createSender appId token) (fun _ => True) fun s' =>
      s'.senderSessions_ = s.senderSessions_.insert token appId :=
  (notify_sends _ _).mono (fun _ hf => hf) fun _ ht => by rw [ht]

theorem disconnectSender_sessions {token : Bytes} (h : s.checkSender token = true) :
    Ends (s.disconnectSender token) (fun _ => True) fun s' =>
      s'.senderSessions_ = s.senderSessions_.eraseFirst (token = ·) := by
  unfold disconnectSender
  rw [if_pos h]
  exact (notify_sends _ _).mono (fun _ hf => hf) fun _ ht => by rw [ht]

theorem Manages.sessions {made : Bytes × AppInfo → Prop} (h : Manages made s s') :
    s'.senderSessions_ = s.senderSessions_ := by
  rw [h.frame]

/-- The token of an answer is registered just where it was made for it or was registered before. -/
theorem token_valid_iff {authToken uuid token : Bytes} {body : PostBody} {code : Nat}
    (hpost : s.onPost appId authToken uuid body = .ok (s', .token code token)) :
    s'.checkSender token = true ↔ authToken = [] ∨ s.checkSender authToken = true := by
  cases body with
  | empty => cases hpost
  | rejected => cases hpost
  | request type info =>
    by_cases htype : type ≠ str "launch" ∧ type ≠ str "relaunch" ∧ type ≠ str "join"
    · simp only [onPost] at hpost
      rw [if_pos htype] at hpost
      cases hpost
    · obtain ⟨t, made, n, hjoin, hreply, hcase⟩ := onPost_joins htype hpost
      have hmade : token = made := by
        split at hreply
        · cases hreply
        · cases hreply
          rfl
      have hmanages : Manages (fun _ => True) t s' :=
        (launchOrJoin_manages t type info fun _ => trivial).of_ok hjoin
      have hsame := hmanages.sessions
      rcases hcase with ⟨hauth, rfl, ht⟩ | ⟨hauth, rfl, rfl⟩
      · refine iff_of_true ?_ (.inl hauth)
        rw [checkSender_iff, hsame, (createSender_sessions s appId made).of_ok ht,
          StdMap.mem_keys_insert]
        exact .inl hmade
      · rw [hmade, checkSender_iff, checkSender_iff, hsame]
        simp [hauth]

theorem token_valid_created : ∃ s' : Daemon, start.onPost (str "~a") [] (str "token")
    (.request (str "launch") ⟨str "http://a", true, -1⟩) = .ok (s', .token 201 (str "token")) ∧
      (s'.checkSender (str "token") = true ↔
        ([] : Bytes) = [] ∨ start.checkSender [] = true) := by
  obtain ⟨⟨s', reply⟩, hpost, hreply⟩ := yields_iff.mp (show yields (start.onPost (str "~a") []
    (str "token") (.request (str "launch") ⟨str "http://a", true, -1⟩))
      (fun p => p.2 = .token 201 (str "token")) = true by decide +kernel)
  rw [show reply = .token 201 (str "token") from of_decide_eq_true hreply] at hpost
  exact ⟨s', hpost, token_valid_iff hpost⟩

/-- The session of the token has ended, and the token is handed out again. -/
theorem token_handed_back : ∃ s s' : Daemon,
    start.run [.launch (str "~a") (str "http://a") true, .senderTimeout (str "token")] = .ok s ∧
      s.onPost (str "~a") (str "token") (str "second")
        (.request (str "join") ⟨str "http://a", true, -1⟩) = .ok (s', .token 200 (str "token")) ∧
        s'.checkSender (str "token") = false := by
  obtain ⟨s, hs, h⟩ := yields_iff.mp (show yields (start.run
    [.launch (str "~a") (str "http://a") true, .senderTimeout (str "token")]) (fun s =>
      yields (s.onPost (str "~a") (str "token") (str "second")
        (.request (str "join") ⟨str "http://a", true, -1⟩)) fun p =>
          p.2 = .token 200 (str "token") ∧ p.1.checkSender (str "token") = false) = true by
      decide +kernel)
  obtain ⟨⟨s', reply⟩, hpost, h⟩ := yields_iff.mp h
  obtain ⟨hreply, hgone⟩ := of_decide_eq_true h
  rw [show reply = .token 200 (str "token") from hreply] at hpost
  exact ⟨s, s', hs, hpost, hgone⟩

/-! ### Refusals -/

/-- The sessions of senders, what receivers were told, the slots and the queue are the same. -/
structure Unchanged (s s' : Daemon) : Prop where
  sessions : s'.senderSessions_ = s.senderSessions_
  notices : s'.handlers = s.handlers
  top : s'.manager.topApplication_ = s.manager.topApplication_
  starting : s'.manager.startingApplication_ = s.manager.startingApplication_
  stopping : s'.manager.stoppingApplication_ = s.manager.stoppingApplication_
  queue : s'.manager.penddingApplications_ = s.manager.penddingApplications_

theorem Unchanged.refl (s : Daemon) : s.Unchanged s := ⟨rfl, rfl, rfl, rfl, rfl, rfl⟩

theorem aliveIs_unchanged (s : Daemon) (appId : Bytes) :
    Ends (s.aliveIs appId) (fun _ => True) fun p => s.Unchanged p.2 := by
  unfold aliveIs
  split
  · exact .refl s
  · unfold getAppId
    split
    · trivial
    · rw [ok_bind]
      dsimp only
      split <;> exact ⟨rfl, rfl, rfl, rfl, rfl, rfl⟩

theorem launchOrJoin_refused {code : Nat} {type : Bytes}
    (hok : s.launchOrJoin appId type info = .ok (s', code)) (hcode : code = 400) :
    s.Unchanged s' := by
  obtain ⟨⟨alive, t⟩, ht, hok⟩ := bind_eq_ok.mp hok
  have hsame : s.Unchanged t := (aliveIs_unchanged s appId).of_ok ht
  have hreplace {x : Except Fault Daemon} (hx : (x >>= fun u => (.ok (u, 201) :
      Except Fault (Daemon × Nat))) = .ok (s', code)) : False := by
    obtain ⟨u, -, hx⟩ := bind_eq_ok.mp hx
    cases hx
    cases hcode
  have hsplit {x : Except Fault Daemon} {f : Daemon → Except Fault Daemon}
      (hx : (x >>= fun u => f u >>= fun v => (.ok (v, 201) : Except Fault (Daemon × Nat))) =
        .ok (s', code)) : False := by
    obtain ⟨u, -, hx⟩ := bind_eq_ok.mp hx
    exact hreplace hx
  dsimp only at hok
  cases alive with
  | none =>
    dsimp only at hok
    split at hok
    · exact (hreplace hok).elim
    · cases hok
      exact hsame
  | some same =>
    dsimp only at hok
    split at hok
    · split at hok
      · cases hok
        exact hsame
      · exact (hsplit hok).elim
    · split at hok
      · split at hok
        · exact (hsplit hok).elim
        · cases hok
          exact hsame
      · split at hok
        · cases hok
          exact hsame
        · cases hok
          exact hsame

theorem stopAlive_refused {code : Nat} (hok : s.stopAlive appId = .ok (s', .status code))
    (hcode : code = 400 ∨ code = 404) : s.Unchanged s' := by
  obtain ⟨⟨alive, t⟩, ht, hok⟩ := bind_eq_ok.mp hok
  have hsame : s.Unchanged t := (aliveIs_unchanged s appId).of_ok ht
  dsimp only at hok
  split at hok
  · obtain ⟨u, -, hok⟩ := bind_eq_ok.mp hok
    cases hok
    simp at hcode
  · cases hok
    exact hsame
  · cases hok
    exact hsame

inductive SenderRequest where
  | get (authToken : Bytes)
  | post (authToken uuid : Bytes) (body : PostBody)
  | delete (authToken : Bytes) (isInstance : Bool)

def serve (s : Daemon) (appId : Bytes) : SenderRequest → Except Fault (Daemon × Reply)
  | .get authToken => s.onGet appId authToken
  | .post authToken uuid body => s.onPost appId authToken uuid body
  | .delete authToken isInstance => s.onDelete appId authToken isInstance

/-- The token of a new session is not in use. -/
def SenderRequest.Fresh (s : Daemon) : SenderRequest → Prop
  | .post _ uuid _ => s.checkSender uuid = false
  | _ => True

/-- A refusal of the request comes before it has made or ended a session. -/
def SenderRequest.RefusedFirst (s : Daemon) : SenderRequest → Prop
  | .get _ => True
  | .post authToken _ body => authToken ≠ [] ∨ ¬ body.Known
  | .delete authToken _ => authToken = [] ∨ s.checkSender authToken = false

theorem onGet_refused {authToken : Bytes} {code : Nat}
    (hok : s.onGet appId authToken = .ok (s', .status code)) : s.Unchanged s' := by
  unfold onGet at hok
  split at hok
  · cases hok
    exact .refl s
  · obtain ⟨⟨alive, t⟩, -, hok⟩ := bind_eq_ok.mp hok
    dsimp only at hok
    split at hok
    · obtain ⟨a, -, hok⟩ := bind_eq_ok.mp hok
      cases hok
    · cases hok

theorem onPost_refused_iff {authToken uuid : Bytes} {body : PostBody} {code : Nat}
    (hfresh : s.checkSender uuid = false)
    (hok : s.onPost appId authToken uuid body = .ok (s', .status code)) :
    s.Unchanged s' ↔ authToken ≠ [] ∨ ¬ body.Known := by
  cases body with
  | empty =>
    cases hok
    exact iff_of_true (.refl s) (.inr id)
  | rejected => cases hok
  | request type info =>
    by_cases htype : type ≠ str "launch" ∧ type ≠ str "relaunch" ∧ type ≠ str "join"
    · simp only [onPost] at hok
      rw [if_pos htype] at hok
      cases hok
      refine iff_of_true (.refl s) (.inr fun hknown => ?_)
      rcases hknown with heq | heq | heq
      · exact htype.1 heq
      · exact htype.2.1 heq
      · exact htype.2.2 heq
    · have hknown : (PostBody.request type info).Known := by
        unfold PostBody.Known
        by_contra hnot
        exact htype (by simpa [not_or] using hnot)
      obtain ⟨t, made, n, hjoin, hreply, hcase⟩ := onPost_joins htype hok
      have hn : n = 400 := by
        by_contra hn
        rw [if_neg hn] at hreply
        cases hreply
      have hrest := launchOrJoin_refused hjoin hn
      rcases hcase with ⟨hauth, -, ht⟩ | ⟨hauth, -, rfl⟩
      · refine iff_of_false (fun hsame => ?_) (by simp [hauth, hknown])
        have hmade := (createSender_sessions s appId uuid).of_ok ht
        have hin : uuid ∈ s.senderSessions_.keys := by
          rw [← hsame.sessions, hrest.sessions, hmade, StdMap.mem_keys_insert]
          exact .inl rfl
        rw [← checkSender_iff, hfresh] at hin
        cases hin
      · exact iff_of_true hrest (.inl hauth)

theorem onDelete_refused_iff {authToken : Bytes} {isInstance : Bool} {code : Nat}
    (hcode : code = 400 ∨ code = 404)
    (hok : s.onDelete appId authToken isInstance = .ok (s', .status code)) :
    s.Unchanged s' ↔ authToken = [] ∨ s.checkSender authToken = false := by
  unfold onDelete at hok
  by_cases hauth : authToken = [] ∨ s.checkSender authToken = false
  · rw [if_pos hauth] at hok
    cases hok
    exact iff_of_true (.refl s) hauth
  · rw [if_neg hauth] at hok
    obtain ⟨t, ht, hok⟩ := bind_eq_ok.mp hok
    have hhad : s.checkSender authToken = true := by
      rw [not_or, Bool.not_eq_false] at hauth
      exact hauth.2
    have hended := (disconnectSender_sessions hhad).of_ok ht
    have hrest : t.Unchanged s' := by
      split at hok
      · exact stopAlive_refused hok hcode
      · cases hok
        simp at hcode
    refine iff_of_false (fun hsame => ?_) hauth
    rw [checkSender_iff, ← hsame.sessions, hrest.sessions, hended, StdMap.mem_keys_eraseFirst] at hhad
    exact hhad.1 rfl

/-- A request that is refused has changed nothing just where the refusal came first. -/
theorem refused_unchanged_iff {r : SenderRequest} {code : Nat} (hfresh : r.Fresh s)
    (hok : s.serve appId r = .ok (s', .status code)) (hcode : code = 400 ∨ code = 404) :
    s.Unchanged s' ↔ r.RefusedFirst s := by
  cases r with
  | get authToken => exact iff_of_true (onGet_refused hok) trivial
  | post authToken uuid body => exact onPost_refused_iff hfresh hok
  | delete authToken isInstance => exact onDelete_refused_iff hcode hok

theorem refused_unchanged_joining : ∃ s' : Daemon,
    start.serve (str "~a") (.post (str "gone") (str "token")
      (.request (str "join") ⟨str "http://a", true, -1⟩)) = .ok (s', .status 400) ∧
      (start.Unchanged s' ↔ (SenderRequest.post (str "gone") (str "token")
        (.request (str "join") ⟨str "http://a", true, -1⟩)).RefusedFirst start) := by
  obtain ⟨s', h⟩ : ∃ s', start.serve (str "~a") (.post (str "gone") (str "token")
      (.request (str "join") ⟨str "http://a", true, -1⟩)) = .ok (s', .status 400) := ⟨_, rfl⟩
  exact ⟨s', h, refused_unchanged_iff rfl h (.inl rfl)⟩

/-- A sender asks to join where nothing is up, is refused, and leaves a session behind. -/
theorem refused_with_session : ∃ s' : Daemon,
    start.serve (str "~a") (.post [] (str "token") (.request (str "join") ⟨str "http://a", true, -1⟩)) =
      .ok (s', .status 400) ∧ start.checkSender (str "token") = false ∧
        s'.checkSender (str "token") = true ∧ ¬ start.Unchanged s' := by
  refine ⟨_, rfl, rfl, rfl, fun hsame => ?_⟩
  have hsize := congrArg StdMap.size hsame.sessions
  cases hsize

end Daemon
end Flingd.App
