import Flingd.App.Turns
import Flingd.Platform.Kinds
import Flingd.Platform.Reads

/-! What a client of the platform shows while the daemon runs. What it is told to start it is told
to stop before it is told to start anything else. Only a web application is shown as such: of a
native one the client gets the data without `app:?`, and calls nothing for most of them. -/
namespace Flingd.Platform
open App Flint PlatformPal
variable {write : Json Bytes → Bytes} {org : OrgJson}

inductive Screen where
  | web (url : JavaString)
  | native (appInfo : JavaString)
deriving DecidableEq

def Screen.call : Turn Screen → Call
  | .start (.web url) => .onWebAppStart url
  | .start (.native appInfo) => .onNativeAppStart appInfo
  | .stop (.web url) => .onWebAppStop url
  | .stop (.native appInfo) => .onNativeAppStop appInfo

/-- What the client shows for the `url` of an `app_info`. -/
def screenOf (url : JavaString) : Option Screen :=
  if lowerStartsWith url (javaString "http://") || lowerStartsWith url (javaString "https://") then
    some (.web url)
  else if lowerStartsWith url (javaString "app:?") then some (.native (url.drop 5))
  else none

theorem processUrl_launch (url : JavaString) : processUrl (javaString "LAUNCH_RECEIVER") url =
    (screenOf url).toList.map fun x => Screen.call (.start x) := by
  unfold processUrl screenOf
  split
  · rfl
  · split <;> rfl

theorem processUrl_stop (url : JavaString) : processUrl (javaString "STOP_RECEIVER") url =
    (screenOf url).toList.map fun x => Screen.call (.stop x) := by
  unfold processUrl screenOf
  split
  · rfl
  · split <;> rfl

/-! ### The calls of the platform -/

def dataOf (url : Bytes) : Option Bytes :=
  if isWebApp (parseAppInfo url) then some (parseAppInfo url)
  else if isNativeApp (parseAppInfo url) then some (ieraseFirst (str "app:?") (parseAppInfo url))
  else none

theorem launchApplication_eq (p : PlatformPal) (url : Bytes) : p.launchApplication write url =
    ((dataOf url).isSome, (dataOf url).elim p (p.onReceiver write (str "LAUNCH_RECEIVER"))) := by
  unfold launchApplication dataOf
  dsimp only
  split
  · rfl
  · split <;> rfl

theorem stopApplication_eq (p : PlatformPal) (url : Bytes) : p.stopApplication write url =
    (dataOf url).elim p (p.onReceiver write (str "STOP_RECEIVER")) := by
  unfold stopApplication dataOf
  dsimp only
  split
  · rfl
  · split <;> rfl

theorem isPrefixOf_cStr {word : Bytes} (h : 0 ∉ word) (url : Bytes) :
    word.isPrefixOf (cStr url) = word.isPrefixOf url := by
  induction word generalizing url with
  | nil => rfl
  | cons c word ih =>
    obtain ⟨hc, hword⟩ := not_or.mp (mt List.mem_cons.mpr h)
    cases url with
    | nil => rfl
    | cons b url =>
      by_cases hb : b = 0
      · have hne : (c == b) = false := by
          rw [hb, beq_eq_false_iff_ne]
          exact fun hzero => hc hzero.symm
        rw [hb, cStr, List.takeWhile_cons_of_neg (by simp), ← hb, List.isPrefixOf_cons_cons, hne]
        rfl
      · rw [cStr, List.takeWhile_cons_of_pos (by simpa using hb), List.isPrefixOf_cons_cons,
          List.isPrefixOf_cons_cons]
        exact congrArg (c == b && ·) (ih hword url)

/-- The manager goes by the answer of the platform. -/
theorem accepted_eq (info : AppInfo) : info.accepted = (dataOf info.url).isSome := by
  have hweb : isWebApp (parseAppInfo info.url) = isWebApp info.url := by
    unfold isWebApp parseAppInfo
    rw [isPrefixOf_cStr (by decide), isPrefixOf_cStr (by decide)]
  have hnative : isNativeApp (parseAppInfo info.url) = isNativeApp info.url := by
    unfold isNativeApp parseAppInfo
    rw [isPrefixOf_cStr (by decide)]
  rw [AppInfo.accepted, dataOf, hweb, hnative]
  cases isWebApp info.url <;> cases isNativeApp info.url <;> rfl

/-- The string `url` in what a request says of the application. -/
def urlOf (m : ApplicationManager) (app : Nat) : Bytes := ((m.signature app).map (·.2.url)).getD []

theorem accepts_eq (m : ApplicationManager) (app : Nat) :
    m.accepts app = (dataOf (urlOf m app)).isSome := by
  unfold ApplicationManager.accepts urlOf
  cases m.signature app with
  | none => rfl
  | some sig => exact accepted_eq sig.2

def PlatformPal.hear (write : Json Bytes → Bytes) (m : ApplicationManager) (p : PlatformPal) :
    Mark → PlatformPal
  | .handed app => (p.launchApplication write (urlOf m app)).2
  | .stopping app => p.stopApplication write (urlOf m app)
  | _ => p

def messageOf (write : Json Bytes → Bytes) (m : ApplicationManager) : Mark → Option Bytes
  | .handed app =>
    (dataOf (urlOf m app)).map fun data => write (receiverMessage (str "LAUNCH_RECEIVER") data)
  | .stopping app =>
    (dataOf (urlOf m app)).map fun data => write (receiverMessage (str "STOP_RECEIVER") data)
  | _ => none

def TcpSessionWrapper.heard (w : TcpSessionWrapper) (messages : List Bytes) : TcpSessionWrapper :=
  { w with sent := w.sent ++ messages.map frame }

variable {m : ApplicationManager}

theorem onReceiver_sessions (p : PlatformPal) (type data : Bytes) :
    (p.onReceiver write type data).sessions_ =
      p.sessions_.map (·.heard [write (receiverMessage type data)]) := by
  unfold onReceiver
  split
  · rfl
  · rename_i hnone
    rw [List.eq_nil_of_length_eq_zero (Nat.eq_zero_of_not_pos hnone)]
    rfl

theorem heard_nil (ws : List TcpSessionWrapper) : ws.map (·.heard []) = ws := by
  refine (List.map_congr_left fun w _ => ?_).trans (List.map_id ws)
  rw [TcpSessionWrapper.heard, List.map_nil, List.append_nil]
  rfl

/-- Every session is sent what there is to send. -/
theorem sent_sessions (p : PlatformPal) (type url : Bytes) :
    ((dataOf url).elim p (p.onReceiver write type)).sessions_ = p.sessions_.map
      (·.heard ((dataOf url).map fun data => write (receiverMessage type data)).toList) := by
  cases dataOf url with
  | none => exact (heard_nil _).symm
  | some data => exact onReceiver_sessions p type data

theorem hear_sessions (p : PlatformPal) (k : Mark) : (p.hear write m k).sessions_ =
    p.sessions_.map (·.heard (messageOf write m k).toList) := by
  cases k with
  | handed app =>
    rw [PlatformPal.hear, launchApplication_eq]
    exact sent_sessions p _ _
  | stopping app =>
    rw [PlatformPal.hear, stopApplication_eq]
    exact sent_sessions p _ _
  | _ => exact (heard_nil _).symm

theorem hears_sessions (p : PlatformPal) (marks : List Mark) :
    (marks.foldl (PlatformPal.hear write m) p).sessions_ =
      p.sessions_.map (·.heard (marks.filterMap (messageOf write m))) := by
  induction marks generalizing p with
  | nil => exact (heard_nil _).symm
  | cons k marks ih =>
    rw [List.foldl_cons, ih, hear_sessions, List.map_map]
    refine List.map_congr_left fun w _ => ?_
    cases hk : messageOf write m k with
    | none =>
      rw [List.filterMap_cons_none hk]
      simp [TcpSessionWrapper.heard]
    | some x =>
      rw [List.filterMap_cons_some hk]
      simp [TcpSessionWrapper.heard]

/-! ### The callbacks -/

/-- What the client shows of an application: of a native one, what its data are read as. -/
def screen (url : Bytes) : Option Screen :=
  (dataOf url).bind fun data => screenOf (decodeUtf8 (cStr data))

def shown (m : ApplicationManager) : Option Screen := m.up.bind fun app => screen (urlOf m app)

/-- What is sent of an application calls back for what the client shows of it. -/
theorem data_calls {type url : Bytes} {turn : Screen → Turn Screen}
    (hsent : ∀ data, processMessage org (decodeUtf8 (write (receiverMessage type data))) =
      (screenOf (decodeUtf8 (cStr data))).toList.map fun x => Screen.call (turn x)) :
    ((dataOf url).map fun data => write (receiverMessage type data)).toList.flatMap
        (fun x => processMessage org (decodeUtf8 x)) =
      ((screen url).map turn).toList.map Screen.call := by
  unfold screen
  cases dataOf url with
  | none => rfl
  | some data =>
    rw [Option.map_some, Option.toList_some, List.flatMap_singleton, hsent, Option.bind_some]
    cases screenOf (decodeUtf8 (cStr data)) <;> rfl

/-- An application that the platform does not take is not shown. -/
theorem handed_told (app : Nat) : ((Mark.handed app).turn m.accepts).bind
    (Turn.told fun app => screen (urlOf m app)) = (screen (urlOf m app)).map .start := by
  rw [Mark.turn, accepts_eq]
  split
  · rfl
  · rename_i hnone
    rw [screen, Option.not_isSome_iff_eq_none.mp hnone]
    rfl

/-- The callbacks for what is sent where something is noted. -/
theorem message_calls (hread : Understands write org) (k : Mark) :
    (messageOf write m k).toList.flatMap (fun x => processMessage org (decodeUtf8 x)) =
      ((k.turn m.accepts).bind (Turn.told fun app => screen (urlOf m app))).toList.map Screen.call := by
  cases k with
  | handed app =>
    rw [handed_told]
    exact data_calls fun data => (processMessage_launch hread data).trans (processUrl_launch _)
  | stopping app =>
    exact data_calls fun data => (processMessage_stop hread data).trans (processUrl_stop _)
  | _ => rfl

def turnsOf (m : ApplicationManager) (marks : List Mark) : List (Turn Screen) :=
  (marks.filterMap (Mark.turn m.accepts)).filterMap (Turn.told fun app => screen (urlOf m app))

theorem messages_calls (hread : Understands write org) (marks : List Mark) :
    (marks.filterMap (messageOf write m)).flatMap (fun x => processMessage org (decodeUtf8 x)) =
      (turnsOf m marks).map Screen.call := by
  have htold : turnsOf m marks =
      marks.flatMap fun k => ((k.turn m.accepts).bind
        (Turn.told fun app => screen (urlOf m app))).toList := by
    rw [turnsOf, List.filterMap_filterMap, List.filterMap_eq_flatMap_toList]
  rw [htold, List.filterMap_eq_flatMap_toList, List.flatMap_assoc, List.map_flatMap]
  exact List.flatMap_congr fun k _ => message_calls hread k

/-- What was up when the client came is known by the same URL later. -/
theorem shown_before {s₀ s : Daemon} {ph₀ ph : Phase} {q₀ : List Nat} {marks : List Mark}
    (h₀ : s₀.Sound ph₀ q₀) (h : s₀.Turned s ph₀ ph marks) :
    ph₀.up.bind (fun app => screen (urlOf s.manager app)) = shown s₀.manager := by
  rw [shown, h₀.shows.up]
  refine Option.bind_congr fun app happ => ?_
  have hslot : ph₀.slot = some app := by
    cases ph₀ with
    | starting i => exact happ
    | running i => exact happ
    | _ => cases happ
  obtain ⟨a, ha, -⟩ := h₀.shows.slot_apps hslot
  have hsig := ApplicationManager.signature_of_apps ha
  rw [urlOf, urlOf, hsig, h.kept app _ hsig]

theorem decodeUtf8_utf8 (x : Text) : decodeUtf8 (utf8 x) = utf16 x := by
  have htext := decodeUtf8_text x []
  rwa [List.append_nil, decodeUtf8_nil, List.append_nil] at htext

/-- From any state of the daemon on, the callbacks of a client take turns: they start from what is
shown when the client comes, and lead to what is shown in the end. So they do at the end of the
stream, where the messages are plain and no read cuts one behind its size. -/
theorem shows_in_turn {before es : List Daemon.Event} {s₀ s : Daemon}
    (hbefore : Daemon.start.run before = .ok s₀) (hrun : s₀.run es = .ok s)
    (hread : Understands write org) :
    ∃ (marks : List Mark) (messages : List Bytes) (turns : List (Turn Screen)),
      s.manager.log = s₀.manager.log ++ marks ∧
      (∀ p : PlatformPal, (marks.foldl (PlatformPal.hear write s.manager) p).sessions_ =
        p.sessions_.map (·.heard messages)) ∧
      messages.flatMap (fun x => processMessage org (decodeUtf8 x)) = turns.map Screen.call ∧
      TakeTurns (shown s₀.manager) turns (shown s.manager) ∧
      ∀ (ms : List Text) (reads : List Bytes), messages = ms.map utf8 → (∀ x ∈ ms, Small x ∧ Ascii x) →
        reads.flatten = (messages.map frame).flatten → EndsOutside ms [] reads →
        ∃ f, Flint.start.run reads = .ok f ∧
          f.processed.flatMap (processMessage org) = turns.map Screen.call := by
  obtain ⟨ph₀, q₀, ph, q, marks, h₀, h, hturned⟩ := Daemon.run_turned hbefore hrun
  have hcalls := messages_calls (m := s.manager) hread marks
  refine ⟨marks, _, turnsOf s.manager marks, hturned.log, fun p => hears_sessions p marks, hcalls, ?_,
    fun ms reads hms hgood hcut hends => ?_⟩
  · have htold := hturned.turns.told fun app => screen (urlOf s.manager app)
    rwa [shown_before h₀ hturned, ← h.shows.up] at htold
  · rw [hms] at hcalls hcut
    have hcut' : [] ++ reads.flatten = ms.flatMap wire := by
      rw [List.nil_append, hcut, List.map_map, List.flatMap_def]
      rfl
    have hbegun : Begun wire ms [] := by
      cases ms with
      | nil => rfl
      | cons x ms => exact ⟨List.nil_prefix, by simp [wire, frame]⟩
    have hdecodes : Decodes ⟨decodeUtf8 [], []⟩ reads ([] ++ ms.map utf16) :=
      (decodes_iff (fun x hx => (hgood x hx).1) hbegun List.not_mem_nil hcut').mpr
        ⟨fun x hx => (hgood x hx).2, hends⟩
    rw [decodeUtf8_nil, List.nil_append] at hdecodes
    obtain ⟨f, hf, hall⟩ := hdecodes
    refine ⟨f, hf, ?_⟩
    rw [hall, ← hcalls, List.flatMap_map, List.flatMap_map]
    simp only [decodeUtf8_utf8]

/-- `~b` is launched when `~a` has stopped for it. -/
theorem shows_in_turn_second : ∃ (s : Daemon) (messages : List Bytes) (turns : List (Turn Screen)),
    Daemon.start.run (Daemon.queuedSecond ++ [.closed 0]) = .ok s ∧
      messages.flatMap (fun x => processMessage compactJson (decodeUtf8 x)) =
        turns.map Screen.call ∧
      TakeTurns none turns (some (.web (javaString "http://b"))) := by
  obtain ⟨s, hs, h⟩ := Outcome.yields_iff.mp (show Outcome.yields
    (Daemon.start.run (Daemon.queuedSecond ++ [.closed 0]))
    (fun s => shown s.manager = some (.web (javaString "http://b"))) = true by decide +kernel)
  have hbefore : Daemon.start.run [] = .ok Daemon.start := rfl
  obtain ⟨-, messages, turns, -, -, hcalls, hturns, -⟩ :=
    shows_in_turn hbefore hs understands_compactJson
  rw [of_decide_eq_true h] at hturns
  exact ⟨s, messages, turns, hs, hcalls, hturns⟩

end Flingd.Platform
