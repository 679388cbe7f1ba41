import Flingd.App.Holdings
import Flingd.App.Receivers
import Flingd.App.StatusRead
import Flingd.Sdk.Dialogue

/-! What a GET shows of the data a receiver has set. While the websocket is not open yet, data can
overtake other data; but the daemon answers the registration, and then the receiver sends what it
has at that time. -/
namespace Flingd.Sdk
open App Outcome FlintReceiverManager Json
variable {json : Rapidjson} {appId : Bytes}

/-! ### Texts on the way -/

namespace Request

def text (json : Rapidjson) (appId : Bytes) (q : Request) : Bytes :=
  json.write (.object (q.members appId))

def stores (stored : Bytes) (q : Request) : Bytes := q.data.getD stored

theorem text_ne_nil (hw : json.Writes) (q : Request) : q.text json appId ≠ [] :=
  (hw _ (Dialogue.plain_members q appId)).1

end Request

/-- A frame on its way to the receiver, with what is known of the device. -/
structure Letter where
  frame : Frame
  appId : Bytes
  ip : Bytes
  uuid : Bytes
  deviceName : Bytes

namespace Letter

def text (json : Rapidjson) (l : Letter) : Bytes :=
  json.write (l.frame.document l.appId l.ip l.uuid l.deviceName)

def Renews (appId : Bytes) (l : Letter) : Prop := l.frame = .registerok ∧ appId = cStr l.appId

instance (appId : Bytes) (l : Letter) : Decidable (l.Renews appId) := instDecidableAnd

def tells (appId url : Bytes) (l : Letter) : Bytes := if l.Renews appId then cStr l.ip else url

end Letter

namespace FlintReceiverManager
variable {m m' : FlintReceiverManager} {d : Json Bytes}

def dataTexts (m : FlintReceiverManager) : List (Bytes × Bytes) :=
  (if m.messageBusManager_ then
      [(str "channelBaseUrl",
        str "ws://" ++ m.flintServiceUrl_ ++ str ":9439/channels/" ++ str "channelBaseUrl")]
    else []) ++
    if m.customAdditionalData_ ≠ [] then [(str "customData", m.customAdditionalData_)] else []

theorem dataMembers_eq (m : FlintReceiverManager) :
    m.dataMembers = m.dataTexts.map fun p => (cStr p.1, .text p.2) := by
  unfold dataMembers dataTexts
  split <;> split <;> rfl

/-- While there is a bus manager there is data to send. -/
theorem joinAdditionalData_eq (hbus : m.messageBusManager_ = true) :
    m.joinAdditionalData json = (Request.additionaldata m.dataTexts).text json m.appId_ := by
  unfold joinAdditionalData
  rw [if_neg (by simp [hbus]), dataMembers_eq]
  rfl

theorem sendAdditionalData_eq (hw : json.Writes) (hid : m.appId_ = appId)
    (hbus : m.messageBusManager_ = true) : m.sendAdditionalData json =
      m.ipcSend ((Request.additionaldata m.dataTexts).text json appId) := by
  subst hid
  unfold sendAdditionalData
  rw [joinAdditionalData_eq hbus]
  exact if_pos (Request.text_ne_nil hw _)

theorem onTyped_other {typeStr : Bytes} (htype : typeStr ≠ str "registerok")
    (h : m.onTyped json d typeStr = some m') : m' = m ∨ ∃ type, m' = m.sendHeartbeat json type := by
  unfold onTyped at h
  rw [if_neg htype] at h
  split_ifs at h
  · exact .inl (Option.some.inj h).symm
  · exact onHeartbeat_some h
  · exact .inl (onSenderNotice_some h)
  · exact .inl (onSenderNotice_some h)
  · exact .inl (Option.some.inj h).symm

/-- A letter that does not renew makes the receiver send a heartbeat, or nothing. -/
theorem onIpcMessage_letter (hj : json.Undoes) (hw : json.Writes) (hid : m.appId_ = appId)
    {l : Letter} (h : m.onIpcMessage json (l.text json) = some m') :
    if l.Renews appId then m' = { m with flintServiceUrl_ := cStr l.ip }.sendAdditionalData json
    else m' = m ∨ ∃ type, m' = m.sendHeartbeat json type := by
  subst hid
  obtain ⟨frame, id, ip, uuid, deviceName⟩ := l
  have hplain := Dialogue.plain_document id ip uuid deviceName frame
  have hlength : (json.write (frame.document id ip uuid deviceName)).length ≠ 0 :=
    fun hnil => (hw _ hplain).1 (List.length_eq_zero_iff.mp hnil)
  have hparse := hj _ hplain
  unfold Letter.text at h
  dsimp only at h
  generalize json.write (frame.document id ip uuid deviceName) = message at h hparse hlength
  have hother (type : Bytes) {members : List (Bytes × Json Bytes)} (hne : cStr type ≠ str "registerok")
      (hdocument : frame.document id ip uuid deviceName = .object members)
      (hid : Json.get members (str "appid") = .text id)
      (htype : Json.get members (str "type") = .text type) :
      m' = m ∨ ∃ type, m' = m.sendHeartbeat json type := by
    rw [onIpcMessage_object id type (hparse.trans (congrArg some hdocument)) hid htype] at h
    split at h
    · exact .inl (Option.some.inj h).symm
    · exact onTyped_other hne h
  cases frame with
  | registerok =>
    rw [onIpcMessage_object id (str "registerok") hparse rfl rfl] at h
    by_cases hsame : m.appId_ = cStr id
    · rw [if_pos ⟨rfl, hsame⟩]
      rw [if_neg (by simp [hlength, hsame]), onTyped, if_pos (by decide)] at h
      have hregisterok : m.onRegisterok json (Frame.document id ip uuid deviceName .registerok) =
          some ({ m with flintServiceUrl_ := cStr (cStr ip) }.sendAdditionalData json) := rfl
      rw [cStr_cStr] at hregisterok
      exact Option.some.inj (h.symm.trans hregisterok)
    · rw [if_neg fun hrenews => hsame hrenews.2]
      rw [if_pos (.inr hsame)] at h
      exact .inl (Option.some.inj h).symm
  | startHeartbeat =>
    rw [if_neg fun hrenews => Frame.noConfusion hrenews.1]
    exact hother (str "startHeartbeat") (by decide) rfl rfl rfl
  | senderconnected token =>
    rw [if_neg fun hrenews => Frame.noConfusion hrenews.1]
    exact hother (str "senderconnected") (by decide) rfl rfl rfl
  | senderdisconnected token =>
    rw [if_neg fun hrenews => Frame.noConfusion hrenews.1]
    exact hother (str "senderdisconnected") (by decide) rfl rfl rfl
  | heartbeat type =>
    rw [if_neg fun hrenews => Frame.noConfusion hrenews.1]
    exact hother (str "heartbeat") (by decide) rfl rfl rfl

end FlintReceiverManager

section
variable {s s' : Daemon} {handler app : Nat} {uuid : Bytes}

/-! ### What the daemon does -/

theorem perform_kept {I : ApplicationManager → Prop} {q : Request} (h : Daemon.Lasting I)
    (hs : I s.manager) (hq : q.data ≠ none → Daemon.Rewritable I) :
    Daemon.Kept I (q.perform s handler app appId uuid) := by
  cases q with
  | register => exact h.register hs handler app appId uuid
  | unregister => exact h.stopAndClose hs handler appId
  | additionaldata members =>
    refine .takes (.read fun a => ?_) s
    exact hq (Option.some_ne_none _) app (Request.dataStr members) hs
  | heartbeat type =>
    rw [Request.perform]
    split
    · exact Daemon.Kept.send hs handler _
    · exact hs

/-- A receiver that registers hears of it, unless its websocket is closed. -/
theorem register_tells {r : ReceiverApplicationHandler} (hr : s.handlers handler = some r)
    (hopen : r.isOpen = true) (h : s.register handler app appId uuid = .ok s') :
    ∃ r', s'.handlers handler = some r' ∧
      (r'.isOpen = true → .registerok ∈ r'.sent.drop r.sent.length) := by
  cases hs : s.receiverSession_ with
  | some session =>
    obtain ⟨t, ht, -, -, -, hhandler⟩ := Daemon.register_taken app appId uuid hr hopen hs
    cases h.symm.trans ht
    exact ⟨_, hhandler, fun hclosed => by cases hclosed⟩
  | none =>
    obtain ⟨t, ht, -, hsession, -, hhandler⟩ := Daemon.setSessionListender_open hr hopen
    unfold Daemon.register Daemon.createReceiver at h
    simp only [ht, ok_bind, hsession, hs] at h
    obtain ⟨m, -, h⟩ := bind_eq_ok.mp h
    have htell := Daemon.sends_open [.registerok, .startHeartbeat]
      (s := { t with receiverSession_ := some ⟨uuid, appId, handler⟩, manager := m }) hhandler hopen
    simp only [List.foldlM_cons, List.foldlM_nil, bind_pure] at htell
    cases h.symm.trans htell
    refine ⟨_, Daemon.setHandler_self _ _ _, fun _ => ?_⟩
    rw [List.append_assoc, List.drop_left]
    simp

end

/-! ### What is on its way, and what comes of it -/

namespace Dialogue
variable {app : Nat} {t t' : Dialogue} {c : MessageChannel} {qs : List Request}
  {letters : List Letter}

/-- The data of the receiver will be stored, or what makes the receiver send them is on its way. -/
structure Settles (json : Rapidjson) (appId : Bytes) (app : Nat) (t : Dialogue)
    (c : MessageChannel) (qs : List Request) (letters : List Letter) : Prop where
  line : t.toDaemon ++ c.posted = qs.map (Request.text json appId)
  mail : t.toReceiver = letters.map (Letter.text json)
  data : .register ∈ qs ∨ (∃ l ∈ letters, l.Renews appId) ∨
    ∃ stored, t.daemon.manager.Stores app stored ∧
      qs.foldl Request.stores stored = Request.dataStr t.sdk.dataTexts
  address : .register ∈ qs ∨
    letters.foldl (Letter.tells appId) t.sdk.flintServiceUrl_ = cStr t.cacheIp_

/-- Once the websocket is open, the data of the receiver will be stored. -/
structure Orderly (json : Rapidjson) (appId : Bytes) (app : Nat) (t : Dialogue) : Prop where
  sound : t.Sound json appId
  made : app < t.daemon.manager.nextApp
  bus : ∀ c ∈ t.sdk.ipcChannel_, t.sdk.messageBusManager_ = true
  waits : ∀ c ∈ t.sdk.ipcChannel_, c.opened_ = true → c.penddingMessages_ = []
  settles : ∀ c ∈ t.sdk.ipcChannel_, c.opened_ = true →
    Ready t.daemon t.handler app appId → ∃ qs letters, t.Settles json appId app c qs letters

theorem Sound.exists_letters (h : t.Sound json appId) :
    ∃ letters : List Letter, t.toReceiver = letters.map (Letter.text json) := by
  have hall : ∀ x ∈ t.toReceiver, ∃ l : Letter, Letter.text json l = x := by
    intro x hx
    obtain ⟨f, id, ip, uuid, deviceName, rfl⟩ := h.toReceiver x hx
    exact ⟨⟨f, id, ip, uuid, deviceName⟩, rfl⟩
  obtain ⟨letters, hletters⟩ := (Set.range_list_map (Letter.text json)).ge hall
  exact ⟨letters, hletters.symm⟩

/-! ### The receiver sends -/

theorem send_posted (hw : json.Writes) (c : MessageChannel) (q : Request) :
    c.send (q.text json appId) = { c with posted := c.posted ++ [q.text json appId] } :=
  if_neg fun hnil => Request.text_ne_nil hw q (List.length_eq_zero_iff.mp hnil)

theorem Settles.line_send (h : t.Settles json appId app c qs letters) (hw : json.Writes)
    (q : Request) : t.toDaemon ++ (c.send (q.text json appId)).posted =
      (qs ++ [q]).map (Request.text json appId) := by
  rw [send_posted hw, List.map_append, ← h.line, List.append_assoc]
  rfl

/-- A request without data changes nothing of the data. -/
theorem Settles.send (h : t.Settles json appId app c qs letters) (hw : json.Writes) {q : Request}
    (hq : q.data = none) : Settles json appId app { t with sdk := t.sdk.ipcSend (q.text json appId) }
      (c.send (q.text json appId)) (qs ++ [q]) letters where
  line := h.line_send hw q
  mail := h.mail
  data := by
    refine h.data.imp (List.mem_append_left [q]) (.imp id fun ⟨stored, hstored, hqs⟩ => ?_)
    refine ⟨stored, hstored, ?_⟩
    rw [List.foldl_append, hqs, List.foldl_cons, List.foldl_nil, Request.stores, hq]
    rfl
  address := h.address.imp_left (List.mem_append_left [q])

/-- The present data comes after all that is on its way. -/
theorem Settles.sendData (h : t.Settles json appId app c qs letters) (hw : json.Writes)
    {m : FlintReceiverManager} {rest : List Letter} {stored : Bytes}
    (hstored : t.daemon.manager.Stores app stored)
    (haddress : rest.foldl (Letter.tells appId) m.flintServiceUrl_ =
      letters.foldl (Letter.tells appId) t.sdk.flintServiceUrl_) :
    Settles json appId app { t with
        sdk := m.ipcSend ((Request.additionaldata m.dataTexts).text json appId)
        toReceiver := rest.map (Letter.text json) }
      (c.send ((Request.additionaldata m.dataTexts).text json appId))
      (qs ++ [.additionaldata m.dataTexts]) rest where
  line := h.line_send hw _
  mail := rfl
  data := by
    refine .inr (.inr ⟨stored, hstored, ?_⟩)
    rw [List.foldl_append]
    rfl
  address := by
    refine h.address.imp (List.mem_append_left _) fun hurl => ?_
    exact haddress.trans hurl

/-! ### The daemon answers -/

def told (appId : Bytes) (t : Dialogue) (d : Daemon) : List Letter :=
  (news (t.daemon.handlers t.handler) (d.handlers t.handler)).map fun f =>
    ⟨f, appId, t.ip, t.uuid, t.deviceName⟩

/-- They come from the handler of the application. -/
theorem mail_become {d : Daemon} (hmail : t.toReceiver = letters.map (Letter.text json))
    (hd : ∃ r ∈ d.handlers t.handler, r.appId = appId) :
    (t.become json d).toReceiver = (letters ++ t.told appId d).map (Letter.text json) := by
  obtain ⟨r, hr, rfl⟩ := hd
  have hid : ((d.handlers t.handler).map (·.appId)).getD [] = r.appId := by
    rw [Option.mem_def.mp hr]
    rfl
  unfold become
  dsimp only
  rw [hid, hmail, List.map_append, told, List.map_map]
  rfl

/-- The address in the last of the frames that tell it. -/
theorem tells_frames (happ : 0 ∉ appId) (frames : List Frame) (ip uuid deviceName url : Bytes) :
    (frames.map fun f => (⟨f, appId, ip, uuid, deviceName⟩ : Letter)).foldl
      (Letter.tells appId) url = if .registerok ∈ frames then cStr ip else url := by
  induction frames generalizing url with
  | nil => rfl
  | cons f frames ih =>
    rw [List.map_cons, List.foldl_cons, ih, Letter.tells]
    unfold Letter.Renews
    simp only [cStr_of_not_mem happ, and_true, List.mem_cons]
    by_cases hf : f = .registerok
    · simp [hf]
    · simp [hf, Ne.symm hf]

theorem address_become (happ : 0 ∉ appId) (d : Daemon)
    (h : .registerok ∈ news (t.daemon.handlers t.handler) (d.handlers t.handler) ∨
      letters.foldl (Letter.tells appId) t.sdk.flintServiceUrl_ = cStr t.cacheIp_) :
    (letters ++ t.told appId d).foldl (Letter.tells appId) t.sdk.flintServiceUrl_ =
      cStr (t.become json d).cacheIp_ := by
  rw [List.foldl_append, told, tells_frames happ]
  unfold become
  dsimp only
  split
  · rfl
  · rename_i hnews
    exact h.resolve_left hnews

theorem Settles.become (h : t.Settles json appId app c qs letters) (happ : 0 ∉ appId) {d : Daemon}
    (hd : ∃ r ∈ d.handlers t.handler, r.appId = appId)
    (hstores : ∀ stored, t.daemon.manager.Stores app stored → d.manager.Stores app stored) :
    (t.become json d).Settles json appId app c qs (letters ++ t.told appId d) where
  line := h.line
  mail := mail_become h.mail hd
  data := by
    refine h.data.imp_right (.imp ?_ fun ⟨stored, hstored, hqs⟩ => ⟨stored, hstores _ hstored, hqs⟩)
    exact fun ⟨l, hl, hrenews⟩ => ⟨l, List.mem_append_left _ hl, hrenews⟩
  address := h.address.imp_right fun hurl => address_become happ d (.inr hurl)

/-- The daemon performs the first request. -/
theorem Settles.deliver {q : Request} (h : t.Settles json appId app c (q :: qs) letters)
    (happ : 0 ∉ appId) {rest : List Bytes} (hrest : rest ++ c.posted = qs.map (Request.text json appId))
    {d : Daemon} {uuid : Bytes} (hready : Ready t.daemon t.handler app appId)
    (hperform : q.perform t.daemon t.handler app appId uuid = .ok d)
    (hd : Ready d t.handler app appId) :
    Settles json appId app ({ t with toDaemon := rest }.become json d) c qs
      (letters ++ t.told appId d) := by
  have hfrom : ∃ r ∈ d.handlers t.handler, r.appId = appId :=
    hd.handler.imp fun _ hr => ⟨hr.1, hr.2.2⟩
  have htells (hq : q = .register) :
      .registerok ∈ news (t.daemon.handlers t.handler) (d.handlers t.handler) := by
    subst hq
    obtain ⟨r, hr, hopen, -⟩ := hready.handler
    obtain ⟨r', hr', hsent⟩ := register_tells hr hopen hperform
    obtain ⟨r'', hr'', hopen', -⟩ := hd.handler
    cases Option.mem_unique hr'' hr'
    rw [news, Option.mem_def.mp hr, hr']
    exact hsent hopen'
  refine ⟨hrest, mail_become (t := { t with toDaemon := rest }) h.mail hfrom, ?_, ?_⟩
  · rcases h.data with hregister | ⟨l, hl, hrenews⟩ | ⟨stored, hstored, hqs⟩
    · rcases List.mem_cons.mp hregister with hq | hregister
      · refine .inr (.inl ⟨⟨.registerok, appId, t.ip, t.uuid, t.deviceName⟩, ?_, rfl, ?_⟩)
        · exact List.mem_append_right _ (List.mem_map_of_mem (htells hq.symm))
        · exact (cStr_of_not_mem happ).symm
      · exact .inl hregister
    · exact .inr (.inl ⟨l, List.mem_append_left _ hl, hrenews⟩)
    · have hkept (hq : q.data = none) : d.manager.Stores app stored :=
        (perform_kept (ApplicationManager.stores_lasting app stored) hstored
          fun hne => absurd hq hne).of_ok hperform
      rw [List.foldl_cons] at hqs
      cases q with
      | additionaldata members =>
        obtain ⟨m, hm, hd⟩ := bind_eq_ok.mp hperform
        cases hd
        exact .inr (.inr ⟨_, ApplicationManager.update_stores hstored.made hm, hqs⟩)
      | register => exact .inr (.inr ⟨stored, hkept rfl, hqs⟩)
      | unregister => exact .inr (.inr ⟨stored, hkept rfl, hqs⟩)
      | heartbeat type => exact .inr (.inr ⟨stored, hkept rfl, hqs⟩)
  · rcases h.address with hregister | hurl
    · rcases List.mem_cons.mp hregister with hq | hregister
      · exact .inr (address_become (t := { t with toDaemon := rest }) happ d (.inl (htells hq.symm)))
      · exact .inl hregister
    · exact .inr (address_become (t := { t with toDaemon := rest }) happ d (.inr hurl))

/-- A letter that does not renew leaves everything as it is. -/
theorem Settles.skip {l : Letter} (h : t.Settles json appId app c qs (l :: letters))
    (hl : ¬ l.Renews appId) :
    Settles json appId app { t with toReceiver := letters.map (Letter.text json) } c qs letters where
  line := h.line
  mail := rfl
  data := by
    refine h.data.imp_right (.imp_left ?_)
    rintro ⟨l', hl', hrenews⟩
    rcases List.mem_cons.mp hl' with rfl | hl'
    · exact absurd hrenews hl
    · exact ⟨l', hl', hrenews⟩
  address := by
    refine h.address.imp_right fun hurl => ?_
    rw [← hurl, List.foldl_cons, Letter.tells, if_neg hl]

/-! ### Events -/

structure Continues (m m' : FlintReceiverManager) : Prop where
  bus : m'.messageBusManager_ = m.messageBusManager_
  channel : ∀ c' ∈ m'.ipcChannel_, ∃ c ∈ m.ipcChannel_,
    c'.opened_ = c.opened_ ∧ c'.penddingMessages_ = c.penddingMessages_

theorem ipcSend_continues (m : FlintReceiverManager) (message : Bytes) :
    Continues m (m.ipcSend message) where
  bus := rfl
  channel c' hc' := by
    obtain ⟨c, hc, rfl⟩ := Option.map_eq_some_iff.mp hc'
    refine ⟨c, hc, ?_, MessageChannel.send_penddingMessages c message⟩
    unfold MessageChannel.send
    split <;> rfl

theorem sendAdditionalData_continues (json : Rapidjson) (m : FlintReceiverManager) :
    Continues m (m.sendAdditionalData json) := by
  unfold FlintReceiverManager.sendAdditionalData
  dsimp only
  split
  · exact ipcSend_continues m _
  · exact ⟨rfl, fun c hc => ⟨c, hc, rfl, rfl⟩⟩

theorem onIpcMessage_continues {m m' : FlintReceiverManager} {message : Bytes}
    (h : m.onIpcMessage json message = some m') : Continues m m' := by
  rcases onIpcMessage_some h with rfl | ⟨ip, rfl⟩ | ⟨type, rfl⟩
  · exact ⟨rfl, fun c hc => ⟨c, hc, rfl, rfl⟩⟩
  · have hsends := sendAdditionalData_continues json { m with flintServiceUrl_ := ip }
    exact ⟨hsends.bus, hsends.channel⟩
  · exact ipcSend_continues m _

/-- With a channel that continues, only what is on its way is left to look at. -/
theorem Orderly.continues (h : t.Orderly json appId app) (hsound : t'.Sound json appId)
    (hmade : t'.daemon.manager.nextApp = t.daemon.manager.nextApp)
    (hsdk : Continues t.sdk t'.sdk)
    (hsettles : ∀ c ∈ t.sdk.ipcChannel_, ∀ c' ∈ t'.sdk.ipcChannel_, c.opened_ = true →
      ∃ qs letters, t'.Settles json appId app c' qs letters) : t'.Orderly json appId app where
  sound := hsound
  made := hmade ▸ h.made
  bus c' hc' := by
    obtain ⟨c, hc, -⟩ := hsdk.channel c' hc'
    exact hsdk.bus.trans (h.bus c hc)
  waits c' hc' hopen := by
    obtain ⟨c, hc, hopened, hwaits⟩ := hsdk.channel c' hc'
    exact hwaits.trans (h.waits c hc (hopened ▸ hopen))
  settles c' hc' hopen _ := by
    obtain ⟨c, hc, hopened, -⟩ := hsdk.channel c' hc'
    exact hsettles c hc c' hc' (hopened ▸ hopen)

/-- The application has data. -/
theorem Orderly.exists_stored (h : t.Orderly json appId app)
    (hready : Ready t.daemon t.handler app appId) : ∃ stored, t.daemon.manager.Stores app stored := by
  obtain ⟨a, ha, -⟩ := hready.application
  exact ⟨a.additionalData, h.made, congrArg (Option.map (·.additionalData)) (Option.mem_def.mp ha)⟩

theorem exists_requests {l : List Bytes} (h : ∀ x ∈ l, Says json appId x) :
    ∃ qs : List Request, l = qs.map (Request.text json appId) := by
  have hall : ∀ x ∈ l, ∃ q : Request, Request.text json appId q = x := fun x hx =>
    (h x hx).imp fun _ hq => hq.symm
  obtain ⟨qs, hqs⟩ := (Set.range_list_map (Request.text json appId)).ge hall
  exact ⟨qs, hqs.symm⟩

/-- An open websocket hands on what was posted first. -/
theorem poll_open (hopen : c.opened_ = true) : c.poll.1.opened_ = true ∧
    c.poll.1.penddingMessages_ = c.penddingMessages_ ∧ c.poll.2 ++ c.poll.1.posted = c.posted := by
  unfold MessageChannel.poll
  split
  · rename_i hposted
    exact ⟨hopen, rfl, rfl⟩
  · rename_i message posted hposted
    unfold MessageChannel.sendImpl
    dsimp only
    rw [if_pos hopen]
    exact ⟨hopen, rfl, hposted.symm⟩

theorem poll_opened (c : MessageChannel) : c.poll.1.opened_ = c.opened_ := by
  unfold MessageChannel.poll
  split
  · rfl
  · unfold MessageChannel.sendImpl
    dsimp only
    split <;> rfl

theorem Orderly.opened (h : t.Orderly json appId app) (hw : json.Writes)
    (hsound : Sound json appId { t with sdk := t.sdk.onIpcOpen json }) :
    Orderly json appId app { t with sdk := t.sdk.onIpcOpen json } := by
  have hchannel : ∀ c' ∈ (t.sdk.onIpcOpen json).ipcChannel_, ∃ c ∈ t.sdk.ipcChannel_,
      c' = c.onOpen.send (Request.register.text json appId) := by
    intro c' hc'
    obtain ⟨opened, hopened, rfl⟩ := Option.map_eq_some_iff.mp hc'
    obtain ⟨c, hc, rfl⟩ := Option.map_eq_some_iff.mp hopened
    refine ⟨c, hc, ?_⟩
    rw [← h.sound.sdk.id]
    rfl
  refine ⟨hsound, h.made, fun c' hc' => ?_, fun c' hc' _ => ?_, fun c' hc' _ _ => ?_⟩
  · obtain ⟨c, hc, -⟩ := hchannel c' hc'
    exact h.bus c hc
  · obtain ⟨c, -, rfl⟩ := hchannel c' hc'
    exact MessageChannel.send_penddingMessages _ _
  · have hsays := hsound.sdk.posted c' hc'
    obtain ⟨c, hc, rfl⟩ := hchannel c' hc'
    rw [send_posted hw] at hsays ⊢
    have hbefore : ∀ x ∈ t.toDaemon ++ c.onOpen.posted, Says json appId x := by
      intro x hx
      refine (List.mem_append.mp hx).elim (hsound.toDaemon x) fun hx => hsays x ?_
      exact List.mem_append_left _ (List.mem_append_left _ hx)
    obtain ⟨qs, hqs⟩ := exists_requests hbefore
    obtain ⟨letters, hmail⟩ := h.sound.exists_letters
    refine ⟨qs ++ [.register], letters, ?_, hmail, .inl ?_, .inl ?_⟩
    · rw [List.map_append, ← hqs, List.append_assoc]
      rfl
    · exact List.mem_append_right _ (List.mem_singleton_self _)
    · exact List.mem_append_right _ (List.mem_singleton_self _)

theorem Orderly.send (h : t.Orderly json appId app) (hw : json.Writes) {q : Request}
    (hq : q.data = none) (hready : Ready t.daemon t.handler app appId)
    (hsound : Sound json appId { t with sdk := t.sdk.ipcSend (q.text json appId) }) :
    Orderly json appId app { t with sdk := t.sdk.ipcSend (q.text json appId) } := by
  refine h.continues hsound rfl (ipcSend_continues _ _) fun c hc c' hc' hopen => ?_
  obtain ⟨c₁, hc₁, rfl⟩ := Option.map_eq_some_iff.mp hc'
  obtain ⟨qs, letters, hsettles⟩ := h.settles c₁ hc₁ (Option.mem_unique hc hc₁ ▸ hopen) hready
  exact ⟨_, _, hsettles.send hw hq⟩

theorem Orderly.setAdditionalData (h : t.Orderly json appId app) (hw : json.Writes) {data : Bytes}
    (hready : Ready t.daemon t.handler app appId)
    (hsound : Sound json appId { t with sdk := t.sdk.setAdditionalData json data }) :
    Orderly json appId app { t with sdk := t.sdk.setAdditionalData json data } := by
  have hsends := sendAdditionalData_continues json { t.sdk with customAdditionalData_ := data }
  refine h.continues hsound rfl ⟨hsends.bus, hsends.channel⟩ fun c hc c' hc' hopen => ?_
  have hdata : t.sdk.setAdditionalData json data = _ := sendAdditionalData_eq
    (m := { t.sdk with customAdditionalData_ := data }) hw h.sound.sdk.id (h.bus c hc)
  rw [hdata] at hc' ⊢
  obtain ⟨c₁, hc₁, rfl⟩ := Option.map_eq_some_iff.mp hc'
  obtain ⟨qs, letters, hsettles⟩ := h.settles c₁ hc₁ (Option.mem_unique hc hc₁ ▸ hopen) hready
  obtain ⟨stored, hstored⟩ := h.exists_stored hready
  have hsent := hsettles.sendData hw (m := { t.sdk with customAdditionalData_ := data }) hstored rfl
  rw [← hsettles.mail] at hsent
  exact ⟨_, _, hsent⟩

theorem Orderly.poll (h : t.Orderly json appId app)
    (hready : Ready t.daemon t.handler app appId)
    (hsound : Sound json appId { t with sdk := t.sdk.poll.1, toDaemon := t.toDaemon ++ t.sdk.poll.2 }) :
    Orderly json appId app { t with sdk := t.sdk.poll.1, toDaemon := t.toDaemon ++ t.sdk.poll.2 } := by
  cases hchannel : t.sdk.ipcChannel_ with
  | none =>
    have hnone : t.sdk.poll = (t.sdk, []) := by rw [FlintReceiverManager.poll, hchannel]
    rw [hnone, List.append_nil]
    exact h
  | some c =>
    have hpoll : t.sdk.poll = ({ t.sdk with ipcChannel_ := some c.poll.1 }, c.poll.2) := by
      rw [FlintReceiverManager.poll, hchannel]
    rw [hpoll] at hsound ⊢
    refine ⟨hsound, h.made, fun _ _ => h.bus c hchannel, fun c' hc' hopen => ?_,
      fun c' hc' hopen hready' => ?_⟩
    · obtain rfl : c.poll.1 = c' := Option.some.inj hc'
      rw [poll_opened] at hopen
      exact (poll_open hopen).2.1.trans (h.waits c hchannel hopen)
    · obtain rfl : c.poll.1 = c' := Option.some.inj hc'
      rw [poll_opened] at hopen
      obtain ⟨qs, letters, hsettles⟩ := h.settles c hchannel hopen hready
      refine ⟨qs, letters, ?_, hsettles.mail, hsettles.data, hsettles.address⟩
      rw [← hsettles.line, List.append_assoc, (poll_open hopen).2.2]

theorem Orderly.receive (h : t.Orderly json appId app) (hj : json.Undoes) (hw : json.Writes)
    {message : Bytes} {rest : List Bytes} (hmail : t.toReceiver = message :: rest)
    {sdk : FlintReceiverManager} (hsdk : t.sdk.onIpcMessage json message = some sdk)
    (hready : Ready t.daemon t.handler app appId)
    (hsound : Sound json appId { t with sdk, toReceiver := rest }) :
    Orderly json appId app { t with sdk, toReceiver := rest } := by
  refine h.continues hsound rfl (onIpcMessage_continues hsdk) fun c hc c' hc' hopen => ?_
  obtain ⟨qs, letters, hsettles⟩ := h.settles c hc hopen hready
  obtain ⟨l, letters, rfl, hl, hrest⟩ := List.map_eq_cons_iff.mp (hsettles.mail.symm.trans hmail)
  subst hrest
  have hletter := onIpcMessage_letter hj hw h.sound.sdk.id (hl ▸ hsdk)
  split at hletter
  · rename_i hrenews
    rw [sendAdditionalData_eq (m := { t.sdk with flintServiceUrl_ := cStr l.ip }) hw
      h.sound.sdk.id (h.bus c hc)] at hletter
    subst hletter
    obtain ⟨c₁, hc₁, rfl⟩ := Option.map_eq_some_iff.mp hc'
    obtain rfl := Option.mem_unique hc hc₁
    obtain ⟨stored, hstored⟩ := h.exists_stored hready
    refine ⟨_, _, hsettles.sendData hw hstored ?_⟩
    rw [List.foldl_cons, Letter.tells, if_pos hrenews]
  · rename_i hrenews
    have hskip := hsettles.skip hrenews
    rcases hletter with rfl | ⟨type, rfl⟩
    · exact ⟨_, _, Option.mem_unique hc hc' ▸ hskip⟩
    · have hbeat : t.sdk.sendHeartbeat json type =
          t.sdk.ipcSend ((Request.heartbeat type).text json appId) := by
        rw [← h.sound.sdk.id]
        rfl
      rw [hbeat] at hc' ⊢
      obtain ⟨c₁, hc₁, rfl⟩ := Option.map_eq_some_iff.mp hc'
      obtain rfl := Option.mem_unique hc hc₁
      exact ⟨_, _, hskip.send hw rfl⟩

/-- The daemon has done something that is not the work of this receiver. -/
theorem Orderly.become (h : t.Orderly json appId app) (happ : 0 ∉ appId)
    (hready : Ready t.daemon t.handler app appId) {d : Daemon}
    (hd : ∀ stored, t.daemon.manager.Stores app stored → d.manager.Stores app stored) :
    (t.become json d).Orderly json appId app where
  sound := h.sound.become d
  made := (hd _ (h.exists_stored hready).choose_spec).made
  bus := h.bus
  waits := h.waits
  settles c hc hopen hready' := by
    obtain ⟨qs, letters, hsettles⟩ := h.settles c hc hopen hready
    exact ⟨_, _, hsettles.become happ (hready'.handler.imp fun _ hr => ⟨hr.1, hr.2.2⟩) hd⟩

theorem Orderly.tell (h : t.Orderly json appId app) (happ : 0 ∉ appId)
    (hready : Ready t.daemon t.handler app appId) {frame : Frame}
    (htell : t.tell json frame = .ok t') : t'.Orderly json appId app := by
  unfold Dialogue.tell at htell
  split at htell
  · cases htell
    exact h
  · obtain ⟨d, hsend, htell⟩ := bind_eq_ok.mp htell
    cases htell
    exact h.become happ hready fun stored hstored => (Daemon.Kept.send hstored _ frame).of_ok hsend

theorem Orderly.deliver (h : t.Orderly json appId app) (hj : json.Undoes) (happ : 0 ∉ appId)
    {message : Bytes} {rest : List Bytes} (hline : t.toDaemon = message :: rest)
    (hready : Ready t.daemon t.handler app appId) {uuid : Bytes} {d : Daemon}
    (hd : t.daemon.onText json t.handler uuid message = .ok d)
    (hsound : Sound json appId ({ t with toDaemon := rest }.become json d)) :
    Orderly json appId app ({ t with toDaemon := rest }.become json d) := by
  have hperform {q : Request} (hq : message = q.text json appId) :
      q.perform t.daemon t.handler app appId uuid = .ok d := by
    have htext := onText_ready hj happ hready q uuid
    rw [← Request.text, ← hq, hd] at htext
    split at htext
    · cases htext
    · exact htext.symm
  obtain ⟨q, hq⟩ := h.sound.toDaemon message (hline ▸ List.mem_cons_self)
  have hmade : app < d.manager.nextApp :=
    (perform_kept ApplicationManager.made_lasting h.made
      fun _ => ApplicationManager.made_rewritable).of_ok (hperform hq)
  refine ⟨hsound, hmade, h.bus, h.waits, fun c hc hopen hready' => ?_⟩
  obtain ⟨qs, letters, hsettles⟩ := h.settles c hc hopen hready
  have hsplit := hsettles.line
  rw [hline, List.cons_append] at hsplit
  obtain ⟨q, qs, rfl, hq, hrest⟩ := List.map_eq_cons_iff.mp hsplit.symm
  exact ⟨_, _, hsettles.deliver happ hrest.symm hready (hperform hq.symm) hready'⟩

/-- The event is no message that brings data some other way. -/
def Event.Quiet : Event → Prop
  | .daemon e => ¬ e.Says
  | _ => True

instance : DecidablePred Event.Quiet
  | .daemon e => inferInstanceAs (Decidable (¬ e.Says))
  | .opened | .setAdditionalData _ | .unRegisterSelf | .clear | .poll | .receive | .deliver _
  | .ping | .checkIp | .address _ => isTrue trivial

theorem Orderly.step (h : t.Orderly json appId app) (hj : json.Undoes) (hw : json.Writes)
    (happ : 0 ∉ appId) {e : Event} (hready : Ready t.daemon t.handler app appId) (he : e.Quiet)
    (hstep : t.step json e = .ok t') : t'.Orderly json appId app := by
  have hsound := h.sound.step hstep
  cases e with
  | opened =>
    cases hstep
    exact h.opened hw hsound
  | setAdditionalData data =>
    cases hstep
    exact h.setAdditionalData hw hready hsound
  | unRegisterSelf =>
    have hsend : t.sdk.unRegisterSelf json = t.sdk.ipcSend (Request.unregister.text json appId) := by
      rw [← h.sound.sdk.id]
      rfl
    cases hstep
    rw [hsend] at hsound ⊢
    exact h.send hw rfl hready hsound
  | clear =>
    cases hstep
    have hnone : ∀ c, c ∉ t.sdk.clear.ipcChannel_ := fun c hc => by cases hc
    exact ⟨hsound, h.made, fun c hc => absurd hc (hnone c), fun c hc => absurd hc (hnone c),
      fun c hc => absurd hc (hnone c)⟩
  | poll =>
    cases hstep
    exact h.poll hready hsound
  | receive =>
    simp only [Dialogue.step] at hstep
    split at hstep
    · cases hstep
      exact h
    · rename_i message rest hmail
      split at hstep
      · cases hstep
      · rename_i sdk hsdk
        cases hstep
        exact h.receive hj hw hmail hsdk hready hsound
  | deliver uuid =>
    simp only [Dialogue.step] at hstep
    split at hstep
    · cases hstep
      exact h
    · rename_i message rest hline
      obtain ⟨d, hd, hstep⟩ := bind_eq_ok.mp hstep
      cases hstep
      exact h.deliver hj happ hline hready hd hsound
  | ping => exact h.tell happ hready hstep
  | checkIp =>
    simp only [Dialogue.step] at hstep
    split at hstep
    · cases hstep
      exact h
    · exact h.tell happ hready hstep
  | address ip =>
    cases hstep
    refine ⟨hsound, h.made, h.bus, h.waits, fun c hc hopen hready' => ?_⟩
    obtain ⟨qs, letters, hsettles⟩ := h.settles c hc hopen hready'
    exact ⟨qs, letters, hsettles.line, hsettles.mail, hsettles.data, hsettles.address⟩
  | daemon e =>
    obtain ⟨d, hd, hstep⟩ := bind_eq_ok.mp hstep
    cases hstep
    refine h.become happ hready fun stored hstored => ?_
    exact ((ApplicationManager.stores_lasting app stored).step hstored
      fun hsays => absurd hsays he).of_ok hd

/-- A daemon that has come into being by events. -/
theorem orderly_start {des : List Daemon.Event} {daemon : Daemon} {handler : Nat}
    {ip uuid deviceName : Bytes} (hdaemon : Daemon.start.run des = .ok daemon)
    (hready : Ready daemon handler app appId) :
    (start daemon handler ip uuid deviceName appId).Orderly json appId app where
  sound := sound_start daemon handler ip uuid deviceName appId
  made := by
    have hknown : daemon.manager.Known := (ApplicationManager.known_lasting.run (fun _ _ => rfl)
      fun _ _ _ => ApplicationManager.known_rewritable).of_ok hdaemon
    obtain ⟨a, ha, -⟩ := hready.application
    by_contra hle
    rw [hknown app (Nat.not_lt.mp hle)] at ha
    cases ha
  bus _ _ := rfl
  waits c hc hopen := by
    cases hc
    cases hopen
  settles c hc hopen _ := by
    cases hc
    cases hopen

/-- Every step is taken while the daemon is ready for the receiver, and nobody else brings data. -/
def Attended (json : Rapidjson) (appId : Bytes) (app : Nat) (t : Dialogue) (es : List Event) : Prop :=
  Meets (Dialogue.step json) (fun t e => Ready t.daemon t.handler app appId ∧ e.Quiet) t es

instance (json : Rapidjson) (appId : Bytes) (app : Nat) (t : Dialogue) (es : List Event) :
    Decidable (t.Attended json appId app es) := Meets.decidable t es

theorem Attended.ready {es : List Event} (hes : t.Attended json appId app es)
    (hrun : t.run json es = .ok t') (hready : Ready t'.daemon t'.handler app appId) :
    Ready t.daemon t.handler app appId := by
  cases es with
  | nil =>
    cases hrun
    exact hready
  | cons e es => exact hes.1.1

theorem Orderly.run (h : t.Orderly json appId app) (hj : json.Undoes) (hw : json.Writes)
    (happ : 0 ∉ appId) {es : List Event} (hes : t.Attended json appId app es)
    (hrun : t.run json es = .ok t') : t'.Orderly json appId app := by
  refine (Meets.ends (I := Orderly json appId app) (F := fun _ => True)
    (fun s e hs he => ?_) hes h).of_ok hrun
  cases hstep : s.step json e with
  | error f => trivial
  | ok s' => exact hs.step hj hw happ he.1 he.2 hstep

/-! ### What a GET shows -/

def Event.sets (data : Bytes) : Event → Bytes
  | .setAdditionalData data => data
  | _ => data

theorem customAdditionalData_send (json : Rapidjson) (m : FlintReceiverManager) :
    (m.sendAdditionalData json).customAdditionalData_ = m.customAdditionalData_ := by
  unfold FlintReceiverManager.sendAdditionalData
  dsimp only
  split <;> rfl

theorem customAdditionalData_step {e : Event} (hstep : t.step json e = .ok t') :
    t'.sdk.customAdditionalData_ = e.sets t.sdk.customAdditionalData_ := by
  have htell {frame : Frame} (htell : t.tell json frame = .ok t') : t'.sdk = t.sdk := by
    unfold Dialogue.tell at htell
    split at htell
    · cases htell
      rfl
    · obtain ⟨d, -, htell⟩ := bind_eq_ok.mp htell
      cases htell
      rfl
  cases e with
  | opened | unRegisterSelf | clear | address =>
    cases hstep
    rfl
  | setAdditionalData data =>
    cases hstep
    exact customAdditionalData_send json _
  | poll =>
    cases hstep
    change t.sdk.poll.1.customAdditionalData_ = _
    unfold FlintReceiverManager.poll
    split <;> rfl
  | receive =>
    simp only [Dialogue.step] at hstep
    split at hstep
    · cases hstep
      rfl
    · split at hstep
      · cases hstep
      · rename_i hsdk
        cases hstep
        rcases onIpcMessage_some hsdk with rfl | ⟨ip, rfl⟩ | ⟨type, rfl⟩
        · rfl
        · exact customAdditionalData_send json _
        · rfl
  | deliver uuid =>
    simp only [Dialogue.step] at hstep
    split at hstep
    · cases hstep
      rfl
    · obtain ⟨d, -, hstep⟩ := bind_eq_ok.mp hstep
      cases hstep
      rfl
  | ping =>
    rw [htell hstep]
    rfl
  | checkIp =>
    simp only [Dialogue.step] at hstep
    split at hstep
    · cases hstep
      rfl
    · rw [htell hstep]
      rfl
  | daemon e =>
    obtain ⟨d, -, hstep⟩ := bind_eq_ok.mp hstep
    cases hstep
    rfl

theorem customAdditionalData_run {es : List Event} (hrun : t.run json es = .ok t') :
    t'.sdk.customAdditionalData_ = es.foldl Event.sets t.sdk.customAdditionalData_ := by
  induction es generalizing t with
  | nil =>
    cases hrun
    rfl
  | cons e es ih =>
    obtain ⟨u, hstep, hrun⟩ := bind_eq_ok.mp (List.foldlM_cons.symm.trans hrun)
    rw [ih hrun, customAdditionalData_step hstep, List.foldl_cons]

/-- The additional data of a receiver whose device has the address. -/
def dataAt (ip data : Bytes) : List (Bytes × Bytes) :=
  (str "channelBaseUrl", str "ws://" ++ cStr ip ++ str ":9439/channels/channelBaseUrl") ::
    if data ≠ [] then [(str "customData", data)] else []

theorem dataTexts_at {m : FlintReceiverManager} {ip : Bytes} (hbus : m.messageBusManager_ = true)
    (haddress : m.flintServiceUrl_ = cStr ip) : m.dataTexts = dataAt ip m.customAdditionalData_ := by
  rw [FlintReceiverManager.dataTexts, hbus, haddress, if_pos rfl, List.append_assoc]
  rfl

/-- A receiver with a bus manager that was told the address joins the data that belong to it. -/
theorem joinAdditionalData_at {m : FlintReceiverManager} {ip : Bytes}
    (hbus : m.messageBusManager_ = true) (haddress : m.flintServiceUrl_ = cStr ip) :
    m.joinAdditionalData json =
      (Request.additionaldata (dataAt ip m.customAdditionalData_)).text json m.appId_ := by
  rw [FlintReceiverManager.joinAdditionalData_eq hbus, dataTexts_at hbus haddress]

theorem additionalDataStr_strings (members : List (Bytes × Bytes)) :
    additionalDataStr (members.map fun m => (m.1, .string m.2)) = some (Request.dataStr members) := by
  induction members with
  | nil => rfl
  | cons m members ih =>
    rw [List.map_cons, additionalDataStr, ih]
    rfl

/-- Once nothing is on its way, the alive application has the data that its receiver set last, with
the address the daemon has told last, in whatever order the parties took their steps. No ping was
answered, since that comes to no end. A GET is answered with a document that shows the data just
where they are plain. -/
theorem data_settles (hj : json.Undoes) (hw : json.Writes) (happ : 0 ∉ appId)
    {des : List Daemon.Event} {daemon : Daemon} (hdaemon : Daemon.start.run des = .ok daemon)
    {handler : Nat} {ip uuid deviceName : Bytes} {es : List Event}
    (hes : (start daemon handler ip uuid deviceName appId).Attended json appId app es)
    (hrun : (start daemon handler ip uuid deviceName appId).run json es = .ok t)
    (hready : Ready t.daemon t.handler app appId) (hc : t.sdk.ipcChannel_ = some c)
    (hopen : c.opened_ = true) (hposted : c.posted = []) (htoDaemon : t.toDaemon = [])
    (htoReceiver : t.toReceiver = []) {members : List (Bytes × Bytes)}
    (hmembers : members = dataAt t.cacheIp_ (es.foldl Event.sets [])) :
    t.daemon.Holds app appId (Request.dataStr members) ∧
      ∀ authToken, authToken = [] ∨ t.daemon.checkSender authToken = true → ∃ appState,
        t.daemon.onGet appId authToken =
          .ok (t.daemon, .document appId appState (some (Request.dataStr members))) ∧
        (Shows (statusDocument appId appState (some (Request.dataStr members))) appId members ↔
          Verbatim appId ∧ ∀ m ∈ members, Verbatim m.2) := by
  have horderly := (orderly_start hdaemon (hes.ready hrun hready)).run hj hw happ hes hrun
  have htexts : t.sdk.dataTexts = members ∧
      ∃ stored, t.daemon.manager.Stores app stored ∧ stored = Request.dataStr t.sdk.dataTexts := by
    obtain ⟨qs, letters, hsettles⟩ := horderly.settles c hc hopen hready
    obtain rfl : qs = [] := List.map_eq_nil_iff.mp
      (hsettles.line.symm.trans (by rw [htoDaemon, hposted, List.append_nil]))
    obtain rfl : letters = [] := List.map_eq_nil_iff.mp (hsettles.mail.symm.trans htoReceiver)
    have haddress : t.sdk.flintServiceUrl_ = cStr t.cacheIp_ :=
      hsettles.address.resolve_left List.not_mem_nil
    refine ⟨?_, ?_⟩
    · rw [hmembers, dataTexts_at (horderly.bus c hc) haddress, customAdditionalData_run hrun]
      rfl
    · rcases hsettles.data with hregister | ⟨l, hl, -⟩ | hstored
      · exact absurd hregister List.not_mem_nil
      · exact absurd hl List.not_mem_nil
      · exact hstored
  obtain ⟨htexts, stored, hstored, hdata⟩ := htexts
  rw [htexts] at hdata
  have hholds : t.daemon.Holds app appId (Request.dataStr members) := by
    obtain ⟨a, ha, hdeleted, hid, -⟩ := hready.application
    refine ⟨hready.alive, a, ha, hdeleted, hid, ?_⟩
    have hmap := hstored.data
    rw [Option.mem_def.mp ha] at hmap
    exact (Option.some.inj hmap).trans hdata
  refine ⟨hholds, fun authToken hauth => ?_⟩
  obtain ⟨appState, hget, -⟩ := Daemon.holds_get hholds hauth
  refine ⟨appState, hget, shows_iff appState ?_ (additionalDataStr_strings members)⟩
  have hnames : ∀ m ∈ members, m.1 = str "channelBaseUrl" ∨ m.1 = str "customData" := by
    rw [hmembers, dataAt]
    split <;> simp
  intro m hm
  rcases hnames m hm with hname | hname
  · rw [hname]
    exact ⟨"channelBaseUrl".toList, utf8_str (by decide), by decide⟩
  · rw [hname]
    exact ⟨"customData".toList, utf8_str (by decide), by decide⟩

/-- Of the data set before the websocket is open, the older comes after the newer. -/
def overtaken : List Event :=
  [.setAdditionalData (str "old"), .poll, .setAdditionalData (str "new"), .opened, .poll, .poll, .poll,
    .deliver [], .deliver [], .deliver (str "session"), .receive, .receive, .receive, .poll, .deliver []]

theorem data_settles_overtaken : ∃ t members, talk overtaken = .ok t ∧
    members = [(str "channelBaseUrl", str "ws://10.0.0.2:9439/channels/channelBaseUrl"),
      (str "customData", str "new")] ∧
    t.daemon.Holds 0 (str "app") (Request.dataStr members) ∧
    ∀ authToken, authToken = [] ∨ t.daemon.checkSender authToken = true → ∃ appState,
      t.daemon.onGet (str "app") authToken =
        .ok (t.daemon, .document (str "app") appState (some (Request.dataStr members))) ∧
      (Shows (statusDocument (str "app") appState (some (Request.dataStr members))) (str "app")
        members ↔ Verbatim (str "app") ∧ ∀ m ∈ members, Verbatim m.2) := by
  obtain ⟨daemon, hdaemon, hes⟩ := yields_iff.mp (show yields launched (fun d =>
    (start d 0 (str "10.0.0.2") (str "device") (str "tv") (str "app")).Attended .compact
      (str "app") 0 overtaken) = true by decide +kernel)
  obtain ⟨t, ht, htest⟩ := yields_iff.mp (show yields (talk overtaken) (fun t =>
    (t.sdk.ipcChannel_.any fun c => c.opened_ ∧ c.posted = []) ∧ t.toDaemon = [] ∧
      t.toReceiver = [] ∧ Ready t.daemon t.handler 0 (str "app") ∧
        [(str "channelBaseUrl", str "ws://10.0.0.2:9439/channels/channelBaseUrl"),
          (str "customData", str "new")] = dataAt t.cacheIp_ (overtaken.foldl Event.sets [])) = true by
    decide +kernel)
  obtain ⟨hchannel, htoDaemon, htoReceiver, hready, hmembers⟩ := of_decide_eq_true htest
  obtain ⟨c, hc, hopen⟩ := (Option.any_eq_true _ _).mp hchannel
  obtain ⟨hopen, hposted⟩ := of_decide_eq_true hopen
  rw [talk, hdaemon, ok_bind] at ht
  refine ⟨t, _, by rw [talk, hdaemon, ok_bind, ht], rfl, ?_⟩
  have hlaunch : Daemon.start.run _ = .ok daemon := hdaemon
  exact data_settles Rapidjson.undoes_compact Rapidjson.writes_compact (by decide) hlaunch
    (of_decide_eq_true hes) ht hready hc hopen hposted htoDaemon htoReceiver hmembers

end Dialogue
end Flingd.Sdk
