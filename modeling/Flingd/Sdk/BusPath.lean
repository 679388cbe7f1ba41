import Flingd.Sdk.MessageBusManager
import Flingd.Ws.Routes

/-! The way between a sender and a bus of the receiver: the server of the channels on one side, the
buses on the other, and the texts that each makes for the other. -/
namespace Flingd.Sdk
open Ws Outcome

/-! ### Posted messages -/

/-- What goes to the websocket when the next `n` calls are made that are posted. -/
def MessageChannel.polls : Nat → MessageChannel → List Bytes
  | 0, _ => []
  | n+1, c => c.poll.2 ++ polls n c.poll.1

/-- What goes to the websocket when the calls are made that are posted. -/
def MessageBusManager.transmits (m : MessageBusManager) : List Bytes :=
  match m.messageChannel_ with
  | none => []
  | some c => c.polls c.posted.length

theorem MessageChannel.polls_open {c : MessageChannel} (h : c.opened_ = true) :
    c.polls c.posted.length = c.posted := by
  generalize hp : c.posted = posted
  induction posted generalizing c with
  | nil => rfl
  | cons message posted ih =>
    have hpoll : c.poll = ({ c with posted }, [message]) := by
      simp only [poll, hp, sendImpl, h, if_true]
    rw [List.length_cons, polls, hpoll]
    exact congrArg (message :: ·) (ih (c := { c with posted }) h rfl)

/-! ### What is handed over -/

def news (json : Rapidjson) (s s' : WebsocketServer) (n : Nat) : List Bytes :=
  ((((s'.sessions n).map (·.sent)).getD []).drop
    (((s.sessions n).map (·.sent)).getD []).length).map (Frame.text json)

theorem news_hand (json : Rapidjson) {s : WebsocketServer} {n : Nat} {frames : Nat → List Frame}
    (h : s.sessions n = none → frames n = []) :
    news json s (s.hand frames) n = (frames n).map (Frame.text json) := by
  unfold news
  rw [WebsocketServer.sessions_hand]
  cases hw : s.sessions n with
  | none => rw [h hw]; rfl
  | some w => simp

def hears (json : Rapidjson) (m : MessageBusManager) (texts : List Bytes) : Option (List Told) :=
  (texts.mapM (m.onChannelMessage json)).map List.flatten

def Carries (json : Rapidjson) (text ns message : Bytes) : Prop :=
  ∃ members, json.parse text = some (.object members) ∧
    Json.get members (str "namespace") = .string ns ∧
    Json.get members (str "payload") = .string message

/-- Messages come from the senders to a bus, and from a bus to the senders. -/
structure Survives (json : Rapidjson) (s : WebsocketServer) (r : Nat) (senders : StdMap Bytes Nat)
    (m : MessageBusManager) (ns : Bytes) (bus : ReceiverMessageBus) : Prop where
  up : ∀ senderId n text message, (senderId, n) ∈ senders.entries → 0 ∉ message →
    Carries json (cStr text) ns message →
      ∃ s', s.step json (.message n text) = .ok s' ∧
        hears json m (news json s s' r) = some (bus.tell (.onMessage ns message senderId)) ∧
        ∀ n, n ≠ r → news json s s' n = []
  down : ∀ senderId message, senderId ∈ senders.keys → 0 ∉ message →
    ∃ request s' text, (m.sendTo json bus message senderId).transmits = m.transmits ++ [request] ∧
      s.step json (.message r request) = .ok s' ∧ Carries json text ns message ∧
      ∀ n, news json s s' n = if (senderId, n) ∈ senders.entries then [text] else []
  all : ∀ message, 0 ∉ message →
    ∃ request s' text, (m.send json bus message).transmits = m.transmits ++ [request] ∧
      s.step json (.message r request) = .ok s' ∧ Carries json text ns message ∧
      ∀ n, news json s s' n = if n ∈ WebsocketServer.sessionsOf senders then [text] else []

section
open WebsocketServer
variable {json : Rapidjson} {s : WebsocketServer} {r : Nat} {channelId ns : Bytes}
  {senders : StdMap Bytes Nat} {m : MessageBusManager} {c : MessageChannel}
  {bus : ReceiverMessageBus}

/-! ### To a bus -/

theorem up_survives (hj : json.Undoes) (h : Linked s)
    (hr : s.handler r = some (.receiver channelId senders))
    (hbus : (ns, bus) ∈ m.messageBusMap_.entries) (hns : 0 ∉ ns) {senderId text message : Bytes}
    {n : Nat} (hn : (senderId, n) ∈ senders.entries) (hmessage : 0 ∉ message)
    (htext : Carries json (cStr text) ns message) :
    ∃ s', s.step json (.message n text) = .ok s' ∧
      hears json m (news json s s' r) = some (bus.tell (.onMessage ns message senderId)) ∧
      ∀ n, n ≠ r → news json s s' n = [] := by
  have hsender := h.senders r channelId senders senderId n hr hn
  obtain ⟨w, hw, -⟩ := handler_iff.mp hr
  refine ⟨s.hand fun j => if j = r then [.message senderId text] else [], ?_, ?_, fun k hk => ?_⟩
  · rw [step, onMessage, hsender]
    exact onSenderMessage_eq h hsender
  · obtain ⟨members, hparse, hname, hpayload⟩ := htext
    have hid : cStr senderId = senderId := cStr_of_not_mem (h.zero_notMem hsender)
    have hframe : json.parse (Frame.text json (.message senderId text)) =
        some (.object [(str "type", .text (str "message")), (str "senderId", .text senderId),
          (str "data", .text text)]) := by
      refine hj _ (Json.plain_cons (by decide) (Json.plain_text _) (Json.plain_cons (by decide)
        (Json.plain_text _) (Json.plain_cons (by decide) (Json.plain_text _) Json.plain_nil)))
    have hnews : news json s (s.hand fun j => if j = r then [.message senderId text] else []) r =
        [Frame.text json (.message senderId text)] := by
      rw [news_hand json (fun hnone => by rw [hw] at hnone; cases hnone), if_pos rfl]
      rfl
    have hheard : m.onChannelMessage json (Frame.text json (.message senderId text)) =
        some (bus.tell (.onMessage ns message senderId)) := by
      rw [MessageBusManager.onChannelMessage_message hframe,
        MessageBusManager.onData_eq hbus hns hmessage hparse hname hpayload, hid,
        ReceiverMessageBus.onMessage, m.named _ hbus]
    rw [hears, hnews, List.mapM_cons, hheard]
    simp
  · rw [news_hand json fun _ => if_neg hk, if_neg hk]
    rfl

/-! ### To the senders -/

theorem plain_document (bus : ReceiverMessageBus) (message : Bytes) :
    Json.Plain (bus.document message) :=
  Json.plain_cons (by decide) (Json.plain_text _)
    (Json.plain_cons (by decide) (Json.plain_text _) Json.plain_nil)

theorem plain_addressed (message senderId : Bytes) :
    Json.Plain (MessageChannel.addressed message senderId) :=
  Json.plain_cons (by decide) (Json.plain_text _)
    (Json.plain_cons (by decide) (Json.plain_text _) Json.plain_nil)

def request (json : Rapidjson) (bus : ReceiverMessageBus) (message senderId : Bytes) : Bytes :=
  json.write (MessageChannel.addressed (json.write (bus.document message)) senderId)

theorem transmits_sendTo (hwrites : json.Writes) (hc : m.messageChannel_ = some c)
    (hopen : c.opened_ = true) (message senderId : Bytes) :
    (m.sendTo json bus message senderId).transmits =
      m.transmits ++ [request json bus message senderId] := by
  have hinner := (hwrites _ (plain_document bus message)).1
  have houter := (hwrites _
    (plain_addressed (json.write (bus.document message)) senderId)).1
  have hsent : c.sendTo json (json.write (bus.document message)) senderId =
      { c with posted := c.posted ++ [request json bus message senderId] } := by
    rw [MessageChannel.sendTo, if_neg (mt List.length_eq_zero_iff.mp hinner), MessageChannel.send,
      if_neg (mt List.length_eq_zero_iff.mp houter)]
    rfl
  simp only [MessageBusManager.transmits, MessageBusManager.sendTo, hc, Option.map_some, hsent]
  rw [MessageChannel.polls_open hopen]
  exact MessageChannel.polls_open (c := { c with
    posted := c.posted ++ [request json bus message senderId] }) hopen

theorem carries_document (hj : json.Undoes) (hbus : (ns, bus) ∈ m.messageBusMap_.entries)
    (hns : 0 ∉ ns) {message : Bytes} (hmessage : 0 ∉ message) :
    Carries json (json.write (bus.document message)) ns message := by
  have hname : bus.namespace_ = ns := m.named _ hbus
  refine ⟨_, hj _ (plain_document bus message), ?_, ?_⟩
  · exact congrArg Json.string (hname.symm ▸ cStr_of_not_mem hns)
  · exact congrArg Json.string (cStr_of_not_mem hmessage)

/-- A request reaches the senders that it names, each once. -/
theorem onRequest (hj : json.Undoes) (hwrites : json.Writes) (h : Linked s)
    (hr : s.handler r = some (.receiver channelId senders)) (message senderId : Bytes) :
    s.step json (.message r (request json bus message senderId)) =
      .ok (s.hand (deliveries senders (cStr senderId) (json.write (bus.document message)))) := by
  have hparse := hj _ (plain_addressed (json.write (bus.document message)) senderId)
  have hdata : cStr (json.write (bus.document message)) = json.write (bus.document message) :=
    cStr_of_not_mem (hwrites _ (plain_document bus message)).2
  rw [step, onMessage, hr]
  refine onReceiverMessage_eq h hr hparse (Json.getString_text senderId) ?_
  exact (Json.getString_text _).trans (congrArg some hdata)

theorem news_deliveries (h : Linked s) (hr : s.handler r = some (.receiver channelId senders))
    (senderId text : Bytes) (n : Nat) :
    news json s (s.hand (deliveries senders senderId text)) n =
      if Named senders senderId n then [text] else [] := by
  rw [news_hand json]
  · rw [deliveries]
    split
    · rfl
    · rfl
  · intro hnone
    refine if_neg ?_
    rintro ⟨e, he, rfl, -⟩
    obtain ⟨w, hw, -⟩ := handler_iff.mp (h.senders r channelId senders e.1 e.2 hr he)
    rw [hw] at hnone
    cases hnone

theorem named_iff {senderId : Bytes} (hne : senderId ≠ str "*:*") {n : Nat} :
    Named senders senderId n ↔ (senderId, n) ∈ senders.entries := by
  constructor
  · rintro ⟨e, he, rfl, hall | rfl⟩
    · exact absurd hall hne
    · exact he
  · exact fun hmem => ⟨_, hmem, rfl, .inr rfl⟩

theorem named_all {n : Nat} : Named senders (str "*:*") n ↔ n ∈ sessionsOf senders := by
  simp [Named, sessionsOf]

/-- In every state that the server comes to, with every receiver of a channel and every bus of it
whose namespace has no NUL, messages come from the senders to the bus, and from the bus to the
senders. -/
theorem buses_reached (hj : json.Undoes) (hwrites : json.Writes) {es : List WebsocketServer.Event}
    (hes : Meets (step json) Deliverable start es) (hrun : start.run json es = .ok s)
    (hr : s.handler r = some (.receiver channelId senders)) (hc : m.messageChannel_ = some c)
    (hopen : c.opened_ = true) (hbus : (ns, bus) ∈ m.messageBusMap_.entries) (hns : 0 ∉ ns) :
    Survives json s r senders m ns bus := by
  have h : Linked s :=
    (hes.ends (fun _ _ hs he => step_ends json hs he) Linked.start).of_ok hrun
  refine ⟨fun senderId n text message => up_survives hj h hr hbus hns,
    fun senderId message hid hmessage => ?_, fun message hmessage => ?_⟩
  · refine ⟨_, _, _, transmits_sendTo hwrites hc hopen message senderId,
      onRequest hj hwrites h hr message senderId, carries_document hj hbus hns hmessage,
      fun n => ?_⟩
    obtain ⟨e, he, rfl⟩ := List.mem_map.mp hid
    have hsender := h.senders r channelId senders e.1 e.2 hr he
    rw [cStr_of_not_mem (h.zero_notMem hsender), news_deliveries h hr]
    simp only [named_iff (h.ne_broadcast hsender)]
  · refine ⟨_, _, _, transmits_sendTo hwrites hc hopen message (str "*:*"),
      onRequest hj hwrites h hr message (str "*:*"), carries_document hj hbus hns hmessage,
      fun n => ?_⟩
    have hall : cStr (str "*:*") = str "*:*" := by decide
    rw [hall, news_deliveries h hr]
    simp only [named_all]

/-- Where somebody is connected, only a namespace without a NUL comes over. -/
theorem zero_notMem_of_survives (hj : json.Undoes) (hwrites : json.Writes) (h : Linked s)
    (hr : s.handler r = some (.receiver channelId senders)) (hc : m.messageChannel_ = some c)
    (hopen : c.opened_ = true) (hsomebody : senders.keys ≠ [])
    (hs : Survives json s r senders m ns bus) : 0 ∉ ns := by
  obtain ⟨id, hid⟩ := List.exists_mem_of_ne_nil _ hsomebody
  obtain ⟨e, he, -⟩ := List.mem_map.mp hid
  have hmem : e.2 ∈ sessionsOf senders := List.mem_map.mpr ⟨e, he, rfl⟩
  obtain ⟨x, s', text, hx, hstep, ⟨members, hparse, hname, -⟩, hnews⟩ := hs.all [] List.not_mem_nil
  have hall : cStr (str "*:*") = str "*:*" := by decide
  have hrequest : x = request json bus [] (str "*:*") := by
    have hsent : (m.sendTo json bus [] (str "*:*")).transmits =
        m.transmits ++ [request json bus [] (str "*:*")] :=
      transmits_sendTo hwrites hc hopen [] (str "*:*")
    rw [MessageBusManager.send, hsent] at hx
    exact (List.singleton_inj.mp (List.append_cancel_left hx)).symm
  rw [hrequest, onRequest hj hwrites h hr] at hstep
  cases hstep
  have htext : text = json.write (bus.document []) := by
    have hmine := hnews e.2
    rw [hall, news_deliveries h hr, if_pos (named_all.mpr hmem), if_pos hmem] at hmine
    exact (List.singleton_inj.mp hmine).symm
  rw [htext, hj _ (plain_document bus [])] at hparse
  cases hparse
  have hcut : cStr bus.namespace_ = ns := Json.string.inj hname
  exact hcut ▸ zero_notMem_cStr bus.namespace_

def meeting : List WebsocketServer.Event :=
  [.connect (str "/channels/c"), .connect (str "/channels/c/senders/a"),
    .connect (str "/channels/c/senders/b")]

def listening (ns : Bytes) : MessageBusManager :=
  { (MessageBusManager.new.createMessageBus ns).1.setListener ns with
    messageChannel_ := some MessageChannel.new.onOpen }

theorem meeting_meets : Meets (step .compact) Deliverable start meeting := by decide +kernel

theorem meeting_run : ∃ s senders, start.run .compact meeting = .ok s ∧
    s.handler 0 = some (.receiver (str "c") senders) ∧ senders.keys = [str "a", str "b"] := by
  obtain ⟨s, hs, htest⟩ := yields_iff.mp (show yields (start.run .compact meeting) (fun s =>
    s.handler 0 = some (.receiver (str "c") ((StdMap.empty.insert (str "a") 1).insert (str "b") 2)))
      = true by decide +kernel)
  exact ⟨s, _, hs, of_decide_eq_true htest, by decide⟩

theorem buses_reached_meeting : ∃ s senders bus, start.run .compact meeting = .ok s ∧
    s.handler 0 = some (.receiver (str "c") senders) ∧ senders.keys = [str "a", str "b"] ∧
    Survives .compact s 0 senders (listening (str "urn:x")) (str "urn:x") bus := by
  obtain ⟨s, senders, hrun, hr, hkeys⟩ := meeting_run
  exact ⟨s, senders, ⟨str "urn:x", true⟩, hrun, hr, hkeys,
    buses_reached Rapidjson.undoes_compact Rapidjson.writes_compact meeting_meets hrun hr
      (m := listening (str "urn:x")) rfl rfl (by decide) (by decide)⟩

/-- A namespace with a NUL is cut off. -/
theorem namespace_cut : ∃ s senders bus, start.run .compact meeting = .ok s ∧
    s.handler 0 = some (.receiver (str "c") senders) ∧
    ([97, 0, 98], bus) ∈ (listening [97, 0, 98]).messageBusMap_.entries ∧
    ¬ Survives .compact s 0 senders (listening [97, 0, 98]) [97, 0, 98] bus := by
  obtain ⟨s, senders, hrun, hr, hkeys⟩ := meeting_run
  have h : Linked s := (meeting_meets.ends (fun _ _ hs he => step_ends .compact hs he)
    Linked.start).of_ok hrun
  have hbus : (([97, 0, 98] : Bytes), ReceiverMessageBus.mk [97, 0, 98] true) ∈
      (listening [97, 0, 98]).messageBusMap_.entries := by decide
  refine ⟨s, senders, ⟨[97, 0, 98], true⟩, hrun, hr, hbus, fun hs => ?_⟩
  exact zero_notMem_of_survives Rapidjson.undoes_compact Rapidjson.writes_compact h hr
    (m := listening [97, 0, 98]) rfl rfl (by rw [hkeys]; decide) hs (by decide)

end
end Flingd.Sdk
