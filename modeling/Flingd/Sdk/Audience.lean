import Flingd.Sdk.BusPath
import Flingd.Ws.Attendance

/-! What the listeners of a receiver hear of its senders: who comes, who goes, and what they say in
between. -/
namespace Flingd.Sdk
open Ws Outcome Presence

/-! ### A receiver that listens -/

inductive Listening where
  | createMessageBus (ns : Bytes)
  | setListener (ns : Bytes)
  /-- A text comes through the channel. -/
  | hear (text : Bytes)

def Listening.text : Listening → Option Bytes
  | .hear text => some text
  | _ => none

namespace MessageBusManager

/-- With what the listeners are told. -/
def listen (json : Rapidjson) (m : MessageBusManager) :
    Listening → Option (MessageBusManager × List Told)
  | .createMessageBus ns => some ((m.createMessageBus ns).1, [])
  | .setListener ns => some (m.setListener ns, [])
  | .hear text => (m.onChannelMessage json text).map (m, ·)

/-- What the listeners are told, one after the other; `none` where an accessor is misused. -/
def listens (json : Rapidjson) : MessageBusManager → List Listening → Option (List Told)
  | _, [] => some []
  | m, e :: es => do
    let (m, told) ← m.listen json e
    let more ← listens json m es
    some (told ++ more)

end MessageBusManager

def Told.notice (ns : Bytes) : Told → Option (Notice Bytes)
  | .onMessage namespace_ _ senderId => if namespace_ = ns then some (.speaks senderId) else none
  | .onSenderConnect namespace_ senderId => if namespace_ = ns then some (.comes senderId) else none
  | .onSenderDisconnect namespace_ senderId => if namespace_ = ns then some (.goes senderId) else none

section
open MessageBusManager
open WebsocketServer (start)
variable {json : Rapidjson} {m m' : MessageBusManager} {ns : Bytes} {told : List Told}

def Listens (m : MessageBusManager) (ns : Bytes) : Prop :=
  ∃ bus, (ns, bus) ∈ m.messageBusMap_.entries ∧ bus.listener_ = true

/-! ### One text -/

/-- Of what all buses are told, the listener of the namespace hears what its bus is told. -/
theorem notice_tellAll {bus : ReceiverMessageBus} (hbus : (ns, bus) ∈ m.messageBusMap_.entries)
    {tell : ReceiverMessageBus → List Told}
    (hother : ∀ b, b.namespace_ ≠ ns → (tell b).filterMap (Told.notice ns) = []) :
    (m.tellAll tell).filterMap (Told.notice ns) = (tell bus).filterMap (Told.notice ns) := by
  rw [tellAll, List.filterMap_flatMap]
  refine Eq.trans (List.flatMap_congr fun e he => ?_)
    (StdMap.flatMap_key hbus fun b => (tell b).filterMap (Told.notice ns))
  split
  · rfl
  · rename_i hne
    exact hother e.2 (m.named e he ▸ hne)

/-- A bus of another namespace tells the listener nothing. -/
theorem notice_other {b : ReceiverMessageBus} {t : Told} (ht : t.notice ns = none) :
    (b.tell t).filterMap (Told.notice ns) = [] := by
  unfold ReceiverMessageBus.tell
  split
  · rw [List.filterMap_cons, ht]
    rfl
  · rfl

theorem onChannelMessage_notice {type senderId text : Bytes}
    (htype : type = str "senderConnected" ∨ type = str "senderDisconnected")
    (hparse : json.parse text = some (.object [(str "type", .text type),
      (str "senderId", .text senderId)])) :
    m.onChannelMessage json text = m.onMessage json type (cStr senderId) [] := by
  have hget : Json.get [(str "type", .text type), (str "senderId", .text senderId)]
      (str "type") = .text type := rfl
  have hid : Json.get [(str "type", .text type), (str "senderId", .text senderId)]
      (str "senderId") = .text senderId := rfl
  have hword : cStr type = type := by
    rcases htype with rfl | rfl <;> decide
  have hsignal : signalled json text = some (some (type, cStr senderId, [])) := by
    rw [signalled, hparse]
    simp only [Json.at?_object, hget, hid, Json.isNull_text, Json.getString_text, hword, bind,
      Option.bind_some, Bool.false_eq_true, if_false]
    rcases htype with rfl | rfl
    · rw [if_pos rfl]
    · rw [if_neg (by decide), if_pos rfl]
  rw [onChannelMessage, hsignal]
  rfl

theorem onData_cases {senderId message : Bytes} (h : m.onData json senderId message = some told) :
    told = [] ∨ ∃ nsStr payload, told = m.tellAll fun bus =>
      if bus.namespace_ = nsStr then bus.onMessage payload senderId else [] := by
  unfold onData at h
  split at h
  · exact .inl (Option.some.inj h).symm
  · exact .inl (Option.some.inj h).symm
  · obtain ⟨name, -, h⟩ := Option.bind_eq_some_iff.mp h
    split at h
    · exact .inl (Option.some.inj h).symm
    · obtain ⟨payload, -, h⟩ := Option.bind_eq_some_iff.mp h
      split at h
      · exact .inl (Option.some.inj h).symm
      · obtain ⟨nsStr, -, h⟩ := Option.bind_eq_some_iff.mp h
        obtain ⟨payloadStr, -, h⟩ := Option.bind_eq_some_iff.mp h
        exact .inr ⟨nsStr, payloadStr, (Option.some.inj h).symm⟩

/-- What a sender says is told to the listener at most once. -/
theorem onData_thins {bus : ReceiverMessageBus} (hbus : (ns, bus) ∈ m.messageBusMap_.entries)
    {senderId message : Bytes} (h : m.onData json senderId message = some told) :
    Thins [.speaks senderId] (told.filterMap (Told.notice ns)) := by
  rcases onData_cases h with rfl | ⟨nsStr, payload, rfl⟩
  · exact .drop _ .nil
  · rw [notice_tellAll hbus]
    · split
      · rename_i hname
        rw [ReceiverMessageBus.onMessage, ReceiverMessageBus.tell]
        split
        · rw [List.filterMap_cons, Told.notice, if_pos (m.named _ hbus)]
          exact .keep _ .nil
        · exact .drop _ .nil
      · exact .drop _ .nil
    · intro b hne
      split
      · exact notice_other (if_neg hne)
      · rfl

/-- A frame of the server is told to a listener, where it is not garbage that a sender has sent. -/
theorem hear_frame (hj : json.Undoes) (hl : Listens m ns) {f : Frame} {n : Notice Bytes}
    (hn : f.notice = some n) (hzero : 0 ∉ n.who)
    (h : m.onChannelMessage json (f.text json) = some told) :
    Thins [n] (told.filterMap (Told.notice ns)) := by
  obtain ⟨bus, hbus, hlistener⟩ := hl
  have hname : bus.namespace_ = ns := m.named _ hbus
  cases f with
  | senderConnected id =>
    cases hn
    have hparse : json.parse (Frame.text json (.senderConnected id)) = some (.object
        [(str "type", .text (str "senderConnected")), (str "senderId", .text id)]) :=
      hj _ (Json.plain_cons (by decide) (Json.plain_text _)
        (Json.plain_cons (by decide) (Json.plain_text _) Json.plain_nil))
    rw [onChannelMessage_notice (.inl rfl) hparse, cStr_of_not_mem (s := id) hzero,
      MessageBusManager.onMessage, if_pos rfl] at h
    cases h
    have hother : ∀ b : ReceiverMessageBus, b.namespace_ ≠ ns →
        (b.onSenderConnect id).filterMap (Told.notice ns) = [] :=
      fun b hne => notice_other (if_neg hne)
    rw [notice_tellAll hbus hother, ReceiverMessageBus.onSenderConnect,
      ReceiverMessageBus.tell, if_pos hlistener, List.filterMap_cons, Told.notice, if_pos hname]
    exact .keep _ .nil
  | senderDisconnected id =>
    cases hn
    have hparse : json.parse (Frame.text json (.senderDisconnected id)) = some (.object
        [(str "type", .text (str "senderDisconnected")), (str "senderId", .text id)]) :=
      hj _ (Json.plain_cons (by decide) (Json.plain_text _)
        (Json.plain_cons (by decide) (Json.plain_text _) Json.plain_nil))
    rw [onChannelMessage_notice (.inr rfl) hparse, cStr_of_not_mem (s := id) hzero,
      MessageBusManager.onMessage, if_neg (by decide), if_pos rfl] at h
    cases h
    have hother : ∀ b : ReceiverMessageBus, b.namespace_ ≠ ns →
        (b.onSenderDisconnect id).filterMap (Told.notice ns) = [] :=
      fun b hne => notice_other (if_neg hne)
    rw [notice_tellAll hbus hother, ReceiverMessageBus.onSenderDisconnect,
      ReceiverMessageBus.tell, if_pos hlistener, List.filterMap_cons, Told.notice, if_pos hname]
    exact .keep _ .nil
  | message id msg =>
    cases hn
    have hparse : json.parse (Frame.text json (.message id msg)) = some (.object
        [(str "type", .text (str "message")), (str "senderId", .text id),
          (str "data", .text msg)]) :=
      hj _ (Json.plain_cons (by decide) (Json.plain_text _) (Json.plain_cons (by decide)
        (Json.plain_text _) (Json.plain_cons (by decide) (Json.plain_text _) Json.plain_nil)))
    rw [onChannelMessage_message hparse, cStr_of_not_mem (s := id) hzero] at h
    exact onData_thins hbus h
  | data text => cases hn

/-! ### All texts -/

theorem Listens.createMessageBus (hl : Listens m ns) (ns' : Bytes) :
    Listens (m.createMessageBus ns').1 ns := by
  obtain ⟨bus, hbus, hlistener⟩ := hl
  unfold MessageBusManager.createMessageBus
  split
  · exact ⟨bus, hbus, hlistener⟩
  · split
    · exact ⟨bus, StdMap.mem_insert_of_mem _ _ hbus, hlistener⟩
    · exact ⟨bus, hbus, hlistener⟩

theorem Listens.setListener (hl : Listens m ns) (ns' : Bytes) : Listens (m.setListener ns') ns := by
  obtain ⟨bus, hbus, hlistener⟩ := hl
  cases hscan : m.messageBusMap_.scan (ns' = ·) with
  | none =>
    refine ⟨bus, ?_, hlistener⟩
    change _ ∈ (m.messageBusMap_.modifyFirst _ _).entries
    rw [StdMap.modifyFirst, hscan]
    exact hbus
  | some e =>
    obtain ⟨before, after, hentries, hset⟩ :=
      StdMap.modifyFirst_split (fun bus : ReceiverMessageBus => { bus with listener_ := true }) hscan
    by_cases he : (ns, bus) = e
    · -- the bus has a listener once more
      refine ⟨{ bus with listener_ := true }, ?_, rfl⟩
      change _ ∈ (m.messageBusMap_.modifyFirst _ _).entries
      rw [hset, ← he]
      exact List.mem_append_right _ List.mem_cons_self
    · refine ⟨bus, ?_, hlistener⟩
      change _ ∈ (m.messageBusMap_.modifyFirst _ _).entries
      rw [hset]
      rw [hentries] at hbus
      rcases List.mem_append.mp hbus with hbus | hbus
      · exact List.mem_append_left _ hbus
      · exact List.mem_append_right _
          (List.mem_cons_of_mem _ ((List.mem_cons.mp hbus).resolve_left he))

/-- The listener hears what the frames tell, but for what it does not understand. -/
theorem listens_thins (hj : json.Undoes) (hl : Listens m ns) {frames : List Frame}
    (hframes : ∀ f ∈ frames, ∃ n, f.notice = some n ∧ 0 ∉ n.who) {es : List Listening}
    (hheard : es.filterMap Listening.text = frames.map (Frame.text json))
    (htold : m.listens json es = some told) :
    Thins (frames.filterMap Frame.notice) (told.filterMap (Told.notice ns)) := by
  induction es generalizing m frames told with
  | nil =>
    cases htold
    rw [List.map_eq_nil_iff.mp hheard.symm]
    exact .nil
  | cons e es ih =>
    obtain ⟨⟨m', told₁⟩, hfirst, htold⟩ := Option.bind_eq_some_iff.mp htold
    obtain ⟨told₂, hrest, htold⟩ := Option.bind_eq_some_iff.mp htold
    cases htold
    cases e with
    | createMessageBus ns' =>
      cases hfirst
      exact ih (hl.createMessageBus ns') hframes hheard hrest
    | setListener ns' =>
      cases hfirst
      exact ih (hl.setListener ns') hframes hheard hrest
    | hear text =>
      obtain ⟨told, hone, hfirst⟩ := Option.map_eq_some_iff.mp hfirst
      cases hfirst
      obtain ⟨f, frames, rfl, rfl, hmore⟩ := List.map_eq_cons_iff.mp hheard.symm
      obtain ⟨n, hn, hzero⟩ := hframes f List.mem_cons_self
      have hthins := (hear_frame hj hl hn hzero hone).append
        (ih hl (fun g hg => hframes g (List.mem_cons_of_mem _ hg)) hmore.symm hrest)
      rw [List.filterMap_append, List.filterMap_cons, hn]
      exact hthins

/-! ### What the server knows and what the listener hears -/

/-- In every run, whatever a listener of a receiver has heard so far makes sense: nobody comes who
is there, and nobody goes or speaks who is not. Where it has heard all, those are there that the
server has as senders. -/
theorem audience_agrees (hj : json.Undoes) {s : WebsocketServer} {es : List WebsocketServer.Event}
    (hes : Meets (WebsocketServer.step json) WebsocketServer.Deliverable start es)
    (hrun : start.run json es = .ok s) {r k : Nat} {w : WebsocketSession} {channelId : Bytes}
    {senders : StdMap Bytes Nat} (hw : s.sessions r = some w)
    (hx : w.handler = some (.receiver channelId senders)) (hl : Listens m ns)
    {ls : List Listening}
    (hheard : ls.filterMap Listening.text = (w.sent.take k).map (Frame.text json))
    (htold : m.listens json ls = some told) :
    ∃ here, view (told.filterMap (Told.notice ns)) = some here ∧
      (w.sent.length ≤ k → ∀ id, id ∈ here ↔ id ∈ senders.keys) := by
  obtain ⟨-, hattended⟩ := WebsocketServer.run_attended hes hrun
  obtain ⟨htells, all, hview, hkeys⟩ := hattended r w channelId senders hw hx
  have hthins := listens_thins hj hl (fun f hf => htells f (List.mem_of_mem_take hf)) hheard htold
  by_cases hall : w.sent.length ≤ k
  · rw [List.take_of_length_le hall] at hthins
    exact ⟨all, hthins.view hview, fun _ => hkeys⟩
  · rw [← List.take_append_drop k w.sent, List.filterMap_append] at hview
    obtain ⟨here, hbefore⟩ := view_append hview
    exact ⟨here, hthins.view hbefore, fun h => absurd h hall⟩

def greeting : Bytes :=
  Rapidjson.compact.write ((ReceiverMessageBus.mk (str "urn:x") true).document (str "hi"))

def greeted : List Frame :=
  [.senderConnected (str "a"), .senderConnected (str "b"), .message (str "a") greeting,
    .senderDisconnected (str "a")]

theorem audience_agrees_meeting : ∃ s w senders told,
    start.run .compact (meeting ++ [.message 1 greeting, .closed 1]) = .ok s ∧
    s.sessions 0 = some w ∧ w.handler = some (.receiver (str "c") senders) ∧
    told = [.onSenderConnect (str "urn:x") (str "a"), .onSenderConnect (str "urn:x") (str "b"),
      .onMessage (str "urn:x") (str "hi") (str "a"),
      .onSenderDisconnect (str "urn:x") (str "a")] ∧
    ∃ here, view (told.filterMap (Told.notice (str "urn:x"))) = some here ∧
      (w.sent.length ≤ greeted.length → ∀ id, id ∈ here ↔ id ∈ senders.keys) := by
  obtain ⟨s, hs, htest⟩ := yields_iff.mp (show yields
    (start.run .compact (meeting ++ [.message 1 greeting, .closed 1])) (fun s =>
      s.sessions 0 = some ⟨true, false, some (.receiver (str "c")
        (StdMap.empty.insert (str "b") 2)), greeted⟩) = true by decide +kernel)
  have hw := of_decide_eq_true htest
  have hheard : (greeted.map fun f => Listening.hear (f.text .compact)).filterMap Listening.text =
      (greeted.take greeted.length).map (Frame.text .compact) := rfl
  exact ⟨s, _, _, _, hs, hw, rfl, rfl, audience_agrees Rapidjson.undoes_compact
    (by decide +kernel) hs hw rfl (m := listening (str "urn:x"))
    ⟨⟨str "urn:x", true⟩, by decide, rfl⟩ hheard (by decide +kernel)⟩

end
end Flingd.Sdk
