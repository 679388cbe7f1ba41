import Flingd.Base.Erased
import Flingd.Ws.TearDown

/-! Where a connection gets to: what the path names, and what the tables of the server say. -/
namespace Flingd.Ws
open Outcome

namespace WebsocketServer
variable {json : Rapidjson} {s s' : WebsocketServer} {r : Nat} {w : WebsocketSession}
  {id channelId : Bytes} {senders : StdMap Bytes Nat} {es : List Event}

/-! ### Paths -/

def IsId (id : Bytes) : Prop := id ≠ [] ∧ ∀ c ∈ id, isIdChar c = true

instance (id : Bytes) : Decidable (IsId id) := inferInstanceAs (Decidable (_ ∧ _))

def receiverPath (channelId : Bytes) : Bytes := str "/channels/" ++ channelId

def senderPath (channelId senderId : Bytes) : Bytes :=
  receiverPath channelId ++ str "/senders/" ++ senderId

theorem IsId.zero_notMem (h : IsId id) : 0 ∉ id := fun hzero => absurd (h.2 0 hzero) (by decide)

/-- A segment ends where no name goes on. -/
theorem matchSegment_append (word : Bytes) {rest : Bytes} (h : IsId id)
    (hrest : ∀ c ∈ rest.head?, isIdChar c = false) :
    matchSegment word (word ++ (id ++ rest)) = some (id, rest) := by
  obtain ⟨htake, hdrop⟩ := span_stop h.2 hrest
  unfold matchSegment
  dsimp only
  rw [List.drop_left, htake, hdrop]
  exact if_pos ⟨istartsWith_append (iequals_refl word) _, h.1⟩

theorem matchSegment_some {word x rest : Bytes} (h : matchSegment word x = some (id, rest)) :
    IsId id := by
  unfold matchSegment at h
  dsimp only at h
  split at h
  · rename_i hsegment
    cases h
    exact ⟨hsegment.2, fun c hc => List.mem_takeWhile_imp hc⟩
  · cases h

theorem senderRegex_some {x : Bytes} (h : regexSearch senderRegex x = some (channelId, id)) :
    IsId channelId ∧ IsId id := by
  obtain ⟨x', h⟩ := regexSearch_some h
  obtain ⟨⟨c, rest⟩, hchannel, h⟩ := Option.bind_eq_some_iff.mp h
  obtain ⟨⟨id', rest'⟩, hid, h⟩ := Option.bind_eq_some_iff.mp h
  cases h
  exact ⟨matchSegment_some hchannel, matchSegment_some hid⟩

theorem regexSearch_head {α : Type} {regex : Bytes → Option α} {x : Bytes} {a : α}
    (h : regex x = some a) : regexSearch regex x = some a := by
  cases x with
  | nil => exact h
  | cons c x => rw [regexSearch, h, Option.some_or]

theorem senderRegex_path (hchannel : IsId channelId) (hid : IsId id) :
    regexSearch senderRegex (cStr (senderPath channelId id)) = some (channelId, id) := by
  have hzero : 0 ∉ senderPath channelId id := by
    unfold senderPath receiverPath
    simp only [List.mem_append, not_or]
    exact ⟨⟨⟨by decide, hchannel.zero_notMem⟩, by decide⟩, hid.zero_notMem⟩
  rw [cStr_of_not_mem hzero]
  refine regexSearch_head ?_
  have hchannels : matchSegment (str "/channels/") (senderPath channelId id) =
      some (channelId, str "/senders/" ++ id) := by
    rw [senderPath, receiverPath, List.append_assoc, List.append_assoc]
    refine matchSegment_append _ hchannel fun c hc => ?_
    obtain rfl : 47 = c := Option.some.inj hc
    rfl
  have hsenders : matchSegment (str "/senders/") (str "/senders/" ++ id) = some (id, []) := by
    have hend : ∀ c ∈ ([] : Bytes).head?, isIdChar c = false := fun c hc => by cases hc
    rw [← List.append_nil id]
    exact (matchSegment_append (str "/senders/") hid hend).trans (by rw [List.append_nil])
  unfold senderRegex
  simp only [hchannels, hsenders, bind, Option.bind_some]

/-! ### Senders -/

/-- The new session is a sender of the channel, and the receiver is told. -/
structure Joins (s s' : WebsocketServer) (channelId id : Bytes) (r : Nat) : Prop where
  sender : s'.handler s.nextSession = some (.sender id (some r))
  channel : ∃ senders, s'.handler r = some (.receiver channelId senders) ∧
    (id, s.nextSession) ∈ senders.entries
  told : ∃ w w', s.sessions r = some w ∧ s'.sessions r = some w' ∧
    w'.sent = w.sent ++ [.senderConnected id]

def opened (s : WebsocketServer) : WebsocketServer :=
  { s.setSession s.nextSession (some ⟨true, false, none, []⟩) with
    nextSession := s.nextSession + 1 }

theorem opened_session (s : WebsocketServer) :
    s.opened.sessions s.nextSession = some ⟨true, false, none, []⟩ := Function.update_self ..

theorem opened_handler (s : WebsocketServer) {i : Nat} (hi : i ≠ s.nextSession) :
    s.opened.handler i = s.handler i := by
  unfold handler
  rw [show s.opened.sessions i = s.sessions i from Function.update_of_ne hi _ _]

/-- A name that is not taken is added. -/
theorem addSenderChannel_new (h : Linked s) (hr : s.handler r = some (.receiver channelId senders))
    (hnew : id ∉ senders.keys) : ∃ s', s.opened.addSenderChannel r id s.nextSession = .ok s' ∧
      Joins s s' channelId id r := by
  obtain ⟨wr, hwr, hx⟩ := handler_iff.mp hr
  have hne : r ≠ s.nextSession := by
    rintro rfl
    rw [h.fresh _ le_rfl] at hwr
    cases hwr
  have hr' : s.opened.handler r = some (.receiver channelId senders) :=
    (opened_handler s hne).trans hr
  have hwr' : s.opened.sessions r = some wr := (Function.update_of_ne hne _ _).trans hwr
  rw [addSenderChannel, derefReceiver_eq hr', ok_bind]
  dsimp only
  rw [getSenderChannel_eq_none.mpr hnew]
  dsimp only
  rw [setHandler_eq (opened_session s), ok_bind,
    setHandler_eq ((Function.update_of_ne hne _ _).trans hwr'), ok_bind,
    send_eq_set (Function.update_self ..), setSession_setSession, setSession_comm hne]
  refine ⟨_, rfl, ?_, ⟨senders.insert id s.nextSession, ?_, ?_⟩, wr, { wr with
    handler := some (.receiver channelId (senders.insert id s.nextSession))
    sent := wr.sent ++ [.senderConnected id] }, hwr, ?_, rfl⟩
  · rw [handler_setSession, Function.update_self]
    rfl
  · rw [handler_setSession, Function.update_of_ne hne, handler_setSession, Function.update_self]
    rfl
  · exact (StdMap.mem_insert_new (Option.map_eq_none_iff.mp (getSenderChannel_eq_none.mpr hnew))
      (by simp)).mpr (.inl rfl)
  · rw [sessions_setSession, Function.update_of_ne hne, sessions_setSession, Function.update_self]

theorem connect_eq (s : WebsocketServer) (path : Bytes) :
    s.connect path = s.opened.onWebsocketConnection s.nextSession path := rfl

/-- A session that was refused is no sender. -/
theorem refused_no_sender (hs : s.opened.close s.nextSession = .ok s') :
    s'.handler s.nextSession = none := by
  rw [(close_ends (opened_session s)).of_ok hs, handler_setSession, Function.update_self]
  rfl

/-- A new sender has come by a path that names its channel, and no sender of its name was there. -/
theorem connect_sender (h : Linked s) {path : Bytes} (hs : s.connect path = .ok s')
    (hsender : s'.handler s.nextSession = some (.sender id (some r))) :
    ∃ channelId senders, regexSearch senderRegex (cStr path) = some (channelId, id) ∧
      s.handler r = some (.receiver channelId senders) ∧ id ∉ senders.keys ∧
        Joins s s' channelId id r := by
  have hopened : s.opened.handler s.nextSession = none :=
    handler_free (opened_session s) rfl
  rw [connect_eq, onWebsocketConnection] at hs
  split at hs
  · split at hs
    · rename_i channelId senderId hregex
      unfold onSenderConnected at hs
      split at hs
      · rename_i r' hfind
        obtain ⟨e, he, rfl⟩ := Option.map_eq_some_iff.mp hfind
        obtain ⟨hmem, hkey⟩ := StdMap.scan_some he
        obtain ⟨senders, hr⟩ := (h.receivers e.1 e.2).mp hmem
        obtain rfl := of_decide_eq_true hkey
        have hne : e.2 ≠ s.nextSession := by
          intro heq
          rw [heq, handler, h.fresh _ le_rfl] at hr
          cases hr
        by_cases hin : senderId ∈ senders.keys
        · rw [addSenderChannel, derefReceiver_eq ((opened_handler s hne).trans hr), ok_bind] at hs
          dsimp only at hs
          split at hs
          · rename_i hnone
            exact absurd hin (getSenderChannel_eq_none.mp hnone)
          · rw [refused_no_sender hs] at hsender
            cases hsender
        · obtain ⟨t, ht, hjoins⟩ := addSenderChannel_new h hr hin
          obtain rfl := Except.ok.inj (ht.symm.trans hs)
          cases hjoins.sender.symm.trans hsender
          exact ⟨_, senders, hregex, hr, hin, hjoins⟩
      · rw [refused_no_sender hs] at hsender
        cases hsender
    · split at hs
      · rename_i channelId hregex
        unfold addReceiverChannel at hs
        split at hs
        · rw [setHandler_eq (opened_session s), ok_bind] at hs
          cases hs
          have hset : (s.opened.setSession s.nextSession (some ⟨true, false,
            some (.receiver channelId StdMap.empty), []⟩)).handler s.nextSession = _ := hsender
          rw [handler_setSession, Function.update_self] at hset
          cases hset
        · rw [refused_no_sender hs] at hsender
          cases hsender
      · cases hs
        rw [hopened] at hsender
        cases hsender
  · cases hs
    rw [hopened] at hsender
    cases hsender

/-- In every state, a connection with the path of a sender joins the channel just where channel and
sender have proper names, the receiver is there and the name is not taken. -/
theorem joins_iff (hrun : start.run json es = .ok s) (channelId id : Bytes) (r : Nat) :
    (∃ s', s.connect (senderPath channelId id) = .ok s' ∧ Joins s s' channelId id r) ↔
      IsId channelId ∧ IsId id ∧
        ∃ senders, s.handler r = some (.receiver channelId senders) ∧ id ∉ senders.keys := by
  have h := run_linked hrun
  constructor
  · rintro ⟨s', hs, hjoins⟩
    obtain ⟨channelId', senders, hregex, hr, hnew, hjoins'⟩ := connect_sender h hs hjoins.sender
    obtain ⟨hchannel, hid⟩ := senderRegex_some hregex
    obtain ⟨_, hr₁, -⟩ := hjoins.channel
    obtain ⟨_, hr₂, -⟩ := hjoins'.channel
    cases hr₁.symm.trans hr₂
    exact ⟨hchannel, hid, senders, hr, hnew⟩
  · rintro ⟨hchannel, hid, senders, hr, hnew⟩
    obtain ⟨s', hs', hjoins⟩ := addSenderChannel_new h hr hnew
    refine ⟨s', ?_, hjoins⟩
    have hbegins : (str "/channels/").isPrefixOf (senderPath channelId id) = true := by
      rw [senderPath, receiverPath, List.append_assoc, List.append_assoc]
      exact List.isPrefixOf_iff_prefix.mpr (List.prefix_append _ _)
    have hfind : s.opened.getReceiverChannel channelId = some r :=
      Option.map_eq_some_iff.mpr ⟨_, StdMap.scan_key.mpr ((h.receivers channelId r).mpr ⟨senders, hr⟩),
        rfl⟩
    rw [connect_eq, onWebsocketConnection, if_pos hbegins, senderRegex_path hchannel hid]
    dsimp only
    rw [onSenderConnected, hfind]
    exact hs'

/-! ### Receivers -/

/-- A connection with the path of a receiver opens the channel just where it is not there yet. -/
theorem opens_iff (h : Linked s) {path : Bytes} (hbegins : str "/channels/" <+: path)
    (hsender : regexSearch senderRegex (cStr path) = none)
    (hreceiver : regexSearch receiverRegex (cStr path) = some channelId) :
    (∃ s' senders, s.connect path = .ok s' ∧
        s'.handler s.nextSession = some (.receiver channelId senders)) ↔
      ∀ r senders, s.handler r ≠ some (.receiver channelId senders) := by
  have hconnect : s.connect path = s.opened.addReceiverChannel channelId s.nextSession := by
    rw [connect_eq, onWebsocketConnection, if_pos (List.isPrefixOf_iff_prefix.mpr hbegins), hsender]
    dsimp only
    rw [hreceiver]
  have hnone : s.opened.getReceiverChannel channelId = none ↔
      ∀ r senders, s.handler r ≠ some (.receiver channelId senders) := by
    constructor
    · intro hnone r senders hr
      have hscan := StdMap.scan_key.mpr ((h.receivers channelId r).mpr ⟨senders, hr⟩)
      rw [show s.receivers_.scan (channelId = ·) = none from Option.map_eq_none_iff.mp hnone] at hscan
      cases hscan
    · intro hall
      refine Option.map_eq_none_iff.mpr ?_
      by_contra hsome
      obtain ⟨e, he⟩ := Option.ne_none_iff_exists'.mp hsome
      obtain ⟨hmem, hkey⟩ := StdMap.scan_some he
      obtain rfl := of_decide_eq_true hkey
      obtain ⟨senders, hr⟩ := (h.receivers e.1 e.2).mp hmem
      exact hall e.2 senders hr
  rw [hconnect, ← hnone, addReceiverChannel]
  constructor
  · rintro ⟨s', senders, hs', hr⟩
    by_contra hsome
    obtain ⟨r, hfind⟩ := Option.ne_none_iff_exists'.mp hsome
    rw [hfind] at hs'
    rw [refused_no_sender hs'] at hr
    cases hr
  · intro hnone
    rw [hnone]
    dsimp only
    rw [setHandler_eq (opened_session s), ok_bind]
    refine ⟨_, StdMap.empty, rfl, ?_⟩
    have hset : (s.opened.setSession s.nextSession (some ⟨true, false,
        some (.receiver channelId StdMap.empty), []⟩)).handler s.nextSession =
        some (.receiver channelId StdMap.empty) := by
      rw [handler_setSession, Function.update_self]
      rfl
    exact hset

end WebsocketServer
end Flingd.Ws
