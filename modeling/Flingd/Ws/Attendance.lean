import Flingd.Base.Presence
import Flingd.Ws.Routes

/-! What a receiver is told of its senders, in order. -/
namespace Flingd.Ws
open Presence Outcome

def Frame.notice : Frame → Option (Notice Bytes)
  | .senderConnected senderId => some (.comes senderId)
  | .senderDisconnected senderId => some (.goes senderId)
  | .message senderId _ => some (.speaks senderId)
  | .data _ => none

/-- All that was sent tells of senders, and those who are there are the keys of `senders`. -/
structure WebsocketSession.Attends (w : WebsocketSession) (senders : StdMap Bytes Nat) : Prop where
  tells : ∀ f ∈ w.sent, ∃ n, f.notice = some n ∧ 0 ∉ n.who
  present : Shows (w.sent.filterMap Frame.notice) (· ∈ senders.keys)

namespace WebsocketServer

def Attended (s : WebsocketServer) : Prop :=
  ∀ r w channelId senders, s.sessions r = some w →
    w.handler = some (.receiver channelId senders) → w.Attends senders

variable {json : Rapidjson} {s s' : WebsocketServer} {i n r : Nat} {w : WebsocketSession}
  {id channelId msg : Bytes} {senders : StdMap Bytes Nat}

/-- Each receiver is told of its senders as it should be, or is told nothing new and has them all. -/
theorem Attended.sessions (h : Attended s)
    (hsame : ∀ r w' c x, s'.sessions r = some w' → w'.handler = some (.receiver c x) →
      w'.Attends x ∨ ∃ w, s.sessions r = some w ∧ w.handler = w'.handler ∧ w.sent = w'.sent) :
    Attended s' := by
  intro r w' c x hw' hx
  rcases hsame r w' c x hw' hx with hattends | ⟨w, hw, hhandler, hsent⟩
  · exact hattends
  · obtain ⟨htells, hpresent⟩ := h r w c x hw (hhandler.trans hx)
    rw [hsent] at htells hpresent
    exact ⟨htells, hpresent⟩

theorem Attended.start : Attended start := fun _ _ _ _ hw => by cases hw

/-- A session without a receiver is changed. -/
theorem Attended.set (h : Attended s) {w' : Option WebsocketSession}
    (hw' : ∀ w, w' = some w → ∀ c x, w.handler ≠ some (.receiver c x)) :
    Attended (s.setSession i w') := by
  refine h.sessions fun r v c x hv hx => ?_
  rw [sessions_setSession] at hv
  by_cases hr : r = i
  · rw [hr, Function.update_self] at hv
    exact absurd hx (hw' v hv c x)
  · rw [Function.update_of_ne hr] at hv
    exact .inr ⟨v, hv, rfl, rfl⟩

/-! ### Messages -/

theorem mem_concat_tells {w : WebsocketSession} {f : Frame} {n : Notice Bytes}
    (h : ∀ f ∈ w.sent, ∃ n, f.notice = some n ∧ 0 ∉ n.who) (hf : f.notice = some n)
    (hn : 0 ∉ n.who) : ∀ g ∈ w.sent ++ [f], ∃ n, g.notice = some n ∧ 0 ∉ n.who := by
  intro g hg
  rcases List.mem_append.mp hg with hg | hg
  · exact h g hg
  · rw [List.mem_singleton.mp hg]
    exact ⟨n, hf, hn⟩

theorem filterMap_concat {l : List Frame} {f : Frame} {n : Notice Bytes} (hf : f.notice = some n) :
    (l ++ [f]).filterMap Frame.notice = l.filterMap Frame.notice ++ [n] := by
  rw [List.filterMap_append, List.filterMap_cons, hf]
  rfl

theorem Attended.onSenderMessage (h : Attended s) (hl : Linked s)
    (hn : s.handler n = some (.sender id (some r))) :
    Attended (s.hand fun j => if j = r then [.message id msg] else []) := by
  obtain ⟨c, x, hr, hmem⟩ := hl.channels n id r hn
  refine h.sessions fun r' w' c' x' hw' hx' => ?_
  obtain ⟨w, hw, rfl⟩ := Option.map_eq_some_iff.mp hw'
  by_cases hrr : r' = r
  · subst hrr
    have hx : s.handler r' = some (.receiver c' x') := handler_iff.mpr ⟨w, hw, hx'⟩
    rw [hr] at hx
    cases hx
    obtain ⟨htells, hpresent⟩ := h r' w c x hw hx'
    have hnotice : (Frame.message id msg).notice = some (.speaks id) := rfl
    left
    simp only [if_pos]
    refine ⟨mem_concat_tells htells hnotice (hl.zero_notMem hn), ?_⟩
    rw [filterMap_concat hnotice]
    exact hpresent.speaks (List.mem_map.mpr ⟨_, hmem, rfl⟩)
  · right
    refine ⟨w, hw, rfl, ?_⟩
    dsimp only
    rw [if_neg hrr, List.append_nil]

theorem Attended.onReceiverMessage (h : Attended s) (hl : Linked s)
    (hr : s.handler r = some (.receiver channelId senders)) (text : Bytes) :
    Attended (s.hand (deliveries senders id text)) := by
  refine h.sessions fun r' w' c x hw' hx => .inr ?_
  obtain ⟨w, hw, rfl⟩ := Option.map_eq_some_iff.mp hw'
  have hnone : deliveries senders id text r' = [] := by
    refine if_neg ?_
    rintro ⟨e, he, rfl, -⟩
    exact sender_ne_receiver (hl.senders r channelId senders e.1 e.2 hr he)
      (handler_iff.mpr ⟨w, hw, hx⟩) rfl
  refine ⟨w, hw, rfl, ?_⟩
  dsimp only
  rw [hnone, List.append_nil]

theorem Attended.onMessage (h : Attended s) (hl : Linked s)
    (hlost : ∀ id, s.handler n ≠ some (.sender id none)) (hs : s.onMessage json n msg = .ok s') :
    Attended s' := by
  unfold WebsocketServer.onMessage at hs
  split at hs
  · cases hs
    exact h
  · rename_i id channel hn
    cases channel with
    | none => exact absurd hn (hlost id)
    | some r =>
      rw [onSenderMessage_eq hl hn] at hs
      cases hs
      exact h.onSenderMessage hl hn
  · rename_i channelId senders hr
    have hform := hs
    unfold WebsocketServer.onReceiverMessage at hform
    split at hform
    · rename_i members hparse
      dsimp only at hform
      split at hform
      · cases hform
      · rename_i id hid
        cases htext : (Json.get members (str "data")).getString with
        | none =>
          obtain rfl := (onReceiverMessage_other hparse hid htext).of_ok hs
          exact h
        | some text =>
          rw [onReceiverMessage_eq hl hr hparse hid htext] at hs
          cases hs
          exact h.onReceiverMessage hl hr text
    · cases hform

/-! ### Sessions that close -/

theorem onSenderClose_eq (h : Linked s) (hn : s.handler n = some (.sender id (some r)))
    (hw : s.sessions r = some w) (hx : w.handler = some (.receiver channelId senders)) :
    s.onSenderClose id (some r) = .ok (s.setSession r (some { w with
      handler := some (.receiver channelId (senders.eraseFirst (id = ·)))
      sent := w.sent ++ [.senderDisconnected id] })) := by
  obtain ⟨c, x, hr, hmem⟩ := h.channels n id r hn
  have hr' : s.handler r = some (.receiver channelId senders) := handler_iff.mpr ⟨w, hw, hx⟩
  rw [hr] at hr'
  cases hr'
  rw [onSenderClose, removeSenderChannel, derefReceiver_eq hr, ok_bind]
  dsimp only
  rw [getSenderChannel_eq_some.mpr hmem]
  exact send_setHandler_eq hw _ _

theorem Attended.onSenderClose (h : Attended s) (hl : Linked s)
    (hn : s.handler n = some (.sender id (some r)))
    (hs : s.onSenderClose id (some r) = .ok s') : Attended s' := by
  obtain ⟨c, x, hr, hmem⟩ := hl.channels n id r hn
  obtain ⟨w, hw, hx⟩ := handler_iff.mp hr
  rw [onSenderClose_eq hl hn hw hx] at hs
  cases hs
  refine h.sessions fun r' w' c' x' hw' hx' => ?_
  rw [sessions_setSession] at hw'
  by_cases hrr : r' = r
  · left
    rw [hrr, Function.update_self] at hw'
    cases hw'
    cases hx'
    obtain ⟨htells, hpresent⟩ := h r w c x hw hx
    have hnotice : (Frame.senderDisconnected id).notice = some (.goes id) := rfl
    refine ⟨mem_concat_tells htells hnotice (hl.zero_notMem hn), ?_⟩
    rw [filterMap_concat hnotice]
    refine hpresent.goes (List.mem_map.mpr ⟨_, hmem, rfl⟩) fun id' => ?_
    rw [StdMap.mem_keys_eraseFirst, and_comm]
  · right
    rw [Function.update_of_ne hrr] at hw'
    exact ⟨w', hw', rfl, rfl⟩

theorem Attended.onClose (h : Attended s) (hl : Linked s) (hs : s.onClose n = .ok s') :
    Attended s' := by
  have hremove {t : WebsocketServer} (ht : Attended t) : Attended (t.setSession n none) :=
    ht.set fun w hw => by cases hw
  unfold WebsocketServer.onClose at hs
  split at hs
  · cases hs
    exact hremove h
  · rename_i id channel hn
    cases channel with
    | none =>
      cases hs
      exact hremove h
    | some r =>
      obtain ⟨t, ht, hs⟩ := bind_eq_ok.mp hs
      cases hs
      exact hremove (h.onSenderClose hl hn ht)
  · rename_i channelId senders hn
    obtain ⟨t, ht, hs⟩ := bind_eq_ok.mp hs
    cases hs
    obtain ⟨u, hu, ht⟩ := bind_eq_ok.mp ht
    cases ht
    obtain rfl := (closeSenders_ends (hl.live_sender hn)).of_ok hu
    refine hremove ?_
    refine h.sessions fun r w' c x hw' hx => .inr ?_
    change (if r ∈ sessionsOf senders then (s.sessions r).map WebsocketSession.cut
      else s.sessions r) = some w' at hw'
    split at hw'
    · -- a sender that is closed is no receiver
      rename_i hmem
      obtain ⟨w, hw, rfl⟩ := Option.map_eq_some_iff.mp hw'
      obtain ⟨id, hsender⟩ := (hl.mem_sessionsOf hn).mp hmem
      obtain ⟨w₀, hw₀, hx₀⟩ := handler_iff.mp hsender
      rw [hw] at hw₀
      cases hw₀
      rw [WebsocketSession.cut, hx₀] at hx
      cases hx
    · exact ⟨w', hw', rfl, rfl⟩

/-! ### Sessions that connect -/

theorem Attended.close_free (h : Attended s) (hw : s.sessions i = some w)
    (hfree : w.handler = none) (hs : s.close i = .ok s') : Attended s' := by
  obtain rfl := (close_ends hw).of_ok hs
  refine h.set fun w' hw' c x hx => ?_
  cases hw'
  rw [hfree] at hx
  cases hx

theorem Attended.addReceiverChannel (h : Attended s) (hw : s.sessions i = some w)
    (hfree : w.handler = none) (hsent : w.sent = [])
    (hs : s.addReceiverChannel channelId i = .ok s') : Attended s' := by
  unfold WebsocketServer.addReceiverChannel at hs
  split at hs
  · rw [setHandler_eq hw, ok_bind] at hs
    cases hs
    refine h.sessions fun r w' c x hw' hx => ?_
    change Function.update s.sessions i _ r = some w' at hw'
    by_cases hr : r = i
    · left
      rw [hr, Function.update_self] at hw'
      cases hw'
      cases hx
      refine ⟨fun f hf => ?_, ?_⟩
      · rw [hsent] at hf
        cases hf
      · simp only [hsent]
        exact ⟨[], rfl, fun id => iff_of_false List.not_mem_nil List.not_mem_nil⟩
    · right
      rw [Function.update_of_ne hr] at hw'
      exact ⟨w', hw', rfl, rfl⟩
  · exact h.close_free hw hfree hs

/-- The new sender is told to the receiver. -/
theorem addSenderChannel_eq {v : WebsocketSession} (hw : s.sessions i = some w)
    (hir : r ≠ i) (hv : s.sessions r = some v) (hx : v.handler = some (.receiver channelId senders))
    (hnew : getSenderChannel senders id = none) :
    s.addSenderChannel r id i = .ok ((s.setSession r (some { v with
      handler := some (.receiver channelId (senders.insert id i))
      sent := v.sent ++ [.senderConnected id] })).setSession i
        (some { w with handler := some (.sender id (some r)) })) := by
  have hr : s.handler r = some (.receiver channelId senders) := handler_iff.mpr ⟨v, hv, hx⟩
  rw [addSenderChannel, derefReceiver_eq hr, ok_bind]
  dsimp only
  rw [hnew]
  dsimp only
  rw [setHandler_eq hw, ok_bind, setHandler_eq ((Function.update_of_ne hir _ _).trans hv), ok_bind,
    send_eq_set (Function.update_self ..), setSession_setSession, setSession_comm hir]

theorem Attended.addSenderChannel (h : Attended s) (hw : s.sessions i = some w)
    (hfree : w.handler = none) (hr : s.handler r = some (.receiver channelId senders))
    (hid : ∀ c ∈ id, isIdChar c = true) (hs : s.addSenderChannel r id i = .ok s') :
    Attended s' := by
  obtain ⟨v, hv, hx⟩ := handler_iff.mp hr
  cases hfind : getSenderChannel senders id with
  | some m =>
    rw [WebsocketServer.addSenderChannel, derefReceiver_eq hr, ok_bind] at hs
    dsimp only at hs
    rw [hfind] at hs
    exact h.close_free hw hfree hs
  | none =>
    have hir : r ≠ i := by
      rintro rfl
      rw [handler_free hw hfree] at hr
      cases hr
    have hzero : 0 ∉ id := fun hz => absurd (hid 0 hz) (by decide)
    rw [addSenderChannel_eq hw hir hv hx hfind] at hs
    cases hs
    refine Attended.set ?_ fun w' hw' c x hx' => ?_
    · refine h.sessions fun r' w' c' x' hw' hx' => ?_
      rw [sessions_setSession] at hw'
      by_cases hrr : r' = r
      · left
        rw [hrr, Function.update_self] at hw'
        cases hw'
        cases hx'
        obtain ⟨htells, hpresent⟩ := h r v channelId senders hv hx
        have hnotice : (Frame.senderConnected id).notice = some (.comes id) := rfl
        refine ⟨mem_concat_tells htells hnotice hzero, ?_⟩
        rw [filterMap_concat hnotice]
        exact hpresent.comes (getSenderChannel_eq_none.mp hfind)
          fun id' => StdMap.mem_keys_insert i
      · right
        rw [Function.update_of_ne hrr] at hw'
        exact ⟨w', hw', rfl, rfl⟩
    · cases hw'
      cases hx'

theorem Attended.connect (h : Attended s) (hl : Linked s) {path : Bytes}
    (hs : s.connect path = .ok s') : Attended s' := by
  unfold WebsocketServer.connect at hs
  dsimp only at hs
  have hopened : Attended { s.setSession s.nextSession (some ⟨true, false, none, []⟩) with
      nextSession := s.nextSession + 1 } :=
    h.set (i := s.nextSession) fun w hw c x hx => by
      cases hw
      cases hx
  have hlinked := hl.opened
  generalize ht : ({ s.setSession s.nextSession (some ⟨true, false, none, []⟩) with
    nextSession := s.nextSession + 1 } : WebsocketServer) = t at hopened hlinked hs
  have hw : t.sessions s.nextSession = some ⟨true, false, none, []⟩ := by
    rw [← ht]
    exact Function.update_self ..
  unfold onWebsocketConnection at hs
  split at hs
  · split at hs
    · rename_i channelId senderId hfind
      obtain ⟨x, hmatch⟩ := regexSearch_some hfind
      unfold onSenderConnected at hs
      split at hs
      · rename_i r hchannel
        obtain ⟨e, he, rfl⟩ := Option.map_eq_some_iff.mp hchannel
        obtain ⟨senders, hr⟩ := (hlinked.receivers e.1 e.2).mp (StdMap.scan_some he).1
        exact hopened.addSenderChannel hw rfl hr (senderRegex_ids hmatch) hs
      · exact hopened.close_free hw rfl hs
    · split at hs
      · exact hopened.addReceiverChannel hw rfl rfl hs
      · cases hs
        exact hopened
  · cases hs
    exact hopened

/-! ### Runs -/

theorem Attended.step (h : Attended s) (hl : Linked s) {e : Event} (he : Deliverable s e)
    (hs : s.step json e = .ok s') : Attended s' := by
  cases e with
  | connect path => exact h.connect hl hs
  | message n msg =>
    refine h.onMessage hl (fun id hn => ?_) hs
    obtain ⟨w, hw, hx⟩ := handler_iff.mp hn
    rw [Deliverable, hw, Option.map_some, hl.lost n w id hw hx] at he
    exact he rfl
  | closing n =>
    cases hs
    refine h.sessions fun r w' c x hw' hx => .inr ?_
    rw [sessions_setSession] at hw'
    by_cases hr : r = n
    · rw [hr, Function.update_self] at hw'
      obtain ⟨w, hw, rfl⟩ := Option.map_eq_some_iff.mp hw'
      exact ⟨w, hr ▸ hw, rfl, rfl⟩
    · rw [Function.update_of_ne hr] at hw'
      exact ⟨w', hw', rfl, rfl⟩
  | closed n => exact h.onClose hl hs

/-- In every run in which no message comes after `close`, every receiver is told of its senders
in an order that makes sense, and of no others. -/
theorem run_attended {es : List Event} (hes : Meets (WebsocketServer.step json) Deliverable start es)
    (hrun : start.run json es = .ok s) : Linked s ∧ Attended s := by
  have hboth : Outcome.Ends (start.run json es) (fun f => f = .thrown ∨ f = .misused)
      fun s => Linked s ∧ Attended s :=
    hes.ends (I := fun s => Linked s ∧ Attended s) (fun s e hs he => by
      have hlinked := step_ends json hs.1 he
      cases hstep : s.step json e with
      | ok s' =>
        rw [hstep] at hlinked
        exact ⟨hlinked, hs.2.step hs.1 he hstep⟩
      | error f =>
        rw [hstep] at hlinked
        exact hlinked) ⟨Linked.start, Attended.start⟩
  exact hboth.of_ok hrun

end WebsocketServer
end Flingd.Ws
