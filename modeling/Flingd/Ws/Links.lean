import Flingd.Ws.WebsocketServer

/-! How the tables of the server, the pointers between its handlers and its notices agree. -/
namespace Flingd.Ws

/-- Of the keys of `senders`, and of no others, one more connect was told than disconnects. -/
def WebsocketSession.Notices (w : WebsocketSession) (senders : StdMap Bytes Nat) : Prop :=
  ∀ id,
    (id ∈ senders.keys →
      w.sent.count (.senderConnected id) = w.sent.count (.senderDisconnected id) + 1) ∧
    (id ∉ senders.keys → w.sent.count (.senderConnected id) = w.sent.count (.senderDisconnected id))

/-- What is no notice. -/
def Frame.Plain : Frame → Prop
  | .senderConnected _ => False
  | .senderDisconnected _ => False
  | _ => True

theorem count_plain {frames : List Frame} {f : Frame} (hf : ¬ Frame.Plain f)
    (h : ∀ x ∈ frames, Frame.Plain x) : frames.count f = 0 :=
  List.count_eq_zero_of_not_mem fun hmem => hf (h f hmem)

/-- A `SenderChannel` loses its channel. -/
def WebsocketHandler.cut : WebsocketHandler → WebsocketHandler
  | .sender senderId _ => .sender senderId none
  | .receiver channelId senders => .receiver channelId senders

/-- A session after `SenderChannel::close`. -/
def WebsocketSession.cut (w : WebsocketSession) : WebsocketSession :=
  ⟨false, true, w.handler.map WebsocketHandler.cut, w.sent⟩

@[simp] theorem WebsocketSession.cut_cut (w : WebsocketSession) : w.cut.cut = w.cut := by
  rw [cut, cut, Option.map_map]
  congr 2
  funext h
  cases h <;> rfl

namespace WebsocketServer
open Outcome

structure Agrees (s : WebsocketServer) : Prop where
  receivers : ∀ id n, (id, n) ∈ s.receivers_.entries ↔
    ∃ senders, s.handler n = some (.receiver id senders)
  unique : ∀ id n n' senders senders', s.handler n = some (.receiver id senders) →
    s.handler n' = some (.receiver id senders') → n = n'
  senders : ∀ r channelId senders id n, s.handler r = some (.receiver channelId senders) →
    (id, n) ∈ senders.entries → s.handler n = some (.sender id (some r))
  channels : ∀ n id r, s.handler n = some (.sender id (some r)) →
    ∃ channelId senders, s.handler r = some (.receiver channelId senders) ∧
      (id, n) ∈ senders.entries
  notices : ∀ r w channelId senders, s.sessions r = some w →
    w.handler = some (.receiver channelId senders) → w.Notices senders

/-- What every step keeps. A `SenderChannel` that has lost its channel was closed. -/
structure Linked (s : WebsocketServer) : Prop where
  receivers : ∀ id n, (id, n) ∈ s.receivers_.entries ↔
    ∃ senders, s.handler n = some (.receiver id senders)
  senders : ∀ r channelId senders id n, s.handler r = some (.receiver channelId senders) →
    (id, n) ∈ senders.entries → s.handler n = some (.sender id (some r))
  channels : ∀ n id r, s.handler n = some (.sender id (some r)) →
    ∃ channelId senders, s.handler r = some (.receiver channelId senders) ∧
      (id, n) ∈ senders.entries
  notices : ∀ r w channelId senders, s.sessions r = some w →
    w.handler = some (.receiver channelId senders) → w.Notices senders
  fresh : ∀ n, s.nextSession ≤ n → s.sessions n = none
  lost : ∀ n w id, s.sessions n = some w → w.handler = some (.sender id none) →
    w.closeCalled = true
  ids : ∀ n id channel, s.handler n = some (.sender id channel) → ∀ c ∈ id, isIdChar c = true

variable {s s' : WebsocketServer} {i n r : Nat} {w : WebsocketSession} {id channelId : Bytes}
  {senders : StdMap Bytes Nat}

theorem Linked.agrees (h : Linked s) : Agrees s where
  receivers := h.receivers
  unique id n n' x y hn hn' :=
    congrArg Prod.snd (StdMap.eq_of_key_eq ((h.receivers id n).mpr ⟨x, hn⟩)
      ((h.receivers id n').mpr ⟨y, hn'⟩) rfl)
  senders := h.senders
  channels := h.channels
  notices := h.notices

/-! ### Sessions -/

theorem derefSession_eq (h : s.sessions i = some w) : s.derefSession i = .ok w := by
  rw [derefSession, h]

theorem handler_iff {h : WebsocketHandler} :
    s.handler i = some h ↔ ∃ w, s.sessions i = some w ∧ w.handler = some h :=
  Option.bind_eq_some_iff

theorem sender_ne_receiver {channel : Option Nat} (hs : s.handler i = some (.sender id channel))
    (hr : s.handler r = some (.receiver channelId senders)) : i ≠ r := by
  rintro rfl
  rw [hr] at hs
  cases hs

@[simp] theorem sessions_setSession (s : WebsocketServer) (i : Nat)
    (w : Option WebsocketSession) :
    (s.setSession i w).sessions = Function.update s.sessions i w := rfl

@[simp] theorem handler_setSession (s : WebsocketServer) (i : Nat) (w : Option WebsocketSession) :
    (s.setSession i w).handler = Function.update s.handler i (w.bind (·.handler)) := by
  funext j
  rw [handler, sessions_setSession, Function.update_apply, Function.update_apply]
  split
  · rfl
  · rfl

theorem setHandler_eq (h : s.sessions i = some w) (x : WebsocketHandler) :
    s.setHandler i x = .ok (s.setSession i (some { w with handler := some x })) := by
  rw [setHandler, derefSession_eq h]
  rfl

theorem derefReceiver_eq (h : s.handler r = some (.receiver channelId senders)) :
    s.derefReceiver r = .ok (channelId, senders) := by
  rw [derefReceiver, h]

theorem derefSender_eq {channel : Option Nat} (h : s.handler n = some (.sender id channel)) :
    s.derefSender n = .ok (id, channel) := by
  rw [derefSender, h]

theorem close_ends (h : s.sessions i = some w) :
    Outcome.Ends (s.close i) (· = .thrown) fun s' =>
      s' = s.setSession i (some { w with isOpen := false, closeCalled := true }) := by
  rw [close, derefSession_eq h, ok_bind]
  split
  · exact .ok rfl
  · exact .error rfl

/-- The id of a sender has no NUL. -/
theorem Linked.zero_notMem {channel : Option Nat} (h : Linked s)
    (hn : s.handler n = some (.sender id channel)) : 0 ∉ id := by
  intro hzero
  have hchar := h.ids n id channel hn 0 hzero
  exact absurd hchar (by decide)

/-- The id of a sender does not name all of them. -/
theorem Linked.ne_broadcast {channel : Option Nat} (h : Linked s)
    (hn : s.handler n = some (.sender id channel)) : id ≠ str "*:*" := by
  rintro rfl
  have hchar := h.ids n (str "*:*") channel hn 42 (by decide)
  exact absurd hchar (by decide)

/-! ### What is handed to the sessions -/

/-- To each session what `frames` tells. -/
def hand (s : WebsocketServer) (frames : Nat → List Frame) : WebsocketServer :=
  { s with sessions := fun i => (s.sessions i).map fun w => { w with sent := w.sent ++ frames i } }

@[simp] theorem sessions_hand (s : WebsocketServer) (frames : Nat → List Frame) (i : Nat) :
    (s.hand frames).sessions i =
      (s.sessions i).map fun w => { w with sent := w.sent ++ frames i } := rfl

@[simp] theorem handler_hand (s : WebsocketServer) (frames : Nat → List Frame) :
    (s.hand frames).handler = s.handler := by
  funext i
  rw [handler, handler, sessions_hand, Option.bind_map]
  rfl

theorem hand_hand (s : WebsocketServer) (f g : Nat → List Frame) :
    (s.hand f).hand g = s.hand fun i => f i ++ g i := by
  simp only [hand, Option.map_map, Function.comp_def, List.append_assoc]

theorem hand_nil (s : WebsocketServer) : (s.hand fun _ => []) = s := by
  simp only [hand, List.append_nil]
  simp

theorem send_eq (h : s.sessions i = some w) (f : Frame) :
    s.send i f = .ok (s.hand fun j => if j = i then [f] else []) := by
  rw [send, derefSession_eq h, ok_bind]
  congr 1
  simp only [setSession, hand]
  congr 1
  funext j
  by_cases hj : j = i
  · subst hj
    rw [Function.update_self, h, if_pos rfl]
    rfl
  · rw [Function.update_of_ne hj, if_neg hj]
    simp

/-! ### What keeps the links -/

def Loose (h : Option WebsocketHandler) : Prop := h = none ∨ ∃ id, h = some (.sender id none)

@[simp] theorem handler_start (n : Nat) : start.handler n = none := rfl

theorem Linked.start : Linked start where
  receivers id n := by simp [WebsocketServer.start, StdMap.empty, handler]
  senders _ _ _ _ _ h := by simp at h
  channels _ _ _ h := by simp at h
  notices _ _ _ _ h := by cases h
  fresh _ _ := rfl
  lost _ _ _ h := by cases h
  ids _ _ _ h := by simp at h

theorem Linked.bound (h : Linked s) (hw : s.sessions i = some w) : i < s.nextSession := by
  by_contra hi
  rw [h.fresh i (not_lt.mp hi)] at hw
  cases hw

/-- A session with a loose handler is deleted, or it has none any more. -/
theorem Linked.set_loose (h : Linked s) (hi : i < s.nextSession) (hold : Loose (s.handler i))
    {w : Option WebsocketSession} (hnew : w.bind (·.handler) = none) :
    Linked (s.setSession i w) := by
  have hsi : (s.setSession i w).handler i = none := by
    rw [handler_setSession, Function.update_self]
    exact hnew
  have hother (n : Nat) (hn : n ≠ i) : (s.setSession i w).handler n = s.handler n := by
    rw [handler_setSession, Function.update_of_ne hn]
  have hsame (n : Nat) (x : WebsocketHandler) (hx : ¬ Loose (some x)) :
      (s.setSession i w).handler n = some x ↔ s.handler n = some x := by
    by_cases hn : n = i
    · subst hn
      rw [hsi]
      exact iff_of_false (Option.some_ne_none x).symm fun heq => hx (heq ▸ hold)
    · rw [hother n hn]
  have hback {n : Nat} {w' : WebsocketSession} {x : WebsocketHandler}
      (hw' : (s.setSession i w).sessions n = some w') (hx : w'.handler = some x) :
      s.sessions n = some w' := by
    rw [sessions_setSession, Function.update_apply] at hw'
    split at hw'
    · rw [hw', Option.bind_some, hx] at hnew
      cases hnew
    · exact hw'
  have hreceiver (id : Bytes) (senders : StdMap Bytes Nat) :
      ¬ Loose (some (.receiver id senders)) := by
    simp [Loose]
  have hsender (id : Bytes) (r : Nat) : ¬ Loose (some (.sender id (some r))) := by
    simp [Loose]
  refine ⟨fun id n => ?_, fun r c x id n => ?_, fun n id r => ?_, fun r w' c x hw' hx => ?_,
    fun n hn => ?_, fun n w' id hw' hx => ?_, fun n id channel hn => ?_⟩
  · simp only [hsame _ _ (hreceiver _ _)]
    exact h.receivers id n
  · simp only [hsame _ _ (hreceiver _ _), hsame _ _ (hsender _ _)]
    exact h.senders r c x id n
  · simp only [hsame _ _ (hreceiver _ _), hsame _ _ (hsender _ _)]
    exact h.channels n id r
  · exact h.notices r w' c x (hback hw' hx) hx
  · rw [sessions_setSession, Function.update_of_ne (by change s.nextSession ≤ n at hn; omega)]
    exact h.fresh n hn
  · exact h.lost n w' id (hback hw' hx) hx
  · obtain ⟨w', hw', hx⟩ := handler_iff.mp hn
    exact h.ids n id channel (handler_iff.mpr ⟨w', hback hw' hx, hx⟩)

/-- The sessions are changed, but not their handlers, and no notice is sent. -/
theorem Linked.change (h : Linked s) {f : Nat → WebsocketSession → WebsocketSession}
    (hhandler : ∀ n w, (f n w).handler = w.handler)
    (hclose : ∀ n w, (f n w).closeCalled = w.closeCalled)
    (hcount : ∀ n w x, ¬ Frame.Plain x → (f n w).sent.count x = w.sent.count x) :
    Linked { s with sessions := fun n => (s.sessions n).map (f n) } := by
  set s' : WebsocketServer := { s with sessions := fun n => (s.sessions n).map (f n) }
  have hsame : s'.handler = s.handler := by
    funext n
    refine (Option.bind_map ..).trans ?_
    simp only [Function.comp_def, hhandler]
    rfl
  refine ⟨fun id n => ?_, fun r c x id n => ?_, fun n id r => ?_,
    fun r w' c x hw' hx => ?_, fun n hn => ?_, fun n w' id hw' hx => ?_, fun n id channel => ?_⟩
  · rw [hsame]
    exact h.receivers id n
  · rw [hsame]
    exact h.senders r c x id n
  · rw [hsame]
    exact h.channels n id r
  · obtain ⟨w, hw, rfl⟩ := Option.map_eq_some_iff.mp hw'
    intro id
    rw [hcount r w (.senderConnected id) not_false, hcount r w (.senderDisconnected id) not_false]
    exact h.notices r w c x hw ((hhandler r w).symm.trans hx) id
  · exact Option.map_eq_none_iff.mpr (h.fresh n hn)
  · obtain ⟨w, hw, rfl⟩ := Option.map_eq_some_iff.mp hw'
    rw [hclose]
    exact h.lost n w id hw ((hhandler n w).symm.trans hx)
  · rw [hsame]
    exact h.ids n id channel

theorem Linked.hand_plain (h : Linked s) {frames : Nat → List Frame}
    (hframes : ∀ n, ∀ f ∈ frames n, f.Plain) : Linked (s.hand frames) := by
  refine h.change (fun _ _ => rfl) (fun _ _ => rfl) fun n w x hx => ?_
  rw [List.count_append, count_plain hx (hframes n), Nat.add_zero]

/-- The other end starts to close. -/
theorem Linked.closing (h : Linked s) (n : Nat) : Linked (s.setSession n
    ((s.sessions n).map fun w => { w with isOpen := false })) := by
  have hset : s.setSession n ((s.sessions n).map fun w => { w with isOpen := false }) =
      { s with sessions := fun m => (s.sessions m).map fun w =>
        { w with isOpen := if m = n then false else w.isOpen } } := by
    simp only [setSession]
    congr 1
    funext m
    by_cases hm : m = n
    · subst hm
      simp
    · simp [hm]
  rw [hset]
  exact h.change (fun _ _ => rfl) (fun _ _ => rfl) fun _ _ _ _ => rfl

/-- A handler that no other refers to, or that of a sender of `r`. -/
def LooseBut (r : Nat) (h : Option WebsocketHandler) : Prop :=
  Loose h ∨ ∃ id, h = some (.sender id (some r))

theorem LooseBut.not_receiver {x : Option WebsocketHandler} (h : LooseBut r x) :
    x ≠ some (.receiver channelId senders) := by
  rintro rfl
  simp [LooseBut, Loose] at h

theorem LooseBut.channel_eq {x : Option WebsocketHandler} {r' : Nat} (h : LooseBut r x)
    (hx : x = some (.sender id (some r'))) : r' = r := by
  subst hx
  simpa [LooseBut, Loose] using h

/-- After two sessions changed, a session is one of these or as it was. -/
theorem sessions_pair {w' u : WebsocketSession} {v : Option WebsocketSession}
    (h : ((s.setSession r (some w')).setSession i v).sessions n = some u) :
    v = some u ∨ w' = u ∨ s.sessions n = some u := by
  rw [sessions_setSession, Function.update_apply] at h
  split at h
  · exact .inl h
  · rw [sessions_setSession, Function.update_apply] at h
    split at h
    · exact .inr (.inl (Option.some.inj h))
    · exact .inr (.inr h)

/-- The session `i` is changed, and the table of `r` to what it is then. -/
theorem Linked.relink {w' : WebsocketSession} {v : Option WebsocketSession}
    {senders' : StdMap Bytes Nat} (h : Linked s)
    (hr : s.handler r = some (.receiver channelId senders)) (hi : i < s.nextSession)
    (hold : LooseBut r (s.handler i)) (hnew : LooseBut r (v.bind (·.handler)))
    (hlost : ∀ w, v = some w → ∀ id, w.handler = some (.sender id none) → w.closeCalled = true)
    (hids : ∀ id channel, v.bind (·.handler) = some (.sender id channel) →
      ∀ c ∈ id, isIdChar c = true)
    (hw' : w'.handler = some (.receiver channelId senders')) (hnotices : w'.Notices senders')
    (hentries : ∀ id n, (id, n) ∈ senders'.entries ↔
      if n = i then v.bind (·.handler) = some (.sender id (some r)) else (id, n) ∈ senders.entries) :
    Linked ((s.setSession r (some w')).setSession i v) := by
  have hri : r ≠ i := by
    rintro rfl
    exact hold.not_receiver hr
  have hsi : ((s.setSession r (some w')).setSession i v).handler i = v.bind (·.handler) := by
    rw [handler_setSession, Function.update_self]
  have hsr : ((s.setSession r (some w')).setSession i v).handler r =
      some (.receiver channelId senders') := by
    rw [handler_setSession, Function.update_of_ne hri, handler_setSession, Function.update_self]
    exact hw'
  have hother (n : Nat) (hni : n ≠ i) (hnr : n ≠ r) :
      ((s.setSession r (some w')).setSession i v).handler n = s.handler n := by
    rw [handler_setSession, Function.update_of_ne hni, handler_setSession,
      Function.update_of_ne hnr]
  have hsenders (id : Bytes) (n : Nat) (hn : (id, n) ∈ senders.entries) :
      n ≠ r ∧ s.handler n = some (.sender id (some r)) := by
    have hs := h.senders r channelId senders id n hr hn
    exact ⟨sender_ne_receiver hs hr, hs⟩
  refine ⟨fun id n => ?_, fun r' c x id n hx hn => ?_, fun n id r' hn => ?_,
    fun r' w'' c x hw'' hx => ?_, fun n hn => ?_, fun n w'' id hw'' hx => ?_,
    fun n id channel hn => ?_⟩
  · refine (h.receivers id n).trans ?_
    by_cases hni : n = i
    · subst hni
      rw [hsi]
      exact ⟨fun ⟨x, hx⟩ => absurd hx hold.not_receiver, fun ⟨x, hx⟩ => absurd hx hnew.not_receiver⟩
    · by_cases hnr : n = r
      · subst hnr
        rw [hsr, hr]
        simp
      · rw [hother n hni hnr]
  · have hr'i : r' ≠ i := by
      rintro rfl
      exact hnew.not_receiver (hsi ▸ hx)
    by_cases hr'r : r' = r
    · subst hr'r
      rw [hsr] at hx
      cases hx
      by_cases hni : n = i
      · subst hni
        rw [hsi]
        simpa using (hentries id n).mp hn
      · obtain ⟨hnr, hs⟩ := hsenders id n (by simpa [hni] using (hentries id n).mp hn)
        rw [hother n hni hnr, hs]
    · rw [hother r' hr'i hr'r] at hx
      have hs := h.senders r' c x id n hx hn
      rw [hother n ?_ (sender_ne_receiver hs hr), hs]
      rintro rfl
      exact hr'r (hold.channel_eq hs)
  · by_cases hni : n = i
    · subst hni
      rw [hsi] at hn
      obtain rfl := hnew.channel_eq hn
      exact ⟨channelId, senders', hsr, (hentries id n).mpr (by simpa using hn)⟩
    · have hnr : n ≠ r := by
        rintro rfl
        rw [hsr] at hn
        cases hn
      rw [hother n hni hnr] at hn
      obtain ⟨c, x, hx, hmem⟩ := h.channels n id r' hn
      by_cases hr'r : r' = r
      · subst hr'r
        rw [hr] at hx
        cases hx
        exact ⟨channelId, senders', hsr, (hentries id n).mpr (by simpa [hni] using hmem)⟩
      · refine ⟨c, x, (hother r' ?_ hr'r).trans hx, hmem⟩
        rintro rfl
        exact hold.not_receiver hx
  · obtain rfl | rfl | hs := sessions_pair hw''
    · exact absurd hx hnew.not_receiver
    · rw [hw'] at hx
      cases hx
      exact hnotices
    · exact h.notices r' w'' c x hs hx
  · change s.nextSession ≤ n at hn
    obtain ⟨w, hw, -⟩ := handler_iff.mp hr
    have hr := h.bound hw
    rw [sessions_setSession, Function.update_of_ne (by omega), sessions_setSession,
      Function.update_of_ne (by omega)]
    exact h.fresh n hn
  · obtain hv | rfl | hs := sessions_pair hw''
    · exact hlost w'' hv id hx
    · rw [hw'] at hx
      cases hx
    · exact h.lost n w'' id hs hx
  · by_cases hni : n = i
    · subst hni
      exact hids id channel (hsi ▸ hn)
    · by_cases hnr : n = r
      · subst hnr
        rw [hsr] at hn
        cases hn
      · exact h.ids n id channel (hother n hni hnr ▸ hn)

/-- A session without a handler becomes that of a receiver. -/
theorem Linked.add_receiver (h : Linked s) (hw : s.sessions i = some w) (hfree : w.handler = none)
    (hsent : w.sent = []) (hnew : s.receivers_.scan (channelId = ·) = none) :
    Linked { s.setSession i (some { w with handler := some (.receiver channelId StdMap.empty) }) with
      receivers_ := s.receivers_.insert channelId i } := by
  set s' : WebsocketServer := { s.setSession i
    (some { w with handler := some (.receiver channelId StdMap.empty) }) with
      receivers_ := s.receivers_.insert channelId i }
  have hi : s.handler i = none := by
    rw [handler, hw, Option.bind_some, hfree]
  have hsi : s'.handler i = some (.receiver channelId StdMap.empty) := by
    refine (congrFun (handler_setSession s i _) i).trans ?_
    rw [Function.update_self]
    rfl
  have hother (n : Nat) (hn : n ≠ i) : s'.handler n = s.handler n := by
    refine (congrFun (handler_setSession s i _) n).trans ?_
    rw [Function.update_of_ne hn]
  have hself : s'.sessions i =
      some { w with handler := some (.receiver channelId StdMap.empty) } :=
    Function.update_self ..
  have hsessions (n : Nat) (hn : n ≠ i) : s'.sessions n = s.sessions n :=
    Function.update_of_ne hn _ _
  have hmem (id : Bytes) (n : Nat) :=
    StdMap.mem_insert_new (k := channelId) (v := i) (e := (id, n)) hnew (by simp)
  have hne {n : Nat} {x : WebsocketHandler} (hn : s.handler n = some x) : n ≠ i := by
    rintro rfl
    rw [hi] at hn
    cases hn
  refine ⟨fun id n => ?_, fun r c x id n hx hn => ?_, fun n id r hn => ?_,
    fun r w' c x hw' hx => ?_, fun n hn => ?_, fun n w' id hw' hx => ?_,
    fun n id channel hn => ?_⟩
  · refine (hmem id n).trans ?_
    by_cases hn : n = i
    · subst hn
      rw [hsi, h.receivers]
      simp [hi, eq_comm]
    · rw [hother n hn, ← h.receivers]
      simp [hn]
  · by_cases hri : r = i
    · subst hri
      rw [hsi] at hx
      cases hx
      cases hn
    · rw [hother r hri] at hx
      have hs := h.senders r c x id n hx hn
      rw [hother n (hne hs), hs]
  · by_cases hni : n = i
    · subst hni
      rw [hsi] at hn
      cases hn
    · rw [hother n hni] at hn
      obtain ⟨c, x, hx, hmem⟩ := h.channels n id r hn
      exact ⟨c, x, (hother r (hne hx)).trans hx, hmem⟩
  · by_cases hri : r = i
    · subst hri
      rw [hself] at hw'
      cases hw'
      cases hx
      intro id
      simp [hsent, StdMap.keys, StdMap.empty]
    · exact h.notices r w' c x (hsessions r hri ▸ hw') hx
  · change s.nextSession ≤ n at hn
    have hin := h.bound hw
    rw [hsessions n (by omega), h.fresh n hn]
  · by_cases hni : n = i
    · subst hni
      rw [hself] at hw'
      cases hw'
      cases hx
    · exact h.lost n w' id (hsessions n hni ▸ hw') hx
  · by_cases hni : n = i
    · subst hni
      rw [hsi] at hn
      cases hn
    · exact h.ids n id channel (hother n hni ▸ hn)

/-! ### The close of a receiver -/

/-- The sessions `ns` are closed, and their senders lose their channel. -/
def cutAll (s : WebsocketServer) (ns : List Nat) : WebsocketServer :=
  { s with sessions := fun n => if n ∈ ns then (s.sessions n).map WebsocketSession.cut
      else s.sessions n }

theorem handler_cutAll (s : WebsocketServer) (ns : List Nat) (n : Nat) :
    (s.cutAll ns).handler n =
      if n ∈ ns then (s.handler n).map WebsocketHandler.cut else s.handler n := by
  rw [handler, cutAll]
  dsimp only
  split
  · rw [Option.bind_map, handler, Option.map_bind]
    rfl
  · rfl

theorem closeSender_ends {channel : Option Nat} (h : s.handler n = some (.sender id channel)) :
    Outcome.Ends (s.closeSender n) (· = .thrown) (· = s.cutAll [n]) := by
  obtain ⟨w, hw, hx⟩ := handler_iff.mp h
  have hset : s.setHandler n (.sender id none) =
      .ok (s.setSession n (some { w with handler := some (.sender id none) })) :=
    setHandler_eq hw _
  rw [closeSender, derefSender_eq h, ok_bind]
  dsimp only
  rw [hset, ok_bind]
  refine (close_ends (Function.update_self ..)).mono (fun _ hf => hf) fun s' hs' => ?_
  subst hs'
  simp only [setSession, Function.update_idem, cutAll]
  congr 1
  funext m
  by_cases hm : m = n
  · subst hm
    rw [Function.update_self, if_pos (List.mem_singleton_self m), hw, Option.map_some,
      WebsocketSession.cut, hx]
    rfl
  · rw [Function.update_of_ne hm, if_neg (by simpa using hm)]

theorem cutAll_cutAll (s : WebsocketServer) (ns ms : List Nat) :
    (s.cutAll ns).cutAll ms = s.cutAll (ns ++ ms) := by
  simp only [cutAll, List.mem_append]
  congr 1
  funext n
  by_cases hn : n ∈ ns <;> by_cases hm : n ∈ ms <;> simp [hn, hm, Function.comp_def]

theorem closeSenders_ends {es : List (Bytes × Nat)}
    (h : ∀ e ∈ es, ∃ id channel, s.handler e.2 = some (.sender id channel)) :
    Outcome.Ends (es.foldlM (fun s e => s.closeSender e.2) s) (· = .thrown)
      (· = s.cutAll (es.map (·.2))) := by
  induction es generalizing s with
  | nil =>
    refine .ok ?_
    simp [cutAll]
  | cons e es ih =>
    obtain ⟨⟨id, channel, he⟩, hes⟩ := List.forall_mem_cons.mp h
    rw [List.foldlM_cons]
    refine (closeSender_ends he).bind fun s₁ _ hs₁ => ?_
    subst hs₁
    refine (ih fun e' he' => ?_).mono (fun _ hf => hf) fun s' hs' => ?_
    · obtain ⟨id, channel, he'⟩ := hes e' he'
      rw [handler_cutAll, he']
      split
      · exact ⟨id, none, rfl⟩
      · exact ⟨id, channel, rfl⟩
    · rw [hs', cutAll_cutAll]
      rfl

def sessionsOf (senders : StdMap Bytes Nat) : List Nat := senders.entries.map (·.2)

theorem Linked.mem_sessionsOf (h : Linked s)
    (hr : s.handler r = some (.receiver channelId senders)) :
    n ∈ sessionsOf senders ↔ ∃ id, s.handler n = some (.sender id (some r)) := by
  constructor
  · intro hn
    obtain ⟨⟨id, m⟩, hmem, rfl⟩ := List.mem_map.mp hn
    exact ⟨id, h.senders r channelId senders id m hr hmem⟩
  · rintro ⟨id, hn⟩
    obtain ⟨c, x, hx, hmem⟩ := h.channels n id r hn
    rw [hr] at hx
    cases hx
    exact List.mem_map.mpr ⟨_, hmem, rfl⟩

/-- A receiver is gone, and its senders are closed. -/
theorem Linked.remove_receiver (h : Linked s)
    (hr : s.handler r = some (.receiver channelId senders)) :
    Linked (((s.cutAll (sessionsOf senders)).removeReceiverChannel channelId).setSession r none) := by
  set s' := ((s.cutAll (sessionsOf senders)).removeReceiverChannel channelId).setSession r none
  have hsessions (n : Nat) : s'.sessions n =
      if n = r then none
      else if n ∈ sessionsOf senders then (s.sessions n).map WebsocketSession.cut
      else s.sessions n :=
    Function.update_apply ..
  have hhandler (n : Nat) : s'.handler n =
      if n = r then none
      else if n ∈ sessionsOf senders then (s.handler n).map WebsocketHandler.cut
      else s.handler n := by
    rw [← handler_cutAll]
    refine (congrFun (handler_setSession _ r none) n).trans (Function.update_apply ..)
  have hsame (n : Nat) (x : WebsocketHandler) (hx : ¬ Loose (some x)) :
      s'.handler n = some x ↔ n ≠ r ∧ n ∉ sessionsOf senders ∧ s.handler n = some x := by
    rw [hhandler]
    split
    · simp [*]
    · split
      · rename_i hmem
        obtain ⟨id, hn⟩ := (h.mem_sessionsOf hr).mp hmem
        rw [hn]
        refine iff_of_false ?_ (by simp [hmem])
        rintro hcut
        cases hcut
        exact hx (.inr ⟨id, rfl⟩)
      · simp [*]
  have hreceiver (id : Bytes) (x : StdMap Bytes Nat) : ¬ Loose (some (.receiver id x)) := by
    simp [Loose]
  have hsender (id : Bytes) (r : Nat) : ¬ Loose (some (.sender id (some r))) := by
    simp [Loose]
  have hscan : s.receivers_.scan (channelId = ·) = some (channelId, r) :=
    StdMap.scan_key.mpr ((h.receivers channelId r).mpr ⟨senders, hr⟩)
  have hnot {n : Nat} {c : Bytes} {x : StdMap Bytes Nat}
      (hn : s.handler n = some (.receiver c x)) : n ∉ sessionsOf senders := by
    intro hmem
    obtain ⟨id, hn'⟩ := (h.mem_sessionsOf hr).mp hmem
    rw [hn] at hn'
    cases hn'
  refine ⟨fun id n => ?_, fun r' c x id n hx hn => ?_, fun n id r' hn => ?_,
    fun r' w' c x hw' hx => ?_, fun n hn => ?_, fun n w' id hw' hx => ?_,
    fun n id channel hn => ?_⟩
  · refine (StdMap.mem_eraseFirst_iff hscan).trans ?_
    simp only [hsame _ _ (hreceiver _ _), h.receivers]
    constructor
    · rintro ⟨⟨x, hx⟩, hne⟩
      refine ⟨x, ?_, hnot hx, hx⟩
      rintro rfl
      rw [hr] at hx
      cases hx
      exact hne rfl
    · rintro ⟨x, hne, -, hx⟩
      exact ⟨⟨x, hx⟩, fun heq => hne (congrArg Prod.snd heq)⟩
  · obtain ⟨hne, -, hx⟩ := (hsame _ _ (hreceiver c x)).mp hx
    have hs := h.senders r' c x id n hx hn
    refine (hsame _ _ (hsender id r')).mpr ⟨sender_ne_receiver hs hr, fun hmem => ?_, hs⟩
    obtain ⟨id', hs'⟩ := (h.mem_sessionsOf hr).mp hmem
    rw [hs] at hs'
    cases hs'
    exact hne rfl
  · obtain ⟨-, hmem, hold⟩ := (hsame _ _ (hsender id r')).mp hn
    obtain ⟨c, x, hx, hin⟩ := h.channels n id r' hold
    refine ⟨c, x, (hsame _ _ (hreceiver c x)).mpr ⟨?_, hnot hx, hx⟩, hin⟩
    rintro rfl
    exact hmem ((h.mem_sessionsOf hr).mpr ⟨id, hold⟩)
  · have hold := (hsame r' _ (hreceiver c x)).mp (handler_iff.mpr ⟨w', hw', hx⟩)
    rw [hsessions, if_neg hold.1, if_neg hold.2.1] at hw'
    exact h.notices r' w' c x hw' hx
  · have hnone := h.fresh n hn
    rw [hsessions, hnone]
    simp
  · rw [hsessions] at hw'
    split_ifs at hw'
    · obtain ⟨w, -, rfl⟩ := Option.map_eq_some_iff.mp hw'
      rfl
    · exact h.lost n w' id hw' hx
  · rw [hhandler] at hn
    split_ifs at hn with hnr hmem
    · obtain ⟨id', hold⟩ := (h.mem_sessionsOf hr).mp hmem
      rw [hold] at hn
      cases hn
      exact h.ids n _ (some r) hold
    · exact h.ids n id channel hn

end WebsocketServer
end Flingd.Ws
