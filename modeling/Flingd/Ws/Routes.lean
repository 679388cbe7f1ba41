import Flingd.Ws.Links

/-! Where the messages of senders and receivers go, and what every run of the server keeps. -/
namespace Flingd.Ws.WebsocketServer
open Outcome
variable {json : Rapidjson} {s s' : WebsocketServer} {i n r : Nat} {w : WebsocketSession}
  {id channelId msg text : Bytes} {senders : StdMap Bytes Nat}

/-! ### Messages of receivers -/

def Named (senders : StdMap Bytes Nat) (senderId : Bytes) (n : Nat) : Prop :=
  ∃ e ∈ senders.entries, e.2 = n ∧ (senderId = str "*:*" ∨ e.1 = senderId)

instance (senders : StdMap Bytes Nat) (senderId : Bytes) (n : Nat) :
    Decidable (Named senders senderId n) :=
  inferInstanceAs (Decidable (∃ e ∈ senders.entries, _))

def deliveries (senders : StdMap Bytes Nat) (senderId text : Bytes) (n : Nat) : List Frame :=
  if Named senders senderId n then [.data text] else []

theorem sendToSender_eq {channel : Option Nat} (h : s.handler n = some (.sender id channel))
    (f : Frame) : s.sendToSender n f = .ok (s.hand fun j => if j = n then [f] else []) := by
  obtain ⟨w, hw, -⟩ := handler_iff.mp h
  rw [sendToSender, derefSender_eq h, ok_bind, send_eq hw]

/-- A broadcast reaches each of the sessions once. -/
theorem sendAll_eq {es : List (Bytes × Nat)} {data : Json Bytes}
    (hes : ∀ e ∈ es, ∃ id channel, s.handler e.2 = some (.sender id channel))
    (hnodup : (es.map (·.2)).Nodup) (htext : data.getString = some text) :
    es.foldlM (fun s e => s.sendData e.2 data) s =
      .ok (s.hand fun j => if j ∈ es.map (·.2) then [.data text] else []) := by
  induction es generalizing s with
  | nil =>
    simp only [List.map_nil, List.not_mem_nil, if_false, hand_nil]
    rfl
  | cons e es ih =>
    obtain ⟨⟨id, channel, he⟩, hes⟩ := List.forall_mem_cons.mp hes
    obtain ⟨hnot, hnodup⟩ := List.nodup_cons.mp hnodup
    have hfirst : s.sendData e.2 data =
        .ok (s.hand fun j => if j = e.2 then [.data text] else []) := by
      rw [sendData, htext]
      exact sendToSender_eq he _
    rw [List.foldlM_cons, hfirst, ok_bind, ih (by simpa using hes) hnodup, hand_hand]
    congr 2
    funext j
    rw [List.map_cons]
    by_cases hj : j = e.2
    · subst hj
      rw [if_pos rfl, if_neg hnot, if_pos List.mem_cons_self]
      rfl
    · simp only [List.mem_cons, hj, false_or, if_false, List.nil_append]

theorem Linked.nodup_sessionsOf (h : Linked s)
    (hr : s.handler r = some (.receiver channelId senders)) : (sessionsOf senders).Nodup := by
  refine List.pairwise_map.mpr (senders.sorted.imp_of_mem fun {e e'} he he' hlt heq => ?_)
  have hs := h.senders r channelId senders e.1 e.2 hr he
  rw [heq, h.senders r channelId senders e'.1 e'.2 hr he'] at hs
  exact absurd (WebsocketHandler.sender.inj (Option.some.inj hs)).1.symm (ne_of_lt hlt)

theorem Linked.live_sender (h : Linked s)
    (hr : s.handler r = some (.receiver channelId senders)) :
    ∀ e ∈ senders.entries, ∃ id channel, s.handler e.2 = some (.sender id channel) :=
  fun e he => ⟨e.1, some r, h.senders r channelId senders e.1 e.2 hr he⟩

theorem getSenderChannel_eq_some :
    getSenderChannel senders id = some n ↔ (id, n) ∈ senders.entries := by
  rw [getSenderChannel, Option.map_eq_some_iff]
  constructor
  · rintro ⟨e, he, rfl⟩
    obtain ⟨hmem, hkey⟩ := StdMap.scan_some he
    rw [of_decide_eq_true hkey]
    exact hmem
  · exact fun h => ⟨_, StdMap.scan_key.mpr h, rfl⟩

theorem getSenderChannel_eq_none :
    getSenderChannel senders id = none ↔ id ∉ senders.keys := by
  rw [getSenderChannel, Option.map_eq_none_iff, ← StdMap.scan_isSome, Option.not_isSome_iff_eq_none]

/-- A message of the form that is expected reaches the senders it names. -/
theorem onReceiverMessage_eq (h : Linked s) (hr : s.handler r = some (.receiver channelId senders))
    {members : List (Bytes × Json Bytes)} (hparse : json.parse msg = some (.object members))
    (hid : (Json.get members (str "senderId")).getString = some id)
    (htext : (Json.get members (str "data")).getString = some text) :
    s.onReceiverMessage json senders msg = .ok (s.hand (deliveries senders id text)) := by
  rw [onReceiverMessage, hparse]
  dsimp only
  rw [hid]
  dsimp only
  split
  · rename_i hall
    rw [sendAll_eq (h.live_sender hr) (h.nodup_sessionsOf hr) htext]
    congr 2
    funext j
    simp only [deliveries, Named, hall, true_or, and_true, List.mem_map]
  · rename_i hone
    cases hfind : getSenderChannel senders id with
    | none =>
      have hnot : ∀ j, ¬ Named senders id j := by
        rintro j ⟨e, he, -, hall | rfl⟩
        · exact hone hall
        · exact getSenderChannel_eq_none.mp hfind (List.mem_map.mpr ⟨e, he, rfl⟩)
      have hnone : deliveries senders id text = fun _ => [] := by
        funext j
        rw [deliveries, if_neg (hnot j)]
      rw [hnone, hand_nil]
    | some m =>
      have hmem := getSenderChannel_eq_some.mp hfind
      have hnamed (j : Nat) : Named senders id j ↔ j = m := by
        constructor
        · rintro ⟨e, he, rfl, hall | rfl⟩
          · exact absurd hall hone
          · exact congrArg Prod.snd (StdMap.eq_of_key_eq he hmem rfl)
        · rintro rfl
          exact ⟨_, hmem, rfl, .inr rfl⟩
      have hdata : s.sendData m (Json.get members (str "data")) =
          s.sendToSender m (.data text) := by
        rw [sendData, htext]
      refine hdata.trans ((sendToSender_eq (h.senders r channelId senders id m hr hmem) _).trans ?_)
      congr 2
      funext j
      simp only [deliveries, hnamed]

/-- Data that is no text is not read where nobody is named, and misused elsewhere. -/
theorem onReceiverMessage_other {members : List (Bytes × Json Bytes)}
    (hparse : json.parse msg = some (.object members))
    (hid : (Json.get members (str "senderId")).getString = some id)
    (htext : (Json.get members (str "data")).getString = none) :
    Outcome.Ends (s.onReceiverMessage json senders msg) (· = .misused) (· = s) := by
  have hmisused (m : Nat) : s.sendData m (Json.get members (str "data")) = .error .misused := by
    rw [sendData, htext]
  rw [onReceiverMessage, hparse]
  dsimp only
  rw [hid]
  dsimp only
  split
  · cases senders.entries with
    | nil => exact .ok rfl
    | cons e es =>
      rw [List.foldlM_cons, hmisused]
      exact .error rfl
  · split
    · exact .ok rfl
    · rw [hmisused]
      exact .error rfl

theorem plain_deliveries (senders : StdMap Bytes Nat) (id text : Bytes) :
    ∀ n, ∀ f ∈ deliveries senders id text n, f.Plain := by
  intro n f hf
  unfold deliveries at hf
  split at hf
  · cases List.mem_singleton.mp hf
    trivial
  · cases hf

theorem onReceiverMessage_ends (h : Linked s)
    (hr : s.handler r = some (.receiver channelId senders)) :
    Outcome.Ends (s.onReceiverMessage json senders msg) (· = .misused) Linked := by
  cases hparse : json.parse msg with
  | none =>
    rw [onReceiverMessage, hparse]
    exact .error rfl
  | some j =>
    cases j with
    | object members =>
      cases hid : (Json.get members (str "senderId")).getString with
      | none =>
        rw [onReceiverMessage, hparse]
        dsimp only
        rw [hid]
        exact .error rfl
      | some id =>
        cases htext : (Json.get members (str "data")).getString with
        | none =>
          exact (onReceiverMessage_other hparse hid htext).mono (fun _ hf => hf)
            fun s' hs' => hs' ▸ h
        | some text =>
          rw [onReceiverMessage_eq h hr hparse hid htext]
          exact .ok (h.hand_plain (plain_deliveries senders id text))
    | null | bool | number | string | array =>
      rw [onReceiverMessage, hparse]
      exact .error rfl

/-! ### Messages of senders -/

/-- The message of a sender reaches its channel. -/
theorem onSenderMessage_eq (h : Linked s) (hn : s.handler n = some (.sender id (some r))) :
    s.onSenderMessage id (some r) msg =
      .ok (s.hand fun j => if j = r then [.message id msg] else []) := by
  obtain ⟨c, x, hr, -⟩ := h.channels n id r hn
  obtain ⟨w, hw, -⟩ := handler_iff.mp hr
  rw [onSenderMessage, derefReceiver_eq hr, ok_bind, send_eq hw]

theorem onMessage_ends (h : Linked s)
    (hlost : ∀ id, s.handler n ≠ some (.sender id none)) :
    Outcome.Ends (s.onMessage json n msg) (· = .misused) Linked := by
  unfold onMessage
  split
  · exact .ok h
  · rename_i id channel hn
    cases channel with
    | none => exact absurd hn (hlost id)
    | some r =>
      rw [onSenderMessage_eq h hn]
      refine .ok (h.hand_plain fun j f hf => ?_)
      split at hf
      · cases List.mem_singleton.mp hf
        trivial
      · cases hf
  · exact onReceiverMessage_ends h ‹_›

/-! ### Sessions that close -/

theorem Linked.remove_loose (h : Linked s) (hold : Loose (s.handler n)) :
    Linked (s.setSession n none) := by
  cases hn : s.sessions n with
  | none =>
    have hsame : s.setSession n none = s := by
      rw [setSession, ← hn, Function.update_eq_self]
    rwa [hsame]
  | some w => exact h.set_loose (h.bound hn) hold rfl

theorem notices_insert (hw : w.Notices senders) (hnew : id ∉ senders.keys) (n : Nat) :
    WebsocketSession.Notices { w with sent := w.sent ++ [.senderConnected id] }
      (senders.insert id n) := by
  intro id'
  have hcount := hw id'
  simp only [List.count_append, List.count_singleton, StdMap.mem_keys_insert]
  by_cases hid : id' = id
  · subst hid
    simp [hnew] at hcount ⊢
    exact hcount
  · simpa [hid, Ne.symm hid] using hcount

theorem notices_erase (hw : w.Notices senders) (hmem : id ∈ senders.keys) :
    WebsocketSession.Notices { w with sent := w.sent ++ [.senderDisconnected id] }
      (senders.eraseFirst (id = ·)) := by
  intro id'
  have hcount := hw id'
  simp only [List.count_append, List.count_singleton, StdMap.mem_keys_eraseFirst]
  by_cases hid : id' = id
  · subst hid
    simp [hmem] at hcount ⊢
    omega
  · simpa [hid, Ne.symm hid] using hcount

theorem send_eq_set (hw : s.sessions r = some w) (f : Frame) :
    s.send r f = .ok (s.setSession r (some { w with sent := w.sent ++ [f] })) := by
  rw [send, derefSession_eq hw]
  rfl

theorem setSession_setSession (i : Nat) (w w' : Option WebsocketSession) :
    (s.setSession i w).setSession i w' = s.setSession i w' := by
  simp only [setSession, Function.update_idem]

theorem setSession_comm (hir : r ≠ i) (w w' : Option WebsocketSession) :
    (s.setSession i w).setSession r w' = (s.setSession r w').setSession i w := by
  simp only [setSession, Function.update_comm hir]

/-- `send` and then a new handler for the session. -/
theorem send_setHandler_eq (hw : s.sessions r = some w) (f : Frame) (x : WebsocketHandler) :
    (s.send r f >>= fun s => s.setHandler r x) =
      .ok (s.setSession r (some { w with handler := some x, sent := w.sent ++ [f] })) := by
  rw [send_eq_set hw, ok_bind, setHandler_eq (Function.update_self ..), setSession_setSession]

/-- The session of a sender is closed that has its channel. -/
theorem onSenderClose_linked (h : Linked s) (hn : s.handler n = some (.sender id (some r))) :
    ∃ s', s.onSenderClose id (some r) = .ok s' ∧ Linked (s'.setSession n none) := by
  obtain ⟨channelId, senders, hr, hmem⟩ := h.channels n id r hn
  obtain ⟨w, hw, hx⟩ := handler_iff.mp hr
  obtain ⟨wn, hwn, -⟩ := handler_iff.mp hn
  refine ⟨s.setSession r (some { w with
    handler := some (.receiver channelId (senders.eraseFirst (id = ·)))
    sent := w.sent ++ [.senderDisconnected id] }), ?_, ?_⟩
  · rw [onSenderClose, removeSenderChannel, derefReceiver_eq hr, ok_bind]
    dsimp only
    rw [getSenderChannel_eq_some.mpr hmem]
    exact send_setHandler_eq hw _ _
  · refine h.relink hr (h.bound hwn) (.inr ⟨id, hn⟩)
      (.inl (.inl rfl)) (fun _ hw => nomatch hw) (fun _ _ hw => nomatch hw) rfl
      (notices_erase (h.notices r w channelId senders hw hx) (List.mem_map.mpr ⟨_, hmem, rfl⟩)) ?_
    intro id' m
    rw [StdMap.mem_eraseFirst_iff (StdMap.scan_key.mpr hmem)]
    by_cases hm : m = n
    · subst hm
      simp only [if_true, Option.bind_none, reduceCtorEq, iff_false, not_and, not_not]
      intro hmem'
      have hs := h.senders r channelId senders id' m hr hmem'
      rw [hn] at hs
      cases hs
      rfl
    · simp [hm]

theorem onClose_ends (h : Linked s) :
    Outcome.Ends (s.onClose n) (· = .thrown) Linked := by
  unfold onClose
  split
  · exact .ok (h.remove_loose (.inl ‹_›))
  · rename_i id channel hn
    cases channel with
    | none => exact .ok (h.remove_loose (.inr ⟨id, hn⟩))
    | some r =>
      obtain ⟨s', hs', hlinked⟩ := onSenderClose_linked h hn
      rw [hs', ok_bind]
      exact .ok hlinked
  · rename_i channelId senders hn
    have hremoved : Outcome.Ends (s.onReceiverClose channelId senders) (· = .thrown)
        (· = (s.cutAll (sessionsOf senders)).removeReceiverChannel channelId) := by
      refine (closeSenders_ends (h.live_sender hn)).bind fun s' _ hs' => .ok ?_
      rw [hs']
      rfl
    refine hremoved.bind fun s' _ hs' => ?_
    subst hs'
    exact .ok (h.remove_receiver hn)

/-! ### Sessions that connect -/

theorem Linked.opened (h : Linked s) :
    Linked { s.setSession s.nextSession (some ⟨true, false, none, []⟩) with
      nextSession := s.nextSession + 1 } := by
  have hnext : Linked { s with nextSession := s.nextSession + 1 } :=
    ⟨h.receivers, h.senders, h.channels, h.notices, fun n hn => h.fresh n (Nat.le_of_succ_le hn),
      h.lost, h.ids⟩
  have hnone : s.handler s.nextSession = none := by
    rw [handler, h.fresh _ le_rfl]
    rfl
  exact hnext.set_loose (Nat.lt_succ_self _) (.inl hnone) rfl

theorem handler_free (hw : s.sessions i = some w) (hfree : w.handler = none) :
    s.handler i = none := by
  rw [handler, hw, Option.bind_some, hfree]

/-- The session is not wanted, and it is closed. -/
theorem close_refused (h : Linked s) (hw : s.sessions i = some w) (hfree : w.handler = none) :
    Outcome.Ends (s.close i) (· = .thrown) Linked := by
  refine (close_ends hw).mono (fun _ hf => hf) fun s' hs' => ?_
  subst hs'
  exact h.set_loose (h.bound hw) (.inl (handler_free hw hfree)) hfree

theorem addReceiverChannel_ends (h : Linked s) (hw : s.sessions i = some w)
    (hfree : w.handler = none) (hsent : w.sent = []) :
    Outcome.Ends (s.addReceiverChannel channelId i) (· = .thrown) Linked := by
  unfold addReceiverChannel
  split
  · rename_i hnone
    rw [setHandler_eq hw, ok_bind]
    exact .ok (h.add_receiver hw hfree hsent (Option.map_eq_none_iff.mp hnone))
  · exact close_refused h hw hfree

theorem addSenderChannel_ends (h : Linked s) (hw : s.sessions i = some w)
    (hfree : w.handler = none) (hr : s.handler r = some (.receiver channelId senders))
    (hid : ∀ c ∈ id, isIdChar c = true) :
    Outcome.Ends (s.addSenderChannel r id i) (· = .thrown) Linked := by
  rw [addSenderChannel, derefReceiver_eq hr, ok_bind]
  dsimp only
  cases hfind : getSenderChannel senders id with
  | some m => exact close_refused h hw hfree
  | none =>
    obtain ⟨wr, hwr, hx⟩ := handler_iff.mp hr
    have hi : s.handler i = none := handler_free hw hfree
    have hir : r ≠ i := by
      rintro rfl
      rw [hi] at hr
      cases hr
    have hnew := getSenderChannel_eq_none.mp hfind
    dsimp only
    rw [setHandler_eq hw, ok_bind,
      setHandler_eq ((Function.update_of_ne hir _ _).trans hwr), ok_bind,
      send_eq_set (Function.update_self ..), setSession_setSession, setSession_comm hir]
    refine .ok (h.relink hr (h.bound hw) (.inl (.inl hi))
      (.inr ⟨id, rfl⟩) ?_ ?_ rfl (notices_insert (h.notices r wr channelId senders hwr hx) hnew i) ?_)
    · rintro w' hw' id' hx'
      cases hw'
      cases hx'
    · rintro id' channel hx'
      cases hx'
      exact hid
    · intro id' m
      rw [StdMap.mem_insert_new (Option.map_eq_none_iff.mp hfind) (by simp)]
      by_cases hm : m = i
      · subst hm
        have hno : (id', m) ∉ senders.entries := by
          intro hmem
          rw [h.senders r channelId senders id' m hr hmem] at hi
          cases hi
        simp [hno, eq_comm]
      · simp [hm]

theorem onSenderConnected_ends (h : Linked s) (hw : s.sessions i = some w)
    (hfree : w.handler = none) (hid : ∀ c ∈ id, isIdChar c = true) :
    Outcome.Ends (s.onSenderConnected channelId id i) (· = .thrown) Linked := by
  unfold onSenderConnected
  split
  · rename_i r hfind
    obtain ⟨e, he, rfl⟩ := Option.map_eq_some_iff.mp hfind
    obtain ⟨hmem, -⟩ := StdMap.scan_some he
    obtain ⟨senders, hr⟩ := (h.receivers e.1 e.2).mp hmem
    exact addSenderChannel_ends h hw hfree hr hid
  · exact close_refused h hw hfree

theorem matchSegment_ids {word x rest : Bytes} (h : matchSegment word x = some (id, rest)) :
    ∀ c ∈ id, isIdChar c = true := by
  unfold matchSegment at h
  dsimp only at h
  split at h
  · cases h
    exact fun c hc => List.mem_takeWhile_imp hc
  · cases h

theorem senderRegex_ids {x : Bytes} (h : senderRegex x = some (channelId, id)) :
    ∀ c ∈ id, isIdChar c = true := by
  obtain ⟨⟨c, rest⟩, -, h⟩ := Option.bind_eq_some_iff.mp h
  obtain ⟨⟨id', rest'⟩, hid, h⟩ := Option.bind_eq_some_iff.mp h
  cases h
  exact matchSegment_ids hid

theorem regexSearch_some {α : Type} {regex : Bytes → Option α} {x : Bytes} {a : α}
    (h : regexSearch regex x = some a) : ∃ x', regex x' = some a := by
  induction x with
  | nil => exact ⟨[], h⟩
  | cons c x ih =>
    rw [regexSearch, Option.or_eq_some_iff] at h
    rcases h with h | ⟨-, h⟩
    · exact ⟨_, h⟩
    · exact ih h

theorem connect_ends (h : Linked s) (path : Bytes) :
    Outcome.Ends (s.connect path) (· = .thrown) Linked := by
  have hopened := h.opened
  unfold connect
  dsimp only
  generalize hs' : ({ s.setSession s.nextSession (some ⟨true, false, none, []⟩) with
    nextSession := s.nextSession + 1 } : WebsocketServer) = s' at hopened
  have hw : s'.sessions s.nextSession = some ⟨true, false, none, []⟩ := by
    rw [← hs']
    exact Function.update_self ..
  unfold onWebsocketConnection
  split
  · split
    · rename_i channelId senderId hfind
      obtain ⟨s₀, hmatch⟩ := regexSearch_some hfind
      exact onSenderConnected_ends hopened hw rfl (senderRegex_ids hmatch)
    · split
      · exact addReceiverChannel_ends hopened hw rfl rfl
      · exact .ok hopened
  · exact .ok hopened

/-! ### Runs -/

/-- No message comes on a session after `close` was called. -/
def Deliverable (s : WebsocketServer) : Event → Prop
  | .message session _ => (s.sessions session).map (·.closeCalled) ≠ some true
  | _ => True

instance (s : WebsocketServer) (e : Event) : Decidable (Deliverable s e) := by
  cases e
  all_goals
    unfold Deliverable
    infer_instance

structure Routed (json : Rapidjson) (s : WebsocketServer) : Prop where
  sender : ∀ n w id channel msg, s.sessions n = some w → w.closeCalled = false →
    w.handler = some (.sender id channel) →
      ∃ r channelId senders, channel = some r ∧ s.handler r = some (.receiver channelId senders) ∧
        (id, n) ∈ senders.entries ∧ s.step json (.message n msg) =
          .ok (s.hand fun j => if j = r then [.message id msg] else [])
  receiver : ∀ r channelId senders msg members id text,
    s.handler r = some (.receiver channelId senders) → json.parse msg = some (.object members) →
      (Json.get members (str "senderId")).getString = some id →
        (Json.get members (str "data")).getString = some text →
          s.step json (.message r msg) = .ok (s.hand (deliveries senders id text))

theorem Linked.routed (json : Rapidjson) (h : Linked s) : Routed json s where
  sender n w id channel msg hw hclose hx := by
    cases channel with
    | none =>
      rw [h.lost n w id hw hx] at hclose
      cases hclose
    | some r =>
      have hn : s.handler n = some (.sender id (some r)) := handler_iff.mpr ⟨w, hw, hx⟩
      obtain ⟨channelId, senders, hr, hmem⟩ := h.channels n id r hn
      refine ⟨r, channelId, senders, rfl, hr, hmem, ?_⟩
      rw [step, onMessage, hn]
      exact onSenderMessage_eq h hn
  receiver r channelId senders msg members id text hr hparse hid htext := by
    rw [step, onMessage, hr]
    exact onReceiverMessage_eq h hr hparse hid htext

theorem step_ends (json : Rapidjson) (h : Linked s) {e : Event} (he : Deliverable s e) :
    Outcome.Ends (s.step json e) (fun f => f = .thrown ∨ f = .misused) Linked := by
  cases e with
  | connect path => exact (connect_ends h path).mono (fun _ => .inl) fun _ hs' => hs'
  | message n msg =>
    refine (onMessage_ends h fun id hn => ?_).mono (fun _ => .inr) fun _ hs' => hs'
    obtain ⟨w, hw, hx⟩ := handler_iff.mp hn
    rw [Deliverable, hw, Option.map_some, h.lost n w id hw hx] at he
    exact he rfl
  | closing n => exact .ok (h.closing n)
  | closed n => exact (onClose_ends h).mono (fun _ => .inl) fun _ hs' => hs'

/-- In every run in which no message comes after `close`, no step fails but where a session is
closed that is not open, or a receiver sends what has not the form that is expected. The tables,
the pointers and the notices agree, and messages go where they belong. -/
theorem channels_agree (json : Rapidjson) {es : List Event}
    (h : Meets (step json) Deliverable start es) :
    Outcome.Ends (start.run json es) (fun f => f = .thrown ∨ f = .misused) fun s =>
      Agrees s ∧ Routed json s :=
  (h.ends (fun _ _ hs he => step_ends json hs he) Linked.start).mono (fun _ hf => hf)
    fun _ hs => ⟨hs.agrees, hs.routed json⟩

def broadcast (text : Bytes) : Bytes :=
  Rapidjson.compact.write (.object [(str "senderId", .text (str "*:*")), (str "data", .text text)])

/-- A receiver and its senders come and go, among them some that are refused. -/
def visit : List Event :=
  [.connect (str "/channels/c"), .connect (str "/channels/c/senders/a"),
    .connect (str "/CHANNELS/c/senders/b"), .connect (str "/channels/c/senders/b"),
    .connect (str "/channels/c/senders/a"), .connect (str "/channels/d/senders/a"),
    .connect (str "/channels/c"), .message 1 (str "hello"), .message 0 (broadcast (str "data")),
    .closing 1, .closed 1, .closed 0, .connect (str "/channels/c"), .closed 3]

theorem channels_agree_visit : ∃ s, start.run .compact visit = .ok s ∧
    (s.sessions 7).map (·.handler) = some (some (.receiver (str "c") StdMap.empty)) ∧
    Agrees s ∧ Routed .compact s := by
  obtain ⟨s, hs, htest⟩ := yields_iff.mp (show yields (start.run .compact visit) (fun s =>
    (s.sessions 7).map (·.handler) = some (some (.receiver (str "c") StdMap.empty))) = true by
      decide +kernel)
  have hmeets : Meets (step .compact) Deliverable start visit := by decide +kernel
  exact ⟨s, hs, of_decide_eq_true htest, (channels_agree .compact hmeets).of_ok hs⟩

end Flingd.Ws.WebsocketServer
