import Flingd.App.Forgotten

/-! Sessions die once. Where a session is touched when its time is up, but before the handler has run,
the handler deletes it all the same, with the wait that the touch began; and so does a handler that
runs before those of waits that were cancelled earlier. -/
namespace Flingd.App.Sessions
variable {s : Sessions} {r : Ref}

def touched (s : Sessions) : Event → Option Ref
  | .touchSender token => (s.manager.getSender token).map .sender
  | .touchReceiver _ => s.receiverSession_.map .receiver
  | _ => none

def leaves (s : Sessions) : Event → Option Ref
  | .disconnectSender token => (s.manager.getSender token).map .sender
  | .disconnectReceiver appId =>
    if s.current.any (·.appId = appId) then s.receiverSession_.map .receiver else none
  | .expire r => some r
  | _ => none

def Registered (s : Sessions) : Ref → Prop
  | .sender i => ∃ token, s.manager.getSender token = some i
  | .receiver i => s.receiverSession_ = some i

def completion (s : Sessions) : Event → Option (Ref × ErrorCode)
  | .complete n => s.timers.queue[n]?
  | _ => none

/-- A touch finds its session unexpired, and when the handler of a session runs whose time is up, no
cancelled wait of the session is to be told. -/
def Calm (s : Sessions) (e : Event) : Prop :=
  (∀ r ∈ s.touched e, ¬ s.timers.Expired r) ∧
    ∀ c ∈ s.completion e, c.2 = .success → (c.1, .operation_aborted) ∉ s.timers.queue

def Careful (s : Sessions) : List Event → Prop
  | [] => True
  | e :: es => s.Calm e ∧ Careful (s.step e) es

instance (s : Sessions) (e : Event) : Decidable (s.Calm e) :=
  inferInstanceAs (Decidable (_ ∧ _))

instance Careful.decidable (s : Sessions) : ∀ es, Decidable (s.Careful es)
  | [] => .isTrue trivial
  | e :: es => @instDecidableAnd _ _ inferInstance (Careful.decidable (s.step e) es)

/-- Some event of the run disconnects the session, or its time is up. -/
def Leaves (s : Sessions) (r : Ref) (es : List Event) : Prop :=
  ∃ before e after, es = before ++ e :: after ∧ (before.foldl step s).leaves e = some r

/-! ### Deleted sessions -/

/-- Nothing is left of the timers of deleted sessions. -/
structure Tame (s : Sessions) : Prop where
  once : s.timers.Once
  idle : ∀ r ∈ s.deleted, s.timers.Idle r
  nodup : s.deleted.Nodup
  strays : s.strays = []

theorem Tame.of_eq {t : Sessions} (h : s.Tame) (htimers : t.timers = s.timers)
    (hdeleted : t.deleted = s.deleted) (hstrays : t.strays = s.strays) : t.Tame :=
  ⟨htimers ▸ h.once, fun r hr => htimers ▸ h.idle r (hdeleted ▸ hr), hdeleted ▸ h.nodup,
    hstrays.trans h.strays⟩

theorem use_of_not_mem (h : r ∉ s.deleted) : s.use r = s := if_neg h

theorem Tame.triggerTimer (h : s.Tame) (hr : r ∉ s.deleted) (hx : ¬ s.timers.Expired r) :
    (s.triggerTimer r).Tame := by
  unfold Sessions.triggerTimer
  rw [use_of_not_mem hr]
  refine ⟨h.once.restart hx, fun r' hr' => (h.idle r' hr').restart ?_, h.nodup, h.strays⟩
  rintro rfl
  exact hr hr'

theorem Tame.expire (h : s.Tame) (r : Ref) :
    ({ s with timers := s.timers.expire r } : Sessions).Tame :=
  ⟨h.once.expire, fun r' hr' => (h.idle r' hr').conclude, h.nodup, h.strays⟩

theorem Tame.not_deleted (h : s.Tame) {error : ErrorCode} (hq : (r, error) ∈ s.timers.queue) :
    r ∉ s.deleted := fun hr => (h.idle r hr).queue error hq

theorem Tame.complete (h : s.Tame) (hsound : s.Sound) {n : Nat} {error : ErrorCode}
    (hq : s.timers.queue[n]? = some (r, error))
    (hcalm : error = .success → (r, .operation_aborted) ∉ s.timers.queue) :
    (({ s with timers := s.timers.take n } : Sessions).onTimeout r error).Tame := by
  have hin : (r, error) ∈ s.timers.queue := List.mem_of_getElem? hq
  have hr := h.not_deleted hin
  rw [← complete_eq hq]
  cases error with
  | success =>
    have hlast : (s.timers.take n).Idle r := h.once.last hq (hcalm rfl)
    rw [complete_success hq (hsound.session_of_queue hin), use_of_not_mem hr]
    have hdeleted : (s.close r).deleted = s.deleted := (close_frame s r).2.1
    refine ⟨h.once.take.cancel, fun r' hr' => ?_, ?_, h.strays⟩
    · refine Waits.Idle.conclude ?_
      rcases List.mem_append.mp hr' with hr' | hr'
      · exact (h.idle r' (hdeleted ▸ hr')).take
      · exact List.mem_singleton.mp hr' ▸ hlast
    · refine List.nodup_append.mpr ⟨hdeleted ▸ h.nodup, List.nodup_singleton r, ?_⟩
      rintro a ha b hb rfl
      exact hr (hdeleted ▸ List.mem_singleton.mp hb ▸ ha)
  | operation_aborted =>
    have hopen : ¬ s.closed_ r = true := fun hclosed => hr ((hsound.deleted r).mpr hclosed)
    rw [complete_aborted hq, if_neg hopen, use_of_not_mem hr]
    exact ⟨h.once.take, fun r' hr' => (h.idle r' hr').take, h.nodup, h.strays⟩

/-- A session that is made has no timer yet. -/
theorem Tame.create {t : Sessions} (h : s.Tame) (hsound : s.Sound) (hnew : s.session r = none)
    (htimers : t.timers = s.timers) (hdeleted : t.deleted = s.deleted) (hstrays : t.strays = s.strays) :
    (t.triggerTimer r).Tame := by
  refine (h.of_eq htimers hdeleted hstrays).triggerTimer ?_ (htimers ▸ (hsound.made r hnew).not_expired)
  rw [hdeleted, hsound.deleted, closed_, hnew]
  simp

theorem Sound.not_deleted (h : s.Sound) {a : Session} (ha : s.session r = some a)
    (hopen : a.closed_ = false) : r ∉ s.deleted := by
  rw [h.deleted, closed_, ha]
  simp [hopen]

theorem Tame.step (h : s.Tame) (hsound : s.Sound) {e : Event} (hcalm : s.Calm e) :
    (s.step e).Tame := by
  have hmoves := step_moves s e
  obtain ⟨htouched, hcomplete⟩ := hcalm
  generalize s.step e = t at hmoves ⊢
  cases hmoves with
  | nothing => exact h
  | createSender => exact h.create hsound (by simp [session]) rfl rfl rfl
  | touchSender hi =>
    obtain ⟨a, ha, -, hopen⟩ := hsound.sender hi
    exact h.triggerTimer (hsound.not_deleted ha hopen) (htouched _ (congrArg (Option.map _) hi))
  | createReceiver => exact h.create hsound (by simp [session]) rfl rfl rfl
  | touchReceiver hi =>
    obtain ⟨a, ha, hopen⟩ := hsound.current _ hi
    exact h.triggerTimer (hsound.not_deleted ha hopen) (htouched _ (congrArg (Option.map _) hi))
  | disconnectSender | disconnectReceiver | setSessionListender => exact h.of_eq rfl rfl rfl
  | expire r => exact h.expire r
  | complete hq => exact h.complete hsound hq (hcomplete _ hq)

theorem Tame.run {es : List Event} (h : s.Tame) (hsound : s.Sound) (hes : Careful s es) :
    (es.foldl Sessions.step s).Tame := by
  induction es generalizing s with
  | nil => exact h
  | cons e es ih => exact ih (h.step hsound hes.1) (step_sound hsound e) hes.2

theorem start_tame : start.Tame := ⟨Waits.once_none, by simp [start], by simp [start], rfl⟩

/-! ### Touched sessions -/

theorem triggerTimer_timers (s : Sessions) (r : Ref) :
    (s.triggerTimer r).timers = s.timers.restart r := by
  unfold triggerTimer
  rw [use_frame]

theorem onTimeout_timers (s : Sessions) (r : Ref) (error : ErrorCode) :
    (s.onTimeout r error).timers = s.timers ∨ (s.onTimeout r error).timers = s.timers.cancel r := by
  have hclose : ((s.use r).close r).timers = s.timers := by
    rw [(close_frame _ r).1, use_frame]
  have hused : (s.use r).timers = s.timers := by rw [use_frame]
  unfold onTimeout
  cases error with
  | success =>
    dsimp only
    split
    · exact .inr (congrArg (·.cancel r) hclose)
    · exact .inl hclose
  | operation_aborted =>
    dsimp only
    split
    · exact .inr (congrArg (·.cancel r) hused)
    · exact .inl hused

/-- Only time lets a session expire. -/
theorem not_expired_step {e : Event} (hx : ¬ s.timers.Expired r) (hne : e ≠ .expire r) :
    ¬ (s.step e).timers.Expired r := by
  have htrigger {t : Sessions} (ht : t.timers = s.timers) (r' : Ref) :
      ¬ (t.triggerTimer r').timers.Expired r := by
    rwa [triggerTimer_timers, Waits.expired_restart, ht]
  have hmoves := step_moves s e
  generalize s.step e = t at hmoves ⊢
  cases hmoves with
  | createSender appId token =>
    exact htrigger (t := { s with manager := s.manager.createSender appId token }) rfl _
  | createReceiver appId token =>
    refine htrigger ?_ _
    rfl
  | touchSender | touchReceiver => exact htrigger rfl _
  | nothing | disconnectSender | disconnectReceiver | setSessionListender => exact hx
  | expire r' => exact Waits.not_expired_expire (fun heq => hne (heq ▸ rfl)) hx
  | @complete n r' error hq =>
    have htaken : ¬ (s.timers.take n).Expired r := fun h => hx (Waits.mem_take h)
    rcases onTimeout_timers { s with timers := s.timers.take n } r' error with h | h
    · rwa [h]
    · rwa [h, Waits.expired_cancel]

/-! ### Tokens -/

theorem tokens_eq {t : Sessions}
    (h : ∀ r, (t.session r).map (·.token) = (s.session r).map (·.token)) : t.tokens = s.tokens := by
  have hsenders : t.manager.sessions.map (·.token) = s.manager.sessions.map (·.token) := by
    refine List.ext_getElem? fun i => ?_
    rw [List.getElem?_map, List.getElem?_map]
    exact h (.sender i)
  have hreceivers : t.receivers.map (·.token) = s.receivers.map (·.token) := by
    refine List.ext_getElem? fun i => ?_
    rw [List.getElem?_map, List.getElem?_map]
    exact h (.receiver i)
  rw [tokens, tokens, hsenders, hreceivers]

theorem tokens_same {t : Sessions} (h : ∀ r, t.session r = s.session r) : t.tokens = s.tokens :=
  tokens_eq fun r => congrArg _ (h r)

theorem onTimeout_tokens (s : Sessions) (r : Ref) (error : ErrorCode) :
    (s.onTimeout r error).tokens = s.tokens := by
  have hused : (s.use r).tokens = s.tokens := tokens_same (use_session s r)
  have hclose : ((s.use r).close r).tokens = (s.use r).tokens := by
    refine tokens_eq fun r' => ?_
    rw [close_session]
    split
    · rename_i heq
      rw [heq, Option.map_map]
      rfl
    · rfl
  unfold onTimeout
  cases error with
  | success =>
    dsimp only
    split <;> exact hclose.trans hused
  | operation_aborted =>
    dsimp only
    split <;> exact hused

/-- Sessions keep their tokens. -/
theorem tokens_step (s : Sessions) (e : Event) : s.tokens.Sublist (s.step e).tokens := by
  have hsame {t : Sessions} (h : t.tokens = s.tokens) : s.tokens.Sublist t.tokens := by rw [h]
  have hmoves := step_moves s e
  generalize s.step e = t at hmoves ⊢
  cases hmoves with
  | createSender appId token =>
    rw [tokens_same (triggerTimer_session _ _)]
    refine List.Sublist.append ?_ (List.Sublist.refl _)
    dsimp only
    rw [SessionManager.createSender_sessions, List.map_append]
    exact List.sublist_append_left _ _
  | createReceiver appId token =>
    rw [tokens_same (triggerTimer_session _ _)]
    refine List.Sublist.append (List.Sublist.refl _) ?_
    dsimp only
    rw [List.map_append]
    exact List.sublist_append_left _ _
  | touchSender | touchReceiver => exact hsame (tokens_same (triggerTimer_session _ _))
  | disconnectSender token =>
    exact hsame (tokens_same (session_eq (SessionManager.disconnectSender_sessions _ _) rfl))
  | setSessionListender listener =>
    exact hsame (tokens_same (session_eq (SessionManager.setSessionListender_sessions _ _) rfl))
  | nothing | disconnectReceiver | expire => exact hsame rfl
  | complete => exact hsame (onTimeout_tokens _ _ _)

theorem Distinct.of_run {es : List Event} (h : (es.foldl step s).Distinct) : s.Distinct := by
  induction es generalizing s with
  | nil => exact h
  | cons e es ih => exact (ih h).sublist (tokens_step s e)

theorem Distinct.sender (hdistinct : s.Distinct) {i j : Nat} {a b : Session}
    (ha : s.manager.sessions[i]? = some a) (hb : s.manager.sessions[j]? = some b)
    (ht : a.token = b.token) : i = j :=
  eq_of_token_eq (List.nodup_append.mp hdistinct).1 ha hb ht

/-! ### What stays registered -/

theorem getSender_createSender {m : SessionManager} {t : Bytes} {i : Nat}
    (h : m.getSender t = some i) (appId token : Bytes) :
    (m.createSender appId token).getSender t = some i := by
  unfold SessionManager.createSender SessionManager.getSender
  rw [SessionManager.notify_table]
  unfold SessionManager.addSender
  split
  · exact h
  · rename_i hnew
    have hne : t ≠ token := by
      rintro rfl
      exact hnew (congrArg Option.isSome h)
    dsimp only
    rw [StdMap.scan_insert_other _ (by simpa using hne)]
    exact h

theorem getSender_disconnectSender (m : SessionManager) {t token : Bytes} (hne : t ≠ token) :
    (m.disconnectSender token).2.getSender t = m.getSender t := by
  by_cases hin : m.checkSender token = true
  · unfold SessionManager.getSender
    rw [(SessionManager.disconnectSender_fields hin).1, StdMap.scan_eraseFirst_other]
    intro k hk
    rw [← of_decide_eq_true hk]
    simpa using hne.symm
  · have hsame : m.disconnectSender token = (false, m) := by
      simp [SessionManager.disconnectSender, SessionManager.removeSender, hin]
    rw [hsame]

theorem getSender_onTimeout {m : SessionManager} {t : Bytes} {i : Nat}
    (h : ∀ a, m.sessions[i]? = some a → t ≠ a.token) :
    (m.onTimeout i).getSender t = m.getSender t := by
  unfold SessionManager.onTimeout
  cases ha : m.sessions[i]? with
  | none => rfl
  | some a => exact getSender_disconnectSender _ (h a ha)

/-- A registered session stays so where another one is closed. -/
theorem Registered.close (h : s.Registered r) (hsound : s.Sound) (hdistinct : s.Distinct) {r' : Ref}
    (hne : r' ≠ r) : (s.close r').Registered r := by
  cases r with
  | sender i =>
    obtain ⟨t, ht⟩ := h
    refine ⟨t, ?_⟩
    cases r' with
    | sender j =>
      refine (getSender_onTimeout fun b hb heq => hne ?_).trans ht
      obtain ⟨a, ha, htoken, -⟩ := hsound.sender ht
      rw [hdistinct.sender hb ha (heq.symm.trans htoken.symm)]
    | receiver j =>
      rw [close_receiver_manager]
      exact ht
  | receiver i =>
    cases r' with
    | sender j => exact h
    | receiver j =>
      have hother : s.receiverSession_ ≠ some j := fun hj => hne (by rw [h] at hj; cases hj; rfl)
      exact (close_other hdistinct hother).1.trans h

/-- Only the table of senders and the current receiver session are looked at. -/
theorem Registered.of_eq {t : Sessions} (h : s.Registered r) (hmanager : t.manager = s.manager)
    (hcurrent : t.receiverSession_ = s.receiverSession_) : t.Registered r := by
  cases r with
  | sender i => exact h.imp fun token ht => by rwa [hmanager]
  | receiver i => exact hcurrent.trans h

theorem Registered.triggerTimer (h : s.Registered r) (r' : Ref) :
    (s.triggerTimer r').Registered r := by
  unfold Sessions.triggerTimer
  rw [use_frame]
  exact h.of_eq rfl rfl

theorem Registered.complete (h : s.Registered r) (hsound : s.Sound) (hdistinct : s.Distinct)
    (hx : ¬ s.timers.Expired r) {n : Nat} {r' : Ref} {error : ErrorCode}
    (hq : s.timers.queue[n]? = some (r', error)) :
    (({ s with timers := s.timers.take n } : Sessions).onTimeout r' error).Registered r := by
  have hin : (r', error) ∈ s.timers.queue := List.mem_of_getElem? hq
  rw [← complete_eq hq]
  cases error with
  | success =>
    rw [complete_success hq (hsound.session_of_queue hin)]
    have hne : r' ≠ r := by
      rintro rfl
      exact hx hin
    exact (h.close hsound hdistinct hne).of_eq rfl rfl
  | operation_aborted =>
    rw [complete_aborted hq]
    split <;> exact h.of_eq rfl rfl

/-- A session stays registered until it is disconnected or its time is up. -/
theorem Registered.step (h : s.Registered r) (hsound : s.Sound) (hdistinct : s.Distinct)
    (hx : ¬ s.timers.Expired r) {e : Event} (hstays : s.leaves e ≠ some r) :
    (s.step e).Registered r := by
  have hmoves := step_moves s e
  generalize s.step e = t at hmoves ⊢
  cases hmoves with
  | nothing => exact h
  | createSender appId token =>
    refine Registered.triggerTimer (s := { s with manager := s.manager.createSender appId token }) ?_ _
    cases r with
    | sender i => exact h.imp fun t ht => getSender_createSender ht appId token
    | receiver i => exact h
  | touchSender | touchReceiver => exact h.triggerTimer _
  | disconnectSender token =>
    cases r with
    | sender i =>
      obtain ⟨t, ht⟩ := h
      refine ⟨t, (getSender_disconnectSender _ ?_).trans ht⟩
      rintro rfl
      exact hstays (congrArg (Option.map Ref.sender) ht)
    | receiver i => exact h
  | createReceiver appId token hnone =>
    refine Registered.triggerTimer ?_ _
    cases r with
    | sender i => exact h
    | receiver i => exact nomatch hnone.symm.trans h
  | disconnectReceiver hc =>
    cases r with
    | sender i => exact h
    | receiver i =>
      refine absurd ?_ hstays
      rw [leaves, hc, if_pos (by simp)]
      exact congrArg (Option.map Ref.receiver) h
  | setSessionListender listener =>
    cases r with
    | sender i =>
      obtain ⟨t, ht⟩ := h
      refine ⟨t, ?_⟩
      change (s.manager.setSessionListender listener).getSender t = some i
      rw [SessionManager.getSender, (SessionManager.setSessionListender_fields _ _).1]
      exact ht
    | receiver i => exact h
  | expire r' => exact h.of_eq rfl rfl
  | complete hq => exact h.complete hsound hdistinct hx hq

theorem Registered.run {es : List Event} (h : s.Registered r) (hsound : s.Sound)
    (hdistinct : (es.foldl Sessions.step s).Distinct) (hx : ¬ s.timers.Expired r) :
    s.Leaves r es ∨ (es.foldl Sessions.step s).Registered r := by
  induction es generalizing s with
  | nil => exact .inr h
  | cons e es ih =>
    by_cases hstays : s.leaves e = some r
    · exact .inl ⟨[], e, es, rfl, hstays⟩
    · have hne : e ≠ .expire r := by
        rintro rfl
        exact hstays rfl
      have hall : ((e :: es).foldl Sessions.step s).Distinct := hdistinct
      refine (ih (h.step hsound hall.of_run hx hstays) (step_sound hsound e) hdistinct
        (not_expired_step hx hne)).imp (fun hleaves => ?_) id
      obtain ⟨before, f, after, heq, hf⟩ := hleaves
      exact ⟨e :: before, f, after, by rw [heq, List.cons_append], hf⟩

/-- The touched session is registered. -/
theorem registered_touched {e : Event} (h : s.touched e = some r) :
    (s.step e).Registered r ∧ (s.step e).timers = s.timers.restart r := by
  cases e with
  | touchSender token =>
    obtain ⟨i, hi, rfl⟩ := Option.map_eq_some_iff.mp h
    have hstep : s.step (.touchSender token) = s.triggerTimer (.sender i) := by
      change (s.touchSender token).2 = _
      rw [touchSender, hi]
    rw [hstep]
    have hregistered : s.Registered (.sender i) := ⟨token, hi⟩
    exact ⟨hregistered.triggerTimer _, triggerTimer_timers s _⟩
  | touchReceiver appId =>
    obtain ⟨i, hi, rfl⟩ := Option.map_eq_some_iff.mp h
    have hstep : s.step (.touchReceiver appId) = s.triggerTimer (.receiver i) := by
      change (s.touchReceiver appId).2 = _
      rw [touchReceiver, hi]
    rw [hstep]
    have hregistered : s.Registered (.receiver i) := hi
    exact ⟨hregistered.triggerTimer _, triggerTimer_timers s _⟩
  | _ => cases h

theorem Careful.append {es fs : List Event} (h : Careful s (es ++ fs)) :
    Careful (es.foldl step s) fs := by
  induction es generalizing s with
  | nil => exact h
  | cons e es ih => exact ih h.2

/-- In a careful run a session is deleted at most once, no handler runs on it after that, and when it is
touched it stays registered until it is disconnected or its time is up again. -/
theorem dies_once {es : List Event} (hes : Careful start es) :
    (run es).deleted.Nodup ∧ (run es).strays = [] ∧
      ((run es).Distinct → ∀ before e after r, es = before ++ e :: after →
        (run before).touched e = some r →
          (run (before ++ [e])).Leaves r after ∨ (run es).Registered r) := by
  have htame : (run es).Tame := start_tame.run start_sound hes
  refine ⟨htame.nodup, htame.strays, fun hdistinct before e after r heq htouched => ?_⟩
  subst heq
  have hrest : run (before ++ e :: after) = after.foldl step (run (before ++ [e])) := by
    rw [run, run, List.foldl_append, List.foldl_append]
    rfl
  obtain ⟨hregistered, htimers⟩ := registered_touched htouched
  have hcalm : (run before).Calm e := (Careful.append hes).1
  rw [hrest] at hdistinct ⊢
  refine Registered.run ?_ (run_sound _) hdistinct ?_
  · rw [run_concat]
    exact hregistered
  · rw [run_concat, htimers, Waits.expired_restart]
    exact hcalm.1 r htouched

/-- A session that is touched, and whose time is up later. -/
theorem dies_once_touched :
    (run [.createSender [1] [7], .touchSender [7], .complete 0]).Registered (.sender 0) ∧
      (run [.createSender [1] [7], .touchSender [7], .complete 0, .expire (.sender 0),
        .complete 0]).deleted.Nodup := by
  refine ⟨?_, (dies_once (by decide)).1⟩
  have hstays := (@dies_once [.createSender [1] [7], .touchSender [7], .complete 0] (by decide)).2.2
    (by decide) [.createSender [1] [7]] (.touchSender [7]) [.complete 0] (.sender 0) rfl (by decide)
  refine hstays.resolve_left ?_
  rintro ⟨before, e, after, heq, hleaves⟩
  rcases before with _ | ⟨f, before⟩
  · cases heq
    cases hleaves
  · simp at heq

/-- The time of a session is up, and it is touched before the handler has run. -/
def overtaken : List Event :=
  [.createSender [1] [7], .expire (.sender 0), .touchSender [7], .complete 0, .complete 0]

/-- The handler deletes the session that was touched, and that of the wait that the touch began runs on
what was deleted. -/
theorem overtaken_dies_twice :
    (run overtaken).deleted = [.sender 0, .sender 0] ∧ (run overtaken).strays = [.sender 0] ∧
      (run (overtaken.take 2)).touched (.touchSender [7]) = some (.sender 0) ∧
      ¬ (run (overtaken.take 4)).Registered (.sender 0) := by
  refine ⟨by decide, by decide, by decide, ?_⟩
  rintro ⟨t, ht⟩
  cases ht

end Flingd.App.Sessions
