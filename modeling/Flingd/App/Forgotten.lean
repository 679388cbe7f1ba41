import Flingd.App.Sessions

/-! The timeouts of receiver sessions: that of a session that was forgotten, and that of the current
one. -/
namespace Flingd.App.Sessions
variable {s : Sessions}

theorem Distinct.receiver (hdistinct : s.Distinct) {i j : Nat} {a b : Session}
    (ha : s.receivers[i]? = some a) (hb : s.receivers[j]? = some b) (ht : a.token = b.token) :
    i = j :=
  eq_of_token_eq (List.nodup_append.mp hdistinct).2.1 ha hb ht

theorem onReceiverTimeout_other {token : Bytes} (h : ∀ b, s.current = some b → b.token ≠ token) :
    s.onReceiverTimeout token = s := by
  unfold onReceiverTimeout
  cases hb : s.current with
  | none => rfl
  | some b => exact if_neg fun heq => h b hb heq.symm

theorem onReceiverTimeout_own {b : Session} {token : Bytes} (h : s.current = some b)
    (ht : token = b.token) :
    s.onReceiverTimeout token = { s.notifyDisconnected b.appId with receiverSession_ := none } := by
  unfold onReceiverTimeout
  rw [h]
  exact if_pos ht

/-- A session that is not the current one is closed without the manager doing anything. -/
theorem close_other (hdistinct : s.Distinct) {i : Nat}
    (hother : s.receiverSession_ ≠ some i) :
    (s.close (.receiver i)).receiverSession_ = s.receiverSession_ ∧
      (s.close (.receiver i)).disconnected = s.disconnected ∧
      (s.close (.receiver i)).manager = s.manager := by
  unfold close
  dsimp only
  cases ha : s.receivers[i]? with
  | none => exact ⟨rfl, rfl, rfl⟩
  | some a =>
    dsimp only
    rw [onReceiverTimeout_other]
    · exact ⟨rfl, rfl, rfl⟩
    · intro b hb
      obtain ⟨j, hj, hset⟩ := Option.bind_eq_some_iff.mp hb
      have hne : j ≠ i := fun heq => hother (heq ▸ hj)
      rw [getElem?_set_some ha, if_neg hne] at hset
      exact fun ht => hne (hdistinct.receiver hset ha ht)

theorem Sound.close_own (h : s.Sound) {i : Nat} (hi : s.receiverSession_ = some i) :
    (s.close (.receiver i)).receiverSession_ = none ∧
      (s.close (.receiver i)).manager = s.manager ∧
      ∃ a, s.receivers[i]? = some a ∧
        (s.close (.receiver i)).disconnected = (s.notifyDisconnected a.appId).disconnected := by
  obtain ⟨a, ha, -⟩ := h.current i hi
  have hcurrent : ({ s with receivers := s.receivers.set i a.close } : Sessions).current =
      some a.close :=
    Option.bind_eq_some_iff.mpr ⟨i, hi, (getElem?_set_some ha i).trans (if_pos rfl)⟩
  have hclose : s.close (.receiver i) = { ({ s with
      receivers := s.receivers.set i a.close } : Sessions).notifyDisconnected a.appId
      with receiverSession_ := none } := by
    unfold Sessions.close
    dsimp only
    rw [ha]
    exact onReceiverTimeout_own (b := a.close) hcurrent rfl
  rw [hclose]
  unfold notifyDisconnected
  exact ⟨rfl, by split <;> rfl, a, ha, by split <;> rfl⟩

/-- A receiver session that is not the current one ends without the manager noticing. The current one is
forgotten, the listener hears of it at most once, and it is never the current one again. -/
theorem receiver_timeout {es : List Event} {n i : Nat} (hdistinct : (run es).Distinct)
    (hq : (run es).timers.queue[n]? = some (.receiver i, .success)) :
    ((run es).receiverSession_ ≠ some i →
      (run (es ++ [.complete n])).receiverSession_ = (run es).receiverSession_ ∧
      (run (es ++ [.complete n])).disconnected = (run es).disconnected ∧
      (run (es ++ [.complete n])).manager = (run es).manager) ∧
    ((run es).receiverSession_ = some i →
      (run (es ++ [.complete n])).receiverSession_ = none ∧
      (run (es ++ [.complete n])).manager = (run es).manager ∧
      ((run (es ++ [.complete n])).disconnected = (run es).disconnected ∨
        ∃ a, (run es).receivers[i]? = some a ∧
          (run (es ++ [.complete n])).disconnected = (run es).disconnected ++ [a.appId]) ∧
      ∀ fs, (run (es ++ .complete n :: fs)).receiverSession_ ≠ some i) := by
  have hsound := run_sound es
  have hlast : run (es ++ [.complete n]) = (run es).complete n := run_concat es _
  rw [hlast, complete_success hq (hsound.session_of_queue (List.mem_of_getElem? hq))]
  refine ⟨fun hother => close_other hdistinct hother, fun hi => ?_⟩
  obtain ⟨hnone, hsame, a, ha, hnotice⟩ := hsound.close_own hi
  have htold : ((run es).close (.receiver i)).disconnected = (run es).disconnected ∨
      ((run es).close (.receiver i)).disconnected = (run es).disconnected ++ [a.appId] := by
    rw [hnotice]
    unfold notifyDisconnected
    split
    · exact .inr rfl
    · exact .inl rfl
  refine ⟨hnone, hsame, htold.imp id fun heq => ⟨a, ha, heq⟩, fun fs hback => ?_⟩
  have hrest : run (es ++ .complete n :: fs) = fs.foldl step (run (es ++ [.complete n])) := by
    rw [run, run, List.foldl_append, List.foldl_append]
    rfl
  have hgone : Ref.receiver i ∈ (run (es ++ [.complete n])).deleted := by
    rw [hlast, complete_success hq (hsound.session_of_queue (List.mem_of_getElem? hq))]
    exact List.mem_append_right _ List.mem_cons_self
  obtain ⟨b, hb, hopen⟩ := (run_sound _).current i hback
  have hclosed : (run (es ++ .complete n :: fs)).closed_ (.receiver i) = true :=
    ((run_sound _).deleted _).mp (hrest ▸ deleted_run _ fs hgone)
  rw [closed_, session, hb] at hclosed
  simp [hopen] at hclosed

/-- An application disconnects, its session is forgotten, and it ends while that of the next one is the
current one. -/
theorem receiver_timeout_forgotten :
    (run [.createReceiver [1] [7], .disconnectReceiver [1], .createReceiver [2] [8],
      .expire (.receiver 0), .complete 0]).receiverSession_ = some 1 :=
  ((@receiver_timeout [.createReceiver [1] [7], .disconnectReceiver [1], .createReceiver [2] [8],
    .expire (.receiver 0)] 0 0 (by decide) rfl).1 (by decide)).1

end Flingd.App.Sessions
