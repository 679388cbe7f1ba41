import Flingd.Sdk.MessageChannel

/-! The order in which a channel transmits. `send` is called at any time, also while `onOpen` walks
through the pending messages. The calls of `sendImpl` that are posted are made one at a time, and
none is made while `onOpen` runs. -/
namespace Flingd.Sdk

structure Transmission where
  channel : MessageChannel
  /-- What `onOpen` has still to send, while it runs. -/
  flushing : Option (List Bytes)
  /-- What was passed to `send` from outside. -/
  sent : List Bytes
  /-- What went to the websocket. -/
  handed : List Bytes

namespace Transmission

inductive Event where
  | send (message : Bytes)
  /-- The `io_service` makes the next call. -/
  | poll
  /-- `onOpen` begins. -/
  | onOpen
  /-- One pass of its loop, or what follows the loop. -/
  | flush

def new : Transmission := ⟨.new, none, [], []⟩

def step (t : Transmission) : Event → Option Transmission
  | .send message =>
    some { t with channel := t.channel.send message, sent := t.sent ++ [message] }
  | .poll =>
    match t.flushing with
    | some _ => none
    | none => some { t with channel := t.channel.poll.1, handed := t.handed ++ t.channel.poll.2 }
  | .onOpen =>
    match t.flushing, t.channel.opened_ with
    | none, false => some { t with flushing := some t.channel.penddingMessages_ }
    | _, _ => none
  | .flush =>
    match t.flushing with
    | none => none
    | some (message :: rest) =>
      some { t with channel := t.channel.send message, flushing := some rest }
    | some [] => some { t with
        channel := { t.channel with penddingMessages_ := [], opened_ := true }, flushing := none }

def run (t : Transmission) (es : List Event) : Option Transmission := es.foldlM step t

/-- The messages that are not empty. -/
def texts (messages : List Bytes) : List Bytes := messages.filter fun m => !m.isEmpty

def Event.message : Event → List Bytes
  | .send message => texts [message]
  | _ => []

/-- What is passed to `send` in these events, as far as it is not empty. -/
def messages (es : List Event) : List Bytes := es.flatMap Event.message

/-- What the events post while `onOpen` has still to send `pending`. -/
def posts : List Bytes → List Event → List Bytes
  | _, [] => []
  | pending, .send message :: es => texts [message] ++ posts pending es
  | message :: pending, .flush :: es => message :: posts pending es
  | pending, _ :: es => posts pending es

/-- The run opens the channel: `t₀` is where `onOpen` begins, and `during` is what happens until its
loop is over. -/
def OpensAt (es : List Event) (t₀ : Transmission) (during : List Event) : Prop :=
  ∃ before after t₁, es = before ++ .onOpen :: (during ++ .flush :: after) ∧
    new.run before = some t₀ ∧ t₀.run (.onOpen :: during) = some t₁ ∧ t₁.flushing = some []

/-- Once the calls are made that are posted, the websocket has got what was sent, each message once
and in the order of the calls of `send`. -/
def Transmits (t : Transmission) : Prop :=
  ∃ t', t.run (List.replicate t.channel.posted.length .poll) = some t' ∧ t'.handed = texts t.sent

variable {t t' t₀ t₁ : Transmission} {es before during after : List Event} {message : Bytes}

theorem run_cons {e : Event} :
    t.run (e :: es) = some t' ↔ ∃ t₁, t.step e = some t₁ ∧ t₁.run es = some t' := by
  unfold run
  rw [List.foldlM_cons]
  exact Option.bind_eq_some_iff

theorem run_append {fs : List Event} :
    t.run (es ++ fs) = some t' ↔ ∃ t₁, t.run es = some t₁ ∧ t₁.run fs = some t' := by
  unfold run
  rw [List.foldlM_append]
  exact Option.bind_eq_some_iff

/-- What every step keeps, every run keeps. -/
theorem run_keeps {I : Transmission → Prop} (h : ∀ t t' e, I t → t.step e = some t' → I t')
    (ht : I t) (hrun : t.run es = some t') : I t' := by
  induction es generalizing t with
  | nil =>
    cases hrun
    exact ht
  | cons e es ih =>
    obtain ⟨t₁, hstep, hrun⟩ := run_cons.mp hrun
    exact ih (h t t₁ e ht hstep) hrun

theorem texts_append (l l' : List Bytes) : texts (l ++ l') = texts l ++ texts l' :=
  List.filter_append l l'

theorem posted_send (c : MessageChannel) (message : Bytes) :
    (c.send message).posted = c.posted ++ texts [message] := by
  unfold MessageChannel.send
  cases message with
  | nil => exact (List.append_nil c.posted).symm
  | cons b message => rfl

@[simp] theorem opened_send (c : MessageChannel) (message : Bytes) :
    (c.send message).opened_ = c.opened_ := by
  unfold MessageChannel.send
  split <;> rfl

/-! ### Before `onOpen` -/

/-- Nothing has been handed over, and all that was sent is pending or posted, in order. -/
structure Gathers (t : Transmission) : Prop where
  closed : t.channel.opened_ = false
  idle : t.flushing = none
  handed : t.handed = []
  order : t.channel.penddingMessages_ ++ t.channel.posted = texts t.sent

theorem new_gathers : Gathers new := ⟨rfl, rfl, rfl, rfl⟩

theorem Gathers.pending (h : Gathers t) :
    ∀ m ∈ t.channel.penddingMessages_, texts [m] = [m] := by
  intro m hm
  have hmem : m ∈ texts t.sent := h.order ▸ List.mem_append_left _ hm
  exact List.filter_eq_self.mpr (List.forall_mem_singleton.mpr (List.mem_filter.mp hmem).2)

theorem Gathers.step {e : Event} (h : Gathers t) (hstep : t.step e = some t') :
    Gathers t' ∨ e = .onOpen ∧ t' = { t with flushing := some t.channel.penddingMessages_ } := by
  unfold Transmission.step at hstep
  cases e with
  | send message =>
    cases hstep
    refine .inl ⟨?_, h.idle, h.handed, ?_⟩
    · exact (opened_send _ _).trans h.closed
    · rw [MessageChannel.send_penddingMessages, posted_send, texts_append, ← h.order,
        List.append_assoc]
  | poll =>
    simp only [h.idle] at hstep
    cases hstep
    unfold MessageChannel.poll
    cases hp : t.channel.posted with
    | nil => exact .inl ⟨h.closed, rfl, by rw [h.handed]; rfl, h.order⟩
    | cons message posted =>
      simp only [MessageChannel.sendImpl, h.closed, Bool.false_eq_true, if_false]
      refine .inl ⟨rfl, rfl, by rw [h.handed]; rfl, ?_⟩
      rw [← h.order, hp, List.append_assoc]
      rfl
  | onOpen =>
    simp only [h.idle, h.closed] at hstep
    cases hstep
    exact .inr ⟨rfl, rfl⟩
  | flush =>
    simp only [h.idle] at hstep
    cases hstep

/-! ### While `onOpen` runs -/

/-- One event between the beginning of `onOpen` and the end of its loop. -/
theorem step_flushing {pending rest : List Bytes} {e : Event} (hf : t.flushing = some pending)
    (hpending : ∀ m ∈ pending, texts [m] = [m]) (hstep : t.step e = some t')
    (hf' : t'.flushing = some rest) :
    (∀ m ∈ rest, texts [m] = [m]) ∧ t'.channel.opened_ = t.channel.opened_ ∧
      t'.handed = t.handed ∧ texts t'.sent = texts t.sent ++ e.message ∧
      ∀ es, t'.channel.posted ++ posts rest es = t.channel.posted ++ posts pending (e :: es) := by
  unfold Transmission.step at hstep
  cases e with
  | send message =>
    cases hstep
    cases hf.symm.trans hf'
    refine ⟨hpending, opened_send _ _, rfl, texts_append _ _, fun es => ?_⟩
    rw [posted_send, List.append_assoc, posts]
  | poll =>
    simp only [hf] at hstep
    cases hstep
  | onOpen =>
    simp only [hf] at hstep
    cases hstep
  | flush =>
    cases pending with
    | nil =>
      simp only [hf] at hstep
      cases hstep
      cases hf'
    | cons message pending =>
      simp only [hf] at hstep
      cases hstep
      cases hf'
      obtain ⟨hmessage, hrest⟩ := List.forall_mem_cons.mp hpending
      refine ⟨hrest, opened_send _ _, rfl, (List.append_nil _).symm, fun es => ?_⟩
      rw [posted_send, hmessage, List.append_assoc, posts]
      rfl

structure Open (t : Transmission) : Prop where
  opened : t.channel.opened_ = true
  idle : t.flushing = none

theorem Open.step {e : Event} (h : Open t) (hstep : t.step e = some t') :
    Open t' ∧ texts t'.sent = texts t.sent ++ e.message ∧
      t'.handed ++ t'.channel.posted = t.handed ++ t.channel.posted ++ e.message := by
  unfold Transmission.step at hstep
  cases e with
  | send message =>
    cases hstep
    refine ⟨⟨(opened_send _ _).trans h.opened, h.idle⟩, texts_append _ _, ?_⟩
    rw [posted_send, List.append_assoc]
    rfl
  | poll =>
    simp only [h.idle] at hstep
    cases hstep
    unfold MessageChannel.poll
    cases hp : t.channel.posted with
    | nil => exact ⟨⟨h.opened, rfl⟩, (List.append_nil _).symm, by simp [hp, Event.message]⟩
    | cons message posted =>
      simp only [MessageChannel.sendImpl, h.opened, if_true]
      exact ⟨⟨rfl, rfl⟩, (List.append_nil _).symm, by simp [Event.message]⟩
  | onOpen =>
    simp only [h.idle, h.opened] at hstep
    cases hstep
  | flush =>
    simp only [h.idle] at hstep
    cases hstep

theorem run_flushing {pending rest : List Bytes} (hf : t.flushing = some pending)
    (hpending : ∀ m ∈ pending, texts [m] = [m]) (hrun : t.run es = some t')
    (hf' : t'.flushing = some rest) :
    t'.channel.opened_ = t.channel.opened_ ∧ t'.handed = t.handed ∧
      texts t'.sent = texts t.sent ++ messages es ∧
      t'.channel.posted = t.channel.posted ++ posts pending es := by
  induction es generalizing t pending with
  | nil =>
    cases hrun
    exact ⟨rfl, rfl, (List.append_nil _).symm, by rw [posts, List.append_nil]⟩
  | cons e es ih =>
    obtain ⟨t₁, hstep, hrun⟩ := run_cons.mp hrun
    cases hf₁ : t₁.flushing with
    | none =>
      -- The loop is over, and does not begin again.
      have hopen : Open t₁ := by
        unfold Transmission.step at hstep
        cases e with
        | send message =>
          cases hstep
          cases hf.symm.trans hf₁
        | poll | onOpen =>
          simp only [hf] at hstep
          cases hstep
        | flush =>
          cases pending with
          | nil =>
            simp only [hf] at hstep
            cases hstep
            exact ⟨rfl, rfl⟩
          | cons message pending =>
            simp only [hf] at hstep
            cases hstep
            cases hf₁
      have hkept : Open t' := run_keeps (fun _ _ _ h hs => (h.step hs).1) hopen hrun
      cases hkept.idle.symm.trans hf'
    | some rest₁ =>
      obtain ⟨hrest, hopened, hhanded, hsent, hposted⟩ := step_flushing hf hpending hstep hf₁
      obtain ⟨hopened', hhanded', hsent', hposted'⟩ := ih hf₁ hrest hrun
      refine ⟨hopened'.trans hopened, hhanded'.trans hhanded, ?_, hposted'.trans (hposted es)⟩
      rw [hsent', hsent, List.append_assoc]
      rfl

theorem Open.run (h : Open t) (hrun : t.run es = some t') :
    Open t' ∧ texts t'.sent = texts t.sent ++ messages es ∧
      t'.handed ++ t'.channel.posted = t.handed ++ t.channel.posted ++ messages es := by
  induction es generalizing t with
  | nil =>
    cases hrun
    exact ⟨h, (List.append_nil _).symm, (List.append_nil _).symm⟩
  | cons e es ih =>
    obtain ⟨t₁, hstep, hrun⟩ := run_cons.mp hrun
    obtain ⟨hopen, hsent, hhanded⟩ := h.step hstep
    obtain ⟨hopen', hsent', hhanded'⟩ := ih hopen hrun
    refine ⟨hopen', ?_, ?_⟩
    · rw [hsent', hsent, List.append_assoc]
      rfl
    · rw [hhanded', hhanded, List.append_assoc]
      rfl

/-! ### What is transmitted -/

/-- All calls that are posted can be made, one after the other. -/
theorem Open.drain (h : Open t) : ∃ t', t.run (List.replicate t.channel.posted.length .poll) = some t' ∧
    t'.handed = t.handed ++ t.channel.posted := by
  generalize hp : t.channel.posted = posted
  induction posted generalizing t with
  | nil => exact ⟨t, rfl, (List.append_nil _).symm⟩
  | cons message posted ih =>
    have hstep : t.step .poll = some { t with
        channel := { t.channel with posted := posted }, handed := t.handed ++ [message] } := by
      simp only [Transmission.step, h.idle, MessageChannel.poll, hp, MessageChannel.sendImpl, h.opened,
        if_true]
    obtain ⟨t', hrun, hhanded⟩ := ih (h.step hstep).1 rfl
    refine ⟨t', ?_, ?_⟩
    · rw [List.length_cons, List.replicate_succ]
      exact run_cons.mpr ⟨_, hstep, hrun⟩
    · rw [hhanded, List.append_assoc]
      rfl

theorem Open.transmitting_iff (h : Open t) :
    Transmits t ↔ t.handed ++ t.channel.posted = texts t.sent := by
  obtain ⟨t', hrun, hhanded⟩ := h.drain
  unfold Transmits
  rw [hrun, ← hhanded]
  constructor
  · intro ⟨t'', ht'', htexts⟩
    cases ht''
    exact htexts
  · intro htexts
    exact ⟨t', rfl, htexts⟩

inductive Stage (es : List Event) (t : Transmission) : Prop where
  | gathers (h : Gathers t)
  | flushes (before during : List Event) (t₀ : Transmission) (rest : List Bytes)
      (events : es = before ++ .onOpen :: during) (first : new.run before = some t₀)
      (then_ : t₀.run (.onOpen :: during) = some t) (flushing : t.flushing = some rest)
  | opened (t₀ : Transmission) (during : List Event) (at_ : OpensAt es t₀ during) (h : Open t)

theorem Stage.step {e : Event} (h : Stage es t) (hrun : new.run es = some t)
    (hstep : t.step e = some t') : Stage (es ++ [e]) t' := by
  cases h with
  | gathers h =>
    cases h.step hstep with
    | inl h => exact .gathers h
    | inr h =>
      obtain ⟨rfl, rfl⟩ := h
      exact .flushes es [] t _ rfl hrun (run_cons.mpr ⟨_, hstep, rfl⟩) rfl
  | flushes before during t₀ rest events first then_ flushing =>
    have hthen : t₀.run (.onOpen :: (during ++ [e])) = some t' :=
      run_append.mpr ⟨t, then_, run_cons.mpr ⟨t', hstep, rfl⟩⟩
    cases hf' : t'.flushing with
    | some rest' =>
      refine .flushes before (during ++ [e]) t₀ rest' ?_ first hthen hf'
      rw [events, List.append_assoc]
      rfl
    | none =>
      unfold Transmission.step at hstep
      cases e with
      | send message =>
        cases hstep
        cases flushing.symm.trans hf'
      | poll | onOpen =>
        simp only [flushing] at hstep
        cases hstep
      | flush =>
        cases rest with
        | nil =>
          simp only [flushing] at hstep
          cases hstep
          refine .opened t₀ during ⟨before, [], t, ?_, first, then_, flushing⟩ ⟨rfl, rfl⟩
          rw [events, List.append_assoc]
          rfl
        | cons message rest =>
          simp only [flushing] at hstep
          cases hstep
          cases hf'
  | opened t₀ during at_ h =>
    obtain ⟨before, after, t₁, events, hfirst, hthen, hover⟩ := at_
    refine .opened t₀ during ⟨before, after ++ [e], t₁, ?_, hfirst, hthen, hover⟩ (h.step hstep).1
    rw [events]
    simp only [List.append_assoc, List.cons_append]

theorem run_stage (hrun : new.run es = some t) : Stage es t := by
  induction es using List.reverseRecOn generalizing t with
  | nil =>
    cases hrun
    exact .gathers new_gathers
  | append_singleton es e ih =>
    obtain ⟨t₁, hrun, hlast⟩ := run_append.mp hrun
    obtain ⟨t₂, hstep, hend⟩ := run_cons.mp hlast
    cases hend
    exact (ih hrun).step hrun hstep

/-- `onOpen` begins where nothing has been handed over. -/
theorem begins_gathering (hrun : new.run before = some t₀)
    (hthen : t₀.run (.onOpen :: during) = some t₁) :
    Gathers t₀ ∧ ({ t₀ with flushing := some t₀.channel.penddingMessages_ }).run during = some t₁ := by
  obtain ⟨t', hstep, hduring⟩ := run_cons.mp hthen
  cases run_stage hrun with
  | gathers h =>
    cases h.step hstep with
    | inl hno =>
      simp only [Transmission.step, h.idle, h.closed] at hstep
      cases hstep
      cases hno.idle
    | inr h' => exact ⟨h, h'.2 ▸ hduring⟩
  | flushes _ _ _ rest _ _ _ flushing =>
    simp only [Transmission.step, flushing] at hstep
    cases hstep
  | opened _ _ _ h =>
    simp only [Transmission.step, h.idle, h.opened] at hstep
    cases hstep

/-- A channel that is open has been opened once. It transmits in the order of the calls of `send` if
and only if what is queued when `onOpen` begins, and then what is posted until its loop is over,
are what is pending, what is queued and what is sent meanwhile. -/
theorem transmits_iff (hrun : new.run es = some t) (hopen : t.channel.opened_ = true) :
    (∃ t₀ during, OpensAt es t₀ during) ∧ ∀ t₀ during, OpensAt es t₀ during →
      (Transmits t ↔ t₀.channel.posted ++ posts t₀.channel.penddingMessages_ during =
        t₀.channel.penddingMessages_ ++ t₀.channel.posted ++ messages during) := by
  constructor
  · cases run_stage hrun with
    | gathers h => cases h.closed.symm.trans hopen
    | flushes before during t₀ rest events first then_ flushing =>
      obtain ⟨hgathers, hduring⟩ := begins_gathering first then_
      have hclosed := (run_flushing rfl hgathers.pending hduring flushing).1
      cases hgathers.closed.symm.trans (hclosed.symm.trans hopen)
    | opened t₀ during at_ _ => exact ⟨t₀, during, at_⟩
  · intro t₀ during ⟨before, after, t₁, events, hfirst, hthen, hover⟩
    obtain ⟨hgathers, hduring⟩ := begins_gathering hfirst hthen
    obtain ⟨hclosed, hhanded, hsent, hposted⟩ := run_flushing rfl hgathers.pending hduring hover
    -- The rest of the run begins with the end of the loop.
    have hrest : ∃ t₂, t₁.step .flush = some t₂ ∧ t₂.run after = some t := by
      rw [events] at hrun
      obtain ⟨t₀', hfirst', hrun⟩ := run_append.mp hrun
      cases hfirst.symm.trans hfirst'
      obtain ⟨t', hstep, hrun⟩ := run_cons.mp hrun
      obtain ⟨t₁', hduring', hrun⟩ := run_append.mp hrun
      cases hthen.symm.trans (run_cons.mpr ⟨t', hstep, hduring'⟩)
      exact run_cons.mp hrun
    obtain ⟨t₂, hlast, hafter⟩ := hrest
    simp only [Transmission.step, hover] at hlast
    cases hlast
    obtain ⟨hopened, hsent', hhanded'⟩ := Open.run ⟨rfl, rfl⟩ hafter
    simp only [hhanded, hgathers.handed, hposted, List.nil_append] at hhanded'
    rw [hopened.transmitting_iff, hhanded', hsent', hsent, List.append_cancel_right_eq, ← hgathers.order]

/-- A message that waits is sent before one that is sent once the channel is open. -/
theorem transmits_iff_pending : ∃ t, new.run [.send (str "a"), .poll, .onOpen, .flush, .flush,
    .send (str "b")] = some t ∧ Transmits t := by
  have hrun : ∃ t, new.run [.send (str "a"), .poll, .onOpen, .flush, .flush, .send (str "b")] =
      some t ∧ t.channel.opened_ = true := ⟨_, rfl, rfl⟩
  obtain ⟨t, hrun, hopen⟩ := hrun
  have hopens : OpensAt [.send (str "a"), .poll, .onOpen, .flush, .flush, .send (str "b")]
      ⟨⟨false, [str "a"], []⟩, none, [str "a"], []⟩ [.flush] :=
    ⟨[.send (str "a"), .poll], [.send (str "b")], _, rfl, rfl, rfl, rfl⟩
  exact ⟨t, hrun, ((transmits_iff hrun hopen).2 _ _ hopens).mpr rfl⟩

/-- A message whose turn has not come when `onOpen` begins overtakes one that waits. -/
theorem queued_overtakes : ∃ t, new.run [.send (str "a"), .poll, .send (str "b"), .onOpen, .flush,
    .flush] = some t ∧ t.channel.opened_ = true ∧ ¬ Transmits t := by
  refine ⟨_, rfl, rfl, fun h => ?_⟩
  obtain ⟨t', hrun, htexts⟩ := h
  cases hrun
  cases htexts

end Transmission
end Flingd.Sdk
