import Flingd.Base.Rapidjson

/-! `MessageChannel.cpp`: a websocket of the SDK. What is sent is posted to the `io_service`,
and a message whose turn comes before the websocket is open waits for that. -/
namespace Flingd.Sdk

structure MessageChannel where
  opened_ : Bool
  penddingMessages_ : List Bytes
  /-- The calls of `sendImpl` that are posted. -/
  posted : List Bytes

namespace MessageChannel

def new : MessageChannel := ⟨false, [], []⟩

def send (c : MessageChannel) (message : Bytes) : MessageChannel :=
  if message.length = 0 then c else { c with posted := c.posted ++ [message] }

def addressed (message senderId : Bytes) : Json Bytes :=
  .object [(str "senderId", .text senderId), (str "data", .text message)]

def sendTo (json : Rapidjson) (c : MessageChannel) (message senderId : Bytes) : MessageChannel :=
  if message.length = 0 then c else c.send (json.write (addressed message senderId))

/-- With what goes to the websocket. -/
def sendImpl (c : MessageChannel) (message : Bytes) : MessageChannel × List Bytes :=
  if c.opened_ then (c, [message])
  else ({ c with penddingMessages_ := c.penddingMessages_ ++ [message] }, [])

/-- The `io_service` makes the call that was posted first. -/
def poll (c : MessageChannel) : MessageChannel × List Bytes :=
  match c.posted with
  | [] => (c, [])
  | message :: posted => { c with posted }.sendImpl message

def onOpen (c : MessageChannel) : MessageChannel :=
  { c.penddingMessages_.foldl send c with penddingMessages_ := [], opened_ := true }

/-! ### What is kept -/

variable {c : MessageChannel} {message x : Bytes}

theorem mem_posted_send (h : x ∈ (c.send message).posted) : x ∈ c.posted ∨ x = message := by
  unfold send at h
  split at h
  · exact .inl h
  · simpa using h

@[simp] theorem send_penddingMessages (c : MessageChannel) (message : Bytes) :
    (c.send message).penddingMessages_ = c.penddingMessages_ := by
  unfold send
  split <;> rfl

theorem mem_posted_onOpen (h : x ∈ c.onOpen.posted) : x ∈ c.posted ++ c.penddingMessages_ := by
  have hfold (messages : List Bytes) (c : MessageChannel) (h : x ∈ (messages.foldl send c).posted) :
      x ∈ c.posted ++ messages := by
    induction messages generalizing c with
    | nil => exact List.mem_append_left _ h
    | cons m messages ih =>
      have hmem := ih (c.send m) h
      rw [List.mem_append] at hmem
      cases hmem with
      | inl hmem =>
        cases mem_posted_send hmem with
        | inl hmem => exact List.mem_append_left _ hmem
        | inr heq => exact heq ▸ List.mem_append_right _ List.mem_cons_self
      | inr hmem => exact List.mem_append_right _ (List.mem_cons_of_mem _ hmem)
  exact hfold c.penddingMessages_ c h

/-- A call that is made sends the message or keeps it. -/
theorem mem_poll (h : x ∈ c.poll.1.posted ++ c.poll.1.penddingMessages_ ++ c.poll.2) :
    x ∈ c.posted ++ c.penddingMessages_ := by
  unfold poll at h
  cases hp : c.posted with
  | nil => simpa [hp] using h
  | cons m posted =>
    simp only [hp, sendImpl] at h
    split at h
    · simp only [List.mem_append, List.mem_cons, List.not_mem_nil, or_false] at h ⊢
      tauto
    · simp only [List.mem_append, List.mem_cons, List.not_mem_nil, or_false] at h ⊢
      tauto

end MessageChannel
end Flingd.Sdk
