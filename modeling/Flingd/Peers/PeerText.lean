import Flingd.Peers.Events
import Flingd.Base.Rapidjson
import Flingd.Http.Queries
import Flingd.Http.Targets

/-! What `PeerServer::onPeerMessage` reads of the text of a message, and
`PeerServer::onWebsocketConnection` of the text of a resource. -/
namespace Flingd.Peers
open Http Outcome

def Member.of : Json Bytes → Member
  | .null => .null
  | .string s => .string (cStr s)
  | _ => .other

/-- `none` is a document that is no object. The text that is relayed has the member `src` in
addition. -/
def readDocument (json : Rapidjson) (message : Bytes) : Option Document :=
  match json.parse message with
  | some (.object members) => some
    ⟨.of (Json.get members (str "type")), .of (Json.get members (str "dst")),
      .of (Json.get members (str "payload")),
      fun src => json.write (.object (members ++ [(str "src", .text src)]))⟩
  | _ => none

def Readable (json : Rapidjson) (message : Bytes) : Prop :=
  ∃ members, json.parse message = some (.object members) ∧
    ((Json.get members (str "type")).isNull = false →
      ∃ type, Json.get members (str "type") = .string type ∧
        (PeerServer.isRelayed (cStr type) = true → (Json.get members (str "dst")).isNull = false →
          (Json.get members (str "payload")).isNull = false →
            ∃ dst, Json.get members (str "dst") = .string dst))

namespace PeerServer
variable {json : Rapidjson} {s s' : PeerServer} {message : Bytes}

/-- `onMessage` of the text of a message. -/
def messageText (json : Rapidjson) (s : PeerServer) (session : Nat) (message : Bytes) :
    Except Fault PeerServer := s.message session (readDocument json message)

/-- `onWebsocketConnection` of the text of a resource. -/
def connectText (s : PeerServer) (resource : Bytes) : Except Fault PeerServer :=
  s.connect ((UrlParser.parse resource).map UrlParts.url)

/-- The key, the id and the token of a peer arrive where no value has a `=` and nothing has
an `@`. -/
theorem connectText_pairs {pairs : List (Bytes × Bytes)} (h : UrlParser.Splits pairs)
    (hvalues : ∀ kv ∈ pairs, 61 ∉ kv.2)
    (htarget : UrlParser.IsTarget (str "peerjs") (some (UrlParser.buildQuery pairs)))
    (hat : 64 ∉ UrlParser.buildQuery pairs) (s : PeerServer) :
    ∃ url : Url, isPeerPath url.path = true ∧
      (∀ kv ∈ pairs, UrlParser.getValue (UrlParser.parseQuery url.query) kv.1 = kv.2) ∧
      s.connectText (UrlParser.target (str "peerjs") (some (UrlParser.buildQuery pairs))) =
        s.connect (some url) := by
  have huser : UrlParser.hasUser
      (UrlParser.target (str "peerjs") (some (UrlParser.buildQuery pairs))) = false := by
    refine UrlParser.hasUser_of_notMem fun hmem => ?_
    rcases List.mem_append.mp hmem with hmem | hmem
    · exact absurd hmem (by decide)
    · rcases List.mem_cons.mp hmem with hmem | hmem
      · exact absurd hmem (by decide)
      · exact hat hmem
  have hpath : isPeerPath (str "/peerjs") = true := by decide
  refine ⟨⟨str "/peerjs", UrlParser.buildQuery pairs⟩, hpath, fun kv hkv => ?_, ?_⟩
  · rw [UrlParser.getValue_member h hkv, if_neg (hvalues kv hkv)]
  · rw [connectText, UrlParser.parse_target htarget huser]
    rfl

/-! ### Faults -/

theorem sendTo_fault (s : PeerServer) (session : Nat) (frame : Frame) :
    Outcome.Ends (s.sendTo session frame) (· ≠ .misused) fun _ => True := by
  unfold sendTo updateSession derefSession
  cases s.sessions session with
  | none => exact Outcome.Ends.error (by simp)
  | some w => trivial

theorem addPeerMessages_fault (s : PeerServer) (id : Bytes) (pm : PeerMessage) :
    Outcome.Ends (s.addPeerMessages id pm) (· ≠ .misused) fun _ => True := by
  unfold addPeerMessages
  split
  · trivial
  · exact Outcome.Ends.error (by simp)
  · trivial

theorem transmit_fault (throws : Nat → Bool) (depth : Nat) (s : PeerServer) (pm : PeerMessage) :
    Outcome.Ends (transmit throws depth s pm) (· ≠ .misused) fun _ => True := by
  induction depth generalizing s pm with
  | zero => exact Outcome.Ends.error (by simp)
  | succ depth ih =>
    unfold transmit
    dsimp only
    split
    · split
      · split
        · exact ih _ _
        · exact sendTo_fault s _ _
      · exact ih _ _
    · split
      · exact addPeerMessages_fault s _ _
      · split <;> trivial

def Takes (d : Option Document) : Prop :=
  ∃ d', d = some d' ∧ (d'.type ≠ .null → ∃ type, d'.type = .string type ∧
    (isRelayed type = true → d'.dst ≠ .null → d'.payload ≠ .null → ∃ dst, d'.dst = .string dst))

theorem deref_fault (s : PeerServer) (ptr : Nat) :
    Outcome.Ends (s.deref ptr) (· ≠ .misused) fun _ => True := by
  unfold deref
  split
  · trivial
  · exact Outcome.Ends.error (by simp)

theorem onPeerMessage_takes {d : Option Document} (h : Takes d) (s : PeerServer) (ptr : Nat) :
    Outcome.Ends (s.onPeerMessage ptr d) (· ≠ .misused) fun _ => True := by
  obtain ⟨d, rfl, hkinds⟩ := h
  refine (deref_fault s ptr).bind fun p _ _ => ?_
  dsimp only
  by_cases htype : d.type = .null
  · rw [if_pos htype]
    trivial
  obtain ⟨type, heq, hkinds⟩ := hkinds htype
  rw [if_neg htype, heq, Member.getString, ok_bind]
  by_cases hrelayed : isRelayed type = true
  · rw [if_pos hrelayed]
    by_cases hdst : d.dst = .null
    · rw [if_pos hdst]
      trivial
    by_cases hpayload : d.payload = .null
    · rw [if_neg hdst, if_pos hpayload]
      trivial
    obtain ⟨dst, heq⟩ := hkinds hrelayed hdst hpayload
    rw [if_neg hdst, if_neg hpayload, heq, Member.getString, ok_bind]
    exact transmit_fault _ _ s _
  · rw [if_neg hrelayed]
    trivial

theorem getString_misused {m : Member} (h : ∀ text, m ≠ .string text) :
    m.getString = .error .misused := by
  cases m with
  | string text => exact absurd rfl (h text)
  | _ => rfl

theorem onPeerMessage_misuses {ptr : Nat} {p : Peer} {d : Option Document}
    (hp : s.deref ptr = .ok p) (h : ¬ Takes d) : s.onPeerMessage ptr d = .error .misused := by
  unfold onPeerMessage
  rw [hp, ok_bind]
  cases d with
  | none => rfl
  | some d =>
    dsimp only
    have hnull : d.type ≠ .null := fun hnull => h ⟨d, rfl, fun hne => absurd hnull hne⟩
    rw [if_neg hnull]
    by_cases htype : ∃ type, d.type = .string type
    · obtain ⟨type, heq⟩ := htype
      rw [heq, Member.getString, ok_bind]
      have hrest : ¬ (isRelayed type = true → d.dst ≠ .null → d.payload ≠ .null →
          ∃ dst, d.dst = .string dst) := fun hkinds => h ⟨d, rfl, fun _ => ⟨type, heq, hkinds⟩⟩
      simp only [Classical.not_imp, not_exists] at hrest
      obtain ⟨hrelayed, hdst, hpayload, hstring⟩ := hrest
      rw [if_pos hrelayed, if_neg hdst, if_neg hpayload, getString_misused hstring]
      rfl
    · rw [getString_misused fun type heq => htype ⟨type, heq⟩]
      rfl

theorem message_misused {session : Nat} {d : Option Document} :
    s.message session d ≠ .error .misused ↔ (∀ ptr p, s.speaker session = some ptr →
      s.deref ptr = .ok p → 0 < p.messageSlots → Takes d) := by
  unfold message speaker
  match hw : s.sessions session with
  | none => simp
  | some ⟨false, bound, sent⟩ => simp
  | some ⟨true, none, sent⟩ => simp
  | some ⟨true, some ptr, sent⟩ =>
    dsimp only
    constructor
    · rintro hok ptr' p hptr hp hslots
      cases hptr
      by_contra hnot
      obtain ⟨n, hn⟩ := Nat.exists_eq_succ_of_ne_zero (Nat.pos_iff_ne_zero.mp hslots)
      refine hok ?_
      rw [hp, ok_bind, hn, runSlots, onPeerMessage_misuses hp hnot]
      rfl
    · intro htakes hmisused
      have hends : Outcome.Ends
          (s.deref ptr >>= fun p => runSlots (onPeerMessage · ptr d) p.messageSlots s)
          (· ≠ .misused) fun _ => True := by
        refine (deref_fault s ptr).bind fun p hp _ => ?_
        by_cases hslots : 0 < p.messageSlots
        · have htaken (t : PeerServer) := onPeerMessage_takes (htakes ptr p rfl hp hslots) t ptr
          exact Outcome.Ends.runSlots (fun t _ => htaken t) trivial
        · rw [Nat.eq_zero_of_not_pos hslots]
          trivial
      exact hends.of_error hmisused rfl

/-! ### Texts -/

theorem member_null {j : Json Bytes} : Member.of j = .null ↔ j.isNull = true := by
  cases j <;> simp [Member.of, Json.isNull]

theorem member_string {j : Json Bytes} {text : Bytes} :
    Member.of j = .string text ↔ ∃ s, j = .string s ∧ cStr s = text := by
  cases j <;> simp [Member.of]

theorem takes_iff : Takes (readDocument json message) ↔ Readable json message := by
  unfold Takes Readable readDocument
  constructor
  · rintro ⟨d, hd, hkinds⟩
    split at hd
    · rename_i members hparse
      cases hd
      refine ⟨members, hparse, fun htype => ?_⟩
      obtain ⟨type, heq, hkinds⟩ := hkinds fun hnull => by
        rw [member_null, htype] at hnull
        cases hnull
      obtain ⟨text, htext, rfl⟩ := member_string.mp heq
      refine ⟨text, htext, fun hrelayed hdst hpayload => ?_⟩
      obtain ⟨dst, hdst⟩ := hkinds hrelayed (fun hnull => by
        rw [member_null, hdst] at hnull
        cases hnull) fun hnull => by
        rw [member_null, hpayload] at hnull
        cases hnull
      obtain ⟨text, htext, -⟩ := member_string.mp hdst
      exact ⟨text, htext⟩
    · cases hd
  · rintro ⟨members, hparse, hkinds⟩
    rw [hparse]
    refine ⟨_, rfl, fun htype => ?_⟩
    have hnot {name : Bytes} (hne : Member.of (Json.get members name) ≠ .null) :
        (Json.get members name).isNull = false := by
      rw [Ne, member_null] at hne
      simpa using hne
    obtain ⟨type, heq, hkinds⟩ := hkinds (hnot htype)
    refine ⟨cStr type, member_string.mpr ⟨type, heq, rfl⟩, fun hrelayed hdst hpayload => ?_⟩
    obtain ⟨dst, heq⟩ := hkinds hrelayed (hnot hdst) (hnot hpayload)
    exact ⟨cStr dst, member_string.mpr ⟨dst, heq, rfl⟩⟩

/-- No peer hears the text, or it can be read. -/
def Understands (json : Rapidjson) (s : PeerServer) (session : Nat) (message : Bytes) : Prop :=
  ∀ ptr p, s.speaker session = some ptr → s.deref ptr = .ok p → 0 < p.messageSlots →
    Readable json message

theorem messageText_misused {session : Nat} :
    s.messageText json session message ≠ .error .misused ↔ s.Understands json session message := by
  unfold messageText Understands
  rw [message_misused, takes_iff]

end PeerServer
end Flingd.Peers
