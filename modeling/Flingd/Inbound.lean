import Flingd.App.Accessors
import Flingd.Peers.PeerText
import Flingd.Platform.PalText

/-! When no text from outside makes the daemon use an accessor of `rapidjson` outside its
precondition. -/
namespace Flingd
open Outcome App

/-- Each of the four handlers keeps to the preconditions just where it does not look at the text, or
the members that it looks at have the kinds that they are read as. -/
theorem accessors_keep_iff {es : List Daemon.Event} {s : Daemon} (hrun : Daemon.start.run es = .ok s)
    (p : Peers.PeerServer) (json : Rapidjson) :
    (∀ handler uuid message, s.onText json handler uuid message ≠ .error .misused ↔
      s.Understands json handler message) ∧
    (∀ appId authToken uuid data, s.onPostText json appId authToken uuid data ≠ .error .misused ↔
      s.BodyTextReadable json appId data) ∧
    (∀ session message, p.messageText json session message ≠ .error .misused ↔
      p.Understands json session message) ∧
    (∀ message, Platform.TcpSessionWrapper.processMessage json message ≠ none ↔
      Platform.TcpSessionWrapper.Understands json message) := by
  obtain ⟨ph, q, h⟩ := Daemon.run_sound hrun
  refine ⟨fun handler uuid message => ?_, fun appId authToken uuid data => ?_,
    fun session message => ?_, fun message => ?_⟩
  · exact Daemon.onText_misused h
  · exact Daemon.onPostText_misused h
  · exact Peers.PeerServer.messageText_misused
  · exact Platform.TcpSessionWrapper.processMessage_iff

theorem accessors_keep_registered : ∃ s, Daemon.start.run Daemon.registered = .ok s ∧
    (s.onText .compact 0 (str "token") (str "5") ≠ .error .misused ↔
      s.Understands .compact 0 (str "5")) := by
  obtain ⟨s, hs⟩ := Daemon.registered_ok
  exact ⟨s, hs, (accessors_keep_iff hs Peers.start .compact).1 0 (str "token") (str "5")⟩

def heartbeatText : Bytes := Json.write (.object [(str "type", .text (str "heartbeat")),
  (str "appid", .text (str "~a")), (str "heartbeat", .text (str "pong"))])

/-- The heartbeat of a receiver that is registered: the string of the whole document is asked for. -/
theorem heartbeat_misread : ∃ s, Daemon.start.run Daemon.registered = .ok s ∧
    s.onText .compact 0 (str "token") heartbeatText = .error .misused := by
  obtain ⟨s, hs, h⟩ := yields_iff.mp (show yields (Daemon.start.run Daemon.registered) (fun s =>
    faults (s.onText .compact 0 (str "token") heartbeatText) .misused) = true by decide +kernel)
  exact ⟨s, hs, faults_iff.mp h⟩

end Flingd
