import Flingd.Http.Urls
import Flingd.Sdk.LastWord
import Flingd.Ws.Arrivals

/-! Where the address leads that a receiver gives away. What a GET shows as `channelBaseUrl` takes a
sender to the channel that the receiver itself has opened. -/
namespace Flingd.Sdk
open Http UrlParser Ws Ws.WebsocketServer
variable {json : Rapidjson} {s : WebsocketServer} {es : List WebsocketServer.Event}
  {ip data url id : Bytes}

/-- The URL of `messageBusManager_`. -/
def busUrl : Bytes := str "ws://127.0.0.1:9439/channels/channelBaseUrl"

def busChannel : Bytes := str "channelBaseUrl"

theorem isPathChar_of_isIdChar {c : UInt8} (h : isIdChar c = true) :
    isPathChar c = true ∧ c ≠ 92 ∧ c ≠ 64 ∧ c ≠ 47 := by
  have hne {b : UInt8} (hb : isIdChar b = false) : c ≠ b := by
    rintro rfl
    rw [h] at hb
    cases hb
  refine ⟨?_, hne (by decide), hne (by decide), hne (by decide)⟩
  have h63 : c ≠ 63 := hne (by decide)
  have h35 : c ≠ 35 := hne (by decide)
  simp [isPathChar, h63, h35]

/-- A name that is put behind a path makes no slashes to merge. -/
theorem no_slashes {path : Bytes} (hpath : ¬ str "//" <:+: path) (hid : IsId id) :
    ¬ str "//" <:+: path ++ id := by
  have hslash : 47 ∉ id := fun h => (isPathChar_of_isIdChar (hid.2 47 h)).2.2.2 rfl
  intro h
  rcases List.infix_append_iff.mp h with h | h | ⟨x, y, hxy, hx, hy⟩
  · exact hpath h
  · exact hslash (h.subset List.mem_cons_self)
  · -- the second slash is in the name
    cases y with
    | nil =>
      rw [List.append_nil] at hxy
      exact hpath (hxy ▸ hx.isInfix)
    | cons c y =>
      have hc : c ∈ str "//" := hxy ▸ List.mem_append_right _ List.mem_cons_self
      have hslashes : str "//" = [47, 47] := rfl
      obtain rfl : c = 47 := by simpa [hslashes] using hc
      exact hslash (hy.subset List.mem_cons_self)

theorem scheme_ws : Captured .scheme (str "ws") := ⟨by decide +kernel, by decide +kernel⟩

/-- The URL of a sender is that of the device, the port of the channels and the path of the sender. -/
theorem parse_senderUrl (hip : ∀ c ∈ ip, isHostChar c = true) (hid : IsId id) :
    parse (str "ws://" ++ ip ++ str ":9439/channels/channelBaseUrl" ++ str "/senders/" ++ id) =
      some ⟨str "ws", [], ip, some 9439, senderPath busChannel id, [], []⟩ := by
  have htext : str "ws://" ++ ip ++ str ":9439/channels/channelBaseUrl" ++ str "/senders/" ++ id =
      str "ws" ++ str "://" ++ ip ++ str ":" ++ decimal 9439 ++ senderPath busChannel id := by
    have hscheme : str "ws://" = str "ws" ++ str "://" := rfl
    have hpath : str ":9439/channels/channelBaseUrl" =
        str ":" ++ decimal 9439 ++ receiverPath busChannel := by decide +kernel
    rw [hscheme, hpath, senderPath]
    simp only [List.append_assoc]
  rw [htext]
  refine parse_service 9439 _ (by decide) scheme_ws hip (by decide) ?_ ?_ ?_
  · rfl
  · intro c hc
    rw [senderPath, List.mem_append] at hc
    rcases hc with hc | hc
    · revert c
      decide +kernel
    · obtain ⟨hpath, hback, hat, -⟩ := isPathChar_of_isIdChar (hid.2 c hc)
      exact ⟨hpath, hback, hat⟩
  · exact no_slashes (by decide +kernel) hid

/-- The URL that a GET shows as `channelBaseUrl`, with the name of a sender behind it, leads to the
device and there, in every state of the server, to the channel of the receiver, just where that is
there and the name is not taken. The receiver's own URL opens the channel of that name. -/
theorem senders_find_receiver (hrun : start.run json es = .ok s)
    (hip : ∀ c ∈ ip, isHostChar c = true) (hid : IsId id)
    (hurl : (str "channelBaseUrl", url) ∈ Dialogue.dataAt ip data) :
    ∃ sender receiver, parse (url ++ str "/senders/" ++ id) = some sender ∧
      parse busUrl = some receiver ∧ sender.host = ip ∧ sender.port = receiver.port ∧
      (∀ r, (∃ s', s.connect sender.path = .ok s' ∧ Joins s s' busChannel id r) ↔
        ∃ senders, s.handler r = some (.receiver busChannel senders) ∧ id ∉ senders.keys) ∧
      ((∃ s' senders, s.connect receiver.path = .ok s' ∧
          s'.handler s.nextSession = some (.receiver busChannel senders)) ↔
        ∀ r senders, s.handler r ≠ some (.receiver busChannel senders)) := by
  have hzero : 0 ∉ ip := fun h => absurd (hip 0 h) (by decide)
  obtain rfl : url = str "ws://" ++ ip ++ str ":9439/channels/channelBaseUrl" := by
    rw [Dialogue.dataAt, cStr_of_not_mem hzero] at hurl
    rcases List.mem_cons.mp hurl with h | h
    · exact congrArg Prod.snd h
    · split at h
      · have hname : str "channelBaseUrl" = str "customData" :=
          congrArg Prod.fst (List.mem_singleton.mp h)
        exact absurd hname (by decide)
      · exact absurd h List.not_mem_nil
  have hown : parse busUrl =
      some ⟨str "ws", [], str "127.0.0.1", some 9439, receiverPath busChannel, [], []⟩ := by
    have htext : busUrl = str "ws" ++ str "://" ++ str "127.0.0.1" ++ str ":" ++ decimal 9439 ++
        receiverPath busChannel := by decide +kernel
    rw [htext]
    exact parse_service 9439 _ (by decide) scheme_ws (by decide +kernel) (by decide) rfl
      (forall_of_all (by decide)) (by decide +kernel)
  refine ⟨_, _, parse_senderUrl hip hid, hown, rfl, rfl, fun r => ?_, ?_⟩
  · rw [joins_iff hrun busChannel id r]
    exact ⟨fun h => h.2.2, fun h => ⟨by decide +kernel, hid, h⟩⟩
  · exact opens_iff (run_linked hrun) (List.prefix_append _ _) (by decide +kernel) (by decide +kernel)

def arrivals : List WebsocketServer.Event :=
  [.connect (receiverPath busChannel), .connect (senderPath busChannel (str "a"))]

theorem senders_find_receiver_second : ∃ s, start.run .compact arrivals = .ok s ∧
    ∃ sender receiver, parse (str "ws://10.0.0.2:9439/channels/channelBaseUrl/senders/b") =
        some sender ∧ parse busUrl = some receiver ∧ sender.host = str "10.0.0.2" ∧
      sender.port = receiver.port ∧
      (∀ r, (∃ s', s.connect sender.path = .ok s' ∧ Joins s s' busChannel (str "b") r) ↔
        ∃ senders, s.handler r = some (.receiver busChannel senders) ∧ str "b" ∉ senders.keys) ∧
      ((∃ s' senders, s.connect receiver.path = .ok s' ∧
          s'.handler s.nextSession = some (.receiver busChannel senders)) ↔
        ∀ r senders, s.handler r ≠ some (.receiver busChannel senders)) := by
  obtain ⟨s, hs, -⟩ := Outcome.yields_iff.mp (show Outcome.yields (start.run .compact arrivals)
    (fun _ => true) = true by decide +kernel)
  have hip : ∀ c ∈ str "10.0.0.2", isHostChar c = true := by decide +kernel
  have hid : IsId (str "b") := by decide +kernel
  have hurl : (str "channelBaseUrl", str "ws://10.0.0.2:9439/channels/channelBaseUrl") ∈
      Dialogue.dataAt (str "10.0.0.2") [] := by decide
  exact ⟨s, hs, senders_find_receiver hs hip hid hurl⟩

end Flingd.Sdk
