import Flingd.Base.JsonReader
import Flingd.Base.Transcode
import Flingd.Platform.Flint
import Flingd.Platform.Platform

/-! Whether a request keeps its kind on its way to the client. Both sides take `app:?` off the
data of a native application, and the client looks for it. -/
namespace Flingd.Platform
open App Flint PlatformPal Json
variable {write : Json Bytes → Bytes} {org : OrgJson} {p : PlatformPal} {url : Bytes}

/-! ### Messages -/

theorem frame_inj {m m' : Bytes} (h : frame m = frame m') : m = m' := by
  have hbody (m : Bytes) : (frame m).dropWhile (· != 58) = 58 :: m := by
    have hsize : ∀ c ∈ decimal m.length, (c != 58) = true := by
      intro c hc
      obtain ⟨-, hle⟩ := mem_decimal hc
      rw [bne_iff_ne]
      rintro rfl
      exact absurd hle (by decide)
    rw [frame, List.dropWhile_append_of_pos hsize]
    rfl
  have hcons := congrArg (List.dropWhile (· != 58)) h
  rw [hbody, hbody] at hcons
  exact (List.cons_eq_cons.mp hcons).2

theorem sendMessageToAllSessions_inj {m m' : Bytes} (hne : p.sessions_ ≠ [])
    (h : p.sendMessageToAllSessions m = p.sendMessageToAllSessions m') : m = m' := by
  obtain ⟨w, ws, hw⟩ := List.exists_cons_of_ne_nil hne
  simp only [sendMessageToAllSessions, hw, List.map_cons, PlatformPal.mk.injEq,
    List.cons.injEq, TcpSessionWrapper.send, TcpSessionWrapper.mk.injEq,
    List.append_cancel_left_eq] at h
  exact frame_inj h.1.2.2.1

theorem onReceiver_sends {type s : Bytes} {calls : List Call} (hne : p.sessions_ ≠ []) :
    (∃ message, p.onReceiver write type s = p.sendMessageToAllSessions message ∧
      processMessage org (decodeUtf8 message) = calls) ↔
        processMessage org (decodeUtf8 (write (receiverMessage type s))) = calls := by
  have hsend : p.onReceiver write type s =
      p.sendMessageToAllSessions (write (receiverMessage type s)) :=
    if_pos (List.length_pos_iff.mpr hne)
  constructor
  · rintro ⟨message, hmessage, hcalls⟩
    rw [hsend] at hmessage
    rwa [sendMessageToAllSessions_inj hne hmessage]
  · exact fun h => ⟨_, hsend, h⟩

/-! ### The library of the client -/

/-- The client's library reads what the daemon's library writes, where no object has two members
of one name. -/
def Understands (write : Json Bytes → Bytes) (org : OrgJson) : Prop :=
  ∀ j, Json.Plain j → (j.map decodeUtf8).Distinct →
    org.read (decodeUtf8 (write j)) = some (j.map decodeUtf8)

theorem decodeUtf8_str {s : String} (h : ∀ c ∈ s.toList, c.toNat < 128) (x : Bytes) :
    decodeUtf8 (str s ++ x) = javaString s ++ decodeUtf8 x := by
  have hlt : ∀ n ∈ s.toList.map Char.toNat, n < 128 := by simpa using h
  have hunits := Json.transparent_decodeUtf8.units hlt x
  rwa [List.map_map, List.map_map] at hunits

theorem decodeUtf8_word {s : String} (h : ∀ c ∈ s.toList, c.toNat < 128) :
    decodeUtf8 (str s) = javaString s := by
  have hword := decodeUtf8_str h []
  rwa [decodeUtf8_nil, List.append_nil, List.append_nil] at hword

theorem decodeUtf8_type : decodeUtf8 (str "type") = javaString "type" :=
  decodeUtf8_word (forall_of_all (by decide))

theorem decodeUtf8_app_info : decodeUtf8 (str "app_info") = javaString "app_info" :=
  decodeUtf8_word (forall_of_all (by decide))

theorem decodeUtf8_url : decodeUtf8 (str "url") = javaString "url" :=
  decodeUtf8_word (forall_of_all (by decide))

theorem cStr_drop (url : Bytes) (n : Nat) : cStr ((cStr url).drop n) = (cStr url).drop n :=
  cStr_of_not_mem fun h => zero_notMem_cStr url (List.mem_of_mem_drop h)

theorem receiverMessage_plain {type : Bytes} (h : 0 ∉ type) (s : Bytes) :
    Json.Plain (receiverMessage type s) := by
  have hcode {x : Bytes} (hx : 0 ∉ x) : ∀ b ∈ x, CodeUnit.code b ≠ 0 := by
    intro b hb hzero
    have hb0 : b = 0 := UInt8.toNat_inj.mp hzero
    exact hx (hb0 ▸ hb)
  unfold receiverMessage
  refine .object ?_ ?_
  · rw [List.forall_mem_cons, List.forall_mem_singleton]
    exact ⟨hcode (x := str "type") (by decide), hcode (x := str "app_info") (by decide)⟩
  · rw [List.forall_mem_cons, List.forall_mem_singleton]
    refine ⟨.string (hcode h), .object ?_ ?_⟩
    · rw [List.forall_mem_singleton]
      exact hcode (x := str "url") (by decide)
    · rw [List.forall_mem_singleton]
      exact .string (hcode (zero_notMem_cStr s))

theorem receiverMessage_map (type s : Bytes) : (receiverMessage type s).map decodeUtf8 =
    .object [(javaString "type", .string (decodeUtf8 type)),
      (javaString "app_info", .object [(javaString "url", .string (decodeUtf8 (cStr s)))])] := by
  simp only [receiverMessage, Json.map, Json.mapMembers, decodeUtf8_type, decodeUtf8_app_info,
    decodeUtf8_url]

theorem receiverMessage_distinct (type s : Bytes) :
    ((receiverMessage type s).map decodeUtf8).Distinct := by
  rw [receiverMessage_map]
  refine .object (show [javaString "type", javaString "app_info"].Nodup by decide) ?_
  rw [List.forall_mem_cons, List.forall_mem_singleton]
  exact ⟨.string _, .object (List.nodup_singleton _)
    (List.forall_mem_singleton.mpr (.string _))⟩

theorem processMessage_launch (h : Understands write org) (s : Bytes) :
    processMessage org (decodeUtf8 (write (receiverMessage (str "LAUNCH_RECEIVER") s))) =
      processUrl (javaString "LAUNCH_RECEIVER") (decodeUtf8 (cStr s)) := by
  have hplain : (0 : UInt8) ∉ str "LAUNCH_RECEIVER" := by decide
  have hread := h _ (receiverMessage_plain hplain s) (receiverMessage_distinct _ s)
  have hword : decodeUtf8 (str "LAUNCH_RECEIVER") = javaString "LAUNCH_RECEIVER" :=
    decodeUtf8_word (forall_of_all (by decide))
  rw [receiverMessage_map, hword] at hread
  unfold processMessage
  rw [hread]
  rfl

theorem processMessage_stop (h : Understands write org) (s : Bytes) :
    processMessage org (decodeUtf8 (write (receiverMessage (str "STOP_RECEIVER") s))) =
      processUrl (javaString "STOP_RECEIVER") (decodeUtf8 (cStr s)) := by
  have hplain : (0 : UInt8) ∉ str "STOP_RECEIVER" := by decide
  have hread := h _ (receiverMessage_plain hplain s) (receiverMessage_distinct _ s)
  have hword : decodeUtf8 (str "STOP_RECEIVER") = javaString "STOP_RECEIVER" :=
    decodeUtf8_word (forall_of_all (by decide))
  rw [receiverMessage_map, hword] at hread
  unfold processMessage
  rw [hread]
  rfl

/-! ### The address at the client -/

theorem lowerStartsWith_append {word : JavaString}
    (h : word.map (fun u => if 65 ≤ u ∧ u ≤ 90 then u + 32 else u) = word) (s : JavaString) :
    lowerStartsWith (word ++ s) word = true := by
  rw [lowerStartsWith, List.take_left, h, decide_eq_true rfl]

theorem length_of_lowerStartsWith {s word : JavaString} (h : lowerStartsWith s word = true) :
    word.length ≤ s.length := by
  have hlen := congrArg List.length (of_decide_eq_true h)
  rw [List.length_map, List.length_take] at hlen
  omega

theorem lowerStartsWith_web (h : isWebApp url = true) :
    (lowerStartsWith (decodeUtf8 url) (javaString "http://") ||
      lowerStartsWith (decodeUtf8 url) (javaString "https://")) = true := by
  rw [isWebApp, Bool.or_eq_true, List.isPrefixOf_iff_prefix, List.isPrefixOf_iff_prefix] at h
  rw [Bool.or_eq_true]
  cases h with
  | inl h =>
    obtain ⟨rest, rfl⟩ := h
    rw [decodeUtf8_str (forall_of_all (by decide))]
    exact .inl (lowerStartsWith_append (by decide) _)
  | inr h =>
    obtain ⟨rest, rfl⟩ := h
    rw [decodeUtf8_str (forall_of_all (by decide))]
    exact .inr (lowerStartsWith_append (by decide) _)

/-- What comes back of a native application is never all of its data. -/
theorem processUrl_ne {s : JavaString} (type : JavaString) :
    processUrl type s ≠ [.onNativeAppStart s] ∧ processUrl type s ≠ [.onNativeAppStop s] := by
  have hshort (hlong : lowerStartsWith s (javaString "app:?") = true) : s.drop 5 ≠ s := by
    intro heq
    have hle := length_of_lowerStartsWith hlong
    have hlen := congrArg List.length heq
    rw [List.length_drop] at hlen
    have hfive : (javaString "app:?").length = 5 := by decide
    omega
  unfold processUrl
  split_ifs with hweb hlaunch hstop hnative hlaunch hstop
  · simp
  · simp
  · simp
  · simpa using hshort hnative
  · simpa using hshort hnative
  · simp
  · simp

theorem ieraseFirst_native (h : isNativeApp url = true) :
    ieraseFirst (str "app:?") url = url.drop 5 := by
  rw [isNativeApp, List.isPrefixOf_iff_prefix] at h
  obtain ⟨rest, rfl⟩ := h
  rfl

/-! ### Requests -/

def startCall (url : Bytes) : Call :=
  if isWebApp url then .onWebAppStart (decodeUtf8 url)
  else .onNativeAppStart (decodeUtf8 (url.drop 5))

def stopCall (url : Bytes) : Call :=
  if isWebApp url then .onWebAppStop (decodeUtf8 url)
  else .onNativeAppStop (decodeUtf8 (url.drop 5))

/-- A launch sends a message which the client answers with the right callback alone. -/
def LaunchKept (write : Json Bytes → Bytes) (org : OrgJson) (p : PlatformPal) (url : Bytes) :
    Prop :=
  ∃ message, p.launchApplication write url = (true, p.sendMessageToAllSessions message) ∧
    processMessage org (decodeUtf8 message) = [startCall (parseAppInfo url)]

/-- A stop sends a message which the client answers with the right callback alone. -/
def StopKept (write : Json Bytes → Bytes) (org : OrgJson) (p : PlatformPal) (url : Bytes) : Prop :=
  ∃ message, p.stopApplication write url = p.sendMessageToAllSessions message ∧
    processMessage org (decodeUtf8 message) = [stopCall (parseAppInfo url)]

theorem web_kept (hread : Understands write org) (hne : p.sessions_ ≠ [])
    (hweb : isWebApp (parseAppInfo url) = true) :
    LaunchKept write org p url ∧ StopKept write org p url := by
  have hcases := lowerStartsWith_web hweb
  have hcstr : cStr (parseAppInfo url) = parseAppInfo url := cStr_cStr url
  have hlaunch : processMessage org (decodeUtf8 (write (receiverMessage (str "LAUNCH_RECEIVER")
      (parseAppInfo url)))) = [startCall (parseAppInfo url)] := by
    rw [processMessage_launch hread, hcstr, startCall, if_pos hweb, processUrl, if_pos hcases]
    rfl
  have hstop : processMessage org (decodeUtf8 (write (receiverMessage (str "STOP_RECEIVER")
      (parseAppInfo url)))) = [stopCall (parseAppInfo url)] := by
    rw [processMessage_stop hread, hcstr, stopCall, if_pos hweb, processUrl, if_pos hcases]
    rfl
  obtain ⟨message, hmessage, hcall⟩ := (onReceiver_sends hne).mpr hlaunch
  obtain ⟨message', hmessage', hcall'⟩ := (onReceiver_sends hne).mpr hstop
  refine ⟨⟨message, ?_, hcall⟩, ⟨message', ?_, hcall'⟩⟩
  · unfold launchApplication
    rw [if_pos hweb, onLaunchWebApp, hmessage]
  · unfold stopApplication
    rw [if_pos hweb, onStopWebApp, hmessage']

theorem native_lost (hread : Understands write org) (hne : p.sessions_ ≠ [])
    (hweb : ¬ isWebApp (parseAppInfo url) = true)
    (hnative : isNativeApp (parseAppInfo url) = true) :
    ¬ LaunchKept write org p url ∧ ¬ StopKept write org p url := by
  -- What the client is told is the data without `app:?`.
  have hdata : cStr (ieraseFirst (str "app:?") (parseAppInfo url)) = (parseAppInfo url).drop 5 := by
    rw [ieraseFirst_native hnative]
    exact cStr_drop url 5
  constructor
  · rintro ⟨message, hmessage, hcall⟩
    unfold launchApplication at hmessage
    rw [if_neg hweb, if_pos hnative, Prod.mk.injEq] at hmessage
    have hcalls := (onReceiver_sends hne).mp ⟨message, hmessage.2, hcall⟩
    rw [processMessage_launch hread, hdata, startCall, if_neg hweb] at hcalls
    exact (processUrl_ne _).1 hcalls
  · rintro ⟨message, hmessage, hcall⟩
    unfold stopApplication at hmessage
    rw [if_neg hweb, if_pos hnative] at hmessage
    have hcalls := (onReceiver_sends hne).mp ⟨message, hmessage, hcall⟩
    rw [processMessage_stop hread, hdata, stopCall, if_neg hweb] at hcalls
    exact (processUrl_ne _).2 hcalls

/-- A launch and a stop keep their kind for the web, and for no native application. -/
theorem kind_kept_iff (hread : Understands write org) (hne : p.sessions_ ≠ [])
    (haccepted : (isWebApp (parseAppInfo url) || isNativeApp (parseAppInfo url)) = true) :
    (LaunchKept write org p url ↔ isWebApp (parseAppInfo url) = true) ∧
      (StopKept write org p url ↔ isWebApp (parseAppInfo url) = true) := by
  by_cases hweb : isWebApp (parseAppInfo url) = true
  · obtain ⟨hlaunch, hstop⟩ := web_kept hread hne hweb
    exact ⟨iff_of_true hlaunch hweb, iff_of_true hstop hweb⟩
  · rw [Bool.or_eq_true] at haccepted
    obtain ⟨hlaunch, hstop⟩ := native_lost hread hne hweb (haccepted.resolve_left hweb)
    exact ⟨iff_of_false hlaunch hweb, iff_of_false hstop hweb⟩

def compactJson : OrgJson where
  read := Json.read
  valueOf := Json.write
  toDouble _ := none
  toBoolean
    | .bool b => some b
    | _ => none

theorem understands_compactJson : Understands Json.write compactJson := by
  intro j hj _
  have hwrite : decodeUtf8 (Json.write j) = Json.write (j.map decodeUtf8) :=
    Json.transparent_decodeUtf8.write j
  rw [hwrite]
  exact Json.read_write (Json.transparent_decodeUtf8.plain hj)

theorem kind_kept_iff_web :
    LaunchKept Json.write compactJson ⟨[.start]⟩ (str "https://tv/") ∧
      StopKept Json.write compactJson ⟨[.start]⟩ (str "https://tv/") := by
  have hkept := @kind_kept_iff Json.write compactJson ⟨[.start]⟩ (str "https://tv/")
    understands_compactJson (List.cons_ne_nil _ _) (by decide)
  exact ⟨hkept.1.mpr (by decide), hkept.2.mpr (by decide)⟩

/-- A native application whose data is `x`. -/
theorem native_data_lost : ¬ LaunchKept Json.write compactJson ⟨[.start]⟩ (str "app:?x") :=
  (native_lost understands_compactJson (List.cons_ne_nil _ _) (by decide) (by decide)).1

end Flingd.Platform
