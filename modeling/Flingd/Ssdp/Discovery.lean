import Flingd.App.DeviceDesc
import Flingd.App.Paths
import Flingd.Http.Urls
import Flingd.Net.NetworkManager
import Flingd.Ssdp.Searches

/-! From a message of the server to an application: what a client finds that goes on from each answer
to the next question. -/
namespace Flingd.Ssdp
open App (Daemon Device HttpRequest Action handlerOf)
open Http (UrlParts UrlParser.parse)
open Mdns (inetNtop4)
open Net (Ifaddrs getIpAddr Online)
open Platform (isSpace)
open SSDPServer (isQuote readLine joinLocation)

/-! ### The fields of a message -/

def fieldName (line : Bytes) : Bytes := line.takeWhile (· ≠ 58)

def fieldValue (line : Bytes) : Bytes :=
  trimIf isQuote ((line.dropWhile (· ≠ 58)).tail.rdropWhile isSpace)

/-- The line has a name, and nothing of it is trimmed away. -/
def Keyed (line : Bytes) : Prop := line.head?.any (!isSpace ·) = true ∧ 58 ∈ line

instance (line : Bytes) : Decidable (Keyed line) := inferInstanceAs (Decidable (_ ∧ _))

theorem readLine_field (vars : StdMap Bytes Bytes) {line : Bytes} (h : Keyed line) :
    readLine vars line = vars.insert (fieldName line) (fieldValue line) := by
  obtain ⟨hhead, hcolon⟩ := h
  obtain ⟨rest, hrest⟩ : ∃ rest, line.dropWhile (· ≠ 58) = 58 :: rest := by
    cases hdrop : line.dropWhile (· ≠ 58) with
    | nil => exact absurd (List.dropWhile_eq_nil_iff.mp hdrop 58 hcolon) (by decide)
    | cons c rest =>
      have hc := List.head?_dropWhile_not (fun c : UInt8 => decide (c ≠ 58)) line
      rw [hdrop] at hc
      obtain rfl : c = 58 := by simpa using hc
      exact ⟨rest, rfl⟩
  have hline : line = fieldName line ++ 58 :: rest := by
    rw [← hrest]
    exact (List.takeWhile_append_dropWhile).symm
  have hname : 58 ∉ fieldName line := fun hin => absurd (List.mem_takeWhile_imp hin) (by decide)
  have htrim : trimIf isSpace line = fieldName line ++ 58 :: rest.rdropWhile isSpace := by
    have hdrop : line.dropWhile isSpace = line := by
      cases line with
      | nil => cases hhead
      | cons c line => exact List.dropWhile_cons_of_neg (by simpa using hhead)
    rw [trimIf, hdrop]
    conv_lhs => rw [hline]
    exact rdropWhile_append_cons (by decide) _ _
  obtain ⟨part, parts, hparts⟩ : ∃ part parts, split 58 (rest.rdropWhile isSpace) = part :: parts :=
    List.exists_cons_of_ne_nil (List.splitOn_ne_nil 58 _)
  have hsplit : split 58 (trimIf isSpace line) = fieldName line :: part :: parts := by
    rw [htrim, split_cons hname, hparts]
  have hjoin : join 58 (part :: parts) = rest.rdropWhile isSpace := by rw [← hparts, join_split]
  unfold readLine
  rw [if_pos (List.length_pos_of_mem hcolon), hsplit, fieldValue, hrest, List.tail_cons, ← hjoin]

def readMessage (message : Bytes) : StdMap Bytes Bytes :=
  (splitCrlf message).tail.foldl readLine .empty

theorem readMessage_lines {command : Bytes} {lines : List Bytes} (hcommand : ¬ crlf <:+: command)
    (hplain : ∀ line ∈ lines, Keyed line ∧ ¬ crlf <:+: line) :
    readMessage (joinCrlf (command :: (lines ++ [[], []]))) =
      lines.foldl (fun vars line => vars.insert (fieldName line) (fieldValue line)) .empty := by
  have hlines : ∀ line ∈ command :: (lines ++ [[], []]), ¬ crlf <:+: line := by
    simp only [List.mem_cons, List.mem_append, List.not_mem_nil, or_false]
    rintro line (rfl | hmem | rfl | rfl)
    · exact hcommand
    · exact (hplain line hmem).2
    · decide
    · decide
  have hread (vars : StdMap Bytes Bytes) : lines.foldl readLine vars =
      lines.foldl (fun vars line => vars.insert (fieldName line) (fieldValue line)) vars := by
    clear hlines
    induction lines generalizing vars with
    | nil => rfl
    | cons line lines ih =>
      obtain ⟨hhead, hrest⟩ := List.forall_mem_cons.mp hplain
      rw [List.foldl_cons, List.foldl_cons, readLine_field vars hhead.1, ih hrest]
  rw [readMessage, splitCrlf_joinCrlf (List.cons_ne_nil _ _) hlines, List.tail_cons, List.foldl_append,
    hread]
  rfl

/-! ### The messages of the server -/

def flintLines (s : SSDPServer) (ip date : Bytes) (advertise : Bool) : List Bytes :=
  (if advertise then
      [str "HOST: " ++ flintSsdpAddress ++ str ":" ++ decimal flintSsdpPort,
        str "NT: " ++ flintSearchTarget, str "NTS: ssdp:alive"]
    else [str "ST: " ++ flintSearchTarget]) ++
    [str "USN: " ++ s.usn_, str "LOCATION: " ++ joinLocation ip,
      str "CACHE-CONTROL: max-age=" ++ decimal flintSsdpTtl,
      str "SERVER: Linux/3.8.13+, UPnP/1.0, Portable SDK for UPnP devices/1.6.18",
      str "DATE: " ++ date, str "BOOTID.UPNP.ORG: 9", str "CONFIGID.UPNP.ORG: 1",
      str "OPT: \"http://schemas.upnp.org/upnp/1/0/\"; ns=01", str "X-USER-AGENT: redsonic",
      str "EXT:"]

def flintCommand (advertise : Bool) : Bytes :=
  if advertise then str "NOTIFY * HTTP/1.1" else str "HTTP/1.1 200 OK"

theorem joinMessage_lines (s : SSDPServer) (ip date : Bytes) (advertise : Bool) :
    s.joinMessage ip date advertise =
      joinCrlf (flintCommand advertise :: (flintLines s ip date advertise ++ [[], []])) := by
  cases advertise <;> rfl

theorem no_crlf {line : Bytes} (h : 13 ∉ line) : ¬ crlf <:+: line := fun hin =>
  h (hin.subset List.mem_cons_self)

theorem mem_inetNtop4 {bs : Bytes} {c : UInt8} (h : c ∈ inetNtop4 bs) : c = 46 ∨ isDigit c = true := by
  rcases mem_join h with hdot | ⟨part, hpart, hc⟩
  · exact .inl hdot
  · obtain ⟨b, -, rfl⟩ := List.mem_map.mp hpart
    exact .inr (List.all_eq_true.mp (all_isDigit_decimal b.toNat) c hc)

theorem isHostChar_inetNtop4 {bs : Bytes} {c : UInt8} (h : c ∈ inetNtop4 bs) :
    Http.UrlParser.isHostChar c = true := by
  rcases mem_inetNtop4 h with rfl | hdigit
  · rfl
  · simp [Http.UrlParser.isHostChar, hdigit]

theorem Keyed.append {line : Bytes} (h : Keyed line) (rest : Bytes) : Keyed (line ++ rest) := by
  refine ⟨?_, List.mem_append_left _ h.2⟩
  cases line with
  | nil => cases h.1
  | cons c line => exact h.1

/-- No line is more than one, and each has a name. -/
theorem flintLines_plain {s : SSDPServer} {ip date : Bytes} (husn : ¬ crlf <:+: str "USN: " ++ s.usn_)
    (hip : 13 ∉ ip) (hdate : ¬ crlf <:+: str "DATE: " ++ date) (advertise : Bool) :
    ∀ line ∈ flintLines s ip date advertise, Keyed line ∧ ¬ crlf <:+: line := by
  have hlocation : 13 ∉ str "LOCATION: " ++ joinLocation ip := by
    simp only [joinLocation, List.mem_append, not_or]
    exact ⟨by decide, ⟨⟨⟨⟨by decide, hip⟩, by decide⟩, fun h => absurd (mem_decimal h).1 (by decide)⟩,
      by decide⟩, by decide⟩
  have hage : 13 ∉ str "CACHE-CONTROL: max-age=" ++ decimal flintSsdpTtl := by
    rw [List.mem_append, not_or]
    exact ⟨by decide, fun h => absurd (mem_decimal h).1 (by decide)⟩
  have hhost : 13 ∉ str "HOST: " ++ flintSsdpAddress ++ str ":" ++ decimal flintSsdpPort := by
    rw [List.mem_append, not_or]
    exact ⟨by decide, fun h => absurd (mem_decimal h).1 (by decide)⟩
  intro line hmem
  rcases List.mem_append.mp hmem with hfirst | hmem
  · cases advertise with
    | true =>
      rw [if_pos rfl] at hfirst
      simp only [List.mem_cons, List.not_mem_nil, or_false] at hfirst
      rcases hfirst with rfl | rfl | rfl
      · exact ⟨((Keyed.append (by decide) _).append _).append _, no_crlf hhost⟩
      · exact ⟨Keyed.append (by decide) _, no_crlf (by decide)⟩
      · exact ⟨by decide, no_crlf (by decide)⟩
    | false =>
      rw [if_neg Bool.false_ne_true, List.mem_singleton] at hfirst
      subst hfirst
      exact ⟨Keyed.append (by decide) _, no_crlf (by decide)⟩
  · simp only [List.mem_cons, List.not_mem_nil, or_false] at hmem
    rcases hmem with rfl | rfl | rfl | rfl | rfl | rfl | rfl | rfl | rfl | rfl
    · exact ⟨Keyed.append (by decide) _, husn⟩
    · exact ⟨Keyed.append (by decide) _, no_crlf hlocation⟩
    · exact ⟨Keyed.append (by decide) _, no_crlf hage⟩
    · exact ⟨by decide, no_crlf (by decide)⟩
    · exact ⟨Keyed.append (by decide) _, hdate⟩
    · exact ⟨by decide, no_crlf (by decide)⟩
    · exact ⟨by decide, no_crlf (by decide)⟩
    · exact ⟨by decide, no_crlf (by decide)⟩
    · exact ⟨by decide, no_crlf (by decide)⟩
    · exact ⟨by decide, no_crlf (by decide)⟩

/-- What is found under `LOCATION`. -/
theorem readMessage_location {s : SSDPServer} {ip date : Bytes}
    (husn : ¬ crlf <:+: str "USN: " ++ s.usn_) (hip : 13 ∉ ip)
    (hdate : ¬ crlf <:+: str "DATE: " ++ date) (advertise : Bool) :
    (readMessage (s.joinMessage ip date advertise)).scan (str "LOCATION" = ·) =
      some (str "LOCATION", joinLocation ip) := by
  have hcommand : ¬ crlf <:+: flintCommand advertise := by
    cases advertise <;> exact no_crlf (by decide)
  have hvalue : fieldValue (str "LOCATION: " ++ joinLocation ip) = joinLocation ip := by
    have hlast : ∃ init, joinLocation ip = init ++ [108] :=
      ⟨str "http://" ++ ip ++ str ":" ++ decimal flintHttpPort ++ str "/" ++ str "ssdp/device-desc.xm",
        by simp only [joinLocation, List.append_assoc]; rfl⟩
    obtain ⟨init, hinit⟩ := hlast
    have hspace : (32 :: joinLocation ip).rdropWhile isSpace = 32 :: joinLocation ip := by
      rw [hinit, ← List.cons_append, List.rdropWhile_concat_neg _ _ _ (by decide)]
    have hquote : (joinLocation ip).rdropWhile isQuote = joinLocation ip := by
      rw [hinit, List.rdropWhile_concat_neg _ _ _ (by decide)]
    have hrest : ((str "LOCATION: " ++ joinLocation ip).dropWhile (· ≠ 58)).tail =
        32 :: joinLocation ip := rfl
    rw [fieldValue, hrest, hspace, trimIf]
    exact hquote
  have hfind : (flintLines s ip date advertise).find? (fun line => fieldName line = str "LOCATION") =
      some (str "LOCATION: " ++ joinLocation ip) := by
    cases advertise <;> rfl
  rw [joinMessage_lines, readMessage_lines hcommand (flintLines_plain husn hip hdate advertise),
    StdMap.scan_foldl_insert, hfind, Option.map_some, hvalue]
  rfl

/-! ### The way to an application -/

def descPath : Bytes := str "/ssdp/device-desc.xml"

/-- The description is asked for at the location, with the address as the host. -/
theorem described {ip : Bytes} {json : Rapidjson} {device : Device} {daemon : Daemon} {uuid : Bytes}
    {r : HttpRequest} (hpath : r.path = descPath) (hhost : r.host = ip)
    (hname : device.deviceName_ ≠ []) : daemon.onHttpRequest json device uuid r =
      .ok (daemon, [.response (.description (ip ++ str ":9431") ip device.deviceName_
        device.modelName_ device.uuid)]) := by
  have hhandler : handlerOf descPath = some .deviceDesc := by decide +kernel
  have hempty : iequals device.deviceName_ [] = false := by simpa [iequals] using hname
  unfold Daemon.onHttpRequest
  rw [hpath, hhandler]
  dsimp only
  rw [App.deviceDescHandler, hempty, hhost]
  rfl

/-- A client that has got the message comes from it to the description of the device with the address,
from there to the applications, and to each that is not mistaken. -/
structure Leads (message ip : Bytes) : Prop where
  location : ∃ location, (readMessage message).scan (str "LOCATION" = ·) =
      some (str "LOCATION", location) ∧
    UrlParser.parse location = some ⟨str "http", [], ip, some 9431, descPath, [], []⟩
  description : ∀ json device (daemon : Daemon) uuid r, r.path = descPath → r.host = ip →
    device.deviceName_ ≠ [] → daemon.onHttpRequest json device uuid r =
      .ok (daemon, [.response (.description (ip ++ str ":9431") ip device.deviceName_
        device.modelName_ device.uuid)])
  base : ∃ base, (App.descriptionHeaders (ip ++ str ":9431")).scan (str "Application-URL" = ·) =
      some (str "Application-URL", base) ∧
    UrlParser.parse base = some ⟨str "http", [], ip, some 9431, str "/apps", [], []⟩
  application : ∀ appId : Bytes, appId.head? = some 126 → App.Unmistakable appId →
    ∀ json device (daemon : Daemon) uuid r, r.path = str "/apps" ++ str "/" ++ appId →
      daemon.onHttpRequest json device uuid r =
        Daemon.called (daemon.attend json uuid r appId false)

/-- Where an interface of the device is online, the address of one is found, and every message with it
leads to the applications. -/
theorem messages_lead {platform : Net.Platform} {ifap : List Ifaddrs} {ip : Bytes}
    (hip : getIpAddr platform (some ifap) = .ok ip) (hne : ip ≠ []) {s : SSDPServer} {date : Bytes}
    (husn : ¬ crlf <:+: str "USN: " ++ s.usn_) (hdate : ¬ crlf <:+: str "DATE: " ++ date)
    (advertise : Bool) :
    (∃ addr, Online platform.names ifap addr ∧ ip = inetNtop4 [addr.a, addr.b, addr.c, addr.d]) ∧
      Leads (s.joinMessage ip date advertise) ip := by
  obtain ⟨addr, honline, rfl⟩ := (Net.getIpAddr_ok hip).resolve_left fun h => hne h.1
  have hhost : ∀ c ∈ inetNtop4 [addr.a, addr.b, addr.c, addr.d], Http.UrlParser.isHostChar c = true :=
    fun c hc => isHostChar_inetNtop4 hc
  have hcr : 13 ∉ inetNtop4 [addr.a, addr.b, addr.c, addr.d] := fun h =>
    absurd (hhost 13 h) (by decide)
  have hscheme : Http.UrlParser.Captured .scheme (str "http") := ⟨rfl, forall_of_all (by decide)⟩
  refine ⟨⟨addr, honline, rfl⟩, ⟨_, readMessage_location husn hcr hdate advertise, ?_⟩,
    fun json device daemon uuid r => described, ⟨_, rfl, ?_⟩, fun appId htilde hid =>
      (App.reachable_of_unmistakable htilde hid).resource⟩
  · have hurl := Http.UrlParser.parse_service 9431 descPath (by decide) hscheme
      hhost (by decide) rfl (forall_of_all (by decide +kernel)) (by decide +kernel)
    have hpath : descPath = str "/" ++ flintHttpDescriptor := rfl
    rw [hpath, ← List.append_assoc] at hurl
    exact hurl
  · have hurl := Http.UrlParser.parse_service 9431 (str "/apps") (by decide) hscheme
      hhost (by decide) rfl (forall_of_all (by decide)) (by decide)
    have hport : str ":9431" = str ":" ++ decimal 9431 := by decide +kernel
    rw [hport, ← List.append_assoc, ← List.append_assoc]
    exact hurl

def home : List Ifaddrs :=
  [⟨str "lo", some (.inet ⟨127, 0, 0, 1⟩), true⟩, ⟨str "wlan0", some .other, true⟩,
    ⟨str "eth0", some (.inet ⟨10, 0, 0, 2⟩), true⟩]

theorem messages_lead_home :
    (∃ addr, Online Net.Platform.linux.names home addr ∧
      str "10.0.0.2" = inetNtop4 [addr.a, addr.b, addr.c, addr.d]) ∧
    Leads ((SSDPServer.new (str "1f2e")).joinMessage (str "10.0.0.2")
      (str "Mon, 06 Oct 2014 08:00:00 GMT") true) (str "10.0.0.2") :=
  messages_lead (by decide +kernel) (by decide) (by decide +kernel)
    (by decide +kernel) true

end Flingd.Ssdp
