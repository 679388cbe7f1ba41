import Flingd.Base.Decimal
import Flingd.Base.Lines
import Flingd.Platform.PlatformPal

/-! `SSDPServer.cpp`: the searches that are received, and what is sent to them. -/
namespace Flingd.Ssdp
open Platform (isSpace)

def flintSearchTarget : Bytes := str "urn:dial-multiscreen-org:service:dial:1"

def flintHttpDescriptor : Bytes := str "ssdp/device-desc.xml"

def flintHttpPort : Nat := 9431

def flintSsdpAddress : Bytes := str "239.255.255.250"

def flintSsdpPort : Nat := 1900

def flintSsdpTtl : Nat := 1800

structure SSDPServer where
  usn_ : Bytes

namespace SSDPServer

def new (uuid : Bytes) : SSDPServer := ⟨str "uuid:" ++ uuid ++ str "::" ++ flintSearchTarget⟩

def joinLocation (ip : Bytes) : Bytes :=
  str "http://" ++ ip ++ str ":" ++ decimal flintHttpPort ++ str "/" ++ flintHttpDescriptor

/-- `date` is what `get_date` says. -/
def joinMessage (s : SSDPServer) (ip date : Bytes) (advertise : Bool) : Bytes :=
  joinCrlf ((if advertise then
      [str "NOTIFY * HTTP/1.1", str "HOST: " ++ flintSsdpAddress ++ str ":" ++ decimal flintSsdpPort,
        str "NT: " ++ flintSearchTarget, str "NTS: ssdp:alive"]
    else [str "HTTP/1.1 200 OK", str "ST: " ++ flintSearchTarget]) ++
    [str "USN: " ++ s.usn_, str "LOCATION: " ++ joinLocation ip,
      str "CACHE-CONTROL: max-age=" ++ decimal flintSsdpTtl,
      str "SERVER: Linux/3.8.13+, UPnP/1.0, Portable SDK for UPnP devices/1.6.18",
      str "DATE: " ++ date, str "BOOTID.UPNP.ORG: 9", str "CONFIGID.UPNP.ORG: 1",
      str "OPT: \"http://schemas.upnp.org/upnp/1/0/\"; ns=01", str "X-USER-AGENT: redsonic",
      str "EXT:", [], []])

/-- `is_any_of(" \"")`. -/
def isQuote (c : UInt8) : Bool := c = 32 ∨ c = 34

/-- A line is kept where it has a colon: the key is what stands before the first. -/
def readLine (vars : StdMap Bytes Bytes) (line : Bytes) : StdMap Bytes Bytes :=
  if 0 < line.length then
    match split 58 (trimIf isSpace line) with
    | key :: part :: parts => vars.insert key (trimIf isQuote (join 58 (part :: parts)))
    | _ => vars
  else vars

/-- The messages that are sent to the client; `ip` is what the network manager says. -/
def onSearch (s : SSDPServer) (ip date message : Bytes) : List Bytes :=
  let vars := (splitCrlf message).tail.foldl readLine .empty
  if 0 < vars.size then
    match vars.scan (str "MAN" = ·), vars.scan (str "MX" = ·), vars.scan (str "ST" = ·) with
    | some itMan, some _, some itSt =>
      if str "ssdp:all" = itMan.2 ∨ str "ssdp:discover" = itMan.2 ∧ flintSearchTarget = itSt.2 then
        if iequals ip [] then [] else [s.joinMessage ip date false]
      else []
    | _, _, _ => []
  else []

def parseMessage (s : SSDPServer) (ip date message : Bytes) : List Bytes :=
  if str "M-SEARCH" <+: message then s.onSearch ip date message else []

end SSDPServer
end Flingd.Ssdp
