import Flingd.Mdns.Composer

/-! `MDNSServer.cpp`: which datagrams are answered, and with what. -/
namespace Flingd.Mdns
open Composer

/-- What `Platform` and `NetworkManager` say of the machine. -/
structure Host where
  deviceName : Bytes
  modelName : Bytes
  ipAddr : Bytes

def Host.texts (h : Host) : List Bytes :=
  [str "id=" ++ h.deviceName, str "ve=02", str "md=" ++ h.modelName, str "ic=/setup/icon.png",
    str "ca=5", str "fn=" ++ h.deviceName, str "st=0"]

/-- The buffer `response` that `parseMessage` sends. -/
def response (protocol_ : Bytes) (h : Host) : Buffer :=
  let cache := StdMap.empty
  let response := Buffer.new defaultBufSize
  let response := setHeader response defaultId (flagResponse ||| flagAuthoritative) 1 1 0 3
  let (response, cache) :=
    addQueryPtr response protocol_ typePtr (classUnicast ||| classIn) cache
  let (response, cache) := addAnswerPtr response protocol_ typePtr classIn defaultTtl
    (h.deviceName ++ str "." ++ protocol_) cache
  let (response, cache) := addAdditionalSrv response (h.deviceName ++ str "." ++ protocol_) typeSrv
    classIn defaultTtl (h.deviceName ++ h.ipAddr ++ str ".local") cache
  let (response, cache) := addAdditionalTxt response (h.deviceName ++ str "." ++ protocol_) typeTxt
    classIn defaultTtl h.texts cache
  let (response, _) := addAdditionalAddr response (h.deviceName ++ h.ipAddr ++ str ".local")
    typeAddress classIn defaultTtl h.ipAddr cache
  response

/-- What a `char *` into the buffer reads as. -/
def cString (s : Bytes) : Bytes := s.takeWhile (· != 0)

def MDNSIncoming.compareProtocol (incoming : MDNSIncoming) (protocol : Bytes) : Bool :=
  incoming.queries.any fun q =>
    match q.protocol with
    | some p => iequals (cString p.data) protocol
    | none => false

def openflint : Bytes := str "_openflint._tcp.local"

/-- `parseMessage`; the buffer it sends, if it sends one. -/
def parseMessage (protocol_ : Bytes) (h : Host) (inetNtop6 : Bytes → Bytes)
    (beyond : Nat → UInt8) (message : Bytes) (passes : Nat) : Traced Nat (Option Buffer) := do
  let incoming ← mDNSIncoming inetNtop6 beyond message passes
  if ¬ incoming.header.isQuery then pure none
  else if ¬ incoming.compareProtocol protocol_ then pure none
  else pure (some (response protocol_ h))

end Flingd.Mdns
