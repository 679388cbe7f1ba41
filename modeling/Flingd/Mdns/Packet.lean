import Flingd.Base.Decimal
import Flingd.Mdns.Reader

/-! `MDNS.cpp`: the header, the questions and the records of a packet. The
16-bit sums of offsets wrap where the C++ converts them back to `uint16`. -/
namespace Flingd.Mdns
open Traced Reader

/-! ### `MDNSDef.h` -/

def headerLength : UInt16 := 0x0C

def typeAddress : UInt16 := 0x01
def typeNameserver : UInt16 := 0x02
def typeCname : UInt16 := 0x05
def typePtr : UInt16 := 0x0C
def typeTxt : UInt16 := 0x10
def typeAaaa : UInt16 := 0x1C
def typeSrv : UInt16 := 0x21

def classIn : UInt16 := 0x0001
def classUnicast : UInt16 := 0x8000

def flagResponse : UInt16 := 0x8000
def flagAuthoritative : UInt16 := 0x0400

def defaultBufSize : Int := 0x200
def defaultId : UInt16 := 0x0000
def defaultTtl : UInt32 := 0x0A

/-- `RR_TYPE_ANSWER`, `RR_TYPE_AUTH` and `RR_TYPE_ADD`. -/
inductive RecordType where
  | answer
  | auth
  | add
deriving DecidableEq, Repr

/-! ### The parts of a packet -/

@[ext] structure MDNSHeader where
  id : UInt16
  flag : UInt16
  queryNum : UInt16
  answerNum : UInt16
  authNum : UInt16
  addNum : UInt16
deriving DecidableEq, Repr

def MDNSHeader.isQuery (h : MDNSHeader) : Bool := h.flag &&& 0x8000 = 0

structure MDNSQuery where
  /-- `protocol_`; `none` is `NULL`. -/
  protocol : Option Buffer
  type : UInt16
  cls : UInt16
  length : UInt16
deriving DecidableEq, Repr

structure MDNSRecord where
  name : Buffer
  type : UInt16
  cls : UInt16
  ttl : UInt32
  dataLength : UInt16
  /-- `data_`; `none` is a pointer the constructor never set. -/
  data : Option Buffer
  length : UInt16
  recordType : RecordType
  /-- `priority_`, `weight_` and `port_`, which only an SRV record sets. -/
  srv : Option (UInt16 × UInt16 × UInt16)
deriving DecidableEq, Repr

/-- The packet, with the value `cursor` had at the end of the constructor. -/
structure MDNSIncoming where
  header : MDNSHeader
  queries : List MDNSQuery
  records : List MDNSRecord
  cursor : UInt16
deriving DecidableEq, Repr

/-- `inet_ntop(AF_INET, ..)`: the four bytes in decimal, with dots between. -/
def inetNtop4 (bs : Bytes) : Bytes := join 46 (bs.map fun b => decimal b.toNat)

section Constructors
-- `inet_ntop(AF_INET6, ..)` of the C library, on sixteen bytes.
variable (inetNtop6 : Bytes → Bytes)
variable (passes : Nat) (buf : Block) (data_len : UInt16)

def mDNSHeader (index : UInt16) : Traced Nat MDNSHeader := do
  let id ← get16 buf data_len (index + 0)
  let flag ← get16 buf data_len (index + 2)
  let query_num ← get16 buf data_len (index + 4)
  let answer_num ← get16 buf data_len (index + 6)
  let auth_num ← get16 buf data_len (index + 8)
  let add_num ← get16 buf data_len (index + 10)
  pure ⟨id, flag, query_num, answer_num, auth_num, add_num⟩

def mDNSQuery (index : UInt16) : Traced Nat MDNSQuery := do
  let (ret, out) ← getLabel passes buf data_len index (Buffer.new 128)
  let protocol_len := ret.toUInt16
  -- `protocol_len < 0` on an unsigned value
  let protocol := if (protocol_len.toNat : Int) < 0 then none else some out
  let type ← get16 buf data_len (protocol_len + index)
  let cls ← get16 buf data_len (protocol_len + index + 2)
  pure ⟨protocol, type, cls, protocol_len + 4⟩

/-- The `n` bytes that `inet_ntop` reads from a raw pointer. -/
def derefs (n i : Nat) : Traced Nat Bytes :=
  ⟨List.range' i n, some ((List.range' i n).map buf)⟩

/-- The `switch (type_)` of `mDNSRecord`, for a record whose data starts at
`at_` in 16 bits and at `ptr` from `_data_ptr`. -/
def recordData (type : UInt16) (at_ : UInt16) (ptr : Nat) :
    Traced Nat (Buffer × Option (UInt16 × UInt16 × UInt16)) := do
  let data := Buffer.new 128
  if type = typeAddress then
    let ip4 := inetNtop4 (← derefs buf 4 ptr)
    pure (data.appendRaw ip4 (strlen ip4), none)
  else if type = typeNameserver ∨ type = typeCname ∨ type = typePtr then
    let (_, data) ← getLabel passes buf data_len at_ data
    pure (data, none)
  else if type = typeSrv then
    let priority ← get16 buf data_len at_
    let weight ← get16 buf data_len (at_ + 2)
    let port ← get16 buf data_len (at_ + 4)
    let (_, data) ← getLabel passes buf data_len (at_ + 6) data
    pure (data, some (priority, weight, port))
  else if type = typeAaaa then
    let ip6 := inetNtop6 (← derefs buf 16 ptr)
    pure (data.appendRaw ip6 (strlen ip6), none)
  else pure (data, none)

/-- The block `if (data_length_ > 0)` of `mDNSRecord`. -/
def readData (data_length type at_ : UInt16) (ptr : Nat) :
    Traced Nat (Option Buffer × Option (UInt16 × UInt16 × UInt16)) :=
  if data_length > 0 then do
    let (data, srv) ← recordData inetNtop6 passes buf data_len type at_ ptr
    pure (some data, srv)
  else pure (none, none)

def mDNSRecord (index : UInt16) (record_type : RecordType) : Traced Nat MDNSRecord := do
  let (ret, name) ← getLabel passes buf data_len index (Buffer.new 128)
  let name_len := ret.toUInt16
  let type ← get16 buf data_len (name_len + index)
  let cls ← get16 buf data_len (name_len + index + 2)
  let ttl ← get32 buf data_len (name_len + index + 4)
  let data_length ← get16 buf data_len (name_len + index + 8)
  let length := name_len + 10 + data_length
  let (data, srv) ← readData inetNtop6 passes buf data_len data_length type
    (name_len + index + 10) (index.toNat + name_len.toNat + 10)
  pure ⟨name, type, cls, ttl, data_length, data, length, record_type, srv⟩

def readQueries : Nat → UInt16 → Traced Nat (List MDNSQuery × UInt16)
  | 0, cursor => pure ([], cursor)
  | num+1, cursor => do
    let question ← mDNSQuery passes buf data_len cursor
    let (questions, cursor) ← readQueries num (cursor + question.length)
    pure (question :: questions, cursor)

def readRecords (record_type : RecordType) : Nat → UInt16 →
    Traced Nat (List MDNSRecord × UInt16)
  | 0, cursor => pure ([], cursor)
  | num+1, cursor => do
    let record ← mDNSRecord inetNtop6 passes buf data_len cursor record_type
    let (records, cursor) ← readRecords record_type num (cursor + record.length)
    pure (record :: records, cursor)

def readSections (header : MDNSHeader) : Traced Nat MDNSIncoming := do
  let (queries, cursor) ← readQueries passes buf data_len header.queryNum.toNat headerLength
  let (answers, cursor) ←
    readRecords inetNtop6 passes buf data_len .answer header.answerNum.toNat cursor
  let (auths, cursor) ← readRecords inetNtop6 passes buf data_len .auth header.authNum.toNat cursor
  let (adds, cursor) ← readRecords inetNtop6 passes buf data_len .add header.addNum.toNat cursor
  pure ⟨header, queries, answers ++ auths ++ adds, cursor⟩

def parsePacket : Traced Nat MDNSIncoming := do
  let header ← mDNSHeader buf data_len 0
  readSections inetNtop6 passes buf data_len header

end Constructors

/-- `MDNSPacket` copies the datagram; `beyond` is the memory past the copy. -/
def packetBlock (beyond : Nat → UInt8) (datagram : Bytes) : Block :=
  ((Buffer.new datagram.length).appendRaw datagram datagram.length).dataPtr beyond

/-- `MDNSIncoming(data_ptr, len)`. -/
def mDNSIncoming (inetNtop6 : Bytes → Bytes) (beyond : Nat → UInt8) (datagram : Bytes)
    (passes : Nat) : Traced Nat MDNSIncoming :=
  parsePacket inetNtop6 passes (packetBlock beyond datagram) (UInt16.ofNat datagram.length)

end Flingd.Mdns
