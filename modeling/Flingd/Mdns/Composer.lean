import Flingd.Mdns.Packet
import Flingd.Mdns.Writer

/-! `Composer.cpp`. The length of a record's data is written as zero and patched
when the data is there. -/
namespace Flingd.Mdns.Composer
open Writer

def setHeader (buf : Buffer) (id flag query_num answer_num auth_num add_num : UInt16) : Buffer :=
  let buf := write16 buf id
  let buf := write16 buf flag
  let buf := write16 buf query_num
  let buf := write16 buf answer_num
  let buf := write16 buf auth_num
  write16 buf add_num

/-- The argument `cls` is not looked at. -/
def addQueryPtr (buf : Buffer) (label : Bytes) (type _cls : UInt16) (cache : Cache) :
    Buffer × Cache :=
  let (_, buf, cache) := writeLabel buf label cache
  let buf := write16 buf type
  (write16 buf (classUnicast ||| classIn), cache)

def addRecord (buf : Buffer) (label : Bytes) (type cls : UInt16) (ttl : UInt32) (cache : Cache) :
    Buffer × Cache :=
  let (_, buf, cache) := writeLabel buf label cache
  let buf := write16 buf type
  let buf := write16 buf cls
  (write32 buf ttl, cache)

def addAnswerPtr (buf : Buffer) (label : Bytes) (type cls : UInt16) (ttl : UInt32) (data : Bytes)
    (cache : Cache) : Buffer × Cache :=
  let (buf, cache) := addRecord buf label type cls ttl cache
  let position := buf.index.toNat
  let buf := write16 buf 0
  let (data_length, buf, cache) := writeLabel buf data cache
  (replace16 buf (UInt16.ofInt data_length) position, cache)

def addAdditionalSrv (buf : Buffer) (label : Bytes) (type cls : UInt16) (ttl : UInt32)
    (data : Bytes) (cache : Cache) : Buffer × Cache :=
  let (buf, cache) := addRecord buf label type cls ttl cache
  let position := buf.index.toNat
  let buf := write16 buf 0
  let buf := write16 buf 0x0000
  let buf := write16 buf 0x0000
  let buf := write16 buf 0x24d7
  let (label_length, buf, cache) := writeLabel buf data cache
  (replace16 buf (6 + UInt16.ofInt label_length) position, cache)

def addAdditionalTxt (buf : Buffer) (label : Bytes) (type cls : UInt16) (ttl : UInt32)
    (data : List Bytes) (cache : Cache) : Buffer × Cache :=
  let (buf, cache) := addRecord buf label type cls ttl cache
  let position := buf.index.toNat
  let buf := write16 buf 0
  let (data_length, buf) := writeVector buf data 0
  (replace16 buf (UInt16.ofInt data_length) position, cache)

def addAdditionalAddr (buf : Buffer) (label : Bytes) (type cls : UInt16) (ttl : UInt32)
    (data : Bytes) (cache : Cache) : Buffer × Cache :=
  let (buf, cache) := addRecord buf label type cls ttl cache
  let position := buf.index.toNat
  let buf := write16 buf 0
  let (data_length, buf) := writeIp buf data
  (replace16 buf (UInt16.ofInt data_length) position, cache)

end Flingd.Mdns.Composer
