import Flingd.Base.Decimal
import Flingd.Base.StdMap
import Flingd.Mdns.Buffer

/-! `Writer.cpp`. A name is written part by part, until what remains of it has
an entry in the cache; then a pointer to that entry's offset ends it. -/
namespace Flingd.Mdns.Writer

abbrev Cache := StdMap Bytes UInt16

def writeRaw (buf : Buffer) (ptr : Bytes) (len : UInt8) : Buffer := buf.appendRaw ptr len.toNat

def write8 (buf : Buffer) (data : UInt8) : Buffer := buf.appenduc data

def write16 (buf : Buffer) (data : UInt16) : Buffer :=
  (buf.appenduc ((data >>> 8) &&& 0xFF).toUInt8).appenduc (data &&& 0xFF).toUInt8

def write32 (buf : Buffer) (data : UInt32) : Buffer :=
  (((buf.appenduc ((data >>> 24) &&& 0xFF).toUInt8).appenduc
    ((data >>> 16) &&& 0xFF).toUInt8).appenduc
      ((data >>> 8) &&& 0xFF).toUInt8).appenduc (data &&& 0xFF).toUInt8

def replace8 (buf : Buffer) (data : UInt8) (index : Nat) : Buffer := buf.replace index data

def replace16 (buf : Buffer) (data : UInt16) (index : Nat) : Buffer :=
  replace8 (replace8 buf ((data >>> 8) &&& 0xFF).toUInt8 index) (data &&& 0xFF).toUInt8 (index + 1)

/-- The loop of `write_ip`: an element that is no number is only logged. -/
def writeElements (buf : Buffer) (elements : List Bytes) : Buffer :=
  elements.foldl (fun buf element =>
    match lexicalCastInt element with
    | some n => buf.appenduc (UInt8.ofInt n)
    | none => buf) buf

def writeIp (buf : Buffer) (ip : Bytes) : Int × Buffer :=
  let vector := split 46 ip
  if vector.length ≠ 4 then (-1, buf) else (4, writeElements buf vector)

/-- `write_vector`, with the value returned so far. -/
def writeVector (buf : Buffer) : List Bytes → Int → Int × Buffer
  | [], ret_len => (ret_len, buf)
  | s :: vector, ret_len =>
    let len := UInt8.ofNat (strlen s)
    writeVector (writeRaw (write8 buf len) s len) vector (ret_len + 1 + len.toNat)

/-- `cache_label`. The loop inserts at the first entry that has another key. -/
def cacheLabel (cache : Cache) (label : Bytes) (index : UInt16) : Cache :=
  if cache.size = 0 then cache.insert label index
  else
    match cache.scan (· ≠ label) with
    | some _ => cache.insert label index
    | none => cache

/-- The `while (true)` of `write_label`; every pass takes a part off `elems`. -/
def writeParts (buf : Buffer) (cache : Cache) (ret_len : Int) (remain_label : Bytes)
    (elems : List Bytes) : Int × Buffer × Cache :=
  match cache.scan (· = remain_label) with
  | some (_, index) =>
    let pointer := index ||| (0xC0 : UInt16) <<< 8
    (ret_len + 2, write16 buf pointer, cache)
  | none =>
    match elems with
    | [] => (ret_len + 1, write8 buf 0, cache)
    | head :: elems =>
      let cache := cacheLabel cache remain_label (UInt16.ofInt buf.index)
      let len := strlen head
      let buf := write8 buf (UInt8.ofNat len)
      let buf := writeRaw buf head (UInt8.ofNat len)
      writeParts buf cache (ret_len + 1 + len) (join 46 elems) elems


def writeLabel (buf : Buffer) (label : Bytes) (cache : Cache) : Int × Buffer × Cache :=
  writeParts buf cache 0 label (split 46 label)

end Flingd.Mdns.Writer
