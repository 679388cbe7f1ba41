import Flingd.Base.Bytes

/-! `vos::Buffer`, as far as the mDNS code uses it. `data` holds the bytes
written so far; `index` is kept apart from its length because `delete_end`
takes one off without looking. -/
namespace Flingd.Mdns

structure Buffer where
  index : Int
  length : Int
  data : Bytes
deriving DecidableEq, Repr

namespace Buffer

def new (size : Int) : Buffer := ⟨0, max 0 size, []⟩

def resize (b : Buffer) (size : Int) : Buffer :=
  if b.length < size then { b with length := size } else b

/-- `DFLT_SIZE`, by which the appenders enlarge a full buffer. -/
def dfltSize : Int := 15

def grow (b : Buffer) : Buffer :=
  if b.index + 1 > b.length then { b with length := b.length + dfltSize } else b

def append1 (b : Buffer) (c : UInt8) : Buffer :=
  { b.grow with data := b.data ++ [c], index := b.index + 1 }

/-- `char` is signed on the daemon's targets: a byte from 128 on is dropped. -/
def appendc (b : Buffer) (c : UInt8) : Buffer := if c.toNat ≥ 128 then b else b.append1 c

def appenduc (b : Buffer) (c : UInt8) : Buffer := b.append1 c

/-- `append_raw(bfr, len)`; `len = 0` means `strlen(bfr)`. -/
def appendRaw (b : Buffer) (bfr : Bytes) (len : Nat) : Buffer :=
  let len := if len = 0 then strlen bfr else len
  if len = 0 then b
  else { b.resize (b.index + len) with data := b.data ++ bfr.take len, index := b.index + len }

def deleteEnd (b : Buffer) : Buffer := { b with index := b.index - 1, data := b.data.dropLast }

def replace (b : Buffer) (index : Nat) (data : UInt8) : Buffer :=
  { b with data := b.data.set index data }

/-- The pointer `_data_ptr`: what lies past the bytes written is not the buffer's. -/
def dataPtr (b : Buffer) (beyond : Nat → UInt8) (i : Nat) : UInt8 := b.data.getD i (beyond i)

end Buffer
end Flingd.Mdns
