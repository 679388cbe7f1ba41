import Flingd.Base.Traced
import Flingd.Mdns.Buffer

/-! `Reader.cpp`. The log of a computation is the list of offsets it read from
`_data_ptr`; indices are 16 bits wide and wrap, comparisons are made on `int`. -/
namespace Flingd.Mdns
open Traced

/-- What a `char *` points at. -/
abbrev Block := Nat → UInt8

namespace Reader

def deref (buf : Block) (i : Nat) : Traced Nat UInt8 := touch i (buf i)

def get8 (buf : Block) (data_len index : UInt16) : Traced Nat UInt8 :=
  if index.toNat + 1 > data_len.toNat then pure 0xFF
  else deref buf index.toNat

def get16 (buf : Block) (data_len index : UInt16) : Traced Nat UInt16 :=
  if index.toNat + 2 > data_len.toNat then pure 0xFFFF
  else do
    let hi ← get8 buf data_len index
    let lo ← get8 buf data_len (index + 1)
    pure (hi.toUInt16 <<< 8 ||| lo.toUInt16)

def get32 (buf : Block) (data_len index : UInt16) : Traced Nat UInt32 :=
  if index.toNat + 4 > data_len.toNat then pure 0xFFFFFFFF
  else do
    let hi ← get16 buf data_len index
    let lo ← get16 buf data_len (index + 2)
    pure (hi.toUInt32 <<< 16 ||| lo.toUInt32)

/-- The variables of `getLabel`'s loop. -/
structure LabelState where
  index : UInt16
  jump : Bool
  retLen : Nat
  out : Buffer
deriving DecidableEq, Repr

/-- `if (!jump) ret_len += n`. -/
def LabelState.count (s : LabelState) (n : Nat) : LabelState :=
  if s.jump then s else { s with retLen := s.retLen + n }

/-- `while (tmp_len > 0)`: the byte that is copied is read from `_data_ptr`
itself, the one that `get8` returns is not used. -/
def copyLabel (buf : Block) (data_len : UInt16) : Nat → LabelState → Traced Nat LabelState
  | 0, s => pure s
  | tmp_len+1, s => do
    let _ ← get8 buf data_len s.index
    let c ← deref buf s.index.toNat
    let s := { s with out := s.out.appendRaw [c] 1 }.count 1
    copyLabel buf data_len tmp_len { s with index := s.index + 1 }

/-- One pass of the loop of `getLabel`. It is left with the value returned
(`-1` is `0xFFFFFFFF` in a `uint32`) and the output buffer. -/
def labelPass (buf : Block) (data_len : UInt16) (s : LabelState) :
    Traced Nat (Pass LabelState (UInt32 × Buffer)) := do
  let tmp ← get8 buf data_len s.index
  if tmp = 0 then
    let s := s.count 1
    pure (.leave (UInt32.ofNat s.retLen, s.out.deleteEnd))
  else if tmp &&& 0xC0 = 0xC0 then
    let s := { s.count 2 with jump := true }
    let pointer ← get16 buf data_len s.index
    let pointer := pointer &&& 0x3FFF
    if pointer > data_len then pure (.leave (0xFFFFFFFF, s.out))
    else pure (.again { s with index := pointer })
  else
    let s := { s.count 1 with index := s.index + 1 }
    let s ← copyLabel buf data_len tmp.toNat s
    pure (.again { s with out := s.out.appendc 46 })

/-- `getLabel`, whose `while (true)` may make at most `passes` passes. -/
def getLabel (passes : Nat) (buf : Block) (data_len index : UInt16) (buffer_out : Buffer) :
    Traced Nat (UInt32 × Buffer) :=
  if index > data_len then pure (0xFFFFFFFF, buffer_out)
  else loop (labelPass buf data_len) passes ⟨index, false, 0, buffer_out⟩

end Reader
end Flingd.Mdns
