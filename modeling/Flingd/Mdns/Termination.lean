import Mathlib.Data.FinEnum
import Flingd.Mdns.Parts

/-! When the parser returns. A name that leads back to an offset it has been at
is followed for ever; no other name is, and a packet without such a name among
those it contains is parsed to its end. -/
namespace Flingd.Mdns
open Traced Reader

variable {buf : Block} {len : UInt16}

/-- Past the end of a short packet every byte reads as a pointer out of it. -/
theorem itemAt_beyond {i : UInt16} (hlen : len.toNat ≤ 4096) (hi : len.toNat ≤ i.toNat) :
    itemAt buf len i = .bad := by
  have hb : byteAt buf len i = 0xFF := by
    unfold byteAt
    rw [if_neg (by omega)]
  have ht : targetAt buf len i = 0x3FFF := by
    unfold targetAt
    rw [if_neg (by omega)]
  rw [itemAt_high (by rw [hb]; decide), ht, if_neg]
  rw [UInt16.le_iff_toNat_le]
  simp only [UInt16.reduceToNat]
  omega

/-- On a short packet the test `index > data_len` is no case of its own. -/
theorem getLabel_returns_short (hlen : len.toNat ≤ 4096) (i : UInt16) (out : Buffer) :
    Returns (fun n => getLabel n buf len i out) ↔ NeverRevisits (nextOffset buf len) i := by
  rw [getLabel_returns_iff, ← ends_iff_never_revisits]
  constructor
  · rintro (hi | h)
    · rw [UInt16.lt_iff_toNat_lt] at hi
      have hb : itemAt buf len i = .bad := itemAt_beyond hlen hi.le
      exact ⟨1, by simp [walk, nextOffset, hb]⟩
    · exact h
  · exact .inr

theorem parsePacket_returns (ntop6 : Bytes → Bytes) (hlen : len.toNat ≤ 4096) :
    Returns (fun n => parsePacket ntop6 n buf len) ↔
      EveryPart buf len (NeverRevisits (nextOffset buf len)) fun _ _ => True := by
  refine split_parsePacket ntop6 splits_returns ⟨getLabel_returns_short hlen, ?_, ?_, ?_⟩
  · exact fun i => ⟨_, 0, get16_val i⟩
  · exact fun i => ⟨_, 0, get32_val i⟩
  · exact fun i n _ => iff_true_intro ⟨_, 0, derefs_val n i⟩

theorem toNat_length {datagram : Bytes} (h : datagram.length ≤ 4096) :
    (UInt16.ofNat datagram.length).toNat = datagram.length :=
  UInt16.toNat_ofNat_of_lt' (by norm_num; omega)

/-- `getLabel` returns exactly from the offsets whose name never comes back to
an offset it has visited, and the constructor exactly on the packets all of
whose names are so. -/
theorem parser_returns_iff (ntop6 : Bytes → Bytes) (beyond : Nat → UInt8) (datagram : Bytes)
    (h : datagram.length ≤ 4096) :
    let buf := packetBlock beyond datagram
    let len := UInt16.ofNat datagram.length
    (∀ start out, Returns (fun n => getLabel n buf len start out) ↔
      NeverRevisits (nextOffset buf len) start) ∧
    (Returns (mDNSIncoming ntop6 beyond datagram) ↔
      EveryPart buf len (NeverRevisits (nextOffset buf len)) fun _ _ => True) := by
  have hlen : (UInt16.ofNat datagram.length).toNat ≤ 4096 := by rw [toNat_length h]; exact h
  exact ⟨fun start out => getLabel_returns_short hlen start out, parsePacket_returns ntop6 hlen⟩

def selfPointer : Bytes := [0, 0, 0, 0, 0, 1, 0, 0, 0, 0, 0, 0, 0xC0, 0x0C]

theorem parser_returns_selfPointer :
    let buf := packetBlock (fun _ => 0) selfPointer
    (∀ start out, Returns (fun n => getLabel n buf 14 start out) ↔
      NeverRevisits (nextOffset buf 14) start) ∧
    (Returns (mDNSIncoming id (fun _ => 0) selfPointer) ↔
      EveryPart buf 14 (NeverRevisits (nextOffset buf 14)) fun _ _ => True) :=
  parser_returns_iff id (fun _ => 0) selfPointer (by decide)

theorem selfPointer_hangs :
    ¬ Returns (fun n => getLabel n (packetBlock (fun _ => 0) selfPointer) 14 12 (Buffer.new 128)) ∧
    ¬ Returns (mDNSIncoming id (fun _ => 0) selfPointer) := by
  have hc : ¬ NeverRevisits (nextOffset (packetBlock (fun _ => 0) selfPointer) 14) 12 := by
    intro hv
    exact absurd (hv 0 1 12 rfl (by decide)) (by decide)
  constructor
  · rw [getLabel_returns_short (by decide)]
    exact hc
  · change ¬ Returns fun n => parsePacket id n (packetBlock (fun _ => 0) selfPointer) 14
    rw [parsePacket_returns id (by decide)]
    exact fun h => hc h.1

end Flingd.Mdns
