import Flingd.Mdns.Termination

/-! Which bytes the parser reads. `get8`, `get16` and `get32` look first; the
copying of a label and the address conversions do not. -/
namespace Flingd.Mdns
open Traced Reader

variable {buf : Block} {len : UInt16}

def InPacket (len : UInt16) (offset : Nat) : Prop := offset < len.toNat

/-- Every label that the name at `i` visits lies in the packet. -/
def LabelsFit (buf : Block) (len i : UInt16) : Prop :=
  ∀ k p, walk (nextOffset buf len) i k = some p →
    ∀ n, itemAt buf len p = .label n → p.toNat + 1 + n ≤ len.toNat

/-- The address of `n` bytes at offset `i` lies in the packet. -/
def AddressFits (len : UInt16) (i n : Nat) : Prop := i + n ≤ len.toNat

theorem get8_logs (i : UInt16) : Logs (InPacket len) (get8 buf len i) := by
  unfold get8
  split
  · exact logs_pure _ _
  · exact (logs_touch _ _ _).mpr (by unfold InPacket; omega)

theorem get16_logs (i : UInt16) : Logs (InPacket len) (get16 buf len i) := by
  unfold get16
  split
  · exact logs_pure _ _
  · simp only [logs_bind]
    exact ⟨get8_logs _, fun _ _ => ⟨get8_logs _, fun _ _ => logs_pure _ _⟩⟩

theorem get32_logs (i : UInt16) : Logs (InPacket len) (get32 buf len i) := by
  unfold get32
  split
  · exact logs_pure _ _
  · simp only [logs_bind]
    exact ⟨get16_logs _, fun _ _ => ⟨get16_logs _, fun _ _ => logs_pure _ _⟩⟩

theorem toNat_next {i : UInt16} (h : i.toNat < 65535) : (i+1).toNat = i.toNat + 1 := by
  simp only [UInt16.toNat_add, UInt16.reduceToNat, Nat.reducePow]
  omega

/-- Copying `n` bytes from `s.index` on reads just these. -/
theorem copyLabel_logs (n : Nat) (s : LabelState) (h : s.index.toNat + n ≤ 65535) :
    Logs (InPacket len) (copyLabel buf len n s) ↔ n = 0 ∨ s.index.toNat + n ≤ len.toNat := by
  induction n generalizing s with
  | zero => simp [copyLabel, logs_pure]
  | succ n ih =>
    have hn := toNat_next (i := s.index) (by omega)
    simp only [copyLabel, logs_bind, get8_logs, true_and, get8_val, Option.some.injEq,
      forall_eq', deref, logs_touch, val_touch]
    rw [ih _ (by simp only [LabelState.count_index, hn]; omega)]
    simp only [LabelState.count_index, hn, InPacket]
    omega

theorem labelPass_logs (hlen : len.toNat ≤ 4096) (s : LabelState) :
    Logs (InPacket len) (labelPass buf len s) ↔
      ∀ n, itemAt buf len s.index = .label n → s.index.toNat + 1 + n ≤ len.toNat := by
  by_cases h : ∃ n, itemAt buf len s.index = .label n
  · obtain ⟨n, h⟩ := h
    obtain ⟨hb, hn, hlt⟩ := itemAt_label.mp h
    have h0 : byteAt buf len s.index ≠ 0 := by
      intro h'
      exact hn (by rw [← hb, h']; rfl)
    have hc : ¬ byteAt buf len s.index &&& 0xC0 = 0xC0 := by
      rw [and_c0_iff]
      omega
    have hi : s.index.toNat < len.toNat := by
      by_contra hi
      rw [itemAt_beyond hlen (by omega)] at h
      cases h
    have hx := toNat_next (i := s.index) (by omega)
    simp only [labelPass, logs_bind, get8_logs, true_and, get8_val, Option.some.injEq,
      forall_eq', h0, hc, if_false, logs_pure, implies_true, and_true, hb]
    rw [copyLabel_logs n _ (by simp only [hx]; omega)]
    simp only [hx, h, Item.label.injEq, forall_eq']
    omega
  · have hr : ∀ n, itemAt buf len s.index = .label n → s.index.toNat + 1 + n ≤ len.toNat :=
      fun n hn => absurd ⟨n, hn⟩ h
    refine iff_of_true ?_ hr
    simp only [labelPass, logs_bind, get8_logs, true_and, get8_val, Option.some.injEq, forall_eq']
    split_ifs with h0 hc
    · exact logs_pure _ _
    · simp only [logs_bind, get16_logs, true_and]
      intro w _
      split_ifs <;> exact logs_pure _ _
    · exfalso
      rw [and_c0_iff] at hc
      refine h ⟨_, itemAt_label.mpr ⟨rfl, fun hz => h0 ?_, by omega⟩⟩
      exact UInt8.toNat_inj.mp hz

/-- `getLabel` reads in the packet exactly when the labels of the name fit. -/
theorem getLabel_logs (hlen : len.toNat ≤ 4096) (i : UInt16) (out : Buffer) :
    AllLogs (InPacket len) (fun n => getLabel n buf len i out) ↔ LabelsFit buf len i := by
  unfold getLabel
  by_cases hi : len < i
  · rw [UInt16.lt_iff_toNat_lt] at hi
    have hb : itemAt buf len i = .bad := itemAt_beyond hlen hi.le
    refine iff_of_true (fun n => ?_) fun k p hk n hn => ?_
    · simp only [gt_iff_lt, UInt16.lt_iff_toNat_lt, hi, if_true]
      exact logs_pure _ _
    · cases k with
      | zero =>
        cases hk
        rw [hb] at hn
        cases hn
      | succ k => simp [walk_succ, nextOffset, hb] at hk
  · simp only [gt_iff_lt, hi, if_false]
    exact loop_logs_iff labelPass_follows _ _ (labelPass_logs hlen) _

theorem derefs_logs (i n : Nat) (hn : 0 < n) :
    Logs (InPacket len) (derefs buf n i) ↔ AddressFits len i n := by
  unfold Logs InPacket AddressFits derefs
  simp only [List.mem_range'_1]
  constructor
  · intro h
    have := h (i + n - 1) (by omega)
    omega
  · intro h e he
    omega

theorem parsePacket_logs (ntop6 : Bytes → Bytes) (hlen : len.toNat ≤ 4096) :
    AllLogs (InPacket len) (fun n => parsePacket ntop6 n buf len) ↔
      EveryPart buf len (LabelsFit buf len) (AddressFits len) := by
  refine split_parsePacket ntop6 (splits_allLogs _) ⟨getLabel_logs hlen, ?_, ?_, ?_⟩
  · exact fun i _ => get16_logs i
  · exact fun i _ => get32_logs i
  · exact fun i n hn => ⟨fun h => (derefs_logs i n hn).mp (h 0),
      fun h _ => (derefs_logs i n hn).mpr h⟩

/-- The parser reads at offsets below `len` only, exactly when every label that
its names visit and every address that it converts lies in the datagram. -/
theorem parser_reads_inside_iff (ntop6 : Bytes → Bytes) (beyond : Nat → UInt8)
    (datagram : Bytes) (h : datagram.length ≤ 4096) :
    let buf := packetBlock beyond datagram
    let len := UInt16.ofNat datagram.length
    AllLogs (fun offset => offset < datagram.length) (mDNSIncoming ntop6 beyond datagram) ↔
      EveryPart buf len (LabelsFit buf len) (AddressFits len) := by
  have ht := toNat_length h
  have hp : (fun offset => offset < datagram.length) =
      InPacket (UInt16.ofNat datagram.length) := by
    funext offset
    rw [InPacket, ht]
  simp only [hp]
  exact parsePacket_logs ntop6 (by rw [ht]; exact h)

/-- One question, whose name starts with a label of five bytes in the last byte
of the datagram. -/
def cutLabel : Bytes := [0, 0, 0, 0, 0, 1, 0, 0, 0, 0, 0, 0, 5]

theorem parser_reads_inside_cutLabel :
    AllLogs (fun offset => offset < 13) (mDNSIncoming id (fun _ => 0) cutLabel) ↔
      EveryPart (packetBlock (fun _ => 0) cutLabel) 13
        (LabelsFit (packetBlock (fun _ => 0) cutLabel) 13) (AddressFits 13) :=
  parser_reads_inside_iff id (fun _ => 0) cutLabel (by decide)

theorem cutLabel_reads_outside :
    ¬ AllLogs (fun offset => offset < 13) (mDNSIncoming id (fun _ => 0) cutLabel) := by
  intro h
  have hmem : 13 ∈ (mDNSIncoming id (fun _ => 0) cutLabel 1).log := by decide
  exact absurd (h 1 13 hmem) (by decide)

end Flingd.Mdns
