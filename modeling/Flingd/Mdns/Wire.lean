import Mathlib.Tactic.NormNum
import Flingd.Base.Walk
import Flingd.Mdns.Reader

/-! Names on the wire. A packet is a graph on its offsets: a label leads past
its bytes, a compression pointer to its target. A name is the walk from its
first offset, and `getLabel` follows that walk. -/
namespace Flingd.Mdns
open Traced Reader

variable (buf : Block) (len : UInt16)

inductive Item where
  | root
  | label (n : Nat)
  | pointer (target : UInt16)
  | bad
deriving DecidableEq

/-- The byte at an offset; what lies past the end of the packet reads as `0xFF`. -/
def byteAt (i : UInt16) : UInt8 := if i.toNat < len.toNat then buf i.toNat else 0xFF

/-- Where a pointer at offset `i` leads. -/
def targetAt (i : UInt16) : UInt16 :=
  if i.toNat + 1 < len.toNat then
    UInt16.ofNat ((buf i.toNat).toNat % 64 * 256 + (buf (i.toNat+1)).toNat)
  else 0x3FFF

/-- What stands at offset `i` of a packet of `len` bytes. -/
def itemAt (i : UInt16) : Item :=
  let b := byteAt buf len i
  if b = 0 then .root
  else if b.toNat < 192 then .label b.toNat
  else if targetAt buf len i ≤ len then .pointer (targetAt buf len i) else .bad

/-- The `n` bytes from offset `i` on. -/
def bytesAt (buf : Block) : Nat → UInt16 → Bytes
  | 0, _ => []
  | n+1, i => buf i.toNat :: bytesAt buf n (i+1)

/-- Where the name goes on after offset `i`; `none` where it ends. -/
def nextOffset (i : UInt16) : Option UInt16 :=
  match itemAt buf len i with
  | .label n => some (i + 1 + UInt16.ofNat n)
  | .pointer t => some t
  | .root | .bad => none

/-! ### What the readers read -/

variable {buf len}

theorem and_c0_iff (b : UInt8) : b &&& 0xC0 = 0xC0 ↔ 192 ≤ b.toNat := by
  have h : ∀ n : Fin 256, n.val &&& 192 = 192 ↔ 192 ≤ n.val := by decide +kernel
  rw [← UInt8.toNat_inj, UInt8.toNat_and]
  exact h ⟨b.toNat, b.toNat_lt⟩

theorem toNat_word (hi lo : UInt8) :
    (hi.toUInt16 <<< 8 ||| lo.toUInt16).toNat = hi.toNat * 256 + lo.toNat := by
  have hh := hi.toNat_lt
  have hl := lo.toNat_lt
  have hs : hi.toNat <<< 8 % 65536 = hi.toNat <<< 8 := by
    rw [Nat.shiftLeft_eq]
    omega
  simp only [UInt16.toNat_or, UInt16.toNat_shiftLeft, UInt8.toNat_toUInt16]
  simp only [UInt16.reduceToNat, Nat.reduceMod, Nat.reducePow, hs]
  rw [← Nat.shiftLeft_add_eq_or_of_lt (by simpa using hl), Nat.shiftLeft_eq]

theorem toNat_masked (w : UInt16) : (w &&& 0x3FFF).toNat = w.toNat % 16384 := by
  rw [UInt16.toNat_and]
  exact Nat.and_two_pow_sub_one_eq_mod w.toNat 14

theorem get8_val (i : UInt16) : (get8 buf len i).val = some (byteAt buf len i) := by
  unfold get8 byteAt
  by_cases h : i.toNat < len.toNat
  · rw [if_neg (by omega), if_pos h]
    rfl
  · rw [if_pos (by omega), if_neg h]
    rfl

/-- The word at an offset; past the end of the packet it reads as `0xFFFF`. -/
def wordAt (buf : Block) (len i : UInt16) : UInt16 :=
  if i.toNat + 1 < len.toNat then
    UInt16.ofNat ((buf i.toNat).toNat * 256 + (buf (i.toNat+1)).toNat)
  else 0xFFFF

theorem get16_val (i : UInt16) : (get16 buf len i).val = some (wordAt buf len i) := by
  unfold get16 wordAt
  by_cases h : i.toNat + 1 < len.toNat
  · have hn : (i+1).toNat = i.toNat + 1 := by
      have := len.toNat_lt
      simp only [UInt16.toNat_add, UInt16.reduceToNat, Nat.reducePow] at *
      omega
    rw [if_neg (by omega), if_pos h]
    simp only [val_bind, get8_val, Option.bind_some, val_pure, Option.some.injEq]
    apply UInt16.toNat_inj.mp
    rw [toNat_word]
    simp only [byteAt, hn, h, if_true, if_pos (by omega : i.toNat < len.toNat)]
    have h1 := (buf i.toNat).toNat_lt
    have h2 := (buf (i.toNat+1)).toNat_lt
    rw [UInt16.toNat_ofNat_of_lt' (by norm_num; omega)]
  · rw [if_pos (by omega), if_neg h]
    rfl

def dwordAt (buf : Block) (len i : UInt16) : UInt32 :=
  if i.toNat + 3 < len.toNat then
    (wordAt buf len i).toUInt32 <<< 16 ||| (wordAt buf len (i+2)).toUInt32
  else 0xFFFFFFFF

theorem get32_val (i : UInt16) : (get32 buf len i).val = some (dwordAt buf len i) := by
  unfold get32 dwordAt
  by_cases h : i.toNat + 3 < len.toNat
  · rw [if_neg (by omega), if_pos h]
    simp only [val_bind, get16_val, Option.bind_some, val_pure]
  · rw [if_pos (by omega), if_neg h]
    rfl

theorem wordAt_masked (i : UInt16) : wordAt buf len i &&& 0x3FFF = targetAt buf len i := by
  apply UInt16.toNat_inj.mp
  rw [toNat_masked]
  unfold wordAt targetAt
  have h1 := (buf i.toNat).toNat_lt
  have h2 := (buf (i.toNat+1)).toNat_lt
  split
  · simp only [UInt16.toNat_ofNat', Nat.reducePow]
    omega
  · rfl

/-! ### The loop, pass by pass -/

theorem itemAt_root {i : UInt16} : itemAt buf len i = .root ↔ byteAt buf len i = 0 := by
  unfold itemAt
  dsimp only
  split_ifs <;> simp_all

theorem itemAt_label {i : UInt16} {n : Nat} : itemAt buf len i = .label n ↔
    (byteAt buf len i).toNat = n ∧ n ≠ 0 ∧ n < 192 := by
  have h0 : byteAt buf len i = 0 ↔ (byteAt buf len i).toNat = 0 := by
    rw [← UInt8.toNat_inj]
    rfl
  unfold itemAt
  dsimp only
  simp only [h0]
  split_ifs <;> simp only [false_iff, Item.label.injEq] <;> omega

theorem itemAt_high {i : UInt16} (h : 192 ≤ (byteAt buf len i).toNat) : itemAt buf len i =
    if targetAt buf len i ≤ len then .pointer (targetAt buf len i) else .bad := by
  have h0 : byteAt buf len i ≠ 0 := by
    intro h'
    simp [h'] at h
  simp [itemAt, h0, h]

@[simp] theorem Reader.LabelState.count_index (s : LabelState) (n : Nat) :
    (s.count n).index = s.index := by
  unfold LabelState.count
  split <;> rfl

@[simp] theorem Reader.LabelState.count_jump (s : LabelState) (n : Nat) :
    (s.count n).jump = s.jump := by
  unfold LabelState.count
  split <;> rfl

@[simp] theorem Reader.LabelState.count_out (s : LabelState) (n : Nat) :
    (s.count n).out = s.out := by
  unfold LabelState.count
  split <;> rfl

theorem Reader.LabelState.count_retLen (s : LabelState) (n : Nat) :
    (s.count n).retLen = if s.jump then s.retLen else s.retLen + n := by
  unfold LabelState.count
  split <;> rfl

theorem appendRaw_one (b : Buffer) (c : UInt8) : (b.appendRaw [c] 1).data = b.data ++ [c] ∧
    (b.appendRaw [c] 1).index = b.index + 1 := by
  simp [Buffer.appendRaw]

theorem appendc_dot (b : Buffer) :
    (b.appendc 46).data = b.data ++ [46] ∧ (b.appendc 46).index = b.index + 1 := by
  simp [Buffer.appendc, Buffer.append1]

/-- `s'` is `s` after the bytes `w` were taken in and `n` of the wire counted. -/
structure Reader.LabelState.Took (s s' : LabelState) (w : Bytes) (n : Nat) : Prop where
  jump : s'.jump = s.jump
  retLen : s'.retLen = (s.count n).retLen
  data : s'.out.data = s.out.data ++ w
  outIndex : s'.out.index = s.out.index + w.length

variable (buf len) in
theorem copyLabel_val (n : Nat) (s : LabelState) : ∃ s', (copyLabel buf len n s).val = some s' ∧
    s'.index = s.index + UInt16.ofNat n ∧ s.Took s' (bytesAt buf n s.index) n := by
  induction n generalizing s with
  | zero =>
    refine ⟨s, rfl, by simp, rfl, ?_, by simp [bytesAt], by simp [bytesAt]⟩
    simp [LabelState.count_retLen]
  | succ n ih =>
    obtain ⟨hd, hi⟩ := appendRaw_one s.out (buf s.index.toNat)
    let t : LabelState := { s with out := s.out.appendRaw [buf s.index.toNat] 1 }.count 1
    obtain ⟨s', hv, hx, ht⟩ := ih { t with index := t.index + 1 }
    refine ⟨s', ?_, ?_, ?_, ?_, ?_, ?_⟩
    · simpa [copyLabel, get8_val, deref, t] using hv
    · rw [hx]
      simp only [t, LabelState.count_index, UInt16.ofNat_add, UInt16.ofNat_one]
      ac_rfl
    · simpa [t] using ht.jump
    · rw [ht.retLen]
      simp only [LabelState.count_retLen, LabelState.count_jump, t]
      split <;> omega
    · rw [ht.data]
      simp only [t, LabelState.count_out, LabelState.count_index, hd, bytesAt]
      simp
    · rw [ht.outIndex]
      simp only [t, LabelState.count_out, LabelState.count_index, hi, bytesAt, List.length_cons]
      omega

theorem labelPass_root {s : LabelState} (h : itemAt buf len s.index = .root) :
    (labelPass buf len s).val =
      some (.leave (UInt32.ofNat (s.count 1).retLen, s.out.deleteEnd)) := by
  rw [itemAt_root] at h
  simp [labelPass, get8_val, h]

theorem labelPass_label {s : LabelState} {n : Nat} (h : itemAt buf len s.index = .label n) :
    ∃ s', (labelPass buf len s).val = some (.again s') ∧
      s'.index = s.index + 1 + UInt16.ofNat n ∧
      s.Took s' (bytesAt buf n (s.index+1) ++ [46]) (1+n) := by
  obtain ⟨hb, hn, hlt⟩ := itemAt_label.mp h
  have h0 : byteAt buf len s.index ≠ 0 := by
    intro h'
    exact hn (by rw [← hb, h']; rfl)
  have hc : ¬ byteAt buf len s.index &&& 0xC0 = 0xC0 := by
    rw [and_c0_iff]
    omega
  let t : LabelState := { s.count 1 with index := s.index + 1 }
  obtain ⟨u, hv, hx, ht⟩ := copyLabel_val buf len n t
  obtain ⟨hd, hi⟩ := appendc_dot u.out
  refine ⟨{ u with out := u.out.appendc 46 }, ?_, hx, ht.jump.trans (by simp [t]), ?_, ?_, ?_⟩
  · simp only [labelPass, val_bind, get8_val, Option.bind_some, h0, hc, if_false, hb]
    have hv' : (copyLabel buf len n ⟨s.index + 1, (s.count 1).jump, (s.count 1).retLen,
        (s.count 1).out⟩).val = some u := hv
    rw [hv']
    rfl
  · rw [ht.retLen]
    simp only [LabelState.count_retLen, LabelState.count_jump, t]
    split <;> omega
  · rw [hd, ht.data]
    simp [t]
  · rw [hi, ht.outIndex]
    simp only [t, LabelState.count_out, List.length_append, List.length_cons, List.length_nil]
    omega

theorem labelPass_high {s : LabelState} (h : 192 ≤ (byteAt buf len s.index).toNat) :
    (labelPass buf len s).val = some (if targetAt buf len s.index ≤ len
      then .again { s.count 2 with jump := true, index := targetAt buf len s.index }
      else .leave (0xFFFFFFFF, s.out)) := by
  have h0 : byteAt buf len s.index ≠ 0 := by
    intro h'
    simp [h'] at h
  simp only [labelPass, val_bind, get8_val, Option.bind_some, h0, if_false, (and_c0_iff _).mpr h,
    if_true, LabelState.count_index, get16_val, wordAt_masked, LabelState.count_out]
  by_cases ht : targetAt buf len s.index ≤ len
  · simp [ht, UInt16.not_lt.mpr ht]
  · simp [ht, UInt16.not_le.mp ht]

theorem labelPass_pointer {s : LabelState} {t : UInt16}
    (h : itemAt buf len s.index = .pointer t) :
    (labelPass buf len s).val = some (.again { s.count 2 with jump := true, index := t }) := by
  by_cases hb : 192 ≤ (byteAt buf len s.index).toNat
  · rw [itemAt_high hb] at h
    rw [labelPass_high hb]
    split at h
    · simp_all
    · cases h
  · unfold itemAt at h
    dsimp only at h
    rw [if_pos (by omega : (byteAt buf len s.index).toNat < 192)] at h
    split at h <;> cases h

theorem labelPass_bad {s : LabelState} (h : itemAt buf len s.index = .bad) :
    (labelPass buf len s).val = some (.leave (0xFFFFFFFF, s.out)) := by
  by_cases hb : 192 ≤ (byteAt buf len s.index).toNat
  · rw [itemAt_high hb] at h
    rw [labelPass_high hb]
    split at h
    · cases h
    · simp_all
  · unfold itemAt at h
    dsimp only at h
    rw [if_pos (by omega : (byteAt buf len s.index).toNat < 192)] at h
    split at h <;> cases h

/-- The loop of `getLabel` walks the name. -/
theorem labelPass_follows : Follows (labelPass buf len) LabelState.index (nextOffset buf len) := by
  intro s
  unfold nextOffset
  cases h : itemAt buf len s.index with
  | root => exact .inr ⟨_, labelPass_root h, rfl⟩
  | bad => exact .inr ⟨_, labelPass_bad h, rfl⟩
  | pointer t => exact .inl ⟨_, labelPass_pointer h, rfl⟩
  | label n =>
    obtain ⟨s', hv, hx, -⟩ := labelPass_label h
    exact .inl ⟨s', hv, by rw [hx]⟩

end Flingd.Mdns
