import Mathlib.Order.Interval.Set.Defs
import Flingd.Base.Region
import Flingd.Mdns.Layout
import Flingd.Mdns.Writer

/-! Names as they are spelled in a buffer, part by part or by a pointer to where
their end was spelled before. What `write_label` writes is such a spelling, and
such a spelling is a name of the packet. -/
namespace Flingd.Mdns
open Region Writer

structure IsPart (p : Bytes) : Prop where
  pos : 0 < p.length
  short : p.length ≤ 63
  noNul : 0 ∉ p
  noDot : 46 ∉ p

instance (p : Bytes) : Decidable (IsPart p) :=
  decidable_of_iff (0 < p.length ∧ p.length ≤ 63 ∧ 0 ∉ p ∧ 46 ∉ p)
    ⟨fun ⟨h1, h2, h3, h4⟩ => ⟨h1, h2, h3, h4⟩, fun ⟨h1, h2, h3, h4⟩ => ⟨h1, h2, h3, h4⟩⟩

structure Name where
  parts : List Bytes
  nonempty : parts ≠ []
  valid : ∀ p ∈ parts, IsPart p

def Name.text (n : Name) : Bytes := join 46 n.parts

theorem Name.split_text (n : Name) : split 46 n.text = n.parts :=
  split_join (fun p hp => (n.valid p hp).noDot) n.nonempty

theorem Name.text_ne_nil (n : Name) : n.text ≠ [] := by
  obtain ⟨p, parts, hp⟩ := List.exists_cons_of_ne_nil n.nonempty
  have hpos := (n.valid p (by simp [hp])).pos
  have hlen := (length_join_cons 46 p parts).1
  intro h
  rw [Name.text, hp] at h
  rw [h] at hlen
  simp only [List.length_nil] at hlen
  omega

/-- The two bytes of a word, as `write16` appends them. -/
def wordBytes (w : UInt16) : Bytes := [((w >>> 8) &&& 0xFF).toUInt8, (w &&& 0xFF).toUInt8]

/-- The four bytes of a word, as `write32` appends them. -/
def dwordBytes (w : UInt32) : Bytes :=
  [((w >>> 24) &&& 0xFF).toUInt8, ((w >>> 16) &&& 0xFF).toUInt8, ((w >>> 8) &&& 0xFF).toUInt8,
    (w &&& 0xFF).toUInt8]

/-- The parts spelled at offset `i` of `d`, and the bytes they take there. All
that is visited is kept. -/
inductive Spells (kept : Set Nat) (d : Bytes) : Nat → List Bytes → Nat → Prop where
  | root {i} (h : Stands kept d i [0]) : Spells kept d i [] 1
  | label {i p parts k} (hp : IsPart p) (h : Stands kept d i (UInt8.ofNat p.length :: p))
      (rest : Spells kept d (i + 1 + p.length) parts k) :
      Spells kept d i (p :: parts) (1 + p.length + k)
  | pointer {i parts k} {t : UInt16} (ht : t.toNat < 0x4000)
      (h : Stands kept d i (wordBytes (t ||| (0xC0 : UInt16) <<< 8)))
      (rest : Spells kept d t.toNat parts k) : Spells kept d i parts 2

theorem Spells.mono {kept kept' : Set Nat} {d d' : Bytes} (hk : kept ⊆ kept')
    (hd : Keeps kept d d') {i : Nat} {parts : List Bytes} {k : Nat}
    (h : Spells kept d i parts k) : Spells kept' d' i parts k := by
  induction h with
  | root h => exact .root (h.mono hk hd)
  | label hp h _ ih => exact .label hp (h.mono hk hd) ih
  | pointer ht h _ ih => exact .pointer ht (h.mono hk hd) ih

theorem Spells.inside {kept : Set Nat} {d : Bytes} {i : Nat} {parts : List Bytes} {k : Nat}
    (h : Spells kept d i parts k) : i < d.length := by
  have hw : ∀ {c : UInt8} {w : Bytes}, Stands kept d i (c :: w) → i < d.length :=
    fun h => (List.getElem?_eq_some_iff.mp h.head).1
  cases h with
  | root h => exact hw h
  | label _ h _ => exact hw h
  | pointer _ h _ => exact hw h

/-! ### Words on the wire -/

theorem toNat_hi (w : UInt16) : ((w >>> 8) &&& 0xFF).toUInt8.toNat = w.toNat / 256 := by
  have hw := w.toNat_lt
  simp only [UInt16.toNat_toUInt8, UInt16.toNat_and, UInt16.toNat_shiftRight, UInt16.reduceToNat,
    Nat.reduceMod]
  rw [show (255 : Nat) = 2 ^ 8 - 1 by rfl, Nat.and_two_pow_sub_one_eq_mod,
    Nat.shiftRight_eq_div_pow]
  omega

theorem toNat_lo (w : UInt16) : (w &&& 0xFF).toUInt8.toNat = w.toNat % 256 := by
  simp only [UInt16.toNat_toUInt8, UInt16.toNat_and, UInt16.reduceToNat]
  rw [show (255 : Nat) = 2 ^ 8 - 1 by rfl, Nat.and_two_pow_sub_one_eq_mod]
  omega

theorem toNat_pointer {t : UInt16} (h : t.toNat < 0x4000) :
    (t ||| (0xC0 : UInt16) <<< 8).toNat = 0xC000 + t.toNat := by
  simp only [UInt16.toNat_or, UInt16.toNat_shiftLeft, UInt16.reduceToNat, Nat.reduceMod]
  have hc : 192 <<< 8 % 2 ^ 16 = 3 <<< 14 := by decide
  rw [hc, Nat.or_comm, ← Nat.shiftLeft_add_eq_or_of_lt (by simpa using h)]
  rfl

theorem dwordBytes_eq (w : UInt32) :
    dwordBytes w = wordBytes (w >>> 16).toUInt16 ++ wordBytes w.toUInt16 := by
  simp only [dwordBytes, wordBytes, List.cons_append, List.nil_append, List.cons.injEq, and_true]
  refine ⟨?_, ?_, ?_, ?_⟩ <;> apply UInt8.toNat_inj.mp <;>
    simp only [UInt32.toNat_toUInt8, UInt16.toNat_toUInt8, UInt32.toNat_and, UInt16.toNat_and,
      UInt32.toNat_shiftRight, UInt16.toNat_shiftRight, UInt32.toNat_toUInt16,
      UInt32.reduceToNat, UInt16.reduceToNat, Nat.reduceMod] <;>
    simp only [show (255 : Nat) = 2 ^ 8 - 1 by rfl, Nat.and_two_pow_sub_one_eq_mod,
      Nat.shiftRight_eq_div_pow] <;>
    omega

theorem halves_join (w : UInt32) :
    (w >>> 16).toUInt16.toUInt32 <<< 16 ||| w.toUInt16.toUInt32 = w := by
  have hw := w.toNat_lt
  apply UInt32.toNat_inj.mp
  simp only [UInt32.toNat_or, UInt32.toNat_shiftLeft, UInt16.toNat_toUInt32,
    UInt32.toNat_toUInt16, UInt32.toNat_shiftRight, UInt32.reduceToNat, Nat.reduceMod]
  rw [Nat.mod_eq_of_lt (a := _ <<< _), ← Nat.shiftLeft_add_eq_or_of_lt]
  · simp only [Nat.shiftLeft_eq, Nat.shiftRight_eq_div_pow]
    omega
  · omega
  · simp only [Nat.shiftLeft_eq, Nat.shiftRight_eq_div_pow]
    omega

/-! ### What is spelled is read -/

section Read
variable {kept : Set Nat} {b : Buffer} (beyond : Nat → UInt8)

theorem dataPtr_of_get {i : Nat} {c : UInt8} (h : b.data[i]? = some c) :
    b.dataPtr beyond i = c := by
  simp [Buffer.dataPtr, List.getD_eq_getElem?_getD, h]

theorem toNat_offset {d : Bytes} {i : Nat} (hlen : d.length < 0x10000) (hi : i ≤ d.length) :
    (UInt16.ofNat i).toNat = i :=
  UInt16.toNat_ofNat_of_lt' (by norm_num; omega)

theorem byteAt_of_get (hlen : b.data.length < 0x10000) {i : Nat} {c : UInt8}
    (h : b.data[i]? = some c) :
    byteAt (b.dataPtr beyond) (UInt16.ofNat b.data.length) (UInt16.ofNat i) = c := by
  obtain ⟨hi, -⟩ := List.getElem?_eq_some_iff.mp h
  unfold byteAt
  rw [toNat_offset hlen hi.le, toNat_offset hlen le_rfl, if_pos hi, dataPtr_of_get beyond h]

theorem wordAt_of_stands (hlen : b.data.length < 0x10000) {i : Nat} {w : UInt16}
    (h : Stands kept b.data i (wordBytes w)) :
    wordAt (b.dataPtr beyond) (UInt16.ofNat b.data.length) (UInt16.ofNat i) = w := by
  have h0 := h.head
  have h1 := h.tail.head
  obtain ⟨hi, -⟩ := List.getElem?_eq_some_iff.mp h1
  unfold wordAt
  rw [toNat_offset hlen (by omega), toNat_offset hlen le_rfl, if_pos hi, dataPtr_of_get beyond h1,
    dataPtr_of_get beyond h0, toNat_hi, toNat_lo]
  have hw : w.toNat / 256 * 256 + w.toNat % 256 = w.toNat := by omega
  rw [hw, UInt16.ofNat_toNat]

theorem dwordAt_of_stands (hlen : b.data.length < 0x10000) {i : Nat} {w : UInt32}
    (h : Stands kept b.data i (dwordBytes w)) :
    dwordAt (b.dataPtr beyond) (UInt16.ofNat b.data.length) (UInt16.ofNat i) = w := by
  have hi : i + 4 ≤ b.data.length := h.inside (by simp [dwordBytes])
  rw [dwordBytes_eq, stands_append] at h
  have hl : Stands kept b.data (i + 2) (wordBytes w.toUInt16) := h.2
  have hx : UInt16.ofNat i + 2 = UInt16.ofNat (i + 2) := by simp
  unfold dwordAt
  rw [toNat_offset hlen (by omega), toNat_offset hlen le_rfl, if_pos (by omega), hx,
    wordAt_of_stands beyond hlen h.1, wordAt_of_stands beyond hlen hl, halves_join]

theorem bytesAt_of_stands (hlen : b.data.length < 0x10000) {i : Nat} {w : Bytes}
    (h : Stands kept b.data i w) :
    bytesAt (b.dataPtr beyond) w.length (UInt16.ofNat i) = w := by
  induction w generalizing i with
  | nil => rfl
  | cons c w ih =>
    obtain ⟨hi, -⟩ := List.getElem?_eq_some_iff.mp h.head
    have hx : UInt16.ofNat i + 1 = UInt16.ofNat (i + 1) := by simp
    simp only [List.length_cons, bytesAt, hx, ih h.tail]
    rw [toNat_offset hlen hi.le, dataPtr_of_get beyond h.head]

/-- What is spelled in a buffer is a name of the packet the buffer makes. -/
theorem Spells.nameAt (hlen : b.data.length < 0x10000) {i : Nat} {parts : List Bytes} {k : Nat}
    (h : Spells kept b.data i parts k) :
    NameAt (b.dataPtr beyond) (UInt16.ofNat b.data.length) (UInt16.ofNat i) parts k := by
  induction h with
  | root h =>
    exact .root (itemAt_root.mpr (byteAt_of_get beyond hlen h.head))
  | @label i p parts k hp h rest ih =>
    have hlen63 := hp.short
    have hi : itemAt (b.dataPtr beyond) (UInt16.ofNat b.data.length) (UInt16.ofNat i) =
        .label p.length := by
      rw [itemAt_label, byteAt_of_get beyond hlen h.head, UInt8.toNat_ofNat_of_lt' (by norm_num; omega)]
      exact ⟨rfl, by have := hp.pos; omega, by omega⟩
    have hx : UInt16.ofNat i + 1 = UInt16.ofNat (i + 1) := by simp
    have hn := NameAt.label hi (by simpa using ih)
    rwa [hx, bytesAt_of_stands beyond hlen h.tail] at hn
  | @pointer i parts k t ht h rest ih =>
    have hp := toNat_pointer ht
    have ht' : targetAt (b.dataPtr beyond) (UInt16.ofNat b.data.length) (UInt16.ofNat i) = t := by
      apply UInt16.toNat_inj.mp
      rw [← wordAt_masked, wordAt_of_stands beyond hlen h, toNat_masked, hp]
      omega
    have hle : t ≤ UInt16.ofNat b.data.length := by
      rw [UInt16.le_iff_toNat_le, toNat_offset hlen le_rfl]
      exact rest.inside.le
    refine .pointer (t := t) ?_ (by simpa using ih)
    rw [itemAt_high, ht', if_pos hle]
    rw [byteAt_of_get beyond hlen h.head, toNat_hi, hp]
    omega

end Read

end Flingd.Mdns
