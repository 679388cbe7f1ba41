import Flingd.Mdns.Termination
import Flingd.Mdns.Visits

/-! The cursor of the constructor of `MDNSIncoming`. The length of an entry is added
up in 16 bits, and so is the cursor: both are what they stand for as long as the
record data they jump over is not too long. -/
namespace Flingd.Mdns
open Traced Reader

variable {buf : Block} {len : UInt16}

variable (buf len) in
/-- A name that decodes stands at the offset and takes `k` bytes there. -/
def NameTakes (i : UInt16) (k : Nat) : Prop := i ≤ len ∧ ∃ parts, NameAt buf len i parts k

/-- The length of a part whose name takes `k` bytes. -/
def Part.takes (k : Nat) : Part → Nat
  | .query _ => k + 4
  | .record r => k + 10 + r.dataLength.toNat

variable (buf len) in
/-- The lengths are right, and the cursor is greater before each part than before the previous one. -/
structure MovesForward (vs : List (UInt16 × Part)) : Prop where
  lengths : ∀ v ∈ vs, ∀ k, NameTakes buf len v.1 k → v.2.length.toNat = v.2.takes k
  cursors : (vs.map (·.1)).IsChain (· < ·)

variable (buf len) in
/-- From offset `o` on, no record is too long for 16 bits, and none that another part follows
ends past what 16 bits can count. -/
def RecordsFit : Nat → List Part → Prop
  | _, [] => True
  | o, .query q :: xs => ∀ k, NameTakes buf len (UInt16.ofNat o) k →
      RecordsFit (o + (Part.query q).takes k) xs
  | o, .record r :: xs => ∀ k, NameTakes buf len (UInt16.ofNat o) k →
      (Part.record r).takes k < 65536 ∧ (xs ≠ [] → o + (Part.record r).takes k < 65536) ∧
        RecordsFit (o + (Part.record r).takes k) xs

/-! ### Names -/

theorem NameAt.unique {i : UInt16} {parts parts' : List Bytes} {k k' : Nat}
    (h : NameAt buf len i parts k) (h' : NameAt buf len i parts' k') : k = k' := by
  induction h generalizing parts' k' with
  | root hi =>
    cases h' with
    | root => rfl
    | label hi' => simp [hi] at hi'
    | pointer hi' => simp [hi] at hi'
  | label hi _ ih =>
    cases h' with
    | root hi' => simp [hi] at hi'
    | label hi' rest' =>
      obtain rfl := Item.label.inj (hi.symm.trans hi')
      rw [ih rest']
    | pointer hi' => simp [hi] at hi'
  | pointer hi _ _ =>
    cases h' with
    | root hi' => simp [hi] at hi'
    | label hi' => simp [hi] at hi'
    | pointer => rfl

theorem itemAt_inside {i : UInt16} (hlen : len.toNat ≤ 4096) (h : itemAt buf len i ≠ .bad) :
    i.toNat < len.toNat := by
  by_contra hi
  exact h (itemAt_beyond hlen (by omega))

/-- A name ends with the packet, or one byte past it where a pointer is cut off. -/
theorem NameAt.short {i : UInt16} {parts : List Bytes} {k : Nat} (hlen : len.toNat ≤ 4096)
    (h : NameAt buf len i parts k) : i.toNat + k ≤ len.toNat + 1 := by
  induction h with
  | root hi =>
    have := itemAt_inside hlen (by rw [hi]; simp)
    omega
  | @label i n parts k hi _ ih =>
    have hin := itemAt_inside hlen (by rw [hi]; simp)
    obtain ⟨-, -, hn⟩ := itemAt_label.mp hi
    have hnext : (i + 1 + UInt16.ofNat n).toNat = i.toNat + 1 + n := by
      simp only [UInt16.toNat_add, UInt16.toNat_ofNat', UInt16.reduceToNat, Nat.reducePow]
      omega
    omega
  | pointer hi _ _ =>
    have := itemAt_inside hlen (by rw [hi]; simp)
    omega

theorem NameTakes.unique {i : UInt16} {k k' : Nat} (h : NameTakes buf len i k)
    (h' : NameTakes buf len i k') : k = k' := by
  obtain ⟨-, parts, h⟩ := h
  obtain ⟨-, parts', h'⟩ := h'
  exact h.unique h'

/-! ### One part -/

/-- The length of a part, in 16 bits. -/
theorem BuiltAt.length {ntop6 : Bytes → Bytes} {cursor : UInt16} {x : Part} {k : Nat}
    (hx : BuiltAt ntop6 buf len (cursor, x)) (hk : NameTakes buf len cursor k) :
    x.length.toNat = x.takes k % 65536 := by
  obtain ⟨hc, parts, hname⟩ := hk
  have hlength {r : UInt32} {out : Buffer}
      (hr : Gives (fun n => getLabel n buf len cursor (Buffer.new 128)) (r, out)) :
      r.toUInt16 = UInt16.ofNat k := by
    obtain ⟨out', hg, -⟩ := getLabel_name hc hname (Buffer.new 128)
    cases (growing_getLabel _ _).unique hr hg
    simp
  cases x with
  | query q =>
    obtain ⟨r, out, hr, rfl⟩ := gives_mDNSQuery.mp (builtAt_query.mp hx)
    simp only [Part.length, Part.takes, hlength hr, UInt16.toNat_add, UInt16.toNat_ofNat',
      UInt16.reduceToNat, Nat.reducePow]
    omega
  | record x =>
    obtain ⟨r, out, hr, -, -, -, -, -, hlen, -⟩ := gives_mDNSRecord (builtAt_record.mp hx)
    simp only [Part.length, Part.takes, hlen, hlength hr, UInt16.toNat_add, UInt16.toNat_ofNat',
      UInt16.reduceToNat, Nat.reducePow]
    omega

theorem Part.takes_pos (x : Part) (k : Nat) : 0 < x.takes k := by
  cases x <;> simp only [takes] <;> omega

/-- The cursor after a part is greater than before it unless it has gone round. -/
theorem cursor_lt_iff {cursor : UInt16} {x : Part} {k : Nat} (hx : x.length.toNat = x.takes k) :
    cursor < cursor + x.length ↔ cursor.toNat + x.takes k < 65536 := by
  have hpos := x.takes_pos k
  have hlt := x.length.toNat_lt
  have hc := cursor.toNat_lt
  rw [UInt16.lt_iff_toNat_lt, UInt16.toNat_add, hx]
  simp only [Nat.reducePow]
  omega

/-! ### All parts -/

theorem movesForward_cons {cursor : UInt16} {x : Part} {xs : List Part} {k : Nat}
    (hk : NameTakes buf len cursor k) :
    MovesForward buf len (visits cursor (x :: xs)) ↔
      x.length.toNat = x.takes k ∧ (xs ≠ [] → cursor < cursor + x.length) ∧
        MovesForward buf len (visits (cursor + x.length) xs) := by
  have hchain : ((visits cursor (x :: xs)).map (·.1)).IsChain (· < ·) ↔
      (xs ≠ [] → cursor < cursor + x.length) ∧
        ((visits (cursor + x.length) xs).map (·.1)).IsChain (· < ·) := by
    cases xs with
    | nil => simp [visits]
    | cons y ys => simp [visits]
  constructor
  · rintro ⟨hl, hc⟩
    obtain ⟨hlt, hc⟩ := hchain.mp hc
    exact ⟨hl _ List.mem_cons_self k hk, hlt, fun v hv => hl v (List.mem_cons_of_mem _ hv), hc⟩
  · rintro ⟨hx, hlt, hl, hc⟩
    refine ⟨fun v hv k' hk' => ?_, hchain.mpr ⟨hlt, hc⟩⟩
    rcases List.mem_cons.mp hv with rfl | hv
    · rw [hx, hk.unique hk']
    · exact hl v hv k' hk'

theorem recordsFit_cons {o k : Nat} {x : Part} {xs : List Part}
    (hk : NameTakes buf len (UInt16.ofNat o) k) (hlen : len.toNat ≤ 4096) (ho : o < 65536) :
    RecordsFit buf len o (x :: xs) ↔ x.takes k < 65536 ∧ (xs ≠ [] → o + x.takes k < 65536) ∧
      RecordsFit buf len (o + x.takes k) xs := by
  cases x with
  | query q =>
    have hshort : o + k ≤ 4097 := by
      obtain ⟨-, parts, hname⟩ := hk
      have := hname.short hlen
      rw [UInt16.toNat_ofNat_of_lt' ho] at this
      omega
    have hfits : (Part.query q).takes k < 65536 ∧ o + (Part.query q).takes k < 65536 := by
      simp only [Part.takes]
      omega
    constructor
    · exact fun h => ⟨hfits.1, fun _ => hfits.2, h k hk⟩
    · rintro ⟨-, -, h⟩ k' hk'
      rwa [hk'.unique hk]
  | record r =>
    constructor
    · exact fun h => h k hk
    · rintro h k' hk'
      rwa [hk'.unique hk]

/-- The induction is on the parts, with the offset `o` that the cursor has counted so far. -/
theorem movesForward_iff {ntop6 : Bytes → Bytes} (hlen : len.toNat ≤ 4096) (xs : List Part)
    {o : Nat} (ho : xs ≠ [] → o < 65536)
    (hbuilt : ∀ v ∈ visits (UInt16.ofNat o) xs, BuiltAt ntop6 buf len v)
    (hnames : ∀ v ∈ visits (UInt16.ofNat o) xs, ∃ k, NameTakes buf len v.1 k) :
    MovesForward buf len (visits (UInt16.ofNat o) xs) ↔ RecordsFit buf len o xs := by
  induction xs generalizing o with
  | nil =>
    refine iff_of_true ⟨fun v hv => ?_, List.isChain_nil⟩ trivial
    cases hv
  | cons x xs ih =>
    have ho := ho (List.cons_ne_nil _ _)
    obtain ⟨k, hk⟩ := hnames _ List.mem_cons_self
    have hx := (hbuilt _ List.mem_cons_self).length hk
    rw [movesForward_cons hk, recordsFit_cons hk hlen ho]
    have hfits : x.length.toNat = x.takes k ↔ x.takes k < 65536 := by omega
    rw [hfits]
    refine and_congr_right fun hfit => ?_
    have hlt : UInt16.ofNat o < UInt16.ofNat o + x.length ↔ o + x.takes k < 65536 := by
      rw [cursor_lt_iff (hfits.mpr hfit), UInt16.toNat_ofNat_of_lt' ho]
    rw [hlt]
    refine and_congr_right fun hnext => ?_
    have hcursor : UInt16.ofNat o + x.length = UInt16.ofNat (o + x.takes k) := by
      rw [UInt16.ofNat_add, ← hfits.mpr hfit, UInt16.ofNat_toNat]
    rw [hcursor]
    refine ih hnext (fun v hv => ?_) fun v hv => ?_
    · exact hbuilt v (List.mem_cons_of_mem _ (hcursor ▸ hv))
    · exact hnames v (List.mem_cons_of_mem _ (hcursor ▸ hv))

/-- On a datagram of at most 4096 bytes whose names decode, the lengths of all parts are right and
the cursor only moves forward exactly when the record data it says it has can be counted in 16 bits. -/
theorem cursor_forward_iff (ntop6 : Bytes → Bytes) (beyond : Nat → UInt8) (datagram : Bytes)
    (h : datagram.length ≤ 4096) {p : MDNSIncoming}
    (hp : Gives (mDNSIncoming ntop6 beyond datagram) p)
    (hnames : ∀ v ∈ visits headerLength p.parts,
      ∃ k, NameTakes (packetBlock beyond datagram) (UInt16.ofNat datagram.length) v.1 k) :
    MovesForward (packetBlock beyond datagram) (UInt16.ofNat datagram.length)
        (visits headerLength p.parts) ↔
      RecordsFit (packetBlock beyond datagram) (UInt16.ofNat datagram.length) 12 p.parts := by
  obtain ⟨-, -, -, -, hbuilt⟩ := gives_parsePacket hp
  have hlen : (UInt16.ofNat datagram.length).toNat ≤ 4096 := by rw [toNat_length h]; exact h
  exact movesForward_iff hlen p.parts (fun _ => by decide) hbuilt hnames

def twoTexts : Bytes :=
  [0, 0, 0x84, 0, 0, 0, 0, 2, 0, 0, 0, 0, 0, 0, 16, 0, 1, 0, 0, 0, 10, 0, 1, 7, 0, 0, 16, 0, 1, 0, 0,
    0, 10, 0, 1, 7]

def textRecord (data_length length : UInt16) : MDNSRecord :=
  ⟨Buffer.new 128 |>.deleteEnd, typeTxt, classIn, 10, data_length, some (Buffer.new 128), length,
    .answer, none⟩

theorem cursor_forward_iff_texts :
    MovesForward (packetBlock (fun _ => 0) twoTexts) 36
        (visits headerLength [.record (textRecord 1 12), .record (textRecord 1 12)]) ↔
      RecordsFit (packetBlock (fun _ => 0) twoTexts) 36 12
        [.record (textRecord 1 12), .record (textRecord 1 12)] := by
  refine cursor_forward_iff id (fun _ => 0) twoTexts (by decide)
    (p := ⟨⟨0, 0x8400, 0, 2, 0, 0⟩, [], [textRecord 1 12, textRecord 1 12], 36⟩) ⟨1, by decide⟩ ?_
  intro v hv
  have hroot : NameTakes (packetBlock (fun _ => 0) twoTexts) 36 12 1 ∧
      NameTakes (packetBlock (fun _ => 0) twoTexts) 36 24 1 :=
    ⟨⟨by decide, [], .root (by decide)⟩, by decide, [], .root (by decide)⟩
  have hvisits : visits headerLength [.record (textRecord 1 12), .record (textRecord 1 12)] =
      [(12, .record (textRecord 1 12)), (24, .record (textRecord 1 12))] := by decide
  rcases List.mem_pair.mp (hvisits ▸ hv) with rfl | rfl
  · exact ⟨1, hroot.1⟩
  · exact ⟨1, hroot.2⟩

/-- Two answers, and a record that with its data takes 2¹⁶ bytes. -/
def hugeText : Bytes :=
  [0, 0, 0x84, 0, 0, 0, 0, 2, 0, 0, 0, 0, 0, 0, 16, 0, 1, 0, 0, 0, 10, 0xFF, 0xF5]

/-- The length of the record is 0, so that the second answer is the first one once more. -/
theorem hugeText_stays :
    (mDNSIncoming id (fun _ => 0) hugeText 1).val =
        some ⟨⟨0, 0x8400, 0, 2, 0, 0⟩, [], [textRecord 0xFFF5 0, textRecord 0xFFF5 0], 12⟩ ∧
      (visits headerLength [.record (textRecord 0xFFF5 0), .record (textRecord 0xFFF5 0)]).map (·.1) =
        [12, 12] ∧
      NameTakes (packetBlock (fun _ => 0) hugeText) 23 12 1 ∧
      ¬ MovesForward (packetBlock (fun _ => 0) hugeText) 23
        (visits headerLength [.record (textRecord 0xFFF5 0), .record (textRecord 0xFFF5 0)]) := by
  have hroot : NameTakes (packetBlock (fun _ => 0) hugeText) 23 12 1 :=
    ⟨by decide, [], .root (by decide)⟩
  refine ⟨by decide, by decide, hroot, fun h => ?_⟩
  have hlength := h.lengths _ List.mem_cons_self 1 hroot
  exact absurd hlength (by decide)

end Flingd.Mdns
