import Flingd.Mdns.Written

/-! A buffer under any sequence of writes. Every name that was written into it
is read back from the offset it was written at. -/
namespace Flingd.Mdns
open Traced Reader Writer

inductive Write where
  | label (name : Name)
  | byte (data : UInt8)
  | word (data : UInt16)
  | dword (data : UInt32)
  /-- `len` bytes from an array that has as many. -/
  | raw (ptr : Bytes) (len : UInt8) (h : len.toNat ≤ ptr.length)
  | ip (ip : Bytes)
  | vector (vector : List Bytes)
  | patch (data : UInt16) (index : Nat)

/-- A name that was written: where, and what `write_label` returned for it. -/
structure Placed where
  offset : Nat
  name : Name
  returned : Int

structure Draft where
  buf : Buffer
  cache : Cache
  names : List Placed

def Draft.new (size : Int) : Draft := ⟨Buffer.new size, StdMap.empty, []⟩

def Draft.write (s : Draft) : Write → Draft
  | .label name =>
    let (returned, buf, cache) := writeLabel s.buf name.text s.cache
    ⟨buf, cache, s.names ++ [⟨s.buf.data.length, name, returned⟩]⟩
  | .byte data => { s with buf := write8 s.buf data }
  | .word data => { s with buf := write16 s.buf data }
  | .dword data => { s with buf := write32 s.buf data }
  | .raw ptr len _ => { s with buf := writeRaw s.buf ptr len }
  | .ip ip => { s with buf := (writeIp s.buf ip).2 }
  | .vector vector => { s with buf := (writeVector s.buf vector 0).2 }
  | .patch data index => { s with buf := replace16 s.buf data index }

def Draft.run (s : Draft) (ws : List Write) : Draft := ws.foldl Draft.write s

def Placed.Covers (p : Placed) (i : Nat) : Prop := p.offset ≤ i ∧ (i : Int) < p.offset + p.returned

instance (p : Placed) (i : Nat) : Decidable (p.Covers i) := inferInstanceAs (Decidable (_ ∧ _))

/-- A back-patch goes to bytes that were written and belong to no name. -/
def Write.Legal (s : Draft) : Write → Prop
  | .patch _ index => index + 1 < s.buf.data.length ∧
      ∀ p ∈ s.names, ¬ p.Covers index ∧ ¬ p.Covers (index + 1)
  | _ => True

instance (s : Draft) : (w : Write) → Decidable (w.Legal s)
  | .patch _ _ => inferInstanceAs (Decidable (_ ∧ _))
  | .label _ | .byte _ | .word _ | .dword _ | .raw .. | .ip _ | .vector _ => .isTrue trivial

/-- Every write of the sequence is legal, and the buffer stays below `0x4000` bytes. -/
def Draft.Legal (s : Draft) : List Write → Prop
  | [] => True
  | w :: ws => w.Legal s ∧ (s.write w).buf.data.length < 0x4000 ∧ (s.write w).Legal ws

instance Draft.decidableLegal (s : Draft) : (ws : List Write) → Decidable (s.Legal ws)
  | [] => .isTrue trivial
  | w :: ws =>
    have := (s.write w).decidableLegal ws
    inferInstanceAs (Decidable (_ ∧ _ ∧ _))

/-! ### The invariant -/

def Draft.kept (s : Draft) : Set Nat := {i | ∃ p ∈ s.names, p.Covers i}

def Placed.Spelled (s : Draft) (p : Placed) : Prop :=
  ∃ k : Nat, p.returned = k ∧ p.offset + k ≤ s.buf.data.length ∧
    Spells s.kept s.buf.data p.offset p.name.parts k

structure Draft.Sound (s : Draft) : Prop where
  full : s.buf.Full
  small : s.buf.data.length < 0x4000
  cached : ∀ e ∈ s.cache.entries, Decodes s.kept s.buf.data e
  placed : ∀ p ∈ s.names, p.Spelled s

theorem sound_new (size : Int) : (Draft.new size).Sound := by
  refine ⟨rfl, by simp [Draft.new, Buffer.new], fun e he => ?_, fun p hp => ?_⟩
  · cases he
  · cases hp

/-- A write that keeps the names and the cache keeps the invariant. -/
theorem Draft.Sound.of_keeps {s : Draft} (h : s.Sound) {buf : Buffer} (hfull : buf.Full)
    (hlen : s.buf.data.length ≤ buf.data.length) (hsmall : buf.data.length < 0x4000)
    (hk : Region.Keeps s.kept s.buf.data buf.data) : ({ s with buf := buf } : Draft).Sound := by
  refine ⟨hfull, hsmall, fun e he => (h.cached e he).mono subset_rfl hk, fun p hp => ?_⟩
  obtain ⟨k, hr, hle, hs⟩ := h.placed p hp
  exact ⟨k, hr, hle.trans hlen, hs.mono subset_rfl hk⟩

theorem Draft.Sound.of_wrote {s : Draft} (h : s.Sound) {buf : Buffer}
    (hsmall : buf.data.length < 0x4000) (hw : ∃ w, Wrote s.buf buf w) :
    ({ s with buf := buf } : Draft).Sound := by
  obtain ⟨w, hw⟩ := hw
  exact h.of_keeps (hw.full h.full) (by rw [hw.length]; omega) hsmall (hw.keeps _)

/-- A new name keeps the invariant. -/
theorem Draft.Sound.label {s : Draft} (h : s.Sound) (name : Name)
    (hsmall : (s.write (.label name)).buf.data.length < 0x4000) :
    (s.write (.label name)).Sound := by
  cases hr : writeLabel s.buf name.text s.cache with
  | mk returned rest =>
    obtain ⟨buf, cache⟩ := rest
    have hs : s.write (.label name) =
        ⟨buf, cache, s.names ++ [⟨s.buf.data.length, name, returned⟩]⟩ := by
      simp only [Draft.write, hr]
    rw [hs] at hsmall ⊢
    obtain ⟨w, rfl, h'⟩ := writeLabel_spells name h.full h.cached hr hsmall
    have hlen := h'.wrote.length
    have hold : s.kept ⊆ Draft.kept ⟨buf, cache, s.names ++
        [⟨s.buf.data.length, name, w.length⟩]⟩ :=
      fun i ⟨p, hp, hc⟩ => ⟨p, List.mem_append_left _ hp, hc⟩
    have hkept : s.kept ∪ Set.Ico s.buf.data.length buf.data.length ⊆
        Draft.kept ⟨buf, cache, s.names ++ [⟨s.buf.data.length, name, w.length⟩]⟩ := by
      refine Set.union_subset hold fun i hi => ⟨_, List.mem_append_right _ (List.mem_singleton_self _), hi.1, ?_⟩
      have := hi.2
      simp only
      omega
    refine ⟨h'.wrote.full h.full, hsmall, fun e he => ?_, fun p hp => ?_⟩
    · rcases h'.added e he with he | he
      · exact (h.cached e he).mono hold (h'.wrote.keeps _)
      · exact he.mono hkept (Region.Keeps.refl _ _)
    · rcases List.mem_append.mp hp with hp | hp
      · obtain ⟨k, hk, hle, hsp⟩ := h.placed p hp
        exact ⟨k, hk, by simp only; omega, hsp.mono hold (h'.wrote.keeps _)⟩
      · obtain rfl := List.mem_singleton.mp hp
        exact ⟨w.length, rfl, hlen.ge, h'.spells.mono hkept (Region.Keeps.refl _ _)⟩

theorem sound_write {s : Draft} (h : s.Sound) (w : Write) (hw : w.Legal s)
    (hsmall : (s.write w).buf.data.length < 0x4000) : (s.write w).Sound := by
  cases w with
  | label name => exact h.label name hsmall
  | byte data => exact h.of_wrote hsmall ⟨_, wrote_write8 _ _⟩
  | word data => exact h.of_wrote hsmall ⟨_, wrote_write16 _ _⟩
  | dword data => exact h.of_wrote hsmall ⟨_, wrote_write32 _ _⟩
  | raw ptr len hlen => exact h.of_wrote hsmall ⟨_, wrote_appendRaw _ _ hlen⟩
  | ip ip => exact h.of_wrote hsmall (wrote_writeIp _ _)
  | vector vector => exact h.of_wrote hsmall (wrote_writeVector _ _ _)
  | patch data index =>
    obtain ⟨-, hout⟩ := hw
    refine h.of_keeps (replace16_full h.full _ _) (replace16_length _ _ _).ge hsmall
      (replace16_keeps data ?_ ?_)
    · rintro ⟨p, hp, hc⟩
      exact (hout p hp).1 hc
    · rintro ⟨p, hp, hc⟩
      exact (hout p hp).2 hc

theorem sound_run {s : Draft} (h : s.Sound) (ws : List Write) (hl : s.Legal ws) :
    (s.run ws).Sound := by
  induction ws generalizing s with
  | nil => exact h
  | cons w ws ih =>
    obtain ⟨hw, hsmall, hl⟩ := hl
    exact ih (sound_write h w hw hsmall) hl

/-! ### Decoding undoes encoding -/

/-- `getLabel` on a name spelled in a small buffer. -/
theorem getLabel_spelled {kept : Set Nat} {b : Buffer} (hb : b.Full)
    (hsmall : b.data.length < 0x4000) {i k : Nat} {n : Name}
    (h : Spells kept b.data i n.parts k) (hk : i + k ≤ b.data.length) (beyond : Nat → UInt8)
    (size : Int) : ∃ ret out,
      Gives (fun passes => getLabel passes (b.dataPtr beyond) (UInt16.ofInt b.index)
        (UInt16.ofNat i) (Buffer.new size)) (ret, out) ∧
      ret.toNat = k ∧ out.data = n.text ∧ out.Full := by
  have hi : UInt16.ofNat i ≤ UInt16.ofNat b.data.length := by
    rw [UInt16.le_iff_toNat_le, toNat_offset (by omega) h.inside.le, toNat_offset (by omega) le_rfl]
    exact h.inside.le
  obtain ⟨out, hg, hd, hx⟩ :=
    getLabel_name hi (h.nameAt beyond (hsmall.trans (by decide))) (Buffer.new size)
  rw [← hb.index16] at hg
  have hd' : out.deleteEnd.data = n.text := by
    rw [Buffer.deleteEnd, hd]
    exact dropLast_dotted n.nonempty
  refine ⟨_, _, hg, UInt32.toNat_ofNat_of_lt' (by norm_num; omega), hd', ?_⟩
  rw [Buffer.Full, hd', Name.text, ← length_dotted n.nonempty, Buffer.deleteEnd, hx]
  simp [Buffer.new]

def Write.label? : Write → Option Name
  | .label name => some name
  | _ => none

theorem names_run (s : Draft) (ws : List Write) :
    (s.run ws).names.map (·.name) = s.names.map (·.name) ++ ws.filterMap Write.label? := by
  induction ws generalizing s with
  | nil => simp [Draft.run]
  | cons w ws ih =>
    have hw : (s.write w).names.map (·.name) = s.names.map (·.name) ++ (Write.label? w).toList := by
      cases w <;> simp [Draft.write, Write.label?]
    have hrun : s.run (w :: ws) = (s.write w).run ws := rfl
    rw [hrun, ih, hw, List.append_assoc]
    cases h : Write.label? w <;> simp [h]

/-- Every name of a sequence of writes is in the final buffer at the offset where
it was written: `getLabel` returns the number of bytes that `write_label` returned
for it and writes out the name. -/
theorem label_round_trip (size : Int) (ws : List Write) (h : (Draft.new size).Legal ws)
    (beyond : Nat → UInt8) (outSize : Int) :
    let s := (Draft.new size).run ws
    s.names.map (·.name) = ws.filterMap Write.label? ∧
    ∀ p ∈ s.names, ∃ ret out,
      Gives (fun passes => getLabel passes (s.buf.dataPtr beyond) (UInt16.ofInt s.buf.index)
        (UInt16.ofNat p.offset) (Buffer.new outSize)) (ret, out) ∧
      (ret.toNat : Int) = p.returned ∧ out.data = p.name.text ∧ out.index = p.name.text.length := by
  refine ⟨by rw [names_run]; rfl, fun p hp => ?_⟩
  have hs := sound_run (sound_new size) ws h
  obtain ⟨k, hk, hle, hsp⟩ := hs.placed p hp
  obtain ⟨ret, out, hg, hret, hd, hx⟩ := getLabel_spelled hs.full hs.small hsp hle beyond outSize
  exact ⟨ret, out, hg, by rw [hret, hk], hd, by rw [hx, hd]⟩

/-- `cast.local` and `a.cast.local`, with a number between them that is patched. -/
def castNames : List Write :=
  [.label ⟨[str "cast", str "local"], by simp, by decide⟩, .word 0,
    .label ⟨[str "a", str "cast", str "local"], by simp, by decide⟩, .patch 7 12]

theorem label_round_trip_castNames :
    let s := (Draft.new 16).run castNames
    s.names.map (·.name) = castNames.filterMap Write.label? ∧
    ∀ p ∈ s.names, ∃ ret out,
      Gives (fun passes => getLabel passes (s.buf.dataPtr fun _ => 0) (UInt16.ofInt s.buf.index)
        (UInt16.ofNat p.offset) (Buffer.new 128)) (ret, out) ∧
      (ret.toNat : Int) = p.returned ∧ out.data = p.name.text ∧ out.index = p.name.text.length :=
  label_round_trip 16 castNames (by decide) (fun _ => 0) 128

end Flingd.Mdns
