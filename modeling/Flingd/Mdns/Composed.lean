import Flingd.Mdns.Message
import Flingd.Mdns.Composer

/-! What the composer leaves in the buffer: questions and records that stand
where they were composed, whatever is composed after them. -/
namespace Flingd.Mdns
open Region Writer Composer

/-- The bytes from the end of `b` to the end of `b'`. -/
def between (b b' : Buffer) : Set Nat := Set.Ico b.data.length b'.data.length

/-- The state between two calls: the kept bytes are written, and the names in
the cache are spelled among them. -/
structure Ready (kept : Set Nat) (b : Buffer) (cache : Cache) : Prop where
  full : b.Full
  inside : ∀ i ∈ kept, i < b.data.length
  cached : ∀ e ∈ cache.entries, Decodes kept b.data e

/-- `b'` has grown out of `b` by at most `room` bytes, which are kept from now on. -/
structure Grew (kept : Set Nat) (b b' : Buffer) (cache' : Cache) (room : Nat) : Prop where
  ready : Ready (kept ∪ between b b') b' cache'
  keeps : Keeps kept b.data b'.data
  le : b.data.length ≤ b'.data.length
  room : b'.data.length ≤ b.data.length + room

variable {kept : Set Nat} {b b' b'' : Buffer} {cache cache' cache'' : Cache} {r r' : Nat}

theorem between_trans (h : b.data.length ≤ b'.data.length) (h' : b'.data.length ≤ b''.data.length) :
    kept ∪ between b b' ∪ between b' b'' = kept ∪ between b b'' := by
  rw [Set.union_assoc, between, between, Set.Ico_union_Ico_eq_Ico h h']
  rfl

theorem Grew.trans (h : Grew kept b b' cache' r)
    (h' : Grew (kept ∪ between b b') b' b'' cache'' r') : Grew kept b b'' cache'' (r + r') := by
  have h₁ := h.le
  have h₂ := h'.le
  have h₃ := h.room
  have h₄ := h'.room
  refine ⟨between_trans h₁ h₂ ▸ h'.ready, ?_, by omega, by omega⟩
  exact h.keeps.trans (h'.keeps.anti Set.subset_union_left)

theorem Grew.weaken (h : Grew kept b b' cache' r) (hr : r ≤ r') : Grew kept b b' cache' r' :=
  ⟨h.ready, h.keeps, h.le, by have := h.room; omega⟩

theorem Ready.of_keeps {kept' : Set Nat} (h : Ready kept b cache) (hk : kept ⊆ kept')
    (hin : ∀ i ∈ kept', i < b'.data.length) (hfull : b'.Full) (hd : Keeps kept b.data b'.data) :
    Ready kept' b' cache :=
  ⟨hfull, hin, fun e he => (h.cached e he).mono hk hd⟩

theorem Ready.wrote (h : Ready kept b cache) {w : Bytes} (hw : Wrote b b' w) :
    Grew kept b b' cache w.length ∧ Stands (kept ∪ between b b') b'.data b.data.length w := by
  have hlen := hw.length
  have hin : ∀ i ∈ kept ∪ between b b', i < b'.data.length := by
    rintro i (hi | hi)
    · have := h.inside i hi
      omega
    · exact hi.2
  refine ⟨⟨h.of_keeps Set.subset_union_left hin (hw.full h.full) (hw.keeps _), hw.keeps _, by omega,
    by omega⟩, hw.stands ?_⟩
  rw [← hlen]
  exact Set.subset_union_right

/-- Bytes that are not kept, since they are to be patched. -/
theorem Ready.placeholder (h : Ready kept b cache) {w : Bytes} (hw : Wrote b b' w) :
    Ready kept b' cache := by
  refine h.of_keeps subset_rfl (fun i hi => ?_) (hw.full h.full) (hw.keeps _)
  have := h.inside i hi
  have := hw.length
  omega

theorem Ready.label (h : Ready kept b cache) (n : Name) {ret : Int}
    (hr : writeLabel b n.text cache = (ret, b', cache'))
    (hroom : b.data.length + n.text.length + 3 < 0x4000) :
    ∃ k : Nat, ret = k ∧ b'.data.length = b.data.length + k ∧
      Spells (kept ∪ between b b') b'.data b.data.length n.parts k ∧
      Grew kept b b' cache' (n.text.length + 3) := by
  have hlen := writeLabel_length n b cache
  rw [hr] at hlen
  simp only at hlen
  obtain ⟨w, rfl, hs⟩ := writeLabel_spells n h.full h.cached hr (by omega)
  have hw := hs.wrote.length
  refine ⟨w.length, rfl, hw, hs.spells, ⟨hs.wrote.full h.full, ?_, ?_⟩, hs.wrote.keeps _,
    by omega, by omega⟩
  · rintro i (hi | hi)
    · have := h.inside i hi
      omega
    · exact hi.2
  · intro e he
    rcases hs.added e he with he | he
    · exact (h.cached e he).mono Set.subset_union_left (hs.wrote.keeps _)
    · exact he

/-- A length that is patched once what it counts is written. -/
theorem Ready.patch (h : Ready kept b cache) {w : UInt16} {z : Bytes} (hz : Wrote b b' z)
    (hz2 : z.length = 2) (hg : Grew kept b' b'' cache'' r) :
    Grew kept b (replace16 b'' w b.index.toNat) cache'' (2 + r) ∧
      Keeps (kept ∪ between b' b'') b''.data (replace16 b'' w b.index.toNat).data ∧
      Stands (kept ∪ between b (replace16 b'' w b.index.toNat))
        (replace16 b'' w b.index.toNat).data b.data.length (wordBytes w) := by
  have hindex : b.index.toNat = b.data.length := by
    have := h.full
    unfold Buffer.Full at this
    omega
  rw [hindex]
  have h₁ := hz.length
  have h₂ := hg.le
  have h₃ := hg.room
  have hlen := replace16_length b'' w b.data.length
  have hout : ∀ i, i = b.data.length ∨ i = b.data.length + 1 → i ∉ kept ∪ between b' b'' := by
    rintro i hi (hk | hk)
    · have := h.inside i hk
      omega
    · have := hk.1
      omega
  have hkeeps : Keeps (kept ∪ between b' b'') b''.data (replace16 b'' w b.data.length).data :=
    replace16_keeps w (hout _ (.inl rfl)) (hout _ (.inr rfl))
  have hsub : kept ∪ between b' b'' ⊆ kept ∪ between b (replace16 b'' w b.data.length) := by
    refine Set.union_subset_union_right _ fun i hi => ?_
    obtain ⟨hi₁, hi₂⟩ := hi
    exact ⟨by omega, by omega⟩
  refine ⟨⟨hg.ready.of_keeps hsub ?_ (replace16_full hg.ready.full _ _) hkeeps, ?_, by omega,
    by omega⟩, hkeeps, ?_⟩
  · rintro i (hi | hi)
    · have := h.inside i hi
      omega
    · exact hi.2
  · exact ((hz.keeps _).trans hg.keeps).trans (hkeeps.anti Set.subset_union_left)
  · exact replace16_stands w (.inr ⟨by omega, by omega⟩) (.inr ⟨by omega, by omega⟩) (by omega)

theorem Grew.subset (h : Grew kept b b' cache' r) (h' : Grew (kept ∪ between b b') b' b'' cache'' r') :
    kept ∪ between b b' ⊆ kept ∪ between b b'' := by
  rw [← between_trans h.le h'.le]
  exact Set.subset_union_left

/-! ### Questions -/

theorem addQueryPtr_stands (h : Ready kept b cache) (name : Name) (type cls : UInt16)
    (hroom : b.data.length + name.text.length + 7 < 0x4000)
    (hr : addQueryPtr b name.text type cls cache = (b', cache')) :
    Grew kept b b' cache' (name.text.length + 7) ∧
      (⟨name, type, classUnicast ||| classIn⟩ : Question).StandsAt (kept ∪ between b b') b'.data
        b.data.length b'.data.length := by
  unfold addQueryPtr at hr
  cases hl : writeLabel b name.text cache with
  | mk ret rest =>
    obtain ⟨b₁, cache₁⟩ := rest
    rw [hl] at hr
    cases hr
    obtain ⟨k, rfl, hk, hs, hg⟩ := h.label name hl (by omega)
    have hw := (wrote_write16 b₁ type).trans (wrote_write16 _ (classUnicast ||| classIn))
    obtain ⟨hg', hst⟩ := hg.ready.wrote hw
    have hlen := hw.length
    simp only [wordBytes, List.length_append, List.length_cons, List.length_nil] at hlen
    refine ⟨hg.trans hg', k, hs.mono (hg.subset hg') hg'.keeps, ?_, by omega⟩
    rwa [between_trans hg.le hg'.le, hk] at hst

/-! ### Records -/

theorem addRecord_stands (h : Ready kept b cache) (name : Name) (type cls : UInt16) (ttl : UInt32)
    (hroom : b.data.length + name.text.length + 11 < 0x4000)
    (hr : addRecord b name.text type cls ttl cache = (b', cache')) :
    Grew kept b b' cache' (name.text.length + 11) ∧ ∃ k, b'.data.length = b.data.length + k + 8 ∧
      Spells (kept ∪ between b b') b'.data b.data.length name.parts k ∧
      Stands (kept ∪ between b b') b'.data (b.data.length + k)
        (wordBytes type ++ wordBytes cls ++ dwordBytes ttl) := by
  unfold addRecord at hr
  cases hl : writeLabel b name.text cache with
  | mk ret rest =>
    obtain ⟨b₁, cache₁⟩ := rest
    rw [hl] at hr
    cases hr
    obtain ⟨k, rfl, hk, hs, hg⟩ := h.label name hl (by omega)
    have hw := ((wrote_write16 b₁ type).trans (wrote_write16 _ cls)).trans (wrote_write32 _ ttl)
    obtain ⟨hg', hst⟩ := hg.ready.wrote hw
    have hlen := hw.length
    simp only [wordBytes, dwordBytes, List.length_append, List.length_cons, List.length_nil] at hlen
    refine ⟨hg.trans hg', k, by omega, hs.mono (hg.subset hg') hg'.keeps, ?_⟩
    rwa [between_trans hg.le hg'.le, hk] at hst

/-- A record whose data has been written after the two bytes for its length. -/
theorem record_stands (h : Ready kept b cache) (e : Entry) {b₁ b₂ b₃ : Buffer}
    {cache₁ cache₃ : Cache} (hroom : b.data.length + e.name.text.length + 11 < 0x4000)
    (hr : addRecord b e.name.text e.data.type e.cls e.ttl cache = (b₁, cache₁)) {z : Bytes}
    (hz : Wrote b₁ b₂ z) (hz2 : z.length = 2)
    (hg : Grew (kept ∪ between b b₁) b₂ b₃ cache₃ r) {dl : Nat}
    (hdl : b₃.data.length = b₂.data.length + dl)
    (hdata : e.data.StandsAt (kept ∪ between b b₁ ∪ between b₂ b₃) b₃.data b₂.data.length dl) :
    let b' := replace16 b₃ (UInt16.ofNat dl) b₁.index.toNat
    Grew kept b b' cache₃ (e.name.text.length + 13 + r) ∧
      e.StandsAt (kept ∪ between b b') b'.data b.data.length b'.data.length := by
  obtain ⟨hg₁, k, hk, hs, hst⟩ := addRecord_stands h e.name e.data.type e.cls e.ttl hroom hr
  obtain ⟨hg₂, hkeeps, hlen⟩ := hg₁.ready.patch (w := UInt16.ofNat dl) hz hz2 hg
  have h₂ := hz.length
  have h₃ := replace16_length b₃ (UInt16.ofNat dl) b₁.index.toNat
  have hsub := hg₁.subset hg₂
  have hsub₂ : kept ∪ between b b₁ ∪ between b₂ b₃ ⊆
      kept ∪ between b (replace16 b₃ (UInt16.ofNat dl) b₁.index.toNat) := by
    refine Set.union_subset hsub fun i hi => .inr ?_
    have := hg₁.le
    exact ⟨by have := hi.1; omega, by have := hi.2; omega⟩
  have hdata' := hdata.mono hsub₂ hkeeps
  refine ⟨(hg₁.trans hg₂).weaken (by omega), k, dl, hs.mono hsub hg₂.keeps, ?_, ?_, by omega⟩
  · refine stands_append.mpr ⟨hst.mono hsub hg₂.keeps, ?_⟩
    rw [between_trans hg₁.le hg₂.le, hk] at hlen
    exact hlen
  · rwa [show b.data.length + k + 10 = b₂.data.length by omega]

section Records
variable (name : Name) (cls : UInt16) (ttl : UInt32)

theorem addAnswerPtr_stands (h : Ready kept b cache) (data : Name)
    (hroom : b.data.length + name.text.length + data.text.length + 16 < 0x4000)
    (hr : addAnswerPtr b name.text typePtr cls ttl data.text cache = (b', cache')) :
    Grew kept b b' cache' (name.text.length + data.text.length + 16) ∧
      (⟨name, cls, ttl, .pointer data⟩ : Entry).StandsAt (kept ∪ between b b') b'.data
        b.data.length b'.data.length := by
  unfold addAnswerPtr at hr
  cases ha : addRecord b name.text typePtr cls ttl cache with
  | mk b₁ cache₁ =>
    cases hl : writeLabel (write16 b₁ 0) data.text cache₁ with
    | mk ret rest =>
      obtain ⟨b₃, cache₃⟩ := rest
      simp only [ha, hl] at hr
      cases hr
      obtain ⟨hg₁, -⟩ := addRecord_stands h name typePtr cls ttl (by omega) ha
      have hz := wrote_write16 b₁ 0
      have hlen := hz.length
      have hroom₁ := hg₁.room
      simp only [wordBytes, List.length_cons, List.length_nil] at hlen
      obtain ⟨dl, rfl, hdl, hs, hg⟩ := (hg₁.ready.placeholder hz).label data hl (by omega)
      obtain ⟨hg', he⟩ := record_stands h ⟨name, cls, ttl, .pointer data⟩ (by simp only; omega) ha
        hz rfl hg hdl hs
      rw [ofInt_natCast]
      exact ⟨hg'.weaken (by simp only; omega), he⟩

theorem addAdditionalSrv_stands (h : Ready kept b cache) (data : Name)
    (hroom : b.data.length + name.text.length + data.text.length + 22 < 0x4000)
    (hr : addAdditionalSrv b name.text typeSrv cls ttl data.text cache = (b', cache')) :
    Grew kept b b' cache' (name.text.length + data.text.length + 22) ∧
      (⟨name, cls, ttl, .service 0 0 9431 data⟩ : Entry).StandsAt (kept ∪ between b b') b'.data
        b.data.length b'.data.length := by
  unfold addAdditionalSrv at hr
  cases ha : addRecord b name.text typeSrv cls ttl cache with
  | mk b₁ cache₁ =>
    cases hl : writeLabel (write16 (write16 (write16 (write16 b₁ 0) 0) 0) 0x24d7) data.text
        cache₁ with
    | mk ret rest =>
      obtain ⟨b₃, cache₃⟩ := rest
      simp only [ha, hl] at hr
      cases hr
      obtain ⟨hg₁, -⟩ := addRecord_stands h name typeSrv cls ttl (by omega) ha
      have hz := wrote_write16 b₁ 0
      have hw := ((wrote_write16 (write16 b₁ 0) 0).trans (wrote_write16 _ 0)).trans
        (wrote_write16 _ 0x24d7)
      obtain ⟨hg₂, hst⟩ := (hg₁.ready.placeholder hz).wrote hw
      have hroom₁ := hg₁.room
      have hlen := hz.length
      have hlen₂ := hw.length
      simp only [wordBytes, List.length_append, List.length_cons, List.length_nil] at hlen hlen₂
      obtain ⟨k, rfl, hk, hs, hg₃⟩ := hg₂.ready.label data hl (by omega)
      have hg := hg₂.trans hg₃
      rw [between_trans hg₂.le hg₃.le] at hs
      have hdl : b₃.data.length = (write16 b₁ 0).data.length + (6 + k) := by omega
      obtain ⟨hg', he⟩ := record_stands h ⟨name, cls, ttl, .service 0 0 9431 data⟩
        (by simp only; omega) ha hz rfl hg hdl
        ⟨hst.mono (hg₂.subset hg₃) hg₃.keeps, k, rfl, by rwa [← hlen₂]⟩
      rw [ofInt_natCast]
      rw [UInt16.ofNat_add] at hg' he
      refine ⟨hg'.weaken ?_, he⟩
      simp only [wordBytes, List.length_append, List.length_cons, List.length_nil]
      omega

theorem addAdditionalTxt_stands (h : Ready kept b cache) (data : List Bytes) (hne : data ≠ [])
    (hv : ∀ s ∈ data, s.length < 256)
    (hroom : b.data.length + name.text.length + data.length + data.flatten.length + 13 < 0x4000)
    (hr : addAdditionalTxt b name.text typeTxt cls ttl data cache = (b', cache')) :
    Grew kept b b' cache' (name.text.length + data.length + data.flatten.length + 13) ∧
      (⟨name, cls, ttl, .texts⟩ : Entry).StandsAt (kept ∪ between b b') b'.data
        b.data.length b'.data.length := by
  unfold addAdditionalTxt at hr
  cases ha : addRecord b name.text typeTxt cls ttl cache with
  | mk b₁ cache₁ =>
    obtain ⟨w, hw, hret, hlong, hshort⟩ := writeVector_returns (write16 b₁ 0) data hv 0
    have hpos := List.length_pos_iff.mpr hne
    cases hi : writeVector (write16 b₁ 0) data 0 with
    | mk ret b₃ =>
      rw [hi] at hret hw
      obtain rfl : ret = w.length := by simpa using hret
      simp only [ha, hi] at hr
      cases hr
      obtain ⟨hg₁, -⟩ := addRecord_stands h name typeTxt cls ttl (by omega) ha
      have hz := wrote_write16 b₁ 0
      obtain ⟨hg, -⟩ := (hg₁.ready.placeholder hz).wrote hw
      obtain ⟨hg', he⟩ := record_stands h ⟨name, cls, ttl, .texts⟩ (by simp only; omega) ha
        hz rfl hg hw.length (hpos.trans_le hlong)
      rw [ofInt_natCast]
      exact ⟨hg'.weaken (by simp only; omega), he⟩

theorem addAdditionalAddr_stands (h : Ready kept b cache) (bs : Bytes) (hbs : bs.length = 4)
    (hroom : b.data.length + name.text.length + 17 < 0x4000)
    (hr : addAdditionalAddr b name.text typeAddress cls ttl (inetNtop4 bs) cache = (b', cache')) :
    Grew kept b b' cache' (name.text.length + 17) ∧
      (⟨name, cls, ttl, .address bs hbs⟩ : Entry).StandsAt (kept ∪ between b b') b'.data
        b.data.length b'.data.length := by
  unfold addAdditionalAddr at hr
  cases ha : addRecord b name.text typeAddress cls ttl cache with
  | mk b₁ cache₁ =>
    obtain ⟨hret, hw⟩ := writeIp_address (write16 b₁ 0) hbs
    cases hi : writeIp (write16 b₁ 0) (inetNtop4 bs) with
    | mk ret b₃ =>
      rw [hi] at hret hw
      obtain rfl : ret = 4 := hret
      simp only [ha, hi] at hr
      cases hr
      obtain ⟨hg₁, -⟩ := addRecord_stands h name typeAddress cls ttl (by omega) ha
      have hz := wrote_write16 b₁ 0
      obtain ⟨hg, hst⟩ := (hg₁.ready.placeholder hz).wrote hw
      obtain ⟨hg', he⟩ := record_stands h ⟨name, cls, ttl, .address bs hbs⟩ (by simp only; omega) ha
        hz rfl hg (hbs ▸ hw.length) ⟨hst, rfl⟩
      exact ⟨hg'.weaken (by simp only; omega), he⟩

end Records

end Flingd.Mdns
