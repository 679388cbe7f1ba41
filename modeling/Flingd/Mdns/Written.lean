import Flingd.Mdns.Spelling

/-! What the writers leave in the buffer. Each of them appends a word, and
`write_label` appends a spelling of its label: at every point of it, the entries
of the cache that can still be met are spelled in what has been written. -/
namespace Flingd.Mdns
open Region Writer

/-- `b'` is `b` with the word `w` written at its end. -/
structure Wrote (b b' : Buffer) (w : Bytes) : Prop where
  data : b'.data = b.data ++ w
  index : b'.index = b.index + w.length

/-- `_index` is the number of bytes written. -/
def Buffer.Full (b : Buffer) : Prop := b.index = b.data.length

variable {b b' b'' : Buffer} {w w' : Bytes}

theorem ofInt_toNat (c : UInt8) : UInt8.ofInt (c.toNat : Int) = c := by
  have hc := c.toNat_lt
  rw [UInt8.ofInt]
  apply UInt8.toNat_inj.mp
  simp only [UInt8.toNat_ofNat', Nat.reducePow]
  omega

theorem ofInt_natCast (n : Nat) : UInt16.ofInt n = UInt16.ofNat n := by
  rw [UInt16.ofInt]
  apply UInt16.toNat_inj.mp
  simp only [UInt16.toNat_ofNat', Nat.reducePow]
  omega

theorem Buffer.Full.index16 (hb : b.Full) : UInt16.ofInt b.index = UInt16.ofNat b.data.length := by
  rw [hb, ofInt_natCast]

theorem Wrote.refl (b : Buffer) : Wrote b b [] := ⟨by simp, by simp⟩

theorem Wrote.trans (h : Wrote b b' w) (h' : Wrote b' b'' w') : Wrote b b'' (w ++ w') := by
  refine ⟨by rw [h'.data, h.data, List.append_assoc], ?_⟩
  rw [h'.index, h.index, List.length_append]
  omega

theorem Wrote.full (h : Wrote b b' w) (hb : b.Full) : b'.Full := by
  unfold Buffer.Full at *
  rw [h.index, h.data, hb, List.length_append]
  omega

theorem Wrote.length (h : Wrote b b' w) : b'.data.length = b.data.length + w.length := by
  rw [h.data, List.length_append]

theorem Wrote.keeps (h : Wrote b b' w) (kept : Set Nat) : Keeps kept b.data b'.data := by
  rw [h.data]
  exact keeps_append kept _ _

theorem Wrote.stands (h : Wrote b b' w) {kept : Set Nat}
    (hk : Set.Ico b.data.length (b.data.length + w.length) ⊆ kept) :
    Stands kept b'.data b.data.length w := by
  rw [h.data]
  exact stands_end _ _ fun j hj => hk ⟨by omega, by omega⟩

/-! ### The plain writers -/

theorem wrote_appenduc (b : Buffer) (c : UInt8) : Wrote b (b.appenduc c) [c] := ⟨rfl, rfl⟩

theorem wrote_write8 (b : Buffer) (data : UInt8) : Wrote b (write8 b data) [data] :=
  wrote_appenduc b data

theorem wrote_write16 (b : Buffer) (data : UInt16) : Wrote b (write16 b data) (wordBytes data) :=
  (wrote_appenduc _ _).trans (wrote_appenduc _ _)

theorem wrote_write32 (b : Buffer) (data : UInt32) :
    Wrote b (write32 b data) (dwordBytes data) :=
  (((wrote_appenduc _ _).trans (wrote_appenduc _ _)).trans (wrote_appenduc _ _)).trans
    (wrote_appenduc _ _)

theorem strlen_le (s : Bytes) : strlen s ≤ s.length := (List.takeWhile_sublist _).length_le

/-- `append_raw` copies from the array as many bytes as it was told to. -/
theorem wrote_appendRaw (b : Buffer) (bfr : Bytes) {len : Nat} (h : len ≤ bfr.length) :
    Wrote b (b.appendRaw bfr len) (bfr.take (if len = 0 then strlen bfr else len)) := by
  have hs := strlen_le bfr
  unfold Buffer.appendRaw
  dsimp only
  by_cases h0 : (if len = 0 then strlen bfr else len) = 0
  · rw [if_pos h0, h0]
    exact ⟨by simp, by simp⟩
  · rw [if_neg h0]
    refine ⟨rfl, ?_⟩
    simp only [List.length_take]
    split <;> omega

theorem wrote_writeRaw (b : Buffer) {p : Bytes} (hpos : 0 < p.length) (h : p.length < 256) :
    Wrote b (writeRaw b p (UInt8.ofNat p.length)) p := by
  have hl : (UInt8.ofNat p.length).toNat = p.length := UInt8.toNat_ofNat_of_lt' (by norm_num; omega)
  have hw := wrote_appendRaw b p le_rfl
  rw [if_neg (by omega), List.take_length] at hw
  rw [writeRaw, hl]
  exact hw

theorem wrote_writeElements (b : Buffer) (elements : List Bytes) :
    ∃ w, Wrote b (writeElements b elements) w := by
  induction elements generalizing b with
  | nil => exact ⟨[], Wrote.refl b⟩
  | cons element elements ih =>
    unfold writeElements
    rw [List.foldl_cons]
    cases lexicalCastInt element with
    | none => exact ih b
    | some n =>
      obtain ⟨w, hw⟩ := ih (b.appenduc (UInt8.ofInt n))
      exact ⟨_, (wrote_appenduc b _).trans hw⟩

theorem wrote_writeIp (b : Buffer) (ip : Bytes) : ∃ w, Wrote b (writeIp b ip).2 w := by
  unfold writeIp
  dsimp only
  split
  · exact ⟨[], Wrote.refl b⟩
  · exact wrote_writeElements b _

theorem wrote_writeVector (b : Buffer) (vector : List Bytes) (ret_len : Int) :
    ∃ w, Wrote b (writeVector b vector ret_len).2 w := by
  induction vector generalizing b ret_len with
  | nil => exact ⟨[], Wrote.refl b⟩
  | cons s vector ih =>
    have hlen : (UInt8.ofNat (strlen s)).toNat ≤ s.length := by
      have := strlen_le s
      simp only [UInt8.toNat_ofNat', Nat.reducePow]
      omega
    obtain ⟨w, hw⟩ := ih (writeRaw (write8 b (UInt8.ofNat (strlen s))) s
      (UInt8.ofNat (strlen s))) (ret_len + 1 + (UInt8.ofNat (strlen s)).toNat)
    exact ⟨_, ((wrote_write8 b _).trans (wrote_appendRaw _ _ hlen)).trans hw⟩

/-- On texts that fit, `write_vector` returns the number of bytes it wrote. -/
theorem writeVector_returns (b : Buffer) (vector : List Bytes) (hv : ∀ s ∈ vector, s.length < 256)
    (ret_len : Int) : ∃ w, Wrote b (writeVector b vector ret_len).2 w ∧
      (writeVector b vector ret_len).1 = ret_len + w.length ∧ vector.length ≤ w.length ∧
      w.length ≤ vector.length + vector.flatten.length := by
  induction vector generalizing b ret_len with
  | nil => exact ⟨[], Wrote.refl b, by simp [writeVector], by simp, by simp⟩
  | cons s vector ih =>
    obtain ⟨hs, hv⟩ := List.forall_mem_cons.mp hv
    have hle := strlen_le s
    have hlen : (UInt8.ofNat (strlen s)).toNat = strlen s :=
      UInt8.toNat_ofNat_of_lt' (by norm_num; omega)
    have hraw : Wrote (write8 b (UInt8.ofNat (strlen s)))
        (writeRaw (write8 b (UInt8.ofNat (strlen s))) s (UInt8.ofNat (strlen s)))
        (s.take (strlen s)) := by
      have hraw := wrote_appendRaw (write8 b (UInt8.ofNat (strlen s))) s (hlen.trans_le hle)
      rw [hlen, ite_self] at hraw
      rw [writeRaw, hlen]
      exact hraw
    obtain ⟨w, hw, hret, hlong, hshort⟩ := ih (writeRaw (write8 b (UInt8.ofNat (strlen s))) s
      (UInt8.ofNat (strlen s))) hv (ret_len + 1 + (UInt8.ofNat (strlen s)).toNat)
    refine ⟨_, ((wrote_write8 b _).trans hraw).trans hw, ?_, ?_, ?_⟩
    · rw [writeVector, hret, hlen]
      simp only [List.length_append, List.length_cons, List.length_nil, List.length_take]
      omega
    · simp only [List.length_append, List.length_cons, List.length_nil]
      omega
    · simp only [List.length_append, List.length_cons, List.length_nil, List.length_take,
        List.flatten_cons]
      omega

/-- A canonical address is written as its four bytes. -/
theorem writeIp_address (b : Buffer) {bs : Bytes} (h : bs.length = 4) :
    (writeIp b (inetNtop4 bs)).1 = 4 ∧ Wrote b (writeIp b (inetNtop4 bs)).2 bs := by
  have hsplit : split 46 (inetNtop4 bs) = bs.map fun c => decimal c.toNat := by
    refine split_join (fun p hp => ?_) ?_
    · obtain ⟨c, -, rfl⟩ := List.mem_map.mp hp
      intro hc
      exact absurd (mem_decimal hc).1 (by decide)
    · rintro hnil
      simp [List.map_eq_nil_iff.mp hnil] at h
  have helems (bs : Bytes) (b : Buffer) :
      Wrote b (writeElements b (bs.map fun c => decimal c.toNat)) bs := by
    induction bs generalizing b with
    | nil => exact Wrote.refl b
    | cons c bs ih =>
      have hlt := c.toNat_lt
      have hw := (wrote_appenduc b c).trans (ih (b.appenduc c))
      unfold writeElements at hw ⊢
      rw [List.map_cons, List.foldl_cons, lexicalCastInt_decimal (by omega)]
      simp only [ofInt_toNat]
      exact hw
  unfold writeIp
  rw [hsplit]
  simp only [List.length_map, h, ne_eq, not_true_eq_false, if_false, true_and]
  exact helems bs b

/-! ### Back-patches -/

theorem replace16_keeps {kept : Set Nat} (data : UInt16) {index : Nat} (h : index ∉ kept)
    (h' : index + 1 ∉ kept) : Keeps kept b.data (replace16 b data index).data :=
  (keeps_set h _ _).trans (keeps_set h' _ _)

theorem replace16_length (b : Buffer) (data : UInt16) (index : Nat) :
    (replace16 b data index).data.length = b.data.length := by
  simp [replace16, replace8, Buffer.replace]

theorem replace16_stands {kept : Set Nat} (data : UInt16) {index : Nat} (h : index ∈ kept)
    (h' : index + 1 ∈ kept) (hin : index + 1 < b.data.length) :
    Stands kept (replace16 b data index).data index (wordBytes data) := by
  have hhi : (replace16 b data index).data[index]? = some ((data >>> 8) &&& 0xFF).toUInt8 := by
    simp only [replace16, replace8, Buffer.replace]
    rw [List.getElem?_set_ne (by omega), List.getElem?_set_self (by omega)]
  have hlo : (replace16 b data index).data[index + 1]? = some (data &&& 0xFF).toUInt8 := by
    simp only [replace16, replace8, Buffer.replace]
    rw [List.getElem?_set_self (by rw [List.length_set]; exact hin)]
  intro j c hc
  match j, hc with
  | 0, rfl => exact ⟨hhi, h⟩
  | 1, rfl => exact ⟨hlo, h'⟩

theorem replace16_full (hb : b.Full) (data : UInt16) (index : Nat) :
    (replace16 b data index).Full := by
  unfold Buffer.Full at *
  rw [replace16_length]
  exact hb

/-! ### `write_label` -/

def Decodes (kept : Set Nat) (d : Bytes) (e : Bytes × UInt16) : Prop :=
  ∃ n : Name, n.text = e.1 ∧ ∃ k, Spells kept d e.2.toNat n.parts k

theorem Decodes.mono {kept kept' : Set Nat} {d d' : Bytes} {e : Bytes × UInt16}
    (hk : kept ⊆ kept') (hd : Keeps kept d d') (h : Decodes kept d e) : Decodes kept' d' e := by
  obtain ⟨n, hn, k, hs⟩ := h
  exact ⟨n, hn, k, hs.mono hk hd⟩

theorem mem_cacheLabel {cache : Cache} {label : Bytes} {index : UInt16} {e : Bytes × UInt16}
    (h : e ∈ (cacheLabel cache label index).entries) : e = (label, index) ∨ e ∈ cache.entries := by
  unfold cacheLabel at h
  split at h
  · exact StdMap.mem_insert h
  · split at h
    · exact StdMap.mem_insert h
    · exact .inr h

/-- What `write_label` has done when it returns `ret` from a state with `b`
and `cache`: the parts are spelled from the old end of the buffer on, in the word
`w`, and every entry it has added decodes. -/
structure Spelled (kept : Set Nat) (b : Buffer) (cache : Cache) (parts : List Bytes) (w : Bytes)
    (b' : Buffer) (cache' : Cache) : Prop where
  wrote : Wrote b b' w
  spells : Spells (kept ∪ Set.Ico b.data.length b'.data.length) b'.data b.data.length parts w.length
  added : ∀ e ∈ cache'.entries,
    e ∈ cache.entries ∨ Decodes (kept ∪ Set.Ico b.data.length b'.data.length) b'.data e

/-- A part in front of what is spelled. -/
theorem Spelled.cons {kept : Set Nat} {b₁ : Buffer} {cache cache₁ cache' : Cache} {p : Bytes}
    {parts : List Bytes} (hp : IsPart p) (h₁ : Wrote b b₁ (UInt8.ofNat p.length :: p))
    (h : Spelled kept b₁ cache₁ parts w b' cache')
    (hc : ∀ e ∈ cache₁.entries, e ∈ cache.entries ∨
      e.1 = join 46 (p :: parts) ∧ e.2.toNat = b.data.length)
    (hparts : ∀ q ∈ parts, IsPart q) :
    Spelled kept b cache (p :: parts) (UInt8.ofNat p.length :: p ++ w) b' cache' := by
  have hlen := h₁.length
  have hlen' := h.wrote.length
  rw [List.length_cons] at hlen
  have hsub : kept ∪ Set.Ico b₁.data.length b'.data.length ⊆
      kept ∪ Set.Ico b.data.length b'.data.length :=
    Set.union_subset_union_right kept (Set.Ico_subset_Ico_left (by omega))
  have hw := h₁.trans h.wrote
  have hstand : Stands (kept ∪ Set.Ico b.data.length b'.data.length) b'.data b.data.length
      (UInt8.ofNat p.length :: p ++ w) := by
    refine hw.stands (Set.Ico_subset_Ico_right ?_ |>.trans Set.subset_union_right)
    rw [hw.length]
  have hspell : Spells (kept ∪ Set.Ico b.data.length b'.data.length) b'.data b.data.length
      (p :: parts) (1 + p.length + w.length) := by
    refine .label hp (stands_append.mp hstand).1 ?_
    have hrest := h.spells.mono hsub (Keeps.refl _ _)
    rwa [show b.data.length + 1 + p.length = b₁.data.length by omega]
  have hn : (UInt8.ofNat p.length :: p ++ w).length = 1 + p.length + w.length := by
    simp only [List.cons_append, List.length_cons, List.length_append]
    omega
  refine ⟨hw, by rwa [hn], fun e he => ?_⟩
  rcases h.added e he with he | he
  · refine (hc e he).imp id fun ⟨hk, hi⟩ => ?_
    have hv : ∀ q ∈ p :: parts, IsPart q := List.forall_mem_cons.mpr ⟨hp, hparts⟩
    exact ⟨⟨p :: parts, by simp, hv⟩, hk.symm, _, by rw [hi]; exact hspell⟩
  · exact .inr (he.mono hsub (Keeps.refl _ _))

theorem strlen_part {p : Bytes} (hp : IsPart p) : strlen p = p.length := strlen_eq_length hp.noNul

/-- The pass that finds what remains in the cache. -/
theorem spelled_pointer {kept : Set Nat} {cache : Cache} {elems : List Bytes} {index : UInt16}
    (he : ∀ p ∈ elems, IsPart p) (hd : Decodes kept b.data (join 46 elems, index))
    (hsmall : b.data.length < 0x4000) :
    Spelled kept b cache elems (wordBytes (index ||| (0xC0 : UInt16) <<< 8))
      (write16 b (index ||| (0xC0 : UInt16) <<< 8)) cache := by
  obtain ⟨n, hn, k, hs⟩ := hd
  have hne : elems ≠ [] := by
    rintro rfl
    exact n.text_ne_nil hn
  have hparts : n.parts = elems := by
    rw [← n.split_text, hn]
    exact split_join (fun p hp => (he p hp).noDot) hne
  rw [hparts] at hs
  have hw := wrote_write16 b (index ||| (0xC0 : UInt16) <<< 8)
  have hin : index.toNat < b.data.length := hs.inside
  refine ⟨hw, ?_, fun e he => .inl he⟩
  refine .pointer (by omega) (hw.stands ?_) (hs.mono Set.subset_union_left (hw.keeps _))
  rw [hw.length]
  exact Set.subset_union_right

/-- The pass that finds no part left. -/
theorem spelled_root (kept : Set Nat) (b : Buffer) (cache : Cache) :
    Spelled kept b cache [] [0] (write8 b 0) cache := by
  have hw := wrote_write8 b 0
  refine ⟨hw, .root (hw.stands ?_), fun e he => .inl he⟩
  rw [hw.length]
  exact Set.subset_union_right

theorem writeParts_spells {kept : Set Nat} (elems : List Bytes) (he : ∀ p ∈ elems, IsPart p)
    {b b' : Buffer} {cache cache' : Cache} {ret_len ret : Int} (hb : b.Full)
    (hc : ∀ e ∈ cache.entries, e.1.length ≤ (join 46 elems).length → Decodes kept b.data e)
    (hr : writeParts b cache ret_len (join 46 elems) elems = (ret, b', cache'))
    (hsmall : b'.data.length < 0x4000) :
    ∃ w, ret = ret_len + w.length ∧ Spelled kept b cache elems w b' cache' := by
  induction elems generalizing b cache ret_len with
  | nil =>
    unfold writeParts at hr
    cases hscan : cache.scan (· = join 46 []) with
    | some e =>
      obtain ⟨hmem, hkey⟩ := StdMap.scan_some hscan
      have hkey : e.1 = join 46 [] := by simpa using hkey
      obtain ⟨n, hn, -⟩ := hc e hmem (by rw [hkey])
      exact absurd (hn.trans hkey) n.text_ne_nil
    | none =>
      rw [hscan] at hr
      cases hr
      exact ⟨[0], rfl, spelled_root kept b _⟩
  | cons p parts ih =>
    obtain ⟨hp, hparts⟩ := List.forall_mem_cons.mp he
    have hshort := hp.short
    unfold writeParts at hr
    cases hscan : cache.scan (· = join 46 (p :: parts)) with
    | some e =>
      obtain ⟨key, index⟩ := e
      obtain ⟨hmem, hkey⟩ := StdMap.scan_some hscan
      obtain rfl : key = join 46 (p :: parts) := by simpa using hkey
      rw [hscan] at hr
      cases hr
      have hlen := (wrote_write16 b (index ||| (0xC0 : UInt16) <<< 8)).length
      exact ⟨_, rfl, spelled_pointer he (hc _ hmem le_rfl) (by omega)⟩
    | none =>
      rw [hscan] at hr
      simp only [strlen_part hp] at hr
      have h₁ := (wrote_write8 b (UInt8.ofNat p.length)).trans
        (wrote_writeRaw (write8 b (UInt8.ofNat p.length)) hp.pos (by omega))
      have hjoin := (length_join_cons 46 p parts).1
      have hpos := hp.pos
      have hc₁ : ∀ e ∈ (cacheLabel cache (join 46 (p :: parts)) (UInt16.ofInt b.index)).entries,
          e.1.length ≤ (join 46 parts).length →
            Decodes kept (writeRaw (write8 b (UInt8.ofNat p.length)) p
              (UInt8.ofNat p.length)).data e := by
        intro e hmem hle
        rcases mem_cacheLabel hmem with rfl | hmem
        · simp only at hle
          omega
        · exact (hc e hmem (by omega)).mono subset_rfl (h₁.keeps kept)
      obtain ⟨w, hret, hs⟩ := ih hparts (h₁.full hb) hc₁ hr
      refine ⟨_, ?_, hs.cons hp h₁ (fun e hmem => ?_) hparts⟩
      · simp only [List.cons_append, List.length_cons, List.length_append]
        omega
      · refine (mem_cacheLabel hmem).symm.imp id ?_
        rintro rfl
        refine ⟨rfl, ?_⟩
        have hlen := h₁.length
        have hlen' := hs.wrote.length
        simp only [List.cons_append, List.length_cons] at hlen
        rw [hb.index16, toNat_offset (hsmall.trans (by decide)) (by omega)]

/-- `write_label` spells its label at the end of the buffer and leaves a cache
all of whose entries decode. -/
theorem writeLabel_spells {kept : Set Nat} (n : Name) {b b' : Buffer} {cache cache' : Cache}
    {ret : Int} (hb : b.Full) (hc : ∀ e ∈ cache.entries, Decodes kept b.data e)
    (hr : writeLabel b n.text cache = (ret, b', cache')) (hsmall : b'.data.length < 0x4000) :
    ∃ w, ret = w.length ∧ Spelled kept b cache n.parts w b' cache' := by
  unfold writeLabel at hr
  rw [n.split_text] at hr
  obtain ⟨w, hret, hs⟩ := writeParts_spells n.parts n.valid hb (fun e he _ => hc e he) hr hsmall
  exact ⟨w, by omega, hs⟩

/-- A label takes at most its text, a length for each part and the root or pointer. -/
theorem writeParts_length (elems : List Bytes) (he : ∀ p ∈ elems, IsPart p) (b : Buffer)
    (cache : Cache) (ret_len : Int) (remain : Bytes) :
    (writeParts b cache ret_len remain elems).2.1.data.length ≤
      b.data.length + (dotted elems).length + 2 := by
  induction elems generalizing b cache ret_len remain with
  | nil =>
    unfold writeParts
    cases cache.scan (· = remain) with
    | some e => exact (wrote_write16 b _).length.le
    | none => exact (wrote_write8 b 0).length.le.trans (by simp only [List.length_singleton]; omega)
  | cons p parts ih =>
    obtain ⟨hp, hparts⟩ := List.forall_mem_cons.mp he
    have hshort := hp.short
    unfold writeParts
    cases cache.scan (· = remain) with
    | some e => exact (wrote_write16 b _).length.le.trans (by simp [wordBytes])
    | none =>
      simp only [strlen_part hp]
      refine (ih hparts _ _ _ _).trans ?_
      have h₁ := (wrote_write8 b (UInt8.ofNat p.length)).trans
        (wrote_writeRaw (write8 b (UInt8.ofNat p.length)) hp.pos (by omega))
      rw [h₁.length]
      simp only [dotted, List.flatMap_cons, List.length_append, List.length_cons, List.length_nil]
      omega

theorem writeLabel_length (n : Name) (b : Buffer) (cache : Cache) :
    (writeLabel b n.text cache).2.1.data.length ≤ b.data.length + n.text.length + 3 := by
  have h := writeParts_length n.parts n.valid b cache 0 n.text
  have hd := length_dotted n.nonempty
  rw [writeLabel, n.split_text]
  unfold Name.text at *
  omega

end Flingd.Mdns
