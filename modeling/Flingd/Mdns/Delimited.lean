import Flingd.Mdns.Written

/-! Names with empty parts. An empty part is written as a zero byte, which ends
the name for the reader: `getLabel` takes all that `write_label` has appended
exactly when no empty part of the label had to be written out. -/
namespace Flingd.Mdns
open Traced Region Reader Writer

/-- A label whose parts fit; a part may be empty. -/
structure Label where
  text : Bytes
  noNul : 0 ∉ text
  short : ∀ p ∈ split 46 text, p.length ≤ 63

inductive Piece where
  | label (label : Label)
  | bytes (w : Bytes)

structure Page where
  buf : Buffer
  cache : Cache

namespace Page

def new (size : Int) : Page := ⟨Buffer.new size, StdMap.empty⟩

def write (s : Page) : Piece → Page
  | .label l =>
    let (_, buf, cache) := writeLabel s.buf l.text s.cache
    ⟨buf, cache⟩
  | .bytes w => { s with buf := w.foldl write8 s.buf }

def run (s : Page) (pieces : List Piece) : Page := pieces.foldl write s

end Page

/-- No part in front of the first end of the label that is cached is empty. -/
def EmptyPartsCached (cache : Cache) : List Bytes → Prop
  | [] => True
  | p :: parts => join 46 (p :: parts) ∈ cache.keys ∨ p ≠ [] ∧ EmptyPartsCached cache parts

instance EmptyPartsCached.decidable (cache : Cache) :
    (parts : List Bytes) → Decidable (EmptyPartsCached cache parts)
  | [] => .isTrue trivial
  | _ :: parts =>
    have := EmptyPartsCached.decidable cache parts
    inferInstanceAs (Decidable (_ ∨ _ ∧ _))

/-- A name that takes `k` bytes is spelled at offset `i`, whatever its parts. -/
def Readable (d : Bytes) (i k : Nat) : Prop := ∃ parts, Spells Set.univ d i parts k

theorem Spells.fits {kept : Set Nat} {d : Bytes} {i : Nat} {parts : List Bytes} {k : Nat}
    (h : Spells kept d i parts k) : i + k ≤ d.length := by
  induction h with
  | root h => exact h.inside (by simp)
  | label _ _ _ ih => omega
  | pointer _ h _ _ => exact h.inside (by simp [wordBytes])

theorem Readable.wrote {b b' : Buffer} {w : Bytes} {i k : Nat} (h : Readable b.data i k)
    (hw : Wrote b b' w) : Readable b'.data i k := by
  obtain ⟨parts, hs⟩ := h
  exact ⟨parts, hs.mono subset_rfl (hw.keeps _)⟩

structure LabelPart (p : Bytes) : Prop where
  short : p.length ≤ 63
  noNul : 0 ∉ p
  noDot : 46 ∉ p

theorem Label.parts (l : Label) : ∀ p ∈ split 46 l.text, LabelPart p := by
  intro p hp
  obtain ⟨hdot, hsub⟩ := mem_split hp
  exact ⟨l.short p hp, fun h => l.noNul (hsub _ h), hdot⟩

theorem LabelPart.isPart {p : Bytes} (h : LabelPart p) (hne : p ≠ []) : IsPart p :=
  ⟨List.length_pos_iff.mpr hne, h.short, h.noNul, h.noDot⟩

/-- A part goes out with its length, an empty one as a zero byte. -/
theorem LabelPart.wrote {p : Bytes} (hp : LabelPart p) (b : Buffer) :
    Wrote b (writeRaw (write8 b (UInt8.ofNat (strlen p))) p (UInt8.ofNat (strlen p)))
      (UInt8.ofNat p.length :: p) := by
  have hshort := hp.short
  rw [strlen_eq_length hp.noNul]
  by_cases hne : p = []
  · subst hne
    exact (wrote_write8 b 0).trans (Wrote.refl _)
  · exact (wrote_write8 b _).trans
      (wrote_writeRaw _ (List.length_pos_iff.mpr hne) (by omega))

/-! ### The cache -/

theorem scan_eq_none {cache : Cache} {key : Bytes} :
    cache.scan (· = key) = none ↔ key ∉ cache.keys := by
  rw [StdMap.scan_none]
  simp only [decide_eq_false_iff_not, StdMap.keys, List.mem_map, not_exists, not_and]

theorem mem_keys_cacheLabel {cache : Cache} {label key : Bytes} {index : UInt16}
    (h : key ∈ (cacheLabel cache label index).keys) : key = label ∨ key ∈ cache.keys := by
  obtain ⟨e, he, rfl⟩ := List.mem_map.mp h
  rcases mem_cacheLabel he with rfl | he
  · exact .inl rfl
  · exact .inr (List.mem_map.mpr ⟨e, he, rfl⟩)

theorem mem_cacheLabel_of_mem {cache : Cache} {label : Bytes} {index : UInt16}
    {e : Bytes × UInt16} (h : e ∈ cache.entries) : e ∈ (cacheLabel cache label index).entries := by
  unfold cacheLabel
  split
  · exact StdMap.mem_insert_of_mem _ _ h
  · split
    · exact StdMap.mem_insert_of_mem _ _ h
    · exact h

/-- A longer key makes no difference to the look-up of a shorter one. -/
theorem mem_keys_cacheLabel_shorter {cache : Cache} {label key : Bytes} {index : UInt16}
    (h : key.length < label.length) :
    key ∈ (cacheLabel cache label index).keys ↔ key ∈ cache.keys := by
  constructor
  · intro hm
    refine (mem_keys_cacheLabel hm).resolve_left ?_
    rintro rfl
    exact lt_irrefl _ h
  · intro hm
    obtain ⟨e, he, hk⟩ := List.mem_map.mp hm
    exact List.mem_map.mpr ⟨e, mem_cacheLabel_of_mem he, hk⟩

theorem emptyPartsCached_cacheLabel {cache : Cache} {key : Bytes} (index : UInt16)
    (parts : List Bytes) (h : parts ≠ [] → (join 46 parts).length < key.length) :
    EmptyPartsCached (cacheLabel cache key index) parts ↔ EmptyPartsCached cache parts := by
  induction parts with
  | nil => rfl
  | cons p parts ih =>
    have hlt := h (by simp)
    have hle := (length_join_cons 46 p parts).1
    have ih := ih fun _ => by omega
    simp only [EmptyPartsCached, mem_keys_cacheLabel_shorter hlt, ih]

/-! ### `write_label` -/

/-- What `write_label` has done, from a state with `b` and `cache`: the new
entries can be read, and the name is read to its end when no empty part was
written. -/
structure Delimited (b : Buffer) (cache : Cache) (parts : List Bytes) (b' : Buffer) (cache' : Cache)
    (w : Bytes) : Prop where
  wrote : Wrote b b' w
  nonempty : w ≠ []
  added : ∀ e ∈ cache'.entries, e ∈ cache.entries ∨ ∃ k, Readable b'.data e.2.toNat k
  reads : ∃ k, Readable b'.data b.data.length k ∧ (k = w.length ↔ EmptyPartsCached cache parts)

variable {b b' : Buffer} {cache cache' : Cache}

theorem Wrote.stands_univ {w : Bytes} (h : Wrote b b' w) :
    Stands Set.univ b'.data b.data.length w :=
  h.stands (Set.subset_univ _)

/-- The pass that finds what remains in the cache. -/
theorem delimited_pointer {parts : List Bytes} {index : UInt16} (hsmall : index.toNat < 0x4000)
    (hr : ∃ k, Readable b.data index.toNat k) (hp : EmptyPartsCached cache parts) :
    Delimited b cache parts (write16 b (index ||| (0xC0 : UInt16) <<< 8)) cache
      (wordBytes (index ||| (0xC0 : UInt16) <<< 8)) := by
  obtain ⟨k, hk⟩ := hr
  have hw := wrote_write16 b (index ||| (0xC0 : UInt16) <<< 8)
  obtain ⟨ps, hs⟩ := hk.wrote hw
  exact ⟨hw, by simp [wordBytes], fun e he => .inl he,
    2, ⟨ps, .pointer hsmall hw.stands_univ hs⟩, iff_of_true rfl hp⟩

/-- The last pass, whether or not the empty end is cached. -/
theorem writeParts_nil (b : Buffer) (cache : Cache) (ret_len : Int) :
    ∃ w, w ≠ [] ∧ Wrote b (writeParts b cache ret_len [] []).2.1 w ∧
      (writeParts b cache ret_len [] []).2.2 = cache := by
  unfold writeParts
  cases cache.scan (· = []) with
  | some e => exact ⟨_, by simp [wordBytes], wrote_write16 b _, rfl⟩
  | none => exact ⟨[0], by simp, wrote_write8 b 0, rfl⟩

/-- The key of a label is longer than that of what is left, unless an empty part is the last one. -/
theorem length_join_lt {p : Bytes} {parts : List Bytes} (h : p ≠ [] ∨ parts ≠ []) :
    (join 46 parts).length < (join 46 (p :: parts)).length := by
  rcases h with h | h
  · have := List.length_pos_iff.mpr h
    have := (length_join_cons 46 p parts).1
    omega
  · obtain ⟨q, qs, rfl⟩ := List.exists_cons_of_ne_nil h
    rw [join_cons_cons, List.length_append, List.length_cons]
    omega

/-- The label whose first part was written is in the cache from then on. -/
theorem added_cacheLabel {key : Bytes} {index : UInt16} {i k : Nat} (hindex : index.toNat = i)
    (hread : Readable b'.data i k)
    (hadded : ∀ e ∈ cache'.entries, e ∈ (cacheLabel cache key index).entries ∨
      ∃ k, Readable b'.data e.2.toNat k) :
    ∀ e ∈ cache'.entries, e ∈ cache.entries ∨ ∃ k, Readable b'.data e.2.toNat k := by
  intro e he
  rcases hadded e he with he | he
  · refine (mem_cacheLabel he).symm.imp id ?_
    rintro rfl
    exact ⟨k, by simpa only [hindex] using hread⟩
  · exact .inr he

/-- A zero byte: the reader stops here, whatever comes after it. -/
theorem delimited_empty {b₁ : Buffer} {parts : List Bytes} {index : UInt16} {w : Bytes}
    (h₁ : Wrote b b₁ [0]) (hnew : join 46 ([] :: parts) ∉ cache.keys)
    (hindex : index.toNat = b.data.length) (hw : w ≠ []) (hwrote : Wrote b₁ b' w)
    (hadded : ∀ e ∈ cache'.entries,
      e ∈ (cacheLabel cache (join 46 ([] :: parts)) index).entries ∨
        ∃ k, Readable b'.data e.2.toNat k) :
    Delimited b cache ([] :: parts) b' cache' ([0] ++ w) := by
  have hall := h₁.trans hwrote
  have hroot : Readable b'.data b.data.length 1 :=
    ⟨[], .root (stands_append.mp hall.stands_univ).1⟩
  have hpos := List.length_pos_iff.mpr hw
  refine ⟨hall, by simp, added_cacheLabel hindex hroot hadded, 1, hroot, iff_of_false ?_ ?_⟩
  · simp only [List.length_append, List.length_cons, List.length_nil]
    omega
  · rintro (h | ⟨h, -⟩)
    · exact hnew h
    · exact h rfl

/-- A part in front of what is read to its end, or is not. -/
theorem delimited_part {b₁ : Buffer} {p : Bytes} {parts : List Bytes} {index : UInt16} {w : Bytes}
    (hp : LabelPart p) (hne : p ≠ []) (h₁ : Wrote b b₁ (UInt8.ofNat p.length :: p))
    (hnew : join 46 (p :: parts) ∉ cache.keys) (hindex : index.toNat = b.data.length)
    (hd : Delimited b₁ (cacheLabel cache (join 46 (p :: parts)) index) parts b' cache' w) :
    Delimited b cache (p :: parts) b' cache' (UInt8.ofNat p.length :: p ++ w) := by
  obtain ⟨k, ⟨ps, hk⟩, hiff⟩ := hd.reads
  have hall := h₁.trans hd.wrote
  have hat : b₁.data.length = b.data.length + 1 + p.length := by
    have := h₁.length
    simp only [List.length_cons] at this
    omega
  have hread : Readable b'.data b.data.length (1 + p.length + k) := by
    refine ⟨p :: ps, .label (hp.isPart hne) (stands_append.mp hall.stands_univ).1 ?_⟩
    rwa [← hat]
  refine ⟨hall, by simp, added_cacheLabel hindex hread hd.added, _, hread, ?_⟩
  have hlen : (UInt8.ofNat p.length :: p ++ w).length = 1 + p.length + w.length := by
    simp only [List.cons_append, List.length_cons, List.length_append]
    omega
  rw [hlen, Nat.add_left_cancel_iff, hiff,
    emptyPartsCached_cacheLabel _ _ fun _ => length_join_lt (.inl hne)]
  simp only [EmptyPartsCached, hnew, false_or, ne_eq, hne, not_false_eq_true, true_and]

theorem writeParts_delimited (elems : List Bytes) (he : ∀ p ∈ elems, LabelPart p)
    {b b' : Buffer} {cache cache' : Cache} {ret_len ret : Int} (hb : b.Full)
    (hc : ∀ e ∈ cache.entries, e.1.length ≤ (join 46 elems).length →
      e.2.toNat < 0x4000 ∧ ∃ k, Readable b.data e.2.toNat k)
    (hr : writeParts b cache ret_len (join 46 elems) elems = (ret, b', cache'))
    (hfit : b'.data.length < 0x10000) : ∃ w, Delimited b cache elems b' cache' w := by
  induction elems generalizing b cache ret_len with
  | nil =>
    unfold writeParts at hr
    cases hscan : cache.scan (· = join 46 []) with
    | some e =>
      obtain ⟨key, index⟩ := e
      obtain ⟨hmem, hkey⟩ := StdMap.scan_some hscan
      obtain rfl : key = join 46 [] := by simpa using hkey
      obtain ⟨hlt, hread⟩ := hc _ hmem le_rfl
      rw [hscan] at hr
      cases hr
      exact ⟨_, delimited_pointer hlt hread trivial⟩
    | none =>
      rw [hscan] at hr
      cases hr
      have hw := wrote_write8 b 0
      exact ⟨[0], hw, by simp, fun e he => .inl he, 1, ⟨[], .root hw.stands_univ⟩,
        iff_of_true rfl trivial⟩
  | cons p parts ih =>
    obtain ⟨hp, hparts⟩ := List.forall_mem_cons.mp he
    unfold writeParts at hr
    cases hscan : cache.scan (· = join 46 (p :: parts)) with
    | some e =>
      obtain ⟨key, index⟩ := e
      obtain ⟨hmem, hkey⟩ := StdMap.scan_some hscan
      obtain rfl : key = join 46 (p :: parts) := by simpa using hkey
      obtain ⟨hlt, hread⟩ := hc _ hmem le_rfl
      rw [hscan] at hr
      cases hr
      exact ⟨_, delimited_pointer hlt hread (.inl (List.mem_map.mpr ⟨_, hmem, rfl⟩))⟩
    | none =>
      rw [hscan] at hr
      have hnew := scan_eq_none.mp hscan
      have h₁ := hp.wrote b
      have hjoin := (length_join_cons 46 p parts).1
      dsimp only at hr
      generalize hb₁ : writeRaw (write8 b (UInt8.ofNat (strlen p))) p (UInt8.ofNat (strlen p)) = b₁
        at hr h₁
      have htail (h : p ≠ [] ∨ parts ≠ []) : ∃ w, Delimited b₁
          (cacheLabel cache (join 46 (p :: parts)) (UInt16.ofInt b.index)) parts b' cache' w := by
        refine ih hparts (h₁.full hb) (fun e hmem hle => ?_) hr
        rcases mem_cacheLabel hmem with rfl | hmem
        · have := length_join_lt h
          simp only at hle
          omega
        · obtain ⟨hlt, k, hk⟩ := hc e hmem (by omega)
          exact ⟨hlt, k, hk.wrote h₁⟩
      have hindex {w : Bytes} (hw : Wrote b₁ b' w) :
          (UInt16.ofInt b.index).toNat = b.data.length := by
        have := h₁.length
        have := hw.length
        rw [hb.index16, toNat_offset (d := b.data) (by omega) le_rfl]
      by_cases hne : p = []
      · subst hne
        by_cases hlast : parts = []
        · subst hlast
          obtain ⟨w, hw, hwrote, hsame⟩ := writeParts_nil b₁
            (cacheLabel cache (join 46 [[]]) (UInt16.ofInt b.index)) (ret_len + 1 + strlen [])
          rw [join_nil] at hr
          rw [hr] at hwrote hsame
          exact ⟨_, delimited_empty h₁ hnew (hindex hwrote) hw hwrote fun e he => .inl (hsame ▸ he)⟩
        · obtain ⟨w, hd⟩ := htail (.inr hlast)
          exact ⟨_, delimited_empty h₁ hnew (hindex hd.wrote) hd.nonempty hd.wrote hd.added⟩
      · obtain ⟨w, hd⟩ := htail (.inl hne)
        exact ⟨_, delimited_part hp hne h₁ hnew (hindex hd.wrote) hd⟩

/-! ### Pages -/

theorem writeParts_wrote (elems : List Bytes) (he : ∀ p ∈ elems, LabelPart p) (b : Buffer)
    (cache : Cache) (ret_len : Int) (remain : Bytes) :
    ∃ w, Wrote b (writeParts b cache ret_len remain elems).2.1 w := by
  induction elems generalizing b cache ret_len remain with
  | nil =>
    unfold writeParts
    cases cache.scan (· = remain) with
    | some e => exact ⟨_, wrote_write16 b _⟩
    | none => exact ⟨_, wrote_write8 b 0⟩
  | cons p parts ih =>
    obtain ⟨hp, hparts⟩ := List.forall_mem_cons.mp he
    unfold writeParts
    cases cache.scan (· = remain) with
    | some e => exact ⟨_, wrote_write16 b _⟩
    | none =>
      obtain ⟨w, hw⟩ := ih hparts _ (cacheLabel cache remain (UInt16.ofInt b.index))
        (ret_len + 1 + strlen p) (join 46 parts)
      exact ⟨_, (hp.wrote b).trans hw⟩

theorem wrote_bytes (w : Bytes) (b : Buffer) : Wrote b (w.foldl write8 b) w := by
  induction w generalizing b with
  | nil => exact Wrote.refl b
  | cons c w ih => exact (wrote_write8 b c).trans (ih _)

namespace Page

theorem wrote_write (s : Page) (piece : Piece) : ∃ w, Wrote s.buf (s.write piece).buf w := by
  cases piece with
  | label l => exact writeParts_wrote _ l.parts s.buf s.cache 0 l.text
  | bytes w => exact ⟨w, wrote_bytes w s.buf⟩

theorem length_write (s : Page) (piece : Piece) :
    s.buf.data.length ≤ (s.write piece).buf.data.length := by
  obtain ⟨w, hw⟩ := s.wrote_write piece
  rw [hw.length]
  omega

theorem length_run (s : Page) (pieces : List Piece) :
    s.buf.data.length ≤ (s.run pieces).buf.data.length := by
  induction pieces generalizing s with
  | nil => exact le_rfl
  | cons piece pieces ih => exact (s.length_write piece).trans (ih (s.write piece))

structure Sound (s : Page) : Prop where
  full : s.buf.Full
  cached : ∀ e ∈ s.cache.entries, ∃ k, Readable s.buf.data e.2.toNat k

theorem sound_new (size : Int) : (new size).Sound := by
  refine ⟨rfl, fun e he => ?_⟩
  cases he

theorem Sound.label {s : Page} (h : s.Sound) (hsmall : s.buf.data.length < 0x4000) (l : Label)
    (hfit : (s.write (.label l)).buf.data.length < 0x10000) :
    ∃ w, Delimited s.buf s.cache (split 46 l.text) (s.write (.label l)).buf
      (s.write (.label l)).cache w := by
  have hparts : writeParts s.buf s.cache 0 (join 46 (split 46 l.text)) (split 46 l.text) =
      ((writeLabel s.buf l.text s.cache).1, (s.write (.label l)).buf, (s.write (.label l)).cache) := by
    rw [join_split]
    rfl
  refine writeParts_delimited _ l.parts h.full ?_ hparts hfit
  intro e he _
  obtain ⟨k, ps, hs⟩ := h.cached e he
  exact ⟨hs.inside.trans hsmall, k, ps, hs⟩

theorem Sound.write {s : Page} (h : s.Sound) (hsmall : s.buf.data.length < 0x4000) (piece : Piece)
    (hfit : (s.write piece).buf.data.length < 0x10000) : (s.write piece).Sound := by
  obtain ⟨w, hw⟩ := s.wrote_write piece
  have hold : ∀ e ∈ s.cache.entries, ∃ k, Readable (s.write piece).buf.data e.2.toNat k := by
    intro e he
    obtain ⟨k, hk⟩ := h.cached e he
    exact ⟨k, hk.wrote hw⟩
  refine ⟨hw.full h.full, ?_⟩
  cases piece with
  | bytes w => exact hold
  | label l =>
    obtain ⟨w, hd⟩ := h.label hsmall l hfit
    exact fun e he => (hd.added e he).elim (hold e) id

theorem Sound.run {s : Page} (h : s.Sound) (pieces : List Piece)
    (hsmall : (s.run pieces).buf.data.length < 0x4000) : (s.run pieces).Sound := by
  induction pieces generalizing s with
  | nil => exact h
  | cons piece pieces ih =>
    have hl := (s.write piece).length_run pieces
    have hw := s.length_write piece
    have hrun : (s.run (piece :: pieces)) = (s.write piece).run pieces := rfl
    rw [hrun] at hsmall ⊢
    exact ih (h.write (by omega) piece (by omega)) hsmall

end Page

/-- `getLabel` on a readable name. -/
theorem getLabel_readable {b : Buffer} (hfit : b.data.length < 0x10000) {i k : Nat}
    (h : Readable b.data i k) (beyond : Nat → UInt8) (o : Buffer) : ∃ out,
      Gives (fun passes => getLabel passes (b.dataPtr beyond) (UInt16.ofNat b.data.length)
        (UInt16.ofNat i) o) (UInt32.ofNat k, out) := by
  obtain ⟨parts, hs⟩ := h
  have hi : UInt16.ofNat i ≤ UInt16.ofNat b.data.length := by
    rw [UInt16.le_iff_toNat_le, toNat_offset hfit hs.inside.le, toNat_offset hfit le_rfl]
    exact hs.inside.le
  obtain ⟨out, hg, -⟩ := getLabel_name hi (hs.nameAt beyond hfit) o
  exact ⟨_, hg⟩

/-- From the first byte that `write_label` appends, `getLabel` takes just the bytes
that the call appended, if and only if the parts of the label that are written
out, those in front of its first cached end, are not empty. -/
theorem label_delimited_iff (size : Int) (pieces : List Piece) (l : Label)
    (hsmall : ((Page.new size).run pieces).buf.data.length < 0x4000)
    (hfit : (((Page.new size).run pieces).write (.label l)).buf.data.length < 0x10000)
    (beyond : Nat → UInt8) (o : Buffer) :
    let s := (Page.new size).run pieces
    let s' := s.write (.label l)
    (∃ ret out, Gives (fun passes => getLabel passes (s'.buf.dataPtr beyond)
        (UInt16.ofInt s'.buf.index) (UInt16.ofInt s.buf.index) o) (ret, out) ∧
      s.buf.data.length + ret.toNat = s'.buf.data.length) ↔
    EmptyPartsCached s.cache (split 46 l.text) := by
  intro s s'
  have hs : s.Sound := (Page.sound_new size).run pieces hsmall
  obtain ⟨w, hd⟩ := hs.label hsmall l hfit
  obtain ⟨k, hk, hiff⟩ := hd.reads
  have hlen : s'.buf.data.length = s.buf.data.length + w.length := hd.wrote.length
  obtain ⟨out, hg⟩ := getLabel_readable hfit hk beyond o
  rw [hs.full.index16, (hd.wrote.full hs.full).index16, ← hiff]
  obtain ⟨ps, hsp⟩ := hk
  have hfits : s.buf.data.length + k ≤ s'.buf.data.length := hsp.fits
  have hbound : s'.buf.data.length < 0x10000 := hfit
  have hret : (UInt32.ofNat k).toNat = k := UInt32.toNat_ofNat_of_lt' (by norm_num; omega)
  constructor
  · rintro ⟨ret, out', hg', hlen'⟩
    cases (growing_getLabel _ o).unique hg hg'
    omega
  · rintro rfl
    exact ⟨_, out, hg, by rw [hret, hlen]⟩

def emptyDevice : Label := ⟨str "._openflint._tcp.local", by decide, by decide⟩

theorem label_delimited_iff_cached :
    let s := (Page.new 16).run [.label emptyDevice, .bytes [0, 12]]
    let s' := s.write (.label emptyDevice)
    (∃ ret out, Gives (fun passes => getLabel passes (s'.buf.dataPtr fun _ => 0)
        (UInt16.ofInt s'.buf.index) (UInt16.ofInt s.buf.index) (Buffer.new 128)) (ret, out) ∧
      s.buf.data.length + ret.toNat = s'.buf.data.length) ↔
    EmptyPartsCached s.cache (split 46 emptyDevice.text) :=
  label_delimited_iff 16 [.label emptyDevice, .bytes [0, 12]] emptyDevice (by decide) (by decide)
    (fun _ => 0) (Buffer.new 128)

theorem emptyDevice_cut :
    let s := (Page.new 16).write (.label emptyDevice)
    (getLabel 1 (s.buf.dataPtr fun _ => 0) (UInt16.ofInt s.buf.index) 0 (Buffer.new 128)).val =
      some (1, ⟨-1, 128, []⟩) ∧ s.buf.data.length = 24 := by
  decide

end Flingd.Mdns
