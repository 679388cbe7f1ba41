import Flingd.Mdns.Delimited

/-! Compression pointers. `write_label` once more, with the log of where it has
put the ends of its labels and the pointers to them. The cache has offsets of 16
bits, a pointer has room for 14. -/
namespace Flingd.Mdns
open Traced Region Writer

/-- What `write_label` has put at an offset of the buffer. -/
inductive Mark where
  /-- The first part of what remained of a label. -/
  | part (remain_label : Bytes) (offset : Int)
  /-- The pointer that stands for what remained. -/
  | pointer (remain_label : Bytes) (offset : Int) (pointer : UInt16)
deriving DecidableEq, Repr

inductive Chunk where
  | label (label : Bytes)
  | bytes (w : Bytes)

namespace Page

def enter (s : Page) : Chunk → Page
  | .label label =>
    let (_, buf, cache) := writeLabel s.buf label s.cache
    ⟨buf, cache⟩
  | .bytes w => { s with buf := w.foldl write8 s.buf }

def fill (s : Page) (chunks : List Chunk) : Page := chunks.foldl enter s

end Page

namespace Marked

def writeParts (buf : Buffer) (cache : Cache) (ret_len : Int) (remain_label : Bytes)
    (elems : List Bytes) : Traced Mark (Int × Buffer × Cache) :=
  match cache.scan (· = remain_label) with
  | some (_, index) =>
    let pointer := index ||| (0xC0 : UInt16) <<< 8
    touch (.pointer remain_label buf.index pointer) (ret_len + 2, write16 buf pointer, cache)
  | none =>
    match elems with
    | [] => pure (ret_len + 1, write8 buf 0, cache)
    | head :: elems => do
      touch (.part remain_label buf.index) ()
      let cache := cacheLabel cache remain_label (UInt16.ofInt buf.index)
      let len := strlen head
      let buf := write8 buf (UInt8.ofNat len)
      let buf := writeRaw buf head (UInt8.ofNat len)
      writeParts buf cache (ret_len + 1 + len) (join 46 elems) elems

def writeLabel (buf : Buffer) (label : Bytes) (cache : Cache) :
    Traced Mark (Int × Buffer × Cache) :=
  writeParts buf cache 0 label (split 46 label)

def enter (s : Page) : Chunk → Traced Mark Page
  | .label label => do
    let (_, buf, cache) ← writeLabel s.buf label s.cache
    pure ⟨buf, cache⟩
  | .bytes w => pure { s with buf := w.foldl write8 s.buf }

def fill (s : Page) : List Chunk → Traced Mark Page
  | [] => pure s
  | chunk :: chunks => do
    let s ← enter s chunk
    fill s chunks

/-! The log makes no difference. -/

theorem val_writeParts (buf : Buffer) (cache : Cache) (ret_len : Int) (remain_label : Bytes)
    (elems : List Bytes) : (writeParts buf cache ret_len remain_label elems).val =
      some (Writer.writeParts buf cache ret_len remain_label elems) := by
  induction elems generalizing buf cache ret_len remain_label with
  | nil =>
    unfold writeParts Writer.writeParts
    cases cache.scan (· = remain_label) <;> rfl
  | cons head elems ih =>
    unfold writeParts Writer.writeParts
    cases cache.scan (· = remain_label) with
    | some e => rfl
    | none => simp only [val_bind, val_touch, Option.bind_some, ih]

theorem val_enter (s : Page) (chunk : Chunk) : (enter s chunk).val = some (s.enter chunk) := by
  cases chunk with
  | label label =>
    simp only [enter, writeLabel, val_bind, val_writeParts, Option.bind_some, val_pure]
    rfl
  | bytes w => rfl

theorem log_fill_cons (s : Page) (chunk : Chunk) (chunks : List Chunk) :
    (fill s (chunk :: chunks)).log = (enter s chunk).log ++ (fill (s.enter chunk) chunks).log :=
  log_bind_some (val_enter s chunk) _

end Marked

/-! ### The cache and the log -/

/-- `write_label` has the bytes of a part as far as its length goes into a byte,
or all of them where nothing of it is left. -/
theorem wrote_head (b : Buffer) (head : Bytes) : ∃ w,
    Wrote b (writeRaw (write8 b (UInt8.ofNat (strlen head))) head (UInt8.ofNat (strlen head)))
      (UInt8.ofNat (strlen head) :: w) := by
  have hle : (UInt8.ofNat (strlen head)).toNat ≤ head.length := by
    have := strlen_le head
    rw [UInt8.toNat_ofNat']
    exact (Nat.mod_le _ _).trans this
  exact ⟨_, (wrote_write8 b _).trans (wrote_appendRaw _ head hle)⟩

theorem exists_wrote_writeParts (elems : List Bytes) (b : Buffer) (cache : Cache) (ret_len : Int)
    (remain_label : Bytes) : ∃ w, Wrote b (writeParts b cache ret_len remain_label elems).2.1 w := by
  induction elems generalizing b cache ret_len remain_label with
  | nil =>
    unfold writeParts
    cases cache.scan (· = remain_label) with
    | some e => exact ⟨_, wrote_write16 b _⟩
    | none => exact ⟨_, wrote_write8 b 0⟩
  | cons head elems ih =>
    unfold writeParts
    cases cache.scan (· = remain_label) with
    | some e => exact ⟨_, wrote_write16 b _⟩
    | none =>
      obtain ⟨w, hw⟩ := wrote_head b head
      obtain ⟨w', hw'⟩ := ih _ (cacheLabel cache remain_label (UInt16.ofInt b.index))
        (ret_len + 1 + strlen head) (join 46 elems)
      exact ⟨_, hw.trans hw'⟩

/-- The loop of `cache_label` comes to an entry with another key at once. -/
theorem cacheLabel_new {cache : Cache} {label : Bytes} (h : label ∉ cache.keys) (index : UInt16) :
    cacheLabel cache label index = cache.insert label index := by
  unfold cacheLabel
  by_cases h0 : cache.size = 0
  · rw [if_pos h0]
  · rw [if_neg h0]
    cases hscan : cache.scan (· ≠ label) with
    | some e => rfl
    | none =>
      rw [StdMap.scan_none] at hscan
      obtain ⟨e, he⟩ := List.exists_mem_of_length_pos (Nat.pos_of_ne_zero h0)
      refine absurd (List.mem_map.mpr ⟨e, he, ?_⟩) h
      simpa using hscan e he

namespace Page

theorem length_enter (s : Page) (chunk : Chunk) :
    s.buf.data.length ≤ (s.enter chunk).buf.data.length := by
  have hwrote : ∃ w, Wrote s.buf (s.enter chunk).buf w := by
    cases chunk with
    | label label => exact exists_wrote_writeParts _ s.buf s.cache 0 label
    | bytes w => exact ⟨w, wrote_bytes w s.buf⟩
  obtain ⟨w, hw⟩ := hwrote
  rw [hw.length]
  omega

theorem length_fill (s : Page) (chunks : List Chunk) :
    s.buf.data.length ≤ (s.fill chunks).buf.data.length := by
  induction chunks generalizing s with
  | nil => exact le_rfl
  | cons chunk chunks ih => exact (s.length_enter chunk).trans (ih (s.enter chunk))

end Page

/-- The cache has the offsets of the parts in the log, and so have the pointers. -/
structure Tracked (b : Buffer) (cache : Cache) (log : List Mark) : Prop where
  full : b.Full
  cached : ∀ e ∈ cache.entries, Mark.part e.1 e.2.toNat ∈ log
  parts : ∀ key o, Mark.part key o ∈ log → key ∈ cache.keys ∧
    ∃ i : Nat, o = i ∧ b.data[i]? = some (UInt8.ofNat (strlen ((split 46 key).headD [])))
  once : ∀ key o o', Mark.part key o ∈ log → Mark.part key o' ∈ log → o = o'
  pointers : ∀ key o pointer, Mark.pointer key o pointer ∈ log → ∃ i : Nat, o = i ∧
    Stands Set.univ b.data i (wordBytes pointer) ∧ ∃ index : UInt16, index.toNat < i ∧
      Mark.part key index.toNat ∈ log ∧ pointer = index ||| (0xC0 : UInt16) <<< 8

namespace Tracked
variable {b b' : Buffer} {cache : Cache} {log : List Mark}

theorem wrote {w : Bytes} (h : Tracked b cache log) (hw : Wrote b b' w) :
    Tracked b' cache log := by
  refine ⟨hw.full h.full, h.cached, fun key o hm => ?_, h.once, fun key o pointer hm => ?_⟩
  · obtain ⟨hkey, i, hi, hget⟩ := h.parts key o hm
    exact ⟨hkey, i, hi, hw.keeps Set.univ i trivial _ hget⟩
  · obtain ⟨i, hi, hstands, hindex⟩ := h.pointers key o pointer hm
    exact ⟨i, hi, hstands.mono subset_rfl (hw.keeps _), hindex⟩

/-- A pointer is what the cache has for the key. -/
theorem pointer {key : Bytes} {index : UInt16} (h : Tracked b cache log)
    (he : (key, index) ∈ cache.entries) :
    Tracked (write16 b (index ||| (0xC0 : UInt16) <<< 8)) cache
      (log ++ [.pointer key b.index (index ||| (0xC0 : UInt16) <<< 8)]) := by
  have hw := wrote_write16 b (index ||| (0xC0 : UInt16) <<< 8)
  have h' := h.wrote hw
  have hpart {key : Bytes} {o : Int} :
      Mark.part key o ∈ log ++ [.pointer key b.index (index ||| (0xC0 : UInt16) <<< 8)] ↔
        Mark.part key o ∈ log := by
    simp
  refine ⟨h'.full, fun e he => ?_, fun key o hm => ?_, fun key o o' hm hm' => ?_,
    fun key' o pointer hm => ?_⟩
  · exact List.mem_append_left _ (h.cached e he)
  · refine h'.parts key o ?_
    simpa using hm
  · refine h.once key o o' ?_ ?_
    · simpa using hm
    · simpa using hm'
  · rcases List.mem_append.mp hm with hm | hm
    · obtain ⟨i, hi, hstands, index', hlt, hm, hp⟩ := h'.pointers key' o pointer hm
      exact ⟨i, hi, hstands, index', hlt, List.mem_append_left _ hm, hp⟩
    · obtain ⟨rfl, rfl, rfl⟩ : key' = key ∧ o = b.index ∧ pointer = _ := by simpa using hm
      have hm : Mark.part key' index.toNat ∈ log := h.cached _ he
      obtain ⟨-, i, hi, hget⟩ := h.parts _ _ hm
      obtain ⟨hlt, -⟩ := List.getElem?_eq_some_iff.mp hget
      exact ⟨b.data.length, h.full, hw.stands_univ, index, by omega, List.mem_append_left _ hm, rfl⟩

/-- A part goes into the cache with the offset it is put at. -/
theorem part {key head : Bytes} {elems : List Bytes} {w : Bytes} (h : Tracked b cache log)
    (hkey : split 46 key = head :: elems) (hnew : key ∉ cache.keys)
    (hw : Wrote b b' (UInt8.ofNat (strlen head) :: w)) (hfit : b.data.length < 0x10000) :
    Tracked b' (cacheLabel cache key (UInt16.ofInt b.index)) (log ++ [.part key b.index]) := by
  have h' := h.wrote hw
  have hfull : b.index = b.data.length := h.full
  have hindex : (UInt16.ofInt b.index).toNat = b.data.length := by
    rw [h.full.index16, toNat_offset (d := b.data) (by omega) le_rfl]
  rw [cacheLabel_new hnew]
  refine ⟨h'.full, fun e he => ?_, fun key' o hm => ?_, fun key' o o' hm hm' => ?_,
    fun key' o pointer hm => ?_⟩
  · rcases StdMap.mem_insert he with rfl | he
    · refine List.mem_append_right _ (List.mem_singleton.mpr ?_)
      rw [hindex, ← hfull]
    · exact List.mem_append_left _ (h.cached e he)
  · rw [StdMap.mem_keys_insert]
    rcases List.mem_append.mp hm with hm | hm
    · exact (h'.parts key' o hm).imp .inr id
    · obtain ⟨rfl, rfl⟩ : key' = key ∧ o = b.index := by simpa using hm
      refine ⟨.inl rfl, b.data.length, hfull, ?_⟩
      rw [hkey]
      exact hw.stands_univ.head
  · have hold {o : Int} (hm : Mark.part key' o ∈ log) : key' ≠ key :=
      fun heq => hnew (heq ▸ (h.parts key' o hm).1)
    rcases List.mem_append.mp hm with hm | hm <;> rcases List.mem_append.mp hm' with hm' | hm'
    · exact h.once _ _ _ hm hm'
    · exact absurd (by simpa using hm' : key' = key ∧ o' = b.index).1 (hold hm)
    · exact absurd (by simpa using hm : key' = key ∧ o = b.index).1 (hold hm')
    · rw [(by simpa using hm : key' = key ∧ o = b.index).2,
        (by simpa using hm' : key' = key ∧ o' = b.index).2]
  · have hm : Mark.pointer key' o pointer ∈ log := by simpa using hm
    obtain ⟨i, hi, hstands, index, hlt, hm, hp⟩ := h'.pointers key' o pointer hm
    exact ⟨i, hi, hstands, index, hlt, List.mem_append_left _ hm, hp⟩

/-- The run of the loop. -/
theorem writeParts (elems : List Bytes) (he : ∀ p ∈ elems, 46 ∉ p) {b : Buffer} {cache : Cache}
    {log : List Mark} (h : Tracked b cache log) (ret_len : Int)
    (hfit : (Writer.writeParts b cache ret_len (join 46 elems) elems).2.1.data.length < 0x10000) :
    Tracked (Writer.writeParts b cache ret_len (join 46 elems) elems).2.1
      (Writer.writeParts b cache ret_len (join 46 elems) elems).2.2
      (log ++ (Marked.writeParts b cache ret_len (join 46 elems) elems).log) := by
  induction elems generalizing b cache log ret_len with
  | nil =>
    unfold Writer.writeParts Marked.writeParts
    cases hscan : cache.scan (· = join 46 []) with
    | some e =>
      obtain ⟨key, index⟩ := e
      obtain ⟨hmem, hkey⟩ := StdMap.scan_some hscan
      obtain rfl : key = join 46 [] := by simpa using hkey
      exact h.pointer hmem
    | none =>
      simp only [log_pure, List.append_nil]
      exact h.wrote (wrote_write8 b 0)
  | cons head elems ih =>
    have hsplit : split 46 (join 46 (head :: elems)) = head :: elems := split_join he (by simp)
    obtain ⟨w, hw⟩ := exists_wrote_writeParts (head :: elems) b cache ret_len
      (join 46 (head :: elems))
    have hlen := hw.length
    unfold Writer.writeParts at hfit hlen ⊢
    unfold Marked.writeParts
    cases hscan : cache.scan (· = join 46 (head :: elems)) with
    | some e =>
      obtain ⟨key, index⟩ := e
      obtain ⟨hmem, hkey⟩ := StdMap.scan_some hscan
      obtain rfl : key = join 46 (head :: elems) := by simpa using hkey
      exact h.pointer hmem
    | none =>
      rw [hscan] at hfit hlen
      obtain ⟨w, hw⟩ := wrote_head b head
      have h₁ := h.part hsplit (scan_eq_none.mp hscan) hw (by omega)
      have := ih (List.forall_mem_cons.mp he).2 h₁ (ret_len + 1 + strlen head) hfit
      simpa only [log_bind_some (val_touch _ _), log_touch, List.append_assoc] using this

theorem enter {s : Page} (h : Tracked s.buf s.cache log) (chunk : Chunk)
    (hfit : (s.enter chunk).buf.data.length < 0x10000) :
    Tracked (s.enter chunk).buf (s.enter chunk).cache (log ++ (Marked.enter s chunk).log) := by
  cases chunk with
  | bytes w =>
    simp only [Marked.enter, log_pure, List.append_nil]
    exact h.wrote (wrote_bytes w s.buf)
  | label label =>
    have hlog : (Marked.enter s (.label label)).log =
        (Marked.writeParts s.buf s.cache 0 (join 46 (split 46 label)) (split 46 label)).log := by
      rw [join_split]
      simp only [Marked.enter, Marked.writeLabel, log_bind_some (Marked.val_writeParts ..),
        log_pure, List.append_nil]
    have hplain : s.enter (.label label) =
        ⟨(Writer.writeParts s.buf s.cache 0 (join 46 (split 46 label)) (split 46 label)).2.1,
          (Writer.writeParts s.buf s.cache 0 (join 46 (split 46 label)) (split 46 label)).2.2⟩ := by
      rw [join_split]
      rfl
    rw [hplain] at hfit ⊢
    rw [hlog]
    exact h.writeParts _ (fun p hp => (mem_split hp).1) 0 hfit

end Tracked

/-- The log, and the cache with it, after any number of chunks. -/
theorem Tracked.fill {s : Page} {log : List Mark} (h : Tracked s.buf s.cache log)
    (chunks : List Chunk) (hfit : (s.fill chunks).buf.data.length < 0x10000) :
    Tracked (s.fill chunks).buf (s.fill chunks).cache (log ++ (Marked.fill s chunks).log) := by
  induction chunks generalizing s log with
  | nil =>
    simp only [Marked.fill, log_pure, List.append_nil]
    exact h
  | cons chunk chunks ih =>
    have hfill : s.fill (chunk :: chunks) = (s.enter chunk).fill chunks := rfl
    rw [hfill] at hfit ⊢
    have hle := (s.enter chunk).length_fill chunks
    rw [Marked.log_fill_cons, ← List.append_assoc]
    exact ih (h.enter chunk (by omega)) hfit

/-- The pointer is read as the offset that was put into it, up to its fourteenth bit. -/
theorem toNat_masked_pointer (index : UInt16) :
    ((index ||| (0xC0 : UInt16) <<< 8) &&& 0x3FFF).toNat = index.toNat % 0x4000 := by
  have hhigh : ((0xC0 : UInt16) <<< 8).toNat % 2 ^ 14 = 0 := by decide
  rw [toNat_masked, UInt16.toNat_or, show (16384 : Nat) = 2 ^ 14 by rfl, Nat.or_mod_two_pow, hhigh,
    Nat.or_zero]

/-- However a message was put together from names and other bytes, as long as it has
at most 65535 bytes: what a pointer stands for was put in at one offset, in front of the
pointer, and the pointer leads there if and only if fourteen bits are enough for that offset. -/
theorem pointer_correct_iff (size : Int) (chunks : List Chunk)
    (hfit : ((Page.new size).fill chunks).buf.data.length ≤ 65535)
    {remain_label : Bytes} {at_ : Int} {pointer : UInt16}
    (hp : .pointer remain_label at_ pointer ∈ (Marked.fill (Page.new size) chunks).log) :
    let d := ((Page.new size).fill chunks).buf.data
    let log := (Marked.fill (Page.new size) chunks).log
    ∃ offset i : Nat, (∀ o : Int, .part remain_label o ∈ log ↔ o = offset) ∧
      d[offset]? = some (UInt8.ofNat (strlen ((split 46 remain_label).headD []))) ∧
      at_ = i ∧ offset < i ∧ Stands Set.univ d i (wordBytes pointer) ∧
      ((pointer &&& 0x3FFF).toNat = offset ↔ offset < 0x4000) := by
  intro d log
  have hnew : Tracked (Page.new size).buf (Page.new size).cache [] := by
    refine ⟨rfl, ?_, ?_, ?_, ?_⟩ <;> simp [Page.new, StdMap.empty]
  have h := hnew.fill chunks (by omega)
  rw [List.nil_append] at h
  obtain ⟨i, hi, hstands, index, hlt, hpart, rfl⟩ := h.pointers _ _ _ hp
  obtain ⟨-, j, hj, hhead⟩ := h.parts _ _ hpart
  obtain rfl : index.toNat = j := by exact_mod_cast hj
  refine ⟨index.toNat, i, fun o => ⟨fun ho => h.once _ _ _ ho hpart, ?_⟩, hhead, hi, hlt, hstands, ?_⟩
  · rintro rfl
    exact hpart
  · rw [toNat_masked_pointer]
    omega

theorem pointer_correct_iff_twice :
    let chunks := [.bytes [0, 0], .label (str "a.local"), .bytes [0, 12], .label (str "b.local")]
    let d := ((Page.new 16).fill chunks).buf.data
    let log := (Marked.fill (Page.new 16) chunks).log
    ∃ offset i : Nat, (∀ o : Int, .part (str "local") o ∈ log ↔ o = offset) ∧
      d[offset]? = some (UInt8.ofNat (strlen ((split 46 (str "local")).headD []))) ∧
      (15 : Int) = i ∧ offset < i ∧ Stands Set.univ d i (wordBytes 0xC004) ∧
      (((0xC004 : UInt16) &&& 0x3FFF).toNat = offset ↔ offset < 0x4000) :=
  pointer_correct_iff 16
    [.bytes [0, 0], .label (str "a.local"), .bytes [0, 12], .label (str "b.local")] (by decide)
    (by decide)

/-! ### A pointer that leads elsewhere -/

theorem enter_cached {s : Page} {key : Bytes} {index : UInt16}
    (he : (key, index) ∈ s.cache.entries) :
    (Marked.enter s (.label key)).log =
        [.pointer key s.buf.index (index ||| (0xC0 : UInt16) <<< 8)] ∧
      (s.enter (.label key)).buf = write16 s.buf (index ||| (0xC0 : UInt16) <<< 8) := by
  cases hscan : s.cache.scan (· = key) with
  | none => exact absurd (List.mem_map.mpr ⟨_, he, rfl⟩) (scan_eq_none.mp hscan)
  | some e =>
    obtain ⟨hmem, hkey⟩ := StdMap.scan_some hscan
    obtain rfl := StdMap.eq_of_key_eq he hmem (of_decide_eq_true hkey).symm
    constructor
    · simp only [Marked.enter, Marked.writeLabel, log_bind_some (Marked.val_writeParts ..), log_pure]
      unfold Marked.writeParts
      rw [hscan]
      rfl
    · simp only [Page.enter, writeLabel]
      unfold writeParts
      rw [hscan]

/-- A label of one part that is not in the cache. -/
theorem enter_part {s : Page} {label : Bytes} (hdot : 46 ∉ label) (hnew : label ∉ s.cache.keys)
    (hroot : [] ∉ s.cache.keys) (hne : label ≠ []) :
    (Marked.enter s (.label label)).log = [.part label s.buf.index] ∧
      s.enter (.label label) =
        ⟨write8 (writeRaw (write8 s.buf (UInt8.ofNat (strlen label))) label
          (UInt8.ofNat (strlen label))) 0, s.cache.insert label (UInt16.ofInt s.buf.index)⟩ := by
  have hsplit : split 46 label = [label] := by
    have hjoin := join_singleton 46 label
    rw [← hjoin]
    exact (split_join (by simpa using hdot) (by simp)).trans (by rw [hjoin])
  have hscan := scan_eq_none.mpr hnew
  have hroot' : (cacheLabel s.cache label (UInt16.ofInt s.buf.index)).scan (· = join 46 []) = none := by
    rw [scan_eq_none, cacheLabel_new hnew, StdMap.mem_keys_insert]
    rintro (h | h)
    · exact hne h.symm
    · exact hroot h
  constructor
  · simp only [Marked.enter, Marked.writeLabel, log_bind_some (Marked.val_writeParts ..), log_pure,
      hsplit]
    unfold Marked.writeParts
    simp only [hscan, log_bind_some (val_touch _ _), log_touch]
    unfold Marked.writeParts
    rw [hroot']
    rfl
  · simp only [Page.enter, writeLabel, hsplit]
    unfold writeParts
    simp only [hscan]
    unfold writeParts
    rw [hroot', cacheLabel_new hnew]

/-- The same name once more: the second time it is a pointer. -/
theorem enter_twice {s : Page} {label : Bytes} (hdot : 46 ∉ label) (hnul : 0 ∉ label)
    (hne : label ≠ []) (hshort : label.length < 256) (hnew : label ∉ s.cache.keys)
    (hroot : [] ∉ s.cache.keys) :
    (Marked.fill s [.label label, .label label]).log = [.part label s.buf.index,
        .pointer label (s.buf.index + label.length + 2)
          (UInt16.ofInt s.buf.index ||| (0xC0 : UInt16) <<< 8)] ∧
      (s.fill [.label label, .label label]).buf.data.length =
        s.buf.data.length + label.length + 4 := by
  obtain ⟨h₁, e₁⟩ := enter_part hdot hnew hroot hne
  have hw := ((wrote_write8 s.buf (UInt8.ofNat label.length)).trans
    (wrote_writeRaw _ (List.length_pos_iff.mpr hne) hshort)).trans (wrote_write8 _ 0)
  rw [← strlen_eq_length hnul] at hw
  have hcached : (label, UInt16.ofInt s.buf.index) ∈ (s.enter (.label label)).cache.entries := by
    rw [e₁]
    exact (StdMap.mem_insert_new (scan_eq_none.mpr hnew) (by simp)).mpr (.inl rfl)
  obtain ⟨h₂, e₂⟩ := enter_cached hcached
  have hindex : (s.enter (.label label)).buf.index = s.buf.index + label.length + 2 := by
    rw [e₁, hw.index]
    simp only [List.length_append, List.length_cons, List.length_nil]
    omega
  constructor
  · rw [Marked.log_fill_cons, Marked.log_fill_cons, h₁, h₂, hindex]
    rfl
  · rw [show (s.fill [.label label, .label label]).buf =
      ((s.enter (.label label)).enter (.label label)).buf by rfl, e₂, (wrote_write16 _ _).length, e₁,
      hw.length]
    simp only [List.length_append, List.length_cons, List.length_nil, wordBytes]
    omega

@[irreducible] def longName : Bytes := List.replicate 0x4000 97

theorem length_longName : longName.length = 0x4000 := by
  unfold longName
  exact List.length_replicate

theorem mem_longName {c : UInt8} (h : c ∈ longName) : c = 97 := by
  unfold longName at h
  exact List.eq_of_mem_replicate h

theorem strlen_longName : strlen longName = 0x4000 := by
  have hnul : 0 ∉ longName := fun h => absurd (mem_longName h) (by decide)
  rw [strlen_eq_length hnul, length_longName]

theorem longName_ne {label : Bytes} (h : label.length < 0x4000) : label ≠ longName := by
  rintro rfl
  rw [length_longName] at h
  exact absurd h (lt_irrefl _)

/-- All of it goes out, behind a zero byte. -/
theorem wrote_longName (b : Buffer) :
    Wrote b (write8 (writeRaw (write8 b (UInt8.ofNat (strlen longName))) longName
      (UInt8.ofNat (strlen longName))) 0) (0 :: longName ++ [0]) := by
  have h0 : UInt8.ofNat 0x4000 = 0 := by decide
  have hw := wrote_appendRaw (write8 b 0) longName (Nat.zero_le _)
  rw [if_pos rfl, strlen_longName, ← length_longName, List.take_length] at hw
  rw [strlen_longName, h0]
  exact ((wrote_write8 b 0).trans hw).trans (wrote_write8 _ 0)

theorem longName_entered :
    ((Page.new 0).enter (.label longName)).buf.index = 0x4002 ∧
      ((Page.new 0).enter (.label longName)).buf.data.length = 0x4002 ∧
      ∀ key ∈ ((Page.new 0).enter (.label longName)).cache.keys, key = longName := by
  have hkeys : (Page.new 0).cache.keys = [] := rfl
  have hnew {key : Bytes} : key ∉ (Page.new 0).cache.keys := hkeys ▸ List.not_mem_nil
  have hdot : 46 ∉ longName := fun h => absurd (mem_longName h) (by decide)
  obtain ⟨-, e⟩ := enter_part hdot (s := Page.new 0) hnew hnew (longName_ne (by decide)).symm
  have hw : Wrote (Page.new 0).buf ((Page.new 0).enter (.label longName)).buf
      (0 :: longName ++ [0]) := by
    rw [e]
    exact wrote_longName _
  have hindex := hw.index
  have hlen := hw.length
  rw [List.length_append, List.length_cons, length_longName, List.length_singleton] at hindex hlen
  have h0 : (Page.new 0).buf.index = 0 ∧ (Page.new 0).buf.data.length = 0 := ⟨rfl, rfl⟩
  refine ⟨by omega, by omega, fun key hkey => ?_⟩
  rw [e, StdMap.mem_keys_insert] at hkey
  exact hkey.resolve_right hnew

/-- The second name is put in at an offset that takes fifteen bits, and the pointer to it
leads into the first one. -/
theorem past_fourteen_bits :
    let chunks := [.label longName, .label (str "b"), .label (str "b")]
    let log := (Marked.fill (Page.new 0) chunks).log
    ((Page.new 0).fill chunks).buf.data.length ≤ 65535 ∧
      .part (str "b") 0x4002 ∈ log ∧ .pointer (str "b") 0x4005 0xC002 ∈ log ∧
      ((0xC002 : UInt16) &&& 0x3FFF).toNat = 2 := by
  intro chunks log
  obtain ⟨hindex, hlen, hkeys⟩ := longName_entered
  have hnew {key : Bytes} (h : key.length < 0x4000) :
      key ∉ ((Page.new 0).enter (.label longName)).cache.keys :=
    fun hkey => longName_ne h (hkeys key hkey)
  have hshort : (str "b").length < 0x4000 := by decide
  obtain ⟨h₂, hlen₂⟩ := enter_twice (by decide) (by decide) (by decide) (by decide) (hnew hshort)
    (hnew (by decide))
  have hlog : log = (Marked.enter (Page.new 0) (.label longName)).log ++
      [.part (str "b") 0x4002, .pointer (str "b") 0x4005 0xC002] := by
    have hpointer : UInt16.ofInt 0x4002 ||| (0xC0 : UInt16) <<< 8 = 0xC002 := by decide
    have hat : (0x4002 : Int) + (str "b").length + 2 = 0x4005 := by decide
    rw [hindex, hpointer, hat] at h₂
    rw [← h₂]
    exact Marked.log_fill_cons _ _ _
  refine ⟨?_, ?_, ?_, by decide⟩
  · have hone : (str "b").length = 1 := by decide
    have hfill : ((Page.new 0).fill chunks).buf.data.length = _ := hlen₂
    omega
  · simp [hlog]
  · simp [hlog]

end Flingd.Mdns
