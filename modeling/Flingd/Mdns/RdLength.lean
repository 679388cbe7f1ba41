import Flingd.Mdns.Composer
import Flingd.Mdns.Delimited

/-! The length of a record's data. It is the sum that the writer of the data has
made, and the writers do not always add up what they append: a length is cut to
eight bits, `append_raw` takes the length zero for `strlen`, an address that is no
address counts as `-1`. -/
namespace Flingd.Mdns
open Region Writer Composer

inductive RData where
  | ptr (data : Bytes)
  | srv (data : Bytes)
  | txt (data : List Bytes)
  | addr (data : Bytes)
deriving DecidableEq

def addWith (buf : Buffer) (label : Bytes) (type cls : UInt16) (ttl : UInt32) (cache : Cache) :
    RData → Buffer × Cache
  | .ptr data => addAnswerPtr buf label type cls ttl data cache
  | .srv data => addAdditionalSrv buf label type cls ttl data cache
  | .txt data => addAdditionalTxt buf label type cls ttl data cache
  | .addr data => addAdditionalAddr buf label type cls ttl data cache

def numberAt (d : Bytes) (i : Nat) : Nat := (d.getD i 0).toNat * 256 + (d.getD (i+1) 0).toNat

/-- How many bytes of a text of length `n` go out when `n` is cut to eight bits. -/
def sentLength (n : Nat) : Nat := if n % 256 = 0 then n else n % 256

/-- How many bytes `write_label` counts and does not append, over the parts in
front of the first cached end of the label. -/
def lostLength (cache : Cache) : List Bytes → Nat
  | [] => 0
  | p :: parts =>
    if join 46 (p :: parts) ∈ cache.keys then 0
    else strlen p - sentLength (strlen p) + lostLength cache parts

def RData.Counted (cache : Cache) : RData → Prop
  | .ptr data | .srv data => 65536 ∣ lostLength cache (split 46 data)
  | .txt data => ∀ s ∈ data, strlen s % 256 = 0 → strlen s = 0
  | .addr data => (split 46 data).length = 4 ∧ ∀ e ∈ split 46 data, (lexicalCastInt e).isSome

/-! ### What the writers append -/

theorem sentLength_le (n : Nat) : sentLength n ≤ n := by
  unfold sentLength
  split <;> omega

/-- A text of any length behind a length of eight bits. -/
theorem wrote_cut (b : Buffer) (s : Bytes) : ∃ w, w.length = sentLength (strlen s) ∧
    Wrote b (writeRaw b s (UInt8.ofNat (strlen s))) w := by
  have hle := strlen_le s
  have hlen : (UInt8.ofNat (strlen s)).toNat = strlen s % 256 := by
    simp only [UInt8.toNat_ofNat', Nat.reducePow]
  refine ⟨_, ?_, wrote_appendRaw b s (by omega)⟩
  rw [hlen, List.length_take, sentLength]
  split <;> omega

theorem lostLength_cacheLabel {cache : Cache} {key : Bytes} (index : UInt16) (parts : List Bytes)
    (h : parts ≠ [] → (join 46 parts).length < key.length) :
    lostLength (cacheLabel cache key index) parts = lostLength cache parts := by
  induction parts with
  | nil => rfl
  | cons p parts ih =>
    have hlt := h (by simp)
    have hle := (length_join_cons 46 p parts).1
    simp only [lostLength, mem_keys_cacheLabel_shorter hlt, ih fun _ => by omega]

theorem writeParts_counts (elems : List Bytes) (b : Buffer) (cache : Cache) (ret_len : Int) :
    ∃ w, Wrote b (writeParts b cache ret_len (join 46 elems) elems).2.1 w ∧
      (writeParts b cache ret_len (join 46 elems) elems).1 =
        ret_len + w.length + lostLength cache elems := by
  induction elems generalizing b cache ret_len with
  | nil =>
    unfold writeParts
    cases cache.scan (· = join 46 []) with
    | some e => exact ⟨_, wrote_write16 b _, by simp [wordBytes, lostLength]⟩
    | none => exact ⟨_, wrote_write8 b 0, by simp [lostLength]⟩
  | cons p parts ih =>
    unfold writeParts
    cases hscan : cache.scan (· = join 46 (p :: parts)) with
    | some e =>
      have hkey : join 46 (p :: parts) ∈ cache.keys := by
        by_contra hne
        rw [scan_eq_none.mpr hne] at hscan
        cases hscan
      exact ⟨_, wrote_write16 b _, by simp [wordBytes, lostLength, hkey]⟩
    | none =>
      have hkey := scan_eq_none.mp hscan
      have hle := sentLength_le (strlen p)
      obtain ⟨v, hv, h₁⟩ := wrote_cut (write8 b (UInt8.ofNat (strlen p))) p
      obtain ⟨w, h₂, hret⟩ := ih
        (writeRaw (write8 b (UInt8.ofNat (strlen p))) p (UInt8.ofNat (strlen p)))
        (cacheLabel cache (join 46 (p :: parts)) (UInt16.ofInt b.index)) (ret_len + 1 + strlen p)
      refine ⟨_, ((wrote_write8 b _).trans h₁).trans h₂, ?_⟩
      simp only
      rw [hret, lostLength_cacheLabel]
      · simp only [List.length_append, List.length_cons, List.length_nil, hv, lostLength, hkey,
          if_false]
        omega
      · intro hne
        obtain ⟨q, qs, rfl⟩ := List.exists_cons_of_ne_nil hne
        rw [join_cons_cons, List.length_append, List.length_cons]
        omega

theorem writeLabel_counts (b : Buffer) (label : Bytes) (cache : Cache) :
    ∃ w, Wrote b (writeLabel b label cache).2.1 w ∧
      (writeLabel b label cache).1 = w.length + lostLength cache (split 46 label) := by
  obtain ⟨w, hw, hret⟩ := writeParts_counts (split 46 label) b cache 0
  rw [join_split] at hw hret
  exact ⟨w, hw, by rw [writeLabel, hret]; omega⟩

/-- The bytes of texts whose length is cut to zero are appended and not counted. -/
def uncounted (vector : List Bytes) : Nat :=
  (vector.map fun s => if strlen s % 256 = 0 then strlen s else 0).sum

theorem writeVector_counts (vector : List Bytes) (b : Buffer) (ret_len : Int) :
    ∃ w, Wrote b (writeVector b vector ret_len).2 w ∧
      (writeVector b vector ret_len).1 + uncounted vector = ret_len + w.length ∧
      ret_len ≤ (writeVector b vector ret_len).1 := by
  induction vector generalizing b ret_len with
  | nil => exact ⟨[], Wrote.refl b, by simp [writeVector, uncounted], le_rfl⟩
  | cons s vector ih =>
    obtain ⟨v, hv, h₁⟩ := wrote_cut (write8 b (UInt8.ofNat (strlen s))) s
    obtain ⟨w, h₂, hret, hle⟩ := ih (writeRaw (write8 b (UInt8.ofNat (strlen s))) s
      (UInt8.ofNat (strlen s))) (ret_len + 1 + (UInt8.ofNat (strlen s)).toNat)
    have hlen : (UInt8.ofNat (strlen s)).toNat = strlen s % 256 := by
      simp only [UInt8.toNat_ofNat', Nat.reducePow]
    refine ⟨_, ((wrote_write8 b _).trans h₁).trans h₂, ?_, by rw [writeVector]; omega⟩
    rw [writeVector]
    simp only [uncounted, List.map_cons, List.sum_cons, List.length_append, List.length_cons,
      List.length_nil, hv, sentLength, hlen] at hret ⊢
    split <;> simp_all <;> omega

theorem uncounted_eq_zero (vector : List Bytes) :
    uncounted vector = 0 ↔ ∀ s ∈ vector, strlen s % 256 = 0 → strlen s = 0 := by
  induction vector with
  | nil => simp [uncounted]
  | cons s vector ih =>
    have hcons : uncounted (s :: vector) =
        (if strlen s % 256 = 0 then strlen s else 0) + uncounted vector := rfl
    rw [hcons, List.forall_mem_cons, ← ih, Nat.add_eq_zero_iff, ite_eq_right_iff]

theorem writeElements_counts (elements : List Bytes) (b : Buffer) :
    ∃ w, Wrote b (writeElements b elements) w ∧
      w.length = (elements.filter fun e => (lexicalCastInt e).isSome).length := by
  induction elements generalizing b with
  | nil => exact ⟨[], Wrote.refl b, rfl⟩
  | cons element elements ih =>
    unfold writeElements
    rw [List.foldl_cons]
    cases h : lexicalCastInt element with
    | none =>
      obtain ⟨w, hw, hlen⟩ := ih b
      exact ⟨w, hw, by rw [hlen, List.filter_cons_of_neg (by simp [h])]⟩
    | some n =>
      obtain ⟨w, hw, hlen⟩ := ih (b.appenduc (UInt8.ofInt n))
      refine ⟨_, (wrote_appenduc b _).trans hw, ?_⟩
      rw [List.filter_cons_of_pos (by simp [h]), List.length_append, hlen]
      simp only [List.length_cons, List.length_nil]
      omega

/-- The bytes of an address that goes out whole are the four that are returned. -/
theorem writeIp_counts (b : Buffer) (ip : Bytes) : ∃ w, Wrote b (writeIp b ip).2 w ∧ w.length ≤ 4 ∧
    ((writeIp b ip).1 = w.length ↔ RData.Counted StdMap.empty (.addr ip)) ∧
    ((writeIp b ip).1 = -1 ∨ (writeIp b ip).1 = 4) := by
  unfold writeIp RData.Counted
  dsimp only
  by_cases h : (split 46 ip).length = 4
  · obtain ⟨w, hw, hlen⟩ := writeElements_counts (split 46 ip) b
    have hle := List.length_filter_le (fun e => (lexicalCastInt e).isSome) (split 46 ip)
    rw [if_neg (by simp [h])]
    refine ⟨w, hw, by omega, ?_, .inr rfl⟩
    rw [← List.length_filter_eq_length_iff, ← hlen, h]
    simp only [true_and]
    omega
  · rw [if_pos h]
    exact ⟨[], Wrote.refl b, by simp, by simp [h], .inl rfl⟩

/-! ### The field -/

theorem numberAt_replace16 {b : Buffer} {i : Nat} (h : i + 1 < b.data.length) (data : UInt16) :
    numberAt (replace16 b data i).data i = data.toNat := by
  have hs : Stands Set.univ (replace16 b data i).data i (wordBytes data) :=
    replace16_stands data (Set.mem_univ i) (Set.mem_univ (i+1)) h
  unfold numberAt
  rw [List.getD_eq_getElem?_getD, List.getD_eq_getElem?_getD, hs.head, hs.tail.head]
  rw [Option.getD_some, Option.getD_some, toNat_hi, toNat_lo]
  omega

theorem addRecord_full {b : Buffer} (hb : b.Full) (label : Bytes) (type cls : UInt16)
    (ttl : UInt32) (cache : Cache) : (addRecord b label type cls ttl cache).1.Full := by
  obtain ⟨w, hw, -⟩ := writeLabel_counts b label cache
  exact (((hw.trans (wrote_write16 _ _)).trans (wrote_write16 _ _)).trans
    (wrote_write32 _ _)).full hb

/-- A record whose length field, two bytes at the end of `b`, is patched with
`counted` after `w` was written behind it. -/
theorem field_right_iff {b b' : Buffer} {w : Bytes} (hb : b.Full) (hw : Wrote (write16 b 0) b' w)
    (counted : Int) :
    let d := (replace16 b' (UInt16.ofInt counted) b.index.toNat).data
    d.length - (b.data.length + 2) = w.length ∧ (w.length < 65536 →
      (numberAt d b.data.length = w.length ↔ counted % 65536 = w.length)) := by
  have hl := ((wrote_write16 b 0).trans hw).length
  have hi : b.index.toNat = b.data.length := by
    rw [hb]
    rfl
  simp only [wordBytes, List.length_append, List.length_cons, List.length_nil] at hl
  intro d
  refine ⟨by simp only [d, replace16_length]; omega, fun hlt => ?_⟩
  have hn : (numberAt d b.data.length : Int) = counted % 65536 := by
    simp only [d, hi]
    rw [numberAt_replace16 (by omega), UInt16.ofInt]
    simp only [UInt16.toNat_ofNat', Nat.reducePow]
    omega
  omega

/-- What follows the length field of a record, and what it is said to be. -/
theorem addWith_field (b : Buffer) (cache : Cache) (label : Bytes)
    (type cls : UInt16) (ttl : UInt32) (data : RData) :
    let r := addRecord b label type cls ttl cache
    ∃ b' w counted, Wrote (write16 r.1 0) b' w ∧
      (addWith b label type cls ttl cache data).1 =
        replace16 b' (UInt16.ofInt counted) r.1.index.toNat ∧
      (w.length < 65536 → (counted % 65536 = w.length ↔ data.Counted r.2)) := by
  intro r
  cases data with
  | ptr data =>
    obtain ⟨w, hw, hret⟩ := writeLabel_counts (write16 r.1 0) data r.2
    refine ⟨_, w, (writeLabel (write16 r.1 0) data r.2).1, hw, rfl, fun hlt => ?_⟩
    rw [hret]
    simp only [RData.Counted]
    omega
  | srv data =>
    let b₃ := write16 (write16 (write16 (write16 r.1 0) 0x0000) 0x0000) 0x24d7
    obtain ⟨w, hw, hret⟩ := writeLabel_counts b₃ data r.2
    have hhead := ((wrote_write16 (write16 r.1 0) 0x0000).trans (wrote_write16 _ 0x0000)).trans
      (wrote_write16 _ 0x24d7)
    refine ⟨_, _, 6 + (writeLabel b₃ data r.2).1, hhead.trans hw, ?_, fun hlt => ?_⟩
    · rw [UInt16.ofInt_add]
      rfl
    · rw [hret]
      simp only [wordBytes, List.length_append, List.length_cons, List.length_nil] at hlt ⊢
      simp only [RData.Counted]
      omega
  | txt data =>
    obtain ⟨w, hw, hret, hle⟩ := writeVector_counts data (write16 r.1 0) 0
    refine ⟨_, w, (writeVector (write16 r.1 0) data 0).1, hw, rfl, fun hlt => ?_⟩
    rw [RData.Counted, ← uncounted_eq_zero]
    omega
  | addr data =>
    obtain ⟨w, hw, hle, hiff, hret⟩ := writeIp_counts (write16 r.1 0) data
    refine ⟨_, w, (writeIp (write16 r.1 0) data).1, hw, rfl, fun hlt => ?_⟩
    change _ ↔ RData.Counted StdMap.empty (.addr data)
    rw [← hiff]
    omega

/-- The length that stands in the record is the number of bytes that follow it, as
long as that number fits in 16 bits, if and only if the writer counts what it
appends. -/
theorem rdlength_right_iff (buf : Buffer) (label : Bytes) (type cls : UInt16) (ttl : UInt32)
    (cache : Cache) (data : RData) (h : buf.Full) :
    let r := addRecord buf label type cls ttl cache
    let position := r.1.data.length
    let d := (addWith buf label type cls ttl cache data).1.data
    let appended := d.length - (position + 2)
    (appended < 65536 → numberAt d position = appended) ↔
      (appended < 65536 → data.Counted r.2) := by
  intro r position d appended
  obtain ⟨b', w, counted, hw, hadd, hcount⟩ := addWith_field buf cache label type cls ttl data
  obtain ⟨hlen, hfield⟩ := field_right_iff (addRecord_full h label type cls ttl cache) hw counted
  have ha : appended = w.length := by
    simp only [appended, d, hadd]
    exact hlen
  rw [ha]
  refine imp_congr_right fun hlt => ?_
  simp only [d, hadd]
  exact (hfield hlt).trans (hcount hlt)

theorem rdlength_right_iff_quad :
    let r := addRecord (Buffer.new 16) (str "cast") 1 1 120 StdMap.empty
    let position := r.1.data.length
    let d := (addWith (Buffer.new 16) (str "cast") 1 1 120 StdMap.empty
      (.addr (str "10.0.0.7"))).1.data
    let appended := d.length - (position + 2)
    (appended < 65536 → numberAt d position = appended) ↔
      (appended < 65536 → (RData.addr (str "10.0.0.7")).Counted r.2) :=
  rdlength_right_iff (Buffer.new 16) (str "cast") 1 1 120 StdMap.empty (.addr (str "10.0.0.7")) rfl

/-- No interface, and so no address: the data is empty and its length is 65535. -/
theorem noAddress_length :
    let d := (addWith (Buffer.new 16) (str "cast") 1 1 120 StdMap.empty (.addr [])).1.data
    d.length = 16 ∧ numberAt d 14 = 65535 := by
  decide

end Flingd.Mdns
