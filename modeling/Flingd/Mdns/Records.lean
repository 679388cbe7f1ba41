import Flingd.Mdns.RoundTrip

/-! Questions and records as they stand in a buffer, and the reading of them by
the constructors of `mDNSQuery` and `mDNSRecord`. -/
namespace Flingd.Mdns
open Traced Reader Region

inductive RecordData where
  | pointer (n : Name)
  | service (priority weight port : UInt16) (n : Name)
  | texts
  | address (bs : Bytes) (h : bs.length = 4)

def RecordData.type : RecordData → UInt16
  | .pointer _ => typePtr
  | .service .. => typeSrv
  | .texts => typeTxt
  | .address .. => typeAddress

/-- The data stands at offset `o` and takes `dl` bytes. The parser does not look
at texts. -/
def RecordData.StandsAt (kept : Set Nat) (d : Bytes) (o dl : Nat) : RecordData → Prop
  | .pointer n => Spells kept d o n.parts dl
  | .service priority weight port n =>
    Stands kept d o (wordBytes priority ++ wordBytes weight ++ wordBytes port) ∧
      ∃ k, dl = 6 + k ∧ Spells kept d (o + 6) n.parts k
  | .texts => 0 < dl
  | .address bs _ => Stands kept d o bs ∧ dl = 4

structure Entry where
  name : Name
  cls : UInt16
  ttl : UInt32
  data : RecordData

/-- The record stands from offset `o` on, up to offset `o'`. -/
def Entry.StandsAt (kept : Set Nat) (d : Bytes) (o o' : Nat) (e : Entry) : Prop :=
  ∃ k dl, Spells kept d o e.name.parts k ∧
    Stands kept d (o + k) (wordBytes e.data.type ++ wordBytes e.cls ++ dwordBytes e.ttl ++
      wordBytes (UInt16.ofNat dl)) ∧
    e.data.StandsAt kept d (o + k + 10) dl ∧ o' = o + k + 10 + dl

structure Question where
  name : Name
  type : UInt16
  cls : UInt16

/-- The question stands from offset `o` on, up to offset `o'`. -/
def Question.StandsAt (kept : Set Nat) (d : Bytes) (o o' : Nat) (q : Question) : Prop :=
  ∃ k, Spells kept d o q.name.parts k ∧
    Stands kept d (o + k) (wordBytes q.type ++ wordBytes q.cls) ∧ o' = o + k + 4

/-- One after the other from offset `o` on, up to offset `o'`. -/
def InTurn {ι : Type} (standsAt : Nat → Nat → ι → Prop) : Nat → Nat → List ι → Prop
  | o, o', [] => o = o'
  | o, o', x :: xs => ∃ m, standsAt o m x ∧ InTurn standsAt m o' xs

theorem InTurn.le {ι : Type} {p : Nat → Nat → ι → Prop} (hp : ∀ o o' x, p o o' x → o ≤ o')
    {o o' : Nat} {xs : List ι} (h : InTurn p o o' xs) : o ≤ o' := by
  induction xs generalizing o with
  | nil => exact Nat.le_of_eq h
  | cons x xs ih =>
    obtain ⟨m, hx, hxs⟩ := h
    exact (hp _ _ _ hx).trans (ih hxs)

section Mono
variable {kept kept' : Set Nat} {d d' : Bytes} {o o' : Nat}

theorem RecordData.StandsAt.mono {dl : Nat} {data : RecordData} (hk : kept ⊆ kept')
    (hd : Keeps kept d d') (h : data.StandsAt kept d o dl) : data.StandsAt kept' d' o dl := by
  cases data with
  | pointer n => exact Spells.mono hk hd h
  | service priority weight port n =>
    obtain ⟨hw, k, hdl, hs⟩ := h
    exact ⟨hw.mono hk hd, k, hdl, hs.mono hk hd⟩
  | texts => exact h
  | address bs hbs => exact ⟨h.1.mono hk hd, h.2⟩

theorem Entry.StandsAt.mono {e : Entry} (hk : kept ⊆ kept') (hd : Keeps kept d d')
    (h : e.StandsAt kept d o o') : e.StandsAt kept' d' o o' := by
  obtain ⟨k, dl, hs, hw, hdata, ho⟩ := h
  exact ⟨k, dl, hs.mono hk hd, hw.mono hk hd, hdata.mono hk hd, ho⟩

theorem Question.StandsAt.mono {q : Question} (hk : kept ⊆ kept') (hd : Keeps kept d d')
    (h : q.StandsAt kept d o o') : q.StandsAt kept' d' o o' := by
  obtain ⟨k, hs, hw, ho⟩ := h
  exact ⟨k, hs.mono hk hd, hw.mono hk hd, ho⟩

end Mono

/-! ### What the parser makes of them -/

/-- What the getters of `mDNSQuery` return. -/
structure QuerySeen where
  protocol : Option Bytes
  type : UInt16
  cls : UInt16
deriving DecidableEq

def MDNSQuery.seen (q : MDNSQuery) : QuerySeen := ⟨q.protocol.map (·.data), q.type, q.cls⟩

def Question.seen (q : Question) : QuerySeen := ⟨some q.name.text, q.type, q.cls⟩

/-- What the getters of `mDNSRecord` return, and the fields of an SRV record. -/
structure RecordSeen where
  name : Bytes
  type : UInt16
  cls : UInt16
  ttl : UInt32
  data : Option Bytes
  srv : Option (UInt16 × UInt16 × UInt16)
  recordType : RecordType
deriving DecidableEq

def MDNSRecord.seen (r : MDNSRecord) : RecordSeen :=
  ⟨r.name.data, r.type, r.cls, r.ttl, r.data.map (·.data), r.srv, r.recordType⟩

def RecordData.bytes : RecordData → Bytes
  | .pointer n => n.text
  | .service _ _ _ n => n.text
  | .texts => []
  | .address bs _ => inetNtop4 bs

def RecordData.srv : RecordData → Option (UInt16 × UInt16 × UInt16)
  | .service priority weight port _ => some (priority, weight, port)
  | _ => none

def Entry.seen (e : Entry) (record_type : RecordType) : RecordSeen :=
  ⟨e.name.text, e.data.type, e.cls, e.ttl, some e.data.bytes, e.data.srv, record_type⟩

section Reading
variable {kept : Set Nat} {b : Buffer} (beyond : Nat → UInt8) (ntop6 : Bytes → Bytes) {o o' : Nat}

theorem getLabel_settles (hb : b.Full) (hsmall : b.data.length < 0x4000) {i k : Nat} {n : Name}
    (h : Spells kept b.data i n.parts k) (hk : i + k ≤ b.data.length) (size : Int) : ∃ ret out,
      Settles (fun passes => getLabel passes (b.dataPtr beyond) (UInt16.ofNat b.data.length)
        (UInt16.ofNat i) (Buffer.new size)) (ret, out) ∧
      ret.toUInt16 = UInt16.ofNat k ∧ out.data = n.text := by
  obtain ⟨ret, out, hg, hret, hd, -⟩ := getLabel_spelled hb hsmall h hk beyond size
  rw [hb.index16] at hg
  refine ⟨ret, out, (growing_getLabel _ _).settles hg, ?_, hd⟩
  apply UInt16.toNat_inj.mp
  rw [UInt32.toNat_toUInt16, hret, UInt16.toNat_ofNat']

theorem get16_settles (hsmall : b.data.length < 0x4000) {i : Nat} {w : UInt16}
    (h : Stands kept b.data i (wordBytes w)) {j : UInt16} (hj : j = UInt16.ofNat i) :
    Settles (fun _ => get16 (b.dataPtr beyond) (UInt16.ofNat b.data.length) j) w := by
  rw [hj]
  refine settles_const ?_
  rw [get16_val, wordAt_of_stands beyond (hsmall.trans (by decide)) h]

theorem get32_settles (hsmall : b.data.length < 0x4000) {i : Nat} {w : UInt32}
    (h : Stands kept b.data i (dwordBytes w)) {j : UInt16} (hj : j = UInt16.ofNat i) :
    Settles (fun _ => get32 (b.dataPtr beyond) (UInt16.ofNat b.data.length) j) w := by
  rw [hj]
  refine settles_const ?_
  rw [get32_val, dwordAt_of_stands beyond (hsmall.trans (by decide)) h]

theorem mDNSQuery_stands (hb : b.Full) (hsmall : b.data.length < 0x4000) {question : Question}
    (h : question.StandsAt kept b.data o o') : ∃ q,
      Settles (fun passes => mDNSQuery passes (b.dataPtr beyond) (UInt16.ofNat b.data.length)
        (UInt16.ofNat o)) q ∧
      q.seen = question.seen ∧ UInt16.ofNat o + q.length = UInt16.ofNat o' := by
  obtain ⟨k, hs, hw, rfl⟩ := h
  have hin := hw.inside (by simp [wordBytes])
  obtain ⟨ret, out, hg, hret, hd⟩ := getLabel_settles beyond hb hsmall hs (by omega) 128
  obtain ⟨htype, hcls⟩ := stands_append.mp hw
  have hcls : Stands kept b.data (o + k + 2) (wordBytes question.cls) := hcls
  refine ⟨⟨some out, question.type, question.cls, UInt16.ofNat k + 4⟩, ?_, ?_, ?_⟩
  · unfold mDNSQuery
    refine hg.bind ?_
    simp only [hret]
    refine (get16_settles beyond hsmall htype ?_).bind ((get16_settles beyond hsmall hcls ?_).bind
      (settles_const ?_))
    · simp only [UInt16.ofNat_add]
      ac_rfl
    · simp only [UInt16.ofNat_add]
      ac_rfl
    · have hk : ¬ ((UInt16.ofNat k).toNat : Int) < 0 := by omega
      simp only [hk, if_false, val_pure]
  · simp [MDNSQuery.seen, Question.seen, hd]
  · simp only [UInt16.ofNat_add]
    ac_rfl

theorem range_stands {i : Nat} {w : Bytes} (h : Stands kept b.data i w) :
    (List.range' i w.length).map (b.dataPtr beyond) = w := by
  induction w generalizing i with
  | nil => rfl
  | cons c w ih =>
    rw [List.length_cons, List.range'_succ, List.map_cons, ih h.tail, dataPtr_of_get beyond h.head]

theorem strlen_inetNtop4 (bs : Bytes) : strlen (inetNtop4 bs) = (inetNtop4 bs).length := by
  refine strlen_eq_length fun h => ?_
  rcases mem_join h with h | ⟨p, hp, h⟩
  · exact absurd h (by decide)
  · obtain ⟨c, -, rfl⟩ := List.mem_map.mp hp
    exact absurd (mem_decimal h).1 (by decide)

theorem recordData_srv (passes : Nat) (buf : Block) (len at_ : UInt16) (ptr : Nat) :
    recordData ntop6 passes buf len typeSrv at_ ptr = (do
      let priority ← get16 buf len at_
      let weight ← get16 buf len (at_ + 2)
      let port ← get16 buf len (at_ + 4)
      let (_, data) ← getLabel passes buf len (at_ + 6) (Buffer.new 128)
      pure (data, some (priority, weight, port))) := rfl

theorem recordData_stands (hb : b.Full) (hsmall : b.data.length < 0x4000) {data : RecordData}
    {dl : Nat} (h : data.StandsAt kept b.data o dl) (hin : o + dl ≤ b.data.length) : ∃ out,
      Settles (fun passes => recordData ntop6 passes (b.dataPtr beyond)
        (UInt16.ofNat b.data.length) data.type (UInt16.ofNat o) o) (out, data.srv) ∧
      out.data = data.bytes := by
  cases data with
  | pointer n =>
    obtain ⟨ret, out, hg, hret, hd⟩ := getLabel_settles beyond hb hsmall h hin 128
    exact ⟨out, hg.bind (settles_const rfl), hd⟩
  | service priority weight port n =>
    obtain ⟨hw, k, rfl, hs⟩ := h
    obtain ⟨hpw, hport⟩ := stands_append.mp hw
    obtain ⟨hpriority, hweight⟩ := stands_append.mp hpw
    obtain ⟨ret, out, hg, hret, hd⟩ :=
      getLabel_settles beyond hb hsmall hs (by omega) 128
    have hweight : Stands kept b.data (o + 2) (wordBytes weight) := hweight
    have hport : Stands kept b.data (o + 4) (wordBytes port) := hport
    refine ⟨out, ?_, hd⟩
    simp only [RecordData.type, recordData_srv, UInt16.ofNat_add] at hg ⊢
    exact (get16_settles beyond hsmall hpriority rfl).bind
      ((get16_settles beyond hsmall hweight (UInt16.ofNat_add o 2).symm).bind
        ((get16_settles beyond hsmall hport (UInt16.ofNat_add o 4).symm).bind
          (hg.bind (settles_const rfl))))
  | texts => exact ⟨Buffer.new 128, settles_const rfl, rfl⟩
  | address bs hbs =>
    obtain ⟨hs, rfl⟩ := h
    have hr := range_stands beyond hs
    rw [hbs] at hr
    refine ⟨_, (settles_const (derefs_val 4 o)).bind (settles_const rfl), ?_⟩
    rw [hr, strlen_inetNtop4]
    have hw := wrote_appendRaw (Buffer.new 128) (inetNtop4 bs) le_rfl
    rw [hw.data]
    split
    · rw [strlen_inetNtop4, List.take_length]
      rfl
    · rw [List.take_length]
      rfl

theorem Spells.pos {d : Bytes} {i : Nat} {parts : List Bytes} {k : Nat}
    (h : Spells kept d i parts k) : 0 < k := by
  cases h <;> omega

theorem RecordData.StandsAt.pos {d : Bytes} {dl : Nat} {data : RecordData}
    (h : data.StandsAt kept d o dl) : 0 < dl := by
  cases data with
  | pointer n => exact Spells.pos h
  | service priority weight port n =>
    obtain ⟨-, k, rfl, -⟩ := h
    omega
  | texts => exact h
  | address bs hbs =>
    obtain ⟨-, rfl⟩ := h
    omega

theorem mDNSRecord_stands (hb : b.Full) (hsmall : b.data.length < 0x4000) {e : Entry}
    (h : e.StandsAt kept b.data o o') (hin : o' ≤ b.data.length) (t : RecordType) : ∃ r,
      Settles (fun passes => mDNSRecord ntop6 passes (b.dataPtr beyond)
        (UInt16.ofNat b.data.length) (UInt16.ofNat o) t) r ∧
      r.seen = e.seen t ∧ UInt16.ofNat o + r.length = UInt16.ofNat o' := by
  obtain ⟨k, dl, hs, hw, hdata, rfl⟩ := h
  have hpos := hdata.pos
  obtain ⟨ret, name, hg, hret, hname⟩ :=
    getLabel_settles beyond hb hsmall hs (by omega) 128
  obtain ⟨out, hr, hout⟩ :=
    recordData_stands beyond ntop6 hb hsmall hdata (by omega)
  obtain ⟨hw, hlength⟩ := stands_append.mp hw
  obtain ⟨hw, httl⟩ := stands_append.mp hw
  obtain ⟨htype, hcls⟩ := stands_append.mp hw
  have hcls : Stands kept b.data (o + k + 2) (wordBytes e.cls) := hcls
  have httl : Stands kept b.data (o + k + 4) (dwordBytes e.ttl) := httl
  have hlength : Stands kept b.data (o + k + 8) (wordBytes (UInt16.ofNat dl)) := hlength
  have hx : UInt16.ofNat k + UInt16.ofNat o = UInt16.ofNat (o + k) := by
    simp only [UInt16.ofNat_add]
    ac_rfl
  have hdl : UInt16.ofNat dl > 0 := by
    rw [gt_iff_lt, UInt16.lt_iff_toNat_lt, toNat_offset (hsmall.trans (by decide)) (by omega)]
    exact hpos
  have hptr : (UInt16.ofNat o).toNat + (UInt16.ofNat k).toNat + 10 = o + k + 10 := by
    rw [toNat_offset (hsmall.trans (by decide)) (by omega), toNat_offset (hsmall.trans (by decide)) (by omega)]
  refine ⟨⟨name, e.data.type, e.cls, e.ttl, UInt16.ofNat dl, some out,
    UInt16.ofNat k + 10 + UInt16.ofNat dl, t, e.data.srv⟩, ?_, ?_, ?_⟩
  · unfold mDNSRecord
    refine hg.bind ?_
    simp only [hret, hx, hptr]
    refine (get16_settles beyond hsmall htype rfl).bind
      ((get16_settles beyond hsmall hcls (UInt16.ofNat_add _ 2).symm).bind
        ((get32_settles beyond hsmall httl (UInt16.ofNat_add _ 4).symm).bind
          ((get16_settles beyond hsmall hlength (UInt16.ofNat_add _ 8).symm).bind ?_)))
    simp only [readData, hdl, if_true]
    rw [UInt16.ofNat_add (o + k) 10] at hr
    exact (hr.bind (settles_const rfl)).bind (settles_const rfl)
  · simp [MDNSRecord.seen, Entry.seen, hname, hout]
  · simp only [UInt16.ofNat_add]
    ac_rfl

/-! ### Whole sections -/

theorem readQueries_stand (hb : b.Full) (hsmall : b.data.length < 0x4000) {qs : List Question}
    (h : InTurn (Question.StandsAt kept b.data) o o' qs) : ∃ queries,
      Settles (fun passes => readQueries passes (b.dataPtr beyond) (UInt16.ofNat b.data.length)
        qs.length (UInt16.ofNat o)) (queries, UInt16.ofNat o') ∧
      queries.map MDNSQuery.seen = qs.map Question.seen := by
  induction qs generalizing o with
  | nil =>
    obtain rfl : o = o' := h
    exact ⟨[], settles_const rfl, rfl⟩
  | cons q qs ih =>
    obtain ⟨m, hq, hqs⟩ := h
    obtain ⟨query, hs, hseen, hnext⟩ := mDNSQuery_stands beyond hb hsmall hq
    obtain ⟨queries, hss, hseens⟩ := ih hqs
    refine ⟨query :: queries, hs.bind ?_, by simp [hseen, hseens]⟩
    simp only [hnext]
    exact hss.bind (settles_const rfl)

theorem Entry.StandsAt.le {d : Bytes} {e : Entry} (h : e.StandsAt kept d o o') : o ≤ o' := by
  obtain ⟨k, dl, -, -, -, rfl⟩ := h
  omega

theorem readRecords_stand (hb : b.Full) (hsmall : b.data.length < 0x4000) {es : List Entry}
    (h : InTurn (Entry.StandsAt kept b.data) o o' es) (hin : o' ≤ b.data.length)
    (t : RecordType) : ∃ records,
      Settles (fun passes => readRecords ntop6 passes (b.dataPtr beyond)
        (UInt16.ofNat b.data.length) t es.length (UInt16.ofNat o)) (records, UInt16.ofNat o') ∧
      records.map MDNSRecord.seen = es.map (Entry.seen · t) := by
  induction es generalizing o with
  | nil =>
    obtain rfl : o = o' := h
    exact ⟨[], settles_const rfl, rfl⟩
  | cons e es ih =>
    obtain ⟨m, he, hes⟩ := h
    have hm := hes.le fun _ _ _ => Entry.StandsAt.le
    obtain ⟨record, hs, hseen, hnext⟩ :=
      mDNSRecord_stands beyond ntop6 hb hsmall he (by omega) t
    obtain ⟨records, hss, hseens⟩ := ih hes
    refine ⟨record :: records, hs.bind ?_, by simp [hseen, hseens]⟩
    simp only [hnext]
    exact hss.bind (settles_const rfl)

end Reading

end Flingd.Mdns
