import Flingd.Mdns.Parts

/-! The entries of a packet in the order in which the constructor of
`MDNSIncoming` comes to them, each with the cursor before it, and what the
constructors of an entry make of the bytes there. A name that does not decode is
an entry like any other. -/
namespace Flingd.Mdns
open Traced Reader

inductive Part where
  | query (q : MDNSQuery)
  | record (r : MDNSRecord)
deriving DecidableEq, Repr

/-- `getLength()`. -/
def Part.length : Part → UInt16
  | .query q => q.length
  | .record r => r.length

def MDNSIncoming.parts (p : MDNSIncoming) : List Part := p.queries.map .query ++ p.records.map .record

/-- The parts, with the values that `cursor` has before them. -/
def visits : UInt16 → List Part → List (UInt16 × Part)
  | _, [] => []
  | cursor, x :: xs => (cursor, x) :: visits (cursor + x.length) xs

def cursorAfter (cursor : UInt16) (xs : List Part) : UInt16 :=
  xs.foldl (fun cursor x => cursor + x.length) cursor

theorem visits_append (cursor : UInt16) (xs ys : List Part) :
    visits cursor (xs ++ ys) = visits cursor xs ++ visits (cursorAfter cursor xs) ys := by
  induction xs generalizing cursor with
  | nil => rfl
  | cons x xs ih =>
    rw [List.cons_append, visits, visits, ih, List.cons_append]
    rfl

theorem cursorAfter_append (cursor : UInt16) (xs ys : List Part) :
    cursorAfter cursor (xs ++ ys) = cursorAfter (cursorAfter cursor xs) ys :=
  List.foldl_append

section Built
variable (ntop6 : Bytes → Bytes) (buf : Block) (len : UInt16)

def BuiltAt (v : UInt16 × Part) : Prop :=
  match v.2 with
  | .query q => Gives (fun n => mDNSQuery n buf len v.1) q
  | .record r => Gives (fun n => mDNSRecord ntop6 n buf len v.1 r.recordType) r

variable {ntop6 buf len}

theorem builtAt_query {cursor : UInt16} {q : MDNSQuery} :
    BuiltAt ntop6 buf len (cursor, .query q) ↔ Gives (fun n => mDNSQuery n buf len cursor) q :=
  Iff.rfl

theorem builtAt_record {cursor : UInt16} {r : MDNSRecord} :
    BuiltAt ntop6 buf len (cursor, .record r) ↔
      Gives (fun n => mDNSRecord ntop6 n buf len cursor r.recordType) r :=
  Iff.rfl

theorem gives_pure {ε α : Type} {a b : α} :
    Gives (fun _ => (pure a : Traced ε α)) b ↔ b = a := by
  rw [gives_const, val_pure, Option.some.injEq]
  exact eq_comm

/-- The fields of a question, and nothing is ever deleted on the way. -/
theorem gives_mDNSQuery {cursor : UInt16} {q : MDNSQuery} :
    Gives (fun n => mDNSQuery n buf len cursor) q ↔ ∃ r out,
      Gives (fun n => getLabel n buf len cursor (Buffer.new 128)) (r, out) ∧
        q = ⟨some out, wordAt buf len (r.toUInt16 + cursor), wordAt buf len (r.toUInt16 + cursor + 2),
          r.toUInt16 + 4⟩ := by
  have hnot (r : UInt32) : ¬ (r.toUInt16.toNat : Int) < 0 := by omega
  unfold mDNSQuery
  rw [gives_bind (growing_getLabel _ _) fun _ => growing_bind (growing_const _) fun _ =>
    growing_bind (growing_const _) fun _ => growing_const _]
  constructor
  · rintro ⟨⟨r, out⟩, hr, n, hn⟩
    simp only [if_neg (hnot r), val_bind, get16_val, Option.bind_some, val_pure,
      Option.some.injEq] at hn
    exact ⟨r, out, hr, hn.symm⟩
  · rintro ⟨r, out, hr, rfl⟩
    refine ⟨(r, out), hr, 0, ?_⟩
    simp only [if_neg (hnot r), val_bind, get16_val, Option.bind_some, val_pure]

/-- The fields of a record that say where the next entry is. -/
theorem gives_mDNSRecord {cursor : UInt16} {t : RecordType} {x : MDNSRecord}
    (h : Gives (fun n => mDNSRecord ntop6 n buf len cursor t) x) : ∃ r out,
      Gives (fun n => getLabel n buf len cursor (Buffer.new 128)) (r, out) ∧
        x.name = out ∧ x.type = wordAt buf len (r.toUInt16 + cursor) ∧
        x.cls = wordAt buf len (r.toUInt16 + cursor + 2) ∧
        x.ttl = dwordAt buf len (r.toUInt16 + cursor + 4) ∧
        x.dataLength = wordAt buf len (r.toUInt16 + cursor + 8) ∧
        x.length = r.toUInt16 + 10 + x.dataLength ∧ x.recordType = t ∧
        (x.data.isSome ↔ x.dataLength > 0) := by
  obtain ⟨n, hn⟩ := h
  simp only [mDNSRecord, val_bind, Option.bind_eq_some_iff, get16_val, get32_val,
    Option.some.injEq, val_pure] at hn
  obtain ⟨⟨r, out⟩, hr, _, rfl, _, rfl, _, rfl, _, rfl, ⟨data, srv⟩, hd, rfl⟩ := hn
  refine ⟨r, out, ⟨n, hr⟩, rfl, rfl, rfl, rfl, rfl, rfl, rfl, ?_⟩
  unfold readData at hd
  split at hd
  · next hpos =>
    simp only [val_bind, Option.bind_eq_some_iff, val_pure, Option.some.injEq, Prod.mk.injEq] at hd
    obtain ⟨_, -, rfl, -⟩ := hd
    exact iff_of_true rfl hpos
  · next hpos =>
    obtain ⟨rfl, -⟩ : none = data ∧ none = srv := by simpa using hd
    exact iff_of_false (by simp) hpos

variable (ntop6) in
theorem gives_readQueries {num : Nat} {cursor after : UInt16} {qs : List MDNSQuery}
    (h : Gives (fun n => readQueries n buf len num cursor) (qs, after)) :
    qs.length = num ∧ after = cursorAfter cursor (qs.map .query) ∧
      ∀ v ∈ visits cursor (qs.map .query), BuiltAt ntop6 buf len v := by
  induction num generalizing cursor qs with
  | zero =>
    obtain ⟨rfl, rfl⟩ := Prod.mk.inj (gives_pure.mp h)
    exact ⟨rfl, rfl, fun v hv => by cases hv⟩
  | succ num ih =>
    simp only [readQueries] at h
    rw [gives_bind (growing_mDNSQuery _) fun _ => growing_bind (growing_readQueries _ _)
      fun _ => growing_const _] at h
    obtain ⟨q, hq, h⟩ := h
    rw [gives_bind (growing_readQueries _ _) fun _ => growing_const _] at h
    obtain ⟨⟨qs', after'⟩, hqs, h⟩ := h
    obtain ⟨rfl, rfl⟩ := Prod.mk.inj (gives_pure.mp h)
    obtain ⟨rfl, rfl, hall⟩ := ih hqs
    refine ⟨rfl, rfl, fun v hv => ?_⟩
    rcases List.mem_cons.mp hv with rfl | hv
    · exact hq
    · exact hall v hv

theorem gives_readRecords {t : RecordType} {num : Nat} {cursor after : UInt16}
    {rs : List MDNSRecord}
    (h : Gives (fun n => readRecords ntop6 n buf len t num cursor) (rs, after)) :
    rs.length = num ∧ after = cursorAfter cursor (rs.map .record) ∧
      ∀ v ∈ visits cursor (rs.map .record), BuiltAt ntop6 buf len v := by
  induction num generalizing cursor rs with
  | zero =>
    obtain ⟨rfl, rfl⟩ := Prod.mk.inj (gives_pure.mp h)
    exact ⟨rfl, rfl, fun v hv => by cases hv⟩
  | succ num ih =>
    simp only [readRecords] at h
    rw [gives_bind (growing_mDNSRecord _ _ _) fun _ => growing_bind (growing_readRecords _ _ _ _)
      fun _ => growing_const _] at h
    obtain ⟨r, hr, h⟩ := h
    rw [gives_bind (growing_readRecords _ _ _ _) fun _ => growing_const _] at h
    obtain ⟨⟨rs', after'⟩, hrs, h⟩ := h
    obtain ⟨rfl, rfl⟩ := Prod.mk.inj (gives_pure.mp h)
    obtain ⟨rfl, rfl, hall⟩ := ih hrs
    refine ⟨rfl, rfl, fun v hv => ?_⟩
    rcases List.mem_cons.mp hv with rfl | hv
    · obtain ⟨_, _, -, -, -, -, -, -, -, ht, -⟩ := gives_mDNSRecord hr
      exact builtAt_record.mpr (by rwa [ht])
    · exact hall v hv

/-- Every entry of a packet is what its constructor makes at the cursor before it. -/
theorem gives_parsePacket {p : MDNSIncoming}
    (h : Gives (fun n => parsePacket ntop6 n buf len) p) :
    p.header = headerAt buf len ∧ p.queries.length = p.header.queryNum.toNat ∧
      p.records.length = p.header.answerNum.toNat + p.header.authNum.toNat + p.header.addNum.toNat ∧
      p.cursor = cursorAfter headerLength p.parts ∧
      ∀ v ∈ visits headerLength p.parts, BuiltAt ntop6 buf len v := by
  unfold parsePacket at h
  rw [gives_bind (growing_const _) fun _ => growing_readSections ntop6 _] at h
  obtain ⟨header, hh, h⟩ := h
  rw [gives_const, mDNSHeader_val, Option.some.injEq] at hh
  simp only [readSections] at h
  rw [gives_bind (growing_readQueries _ _) fun _ => growing_bind (growing_readRecords _ _ _ _)
    fun _ => growing_bind (growing_readRecords _ _ _ _) fun _ =>
      growing_bind (growing_readRecords _ _ _ _) fun _ => growing_const _] at h
  obtain ⟨⟨qs, c₁⟩, hq, h⟩ := h
  rw [gives_bind (growing_readRecords _ _ _ _) fun _ => growing_bind (growing_readRecords _ _ _ _)
    fun _ => growing_bind (growing_readRecords _ _ _ _) fun _ => growing_const _] at h
  obtain ⟨⟨as, c₂⟩, ha, h⟩ := h
  rw [gives_bind (growing_readRecords _ _ _ _) fun _ => growing_bind (growing_readRecords _ _ _ _)
    fun _ => growing_const _] at h
  obtain ⟨⟨bs, c₃⟩, hb, h⟩ := h
  rw [gives_bind (growing_readRecords _ _ _ _) fun _ => growing_const _] at h
  obtain ⟨⟨ds, c₄⟩, hd, h⟩ := h
  obtain rfl := gives_pure.mp h
  obtain ⟨hql, rfl, hqs⟩ := gives_readQueries ntop6 hq
  obtain ⟨hal, rfl, has⟩ := gives_readRecords ha
  obtain ⟨hbl, rfl, hbs⟩ := gives_readRecords hb
  obtain ⟨hdl, rfl, hds⟩ := gives_readRecords hd
  refine ⟨hh.symm, hql, ?_, ?_, fun v hv => ?_⟩
  · simp only [List.length_append, hal, hbl, hdl]
  · simp only [MDNSIncoming.parts, List.map_append, cursorAfter_append]
  · simp only [MDNSIncoming.parts, List.map_append, visits_append, cursorAfter_append,
      List.mem_append] at hv
    rcases hv with hv | (hv | hv) | hv
    · exact hqs v hv
    · exact has v hv
    · exact hbs v hv
    · exact hds v hv

/-! ### Names that do not decode -/

variable (buf len) in
/-- `getLabel` reports failure on the name at the cursor. -/
def Undecodable (cursor : UInt16) : Prop :=
  ∃ out, Gives (fun n => getLabel n buf len cursor (Buffer.new 128)) (0xFFFFFFFF, out)

theorem Undecodable.length {cursor : UInt16} (h : Undecodable buf len cursor) {r : UInt32}
    {out : Buffer} (hr : Gives (fun n => getLabel n buf len cursor (Buffer.new 128)) (r, out)) :
    r.toUInt16 = 0xFFFF := by
  obtain ⟨out', hf⟩ := h
  cases (growing_getLabel _ _).unique hr hf
  rfl

end Built

/-- The fields of a part are read as if its name had taken `0xFFFF` bytes, the value that
reports failure, and the cursor goes on by it. -/
def UsesFailure (buf : Block) (len : UInt16) (cursor : UInt16) : Part → Prop
  | .query q => q.type = wordAt buf len (0xFFFF + cursor) ∧
      q.cls = wordAt buf len (0xFFFF + cursor + 2) ∧ q.length = 0xFFFF + 4
  | .record r => r.type = wordAt buf len (0xFFFF + cursor) ∧
      r.cls = wordAt buf len (0xFFFF + cursor + 2) ∧
      r.ttl = dwordAt buf len (0xFFFF + cursor + 4) ∧
      r.dataLength = wordAt buf len (0xFFFF + cursor + 8) ∧ r.length = 0xFFFF + 10 + r.dataLength

/-- A name that does not decode is never noticed: a question has a protocol all the same, and
every field of a question or a record is read from the byte in front of the name on. -/
theorem failed_name_unnoticed (ntop6 : Bytes → Bytes) (beyond : Nat → UInt8) (datagram : Bytes)
    (cursor : UInt16) (x : Part)
    (hx : BuiltAt ntop6 (packetBlock beyond datagram) (UInt16.ofNat datagram.length) (cursor, x))
    (hf : Undecodable (packetBlock beyond datagram) (UInt16.ofNat datagram.length) cursor) :
    (∀ q, x = .query q → q.protocol ≠ none) ∧
      UsesFailure (packetBlock beyond datagram) (UInt16.ofNat datagram.length) cursor x := by
  cases x with
  | query q =>
    obtain ⟨r, out, hr, rfl⟩ := gives_mDNSQuery.mp (builtAt_query.mp hx)
    rw [hf.length hr]
    refine ⟨?_, rfl, rfl, rfl⟩
    rintro q hq
    cases hq
    exact Option.some_ne_none _
  | record x =>
    obtain ⟨r, out, hr, -, htype, hcls, httl, hdl, hlen, -⟩ := gives_mDNSRecord (builtAt_record.mp hx)
    rw [hf.length hr] at htype hcls httl hdl hlen
    exact ⟨fun q hq => (nomatch hq), htype, hcls, httl, hdl, hlen⟩

def strayPointer : Bytes := [0, 0, 0, 0, 0, 1, 0, 0, 0, 0, 0, 0, 0xFF, 0xFF, 0, 12, 0, 1]

/-- The question of `strayPointer`: the type and the class are the bytes from offset 11 on. -/
def strayQuestion : MDNSQuery := ⟨some (Buffer.new 128), 0x00FF, 0xFF00, 3⟩

theorem failed_name_unnoticed_stray :
    (∀ q, Part.query strayQuestion = .query q → q.protocol ≠ none) ∧
      UsesFailure (packetBlock (fun _ => 0) strayPointer) 18 12 (.query strayQuestion) :=
  failed_name_unnoticed id (fun _ => 0) strayPointer 12 (.query strayQuestion)
    ⟨1, by decide⟩ ⟨Buffer.new 128, 1, by decide⟩

theorem strayPointer_parsed :
    (getLabel 1 (packetBlock (fun _ => 0) strayPointer) 18 12 (Buffer.new 128)).val =
      some (0xFFFFFFFF, Buffer.new 128) ∧
    (mDNSIncoming id (fun _ => 0) strayPointer 1).val =
      some ⟨⟨0, 0, 1, 0, 0, 0⟩, [strayQuestion], [], 15⟩ := by
  decide

end Flingd.Mdns
