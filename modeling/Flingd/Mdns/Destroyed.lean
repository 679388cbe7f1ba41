import Mathlib.Data.List.Perm.Basic
import Flingd.Mdns.Forward

/-! The blocks of a parsed packet, from the constructor of `MDNSIncoming` to its
destructor. A record without data never sets `data_`, which is then the word that
its memory had held before; the destructor deletes what it points at. The two vectors
of a packet, which are never deleted, are left out. -/
namespace Flingd.Mdns
open Traced

/-- A pointer to a block; blocks are numbered in the order of `new`. -/
abbrev Ptr := Option Nat

structure Heap where
  next : Nat
  deleted : List Nat

namespace Heap

def new (h : Heap) : Nat × Heap := (h.next, { h with next := h.next + 1 })

/-- `if (p != NULL) delete p`. -/
def delete (h : Heap) : Ptr → Heap
  | none => h
  | some a => { h with deleted := h.deleted ++ [a] }

end Heap

structure QueryObject where
  self : Nat
  protocol : Ptr
deriving DecidableEq, Repr

structure RecordObject where
  self : Nat
  name : Ptr
  data : Ptr
deriving DecidableEq, Repr

structure PacketObject where
  buffer : Ptr
  header : Ptr
  queries : List QueryObject
  records : List RecordObject

/-! ### Constructors -/

def newQuery (h : Heap) (q : MDNSQuery) : QueryObject × Heap :=
  let (self, h) := h.new
  let (protocol, h) := h.new
  match q.protocol with
  | some _ => (⟨self, some protocol⟩, h)
  | none => (⟨self, none⟩, h.delete (some protocol))

/-- `word` is what the memory of the record had where `data_` is. -/
def newRecord (word : Ptr) (h : Heap) (r : MDNSRecord) : RecordObject × Heap :=
  let (self, h) := h.new
  let (name, h) := h.new
  match r.data with
  | some _ =>
    let (data, h) := h.new
    (⟨self, some name, some data⟩, h)
  | none => (⟨self, some name, word⟩, h)

def newQueries (h : Heap) : List MDNSQuery → List QueryObject × Heap
  | [] => ([], h)
  | q :: qs =>
    let (o, h) := newQuery h q
    let (os, h) := newQueries h qs
    (o :: os, h)

/-- `words j` is what the memory of the `j`-th record had where `data_` is. -/
def newRecords (words : Nat → Ptr) (h : Heap) : List MDNSRecord → List RecordObject × Heap
  | [] => ([], h)
  | r :: rs =>
    let (o, h) := newRecord (words 0) h r
    let (os, h) := newRecords (fun j => words (j + 1)) h rs
    (o :: os, h)

def newPacket (words : Nat → Ptr) (h : Heap) (p : MDNSIncoming) : PacketObject × Heap :=
  let (buffer, h) := h.new
  let (header, h) := h.new
  let (queries, h) := newQueries h p.queries
  let (records, h) := newRecords words h p.records
  (⟨some buffer, some header, queries, records⟩, h)

/-! ### Destructors -/

def deleteQuery (h : Heap) (o : QueryObject) : Heap := (h.delete o.protocol).delete (some o.self)

def deleteRecord (h : Heap) (o : RecordObject) : Heap :=
  ((h.delete o.name).delete o.data).delete (some o.self)

/-- `~MDNSIncoming`, and `~MDNSPacket` after it. -/
def deletePacket (h : Heap) (o : PacketObject) : Heap :=
  let h := h.delete o.header
  let h := o.queries.foldl deleteQuery h
  let h := o.records.foldl deleteRecord h
  h.delete o.buffer

/-- The blocks deleted when a packet has been constructed and destroyed, and their number. -/
def lifetime (words : Nat → Ptr) (p : MDNSIncoming) : Heap :=
  let (o, h) := newPacket words ⟨0, []⟩ p
  deletePacket h o

/-- Each block is deleted once, and nothing else is. -/
def Heap.Settled (h : Heap) : Prop := h.deleted.Perm (List.range h.next)

/-- `data_` is `NULL` or the third block of the record's own construction. -/
def RecordObject.OwnsData (o : RecordObject) : Prop := o.data = none ∨ o.data = some (o.self + 2)

/-! ### What the destructors delete -/

def QueryObject.blocks (o : QueryObject) : List Nat := o.protocol.toList ++ [o.self]

def RecordObject.blocks (o : RecordObject) : List Nat := o.name.toList ++ o.data.toList ++ [o.self]

theorem delete_eq (h : Heap) (p : Ptr) : h.delete p = { h with deleted := h.deleted ++ p.toList } := by
  cases p with
  | none => simp [Heap.delete]
  | some a => rfl

theorem deleteQueries_eq (h : Heap) (os : List QueryObject) :
    os.foldl deleteQuery h = { h with deleted := h.deleted ++ os.flatMap QueryObject.blocks } := by
  induction os generalizing h with
  | nil => simp
  | cons o os ih =>
    rw [List.foldl_cons, ih, deleteQuery, delete_eq, delete_eq]
    simp only [QueryObject.blocks, List.flatMap_cons, Option.toList_some, List.append_assoc]

theorem deleteRecords_eq (h : Heap) (os : List RecordObject) :
    os.foldl deleteRecord h = { h with deleted := h.deleted ++ os.flatMap RecordObject.blocks } := by
  induction os generalizing h with
  | nil => simp
  | cons o os ih =>
    rw [List.foldl_cons, ih, deleteRecord, delete_eq, delete_eq, delete_eq]
    simp only [RecordObject.blocks, List.flatMap_cons, Option.toList_some, List.append_assoc]

/-! ### What the constructors leave -/

/-- The constructors have taken `n` blocks, and the objects point at them and at `strays`. -/
structure Took (h h' : Heap) (blocks strays : List Nat) : Prop where
  deleted : h'.deleted = h.deleted
  le : h.next ≤ h'.next
  perm : blocks.Perm (List.range' h.next (h'.next - h.next) ++ strays)

theorem Took.refl (h : Heap) : Took h h [] [] := ⟨rfl, le_rfl, by simp⟩

theorem Took.trans {h₁ h₂ h₃ : Heap} {bs bs' ss ss' : List Nat} (h : Took h₁ h₂ bs ss)
    (h' : Took h₂ h₃ bs' ss') : Took h₁ h₃ (bs ++ bs') (ss ++ ss') := by
  have hle := h.le
  have hle' := h'.le
  have hrange : List.range' h₁.next (h₃.next - h₁.next) =
      List.range' h₁.next (h₂.next - h₁.next) ++ List.range' h₂.next (h₃.next - h₂.next) := by
    have hnext : h₂.next = h₁.next + 1 * (h₂.next - h₁.next) := by omega
    rw [show h₃.next - h₁.next = (h₂.next - h₁.next) + (h₃.next - h₂.next) by omega,
      ← List.range'_append, ← hnext]
  refine ⟨h'.deleted.trans h.deleted, hle.trans hle', ?_⟩
  rw [hrange]
  refine (h.perm.append h'.perm).trans ?_
  rw [List.append_assoc, List.append_assoc]
  refine List.Perm.append_left _ ?_
  rw [← List.append_assoc, ← List.append_assoc]
  exact List.perm_append_comm.append_right _

theorem newQuery_eq (h : Heap) {q : MDNSQuery} (hq : q.protocol ≠ none) :
    newQuery h q = (⟨h.next, some (h.next + 1)⟩, { h with next := h.next + 2 }) := by
  unfold newQuery
  cases hp : q.protocol with
  | none => exact absurd hp hq
  | some out => rfl

theorem newQuery_took (h : Heap) {q : MDNSQuery} (hq : q.protocol ≠ none) :
    Took h (newQuery h q).2 (newQuery h q).1.blocks [] := by
  rw [newQuery_eq h hq]
  refine ⟨rfl, Nat.le_add_right _ _, ?_⟩
  rw [Nat.add_sub_cancel_left, List.append_nil]
  exact List.Perm.swap _ _ _

theorem newQueries_took (h : Heap) {qs : List MDNSQuery} (hqs : ∀ q ∈ qs, q.protocol ≠ none) :
    Took h (newQueries h qs).2 ((newQueries h qs).1.flatMap QueryObject.blocks) [] := by
  induction qs generalizing h with
  | nil => exact Took.refl h
  | cons q qs ih =>
    obtain ⟨hq, hqs⟩ := List.forall_mem_cons.mp hqs
    exact (newQuery_took h hq).trans (ih _ hqs)

def strays (words : Nat → Ptr) : List MDNSRecord → List Nat
  | [] => []
  | r :: rs => (if r.data.isSome then [] else (words 0).toList) ++ strays (fun j => words (j + 1)) rs

theorem newRecord_eq (word : Ptr) (h : Heap) (r : MDNSRecord) :
    newRecord word h r = if r.data.isSome
      then (⟨h.next, some (h.next + 1), some (h.next + 2)⟩, { h with next := h.next + 3 })
      else (⟨h.next, some (h.next + 1), word⟩, { h with next := h.next + 2 }) := by
  unfold newRecord
  cases r.data <;> rfl

theorem newRecord_took (word : Ptr) (h : Heap) (r : MDNSRecord) :
    Took h (newRecord word h r).2 (newRecord word h r).1.blocks
      (if r.data.isSome then [] else word.toList) := by
  rw [newRecord_eq]
  split_ifs
  · refine ⟨rfl, Nat.le_add_right _ _, ?_⟩
    rw [Nat.add_sub_cancel_left, List.append_nil]
    exact List.perm_append_comm 
  · refine ⟨rfl, Nat.le_add_right _ _, ?_⟩
    rw [Nat.add_sub_cancel_left]
    refine (List.perm_append_comm ).trans ?_
    exact List.Perm.refl _

theorem newRecords_took (words : Nat → Ptr) (h : Heap) (rs : List MDNSRecord) :
    Took h (newRecords words h rs).2 ((newRecords words h rs).1.flatMap RecordObject.blocks)
      (strays words rs) := by
  induction rs generalizing words h with
  | nil => exact Took.refl h
  | cons r rs ih => exact (newRecord_took (words 0) h r).trans (ih _ _)

theorem strays_eq_nil_iff (words : Nat → Ptr) (rs : List MDNSRecord) :
    strays words rs = [] ↔ ∀ j r, rs[j]? = some r → r.data.isSome ∨ words j = none := by
  induction rs generalizing words with
  | nil => simp [strays]
  | cons r rs ih =>
    have hfirst : (if r.data.isSome then [] else (words 0).toList) = [] ↔
        r.data.isSome ∨ words 0 = none := by
      cases hr : r.data.isSome <;> cases hw : words 0 <;> simp
    rw [strays, List.append_eq_nil_iff, hfirst, ih]
    constructor
    · rintro ⟨h₀, h⟩ (_ | j) r' hj
      · cases hj
        exact h₀
      · exact h j r' hj
    · exact fun h => ⟨h 0 r rfl, fun j r' hj => h (j + 1) r' hj⟩

theorem newRecords_cons (words : Nat → Ptr) (h : Heap) (r : MDNSRecord) (rs : List MDNSRecord) :
    (newRecords words h (r :: rs)).1 = (newRecord (words 0) h r).1 ::
      (newRecords (fun j => words (j + 1)) (newRecord (words 0) h r).2 rs).1 :=
  rfl

theorem newRecords_own (words : Nat → Ptr) (h : Heap) (rs : List MDNSRecord)
    (hs : strays words rs = []) : ∀ o ∈ (newRecords words h rs).1, o.OwnsData := by
  induction rs generalizing words h with
  | nil => exact fun o ho => by cases ho
  | cons r rs ih =>
    obtain ⟨hfirst, hrest⟩ := List.append_eq_nil_iff.mp hs
    rw [newRecords_cons]
    intro o ho
    rcases List.mem_cons.mp ho with rfl | ho
    · rw [newRecord_eq]
      split_ifs with hr
      · exact .inr rfl
      · rw [if_neg hr] at hfirst
        exact .inl (Option.toList_eq_nil_iff.mp hfirst)
    · exact ih _ _ hrest o ho

/-- From the first `new` to the last `delete`. -/
theorem lifetime_perm (words : Nat → Ptr) {p : MDNSIncoming}
    (hp : ∀ q ∈ p.queries, q.protocol ≠ none) :
    (lifetime words p).deleted.Perm
      (List.range (lifetime words p).next ++ strays words p.records) := by
  obtain ⟨hdeleted, hle, hperm⟩ := (newQueries_took ⟨2, []⟩ hp).trans
    (newRecords_took words (newQueries ⟨2, []⟩ p.queries).2 p.records)
  generalize hq : newQueries ⟨2, []⟩ p.queries = q at hdeleted hle hperm
  generalize hr : newRecords words q.2 p.records = r at hdeleted hle hperm
  have hnew : newPacket words ⟨0, []⟩ p = (⟨some 0, some 1, q.1, r.1⟩, r.2) := by
    subst hr hq
    rfl
  have hlife : lifetime words p = { r.2 with deleted := [1] ++
      (q.1.flatMap QueryObject.blocks ++ r.1.flatMap RecordObject.blocks) ++ [0] } := by
    rw [lifetime, hnew]
    simp only [deletePacket, delete_eq, deleteQueries_eq, deleteRecords_eq, hdeleted,
      Option.toList_some, List.nil_append, List.append_assoc]
  have hrange : List.range r.2.next = [0, 1] ++ List.range' 2 (r.2.next - 2) := by
    rw [List.range_eq_range', show r.2.next = 2 + (r.2.next - 2) by simp only at hle; omega,
      ← List.range'_append, Nat.add_sub_cancel_left]
    rfl
  rw [hlife, hrange, List.append_assoc [0, 1]]
  exact List.perm_append_comm.trans (hperm.append_left [0, 1])

theorem settled_iff (words : Nat → Ptr) {p : MDNSIncoming}
    (hp : ∀ q ∈ p.queries, q.protocol ≠ none) :
    (lifetime words p).Settled ↔ strays words p.records = [] := by
  have hperm := lifetime_perm words hp
  constructor
  · intro h
    have hlen := (h.symm.trans hperm).length_eq
    rw [List.length_append] at hlen
    exact List.length_eq_zero_iff.mp (by omega)
  · intro h
    rw [h, List.append_nil] at hperm
    exact hperm

/-! ### Parsed packets -/

theorem mem_visits (cursor : UInt16) {xs : List Part} {x : Part} (h : x ∈ xs) :
    ∃ c, (c, x) ∈ visits cursor xs := by
  induction xs generalizing cursor with
  | nil => cases h
  | cons y ys ih =>
    rcases List.mem_cons.mp h with rfl | h
    · exact ⟨cursor, List.mem_cons_self⟩
    · obtain ⟨c, hc⟩ := ih (cursor + y.length) h
      exact ⟨c, List.mem_cons_of_mem _ hc⟩

/-- Whatever the datagram: all blocks of the packet are deleted once and nothing else is, and
every `data_` is the record's own, if and only if each record has data or its memory had a null
pointer where `data_` is. -/
theorem destroyed_once_iff (ntop6 : Bytes → Bytes) (beyond : Nat → UInt8) (datagram : Bytes)
    {p : MDNSIncoming} (hp : Gives (mDNSIncoming ntop6 beyond datagram) p) (words : Nat → Ptr) :
    ((∀ o ∈ (newPacket words ⟨0, []⟩ p).1.records, o.OwnsData) ∧ (lifetime words p).Settled) ↔
      ∀ j r, p.records[j]? = some r → r.dataLength > 0 ∨ words j = none := by
  obtain ⟨-, -, -, -, hbuilt⟩ := gives_parsePacket hp
  have hqueries : ∀ q ∈ p.queries, q.protocol ≠ none := by
    intro q hq
    obtain ⟨c, hc⟩ := mem_visits headerLength
      (List.mem_append_left _ (List.mem_map_of_mem hq) : Part.query q ∈ p.parts)
    obtain ⟨r, out, -, rfl⟩ := gives_mDNSQuery.mp (builtAt_query.mp (hbuilt _ hc))
    exact Option.some_ne_none _
  have hrecords : ∀ r ∈ p.records, r.data.isSome ↔ r.dataLength > 0 := by
    intro r hr
    obtain ⟨c, hc⟩ := mem_visits headerLength
      (List.mem_append_right _ (List.mem_map_of_mem hr) : Part.record r ∈ p.parts)
    obtain ⟨_, _, -, -, -, -, -, -, -, -, hdata⟩ :=
      gives_mDNSRecord (builtAt_record.mp (hbuilt _ hc))
    exact hdata
  have hstrays : strays words p.records = [] ↔
      ∀ j r, p.records[j]? = some r → r.dataLength > 0 ∨ words j = none := by
    rw [strays_eq_nil_iff]
    refine forall_congr' fun j => forall_congr' fun r => forall_congr' fun hj => ?_
    rw [hrecords r (List.mem_of_getElem? hj)]
  rw [settled_iff words hqueries, ← hstrays, and_iff_right_iff_imp]
  exact newRecords_own words _ p.records

def bareRecord : Bytes := [0, 0, 0x84, 0, 0, 0, 0, 1, 0, 0, 0, 0, 0, 0, 16, 0, 1, 0, 0, 0, 10, 0, 0]

/-- `bareRecord` parsed. -/
def barePacket : MDNSIncoming :=
  ⟨⟨0, 0x8400, 0, 1, 0, 0⟩, [], [{ textRecord 0 11 with data := none }], 23⟩

theorem destroyed_once_iff_bare :
    ((∀ o ∈ (newPacket (fun _ => none) ⟨0, []⟩ barePacket).1.records, o.OwnsData) ∧
        (lifetime (fun _ => none) barePacket).Settled) ↔
      ∀ j r, barePacket.records[j]? = some r →
        r.dataLength > 0 ∨ (fun _ => none : Nat → Ptr) j = none :=
  destroyed_once_iff id (fun _ => 0) bareRecord ⟨1, by decide⟩ fun _ => none

/-- A word that was left over from another block: the destructor deletes what it points at. -/
theorem bareRecord_deletes_stray :
    (mDNSIncoming id (fun _ => 0) bareRecord 1).val = some barePacket ∧
      (newPacket (fun _ => some 77) ⟨0, []⟩ barePacket).1.records = [⟨2, some 3, some 77⟩] ∧
      (lifetime (fun _ => some 77) barePacket).deleted = [1, 3, 77, 2, 0] ∧
      (lifetime (fun _ => some 77) barePacket).next = 4 ∧
      ¬ (lifetime (fun _ => some 77) barePacket).Settled := by
  refine ⟨by decide, by decide, by decide, by decide, fun h => ?_⟩
  exact absurd h.length_eq (by decide)

end Flingd.Mdns
