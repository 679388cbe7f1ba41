import Flingd.Mdns.Records

/-! A whole message as it stands in a datagram, and the packet that the
constructor of `MDNSIncoming` makes of it. -/
namespace Flingd.Mdns
open Traced Reader Region

structure Message where
  id : UInt16
  flag : UInt16
  questions : List Question
  answers : List Entry
  auths : List Entry
  adds : List Entry

def Message.header (m : Message) : MDNSHeader :=
  ⟨m.id, m.flag, UInt16.ofNat m.questions.length, UInt16.ofNat m.answers.length,
    UInt16.ofNat m.auths.length, UInt16.ofNat m.adds.length⟩

def headerBytes (h : MDNSHeader) : Bytes :=
  wordBytes h.id ++ wordBytes h.flag ++ wordBytes h.queryNum ++ wordBytes h.answerNum ++
    wordBytes h.authNum ++ wordBytes h.addNum

/-- The message stands in `d`, from its first byte to its last. -/
structure Message.StandsIn (kept : Set Nat) (d : Bytes) (m : Message) : Prop where
  header : Stands kept d 0 (headerBytes m.header)
  sections : ∃ o₁ o₂ o₃, InTurn (Question.StandsAt kept d) 12 o₁ m.questions ∧
    InTurn (Entry.StandsAt kept d) o₁ o₂ m.answers ∧ InTurn (Entry.StandsAt kept d) o₂ o₃ m.auths ∧
    InTurn (Entry.StandsAt kept d) o₃ d.length m.adds
  counts : m.questions.length < 65536 ∧ m.answers.length < 65536 ∧ m.auths.length < 65536 ∧
    m.adds.length < 65536

variable {kept : Set Nat} {b : Buffer} (beyond : Nat → UInt8) (ntop6 : Bytes → Bytes)

theorem headerAt_stands (hsmall : b.data.length < 0x4000) {h : MDNSHeader}
    (hs : Stands kept b.data 0 (headerBytes h)) :
    headerAt (b.dataPtr beyond) (UInt16.ofNat b.data.length) = h := by
  obtain ⟨hs, h10⟩ := stands_append.mp hs
  obtain ⟨hs, h8⟩ := stands_append.mp hs
  obtain ⟨hs, h6⟩ := stands_append.mp hs
  obtain ⟨hs, h4⟩ := stands_append.mp hs
  obtain ⟨h0, h2⟩ := stands_append.mp hs
  have w0 := wordAt_of_stands beyond (hsmall.trans (by decide)) (i := 0) h0
  have w2 := wordAt_of_stands beyond (hsmall.trans (by decide)) (i := 2) h2
  have w4 := wordAt_of_stands beyond (hsmall.trans (by decide)) (i := 4) h4
  have w6 := wordAt_of_stands beyond (hsmall.trans (by decide)) (i := 6) h6
  have w8 := wordAt_of_stands beyond (hsmall.trans (by decide)) (i := 8) h8
  have w10 := wordAt_of_stands beyond (hsmall.trans (by decide)) (i := 10) h10
  unfold headerAt
  exact MDNSHeader.ext w0 w2 w4 w6 w8 w10

theorem readSections_stand (hb : b.Full) (hsmall : b.data.length < 0x4000) {m : Message}
    (h : m.StandsIn kept b.data) : ∃ incoming,
      Settles (fun passes => readSections ntop6 passes (b.dataPtr beyond)
        (UInt16.ofNat b.data.length) m.header) incoming ∧
      incoming.header = m.header ∧ incoming.queries.map MDNSQuery.seen = m.questions.map Question.seen ∧
      incoming.records.map MDNSRecord.seen = m.answers.map (Entry.seen · .answer) ++
        m.auths.map (Entry.seen · .auth) ++ m.adds.map (Entry.seen · .add) ∧
      incoming.cursor = UInt16.ofNat b.data.length := by
  obtain ⟨o₁, o₂, o₃, hq, h₁, h₂, h₃⟩ := h.sections
  obtain ⟨cq, c₁, c₂, c₃⟩ := h.counts
  have hle₃ := h₃.le fun _ _ _ => Entry.StandsAt.le
  have hle₂ := h₂.le fun _ _ _ => Entry.StandsAt.le
  obtain ⟨queries, sq, eq⟩ := readQueries_stand beyond hb hsmall hq
  obtain ⟨answers, s₁, e₁⟩ :=
    readRecords_stand beyond ntop6 hb hsmall h₁ (by omega) .answer
  obtain ⟨auths, s₂, e₂⟩ :=
    readRecords_stand beyond ntop6 hb hsmall h₂ (by omega) .auth
  obtain ⟨adds, s₃, e₃⟩ :=
    readRecords_stand beyond ntop6 hb hsmall h₃ le_rfl .add
  have hn {n : Nat} (h : n < 65536) : (UInt16.ofNat n).toNat = n :=
    UInt16.toNat_ofNat_of_lt' h
  refine ⟨⟨m.header, queries, answers ++ auths ++ adds, UInt16.ofNat b.data.length⟩, ?_, rfl, eq,
    by simp [e₁, e₂, e₃], rfl⟩
  unfold readSections
  simp only [Message.header, hn cq, hn c₁, hn c₂, hn c₃]
  exact sq.bind (s₁.bind (s₂.bind (s₃.bind (settles_const rfl))))

/-- What stands in a datagram is what the constructor finds there. -/
theorem mDNSIncoming_stands {d : Bytes} (hsmall : d.length < 0x4000) {m : Message}
    (h : m.StandsIn kept d) : ∃ incoming,
      Gives (mDNSIncoming ntop6 beyond d) incoming ∧
      incoming.header = m.header ∧ incoming.queries.map MDNSQuery.seen = m.questions.map Question.seen ∧
      incoming.records.map MDNSRecord.seen = m.answers.map (Entry.seen · .answer) ++
        m.auths.map (Entry.seen · .auth) ++ m.adds.map (Entry.seen · .add) ∧
      incoming.cursor = UInt16.ofNat d.length := by
  have hw := wrote_appendRaw (Buffer.new d.length) d le_rfl
  have hd : ((Buffer.new d.length).appendRaw d d.length).data = d := by
    have hpos := h.header.inside (by simp [headerBytes, wordBytes])
    rw [hw.data, if_neg, List.take_length]
    · rfl
    · simp only [headerBytes, wordBytes, List.length_append, List.length_cons] at hpos
      omega
  have hb : ((Buffer.new d.length).appendRaw d d.length).Full := hw.full rfl
  rw [← hd] at h hsmall
  obtain ⟨incoming, hs, hparts⟩ :=
    readSections_stand beyond ntop6 hb hsmall h
  have hhead : Settles (fun _ => mDNSHeader (packetBlock beyond d) (UInt16.ofNat d.length) 0)
      m.header := by
    refine settles_const ?_
    have := headerAt_stands beyond hsmall h.header
    rw [hd] at this
    rw [mDNSHeader_val, ← this]
    rfl
  rw [hd] at hs hparts
  exact ⟨incoming, (hhead.bind hs).gives, hparts⟩

end Flingd.Mdns
