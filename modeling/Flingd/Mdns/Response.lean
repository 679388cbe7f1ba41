import Flingd.Mdns.Composed
import Flingd.Mdns.MDNSServer

/-! The response of the server: what is composed in it stands in it, and the
parser finds it there. -/
namespace Flingd.Mdns
open Traced Reader Region Writer Composer

/-! ### The names -/

/-- `n.m`. -/
def Name.append (n m : Name) : Name where
  parts := n.parts ++ m.parts
  nonempty := by simp [n.nonempty]
  valid p hp := (List.mem_append.mp hp).elim (n.valid p) (m.valid p)

theorem Name.append_text (n m : Name) : (n.append m).text = n.text ++ str "." ++ m.text := by
  rw [Name.text, Name.append, join_append 46 n.nonempty m.nonempty]
  simp only [List.append_assoc]
  rfl

/-- Every part of a device's name leaves room for the first number of an address. -/
structure DeviceName extends Name where
  room : ∀ p ∈ parts, p.length ≤ 60

theorem isPart_decimal (c : UInt8) : IsPart (decimal c.toNat) := by
  have hlt := c.toNat_lt
  have hlen : (decimal c.toNat).length ≤ 3 := length_decimal (by omega) (by omega)
  refine ⟨List.length_pos_iff.mpr (decimal_ne_nil _), by omega, fun h => ?_, fun h => ?_⟩ <;>
    exact absurd (mem_decimal h).1 (by decide)

/-- The target of the SRV record: the device's name, the address and `.local`. -/
def DeviceName.target (device : DeviceName) (a b c d : UInt8) : Name where
  parts := device.parts.dropLast ++ (device.parts.getLast device.nonempty ++ decimal a.toNat) ::
    [decimal b.toNat, decimal c.toNat, decimal d.toNat, str "local"]
  nonempty := by simp
  valid p hp := by
    have hlast := List.getLast_mem device.nonempty
    have hl := device.valid _ hlast
    have hd := isPart_decimal a
    rcases List.mem_append.mp hp with hp | hp
    · exact device.valid p (List.mem_of_mem_dropLast hp)
    · simp only [List.mem_cons, List.not_mem_nil, or_false] at hp
      rcases hp with rfl | rfl | rfl | rfl | rfl
      · have hroom := device.room _ hlast
        have hlen : (decimal a.toNat).length ≤ 3 :=
          length_decimal (by omega) (by have := a.toNat_lt; omega)
        refine ⟨?_, ?_, ?_, ?_⟩
        · rw [List.length_append]
          have := hl.pos
          omega
        · rw [List.length_append]
          omega
        · simp [hl.noNul, hd.noNul]
        · simp [hl.noDot, hd.noDot]
      · exact isPart_decimal b
      · exact isPart_decimal c
      · exact isPart_decimal d
      · decide

theorem DeviceName.target_text (device : DeviceName) (a b c d : UInt8) :
    (device.target a b c d).text = device.text ++ inetNtop4 [a, b, c, d] ++ str ".local" := by
  rw [Name.text, DeviceName.target, join_glue, List.dropLast_concat_getLast, List.append_assoc]
  congr 1
  have hsplit : decimal a.toNat ::
      [decimal b.toNat, decimal c.toNat, decimal d.toNat, str "local"] =
      [decimal a.toNat, decimal b.toNat, decimal c.toNat, decimal d.toNat] ++ [str "local"] := rfl
  rw [hsplit, join_append 46 (by simp) (by simp), join_singleton]
  rfl

theorem length_inetNtop4 (a b c d : UInt8) : (inetNtop4 [a, b, c, d]).length ≤ 15 := by
  have hlen (x : UInt8) : (decimal x.toNat).length ≤ 3 :=
    length_decimal (by omega) (by have := x.toNat_lt; omega)
  have ha := hlen a
  have hb := hlen b
  have hc := hlen c
  have hd := hlen d
  simp only [inetNtop4, List.map_cons, List.map_nil, join_cons_cons, join_singleton,
    List.length_append, List.length_cons]
  omega

/-! ### The message -/

/-- The message that `parseMessage` composes. -/
def responseMessage (protocol : Name) (device : DeviceName) (a b c d : UInt8) : Message where
  id := defaultId
  flag := flagResponse ||| flagAuthoritative
  questions := [⟨protocol, typePtr, classUnicast ||| classIn⟩]
  answers := [⟨protocol, classIn, defaultTtl, .pointer (device.append protocol)⟩]
  auths := []
  adds := [
    ⟨device.append protocol, classIn, defaultTtl, .service 0 0 9431 (device.target a b c d)⟩,
    ⟨device.append protocol, classIn, defaultTtl, .texts⟩,
    ⟨device.target a b c d, classIn, defaultTtl, .address [a, b, c, d] rfl⟩]

theorem responseMessage_header (protocol : Name) (device : DeviceName) (a b c d : UInt8) :
    (responseMessage protocol device a b c d).header =
      ⟨defaultId, flagResponse ||| flagAuthoritative, 1, 1, 0, 3⟩ := rfl

theorem wrote_setHeader (b : Buffer) (h : MDNSHeader) :
    Wrote b (setHeader b h.id h.flag h.queryNum h.answerNum h.authNum h.addNum) (headerBytes h) :=
  (((((wrote_write16 _ _).trans (wrote_write16 _ _)).trans (wrote_write16 _ _)).trans
    (wrote_write16 _ _)).trans (wrote_write16 _ _)).trans (wrote_write16 _ _)

theorem ready_new (size : Int) : Ready ∅ (Buffer.new size) StdMap.empty :=
  ⟨rfl, by simp, by simp [StdMap.empty]⟩

theorem length_texts (device : Bytes) (model ip : Bytes) :
    (Host.texts ⟨device, model, ip⟩).length = 7 ∧
    (Host.texts ⟨device, model, ip⟩).flatten.length = 2 * device.length + model.length + 40 := by
  refine ⟨rfl, ?_⟩
  simp only [Host.texts, List.flatten_cons, List.flatten_nil, List.length_append, List.length_nil]
  simp only [str, List.length_map]
  simp
  omega

theorem texts_short {device model : Bytes} (hd : device.length ≤ 252) (hm : model.length ≤ 252)
    (ip : Bytes) : ∀ s ∈ Host.texts ⟨device, model, ip⟩, s.length < 256 := by
  have hl (t : Bytes) (ht : t.length = 3) {u : Bytes} (hu : u.length ≤ 252) :
      (t ++ u).length < 256 := by
    rw [List.length_append]
    omega
  simp only [Host.texts, List.forall_mem_cons, List.not_mem_nil, false_imp_iff, implies_true,
    and_true]
  exact ⟨hl _ rfl hd, by decide, hl _ rfl hm, by decide, by decide, hl _ rfl hd, by decide⟩

theorem response_stands (protocol : Name) (device : DeviceName) (model : Bytes) (a b c d : UInt8)
    (hp : protocol.text.length ≤ 252) (hd : device.text.length ≤ 252) (hm : model.length ≤ 252) :
    let r := response protocol.text ⟨device.text, model, inetNtop4 [a, b, c, d]⟩
    r.Full ∧ r.data.length < 0x4000 ∧
      (responseMessage protocol device a b c d).StandsIn Set.univ r.data := by
  have hlabel := device.append_text protocol
  have htarget := device.target_text a b c d
  have hip := length_inetNtop4 a b c d
  have hllen : (device.append protocol).text.length ≤ 505 := by
    rw [hlabel]
    simp only [List.length_append, str]
    simp
    omega
  have htlen : (device.target a b c d).text.length ≤ 273 := by
    rw [htarget]
    simp only [List.length_append, str]
    simp
    omega
  obtain ⟨hn, hflat⟩ := length_texts device.text model (inetNtop4 [a, b, c, d])
  have hshort := texts_short hd hm (inetNtop4 [a, b, c, d])
  have hhead := wrote_setHeader (Buffer.new defaultBufSize)
    ⟨defaultId, flagResponse ||| flagAuthoritative, 1, 1, 0, 3⟩
  dsimp only at hhead
  cases hb : setHeader (Buffer.new defaultBufSize) defaultId
    (flagResponse ||| flagAuthoritative) 1 1 0 3 with
  | mk index length data =>
  rw [hb] at hhead
  generalize (⟨index, length, data⟩ : Buffer) = b₁ at hb hhead
  have hlen : b₁.data.length = 12 := hhead.length
  obtain ⟨g₁, s₁⟩ := (ready_new defaultBufSize).wrote hhead
  cases hq : addQueryPtr b₁ protocol.text typePtr (classUnicast ||| classIn) StdMap.empty with
  | mk b₂ c₂ =>
  cases ha : addAnswerPtr b₂ protocol.text typePtr classIn defaultTtl
    (device.append protocol).text c₂ with
  | mk b₃ c₃ =>
  cases hs : addAdditionalSrv b₃ (device.append protocol).text typeSrv classIn defaultTtl
    (device.target a b c d).text c₃ with
  | mk b₄ c₄ =>
  cases ht : addAdditionalTxt b₄ (device.append protocol).text typeTxt classIn defaultTtl
    (Host.texts ⟨device.text, model, inetNtop4 [a, b, c, d]⟩) c₄ with
  | mk b₅ c₅ =>
  cases hi : addAdditionalAddr b₅ (device.target a b c d).text typeAddress classIn defaultTtl
    (inetNtop4 [a, b, c, d]) c₅ with
  | mk b₆ c₆ =>
  have hr : response protocol.text ⟨device.text, model, inetNtop4 [a, b, c, d]⟩ = b₆ := by
    simp only [response, ← hlabel, ← htarget, hb, hq, ha, hs, ht, hi]
  obtain ⟨g₂, s₂⟩ := addQueryPtr_stands g₁.ready protocol typePtr _ (by omega) hq
  have r₂ := g₂.room
  obtain ⟨g₃, s₃⟩ := addAnswerPtr_stands protocol classIn defaultTtl g₂.ready
    (device.append protocol) (by omega) ha
  have r₃ := g₃.room
  obtain ⟨g₄, s₄⟩ := addAdditionalSrv_stands (device.append protocol) classIn defaultTtl g₃.ready
    (device.target a b c d) (by omega) hs
  have r₄ := g₄.room
  obtain ⟨g₅, s₅⟩ := addAdditionalTxt_stands (device.append protocol) classIn defaultTtl g₄.ready
    _ (List.ne_nil_of_length_pos (by omega)) hshort (by omega) ht
  have r₅ := g₅.room
  obtain ⟨g₆, s₆⟩ := addAdditionalAddr_stands (device.target a b c d) classIn defaultTtl g₅.ready
    [a, b, c, d] rfl (by omega) hi
  have r₆ := g₆.room
  have k₅ := g₅.trans g₆
  have k₄ := g₄.trans k₅
  have k₃ := g₃.trans k₄
  have k₂ := g₂.trans k₃
  rw [hr]
  refine ⟨g₆.ready.full, by omega, ?_, ?_, ?_⟩
  · rw [responseMessage_header]
    exact s₁.mono (Set.subset_univ _) k₂.keeps
  · have e₂ := s₂.mono (Set.subset_univ _) k₃.keeps
    rw [hlen] at e₂
    exact ⟨_, _, _, ⟨_, e₂, rfl⟩, ⟨_, s₃.mono (Set.subset_univ _) k₄.keeps, rfl⟩, rfl,
      ⟨_, s₄.mono (Set.subset_univ _) k₅.keeps, _, s₅.mono (Set.subset_univ _) g₆.keeps, _,
        s₆.mono (Set.subset_univ _) (Keeps.refl _ _), rfl⟩⟩
  · simp [responseMessage]

/-- The response parses back to what was composed: the question, the PTR answer,
and the SRV, TXT and A records, with the cursor at the end of the buffer. -/
theorem response_parses (protocol : Name) (device : DeviceName) (model : Bytes)
    (a b c d : UInt8) (hp : protocol.text.length ≤ 252) (hd : device.text.length ≤ 252)
    (hm : model.length ≤ 252) (inetNtop6 : Bytes → Bytes) (beyond : Nat → UInt8) :
    let ip := inetNtop4 [a, b, c, d]
    let r := response protocol.text ⟨device.text, model, ip⟩
    let label := device.text ++ str "." ++ protocol.text
    let target := device.text ++ ip ++ str ".local"
    ∃ incoming, Gives (mDNSIncoming inetNtop6 beyond r.data) incoming ∧
      incoming.header = ⟨0, 0x8400, 1, 1, 0, 3⟩ ∧
      incoming.queries.map MDNSQuery.seen = [⟨some protocol.text, typePtr, 0x8001⟩] ∧
      incoming.records.map MDNSRecord.seen = [
        ⟨protocol.text, typePtr, classIn, 10, some label, none, .answer⟩,
        ⟨label, typeSrv, classIn, 10, some target, some (0, 0, 9431), .add⟩,
        ⟨label, typeTxt, classIn, 10, some [], none, .add⟩,
        ⟨target, typeAddress, classIn, 10, some ip, none, .add⟩] ∧
      (incoming.cursor.toNat : Int) = r.index ∧ r.index = r.data.length := by
  obtain ⟨hfull, hsmall, hstands⟩ := response_stands protocol device model a b c d hp hd hm
  obtain ⟨incoming, hg, hhead, hq, hr, hc⟩ :=
    mDNSIncoming_stands beyond inetNtop6 hsmall hstands
  have hlabel := device.append_text protocol
  have htarget := device.target_text a b c d
  refine ⟨incoming, hg, ?_, hq, ?_, ?_, hfull⟩
  · rw [hhead, responseMessage_header]
    rfl
  · rw [hr, ← hlabel, ← htarget]
    rfl
  · rw [hc, toNat_offset (by omega) le_rfl, hfull]

/-- `_openflint._tcp.local`. -/
def openflintName : Name := ⟨[str "_openflint", str "_tcp", str "local"], by simp, by decide⟩

example : openflintName.text = openflint := by decide

/-- `Living.Room`. -/
def livingRoom : DeviceName := ⟨⟨[str "Living", str "Room"], by simp, by decide⟩, by decide⟩

theorem response_parses_livingRoom :
    let ip := inetNtop4 [192, 168, 1, 20]
    let r := response openflintName.text ⟨livingRoom.text, str "M1", ip⟩
    let label := livingRoom.text ++ str "." ++ openflintName.text
    let target := livingRoom.text ++ ip ++ str ".local"
    ∃ incoming, Gives (mDNSIncoming id (fun _ => 0) r.data) incoming ∧
      incoming.header = ⟨0, 0x8400, 1, 1, 0, 3⟩ ∧
      incoming.queries.map MDNSQuery.seen = [⟨some openflintName.text, typePtr, 0x8001⟩] ∧
      incoming.records.map MDNSRecord.seen = [
        ⟨openflintName.text, typePtr, classIn, 10, some label, none, .answer⟩,
        ⟨label, typeSrv, classIn, 10, some target, some (0, 0, 9431), .add⟩,
        ⟨label, typeTxt, classIn, 10, some [], none, .add⟩,
        ⟨target, typeAddress, classIn, 10, some ip, none, .add⟩] ∧
      (incoming.cursor.toNat : Int) = r.index ∧ r.index = r.data.length :=
  response_parses openflintName livingRoom (str "M1") 192 168 1 20 (by decide) (by decide)
    (by decide) id fun _ => 0

/-- What `parseMessage` sends, where it sends anything, is the response. -/
theorem parseMessage_gives (protocol_ : Bytes) (h : Host) (inetNtop6 : Bytes → Bytes)
    (beyond : Nat → UInt8) (message : Bytes) (sent : Option Buffer) :
    Gives (parseMessage protocol_ h inetNtop6 beyond message) sent ↔
      ∃ incoming, Gives (mDNSIncoming inetNtop6 beyond message) incoming ∧
        sent = if incoming.header.isQuery ∧ incoming.compareProtocol protocol_ then
          some (response protocol_ h) else none := by
  have hsend (incoming : MDNSIncoming) :
      (if ¬ incoming.header.isQuery then pure none
      else if ¬ incoming.compareProtocol protocol_ then pure none
      else pure (some (response protocol_ h)) : Traced Nat (Option Buffer)).val =
        some (if incoming.header.isQuery ∧ incoming.compareProtocol protocol_ then
          some (response protocol_ h) else none) := by
    cases incoming.header.isQuery <;> cases incoming.compareProtocol protocol_ <;> rfl
  constructor
  · rintro ⟨n, hn⟩
    simp only [parseMessage, val_bind, Option.bind_eq_some_iff] at hn
    obtain ⟨incoming, hi, hs⟩ := hn
    exact ⟨incoming, ⟨n, hi⟩, Option.some.inj (hs.symm.trans (hsend incoming))⟩
  · rintro ⟨incoming, ⟨n, hn⟩, rfl⟩
    exact ⟨n, by simp only [parseMessage, val_bind, hn, Option.bind_some, hsend]⟩

end Flingd.Mdns
