import Flingd.Mdns.Layout

/-! The parts of a packet: its names and its addresses. A property of
computations that splits along `>>=` holds of the constructor of `MDNSIncoming`
exactly when it holds at every part. -/
namespace Flingd.Mdns
open Traced Reader

variable {buf : Block} {len : UInt16}

section Parts
variable (buf len) (N : UInt16 → Prop) (A : Nat → Nat → Prop)

/-- `N` holds at the name and `A` of the address bytes in a record's data. -/
def DataParts (type at_ : UInt16) (ptr : Nat) : Prop :=
  if type = typeAddress then A ptr 4
  else if type = typeNameserver ∨ type = typeCname ∨ type = typePtr then N at_
  else if type = typeSrv then N (at_ + 6)
  else if type = typeAaaa then A ptr 16
  else True

/-- The name in a record's data, where there is one, has a length. -/
def DataEnds (type at_ : UInt16) : Prop :=
  if type = typeAddress then True
  else if type = typeNameserver ∨ type = typeCname ∨ type = typePtr then
    ∃ L, NameLength buf len at_ L
  else if type = typeSrv then ∃ L, NameLength buf len (at_ + 6) L
  else True

/-- `N` at the names of `n` questions from `c` on, and `K` at the offset after them. -/
def QueryParts (K : UInt16 → Prop) : Nat → UInt16 → Prop
  | 0, c => K c
  | n+1, c => N c ∧ ∀ L, NameLength buf len c L → QueryParts K n (c + (L + 4))

/-- `N` at the names and `A` of the addresses of `n` records from `c` on, and
`K` at the offset after them. -/
def RecordParts (K : UInt16 → Prop) : Nat → UInt16 → Prop
  | 0, c => K c
  | n+1, c => N c ∧ ∀ L, NameLength buf len c L →
    let type := wordAt buf len (L + c)
    let rdlength := wordAt buf len (L + c + 8)
    (rdlength > 0 → DataParts N A type (L + c + 10) (c.toNat + L.toNat + 10)) ∧
    ((rdlength > 0 → DataEnds buf len type (L + c + 10)) →
      RecordParts K n (c + (L + 10 + rdlength)))

/-- `N` holds at every name of the packet that is read, and `A` of the offset
and the number of bytes of every address. -/
def EveryPart : Prop :=
  QueryParts buf len N
    (RecordParts buf len N A
      (RecordParts buf len N A
        (RecordParts buf len N A (fun _ => True) (wordAt buf len 10).toNat)
        (wordAt buf len 8).toNat)
      (wordAt buf len 6).toNat)
    (wordAt buf len 4).toNat headerLength

end Parts

/-! ### The constructor visits the parts -/

/-- What `Φ` says of the readers. -/
structure Leaves (Φ : ∀ α : Type, (Nat → Traced Nat α) → Prop) (buf : Block) (len : UInt16)
    (N : UInt16 → Prop) (A : Nat → Nat → Prop) : Prop where
  name : ∀ i out, Φ _ (fun n => getLabel n buf len i out) ↔ N i
  word : ∀ i, Φ _ fun _ => get16 buf len i
  dword : ∀ i, Φ _ fun _ => get32 buf len i
  address : ∀ i n, 0 < n → (Φ _ (fun _ => derefs buf n i) ↔ A i n)

variable {Φ : ∀ α : Type, (Nat → Traced Nat α) → Prop} {N : UInt16 → Prop}
  {A : Nat → Nat → Prop} {K : UInt16 → Prop} {α : Type}

theorem split_name (hΦ : Splits Φ) (hl : Leaves Φ buf len N A) (i : UInt16) (o : Buffer)
    {g : UInt32 × Buffer → Nat → Traced Nat α} (hg : ∀ a, Growing (g a))
    (hK : ∀ r out, Φ _ (g (r, out)) ↔ K r.toUInt16) :
    Φ _ (fun n => getLabel n buf len i o >>= fun a => g a n) ↔
      N i ∧ ∀ L, NameLength buf len i L → K L := by
  rw [hΦ.bind (growing_getLabel i o) hg, hl.name]
  refine and_congr_right fun _ => ⟨?_, ?_⟩
  · intro h L hL
    obtain ⟨r, out, hr, rfl⟩ := hL.gives o
    exact (hK r out).mp (h _ hr)
  · rintro h ⟨r, out⟩ hr
    exact (hK r out).mpr (h _ (getLabel_length hr))

theorem split_word (hΦ : Splits Φ) (hl : Leaves Φ buf len N A) (i : UInt16)
    {g : UInt16 → Nat → Traced Nat α} (hg : ∀ a, Growing (g a)) :
    Φ _ (fun n => get16 buf len i >>= fun a => g a n) ↔ Φ _ (g (wordAt buf len i)) := by
  rw [hΦ.bind (growing_const _) hg]
  simp only [hl.word, true_and, gives_const, get16_val, Option.some.injEq, forall_eq']

theorem growing_mDNSQuery (c : UInt16) : Growing fun n => mDNSQuery n buf len c :=
  growing_bind (growing_getLabel _ _) fun _ => growing_bind (growing_const _) fun _ =>
    growing_bind (growing_const _) fun _ => growing_const _

theorem split_query (hΦ : Splits Φ) (hl : Leaves Φ buf len N A) (c : UInt16)
    {g : MDNSQuery → Nat → Traced Nat α} (hg : ∀ q, Growing (g q))
    (hK : ∀ q, Φ _ (g q) ↔ K q.length) :
    Φ _ (fun n => mDNSQuery n buf len c >>= fun q => g q n) ↔
      N c ∧ ∀ L, NameLength buf len c L → K (L + 4) := by
  simp only [mDNSQuery, bind_assoc, pure_bind]
  rw [split_name (K := fun L => K (L + 4)) hΦ hl]
  · intro a
    exact growing_bind (growing_const _) fun _ => growing_bind (growing_const _) fun _ => hg _
  · intro r out
    rw [split_word hΦ hl, split_word hΦ hl, hK]
    · exact fun _ => hg _
    · exact fun _ => growing_bind (growing_const _) fun _ => hg _

theorem growing_readQueries (num : Nat) (c : UInt16) :
    Growing fun n => readQueries n buf len num c := by
  induction num generalizing c with
  | zero => exact growing_const _
  | succ num ih =>
    exact growing_bind (growing_mDNSQuery c) fun _ => growing_bind (ih _) fun _ => growing_const _

theorem split_queries (hΦ : Splits Φ) (hl : Leaves Φ buf len N A) (num : Nat) (c : UInt16)
    {g : List MDNSQuery × UInt16 → Nat → Traced Nat α} (hg : ∀ q, Growing (g q))
    (hK : ∀ qs c', Φ _ (g (qs, c')) ↔ K c') :
    Φ _ (fun n => readQueries n buf len num c >>= fun q => g q n) ↔
      QueryParts buf len N K num c := by
  induction num generalizing c g with
  | zero =>
    simp only [readQueries, pure_bind, QueryParts]
    exact hK _ _
  | succ num ih =>
    simp only [readQueries, bind_assoc, pure_bind, QueryParts]
    rw [split_query (K := fun l => QueryParts buf len N K num (c + l)) hΦ hl]
    · exact fun q => growing_bind (growing_readQueries _ _) fun _ => hg _
    · intro q
      exact ih _ (fun _ => hg _) fun qs c' => hK _ _

variable (ntop6 : Bytes → Bytes)

theorem growing_recordData (type at_ : UInt16) (ptr : Nat) :
    Growing fun n => recordData ntop6 n buf len type at_ ptr := by
  unfold recordData
  dsimp only
  split_ifs
  · exact growing_bind (growing_const _) fun _ => growing_const _
  · exact growing_bind (growing_getLabel _ _) fun _ => growing_const _
  · exact growing_bind (growing_const _) fun _ => growing_bind (growing_const _) fun _ =>
      growing_bind (growing_const _) fun _ => growing_bind (growing_getLabel _ _) fun _ =>
        growing_const _
  · exact growing_bind (growing_const _) fun _ => growing_const _
  · exact growing_const _

theorem split_address (hΦ : Splits Φ) (hl : Leaves Φ buf len N A) (n i : Nat) (hn : 0 < n)
    {g : Bytes → Nat → Traced Nat α} (hg : ∀ a, Growing (g a)) {k : Prop}
    (hK : ∀ bs, Φ _ (g bs) ↔ k) :
    Φ _ (fun m => derefs buf n i >>= fun a => g a m) ↔ A i n ∧ k := by
  rw [hΦ.bind (growing_const _) hg, hl.address i n hn]
  simp only [gives_const, derefs_val, Option.some.injEq, forall_eq', hK]

theorem split_recordData (hΦ : Splits Φ) (hl : Leaves Φ buf len N A) (type at_ : UInt16)
    (ptr : Nat) {g : Buffer × Option (UInt16 × UInt16 × UInt16) → Nat → Traced Nat α}
    (hg : ∀ q, Growing (g q)) {k : Prop} (hK : ∀ q, Φ _ (g q) ↔ k) :
    Φ _ (fun n => recordData ntop6 n buf len type at_ ptr >>= fun q => g q n) ↔
      DataParts N A type at_ ptr ∧ (DataEnds buf len type at_ → k) := by
  unfold recordData DataParts DataEnds
  dsimp only
  split_ifs
  · simp only [bind_assoc, pure_bind, forall_const]
    exact split_address hΦ hl _ _ (by omega) (fun _ => hg _) fun _ => hK _
  · simp only [bind_assoc, pure_bind, forall_exists_index]
    exact split_name (K := fun _ => k) hΦ hl _ _ (fun _ => hg _) fun _ _ => hK _
  · simp only [bind_assoc, pure_bind, forall_exists_index]
    rw [split_word hΦ hl, split_word hΦ hl, split_word hΦ hl]
    · exact split_name (K := fun _ => k) hΦ hl _ _ (fun _ => hg _) fun _ _ => hK _
    · exact fun _ => growing_bind (growing_getLabel _ _) fun _ => hg _
    · exact fun _ => growing_bind (growing_const _) fun _ =>
        growing_bind (growing_getLabel _ _) fun _ => hg _
    · exact fun _ => growing_bind (growing_const _) fun _ => growing_bind (growing_const _)
        fun _ => growing_bind (growing_getLabel _ _) fun _ => hg _
  · simp only [bind_assoc, pure_bind, forall_const]
    exact split_address hΦ hl _ _ (by omega) (fun _ => hg _) fun _ => hK _
  · simp only [pure_bind, true_and, forall_const]
    exact hK _

theorem growing_readData (dl type at_ : UInt16) (ptr : Nat) :
    Growing fun n => readData ntop6 n buf len dl type at_ ptr := by
  unfold readData
  split_ifs
  · exact growing_bind (growing_recordData _ _ _ _) fun _ => growing_const _
  · exact growing_const _

theorem split_readData (hΦ : Splits Φ) (hl : Leaves Φ buf len N A) (dl type at_ : UInt16)
    (ptr : Nat) {g : Option Buffer × Option (UInt16 × UInt16 × UInt16) → Nat → Traced Nat α}
    (hg : ∀ q, Growing (g q)) {k : Prop} (hK : ∀ q, Φ _ (g q) ↔ k) :
    Φ _ (fun n => readData ntop6 n buf len dl type at_ ptr >>= fun q => g q n) ↔
      (dl > 0 → DataParts N A type at_ ptr) ∧ ((dl > 0 → DataEnds buf len type at_) → k) := by
  unfold readData
  by_cases h : dl > 0
  · simp only [h, if_true, bind_assoc, pure_bind, forall_const]
    exact split_recordData ntop6 hΦ hl _ _ _ (fun _ => hg _) fun _ => hK _
  · simp only [h, if_false, pure_bind, false_imp_iff, true_and, forall_const]
    exact hK _

theorem growing_mDNSRecord (c : UInt16) (t : RecordType) :
    Growing fun n => mDNSRecord ntop6 n buf len c t :=
  growing_bind (growing_getLabel _ _) fun _ => growing_bind (growing_const _) fun _ =>
    growing_bind (growing_const _) fun _ => growing_bind (growing_const _) fun _ =>
      growing_bind (growing_const _) fun _ => growing_bind (growing_readData _ _ _ _ _)
        fun _ => growing_const _

theorem split_record (hΦ : Splits Φ) (hl : Leaves Φ buf len N A) (c : UInt16) (t : RecordType)
    {g : MDNSRecord → Nat → Traced Nat α} (hg : ∀ q, Growing (g q))
    (hK : ∀ q, Φ _ (g q) ↔ K q.length) :
    Φ _ (fun n => mDNSRecord ntop6 n buf len c t >>= fun q => g q n) ↔
      N c ∧ ∀ L, NameLength buf len c L →
        (wordAt buf len (L + c + 8) > 0 →
          DataParts N A (wordAt buf len (L + c)) (L + c + 10) (c.toNat + L.toNat + 10)) ∧
        ((wordAt buf len (L + c + 8) > 0 →
            DataEnds buf len (wordAt buf len (L + c)) (L + c + 10)) →
          K (L + 10 + wordAt buf len (L + c + 8))) := by
  have hdata (at_ dl type : UInt16) (ptr : Nat)
      (q : Option Buffer × Option (UInt16 × UInt16 × UInt16) → MDNSRecord) :
      Growing fun n => readData ntop6 n buf len dl type at_ ptr >>= fun x => g (q x) n :=
    growing_bind (growing_readData _ _ _ _ _) fun _ => hg _
  simp only [mDNSRecord, bind_assoc, pure_bind]
  refine split_name (K := fun L => _) hΦ hl _ _ ?_ ?_
  · intro a
    exact growing_bind (growing_const _) fun _ => growing_bind (growing_const _) fun _ =>
      growing_bind (growing_const _) fun _ => growing_bind (growing_const _) fun _ =>
        hdata _ _ _ _ _
  · intro r out
    rw [split_word hΦ hl, split_word hΦ hl, hΦ.bind (growing_const _)]
    · simp only [hl.dword, true_and, gives_const, get32_val, Option.some.injEq, forall_eq']
      rw [split_word hΦ hl]
      · exact split_readData ntop6 hΦ hl _ _ _ _ (fun _ => hg _) fun _ => hK _
      · exact fun _ => hdata _ _ _ _ _
    · exact fun _ => growing_bind (growing_const _) fun _ => hdata _ _ _ _ _
    · exact fun _ => growing_bind (growing_const _) fun _ => growing_bind (growing_const _)
        fun _ => hdata _ _ _ _ _
    · exact fun _ => growing_bind (growing_const _) fun _ => growing_bind (growing_const _)
        fun _ => growing_bind (growing_const _) fun _ => hdata _ _ _ _ _

theorem growing_readRecords (t : RecordType) (num : Nat) (c : UInt16) :
    Growing fun n => readRecords ntop6 n buf len t num c := by
  induction num generalizing c with
  | zero => exact growing_const _
  | succ num ih =>
    exact growing_bind (growing_mDNSRecord ntop6 c t) fun _ =>
      growing_bind (ih _) fun _ => growing_const _

theorem split_records (hΦ : Splits Φ) (hl : Leaves Φ buf len N A) (t : RecordType) (num : Nat)
    (c : UInt16) {g : List MDNSRecord × UInt16 → Nat → Traced Nat α} (hg : ∀ q, Growing (g q))
    (hK : ∀ rs c', Φ _ (g (rs, c')) ↔ K c') :
    Φ _ (fun n => readRecords ntop6 n buf len t num c >>= fun q => g q n) ↔
      RecordParts buf len N A K num c := by
  induction num generalizing c g with
  | zero =>
    simp only [readRecords, pure_bind, RecordParts]
    exact hK _ _
  | succ num ih =>
    simp only [readRecords, bind_assoc, pure_bind, RecordParts]
    refine split_record (K := fun l => RecordParts buf len N A K num (c + l)) ntop6 hΦ hl c t
      (fun q => growing_bind (growing_readRecords ntop6 _ _ _) fun _ => hg _) fun q => ?_
    exact ih _ (fun _ => hg _) fun rs c' => hK _ _

theorem growing_readSections (h : MDNSHeader) :
    Growing fun n => readSections ntop6 n buf len h :=
  growing_bind (growing_readQueries _ _) fun _ => growing_bind (growing_readRecords _ _ _ _)
    fun _ => growing_bind (growing_readRecords _ _ _ _) fun _ =>
      growing_bind (growing_readRecords _ _ _ _) fun _ => growing_const _

theorem split_readSections (hΦ : Splits Φ) (hl : Leaves Φ buf len N A) (h : MDNSHeader) :
    Φ _ (fun n => readSections ntop6 n buf len h) ↔
      QueryParts buf len N
        (RecordParts buf len N A
          (RecordParts buf len N A
            (RecordParts buf len N A (fun _ => True) h.addNum.toNat)
            h.authNum.toNat)
          h.answerNum.toNat)
        h.queryNum.toNat headerLength := by
  unfold readSections
  refine split_queries hΦ hl _ _ (fun _ => growing_bind (growing_readRecords _ _ _ _) fun _ =>
    growing_bind (growing_readRecords _ _ _ _) fun _ =>
      growing_bind (growing_readRecords _ _ _ _) fun _ => growing_const _) fun qs c => ?_
  refine split_records ntop6 hΦ hl _ _ _ (fun _ => growing_bind (growing_readRecords _ _ _ _)
    fun _ => growing_bind (growing_readRecords _ _ _ _) fun _ => growing_const _) fun as c => ?_
  refine split_records ntop6 hΦ hl _ _ _ (fun _ => growing_bind (growing_readRecords _ _ _ _)
    fun _ => growing_const _) fun bs c => ?_
  exact split_records ntop6 hΦ hl _ _ _ (fun _ => growing_const _)
    fun ds c => iff_true_intro (hΦ.ret _)

/-- What holds of the constructor is what holds at every part of the packet. -/
theorem split_parsePacket (hΦ : Splits Φ) (hl : Leaves Φ buf len N A) :
    Φ _ (fun n => parsePacket ntop6 n buf len) ↔ EveryPart buf len N A := by
  have hh : Φ _ fun _ => mDNSHeader buf len 0 := by
    have hw (i : UInt16) {g : UInt16 → Traced Nat MDNSHeader}
        (h : ∀ w, Φ _ fun _ => g w) : Φ _ fun _ => get16 buf len i >>= g :=
      (split_word (g := fun w _ => g w) hΦ hl i fun _ => growing_const _).mpr (h _)
    exact hw _ fun _ => hw _ fun _ => hw _ fun _ => hw _ fun _ => hw _ fun _ => hw _ fun _ =>
      hΦ.ret _
  unfold parsePacket
  rw [hΦ.bind (growing_const _) fun _ => growing_readSections ntop6 _]
  simp only [hh, true_and, gives_const, mDNSHeader_val, Option.some.injEq, forall_eq']
  exact split_readSections ntop6 hΦ hl _

end Flingd.Mdns
