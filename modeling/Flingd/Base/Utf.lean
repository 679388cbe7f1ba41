import Flingd.Base.Bytes

/-! Text in UTF-8 and in UTF-16. What is no UTF-8 decodes to replacement characters, one for
each part that could still become a character. -/
namespace Flingd

abbrev JavaString := List UInt16

abbrev Text := List Char

def utf8 (s : Text) : Bytes := s.flatMap String.utf8EncodeChar

def utf16Char (c : Char) : JavaString :=
  if c.toNat < 0x10000 then [UInt16.ofNat c.toNat]
  else [UInt16.ofNat (0xD800 + (c.toNat - 0x10000) / 0x400),
    UInt16.ofNat (0xDC00 + (c.toNat - 0x10000) % 0x400)]

def utf16 (s : Text) : JavaString := s.flatMap utf16Char

/-- Whether a second byte may follow a first byte of three or four. -/
def followsLead (lead second : UInt8) : Bool :=
  if lead = 0xE0 then 0xA0 ≤ second ∧ second ≤ 0xBF
  else if lead = 0xED then 0x80 ≤ second ∧ second ≤ 0x9F
  else if lead = 0xF0 then 0x90 ≤ second ∧ second ≤ 0xBF
  else if lead = 0xF4 then 0x80 ≤ second ∧ second ≤ 0x8F
  else 0xE1 ≤ lead ∧ lead ≤ 0xF3 ∧ 0x80 ≤ second ∧ second ≤ 0xBF

def malformedTail : Bytes → Nat
  | lead :: second :: rest =>
    if followsLead lead second = false then 0
    else
      match rest with
      | third :: _ => if 0xF0 ≤ lead ∧ 0x80 ≤ third ∧ third ≤ 0xBF then 2 else 1
      | [] => 1
  | _ => 0

def decodeUtf8 (bytes : Bytes) : JavaString :=
  match bytes with
  | [] => []
  | b :: rest =>
    match ByteArray.utf8DecodeChar? (b :: rest).toByteArray 0 with
    | some c => utf16Char c ++ decodeUtf8 (rest.drop (c.utf8Size - 1))
    | none => 0xFFFD :: decodeUtf8 (rest.drop (malformedTail (b :: rest)))
termination_by bytes.length
decreasing_by all_goals simp only [List.length_drop, List.length_cons]; omega

theorem decodeUtf8_nil : decodeUtf8 [] = [] := by
  unfold decodeUtf8
  rfl

theorem decodeUtf8_char (c : Char) (x : Bytes) :
    decodeUtf8 (String.utf8EncodeChar c ++ x) = utf16Char c ++ decodeUtf8 x := by
  obtain ⟨b, rest, hb⟩ := List.exists_cons_of_ne_nil (String.utf8EncodeChar_ne_nil (c := c))
  have hlen := String.length_utf8EncodeChar c
  rw [hb, List.length_cons] at hlen
  have hdecode : ByteArray.utf8DecodeChar? (b :: (rest ++ x)).toByteArray 0 = some c := by
    rw [← List.cons_append, ← hb, List.toByteArray_append]
    exact ByteArray.utf8DecodeChar?_utf8EncodeChar_append
  rw [hb, List.cons_append, decodeUtf8]
  simp only [hdecode]
  rw [show c.utf8Size - 1 = rest.length by omega, List.drop_left]

/-- Text is decoded whatever follows it. -/
theorem decodeUtf8_text (s : Text) (x : Bytes) :
    decodeUtf8 (utf8 s ++ x) = utf16 s ++ decodeUtf8 x := by
  induction s with
  | nil => rfl
  | cons c s ih =>
    simp only [utf8, utf16, List.flatMap_cons, List.append_assoc] at ih ⊢
    rw [decodeUtf8_char, ih]

/-- Bytes below 128 stand for themselves, whatever follows them. -/
theorem decodeUtf8_ascii {s : Bytes} (hs : ∀ b ∈ s, b < 128) (x : Bytes) :
    decodeUtf8 (s ++ x) = s.map UInt8.toUInt16 ++ decodeUtf8 x := by
  induction s with
  | nil => rfl
  | cons b s ih =>
    obtain ⟨hb, hs⟩ := List.forall_mem_cons.mp hs
    have hlt : b.toNat < 128 := UInt8.lt_iff_toNat_lt.mp hb
    have hchar : (Char.ofNat b.toNat).toNat = b.toNat := by
      rw [Char.ofNat, dif_pos (.inl (by omega))]
      rfl
    have henc : String.utf8EncodeChar (Char.ofNat b.toNat) = [b] := by
      have hval : (Char.ofNat b.toNat).val.toNat = b.toNat := hchar
      simp only [String.utf8EncodeChar, hval]
      rw [if_pos (by omega), UInt8.ofNat_toNat]
    have hunit : utf16Char (Char.ofNat b.toNat) = [b.toUInt16] := by
      rw [utf16Char, hchar, if_pos (by omega), ← UInt8.toNat_toUInt16, UInt16.ofNat_toNat]
    have hstep := decodeUtf8_char (Char.ofNat b.toNat) (s ++ x)
    rw [henc, hunit, List.singleton_append, List.singleton_append, ih hs] at hstep
    rw [List.cons_append, hstep, List.map_cons, List.cons_append]

/-! ### Lengths -/

theorem utf8Size_eq (c : Char) : c.utf8Size =
    if c.toNat ≤ 0x7F then 1 else if c.toNat ≤ 0x7FF then 2 else if c.toNat ≤ 0xFFFF then 3 else 4 := by
  simp only [Char.utf8Size, UInt32.le_iff_toNat_le]
  rfl

theorem length_utf16Char (c : Char) : (utf16Char c).length ≤ c.utf8Size ∧
    ((utf16Char c).length = c.utf8Size ↔ c.toNat < 128) := by
  rw [utf8Size_eq, utf16Char]
  split <;> split <;> simp only [List.length_cons, List.length_nil] <;> grind

theorem length_utf16_le (s : Text) : (utf16 s).length ≤ (utf8 s).length := by
  induction s with
  | nil => exact le_refl 0
  | cons c s ih =>
    have hc := (length_utf16Char c).1
    simp only [utf16, utf8, List.flatMap_cons, List.length_append,
      String.length_utf8EncodeChar] at ih ⊢
    omega

/-- Only ASCII text has a code unit for each byte. -/
theorem length_utf16_eq {s : Text} (h : (utf16 s).length = (utf8 s).length) :
    ∀ c ∈ s, c.toNat < 128 := by
  induction s with
  | nil => exact fun c hc => absurd hc List.not_mem_nil
  | cons c s ih =>
    have hc := (length_utf16Char c).1
    have hle := length_utf16_le s
    simp only [utf16, utf8, List.flatMap_cons, List.length_append,
      String.length_utf8EncodeChar] at h hle ih
    refine List.forall_mem_cons.mpr ⟨(length_utf16Char c).2.mp (by omega), ih (by omega)⟩

theorem decodeUtf8_length_le (bytes : Bytes) : (decodeUtf8 bytes).length ≤ bytes.length := by
  induction bytes using decodeUtf8.induct with
  | case1 =>
    rw [decodeUtf8_nil]
    exact le_refl 0
  | case2 b rest c hc ih =>
    have hlen := (length_utf16Char c).1
    have hsize := ByteArray.le_size_of_utf8DecodeChar?_eq_some hc
    rw [List.length_drop] at ih
    rw [List.size_toByteArray, List.length_cons] at hsize
    unfold decodeUtf8
    simp only [hc, List.length_append, List.length_cons]
    omega
  | case3 b rest hc ih =>
    rw [List.length_drop] at ih
    unfold decodeUtf8
    simp only [hc, List.length_cons]
    omega

/-! ### Beyond ASCII -/

theorem utf8EncodeChar_other {c : Char} (h : 128 ≤ c.toNat) :
    ∀ b ∈ String.utf8EncodeChar c, 128 ≤ b.toNat := by
  have hc : 128 ≤ c.val.toNat := h
  have hbyte {n : Nat} (hn : 128 ≤ n ∧ n < 256) : 128 ≤ (UInt8.ofNat n).toNat := by
    rw [UInt8.toNat_ofNat_of_lt' hn.2]
    exact hn.1
  intro b hb
  simp only [String.utf8EncodeChar] at hb
  rw [if_neg (by omega)] at hb
  split at hb
  · simp only [List.mem_cons, List.not_mem_nil, or_false] at hb
    rcases hb with rfl | rfl <;> exact hbyte (by omega)
  · split at hb
    · simp only [List.mem_cons, List.not_mem_nil, or_false] at hb
      rcases hb with rfl | rfl | rfl <;> exact hbyte (by omega)
    · simp only [List.mem_cons, List.not_mem_nil, or_false] at hb
      rcases hb with rfl | rfl | rfl | rfl <;> exact hbyte (by omega)

theorem utf8EncodeChar_ascii {c : Char} (h : c.toNat < 128) :
    String.utf8EncodeChar c = [UInt8.ofNat c.toNat] := by
  have hc : c.val.toNat < 128 := h
  simp only [String.utf8EncodeChar]
  rw [if_pos (by omega)]
  rfl

theorem utf16Char_other {c : Char} (h : 128 ≤ c.toNat) : ∀ u ∈ utf16Char c, 128 ≤ u.toNat := by
  have hrange : c.toNat < 0xD800 ∨ 0xDFFF < c.toNat ∧ c.toNat < 0x110000 := c.valid
  have hword {n : Nat} (hn : 128 ≤ n ∧ n < 2 ^ 16) : 128 ≤ (UInt16.ofNat n).toNat := by
    rw [UInt16.toNat_ofNat_of_lt' hn.2]
    exact hn.1
  intro u hu
  rw [utf16Char] at hu
  split at hu
  · rw [List.mem_singleton] at hu
    exact hu ▸ hword (by omega)
  · simp only [List.mem_cons, List.not_mem_nil, or_false] at hu
    rcases hu with rfl | rfl <;> exact hword (by omega)

/-- The bytes of a character at the front. -/
theorem utf8DecodeChar_split {x : Bytes} {c : Char}
    (h : ByteArray.utf8DecodeChar? x.toByteArray 0 = some c) :
    ∃ rest, x = String.utf8EncodeChar c ++ rest := by
  obtain ⟨l, hl⟩ := ByteArray.exists_of_utf8DecodeChar?_eq_some h
  have hdata := congrArg (fun b : ByteArray => b.data.toList) hl
  simp only [List.data_toByteArray, ByteArray.data_append, Array.toList_append] at hdata
  exact ⟨l.data.toList, hdata⟩

theorem utf8DecodeChar_join {c : Char} (rest : Bytes) :
    ByteArray.utf8DecodeChar? (String.utf8EncodeChar c ++ rest).toByteArray 0 = some c := by
  rw [List.toByteArray_append]
  exact ByteArray.utf8DecodeChar?_utf8EncodeChar_append

/-- What decodes to no character does not become one by ASCII that follows. -/
theorem utf8DecodeChar_none {b a : UInt8} {x y : Bytes} (ha : a.toNat < 128)
    (h : ByteArray.utf8DecodeChar? (b :: x).toByteArray 0 = none) :
    ByteArray.utf8DecodeChar? (b :: x ++ a :: y).toByteArray 0 = none := by
  by_contra hne
  obtain ⟨c, hc⟩ := Option.ne_none_iff_exists'.mp hne
  obtain ⟨rest, hrest⟩ := utf8DecodeChar_split hc
  rcases List.append_eq_append_iff.mp hrest with ⟨z, hz, hy⟩ | ⟨z, hz, -⟩
  · cases z with
    | nil =>
      rw [List.append_nil] at hz
      have hjoin := utf8DecodeChar_join (c := c) []
      rw [List.append_nil, hz, h] at hjoin
      cases hjoin
    | cons a' z =>
      -- `a` is one of several bytes of the character.
      obtain ⟨rfl, -⟩ := List.cons_eq_cons.mp hy
      have hmem : a ∈ String.utf8EncodeChar c := by simp [hz]
      by_cases hlt : c.toNat < 128
      · have hlen := congrArg List.length hz
        rw [utf8EncodeChar_ascii hlt] at hlen
        simp at hlen
      · have := utf8EncodeChar_other (Nat.le_of_not_lt hlt) a hmem
        omega
  · rw [hz, utf8DecodeChar_join] at h
    cases h

theorem followsLead_ascii {lead a : UInt8} (h : a.toNat < 128) : followsLead lead a = false := by
  have ha : ¬ 0x80 ≤ a := by
    rw [UInt8.le_iff_toNat_le]
    exact Nat.not_le.mpr h
  have ha' : ¬ 0x90 ≤ a := fun h' => ha (UInt8.le_trans (by decide) h')
  have hA : ¬ 0xA0 ≤ a := fun h' => ha (UInt8.le_trans (by decide) h')
  unfold followsLead
  simp only [ha, ha', hA, false_and, and_false, decide_false, ite_self]

theorem malformedTail_le (b : UInt8) (x : Bytes) : malformedTail (b :: x) ≤ x.length := by
  cases x with
  | nil => exact le_refl 0
  | cons second rest =>
    cases rest with
    | nil =>
      simp only [malformedTail]
      split_ifs <;> simp
    | cons third rest =>
      simp only [malformedTail]
      split_ifs <;> simp

theorem malformedTail_ascii {b a : UInt8} {x y : Bytes} (ha : a.toNat < 128) :
    malformedTail (b :: x ++ a :: y) = malformedTail (b :: x) := by
  cases x with
  | nil =>
    simp only [List.cons_append, List.nil_append, malformedTail]
    rw [if_pos (followsLead_ascii ha)]
  | cons second rest =>
    cases rest with
    | nil =>
      have ha : ¬ 0x80 ≤ a := by
        rw [UInt8.le_iff_toNat_le]
        exact Nat.not_le.mpr ha
      simp only [List.cons_append, List.nil_append, malformedTail, ha, false_and, and_false, if_false]
    | cons third rest => rfl

/-- ASCII is decoded to itself, whatever stands before it. -/
theorem decodeUtf8_append {a : UInt8} (ha : a.toNat < 128) (x y : Bytes) :
    decodeUtf8 (x ++ a :: y) = decodeUtf8 x ++ a.toUInt16 :: decodeUtf8 y := by
  induction x using decodeUtf8.induct with
  | case1 =>
    have hone := decodeUtf8_ascii (s := [a])
      (fun b hb => List.mem_singleton.mp hb ▸ UInt8.lt_iff_toNat_lt.mpr ha) y
    rw [decodeUtf8_nil]
    exact hone
  | case2 b rest c hc ih =>
    obtain ⟨tail, htail⟩ := utf8DecodeChar_split hc
    have hdrop : rest.drop (c.utf8Size - 1) = tail := by
      have hpos := Char.utf8Size_pos c
      have hall : (b :: rest).drop c.utf8Size = tail := by
        rw [htail, ← String.length_utf8EncodeChar c, List.drop_left]
      rwa [show c.utf8Size = c.utf8Size - 1 + 1 by omega, List.drop_succ_cons] at hall
    rw [hdrop] at ih
    rw [htail, List.append_assoc, decodeUtf8_char, decodeUtf8_char, ih, List.append_assoc]
  | case3 b rest hc ih =>
    have hnone := utf8DecodeChar_none (y := y) ha hc
    have htail := malformedTail_ascii (b := b) (x := rest) (y := y) ha
    have hle := malformedTail_le b rest
    rw [List.cons_append] at hnone htail
    rw [List.cons_append, decodeUtf8, decodeUtf8]
    simp only [hnone, hc]
    rw [htail, List.drop_append_of_le_length hle, ih, List.cons_append]

/-- Nothing else is decoded to ASCII. -/
theorem decodeUtf8_other {x : Bytes} (hx : ∀ b ∈ x, 128 ≤ b.toNat) :
    ∀ u ∈ decodeUtf8 x, 128 ≤ u.toNat := by
  induction x using decodeUtf8.induct with
  | case1 =>
    rw [decodeUtf8_nil]
    exact fun u hu => absurd hu List.not_mem_nil
  | case2 b rest c hc ih =>
    obtain ⟨tail, htail⟩ := utf8DecodeChar_split hc
    have hchar : 128 ≤ c.toNat := by
      by_contra hlt
      rw [utf8EncodeChar_ascii (Nat.lt_of_not_le hlt)] at htail
      have hlt := Nat.lt_of_not_le hlt
      have hb := hx b List.mem_cons_self
      rw [(List.cons_eq_cons.mp htail).1, UInt8.toNat_ofNat_of_lt' (hlt.trans (by decide))] at hb
      omega
    intro u hu
    rw [decodeUtf8] at hu
    simp only [hc] at hu
    rcases List.mem_append.mp hu with hu | hu
    · exact utf16Char_other hchar u hu
    · exact ih (fun b hb => hx b (List.mem_cons_of_mem _ (List.mem_of_mem_drop hb))) u hu
  | case3 b rest hc ih =>
    intro u hu
    rw [decodeUtf8] at hu
    simp only [hc] at hu
    rcases List.mem_cons.mp hu with rfl | hu
    · decide
    · exact ih (fun b hb => hx b (List.mem_cons_of_mem _ (List.mem_of_mem_drop hb))) u hu

theorem utf8_append (s t : Text) : utf8 (s ++ t) = utf8 s ++ utf8 t := List.flatMap_append

theorem utf8_ascii {s : Text} (h : s.all (·.toNat < 128) = true) :
    utf8 s = s.map fun c => UInt8.ofNat c.toNat := by
  induction s with
  | nil => rfl
  | cons c s ih =>
    rw [List.all_cons, Bool.and_eq_true, decide_eq_true_eq] at h
    rw [utf8, List.flatMap_cons, utf8EncodeChar_ascii h.1]
    exact congrArg _ (ih h.2)

theorem utf8_str {s : String} (h : s.toList.all (·.toNat < 128) = true) :
    utf8 s.toList = str s := utf8_ascii h

theorem utf8_inj {s t : Text} (h : utf8 s = utf8 t) : s = t := by
  induction s generalizing t with
  | nil =>
    cases t with
    | nil => rfl
    | cons c t =>
      rw [utf8, utf8, List.flatMap_nil, List.flatMap_cons, eq_comm, List.append_eq_nil_iff] at h
      exact absurd h.1 String.utf8EncodeChar_ne_nil
  | cons c s ih =>
    cases t with
    | nil =>
      rw [utf8, utf8, List.flatMap_nil, List.flatMap_cons, List.append_eq_nil_iff] at h
      exact absurd h.1 String.utf8EncodeChar_ne_nil
    | cons c' t =>
      simp only [utf8, List.flatMap_cons] at h ih
      have hc := utf8DecodeChar_join (c := c) (s.flatMap String.utf8EncodeChar)
      rw [h, utf8DecodeChar_join, Option.some.injEq] at hc
      subst hc
      rw [ih (List.append_cancel_left h)]

end Flingd
