import Flingd.Base.Framing
import Flingd.Platform.Flint
import Flingd.Platform.PlatformPal

/-! When the client on Android decodes what the daemon sends. It takes the size of a message
for a number of UTF-16 units, and forgets it when the message is not yet there. -/
namespace Flingd.Platform.Flint
open Outcome
variable {f f' : Flint} {m : Text} {ms todo done rest : List Text} {b : Bytes}
variable {out : List JavaString} {x : JavaString} {n : Nat}

def wire (m : Text) : Bytes := frame (utf8 m)

def Ascii (m : Text) : Prop := ∀ c ∈ m, c.toNat < 128

instance (m : Text) : Decidable (Ascii m) := List.decidableBAll (fun c : Char => c.toNat < 128) m

/-! ### A size -/

theorem digit_decimal {c : UInt8} (h : 48 ≤ c.toNat ∧ c.toNat ≤ 57) :
    digit c.toUInt16 = some (c.toNat - 48) := by
  have hzero : 48 ≤ c.toNat ∧ c.toNat < 58 := by omega
  simp [digit, digitZeros, UInt8.toNat_toUInt16, hzero]

theorem mapM_digit {s : Bytes} (h : ∀ c ∈ s, 48 ≤ c.toNat ∧ c.toNat ≤ 57) :
    (s.map UInt8.toUInt16).mapM digit = some (s.map fun c => c.toNat - 48) := by
  induction s with
  | nil => rfl
  | cons c s ih =>
    obtain ⟨hc, hs⟩ := List.forall_mem_cons.mp h
    rw [List.map_cons, List.mapM_cons, digit_decimal hc, ih hs]
    rfl

theorem parseInt_decimal (h : n < 2 ^ 31) :
    parseInt ((decimal n).map UInt8.toUInt16) = some (n : Int) := by
  have hdigits := mapM_digit (s := decimal n) fun c hc => mem_decimal hc
  have hne : (decimal n).map UInt8.toUInt16 ≠ [] := by simpa using decimal_ne_nil n
  have hvalue : ((decimal n).map fun c => c.toNat - 48).foldl (fun n d => 10 * n + d) 0 = n := by
    rw [List.foldl_map]
    exact digitsValue_decimal n
  have hsign : javaSign ((decimal n).map UInt8.toUInt16) =
      (false, (decimal n).map UInt8.toUInt16) := by
    have hunit (u : UInt16) (hu : u ∈ (decimal n).map UInt8.toUInt16) : u ≠ 45 ∧ u ≠ 43 := by
      obtain ⟨c, hc, rfl⟩ := List.mem_map.mp hu
      have hc := mem_decimal hc
      rw [← UInt8.toNat_toUInt16] at hc
      constructor
      · intro he
        rw [he] at hc
        exact absurd hc.1 (by decide)
      · intro he
        rw [he] at hc
        exact absurd hc.1 (by decide)
    unfold javaSign
    split
    · rename_i hs
      exact absurd rfl (hunit 45 (by rw [hs]; exact List.mem_cons_self)).1
    · rename_i hs
      exact absurd rfl (hunit 43 (by rw [hs]; exact List.mem_cons_self)).2
    · rfl
  simp only [parseInt, hsign, hdigits, hvalue, Bool.false_eq_true, if_false]
  exact if_pos ⟨hne, by omega, by omega⟩

/-! ### The loop -/

theorem drain_of_pass {f' : Flint} (h : f.pass = .ok (some f')) : f.drain = f'.drain := by
  rw [drain_eq, h]

/-- A complete header is taken off, and the message behind it if there are enough units. -/
theorem pass_header (hpos : 0 < n) (hlt : n < 2 ^ 31)
    (hf : f.mReaderBuffer = (decimal n).map UInt8.toUInt16 ++ 58 :: x) :
    f.pass = if n ≤ x.length then .ok (some ⟨x.drop n, f.processed ++ [x.take n]⟩)
      else .error .stringIndexOutOfBounds := by
  have hcolon : ∀ u ∈ (decimal n).map UInt8.toUInt16, ¬ u = 58 := by
    rintro u hu rfl
    obtain ⟨c, hc, he⟩ := List.mem_map.mp hu
    have hc := mem_decimal hc
    rw [← UInt8.toNat_toUInt16, he] at hc
    exact absurd hc.2 (by decide)
  have hindex : indexOf 58 f.mReaderBuffer = (decimal n).length := by
    have hfind : f.mReaderBuffer.findIdx? (· = 58) = some (decimal n).length := by
      rw [hf, List.findIdx?_append, List.findIdx?_eq_none_iff.mpr (by simpa using hcolon)]
      simp [List.findIdx?_cons]
    rw [indexOf, hfind]
  have hlen := List.length_pos_iff.mpr (decimal_ne_nil n)
  have hsize : f.mReaderBuffer.take (decimal n).length = (decimal n).map UInt8.toUInt16 := by
    rw [hf, List.take_left' (by rw [List.length_map])]
  have hrest : f.mReaderBuffer.drop ((decimal n).length + 1) = x := by
    rw [hf, ← List.drop_drop, List.drop_left' (by rw [List.length_map]), List.drop_one,
      List.tail_cons]
  simp only [pass, hindex, Int.toNat_natCast, hsize, hrest, parseInt_decimal hlt, Option.getD_some]
  refine (if_pos (by omega)).trans ((if_pos (by omega)).trans ?_)
  by_cases hn : n ≤ x.length
  · rw [if_pos hn, substring, if_pos ⟨le_refl 0, by omega, by omega⟩]
    rfl
  · rw [if_neg hn, substring, if_neg (by omega)]
    rfl

theorem drain_no_colon (h : 58 ∉ f.mReaderBuffer) : f.drain = .ok f := by
  have hindex : indexOf 58 f.mReaderBuffer = -1 := by
    have hfind : f.mReaderBuffer.findIdx? (· = 58) = none := by
      rw [List.findIdx?_eq_none_iff]
      intro u hu
      rw [decide_eq_false_iff_not]
      rintro rfl
      exact h hu
    rw [indexOf, hfind]
  have hpass : f.pass = .ok none := by
    simp only [pass, hindex]
    rfl
  rw [drain_eq, hpass]

/-- What is processed stays, and no message is longer than an `int`. -/
theorem drain_grows (h : f.drain = .ok f') : ∃ new, f'.processed = f.processed ++ new ∧
    ∀ content ∈ new, content.length < 2 ^ 31 := by
  induction f using drain.induct with
  | case1 f f₁ hpass ih =>
    rw [drain_of_pass hpass] at h
    obtain ⟨new, hnew, hshort⟩ := ih h
    rcases (pass_some hpass).2 with hsame | ⟨content, hlt, hsame⟩
    · exact ⟨new, by rw [hnew, hsame], hshort⟩
    · refine ⟨content :: new, by rw [hnew, hsame, List.append_assoc]; rfl, ?_⟩
      exact List.forall_mem_cons.mpr ⟨hlt, hshort⟩
  | case2 f hpass =>
    rw [drain_eq, hpass] at h
    cases h
    exact ⟨[], by rw [List.append_nil], fun _ h => absurd h List.not_mem_nil⟩
  | case3 f e hpass =>
    rw [drain_eq, hpass] at h
    cases h

/-! ### A part of the stream -/

theorem decodeUtf8_header (b : Bytes) : decodeUtf8 (decimal n ++ 58 :: b) =
    (decimal n).map UInt8.toUInt16 ++ 58 :: decodeUtf8 b := by
  have hascii : ∀ c ∈ decimal n ++ [58], c < 128 := by
    intro c hc
    rw [UInt8.lt_iff_toNat_lt]
    rcases List.mem_append.mp hc with hc | hc
    · exact lt_of_le_of_lt (mem_decimal hc).2 (by decide)
    · rw [List.mem_singleton.mp hc]
      decide
  have hdecode := decodeUtf8_ascii hascii b
  rw [List.append_assoc, List.map_append, List.append_assoc] at hdecode
  exact hdecode

theorem wire_append (m : Text) (b : Bytes) :
    wire m ++ b = decimal (utf8 m).length ++ 58 :: (utf8 m ++ b) := by
  rw [wire, frame, List.append_assoc, List.cons_append]

theorem length_ascii (h : Ascii m) : (utf16 m).length = (utf8 m).length := by
  induction m with
  | nil => rfl
  | cons c m ih =>
    obtain ⟨hc, hm⟩ := List.forall_mem_cons.mp h
    have hlen := (length_utf16Char c).2.mpr hc
    simp only [utf16, utf8, List.flatMap_cons, List.length_append,
      String.length_utf8EncodeChar] at ih ⊢
    rw [hlen, ih hm]

theorem length_utf8_pos (h : m ≠ []) : 0 < (utf8 m).length := by
  obtain ⟨c, m, rfl⟩ := List.exists_cons_of_ne_nil h
  have := c.utf8Size_pos
  rw [utf8, List.flatMap_cons, List.length_append, String.length_utf8EncodeChar]
  omega

/-- What is begun of a message without its colon is a part of its size. -/
theorem begun_digits (hb : Begun wire todo b) (hcolon : 58 ∉ b) :
    ∀ c ∈ b, 48 ≤ c.toNat ∧ c.toNat ≤ 57 := by
  cases todo with
  | nil =>
    obtain rfl : b = [] := hb
    exact fun c hc => absurd hc List.not_mem_nil
  | cons m todo =>
    rcases prefix_append_cases hb.1 with hle | ⟨q, rfl, hq⟩
    · exact fun c hc => mem_decimal (hle.subset hc)
    · cases q with
      | nil => simpa using fun c hc => mem_decimal hc
      | cons c q =>
        obtain ⟨rfl, -⟩ := List.cons_prefix_cons.mp hq
        exact absurd (List.mem_append_right _ List.mem_cons_self) hcolon

theorem decodeUtf8_digits (hb : ∀ c ∈ b, 48 ≤ c.toNat ∧ c.toNat ≤ 57) (x : Bytes) :
    decodeUtf8 (b ++ x) = decodeUtf8 b ++ decodeUtf8 x := by
  have hascii : ∀ c ∈ b, c < 128 := fun c hc => by
    rw [UInt8.lt_iff_toNat_lt]
    exact lt_of_le_of_lt (hb c hc).2 (by decide)
  have hself := decodeUtf8_ascii hascii []
  rw [List.append_nil, decodeUtf8_nil, List.append_nil] at hself
  rw [decodeUtf8_ascii hascii, hself]

theorem no_colon_of_begun (hb : Begun wire todo b) (hcolon : 58 ∉ b) : 58 ∉ decodeUtf8 b := by
  have hdigits := begun_digits hb hcolon
  have hself := decodeUtf8_ascii (s := b) (fun c hc => by
    rw [UInt8.lt_iff_toNat_lt]
    exact lt_of_le_of_lt (hdigits c hc).2 (by decide)) []
  rw [List.append_nil, decodeUtf8_nil, List.append_nil] at hself
  rw [hself]
  intro h
  obtain ⟨c, hc, he⟩ := List.mem_map.mp h
  have hc := (hdigits c hc).2
  rw [← UInt8.toNat_toUInt16, he] at hc
  exact absurd hc (by decide)

/-- A complete message in ASCII is processed. -/
theorem drain_ascii (hne : m ≠ []) (hlt : (utf8 m).length < 2 ^ 31) (hm : Ascii m) (b : Bytes) :
    drain ⟨decodeUtf8 (wire m ++ b), out⟩ = drain ⟨decodeUtf8 b, out ++ [utf16 m]⟩ := by
  have hpass := pass_header (f := ⟨decodeUtf8 (wire m ++ b), out⟩) (length_utf8_pos hne) hlt
    (by rw [wire_append, decodeUtf8_header])
  rw [decodeUtf8_text, ← length_ascii hm, if_pos (by rw [List.length_append]; omega),
    List.drop_left, List.take_left] at hpass
  rw [drain_of_pass hpass]

/-- Another complete message is not processed as it is, nor is anything for it later. -/
theorem drain_other (hne : m ≠ []) (hlt : (utf8 m).length < 2 ^ 31) (hm : ¬ Ascii m)
    (h : drain ⟨decodeUtf8 (wire m ++ b), out⟩ = .ok f') (all : List JavaString) :
    ¬ f'.processed <+: out ++ utf16 m :: all := by
  have hpass := pass_header (f := ⟨decodeUtf8 (wire m ++ b), out⟩) (length_utf8_pos hne) hlt
    (by rw [wire_append, decodeUtf8_header])
  split at hpass
  · rename_i hle
    rw [drain_of_pass hpass] at h
    obtain ⟨new, hnew, -⟩ := drain_grows h
    rw [hnew, List.append_assoc, List.prefix_append_right_inj, List.singleton_append]
    intro hall
    obtain ⟨hcontent, -⟩ := List.cons_prefix_cons.mp hall
    have hlen := congrArg List.length hcontent
    rw [List.length_take, min_eq_left hle] at hlen
    exact hm (length_utf16_eq hlen.symm)
  · rw [drain_eq, hpass] at h
    cases h

/-- A header whose message is not complete ends the loop with an exception. -/
theorem drain_incomplete (hlt : (utf8 m).length < 2 ^ 31) (hb : b <+: wire m ∧ b ≠ wire m)
    (hcolon : 58 ∈ b) : drain ⟨decodeUtf8 b, out⟩ = .error .stringIndexOutOfBounds := by
  rcases prefix_append_cases hb.1 with hle | ⟨q, rfl, hq⟩
  · exact absurd (mem_decimal (hle.subset hcolon)).2 (by decide)
  · cases q with
    | nil =>
      rw [List.append_nil] at hcolon
      exact absurd (mem_decimal hcolon).2 (by decide)
    | cons c body =>
      obtain ⟨rfl, hbody⟩ := List.cons_prefix_cons.mp hq
      have hshort : body.length < (utf8 m).length := by
        refine lt_of_le_of_ne hbody.length_le fun hlen => hb.2 ?_
        rw [hbody.eq_of_length hlen]
        rfl
      have hle := decodeUtf8_length_le body
      have hpass := pass_header (f := ⟨decodeUtf8 (decimal (utf8 m).length ++ 58 :: body), out⟩)
        (by omega) hlt (decodeUtf8_header body)
      rw [if_neg (by omega)] at hpass
      rw [drain_eq, hpass]

def Small (m : Text) : Prop := m ≠ [] ∧ (utf8 m).length < 2 ^ 31

/-- The loop takes complete messages in ASCII, and leaves a part of a size. -/
theorem drain_good (hsmall : ∀ m ∈ done, Small m) (hb : Begun wire rest b)
    (hascii : ∀ m ∈ done, Ascii m) (hcolon : 58 ∉ b) :
    drain ⟨decodeUtf8 (done.flatMap wire ++ b), out⟩ =
      .ok ⟨decodeUtf8 b, out ++ done.map utf16⟩ := by
  induction done generalizing out with
  | nil =>
    rw [List.flatMap_nil, List.nil_append, List.map_nil, List.append_nil]
    exact drain_no_colon (no_colon_of_begun hb hcolon)
  | cons m done ih =>
    obtain ⟨⟨hne, hlt⟩, hsmall⟩ := List.forall_mem_cons.mp hsmall
    obtain ⟨hm, hascii⟩ := List.forall_mem_cons.mp hascii
    rw [List.flatMap_cons, List.append_assoc, drain_ascii hne hlt hm, ih hsmall hascii,
      List.append_assoc]
    rfl

/-- Where one is not in ASCII, or a message is cut, something else is processed. -/
theorem drain_bad (hsmall : ∀ m ∈ done ++ rest, Small m) (hb : Begun wire rest b)
    (hbad : ¬ ((∀ m ∈ done, Ascii m) ∧ 58 ∉ b))
    (h : drain ⟨decodeUtf8 (done.flatMap wire ++ b), out⟩ = .ok f') :
    ¬ f'.processed <+: out ++ (done ++ rest).map utf16 := by
  induction done generalizing out with
  | nil =>
    have hcolon : 58 ∈ b := by
      by_contra hno
      exact hbad ⟨fun m hm => absurd hm List.not_mem_nil, hno⟩
    cases rest with
    | nil =>
      rw [show b = [] from hb] at hcolon
      exact absurd hcolon List.not_mem_nil
    | cons m rest =>
      have hlt := (hsmall m (by simp)).2
      rw [List.flatMap_nil, List.nil_append, drain_incomplete hlt hb hcolon] at h
      cases h
  | cons m done ih =>
    obtain ⟨⟨hne, hlt⟩, hsmall⟩ := List.forall_mem_cons.mp hsmall
    rw [List.flatMap_cons, List.append_assoc] at h
    by_cases hm : Ascii m
    · rw [drain_ascii hne hlt hm] at h
      have hrest := ih hsmall (fun hgood => hbad ⟨List.forall_mem_cons.mpr ⟨hm, hgood.1⟩, hgood.2⟩) h
      rwa [List.append_assoc] at hrest
    · exact drain_other hne hlt hm h _

/-! ### Runs -/

/-- No read ends between the colon of a size and the end of the message. `b` is what was read
before of the messages `todo`. -/
def EndsOutside (todo : List Text) (b : Bytes) (reads : List Bytes) : Prop :=
  ∀ before, before <+: reads → ∀ done rest b', todo = done ++ rest →
    b ++ before.flatten = done.flatMap wire ++ b' → Begun wire rest b' → 58 ∉ b'

theorem endsOutside_cons {read b' : Bytes} {reads : List Bytes} (hcolon : 58 ∉ b)
    (hb : b ++ read = done.flatMap wire ++ b') (hbegun : Begun wire rest b') :
    EndsOutside (done ++ rest) b (read :: reads) ↔ 58 ∉ b' ∧ EndsOutside rest b' reads := by
  constructor
  · intro h
    refine ⟨h [read] (by simp) done rest b' rfl (by simpa using hb) hbegun, ?_⟩
    rintro before hbefore d r b'' rfl hsplit hbegun'
    refine h (read :: before) (List.cons_prefix_cons.mpr ⟨rfl, hbefore⟩) (done ++ d) r b''
      (List.append_assoc _ _ _).symm ?_ hbegun'
    rw [List.flatten_cons, ← List.append_assoc, hb, List.append_assoc, hsplit, List.flatMap_append,
      List.append_assoc]
  · rintro ⟨hcolon', h⟩ before hbefore d r b'' hlists hsplit hbegun'
    cases before with
    | nil =>
      rw [List.flatten_nil, List.append_nil] at hsplit
      intro hmem
      exact hcolon (by rw [hsplit]; exact List.mem_append_right _ hmem)
    | cons piece before =>
      obtain ⟨rfl, hle⟩ := List.cons_prefix_cons.mp hbefore
      rw [List.flatten_cons, ← List.append_assoc, hb] at hsplit
      obtain ⟨d', rfl, rfl, hsplit⟩ := begun_extends hlists hsplit hbegun'
      exact h before hle d' r b'' rfl hsplit hbegun'

theorem run_cons (f : Flint) (hf : 58 ∉ f.mReaderBuffer) (read : Bytes) (reads : List Bytes) :
    f.run (read :: reads) = (f.parseMessage (decodeUtf8 read)) >>= fun f => f.run reads := by
  by_cases hread : read = []
  · subst hread
    have hsame : f.parseMessage (decodeUtf8 []) = .ok f := by
      rw [parseMessage, decodeUtf8_nil, List.append_nil]
      exact drain_no_colon hf
    rw [hsame]
    rfl
  · rw [run, received, List.filter_cons_of_pos (by simpa using hread)]
    rfl

/-- Each message is processed once, in order, and there is no exception. -/
def Decodes (f : Flint) (reads : List Bytes) (all : List JavaString) : Prop :=
  ∃ f', f.run reads = .ok f' ∧ f'.processed = all

theorem run_grows {reads : List Bytes} (h : f.run reads = .ok f') :
    ∃ new, f'.processed = f.processed ++ new ∧ ∀ content ∈ new, content.length < 2 ^ 31 := by
  refine foldlM_keeps (I := fun g => ∃ new, g.processed = f.processed ++ new ∧
    ∀ content ∈ new, content.length < 2 ^ 31) ?_ ⟨[], by simp, by simp⟩ h
  rintro g g' message - ⟨new, hnew, hshort⟩ hstep
  obtain ⟨more, hmore, hshort'⟩ := drain_grows hstep
  refine ⟨new ++ more, by rw [hmore, hnew, List.append_assoc], fun content hcontent => ?_⟩
  exact (List.mem_append.mp hcontent).elim (hshort content) (hshort' content)

theorem decodes_iff {reads : List Bytes} (hsmall : ∀ m ∈ todo, Small m) (hb : Begun wire todo b)
    (hcolon : 58 ∉ b) (hcut : b ++ reads.flatten = todo.flatMap wire) :
    Decodes ⟨decodeUtf8 b, out⟩ reads (out ++ todo.map utf16) ↔
      (∀ m ∈ todo, Ascii m) ∧ EndsOutside todo b reads := by
  induction reads generalizing todo b out with
  | nil =>
    rw [List.flatten_nil, List.append_nil] at hcut
    obtain rfl := hb.eq_nil hcut
    obtain rfl : b = [] := hcut
    refine iff_of_true ⟨_, rfl, by rw [List.map_nil, List.append_nil]⟩ ⟨by simp, ?_⟩
    rintro before hbefore done rest b' hlists hsplit -
    obtain rfl := List.prefix_nil.mp hbefore
    have hb' : b' = [] := (List.append_eq_nil_iff.mp hsplit.symm).2
    rw [hb']
    exact List.not_mem_nil
  | cons read reads ih =>
    have hwire : ∀ m ∈ todo, wire m ≠ [] := fun m _ => by simp [wire, frame]
    rw [List.flatten_cons, ← List.append_assoc] at hcut
    obtain ⟨done, rest, b', rfl, hp, hb'⟩ := exists_begun hwire ⟨_, hcut⟩
    have hparse : parseMessage ⟨decodeUtf8 b, out⟩ (decodeUtf8 read) =
        drain ⟨decodeUtf8 (done.flatMap wire ++ b'), out⟩ := by
      rw [parseMessage, ← decodeUtf8_digits (begun_digits hb hcolon), hp]
    rw [endsOutside_cons hcolon hp hb', Decodes,
      run_cons _ (no_colon_of_begun hb hcolon), hparse]
    by_cases hgood : (∀ m ∈ done, Ascii m) ∧ 58 ∉ b'
    · have hdone : ∀ m ∈ done, Small m := fun m hm => hsmall m (List.mem_append_left _ hm)
      have hrest : b' ++ reads.flatten = rest.flatMap wire := by
        rw [hp, List.flatMap_append, List.append_assoc] at hcut
        exact List.append_cancel_left hcut
      have hih : Decodes ⟨decodeUtf8 b', out ++ done.map utf16⟩ reads
          (out ++ done.map utf16 ++ rest.map utf16) ↔
            (∀ m ∈ rest, Ascii m) ∧ EndsOutside rest b' reads :=
        ih (fun m hm => hsmall m (List.mem_append_right _ hm)) hb' hgood.2 hrest
      rw [List.append_assoc, ← List.map_append] at hih
      rw [drain_good hdone hb' hgood.1 hgood.2, ok_bind]
      refine hih.trans ⟨fun h => ⟨?_, hgood.2, h.2⟩, fun h => ⟨?_, h.2.2⟩⟩
      · exact fun m hm => (List.mem_append.mp hm).elim (hgood.1 m) (h.1 m)
      · exact fun m hm => h.1 m (List.mem_append_right _ hm)
    · refine iff_of_false ?_ fun h => hgood ⟨fun m hm => h.1 m (List.mem_append_left _ hm), h.2.1⟩
      rintro ⟨f', hrun, hall⟩
      obtain ⟨f₁, hdrain, hrun⟩ := bind_eq_ok.mp hrun
      obtain ⟨new, hnew, -⟩ := run_grows hrun
      exact drain_bad hsmall hb' hgood hdrain ⟨new, hnew.symm.trans hall⟩

/-- The client decodes a stream when every message is in ASCII and no read ends between the
colon of its size and its end. It decodes no other stream whose messages beyond ASCII have a
size that is an `int`. -/
theorem reads_decoded_iff {reads : List Bytes} (hms : ∀ m ∈ ms, m ≠ [])
    (hcut : reads.flatten = ms.flatMap wire) :
    ((∀ m ∈ ms, Ascii m ∧ (utf8 m).length < 2 ^ 31) ∧ EndsOutside ms [] reads →
      Decodes start reads (ms.map utf16)) ∧
    ((∀ m ∈ ms, ¬ Ascii m → (utf8 m).length < 2 ^ 31) → Decodes start reads (ms.map utf16) →
      (∀ m ∈ ms, Ascii m ∧ (utf8 m).length < 2 ^ 31) ∧ EndsOutside ms [] reads) := by
  have hbegun : Begun wire ms [] := by
    cases ms with
    | nil => rfl
    | cons m ms => exact ⟨List.nil_prefix, by simp [wire, frame]⟩
  have hiff (hsmall : ∀ m ∈ ms, (utf8 m).length < 2 ^ 31) :
      Decodes start reads (ms.map utf16) ↔ (∀ m ∈ ms, Ascii m) ∧ EndsOutside ms [] reads := by
    have h : Decodes ⟨decodeUtf8 [], []⟩ reads ([] ++ ms.map utf16) ↔
        (∀ m ∈ ms, Ascii m) ∧ EndsOutside ms [] reads :=
      decodes_iff (fun m hm => ⟨hms m hm, hsmall m hm⟩) hbegun List.not_mem_nil hcut
    rwa [decodeUtf8_nil] at h
  constructor
  · rintro ⟨hgood, hends⟩
    exact (hiff fun m hm => (hgood m hm).2).mpr ⟨fun m hm => (hgood m hm).1, hends⟩
  · intro hint h
    -- A message in ASCII has as many units as bytes, and what is processed is no longer than
    -- an `int`.
    have hsmall : ∀ m ∈ ms, (utf8 m).length < 2 ^ 31 := by
      intro m hm
      by_cases hascii : Ascii m
      · obtain ⟨f', hrun, hall⟩ := h
        obtain ⟨new, hnew, hshort⟩ := run_grows hrun
        rw [← length_ascii hascii]
        refine hshort _ ?_
        have hall : new = ms.map utf16 := hnew.symm.trans hall
        rw [hall]
        exact List.mem_map_of_mem hm
      · exact hint m hm hascii
    obtain ⟨hascii, hends⟩ := (hiff hsmall).mp h
    exact ⟨fun m hm => ⟨hascii m hm, hsmall m hm⟩, hends⟩

theorem reads_decoded_iff_hello : EndsOutside ["hello".toList] [] [str "5", str ":hello"] := by
  obtain ⟨f, hf, hall⟩ := yields_iff.mp (show yields (start.run [str "5", str ":hello"])
    (fun f => f.processed = ["hello".toList].map utf16) = true by decide +kernel)
  exact ((reads_decoded_iff (by decide) (by decide)).2 (by decide) ⟨f, hf, of_decide_eq_true hall⟩).2

/-- A message that is read after its header is lost, and so is one beyond ASCII. -/
theorem late_message_lost :
    ([str "5:", str "hello"].flatten = ["hello".toList].flatMap wire ∧
      ¬ Decodes start [str "5:", str "hello"] (["hello".toList].map utf16)) ∧
    ([wire "é".toList].flatten = ["é".toList].flatMap wire ∧
      ¬ Decodes start [wire "é".toList] (["é".toList].map utf16)) := by
  have hfails {reads : List Bytes} {all : List JavaString}
      (h : yields (start.run reads) (fun _ => true) = false) : ¬ Decodes start reads all := by
    rintro ⟨f, hf, -⟩
    rw [hf] at h
    cases h
  exact ⟨⟨by decide, hfails (by decide +kernel)⟩, ⟨by decide, hfails (by decide +kernel)⟩⟩

end Flingd.Platform.Flint
