import Flingd.Mdns.Wire
import Flingd.Mdns.Packet

/-! What the bytes of a packet make it contain: the names, with their lengths
on the wire, and from the header on the chain of questions and records. The
constructor of `MDNSIncoming` visits these parts and no others. -/
namespace Flingd.Mdns
open Traced Reader

variable (buf : Block) (len : UInt16)

/-- The name from offset `i` has the given parts and takes `k` bytes there, up
to its root or its first pointer. -/
inductive NameAt : UInt16 → List Bytes → Nat → Prop where
  | root {i} (h : itemAt buf len i = .root) : NameAt i [] 1
  | label {i n parts k} (h : itemAt buf len i = .label n)
      (rest : NameAt (i + 1 + UInt16.ofNat n) parts k) :
      NameAt i (bytesAt buf n (i+1) :: parts) (1+n+k)
  | pointer {i t parts k} (h : itemAt buf len i = .pointer t) (rest : NameAt t parts k) :
      NameAt i parts 2

/-- The name from offset `i` runs into a pointer out of the packet. -/
inductive FailsAt : UInt16 → Prop where
  | here {i} (h : itemAt buf len i = .bad) : FailsAt i
  | later {i j} (h : nextOffset buf len i = some j) (rest : FailsAt j) : FailsAt i

/-- What `name_len` and `protocol_len` hold after the name at `i`: its length
in 16 bits, or `0xFFFF` when it does not decode. -/
inductive NameLength (i : UInt16) : UInt16 → Prop where
  | decoded {parts k} (hi : i ≤ len) (h : NameAt buf len i parts k) :
      NameLength i (UInt16.ofNat k)
  | failed (h : len < i ∨ FailsAt buf len i) : NameLength i 0xFFFF

variable {buf len}

variable (buf len) in
def headerAt : MDNSHeader :=
  ⟨wordAt buf len 0, wordAt buf len 2, wordAt buf len 4, wordAt buf len 6, wordAt buf len 8,
    wordAt buf len 10⟩

theorem mDNSHeader_val : (mDNSHeader buf len 0).val = some (headerAt buf len) := by
  simp [mDNSHeader, get16_val, headerAt]

theorem derefs_val (n i : Nat) : (derefs buf n i).val = some ((List.range' i n).map buf) := rfl

/-! ### Names and `getLabel` -/

/-- What `getLabel` writes for a name: every part with a dot after it. -/
def dotted (parts : List Bytes) : Bytes := parts.flatMap (· ++ [46])

theorem dropLast_dotted {parts : List Bytes} (h : parts ≠ []) :
    (dotted parts).dropLast = join 46 parts := by
  induction parts with
  | nil => exact absurd rfl h
  | cons p ps ih =>
    cases ps with
    | nil => simp [dotted, join, List.intercalate]
    | cons q qs =>
      have hne : dotted (q :: qs) ≠ [] := by simp [dotted]
      have hd : dotted (p :: q :: qs) = (p ++ [46]) ++ dotted (q :: qs) := by simp [dotted]
      rw [hd, List.dropLast_append_of_ne_nil hne, ih (by simp)]
      simp [join, List.intercalate]

theorem length_dotted {parts : List Bytes} (h : parts ≠ []) :
    ((dotted parts).length : Int) - 1 = (join 46 parts).length := by
  have hpos : (dotted parts).length ≠ 0 := by
    obtain ⟨p, ps, rfl⟩ := List.exists_cons_of_ne_nil h
    simp [dotted]
  rw [← dropLast_dotted h, List.length_dropLast]
  omega

theorem loop_name {i : UInt16} {parts : List Bytes} {k : Nat} (h : NameAt buf len i parts k) :
    ∀ s : LabelState, s.index = i → ∃ out : Buffer,
      Gives (fun n => loop (labelPass buf len) n s)
        (UInt32.ofNat (s.count k).retLen, out.deleteEnd) ∧
      out.data = s.out.data ++ dotted parts ∧
      out.index = s.out.index + (dotted parts).length := by
  induction h with
  | root h =>
    intro s hs
    subst hs
    exact ⟨s.out, ⟨1, by simp [loop, labelPass_root h]⟩, by simp [dotted], by simp [dotted]⟩
  | @label i n parts k h rest ih =>
    intro s hs
    subst hs
    obtain ⟨s', hv, hx, ht⟩ := labelPass_label h
    obtain ⟨out, ⟨m, hm⟩, hd, hi⟩ := ih s' hx
    refine ⟨out, ⟨m+1, ?_⟩, ?_, ?_⟩
    · simp only [loop, val_bind, hv, Option.bind_some, hm]
      have hr : (s'.count k).retLen = (s.count (1+n+k)).retLen := by
        simp only [LabelState.count_retLen, ht.retLen, ht.jump]
        split <;> omega
      rw [hr]
    · rw [hd, ht.data]
      simp [dotted]
    · rw [hi, ht.outIndex]
      simp [dotted]
      omega
  | @pointer i t parts k h rest ih =>
    intro s hs
    subst hs
    obtain ⟨out, ⟨m, hm⟩, hd, hi⟩ := ih { s.count 2 with jump := true, index := t } rfl
    refine ⟨out, ⟨m+1, ?_⟩, by simpa using hd, by simpa using hi⟩
    simp only [loop, val_bind, labelPass_pointer h, Option.bind_some, hm]
    simp [LabelState.count_retLen]

theorem loop_fails {i : UInt16} (h : FailsAt buf len i) : ∀ s : LabelState, s.index = i → ∃ out,
    Gives (fun n => loop (labelPass buf len) n s) (0xFFFFFFFF, out) := by
  induction h with
  | here h =>
    intro s hs
    subst hs
    exact ⟨s.out, 1, by simp [loop, labelPass_bad h]⟩
  | @later i j hn rest ih =>
    intro s hs
    subst hs
    obtain ⟨s', hv, hs'⟩ | ⟨r, hv, hs'⟩ := labelPass_follows s
    · obtain ⟨out, m, hm⟩ := ih s' (Option.some.inj (hs'.symm.trans hn))
      exact ⟨out, m+1, by simp [loop, hv, hm]⟩
    · rw [hs'] at hn
      cases hn

/-- A name whose walk ends has a reading. -/
theorem name_or_fails {i : UInt16} (h : Ends (nextOffset buf len) i) :
    (∃ parts k, NameAt buf len i parts k) ∨ FailsAt buf len i := by
  obtain ⟨n, hn⟩ := h
  induction n generalizing i with
  | zero => simp [walk] at hn
  | succ n ih =>
    rw [walk_succ] at hn
    cases hi : itemAt buf len i with
    | root => exact .inl ⟨_, _, .root hi⟩
    | bad => exact .inr (.here hi)
    | label m =>
      have hx : nextOffset buf len i = some (i + 1 + UInt16.ofNat m) := by simp [nextOffset, hi]
      obtain ⟨parts, k, hk⟩ | hf := ih (by simpa [hx] using hn)
      · exact .inl ⟨_, _, .label hi hk⟩
      · exact .inr (.later hx hf)
    | pointer t =>
      have hx : nextOffset buf len i = some t := by simp [nextOffset, hi]
      obtain ⟨parts, k, hk⟩ | hf := ih (by simpa [hx] using hn)
      · exact .inl ⟨_, _, .pointer hi hk⟩
      · exact .inr (.later hx hf)

theorem growing_getLabel (i : UInt16) (out : Buffer) :
    Growing fun n => getLabel n buf len i out := by
  unfold getLabel
  split
  · exact growing_const _
  · exact growing_loop _ _

/-- `getLabel` returns exactly when the walk of the name ends. -/
theorem getLabel_returns_iff (i : UInt16) (out : Buffer) :
    Returns (fun n => getLabel n buf len i out) ↔ len < i ∨ Ends (nextOffset buf len) i := by
  unfold getLabel
  by_cases h : len < i
  · simp [h, Returns, gives_const]
  · simp only [gt_iff_lt, h, if_false, false_or]
    exact loop_returns_iff labelPass_follows _

theorem getLabel_name {i : UInt16} {parts : List Bytes} {k : Nat} (hi : i ≤ len)
    (h : NameAt buf len i parts k) (o : Buffer) : ∃ out : Buffer,
      Gives (fun n => getLabel n buf len i o) (UInt32.ofNat k, out.deleteEnd) ∧
      out.data = o.data ++ dotted parts ∧ out.index = o.index + (dotted parts).length := by
  obtain ⟨out, hg, hd, hx⟩ := loop_name h ⟨i, false, 0, o⟩ rfl
  refine ⟨out, ?_, hd, hx⟩
  unfold getLabel
  simpa [UInt16.not_lt.mpr hi, LabelState.count_retLen] using hg

theorem getLabel_failed {i : UInt16} (h : len < i ∨ FailsAt buf len i) (o : Buffer) : ∃ out,
    Gives (fun n => getLabel n buf len i o) (0xFFFFFFFF, out) := by
  unfold getLabel
  by_cases hi : len < i
  · exact ⟨o, by simp [hi, gives_const]⟩
  · obtain ⟨out, hg⟩ := loop_fails (h.resolve_left hi) ⟨i, false, 0, o⟩ rfl
    exact ⟨out, by simpa [hi] using hg⟩

/-- The 16-bit length that `getLabel` gives is the length of the name. -/
theorem getLabel_length {i : UInt16} {o out : Buffer} {r : UInt32}
    (h : Gives (fun n => getLabel n buf len i o) (r, out)) : NameLength buf len i r.toUInt16 := by
  have hw := (getLabel_returns_iff i o).mp ⟨_, h⟩
  by_cases hi : len < i
  · obtain ⟨out', hg⟩ := getLabel_failed (.inl hi : len < i ∨ FailsAt buf len i) o
    cases (growing_getLabel i o).unique h hg
    exact .failed (.inl hi)
  · obtain ⟨parts, k, hk⟩ | hf := name_or_fails (hw.resolve_left hi)
    · obtain ⟨out', hg, -⟩ := getLabel_name (UInt16.not_lt.mp hi) hk o
      cases (growing_getLabel i o).unique h hg
      simpa using NameLength.decoded (UInt16.not_lt.mp hi) hk
    · obtain ⟨out', hg⟩ := getLabel_failed (.inr hf : len < i ∨ FailsAt buf len i) o
      cases (growing_getLabel i o).unique h hg
      exact .failed (.inr hf)

theorem NameLength.gives {i L : UInt16} (h : NameLength buf len i L) (o : Buffer) :
    ∃ r out, Gives (fun n => getLabel n buf len i o) (r, out) ∧ r.toUInt16 = L := by
  cases h with
  | decoded hi h =>
    obtain ⟨out, hg, -⟩ := getLabel_name hi h o
    exact ⟨_, _, hg, by simp⟩
  | failed h =>
    obtain ⟨out, hg⟩ := getLabel_failed h o
    exact ⟨_, _, hg, rfl⟩

end Flingd.Mdns
