import Mathlib.Data.List.Lex
import Mathlib.Data.List.TakeWhile
import Mathlib.Data.List.Infix
import Mathlib.Data.UInt

/-! `std::string` as a list of bytes, with the few operations of the C and
Boost libraries that the daemon uses on it. -/
namespace Flingd

abbrev Bytes := List UInt8

theorem forall_of_all {α : Type} {p : α → Prop} [DecidablePred p] {l : List α}
    (h : l.all (fun a => decide (p a)) = true) : ∀ a ∈ l, p a := by
  simpa using h

def str (s : String) : Bytes := s.toList.map fun c => UInt8.ofNat c.toNat

instance linearOrderUInt8 : LinearOrder UInt8 where
  le_refl a := UInt8.le_refl a
  le_trans _ _ _ := UInt8.le_trans
  le_antisymm _ _ := UInt8.le_antisymm
  lt_iff_le_not_ge a b := by simp only [UInt8.le_iff_toNat_le, UInt8.lt_iff_toNat_lt]; omega
  le_total := UInt8.le_total
  toDecidableLE := inferInstance
  toDecidableEq := inferInstance
  toDecidableLT := inferInstance

/-- `toupper` of the C locale. -/
def toUpper (c : UInt8) : UInt8 := if 97 ≤ c ∧ c ≤ 122 then c - 32 else c

/-- `boost::iequals`. -/
def iequals (a b : Bytes) : Bool := a.map toUpper = b.map toUpper

theorem iequals_iff {a b : Bytes} : iequals a b = true ↔ a.map toUpper = b.map toUpper := by
  simp [iequals]

@[simp] theorem iequals_refl (a : Bytes) : iequals a a = true := by simp [iequals]

theorem iequals_comm (a b : Bytes) : iequals a b = iequals b a := by
  simp only [iequals, eq_comm]

/-- Equal ids match the same keys. -/
theorem iequals_congr {a b : Bytes} (h : iequals a b = true) : iequals a = iequals b := by
  funext k
  rw [iequals_iff] at h
  simp only [iequals, h]

theorem iequals_disjoint {a b : Bytes} (h : iequals a b = false) (k : Bytes)
    (hk : iequals a k = true) : iequals b k = false := by
  cases hb : iequals b k
  · rfl
  · rw [iequals_iff] at hk hb
    have hab : iequals a b = true := iequals_iff.mpr (hk.trans hb.symm)
    rw [hab] at h
    cases h

theorem iequals_other {a b c : Bytes} (hbc : iequals b c = false) (hab : iequals a b = true) :
    iequals a c = false := by
  rw [iequals_comm] at hab ⊢
  exact iequals_disjoint hbc a hab

/-- `boost::istarts_with`. -/
def istartsWith (s word : Bytes) : Bool := iequals (s.take word.length) word

/-- What is left of a text without the occurrences of a word; `skip` bytes belong to one. -/
def ieraseFrom (word : Bytes) : Nat → Bytes → Bytes
  | _, [] => []
  | skip+1, _ :: s => ieraseFrom word skip s
  | 0, c :: s =>
    if istartsWith (c :: s) word then ieraseFrom word (word.length - 1) s
    else c :: ieraseFrom word 0 s

/-- `boost::ierase_all`. -/
def ieraseAll (s word : Bytes) : Bytes := if word = [] then s else ieraseFrom word 0 s

/-- What `c_str` makes of a string that is copied from it. -/
def cStr (s : Bytes) : Bytes := s.takeWhile (· != 0)

theorem cStr_of_not_mem {s : Bytes} (h : 0 ∉ s) : cStr s = s := by
  refine List.takeWhile_eq_self_iff.mpr fun c hc => ?_
  rw [bne_iff_ne]
  rintro rfl
  exact h hc

theorem zero_notMem_cStr (s : Bytes) : 0 ∉ cStr s := by
  intro h
  have hne : ((0 : UInt8) != 0) = true := List.mem_takeWhile_imp (p := (· != 0)) h
  exact absurd hne (by decide)

theorem cStr_cStr (s : Bytes) : cStr (cStr s) = cStr s := cStr_of_not_mem (zero_notMem_cStr s)

/-- `strlen` on the buffer of a `std::string`: it stops at the first NUL. -/
def strlen (s : Bytes) : Nat := (s.takeWhile (· != 0)).length

theorem strlen_eq_length {s : Bytes} (h : 0 ∉ s) : strlen s = s.length :=
  congrArg List.length (cStr_of_not_mem h)

/-- `boost::split` with one separator: empty parts are kept. -/
def split (sep : UInt8) (s : Bytes) : List Bytes := s.splitOn sep

/-- `boost::join` with a one-byte separator. -/
def join (sep : UInt8) (parts : List Bytes) : Bytes := [sep].intercalate parts

theorem join_split (sep : UInt8) (s : Bytes) : join sep (split sep s) = s :=
  List.intercalate_splitOn sep

theorem split_join {sep : UInt8} {parts : List Bytes} (hs : ∀ p ∈ parts, sep ∉ p)
    (hne : parts ≠ []) : split sep (join sep parts) = parts :=
  List.splitOn_intercalate sep hs hne

/-- A part of a split text has the text's bytes, but no separator. -/
theorem mem_split {sep : UInt8} {s p : Bytes} (h : p ∈ split sep s) :
    sep ∉ p ∧ ∀ c ∈ p, c ∈ s := by
  induction s generalizing p with
  | nil =>
    obtain rfl : p = [] := by simpa [split] using h
    simp
  | cons x s ih =>
    rw [split, List.splitOn_cons_eq_if_modifyHead] at h
    split at h
    · rcases List.mem_cons.mp h with rfl | h
      · simp
      · exact ⟨(ih h).1, fun c hc => List.mem_cons_of_mem _ ((ih h).2 c hc)⟩
    · rename_i hx
      obtain ⟨q, qs, hq⟩ := List.exists_cons_of_ne_nil (List.splitOn_ne_nil sep s)
      rw [hq, List.modifyHead_cons] at h
      rcases List.mem_cons.mp h with rfl | h
      · obtain ⟨h1, h2⟩ := ih (p := q) (by rw [split, hq]; simp)
        have hne : sep ≠ x := by
          rintro rfl
          simp at hx
        refine ⟨by simp [hne, h1], fun c hc => ?_⟩
        exact (List.mem_cons.mp hc).elim (fun h => h ▸ List.mem_cons_self)
          fun h => List.mem_cons_of_mem _ (h2 c h)
      · obtain ⟨h1, h2⟩ := ih (p := p) (by rw [split, hq]; exact List.mem_cons_of_mem _ h)
        exact ⟨h1, fun c hc => List.mem_cons_of_mem _ (h2 c hc)⟩

theorem join_cons_cons (sep : UInt8) (p q : Bytes) (parts : List Bytes) :
    join sep (p :: q :: parts) = p ++ sep :: join sep (q :: parts) := by
  simp [join, List.intercalate]

theorem join_singleton (sep : UInt8) (p : Bytes) : join sep [p] = p := by
  simp [join, List.intercalate]

/-- A text before the first separator is the first part. -/
theorem split_cons {sep : UInt8} {s : Bytes} (h : sep ∉ s) (rest : Bytes) :
    split sep (s ++ sep :: rest) = s :: split sep rest := by
  obtain ⟨part, parts, hrest⟩ : ∃ part parts, split sep rest = part :: parts :=
    List.exists_cons_of_ne_nil (List.splitOn_ne_nil sep rest)
  have hjoin : s ++ sep :: rest = join sep (s :: split sep rest) := by
    rw [hrest, join_cons_cons, ← hrest, join_split]
  rw [hjoin, split_join (List.forall_mem_cons.mpr ⟨h, fun part hpart => (mem_split hpart).1⟩)
    (List.cons_ne_nil _ _)]

theorem join_nil (sep : UInt8) : join sep [] = [] := rfl

/-- Joined texts with the separator between them are the joined parts. -/
theorem join_append (sep : UInt8) {ps qs : List Bytes} (hp : ps ≠ []) (hq : qs ≠ []) :
    join sep (ps ++ qs) = join sep ps ++ sep :: join sep qs := by
  induction ps with
  | nil => exact absurd rfl hp
  | cons p ps ih =>
    cases ps with
    | nil =>
      obtain ⟨q, qs, rfl⟩ := List.exists_cons_of_ne_nil hq
      rw [List.singleton_append, join_cons_cons, join_singleton]
    | cons p' ps =>
      have ih := ih (by simp)
      rw [List.cons_append] at ih
      rw [List.cons_append, List.cons_append, join_cons_cons, ih, join_cons_cons,
        List.append_assoc, List.cons_append]

/-- Joined texts with nothing between them: the two middle parts become one. -/
theorem join_glue (sep : UInt8) (ps qs : List Bytes) (p q : Bytes) :
    join sep (ps ++ (p ++ q) :: qs) = join sep (ps ++ [p]) ++ join sep (q :: qs) := by
  have hglue : join sep ((p ++ q) :: qs) = p ++ join sep (q :: qs) := by
    cases qs with
    | nil => simp only [join_singleton]
    | cons r qs => rw [join_cons_cons, join_cons_cons, List.append_assoc]
  cases ps with
  | nil => rw [List.nil_append, List.nil_append, join_singleton, hglue]
  | cons p' ps =>
    rw [join_append sep (by simp) (by simp), join_append sep (by simp) (by simp), hglue,
      join_singleton, List.append_assoc, List.cons_append]

theorem mem_join {sep c : UInt8} {parts : List Bytes} (h : c ∈ join sep parts) :
    c = sep ∨ ∃ p ∈ parts, c ∈ p := by
  induction parts with
  | nil => simp [join_nil] at h
  | cons p parts ih =>
    cases parts with
    | nil => exact .inr ⟨p, by simp, by simpa [join_singleton] using h⟩
    | cons q parts =>
      rw [join_cons_cons, List.mem_append, List.mem_cons] at h
      rcases h with h | h | h
      · exact .inr ⟨p, by simp, h⟩
      · exact .inl h
      · exact (ih h).imp id fun ⟨r, hr, hc⟩ => ⟨r, List.mem_cons_of_mem _ hr, hc⟩

theorem length_join_cons (sep : UInt8) (p : Bytes) (parts : List Bytes) :
    p.length + (join sep parts).length ≤ (join sep (p :: parts)).length ∧
    (join sep (p :: parts)).length ≤ p.length + 1 + (join sep parts).length := by
  cases parts with
  | nil => simp [join_singleton, join_nil]
  | cons q parts =>
    rw [join_cons_cons, List.length_append, List.length_cons]
    omega

/-- What is taken and what is left stay apart. -/
theorem span_stop {α : Type} {p : α → Bool} {s t : List α} (hs : ∀ c ∈ s, p c = true)
    (ht : ∀ c ∈ t.head?, p c = false) :
    (s ++ t).takeWhile p = s ∧ (s ++ t).dropWhile p = t := by
  rw [List.takeWhile_append_of_pos hs, List.dropWhile_append_of_pos hs]
  cases t with
  | nil => simp
  | cons c t =>
    have hc := ht c rfl
    simp [hc]

end Flingd
