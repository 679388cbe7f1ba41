import Mathlib.Data.List.DropRight
import Flingd.Base.StdMap
import Flingd.Base.Bytes

/-! Texts of lines: how they are split and trimmed, and a map that is filled by a loop over them. -/
namespace Flingd

/-! ### Blanks -/

section Trim
variable {α : Type} {p : α → Bool}

/-- `boost::trim_copy_if`. -/
def trimIf (p : α → Bool) (s : List α) : List α := (s.dropWhile p).rdropWhile p

def Tight (p : α → Bool) (s : List α) : Prop :=
  (∀ c ∈ s.head?, p c = false) ∧ ∀ c ∈ s.getLast?, p c = false

instance (p : α → Bool) (s : List α) : Decidable (Tight p s) := inferInstanceAs (Decidable (_ ∧ _))

theorem rdropWhile_append_of_pos {s t : List α} (h : ∀ c ∈ t, p c = true) :
    (s ++ t).rdropWhile p = s.rdropWhile p := by
  have hreverse : ∀ c ∈ t.reverse, p c = true := fun c hc => h c (List.mem_reverse.mp hc)
  unfold List.rdropWhile
  rw [List.reverse_append, List.dropWhile_append_of_pos hreverse]

/-- What stands before a mark that is kept is kept. -/
theorem rdropWhile_append_cons {c : α} (hc : p c = false) (s t : List α) :
    (s ++ c :: t).rdropWhile p = s ++ c :: t.rdropWhile p := by
  induction t using List.reverseRecOn with
  | nil =>
    rw [List.rdropWhile_concat_neg _ _ _ (Bool.eq_false_iff.mp hc)]
    rfl
  | append_singleton t x ih =>
    cases hx : p x with
    | true =>
      rw [List.rdropWhile_concat_pos _ _ _ hx, ← ih, ← List.cons_append, ← List.append_assoc,
        List.rdropWhile_concat_pos _ _ _ hx]
    | false =>
      have hneg := Bool.eq_false_iff.mp hx
      rw [List.rdropWhile_concat_neg _ _ _ hneg, ← List.cons_append, ← List.append_assoc,
        List.rdropWhile_concat_neg _ _ _ hneg]

/-- What is not trimmed is in what is left. -/
theorem mem_trimIf {s : List α} {c : α} (h : c ∈ s) (hc : p c = false) : c ∈ trimIf p s := by
  have hdrop (t : List α) (h : c ∈ t) : c ∈ t.dropWhile p := by
    rw [← List.takeWhile_append_dropWhile (p := p) (l := t)] at h
    refine (List.mem_append.mp h).resolve_left fun htake => ?_
    rw [List.mem_takeWhile_imp htake] at hc
    cases hc
  exact List.mem_reverse.mpr (hdrop _ (List.mem_reverse.mpr (hdrop s h)))

end Trim

/-! ### Lines -/

def crlf : Bytes := [13, 10]

/-- `split_regex` at each `\r\n`. -/
def splitCrlf : Bytes → List Bytes
  | 13 :: 10 :: s => [] :: splitCrlf s
  | c :: s => (splitCrlf s).modifyHead (c :: ·)
  | [] => [[]]

def joinCrlf (lines : List Bytes) : Bytes := crlf.intercalate lines

theorem splitCrlf_cons {c : UInt8} {s : Bytes} (h : ¬ crlf <+: c :: s) :
    splitCrlf (c :: s) = (splitCrlf s).modifyHead (c :: ·) := by
  refine splitCrlf.eq_2 c s fun t hc hs => h ?_
  subst hc hs
  exact ⟨t, rfl⟩

/-- A line without the mark ends at the first. -/
theorem splitCrlf_append {line : Bytes} (h : ¬ crlf <:+: line) (rest : Bytes) :
    splitCrlf (line ++ 13 :: 10 :: rest) = line :: splitCrlf rest := by
  induction line with
  | nil => rfl
  | cons c line ih =>
    have hprefix : ¬ crlf <+: c :: (line ++ 13 :: 10 :: rest) := by
      intro hprefix
      obtain ⟨rfl, hnext⟩ := List.cons_prefix_cons.mp hprefix
      cases line with
      | nil => exact absurd (List.cons_prefix_cons.mp hnext).1 (by decide)
      | cons d line =>
        obtain ⟨rfl, -⟩ := List.cons_prefix_cons.mp hnext
        exact h ⟨[], line, rfl⟩
    have hline : ¬ crlf <:+: line := fun hin => h (hin.trans (List.suffix_cons c line).isInfix)
    rw [List.cons_append, splitCrlf_cons hprefix, ih hline]
    rfl

theorem splitCrlf_line {line : Bytes} (h : ¬ crlf <:+: line) : splitCrlf line = [line] := by
  induction line with
  | nil => rfl
  | cons c line ih =>
    rw [splitCrlf_cons fun hprefix => h hprefix.isInfix,
      ih fun hin => h (hin.trans (List.suffix_cons c line).isInfix)]
    rfl

theorem splitCrlf_joinCrlf {lines : List Bytes} (hne : lines ≠ [])
    (h : ∀ line ∈ lines, ¬ crlf <:+: line) : splitCrlf (joinCrlf lines) = lines := by
  induction lines with
  | nil => exact absurd rfl hne
  | cons line lines ih =>
    obtain ⟨hline, hlines⟩ := List.forall_mem_cons.mp h
    cases lines with
    | nil =>
      rw [joinCrlf, List.intercalate_singleton]
      exact splitCrlf_line hline
    | cons line' lines =>
      have hjoin : joinCrlf (line :: line' :: lines) =
          line ++ 13 :: 10 :: joinCrlf (line' :: lines) := by
        simp [joinCrlf, List.intercalate, crlf]
      rw [hjoin, splitCrlf_append hline, ih (List.cons_ne_nil _ _) hlines]

namespace StdMap
variable {κ ν α : Type} [LinearOrder κ] [DecidableEq κ]

theorem scan_insert_same {m : StdMap κ ν} {k : κ} {v : ν} (w : ν) (h : m.scan (k = ·) = some (k, v)) :
    (m.insert k w).scan (k = ·) = some (k, v) :=
  scan_key.mpr (mem_insert_of_mem k w (scan_key.mp h))

/-- Of entries with one key the first that is inserted stays. -/
theorem scan_foldl_insert (key : α → κ) (value : α → ν) (xs : List α) (m : StdMap κ ν) (k : κ) :
    (xs.foldl (fun m x => m.insert (key x) (value x)) m).scan (k = ·) =
      (m.scan (k = ·)).or ((xs.find? fun x => key x = k).map fun x => (k, value x)) := by
  induction xs generalizing m with
  | nil => exact (Option.or_none).symm
  | cons x xs ih =>
    rw [List.foldl_cons, ih, List.find?_cons]
    by_cases hkey : key x = k
    · subst hkey
      simp only [decide_true, Option.map_some]
      cases hm : m.scan (key x = ·) with
      | none => rw [scan_insert_new (value x) hm (decide_eq_true rfl)]; rfl
      | some e =>
        obtain ⟨k, v⟩ := e
        obtain rfl : key x = k := of_decide_eq_true (scan_some hm).2
        rw [scan_insert_same (value x) hm]
        rfl
    · have hother : decide (k = key x) = false := decide_eq_false (Ne.symm hkey)
      have hfind : decide (key x = k) = false := decide_eq_false hkey
      rw [scan_insert_other (p := (k = ·)) (value x) hother, hfind]

end StdMap
end Flingd
