import Flingd.Base.Bytes

/-! What `ierase_all` takes out of a text. -/
namespace Flingd

def IOccurs (word s : Bytes) : Prop := ∃ w, w <:+: s ∧ iequals w word = true

variable {word s t w : Bytes}

theorem length_of_iequals {a b : Bytes} (h : iequals a b = true) : a.length = b.length := by
  simpa using congrArg List.length (iequals_iff.mp h)

theorem istartsWith_iff : istartsWith s word = true ↔ ∃ w, w <+: s ∧ iequals w word = true := by
  constructor
  · exact fun h => ⟨_, List.take_prefix _ _, h⟩
  · rintro ⟨w, hw, h⟩
    unfold istartsWith
    rwa [← length_of_iequals h, ← List.prefix_iff_eq_take.mp hw]

theorem istartsWith_append (h : iequals w word = true) (t : Bytes) : istartsWith (w ++ t) word = true :=
  istartsWith_iff.mpr ⟨w, List.prefix_append w t, h⟩

theorem IOccurs.of_istartsWith (h : istartsWith s word = true) : IOccurs word s := by
  obtain ⟨w, hw, h⟩ := istartsWith_iff.mp h
  exact ⟨w, hw.isInfix, h⟩

theorem IOccurs.mono (h : IOccurs word s) (hst : s <:+: t) : IOccurs word t := by
  obtain ⟨w, hw, h⟩ := h
  exact ⟨w, hw.trans hst, h⟩

theorem iOccurs_cons {c : UInt8} :
    IOccurs word (c :: s) ↔ istartsWith (c :: s) word = true ∨ IOccurs word s := by
  constructor
  · rintro ⟨w, hw, h⟩
    rcases List.infix_cons_iff.mp hw with hpre | hin
    · exact .inl (istartsWith_iff.mpr ⟨w, hpre, h⟩)
    · exact .inr ⟨w, hin, h⟩
  · rintro (h | h)
    · exact .of_istartsWith h
    · exact h.mono (List.suffix_cons c s).isInfix

theorem not_iOccurs_nil (hword : word ≠ []) : ¬ IOccurs word [] := by
  rintro ⟨w, hw, h⟩
  rw [List.infix_nil.mp hw] at h
  exact hword (List.length_eq_zero_iff.mp (length_of_iequals h).symm)

theorem ieraseFrom_drop (word : Bytes) (skip : Nat) (s : Bytes) :
    ieraseFrom word skip s = ieraseFrom word 0 (s.drop skip) := by
  fun_induction ieraseFrom word skip s with
  | case1 skip => rw [List.drop_nil, ieraseFrom]
  | case2 skip c s ih => rw [ih, List.drop_succ_cons]
  | case3 c s h => rw [List.drop_zero, ieraseFrom, if_pos h]
  | case4 c s h => rw [List.drop_zero, ieraseFrom, if_neg h]

theorem ieraseFrom_sublist (word : Bytes) (skip : Nat) (s : Bytes) :
    (ieraseFrom word skip s).Sublist s := by
  fun_induction ieraseFrom word skip s with
  | case1 skip => exact .slnil
  | case2 skip c s ih => exact ih.cons c
  | case3 c s h ih => exact ih.cons c
  | case4 c s h ih => exact ih.cons_cons c

theorem ieraseAll_eq (hword : word ≠ []) (s : Bytes) : ieraseAll s word = ieraseFrom word 0 s :=
  if_neg hword

theorem ieraseAll_sublist (s word : Bytes) : (ieraseAll s word).Sublist s := by
  unfold ieraseAll
  split
  · exact .refl s
  · exact ieraseFrom_sublist word 0 s

/-- An occurrence at the front is taken out. -/
theorem ieraseAll_append (hword : word ≠ []) (h : iequals w word = true) (t : Bytes) :
    ieraseAll (w ++ t) word = ieraseAll t word := by
  have hlen := length_of_iequals h
  have hpos := List.length_pos_iff.mpr hword
  rw [ieraseAll_eq hword, ieraseAll_eq hword]
  cases w with
  | nil => simp at hlen; omega
  | cons c w =>
    have hstarts : istartsWith (c :: (w ++ t)) word = true := istartsWith_append h t
    have hdrop : (w ++ t).drop (word.length - 1) = t := by
      rw [← hlen, List.length_cons, Nat.add_sub_cancel, List.drop_left]
    rw [List.cons_append, ieraseFrom, if_pos hstarts, ieraseFrom_drop, hdrop]

/-- Nothing is taken out just where there is nothing to take out. -/
theorem ieraseAll_eq_self_iff (hword : word ≠ []) : ieraseAll s word = s ↔ ¬ IOccurs word s := by
  rw [ieraseAll_eq hword]
  induction s with
  | nil => exact iff_of_true rfl (not_iOccurs_nil hword)
  | cons c s ih =>
    rw [iOccurs_cons, not_or, ← ih, ieraseFrom]
    split
    · rename_i hstarts
      refine iff_of_false (fun heq => ?_) fun h => h.1 hstarts
      have hle := (ieraseFrom_sublist word (word.length - 1) s).length_le
      have hlen := congrArg List.length heq
      rw [List.length_cons] at hlen
      omega
    · rename_i hstarts
      rw [List.cons.injEq, eq_self, true_and, and_iff_right hstarts]

/-- As long as it was, a text is what it was. -/
theorem ieraseAll_eq_self_of_length (hlen : s.length ≤ (ieraseAll s word).length) :
    ieraseAll s word = s :=
  (ieraseAll_sublist s word).eq_of_length_le hlen

/-- Each occurrence that is taken out makes the text shorter by the word. -/
theorem length_ieraseAll_of_iOccurs (hword : word ≠ []) (h : IOccurs word s) :
    (ieraseAll s word).length + word.length ≤ s.length := by
  rw [ieraseAll_eq hword]
  have hpos := List.length_pos_iff.mpr hword
  induction s with
  | nil => exact absurd h (not_iOccurs_nil hword)
  | cons c s ih =>
    rw [ieraseFrom]
    split
    · rename_i hstarts
      obtain ⟨w, hw, heq⟩ := istartsWith_iff.mp hstarts
      have hwlen := length_of_iequals heq
      have hle := hw.length_le
      have hrest := (ieraseFrom_sublist word 0 (s.drop (word.length - 1))).length_le
      rw [ieraseFrom_drop]
      rw [List.length_drop] at hrest
      rw [List.length_cons] at hle ⊢
      omega
    · rename_i hstarts
      have hin := (iOccurs_cons.mp h).resolve_left hstarts
      have hle := ih hin
      rw [List.length_cons, List.length_cons]
      omega

/-- A word whose first character comes only once stands nowhere across the border to another. -/
theorem ieraseAll_append_word {c : UInt8} {rest : Bytes} (hword : word = c :: rest)
    (honce : ∀ d ∈ rest, toUpper d ≠ toUpper c) (s : Bytes) :
    ieraseAll (s ++ word) word = ieraseAll s word := by
  have hne : word ≠ [] := by simp [hword]
  rw [ieraseAll_eq hne, ieraseAll_eq hne]
  have hstarts (d : UInt8) (s : Bytes) :
      istartsWith (d :: s ++ word) word = istartsWith (d :: s) word := by
    by_cases hlen : word.length ≤ (d :: s).length
    · unfold istartsWith
      rw [List.take_append_of_le_length hlen]
    · have hshort : istartsWith (d :: s) word = false := by
        rw [Bool.eq_false_iff]
        intro h
        obtain ⟨w, hw, heq⟩ := istartsWith_iff.mp h
        have hle := hw.length_le
        rw [length_of_iequals heq] at hle
        exact hlen hle
      rw [hshort, Bool.eq_false_iff]
      intro h
      -- the first character would stand where one of the others does
      have hmap := iequals_iff.mp h
      have hget := congrArg (·[(d :: s).length]?) hmap
      have hlt : (d :: s).length < word.length := Nat.lt_of_not_le hlen
      simp only [List.getElem?_map, List.getElem?_take, hlt, if_true,
        List.getElem?_append_right (le_refl _), Nat.sub_self] at hget
      rw [hword, List.length_cons, List.getElem?_cons_zero, List.getElem?_cons_succ] at hget
      cases hrest : rest[s.length]? with
      | none => rw [hrest] at hget; cases hget
      | some e =>
        rw [hrest, Option.map_some, Option.map_some, Option.some.injEq] at hget
        exact honce e (List.mem_of_getElem? hrest) hget.symm
  have hfrom (skip : Nat) (s : Bytes) (hskip : skip ≤ s.length) :
      ieraseFrom word skip (s ++ word) = ieraseFrom word skip s := by
    induction s generalizing skip with
    | nil =>
      obtain rfl : skip = 0 := Nat.le_zero.mp hskip
      have hself := ieraseAll_append (t := []) hne (iequals_refl word)
      rwa [ieraseAll_eq hne, ieraseAll_eq hne, List.append_nil] at hself
    | cons d s ih =>
      cases skip with
      | succ skip =>
        rw [List.cons_append, ieraseFrom, ieraseFrom, ih skip (Nat.le_of_succ_le_succ hskip)]
      | zero =>
        rw [List.cons_append, ieraseFrom, ieraseFrom, ← List.cons_append, hstarts d s]
        split
        · rename_i hin
          obtain ⟨w, hw, heq⟩ := istartsWith_iff.mp hin
          have hle := hw.length_le
          rw [length_of_iequals heq, List.length_cons] at hle
          exact ih _ (by omega)
        · rw [ih 0 (Nat.zero_le _)]
  exact hfrom 0 s (Nat.zero_le _)

end Flingd
