import Flingd.Base.Json

/-! JSON text in another encoding: a change of encoding that leaves ASCII alone can be made
before the text is written, or after. -/
namespace Flingd
namespace Json
open CodeUnit
variable {α β : Type} [CodeUnit α] [CodeUnit β] {g : List α → List β}

/-- A change of encoding that leaves ASCII alone, and makes no ASCII of anything else. -/
structure Transparent (g : List α → List β) : Prop where
  nil : g [] = []
  ascii : ∀ x a y, code a < 128 → g (x ++ a :: y) = g x ++ unit (code a) :: g y
  other : ∀ x, (∀ a ∈ x, 128 ≤ code a) → ∀ b ∈ g x, 128 ≤ code b

theorem Transparent.one (hg : Transparent g) (x y : List α) {n : Nat} (h : n < 128) :
    g (x ++ unit n :: y) = g x ++ unit n :: g y := by
  rw [hg.ascii x _ y (by rwa [code_unit n h]), code_unit n h]

theorem Transparent.cons (hg : Transparent g) (y : List α) {n : Nat} (h : n < 128) :
    g (unit n :: y) = unit n :: g y := by
  have hone := hg.one [] y h
  rwa [hg.nil] at hone

/-- Units below 128 stay what they are. -/
theorem Transparent.units (hg : Transparent g) {codes : List Nat} (h : ∀ n ∈ codes, n < 128)
    (y : List α) : g (codes.map unit ++ y) = codes.map unit ++ g y := by
  induction codes with
  | nil => rfl
  | cons n codes ih =>
    obtain ⟨hn, h⟩ := List.forall_mem_cons.mp h
    rw [List.map_cons, List.cons_append, hg.cons _ hn, ih h]
    rfl

theorem Transparent.units_nil (hg : Transparent g) {codes : List Nat} (h : ∀ n ∈ codes, n < 128) :
    g (codes.map unit) = codes.map unit := by
  have hunits := hg.units h []
  rwa [List.append_nil, hg.nil, List.append_nil] at hunits

/-! ### Strings -/

theorem escapeCode_other {n : Nat} (h : 128 ≤ n) : escapeCode n = [n] := by
  unfold escapeCode
  split
  all_goals first
    | omega
    | rw [if_neg (by omega)]

theorem escapeCode_ascii {n : Nat} (h : n < 128) :
    escapeCode n ≠ [] ∧ ∀ k ∈ escapeCode n, k < 128 := by
  have hhigh := hexDigit_lt (n / 16 % 16) (by omega)
  have hlow := hexDigit_lt (n % 16) (by omega)
  unfold escapeCode
  split
  case h_8 =>
    by_cases hn : n < 32
    · rw [Nat.mod_eq_of_lt (show n / 16 < 16 by omega)] at hhigh
      rw [if_pos hn]
      simpa using ⟨hhigh, hlow⟩
    · rw [if_neg hn]
      simpa using h
  all_goals decide

theorem flatMap_escapeUnit_other {s : List α} (h : ∀ a ∈ s, 128 ≤ code a) :
    s.flatMap escapeUnit = s := by
  induction s with
  | nil => rfl
  | cons a s ih =>
    obtain ⟨ha, hs⟩ := List.forall_mem_cons.mp h
    rw [List.flatMap_cons, ih hs, escapeUnit, escapeCode_other ha, List.map_singleton, unit_code,
      List.singleton_append]

/-- The text is taken apart at what is ASCII; `x` is what stands before it. -/
theorem Transparent.escape_behind (hg : Transparent g) (s : List α) {x : List α}
    (hx : ∀ a ∈ x, 128 ≤ code a) :
    g (x ++ s.flatMap escapeUnit) = (g (x ++ s)).flatMap escapeUnit := by
  induction s generalizing x with
  | nil => rw [List.flatMap_nil, List.append_nil, flatMap_escapeUnit_other (hg.other x hx)]
  | cons a s ih =>
    by_cases ha : code a < 128
    · obtain ⟨hne, hcodes⟩ := escapeCode_ascii ha
      obtain ⟨n, codes, hn⟩ := List.exists_cons_of_ne_nil hne
      obtain ⟨hlt, hcodes⟩ := List.forall_mem_cons.mp (hn ▸ hcodes)
      have hrest := ih (x := []) fun a ha => absurd ha List.not_mem_nil
      rw [List.nil_append, List.nil_append] at hrest
      rw [hg.ascii x a s ha, List.flatMap_append, List.flatMap_cons,
        flatMap_escapeUnit_other (hg.other x hx), List.flatMap_cons, ← hrest, escapeUnit, escapeUnit,
        code_unit _ ha, hn, List.map_cons, List.map_cons, List.cons_append, List.cons_append,
        hg.one _ _ hlt, hg.units hcodes]
    · have hother := ih (x := x ++ [a]) fun b hb => (List.mem_append.mp hb).elim (hx b) fun hb => by
        rw [List.mem_singleton.mp hb]
        omega
      rw [List.append_assoc, List.append_assoc, List.singleton_append, List.singleton_append] at hother
      rw [List.flatMap_cons, escapeUnit, escapeCode_other (by omega), List.map_singleton, unit_code,
        List.singleton_append, hother]

theorem Transparent.quote (hg : Transparent g) (s y : List α) :
    g (quote s ++ y) = Json.quote (g s) ++ g y := by
  have hbody := hg.escape_behind s (x := []) fun a ha => absurd ha List.not_mem_nil
  rw [List.nil_append, List.nil_append] at hbody
  rw [Json.quote, List.append_assoc, List.cons_append, hg.cons _ (by decide), List.singleton_append,
    hg.one _ _ (by decide), hbody, Json.quote, List.append_assoc, List.cons_append,
    List.singleton_append]

/-! ### Documents -/

theorem Transparent.separated (hg : Transparent g) (xs : List (List α)) :
    g (separated xs) = Json.separated (xs.map g) := by
  induction xs using separated.induct with
  | case1 => exact hg.nil
  | case2 x => rfl
  | case3 x xs hne ih =>
    rw [separated.eq_3 x xs hne, List.map_cons, separated.eq_3 _ _ (by simpa using hne),
      hg.one _ _ (by decide), ih]

theorem Transparent.bracketed (hg : Transparent g) (x : List α) {n m : Nat} (hn : n < 128)
    (hm : m < 128) : g (unit n :: x ++ [unit m]) = unit n :: g x ++ [unit m] := by
  rw [List.cons_append, hg.cons _ hn, hg.one x [] hm, hg.nil]
  rfl

theorem Transparent.word (hg : Transparent g) {s : String} (h : ∀ c ∈ s.toList, c.toNat < 128) :
    g (Json.ascii s) = Json.ascii s := by
  have hcodes : ∀ n ∈ s.toList.map Char.toNat, n < 128 := by simpa using h
  have hunits := hg.units_nil hcodes
  rwa [List.map_map, List.map_map] at hunits

mutual

theorem Transparent.write (hg : Transparent g) :
    (j : Json (List α)) → g (write j) = Json.write (j.map g)
  | .null => hg.word (forall_of_all (by decide))
  | .bool true => hg.word (forall_of_all (by decide))
  | .bool false => hg.word (forall_of_all (by decide))
  | .number _ => rfl
  | .string s => by
    have hquote := hg.quote s []
    rwa [List.append_nil, hg.nil, List.append_nil] at hquote
  | .array items => by
    rw [Json.write, hg.bracketed _ (by decide) (by decide), hg.separated, hg.writeItems items]
    rfl
  | .object members => by
    rw [Json.write, hg.bracketed _ (by decide) (by decide), hg.separated, hg.writeMembers members]
    rfl

theorem Transparent.writeItems (hg : Transparent g) : (items : List (Json (List α))) →
    (writeItems items).map g = Json.writeItems (mapItems g items)
  | [] => rfl
  | j :: items => by
    rw [Json.writeItems, mapItems, Json.writeItems, List.map_cons, hg.write j, hg.writeItems items]

theorem Transparent.writeMembers (hg : Transparent g) :
    (members : List (List α × Json (List α))) →
      (writeMembers members).map g = Json.writeMembers (mapMembers g members)
  | [] => rfl
  | (name, j) :: members => by
    rw [Json.writeMembers, mapMembers, Json.writeMembers, List.map_cons, hg.writeMembers members,
      hg.quote, hg.cons _ (by decide), hg.write j]

end

/-! ### Plain documents -/

/-- What holds of every unit, and of all beyond ASCII, holds of every unit afterwards. -/
theorem Transparent.forall_units (hg : Transparent g) {P : Nat → Prop} (hP : ∀ n, 128 ≤ n → P n)
    {s : List α} (h : ∀ a ∈ s, P (code a)) : ∀ b ∈ g s, P (code b) := by
  have hbehind {x : List α} (hx : ∀ a ∈ x, 128 ≤ code a) : ∀ b ∈ g (x ++ s), P (code b) := by
    induction s generalizing x with
    | nil =>
      rw [List.append_nil]
      exact fun b hb => hP _ (hg.other x hx b hb)
    | cons a s ih =>
      obtain ⟨ha, hs⟩ := List.forall_mem_cons.mp h
      by_cases hlt : code a < 128
      · rw [hg.ascii x a s hlt]
        intro b hb
        rcases List.mem_append.mp hb with hb | hb
        · exact hP _ (hg.other x hx b hb)
        · rcases List.mem_cons.mp hb with rfl | hb
          · rwa [code_unit _ hlt]
          · exact ih hs (x := []) (fun a ha => absurd ha List.not_mem_nil) b hb
      · have hother := ih hs (x := x ++ [a]) fun b hb => (List.mem_append.mp hb).elim (hx b)
          fun hb => by
            rw [List.mem_singleton.mp hb]
            omega
        rwa [List.append_assoc, List.singleton_append] at hother
  exact hbehind (x := []) fun a ha => absurd ha List.not_mem_nil

theorem isNumberCode_lt {n : Nat} (h : isNumberCode n = true) : n < 128 := by
  simp only [isNumberCode, isDigitCode, Bool.or_eq_true, decide_eq_true_eq, List.mem_cons,
    List.not_mem_nil, or_false] at h
  omega

theorem Transparent.number (hg : Transparent g) {text : List α}
    (hall : ∀ a ∈ text, isNumberCode (code a) = true) : (g text).map code = text.map code := by
  have hlt : ∀ n ∈ text.map code, n < 128 := by
    intro n hn
    obtain ⟨a, ha, rfl⟩ := List.mem_map.mp hn
    exact isNumberCode_lt (hall a ha)
  have htext : (text.map code).map unit = text := by
    rw [List.map_map]
    exact List.map_id'' unit_code text
  have hunits := hg.units_nil hlt
  rw [htext] at hunits
  rw [hunits, List.map_map]
  exact (List.map_congr_left fun n hn => code_unit n (hlt n hn)).trans (List.map_id _)

theorem Transparent.plain (hg : Transparent g) {j : Json (List α)} (hj : Plain j) :
    Plain (j.map g) := by
  have hnul {s : List α} (h : ∀ a ∈ s, code a ≠ 0) : ∀ b ∈ g s, code b ≠ 0 :=
    hg.forall_units (P := fun n => n ≠ 0) (fun n hn => by omega) h
  induction hj with
  | null => exact .null
  | bool b => exact .bool b
  | @number text h hall =>
    have hcodes := hg.number hall
    refine .number (hcodes ▸ h) fun b hb => ?_
    have hb : code b ∈ text.map code := hcodes ▸ List.mem_map_of_mem hb
    obtain ⟨a, ha, hab⟩ := List.mem_map.mp hb
    exact hab ▸ hall a ha
  | string h => exact .string (hnul h)
  | @array items h ih =>
    rw [map, mapItems_eq]
    refine .array fun j hj => ?_
    obtain ⟨i, hi, rfl⟩ := List.mem_map.mp hj
    exact ih i hi
  | @object members hname h ih =>
    rw [map, mapMembers_eq]
    refine .object (fun m hm => ?_) fun m hm => ?_
    · obtain ⟨k, hk, rfl⟩ := List.mem_map.mp hm
      exact hnul (hname k hk)
    · obtain ⟨k, hk, rfl⟩ := List.mem_map.mp hm
      exact ih k hk

/-- The reading of bytes as UTF-8, whatever they are. -/
theorem transparent_decodeUtf8 : Transparent decodeUtf8 where
  nil := decodeUtf8_nil
  ascii x a y ha := by
    rw [decodeUtf8_append ha x y]
    congr 2
    exact UInt16.toNat_inj.mp (UInt16.toNat_ofNat_of_lt' (lt_trans ha (by decide))).symm
  other x hx := decodeUtf8_other hx

end Json
end Flingd
