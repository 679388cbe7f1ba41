import Flingd.Base.Json

/-! A reader of compact JSON, and that it reads what is written. -/
namespace Flingd
namespace Json
open CodeUnit
variable {α : Type} [CodeUnit α]

/-! ### Reading -/

def hexValue (c : Nat) : Nat := if c < 65 then c - 48 else c - 55

def escaped : Nat → Option Nat
  | 34 => some 34
  | 92 => some 92
  | 47 => some 47
  | 98 => some 8
  | 116 => some 9
  | 110 => some 10
  | 102 => some 12
  | 114 => some 13
  | _ => none

/-- The four digits of an escape by number; those of control characters are known. -/
def readHex : List α → Option (α × List α)
  | h₁ :: h₂ :: h₃ :: h₄ :: s =>
    if code h₁ = 48 ∧ code h₂ = 48 then
      some (unit (hexValue (code h₃) * 16 + hexValue (code h₄)), s)
    else none
  | _ => none

def readEscape : List α → Option (α × List α)
  | [] => none
  | a :: s =>
    if code a = 117 then readHex s else (escaped (code a)).map fun n => (unit n, s)

theorem readHex_shorter {s s' : List α} {a : α} (h : readHex s = some (a, s')) :
    s'.length < s.length := by
  unfold readHex at h
  split at h
  · split at h
    · cases h
      simp only [List.length_cons]
      omega
    · cases h
  · cases h

theorem readEscape_shorter {s s' : List α} {a : α} (h : readEscape s = some (a, s')) :
    s'.length < s.length := by
  cases s with
  | nil => cases h
  | cons b s =>
    rw [readEscape] at h
    split at h
    · have := readHex_shorter h
      rw [List.length_cons]
      omega
    · obtain ⟨n, -, h⟩ := Option.map_eq_some_iff.mp h
      cases h
      exact Nat.lt_succ_self _

def readString (s : List α) : Option (List α × List α) :=
  match s with
  | [] => none
  | a :: s =>
    if code a = 34 then some ([], s)
    else if code a = 92 then
      match _ : readEscape s with
      | some (b, s') => (readString s').map fun (t, s) => (b :: t, s)
      | none => none
    else (readString s).map fun (t, s) => (a :: t, s)
termination_by s.length
decreasing_by
  · have := readEscape_shorter ‹_›
    simp only [List.length_cons]
    omega
  · simp only [List.length_cons]
    omega

/-- One or more things with commas between them, up to the unit that closes their list. -/
def readMany {β : Type} (one : List α → Option (β × List α)) (close : Nat) :
    Nat → List α → Option (List β × List α)
  | 0, _ => none
  | fuel + 1, s =>
    match one s with
    | some (x, c :: s) =>
      if code c = close then some ([x], s)
      else if code c = 44 then (readMany one close fuel s).map fun (xs, s) => (x :: xs, s)
      else none
    | _ => none

def readList {β : Type} (one : List α → Option (β × List α)) (close fuel : Nat) (s : List α) :
    Option (List β × List α) :=
  match s with
  | [] => none
  | c :: rest => if code c = close then some ([], rest) else readMany one close fuel s

def readMember (one : List α → Option (Json (List α) × List α)) :
    List α → Option ((List α × Json (List α)) × List α)
  | [] => none
  | c :: s =>
    if code c = 34 then
      match readString s with
      | some (name, c :: s) =>
        if code c = 58 then (one s).map fun (j, s) => ((name, j), s) else none
      | _ => none
    else none

def readWord (word : List α) (s : List α) : Option (List α) :=
  if (s.take word.length).map code = word.map code then some (s.drop word.length) else none

def readNumber (s : List α) : Option (Json (List α) × List α) :=
  let text := s.takeWhile fun a => isNumberCode (code a)
  if isNumber (text.map code) then some (.number text, s.drop text.length) else none

def readValue : Nat → List α → Option (Json (List α) × List α)
  | 0, _ => none
  | _, [] => none
  | fuel + 1, c :: s =>
    match code c with
    | 110 => (readWord (ascii "null") (c :: s)).map fun s => (.null, s)
    | 116 => (readWord (ascii "true") (c :: s)).map fun s => (.bool true, s)
    | 102 => (readWord (ascii "false") (c :: s)).map fun s => (.bool false, s)
    | 34 => (readString s).map fun (t, s) => (.string t, s)
    | 91 => (readList (readValue fuel) 93 fuel s).map fun (items, s) => (.array items, s)
    | 123 =>
      (readList (readMember (readValue fuel)) 125 fuel s).map fun (members, s) =>
        (.object members, s)
    | _ => readNumber (c :: s)

def read (s : List α) : Option (Json (List α)) :=
  match readValue (s.length + 1) s with
  | some (j, []) => some j
  | _ => none

/-! ### What is written can be read -/

def Stops (s : List α) : Prop := ∀ a rest, s = a :: rest → isNumberCode (code a) = false

theorem stops_unit {n : Nat} (h : n < 128) (hn : isNumberCode n = false) (s : List α) :
    Stops (unit n :: s) := by
  rintro a rest ⟨⟩
  rwa [code_unit n h]

theorem hexValue_hexDigit : ∀ n, n < 16 → hexValue (hexDigit n) = n := by decide

theorem readString_escapeUnit (a : α) (x : List α) :
    readString (escapeUnit a ++ x) = (readString x).map fun (t, s) => (a :: t, s) := by
  have hback {y : List α} (h : readEscape y = some (a, x)) :
      readString (unit 92 :: y) = (readString x).map fun (t, s) => (a :: t, s) := by
    rw [readString, if_neg (by rw [code_unit 92 (by decide)]; decide),
      if_pos (code_unit 92 (by decide))]
    split
    · rename_i h'
      rw [h] at h'
      cases h'
      rfl
    · rename_i h'
      rw [h] at h'
      cases h'
  have hletter {m n : Nat} (hm : m < 128) (hne : m ≠ 117) (hn : escaped m = some n)
      (ha : code a = n) : readEscape (unit m :: x) = some (a, x) := by
    rw [readEscape, code_unit m hm, if_neg hne, hn, Option.map_some, ← ha, unit_code]
  rw [escapeUnit]
  unfold escapeCode
  split
  case h_8 n h34 h92 h8 h9 h10 h12 h13 =>
    by_cases hn : code a < 32
    · have hhigh := hexDigit_lt (code a / 16) (by omega)
      have hlow := hexDigit_lt (code a % 16) (by omega)
      have hvalue : hexValue (hexDigit (code a / 16)) * 16 + hexValue (hexDigit (code a % 16)) =
          code a := by
        rw [hexValue_hexDigit _ (by omega), hexValue_hexDigit _ (by omega), Nat.div_add_mod']
      have hread : readEscape (unit 117 :: unit 48 :: unit 48 :: unit (hexDigit (code a / 16)) ::
          unit (hexDigit (code a % 16)) :: x) = some (a, x) := by
        rw [readEscape, if_pos (code_unit 117 (by decide))]
        simp only [readHex, code_unit 48 (by decide), code_unit _ hhigh, code_unit _ hlow,
          and_self, if_true]
        rw [hvalue, unit_code]
      rw [if_pos hn]
      exact hback hread
    · rw [if_neg hn, List.map_singleton, unit_code, List.singleton_append, readString, if_neg h34,
        if_neg h92]
  all_goals
    rename_i h
    exact hback (hletter (by decide) (by decide) rfl h)

theorem readString_quote (s rest : List α) :
    readString (s.flatMap escapeUnit ++ unit 34 :: rest) = some (s, rest) := by
  induction s with
  | nil => rw [List.flatMap_nil, List.nil_append, readString, if_pos (code_unit 34 (by decide))]
  | cons a s ih =>
    rw [List.flatMap_cons, List.append_assoc, readString_escapeUnit, ih]
    rfl

theorem length_separated (xs : List (List α)) : xs.length ≤ (separated xs).length + 1 ∧
    ∀ x ∈ xs, x.length ≤ (separated xs).length := by
  induction xs using separated.induct with
  | case1 => exact ⟨Nat.zero_le _, fun x hx => absurd hx List.not_mem_nil⟩
  | case2 x => simp [separated]
  | case3 x xs hne ih =>
    rw [separated.eq_3 x xs hne, List.length_append, List.length_cons, List.length_cons]
    refine ⟨by omega, fun y hy => ?_⟩
    rcases List.mem_cons.mp hy with rfl | hy
    · omega
    · have := ih.2 y hy
      omega

theorem readMany_separated {β : Type} {one : List α → Option (β × List α)} {enc : β → List α}
    {close fuel : Nat} {xs : List β} (hclose : close < 128) (hcomma : close ≠ 44)
    (hstop : isNumberCode close = false) (hne : xs ≠ [])
    (hone : ∀ x ∈ xs, ∀ rest, Stops rest → one (enc x ++ rest) = some (x, rest))
    (hfuel : xs.length ≤ fuel) (rest : List α) :
    readMany one close fuel (separated (xs.map enc) ++ unit close :: rest) = some (xs, rest) := by
  induction xs generalizing fuel with
  | nil => exact absurd rfl hne
  | cons x xs ih =>
    obtain ⟨hx, hxs⟩ := List.forall_mem_cons.mp hone
    obtain ⟨fuel, rfl⟩ := Nat.exists_eq_succ_of_ne_zero (show fuel ≠ 0 by
      rw [List.length_cons] at hfuel
      omega)
    cases xs with
    | nil =>
      rw [List.map_cons, List.map_nil, separated, readMany, hx _ (stops_unit hclose hstop rest)]
      exact if_pos (code_unit close hclose)
    | cons y xs =>
      have hrest := ih (List.cons_ne_nil _ _) hxs (Nat.le_of_succ_le_succ hfuel)
      rw [List.map_cons, separated.eq_3 _ _ (by simp), List.append_assoc, List.cons_append, readMany,
        hx _ (stops_unit (by decide) (by decide) _)]
      simp only [code_unit 44 (by decide), if_neg (Ne.symm hcomma), if_true]
      rw [hrest]
      rfl

theorem readList_separated {β : Type} {one : List α → Option (β × List α)} {enc : β → List α}
    {close fuel : Nat} {xs : List β} (hclose : close < 128) (hcomma : close ≠ 44)
    (hstop : isNumberCode close = false)
    (hhead : ∀ x ∈ xs, ∃ c s, enc x = c :: s ∧ code c ≠ close)
    (hone : ∀ x ∈ xs, ∀ rest, Stops rest → one (enc x ++ rest) = some (x, rest))
    (hfuel : xs.length ≤ fuel) (rest : List α) :
    readList one close fuel (separated (xs.map enc) ++ unit close :: rest) = some (xs, rest) := by
  cases xs with
  | nil => exact if_pos (code_unit close hclose)
  | cons x xs =>
    have hmany := readMany_separated hclose hcomma hstop (List.cons_ne_nil x xs) hone hfuel rest
    obtain ⟨c, s, hx, hc⟩ := hhead x List.mem_cons_self
    have hsep : ∃ s, separated ((x :: xs).map enc) = c :: s := by
      cases xs with
      | nil => exact ⟨s, by rw [List.map_cons, List.map_nil, separated, hx]⟩
      | cons y xs =>
        rw [List.map_cons, separated.eq_3 _ _ (by simp), hx]
        exact ⟨_, rfl⟩
    obtain ⟨s', hsep⟩ := hsep
    rw [hsep, List.cons_append] at hmany ⊢
    exact (if_neg hc).trans hmany

theorem readWord_append {word : List α} (rest : List α) :
    readWord word (word ++ rest) = some rest := by
  rw [readWord, List.take_left, if_pos rfl, List.drop_left]

/-- A number is read up to what stops it. -/
theorem readNumber_append {text rest : List α} (h : isNumber (text.map code) = true)
    (hall : ∀ a ∈ text, isNumberCode (code a) = true) (hrest : Stops rest) :
    readNumber (text ++ rest) = some (.number text, rest) := by
  have htake : (text ++ rest).takeWhile (fun a => isNumberCode (code a)) = text := by
    have hnone : rest.takeWhile (fun a => isNumberCode (code a)) = [] := by
      cases rest with
      | nil => rfl
      | cons a rest =>
        rw [List.takeWhile_cons_of_neg]
        rw [hrest a rest rfl]
        exact Bool.false_ne_true
    rw [List.takeWhile_append_of_pos hall, hnone, List.append_nil]
  rw [readNumber, htake]
  simp only [h, if_true, List.drop_left]

theorem write_head {j : Json (List α)} (h : Plain j) :
    ∃ c s, write j = c :: s ∧ code c ≠ 93 ∧ code c ≠ 125 := by
  have hunit {n : Nat} (hlt : n < 128) (hn : n ≠ 93 ∧ n ≠ 125) :
      code (unit n : α) ≠ 93 ∧ code (unit n : α) ≠ 125 := by rwa [code_unit n hlt]
  cases h with
  | null => exact ⟨_, _, rfl, hunit (by decide) (by decide)⟩
  | bool b => cases b <;> exact ⟨_, _, rfl, hunit (by decide) (by decide)⟩
  | @number text h hall =>
    cases text with
    | nil => cases h
    | cons c text =>
      have hc := hall c List.mem_cons_self
      refine ⟨c, text, rfl, ?_, ?_⟩ <;>
      · intro he
        rw [he] at hc
        cases hc
  | string h => exact ⟨_, _, rfl, hunit (by decide) (by decide)⟩
  | array h => exact ⟨_, _, rfl, hunit (by decide) (by decide)⟩
  | object hname h => exact ⟨_, _, rfl, hunit (by decide) (by decide)⟩

theorem readValue_write {fuel : Nat} {j : Json (List α)} (hfuel : (write j).length < fuel)
    (hj : Plain j) {rest : List α} (hrest : Stops rest) :
    readValue fuel (write j ++ rest) = some (j, rest) := by
  induction fuel generalizing j rest with
  | zero => exact absurd hfuel (Nat.not_lt_zero _)
  | succ fuel ih =>
    cases hj with
    | null =>
      have hword : readWord (ascii "null") (unit 110 :: unit 117 :: unit 108 :: unit 108 :: rest) =
        some rest := readWord_append rest
      change readValue (fuel + 1) (unit 110 :: unit 117 :: unit 108 :: unit 108 :: rest) = _
      simp only [readValue, code_unit 110 (by decide), hword, Option.map_some]
    | bool b =>
      cases b with
      | true =>
        have hword : readWord (ascii "true") (unit 116 :: unit 114 :: unit 117 :: unit 101 :: rest) =
          some rest := readWord_append rest
        change readValue (fuel + 1) (unit 116 :: unit 114 :: unit 117 :: unit 101 :: rest) = _
        simp only [readValue, code_unit 116 (by decide), hword, Option.map_some]
      | false =>
        have hword : readWord (ascii "false")
          (unit 102 :: unit 97 :: unit 108 :: unit 115 :: unit 101 :: rest) = some rest :=
            readWord_append rest
        change readValue (fuel + 1)
          (unit 102 :: unit 97 :: unit 108 :: unit 115 :: unit 101 :: rest) = _
        simp only [readValue, code_unit 102 (by decide), hword, Option.map_some]
    | @number text h hall =>
      have hnumber := readNumber_append h hall hrest
      cases text with
      | nil => cases h
      | cons c text =>
        have hc := hall c List.mem_cons_self
        rw [write, List.cons_append] at *
        unfold readValue
        split
        all_goals first
          | exact hnumber
          | rename_i hcode
            rw [hcode] at hc
            cases hc
    | @string s h =>
      have hstring := readString_quote s rest
      have hwrite : write (.string s) ++ rest =
          unit 34 :: (s.flatMap escapeUnit ++ unit 34 :: rest) := by
        rw [write, quote, List.append_assoc, List.cons_append, List.singleton_append]
      rw [hwrite]
      simp only [readValue, code_unit 34 (by decide), hstring, Option.map_some]
    | @array items h =>
      rw [write, writeItems_eq] at hfuel ⊢
      obtain ⟨hmany, hlength⟩ := length_separated (items.map write)
      simp only [List.length_append, List.length_cons, List.length_nil, List.length_map] at hfuel hmany
      have hlist : readList (readValue fuel) 93 fuel
          (separated (items.map write) ++ unit 93 :: rest) = some (items, rest) := by
        refine readList_separated (by decide) (by decide) (by decide) (fun j hj => ?_)
          (fun j hj rest hrest => ?_) (by omega) rest
        · obtain ⟨c, s, hw, hc, -⟩ := write_head (h j hj)
          exact ⟨c, s, hw, hc⟩
        · have := hlength _ (List.mem_map_of_mem hj)
          exact ih (by omega) (h j hj) hrest
      rw [List.append_assoc, List.cons_append, List.singleton_append]
      simp only [readValue, code_unit 91 (by decide), hlist, Option.map_some]
    | @object members hname h =>
      rw [write, writeMembers_eq] at hfuel ⊢
      obtain ⟨hmany, hlength⟩ := length_separated (members.map writeMember)
      simp only [List.length_append, List.length_cons, List.length_nil, List.length_map] at hfuel hmany
      have hlist : readList (readMember (readValue fuel)) 125 fuel
          (separated (members.map writeMember) ++ unit 125 :: rest) = some (members, rest) := by
        refine readList_separated (by decide) (by decide) (by decide) (fun m hm => ?_)
          (fun m hm rest hrest => ?_) (by omega) rest
        · exact ⟨_, _, rfl, by rw [code_unit 34 (by decide)]; decide⟩
        · have hle := hlength _ (List.mem_map_of_mem hm)
          rw [writeMember, List.length_append, List.length_cons] at hle
          have hvalue := ih (by omega) (h m hm) hrest
          have hmember : writeMember m ++ rest =
              unit 34 :: (m.1.flatMap escapeUnit ++ unit 34 :: unit 58 :: (write m.2 ++ rest)) := by
            simp only [writeMember, quote, List.cons_append, List.append_assoc, List.nil_append]
          rw [hmember, readMember, if_pos (code_unit 34 (by decide)), readString_quote]
          simp only [code_unit 58 (by decide), if_true, hvalue, Option.map_some]
      rw [List.append_assoc, List.cons_append, List.singleton_append]
      simp only [readValue, code_unit 123 (by decide), hlist, Option.map_some]

/-- What is written is read again. -/
theorem read_write {j : Json (List α)} (hj : Plain j) : read (write j) = some j := by
  have hread : readValue ((write j).length + 1) (write j ++ []) = some (j, []) :=
    readValue_write (Nat.lt_succ_self (write j).length) hj fun _ _ h => by cases h
  rw [List.append_nil] at hread
  rw [read, hread]

/-! ### What is written is a C string -/

/-- No unit is NUL. -/
def NoNul (s : List α) : Prop := ∀ a ∈ s, code a ≠ 0

theorem noNul_unit {n : Nat} (h : n < 128) (hn : n ≠ 0) : NoNul [(unit n : α)] := by
  intro a ha
  rw [List.mem_singleton.mp ha, code_unit n h]
  exact hn

theorem NoNul.append {s s' : List α} (h : NoNul s) (h' : NoNul s') : NoNul (s ++ s') :=
  List.forall_mem_append.mpr ⟨h, h'⟩

theorem noNul_units {ns : List Nat} (h : ∀ n ∈ ns, n < 128 ∧ n ≠ 0) :
    NoNul (ns.map (unit : Nat → α)) := by
  intro a ha
  obtain ⟨n, hn, rfl⟩ := List.mem_map.mp ha
  rw [code_unit n (h n hn).1]
  exact (h n hn).2

theorem noNul_ascii (s : String) (h : ∀ c ∈ s.toList, c.toNat < 128 ∧ c.toNat ≠ 0) :
    NoNul (ascii s : List α) := by
  intro a ha
  obtain ⟨c, hc, rfl⟩ := List.mem_map.mp ha
  rw [code_unit _ (h c hc).1]
  exact (h c hc).2

theorem noNul_escapeUnit (a : α) : NoNul (escapeUnit a) := by
  have hhex : ∀ n, n < 16 → hexDigit n < 128 ∧ hexDigit n ≠ 0 := by decide
  unfold escapeUnit escapeCode
  split
  case h_8 n _ _ _ _ _ _ _ =>
    by_cases hn : code a < 32
    · rw [if_pos hn]
      refine noNul_units fun m hm => ?_
      simp only [List.mem_cons, List.not_mem_nil, or_false] at hm
      rcases hm with rfl | rfl | rfl | rfl | rfl | rfl
      · decide
      · decide
      · decide
      · decide
      · exact hhex _ (by omega)
      · exact hhex _ (by omega)
    · rw [if_neg hn, List.map_singleton, unit_code]
      intro b hb
      rw [List.mem_singleton.mp hb]
      omega
  all_goals exact noNul_units (by decide)

theorem noNul_quote (s : List α) : NoNul (quote s) := by
  refine NoNul.append (s := unit 34 :: s.flatMap escapeUnit) ?_ (noNul_unit (by decide) (by decide))
  have hescaped : NoNul (s.flatMap escapeUnit) := fun a ha => by
    obtain ⟨b, -, hb⟩ := List.mem_flatMap.mp ha
    exact noNul_escapeUnit b a hb
  exact (noNul_unit (by decide) (by decide)).append hescaped

theorem noNul_separated {xs : List (List α)} (h : ∀ x ∈ xs, NoNul x) : NoNul (separated xs) := by
  induction xs with
  | nil => exact fun _ ha => absurd ha List.not_mem_nil
  | cons x xs ih =>
    obtain ⟨hx, hxs⟩ := List.forall_mem_cons.mp h
    cases xs with
    | nil => exact hx
    | cons y ys =>
      exact hx.append ((noNul_unit (n := 44) (by decide) (by decide)).append (ih hxs))

theorem noNul_write {j : Json (List α)} (h : Plain j) : NoNul (write j) := by
  induction h with
  | null => exact noNul_ascii "null" (by simp)
  | bool b =>
    cases b with
    | true => exact noNul_ascii "true" (by simp)
    | false => exact noNul_ascii "false" (by simp)
  | number h hall =>
    intro a ha hzero
    have hcode := hall a ha
    rw [hzero] at hcode
    cases hcode
  | string h => exact noNul_quote _
  | array h ih =>
    rw [write, writeItems_eq]
    refine ((noNul_unit (n := 91) (by decide) (by decide)).append
      (noNul_separated fun x hx => ?_)).append (noNul_unit (by decide) (by decide))
    obtain ⟨j, hj, rfl⟩ := List.mem_map.mp hx
    exact ih j hj
  | object hname h ih =>
    rw [write, writeMembers_eq]
    refine ((noNul_unit (n := 123) (by decide) (by decide)).append
      (noNul_separated fun x hx => ?_)).append (noNul_unit (by decide) (by decide))
    obtain ⟨m, hm, rfl⟩ := List.mem_map.mp hx
    exact (noNul_quote m.1).append
      ((noNul_unit (n := 58) (by decide) (by decide)).append (ih m hm))

end Json
end Flingd
