import Mathlib.Order.Lattice
import Mathlib.Data.List.Pairwise

/-! `std::map`: entries in the strict order of their keys, so that a loop from
`begin()` meets them in that order and no key twice. -/
namespace Flingd
variable {κ ν : Type} [LinearOrder κ]

structure StdMap (κ ν : Type) [LinearOrder κ] where
  entries : List (κ × ν)
  sorted : entries.Pairwise fun a b => a.1 < b.1
deriving DecidableEq

namespace StdMap

def empty : StdMap κ ν := ⟨[], .nil⟩

def size (m : StdMap κ ν) : Nat := m.entries.length

/-- Insertion into a sorted list; an entry with the key stays as it is. -/
def insertEntry (k : κ) (v : ν) : List (κ × ν) → List (κ × ν)
  | [] => [(k, v)]
  | e :: es =>
    if k < e.1 then (k, v) :: e :: es
    else if e.1 < k then e :: insertEntry k v es
    else e :: es

theorem mem_insertEntry {k : κ} {v : ν} {es : List (κ × ν)} {e : κ × ν}
    (h : e ∈ insertEntry k v es) : e = (k, v) ∨ e ∈ es := by
  induction es with
  | nil => simpa [insertEntry] using h
  | cons f es ih =>
    unfold insertEntry at h
    split_ifs at h with h1 h2
    · simpa using h
    · rcases List.mem_cons.mp h with rfl | h
      · exact .inr (by simp)
      · exact (ih h).imp id (List.mem_cons_of_mem _)
    · exact .inr h

theorem insertEntry_sorted (k : κ) (v : ν) {es : List (κ × ν)}
    (h : es.Pairwise fun a b => a.1 < b.1) :
    (insertEntry k v es).Pairwise fun a b => a.1 < b.1 := by
  induction es with
  | nil => simp [insertEntry]
  | cons f es ih =>
    obtain ⟨hf, hes⟩ := List.pairwise_cons.mp h
    unfold insertEntry
    split_ifs with h1 h2
    · refine List.pairwise_cons.mpr ⟨fun e he => ?_, h⟩
      rcases List.mem_cons.mp he with rfl | he
      · exact h1
      · exact lt_trans h1 (hf e he)
    · refine List.pairwise_cons.mpr ⟨fun e he => ?_, ih hes⟩
      rcases mem_insertEntry he with rfl | he
      · exact h2
      · exact hf e he
    · exact h

/-- `insert`, which leaves a key that is there alone. -/
def insert (m : StdMap κ ν) (k : κ) (v : ν) : StdMap κ ν :=
  ⟨insertEntry k v m.entries, insertEntry_sorted k v m.sorted⟩

/-- The loop from `begin()` that stops at the first key with `p`. -/
def scan (m : StdMap κ ν) (p : κ → Bool) : Option (κ × ν) := m.entries.find? fun e => p e.1

/-- `erase` at the first key with `p`, if there is one. -/
def eraseFirst (m : StdMap κ ν) (p : κ → Bool) : StdMap κ ν :=
  ⟨m.entries.eraseP fun e => p e.1, m.sorted.sublist (List.eraseP_sublist)⟩

def mapValues (m : StdMap κ ν) (f : ν → ν) : StdMap κ ν :=
  ⟨m.entries.map fun e => (e.1, f e.2), List.pairwise_map.mpr m.sorted⟩

/-- The value at the first key with `p`, changed in place. -/
def modifyFirst (m : StdMap κ ν) (p : κ → Bool) (f : ν → ν) : StdMap κ ν :=
  match m.scan p with
  | none => m
  | some e => ⟨m.entries.map fun e' => if e'.1 = e.1 then (e'.1, f e'.2) else e',
      List.pairwise_map.mpr (m.sorted.imp fun h => by split_ifs <;> exact h)⟩

theorem mem_insert {m : StdMap κ ν} {k : κ} {v : ν} {e : κ × ν}
    (h : e ∈ (m.insert k v).entries) : e = (k, v) ∨ e ∈ m.entries :=
  mem_insertEntry h

theorem mem_insert_of_mem {m : StdMap κ ν} {e : κ × ν} (k : κ) (v : ν) (h : e ∈ m.entries) :
    e ∈ (m.insert k v).entries := by
  have hes (es : List (κ × ν)) (h : e ∈ es) : e ∈ insertEntry k v es := by
    induction es with
    | nil => cases h
    | cons f es ih =>
      unfold insertEntry
      split_ifs
      · exact List.mem_cons_of_mem _ h
      · rcases List.mem_cons.mp h with rfl | h
        · exact List.mem_cons_self
        · exact List.mem_cons_of_mem _ (ih h)
      · exact h
  exact hes m.entries h

theorem scan_some {m : StdMap κ ν} {p : κ → Bool} {e : κ × ν} (h : m.scan p = some e) :
    e ∈ m.entries ∧ p e.1 = true :=
  ⟨List.mem_of_find?_eq_some h, by simpa using List.find?_some h⟩

/-! ### Values -/

theorem mapValues_mapValues (m : StdMap κ ν) (f g : ν → ν) :
    (m.mapValues f).mapValues g = m.mapValues (g ∘ f) := by
  simp [mapValues]

theorem mapValues_of_fixed {m : StdMap κ ν} {f : ν → ν} (h : ∀ e ∈ m.entries, f e.2 = e.2) :
    m.mapValues f = m := by
  obtain ⟨es, hs⟩ := m
  have hes : es.map (fun e => (e.1, f e.2)) = es :=
    (List.map_congr_left fun e he => by rw [h e he]).trans (List.map_id' es)
  simp only [mapValues, hes]

theorem mapValues_insert (m : StdMap κ ν) (f : ν → ν) (k : κ) (v : ν) :
    (m.insert k v).mapValues f = (m.mapValues f).insert k (f v) := by
  have hes (es : List (κ × ν)) : (insertEntry k v es).map (fun e => (e.1, f e.2)) =
      insertEntry k (f v) (es.map fun e => (e.1, f e.2)) := by
    induction es with
    | nil => rfl
    | cons e es ih =>
      simp only [insertEntry, List.map_cons]
      split_ifs <;> simp [ih]
  simp only [mapValues, insert, hes]

/-! ### Scans -/

theorem scan_none {m : StdMap κ ν} {p : κ → Bool} :
    m.scan p = none ↔ ∀ e ∈ m.entries, p e.1 = false := by
  simp [scan, List.find?_eq_none]

theorem scan_insert_new {m : StdMap κ ν} {p : κ → Bool} {k : κ} (v : ν) (h : m.scan p = none)
    (hk : p k = true) : (m.insert k v).scan p = some (k, v) := by
  obtain ⟨es, hs⟩ := m
  replace h : ∀ e ∈ es, p e.1 = false := scan_none.mp h
  change (insertEntry k v es).find? _ = _
  clear hs
  induction es with
  | nil => simp [insertEntry, hk]
  | cons e es ih =>
    obtain ⟨he, hes⟩ := List.forall_mem_cons.mp h
    unfold insertEntry
    split_ifs with h₁ h₂
    · simp [hk]
    · rw [List.find?_cons_of_neg (by simp [he]), ih hes]
    · obtain rfl : k = e.1 := le_antisymm (not_lt.mp h₂) (not_lt.mp h₁)
      rw [he] at hk
      cases hk

theorem mem_insert_new {m : StdMap κ ν} {p : κ → Bool} {k : κ} {v : ν} (h : m.scan p = none)
    (hk : p k = true) {e : κ × ν} : e ∈ (m.insert k v).entries ↔ e = (k, v) ∨ e ∈ m.entries := by
  constructor
  · exact mem_insert
  · rintro (rfl | he)
    · exact (scan_some (scan_insert_new v h hk)).1
    · exact mem_insert_of_mem k v he

theorem scan_insert_other {m : StdMap κ ν} {p : κ → Bool} {k : κ} (v : ν) (hk : p k = false) :
    (m.insert k v).scan p = m.scan p := by
  obtain ⟨es, hs⟩ := m
  change (insertEntry k v es).find? _ = es.find? _
  clear hs
  induction es with
  | nil => simp [insertEntry, hk]
  | cons e es ih =>
    unfold insertEntry
    split_ifs with h₁ h₂
    · rw [List.find?_cons_of_neg (by simp [hk])]
    · rw [List.find?_cons, List.find?_cons, ih]
    · rfl

theorem scan_mapValues (m : StdMap κ ν) (f : ν → ν) (p : κ → Bool) :
    (m.mapValues f).scan p = (m.scan p).map fun e => (e.1, f e.2) := by
  simp only [scan, mapValues, List.find?_map]
  rfl

theorem scan_modifyFirst (m : StdMap κ ν) (p : κ → Bool) (f : ν → ν) :
    (m.modifyFirst p f).scan p = (m.scan p).map fun e => (e.1, f e.2) := by
  unfold modifyFirst
  cases h : m.scan p with
  | none => exact h
  | some e =>
    simp only [scan, List.find?_map] at h ⊢
    have hkey : (fun e' : κ × ν => p e'.1) ∘ (fun e' => if e'.1 = e.1 then (e'.1, f e'.2) else e') =
        fun e' => p e'.1 := by
      funext e'
      simp only [Function.comp_apply]
      split <;> rfl
    rw [hkey, h]
    simp

/-- Where no key has both `p` and `q`, changing the first with `q` leaves the scan for `p`. -/
theorem scan_modifyFirst_other {m : StdMap κ ν} {p q : κ → Bool} (f : ν → ν)
    (hpq : ∀ k, p k = true → q k = false) : (m.modifyFirst q f).scan p = m.scan p := by
  unfold modifyFirst
  cases h : m.scan q with
  | none => rfl
  | some e =>
    obtain ⟨-, hq⟩ := scan_some h
    simp only [scan, List.find?_map]
    have hkey : (fun e' : κ × ν => p e'.1) ∘ (fun e' => if e'.1 = e.1 then (e'.1, f e'.2) else e') =
        fun e' => p e'.1 := by
      funext e'
      simp only [Function.comp_apply]
      split <;> rfl
    rw [hkey]
    cases hf : m.entries.find? fun e' => p e'.1 with
    | none => rfl
    | some e' =>
      have hp : p e'.1 = true := by simpa using List.find?_some hf
      have hne : e'.1 ≠ e.1 := by
        intro he
        rw [← he, hpq _ hp] at hq
        cases hq
      simp [hne]

theorem scan_eraseFirst_other {m : StdMap κ ν} {p q : κ → Bool}
    (hpq : ∀ k, p k = true → q k = false) : (m.eraseFirst q).scan p = m.scan p := by
  obtain ⟨es, hs⟩ := m
  change (es.eraseP _).find? _ = es.find? _
  clear hs
  induction es with
  | nil => rfl
  | cons e es ih =>
    cases hq : q e.1 with
    | true =>
      have hp : p e.1 = false := by
        cases hp : p e.1
        · rfl
        · rw [hpq _ hp] at hq
          cases hq
      rw [List.eraseP_cons_of_pos (by exact hq), List.find?_cons_of_neg (by simp [hp])]
    | false =>
      rw [List.eraseP_cons_of_neg (by simp [hq]), List.find?_cons, List.find?_cons, ih]

theorem eraseFirst_of_scan_none {m : StdMap κ ν} {p : κ → Bool} (h : m.scan p = none) :
    m.eraseFirst p = m := by
  obtain ⟨es, hs⟩ := m
  have hes : es.eraseP (fun e => p e.1) = es :=
    List.eraseP_of_forall_not (by simpa using scan_none.mp h)
  simp only [eraseFirst, hes]

theorem mem_eraseFirst {m : StdMap κ ν} {p : κ → Bool} {e : κ × ν}
    (h : e ∈ (m.eraseFirst p).entries) : e ∈ m.entries :=
  List.eraseP_sublist.subset h

theorem eq_of_key_eq {m : StdMap κ ν} {e e' : κ × ν} (h : e ∈ m.entries) (h' : e' ∈ m.entries)
    (hk : e.1 = e'.1) : e = e' := by
  obtain ⟨es, hs⟩ := m
  replace h : e ∈ es := h
  replace h' : e' ∈ es := h'
  induction es with
  | nil => cases h
  | cons f es ih =>
    obtain ⟨hf, hs⟩ := List.pairwise_cons.mp hs
    rcases List.mem_cons.mp h with he | he <;> rcases List.mem_cons.mp h' with he' | he'
    · rw [he, he']
    · exact absurd hk (he ▸ ne_of_lt (hf e' he'))
    · exact absurd hk.symm (he' ▸ ne_of_lt (hf e he))
    · exact ih hs he he'

/-- Only the first entry with `p` is erased. -/
theorem mem_eraseFirst_iff {m : StdMap κ ν} {p : κ → Bool} {e e' : κ × ν} (h : m.scan p = some e) :
    e' ∈ (m.eraseFirst p).entries ↔ e' ∈ m.entries ∧ e' ≠ e := by
  obtain ⟨hp, before, after, hsplit, hbefore⟩ := List.find?_eq_some_iff_append.mp h
  have herase : (m.eraseFirst p).entries = before ++ after := by
    have hskip : ∀ b ∈ before, ¬ p b.1 = true := by simpa using hbefore
    change m.entries.eraseP _ = _
    rw [hsplit, List.eraseP_append_right _ hskip]
    exact congrArg (before ++ ·) (List.eraseP_cons_of_pos hp)
  have hsorted := hsplit ▸ m.sorted
  rw [List.pairwise_append, List.pairwise_cons] at hsorted
  have hbefore' : e ∉ before := fun hmem =>
    lt_irrefl _ (hsorted.2.2 e hmem e List.mem_cons_self)
  have hafter : e ∉ after := fun hmem => lt_irrefl _ (hsorted.2.1.1 e hmem)
  rw [herase, hsplit, List.mem_append, List.mem_append, List.mem_cons]
  constructor
  · rintro (hmem | hmem)
    · exact ⟨.inl hmem, fun heq => hbefore' (heq ▸ hmem)⟩
    · exact ⟨.inr (.inr hmem), fun heq => hafter (heq ▸ hmem)⟩
  · rintro ⟨hmem | rfl | hmem, hne⟩
    · exact .inl hmem
    · exact absurd rfl hne
    · exact .inr hmem

theorem mem_modifyFirst {m : StdMap κ ν} {p : κ → Bool} {f : ν → ν} {e : κ × ν}
    (h : e ∈ (m.modifyFirst p f).entries) :
    e ∈ m.entries ∨ ∃ e' ∈ m.entries, m.scan p = some e' ∧ e = (e'.1, f e'.2) := by
  unfold modifyFirst at h
  cases hs : m.scan p with
  | none =>
    rw [hs] at h
    exact .inl h
  | some e₀ =>
    rw [hs] at h
    obtain ⟨e', he', rfl⟩ := List.mem_map.mp h
    by_cases hk : e'.1 = e₀.1
    · obtain rfl := eq_of_key_eq he' (scan_some hs).1 hk
      exact .inr ⟨e', he', rfl, by simp⟩
    · simp only [hk, if_false]
      exact .inl he'

/-- The entry that is changed, and what stands before and behind it. -/
theorem modifyFirst_split {m : StdMap κ ν} {p : κ → Bool} {e : κ × ν} (f : ν → ν)
    (h : m.scan p = some e) : ∃ before after, m.entries = before ++ e :: after ∧
      (m.modifyFirst p f).entries = before ++ (e.1, f e.2) :: after := by
  obtain ⟨-, before, after, hsplit, -⟩ := List.find?_eq_some_iff_append.mp h
  refine ⟨before, after, hsplit, ?_⟩
  have hsorted := hsplit ▸ m.sorted
  rw [List.pairwise_append, List.pairwise_cons] at hsorted
  have hbefore : ∀ b ∈ before, b.1 ≠ e.1 := fun b hb =>
    ne_of_lt (hsorted.2.2 b hb e List.mem_cons_self)
  have hafter : ∀ b ∈ after, b.1 ≠ e.1 := fun b hb => ne_of_gt (hsorted.2.1.1 b hb)
  unfold modifyFirst
  rw [h]
  simp only [hsplit, List.map_append, List.map_cons, if_true]
  congr 1
  · exact (List.map_congr_left fun b hb => if_neg (hbefore b hb)).trans (List.map_id' _)
  · congr 1
    exact (List.map_congr_left fun b hb => if_neg (hafter b hb)).trans (List.map_id' _)

theorem insert_split (m : StdMap κ ν) (k : κ) (v : ν) : (m.insert k v).entries = m.entries ∨
    ∃ before after, m.entries = before ++ after ∧
      (m.insert k v).entries = before ++ (k, v) :: after := by
  have hes (es : List (κ × ν)) : insertEntry k v es = es ∨
      ∃ before after, es = before ++ after ∧ insertEntry k v es = before ++ (k, v) :: after := by
    induction es with
    | nil => exact .inr ⟨[], [], rfl, rfl⟩
    | cons e es ih =>
      unfold insertEntry
      split_ifs
      · exact .inr ⟨[], e :: es, rfl, rfl⟩
      · rcases ih with h | ⟨before, after, rfl, h⟩
        · exact .inl (by rw [h])
        · exact .inr ⟨e :: before, after, rfl, by rw [h, List.cons_append]⟩
      · exact .inl rfl
  exact hes m.entries

/-! ### Keys -/

def keys (m : StdMap κ ν) : List κ := m.entries.map (·.1)

theorem scan_isSome [DecidableEq κ] {m : StdMap κ ν} {k : κ} :
    (m.scan (k = ·)).isSome = true ↔ k ∈ m.keys := by
  rw [scan, List.find?_isSome, keys, List.mem_map]
  simp only [decide_eq_true_eq, eq_comm (a := k)]

theorem scan_key [DecidableEq κ] {m : StdMap κ ν} {k : κ} {v : ν} :
    m.scan (k = ·) = some (k, v) ↔ (k, v) ∈ m.entries := by
  constructor
  · exact fun h => (scan_some h).1
  · intro h
    have hk : k ∈ m.keys := List.mem_map.mpr ⟨_, h, rfl⟩
    obtain ⟨e, he⟩ := Option.isSome_iff_exists.mp (scan_isSome.mpr hk)
    obtain ⟨hmem, hkey⟩ := scan_some he
    rw [he, eq_of_key_eq h hmem (of_decide_eq_true hkey)]

/-- A loop over all entries that does something at one key only. -/
theorem flatMap_key [DecidableEq κ] {β : Type} {m : StdMap κ ν} {k : κ} {v : ν}
    (h : (k, v) ∈ m.entries) (f : ν → List β) :
    m.entries.flatMap (fun e => if e.1 = k then f e.2 else []) = f v := by
  obtain ⟨before, after, hsplit⟩ := List.append_of_mem h
  have hsorted := hsplit ▸ m.sorted
  rw [List.pairwise_append, List.pairwise_cons] at hsorted
  have hbefore : before.flatMap (fun e => if e.1 = k then f e.2 else []) = [] := by
    refine List.flatMap_eq_nil_iff.mpr fun e he => if_neg ?_
    exact ne_of_lt (hsorted.2.2 e he (k, v) List.mem_cons_self)
  have hafter : after.flatMap (fun e => if e.1 = k then f e.2 else []) = [] :=
    List.flatMap_eq_nil_iff.mpr fun e he => if_neg (ne_of_gt (hsorted.2.1.1 e he))
  rw [hsplit, List.flatMap_append, List.flatMap_cons, hbefore, hafter, if_pos rfl,
    List.nil_append, List.append_nil]

theorem mem_keys_insert {m : StdMap κ ν} {k k' : κ} (v : ν) :
    k' ∈ (m.insert k v).keys ↔ k' = k ∨ k' ∈ m.keys := by
  have hes (es : List (κ × ν)) :
      k' ∈ (insertEntry k v es).map (·.1) ↔ k' = k ∨ k' ∈ es.map (·.1) := by
    induction es with
    | nil => simp [insertEntry]
    | cons e es ih =>
      unfold insertEntry
      split_ifs with h₁ h₂
      · simp
      · rw [List.map_cons, List.map_cons, List.mem_cons, List.mem_cons, ih]
        exact or_left_comm
      · have hk : k = e.1 := le_antisymm (not_lt.mp h₂) (not_lt.mp h₁)
        simp [hk]
  exact hes m.entries

theorem keys_modifyFirst (m : StdMap κ ν) (p : κ → Bool) (f : ν → ν) :
    (m.modifyFirst p f).keys = m.keys := by
  cases h : m.scan p with
  | none => simp only [modifyFirst, h]
  | some e =>
    obtain ⟨before, after, h₁, h₂⟩ := modifyFirst_split f h
    simp only [keys, h₁, h₂, List.map_append, List.map_cons]

theorem mem_keys_eraseFirst [DecidableEq κ] {m : StdMap κ ν} {k k' : κ} :
    k' ∈ (m.eraseFirst (k = ·)).keys ↔ k' ≠ k ∧ k' ∈ m.keys := by
  by_cases hk : k' = k
  · subst hk
    have hnone : k' ∉ (m.eraseFirst (k' = ·)).keys := by
      intro hmem
      obtain ⟨e, he, hek⟩ := List.mem_map.mp hmem
      cases hs : m.scan (k' = ·) with
      | none =>
        have hne := scan_none.mp hs e (mem_eraseFirst he)
        simp [hek] at hne
      | some f =>
        obtain ⟨hf, hkey⟩ := scan_some hs
        obtain ⟨he, hne⟩ := (mem_eraseFirst_iff hs).mp he
        exact hne (eq_of_key_eq he hf (hek.trans (of_decide_eq_true hkey)))
    simp [hnone]
  · have hother : (m.eraseFirst (k = ·)).scan (k' = ·) = m.scan (k' = ·) :=
      scan_eraseFirst_other fun i hi => by
        have hik : k' = i := of_decide_eq_true hi
        simp [← hik, Ne.symm hk]
    rw [← scan_isSome, hother, scan_isSome]
    simp [hk]

end StdMap
end Flingd
