import Mathlib.Data.List.Basic

/-! Lists in which every entry stands as often as a number says. -/
namespace Flingd
variable {α β : Type}

def spread (xs : List (Nat × α)) : List α := xs.flatMap fun x => List.replicate x.1 x.2

@[simp] theorem spread_nil : spread ([] : List (Nat × α)) = [] := rfl

@[simp] theorem spread_cons (n : Nat) (a : α) (xs : List (Nat × α)) :
    spread ((n, a) :: xs) = List.replicate n a ++ spread xs := by
  simp [spread]

theorem spread_append (xs ys : List (Nat × α)) : spread (xs ++ ys) = spread xs ++ spread ys := by
  simp [spread]

theorem spread_filter (p : α → Bool) (xs : List (Nat × α)) :
    (spread xs).filter p = spread (xs.filter fun x => p x.2) := by
  induction xs with
  | nil => rfl
  | cons x xs ih =>
    obtain ⟨n, a⟩ := x
    rw [spread_cons, List.filter_append, ih, List.filter_replicate]
    cases h : p a <;> simp [h]

theorem spread_map (f : α → β) (xs : List (Nat × α)) :
    (spread xs).map f = spread (xs.map fun x => (x.1, f x.2)) := by
  induction xs with
  | nil => rfl
  | cons x xs ih =>
    obtain ⟨n, a⟩ := x
    rw [spread_cons, List.map_append, ih, List.map_replicate, List.map_cons, spread_cons]

theorem le_length_spread {xs : List (Nat × α)} (h : ∀ x ∈ xs, 1 ≤ x.1) :
    xs.length ≤ (spread xs).length := by
  induction xs with
  | nil => simp
  | cons x xs ih =>
    obtain ⟨n, a⟩ := x
    obtain ⟨hn, hxs⟩ := List.forall_mem_cons.mp h
    have hrest := ih hxs
    simp only [spread_cons, List.length_append, List.length_replicate, List.length_cons]
    omega

/-- Nothing is missing and nothing there twice exactly when every number is one. -/
theorem spread_eq_iff {xs : List (Nat × α)} (h : ∀ x ∈ xs, 1 ≤ x.1) :
    spread xs = xs.map Prod.snd ↔ ∀ x ∈ xs, x.1 = 1 := by
  induction xs with
  | nil => simp
  | cons x xs ih =>
    obtain ⟨n, a⟩ := x
    obtain ⟨hn, hxs⟩ := List.forall_mem_cons.mp h
    have hlen := le_length_spread hxs
    simp only [spread_cons, List.map_cons, List.forall_mem_cons]
    constructor
    · intro heq
      have hl := congrArg List.length heq
      simp only [List.length_append, List.length_replicate, List.length_cons,
        List.length_map] at hl
      obtain rfl : n = 1 := by omega
      exact ⟨rfl, (ih hxs).mp (by simpa using heq)⟩
    · rintro ⟨rfl, hone⟩
      simp [(ih hxs).mpr hone]

/-- One entry stands there twice, every other once, and up to it all are `a`. -/
def Doubled (a : α) (xs : List (Nat × α)) : Prop :=
  ∃ pre post, xs = pre ++ (2, a) :: post ∧ (∀ x ∈ pre, x = (1, a)) ∧ ∀ x ∈ post, x.1 = 1

theorem spread_eq_cons_iff {xs : List (Nat × α)} (h : ∀ x ∈ xs, 1 ≤ x.1) (a : α) :
    spread xs = a :: xs.map Prod.snd ↔ Doubled a xs := by
  induction xs with
  | nil => simp [Doubled]
  | cons x xs ih =>
    obtain ⟨n, b⟩ := x
    obtain ⟨hn, hxs⟩ := List.forall_mem_cons.mp h
    have hlen := le_length_spread hxs
    simp only [spread_cons, List.map_cons]
    constructor
    · intro heq
      have hl := congrArg List.length heq
      simp only [List.length_append, List.length_replicate, List.length_cons,
        List.length_map] at hl
      obtain rfl | rfl : n = 1 ∨ n = 2 := by omega
      · simp only [List.replicate_one, List.singleton_append, List.cons.injEq] at heq
        obtain ⟨rfl, heq⟩ := heq
        obtain ⟨pre, post, rfl, hpre, hpost⟩ := (ih hxs).mp heq
        exact ⟨(1, b) :: pre, post, rfl, List.forall_mem_cons.mpr ⟨rfl, hpre⟩, hpost⟩
      · simp only [List.replicate_succ, List.replicate_zero, List.cons_append, List.nil_append,
          List.cons.injEq] at heq
        obtain ⟨rfl, -, heq⟩ := heq
        exact ⟨[], xs, rfl, by simp, (spread_eq_iff hxs).mp heq⟩
    · rintro ⟨pre, post, heq, hpre, hpost⟩
      cases pre with
      | nil =>
        obtain ⟨⟨rfl, rfl⟩, rfl⟩ : (n = 2 ∧ b = a) ∧ xs = post := by simpa using heq
        simp [List.replicate_succ, (spread_eq_iff hxs).mpr hpost]
      | cons y pre =>
        obtain ⟨hy, hones⟩ := List.forall_mem_cons.mp hpre
        subst hy
        obtain ⟨⟨rfl, rfl⟩, rfl⟩ : (n = 1 ∧ b = a) ∧ xs = pre ++ (2, a) :: post := by
          simpa using heq
        rw [(ih hxs).mpr ⟨pre, post, rfl, hones, hpost⟩]
        simp

end Flingd
