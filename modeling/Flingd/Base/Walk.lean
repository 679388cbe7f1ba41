import Mathlib.Data.Fintype.EquivFin
import Flingd.Base.Traced

/-! Following a partial successor function. On a finite type the walk from a
point ends exactly when it never comes back to a point it has visited. A loop
whose passes move along such a walk returns, and logs, as the walk says. -/
namespace Flingd
variable {α : Type}

/-- Where the walk from `a` stands after `n` steps; `none` once it has ended. -/
def walk (next : α → Option α) (a : α) : Nat → Option α
  | 0 => some a
  | n+1 => (walk next a n).bind next

/-- The walk from `a` ends. -/
def Ends (next : α → Option α) (a : α) : Prop := ∃ n, walk next a n = none

/-- No point is visited at two different times. -/
def NeverRevisits (next : α → Option α) (a : α) : Prop :=
  ∀ j k p, walk next a j = some p → walk next a k = some p → j = k

theorem walk_add (next : α → Option α) (a b : α) (n : Nat) (h : walk next a n = some b)
    (m : Nat) : walk next a (n+m) = walk next b m := by
  induction m with
  | zero => exact h
  | succ m ih =>
    change (walk next a (n+m)).bind next = (walk next b m).bind next
    rw [ih]

theorem walk_succ (next : α → Option α) (a : α) (n : Nat) :
    walk next a (n+1) = (next a).bind fun b => walk next b n := by
  cases h : next a with
  | none =>
    induction n with
    | zero => simpa [walk] using h
    | succ n ih =>
      change (walk next a (n+1)).bind next = none
      rw [ih]
      rfl
  | some b =>
    have h1 : walk next a 1 = some b := by simpa [walk] using h
    simpa [Nat.add_comm] using walk_add next a b 1 h1 n

theorem walk_none_of_le (next : α → Option α) (a : α) {n m : Nat} (h : walk next a n = none)
    (hle : n ≤ m) : walk next a m = none := by
  obtain ⟨k, rfl⟩ := Nat.exists_eq_add_of_le hle
  induction k with
  | zero => exact h
  | succ k ih =>
    change (walk next a (n+k)).bind next = none
    rw [ih (by omega)]
    rfl

/-- A point visited twice is visited again and again. -/
theorem walk_cycle (next : α → Option α) (a p : α) (j d : Nat) (hj : walk next a j = some p)
    (hd : walk next a (j+d) = some p) (m : Nat) : walk next a (j+m*d) = some p := by
  induction m with
  | zero => simpa using hj
  | succ m ih =>
    have hp : walk next p d = some p := by
      rw [← walk_add next a p j hj]
      exact hd
    have hm := walk_add next a p (j+m*d) ih d
    rw [Nat.succ_mul, ← Nat.add_assoc, hm, hp]

theorem ends_iff_never_revisits [Finite α] (next : α → Option α) (a : α) :
    Ends next a ↔ NeverRevisits next a := by
  constructor
  · rintro ⟨n, hn⟩ j k p hj hk
    by_contra hne
    wlog hlt : j < k generalizing j k
    · exact this k j hk hj (Ne.symm hne) (by omega)
    have hc := walk_cycle next a p j (k-j) hj (by simpa [Nat.add_sub_cancel' hlt.le] using hk) n
    have hle : n ≤ j+n*(k-j) := by
      have : n*1 ≤ n*(k-j) := Nat.mul_le_mul_left n (by omega)
      omega
    simp [walk_none_of_le next a hn hle] at hc
  · intro hv
    by_contra hne
    -- a walk that never ends would place infinitely many times into finitely many points
    have hs (n : Nat) : ∃ p, walk next a n = some p := by
      cases h : walk next a n with
      | none => exact absurd ⟨n, h⟩ hne
      | some p => exact ⟨p, rfl⟩
    choose f hf using hs
    have hinj : Function.Injective f := fun j k hjk =>
      hv j k (f j) (hf j) (by rw [hjk]; exact hf k)
    exact not_injective_infinite_finite f hinj

namespace Traced
variable {ε σ ρ : Type}

/-- Every pass of `body` gets through and moves `π` along `next`. -/
def Follows (body : σ → Traced ε (Pass σ ρ)) (π : σ → α) (next : α → Option α) : Prop :=
  ∀ s, (∃ s', (body s).val = some (.again s') ∧ next (π s) = some (π s')) ∨
    (∃ r, (body s).val = some (.leave r) ∧ next (π s) = none)

theorem loop_returns_iff {body : σ → Traced ε (Pass σ ρ)} {π : σ → α} {next : α → Option α}
    (h : Follows body π next) (s : σ) :
    Returns (fun n => loop body n s) ↔ Ends next (π s) := by
  constructor
  · rintro ⟨r, n, hr⟩
    induction n generalizing s with
    | zero => simp [loop] at hr
    | succ n ih =>
      obtain ⟨s', hb, hn⟩ | ⟨r', hb, hn⟩ := h s
      · obtain ⟨m, hm⟩ := ih s' (by simpa [loop, hb] using hr)
        exact ⟨m+1, by simpa [walk_succ, hn] using hm⟩
      · exact ⟨1, by simp [walk, hn]⟩
  · rintro ⟨n, hn⟩
    induction n generalizing s with
    | zero => simp [walk] at hn
    | succ n ih =>
      obtain ⟨s', hb, hs⟩ | ⟨r, hb, hs⟩ := h s
      · obtain ⟨r, m, hm⟩ := ih s' (by simpa [walk_succ, hs] using hn)
        exact ⟨r, m+1, by simp [loop, hb, hm]⟩
      · exact ⟨r, 1, by simp [loop, hb]⟩

theorem logs_loop_succ (p : ε → Prop) (body : σ → Traced ε (Pass σ ρ)) (n : Nat) (s : σ) :
    Logs p (loop body (n+1) s) ↔ Logs p (body s) ∧
      ∀ s', (body s).val = some (.again s') → Logs p (loop body n s') := by
  change Logs p (body s >>= _) ↔ _
  rw [logs_bind]
  refine and_congr_right fun _ => ⟨fun h s' hs => h _ hs, ?_⟩
  intro h q hq
  cases q with
  | again s' => exact h s' hq
  | leave r => exact logs_pure p r

/-- All that the loop can ever log, however many passes it makes. -/
theorem loop_logs_iff {body : σ → Traced ε (Pass σ ρ)} {π : σ → α} {next : α → Option α}
    (h : Follows body π next) (p : ε → Prop) (P : α → Prop)
    (hlog : ∀ s, Logs p (body s) ↔ P (π s)) (s : σ) :
    AllLogs p (fun n => loop body n s) ↔ ∀ k a, walk next (π s) k = some a → P a := by
  constructor
  · intro hl k a hk
    induction k generalizing s with
    | zero =>
      cases hk
      have hb := (logs_loop_succ p body 0 s).mp (hl 1)
      exact (hlog s).mp hb.1
    | succ k ih =>
      obtain ⟨s', hb, hs⟩ | ⟨r, hb, hs⟩ := h s
      · refine ih s' (fun n => ?_) (by simpa [walk_succ, hs] using hk)
        have hn := (logs_loop_succ p body n s).mp (hl (n+1))
        exact hn.2 s' hb
      · simp [walk_succ, hs] at hk
  · intro hw n
    induction n generalizing s with
    | zero => exact logs_stuck p
    | succ n ih =>
      refine (logs_loop_succ p body n s).mpr ⟨(hlog s).mpr (hw 0 _ rfl), fun s' hq => ?_⟩
      obtain ⟨t, hb, hs⟩ | ⟨r, hb, hs⟩ := h s
      · obtain rfl : s' = t := by simpa [hb] using hq.symm
        exact ih s' fun k a hk => hw (k+1) a (by simpa [walk_succ, hs] using hk)
      · simp [hb] at hq

end Traced
end Flingd
