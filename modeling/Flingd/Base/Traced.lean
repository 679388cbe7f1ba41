import Mathlib.Data.List.Infix

/-! Computations that log what they touch and that may never return, and the
`while (true)` loop over them. The loop takes the number of passes it may make;
it returns when some number of passes is enough. -/
namespace Flingd
variable {ε α β σ ρ : Type}

/-- `val = none`: no result within the passes allowed; the log is kept. -/
structure Traced (ε α : Type) where
  log : List ε
  val : Option α

namespace Traced

def ret (a : α) : Traced ε α := ⟨[], some a⟩

def touch (e : ε) (a : α) : Traced ε α := ⟨[e], some a⟩

def stuck : Traced ε α := ⟨[], none⟩

def andThen (x : Traced ε α) (f : α → Traced ε β) : Traced ε β :=
  match x.val with
  | none => ⟨x.log, none⟩
  | some a => ⟨x.log ++ (f a).log, (f a).val⟩

instance : Monad (Traced ε) where
  pure := ret
  bind := andThen

@[simp] theorem val_pure (a : α) : (pure a : Traced ε α).val = some a := rfl
@[simp] theorem log_pure (a : α) : (pure a : Traced ε α).log = [] := rfl
@[simp] theorem val_touch (e : ε) (a : α) : (touch e a).val = some a := rfl
@[simp] theorem log_touch (e : ε) (a : α) : (touch e a).log = [e] := rfl
@[simp] theorem val_stuck : (stuck : Traced ε α).val = none := rfl
@[simp] theorem log_stuck : (stuck : Traced ε α).log = [] := rfl

@[simp] theorem val_bind (x : Traced ε α) (f : α → Traced ε β) :
    (x >>= f).val = x.val.bind fun a => (f a).val := by
  change (andThen x f).val = _
  unfold andThen
  cases x.val <;> rfl

theorem log_bind_some {x : Traced ε α} {a : α} (h : x.val = some a) (f : α → Traced ε β) :
    (x >>= f).log = x.log ++ (f a).log := by
  change (andThen x f).log = _
  unfold andThen
  rw [h]

theorem log_bind_none {x : Traced ε α} (h : x.val = none) (f : α → Traced ε β) :
    (x >>= f).log = x.log := by
  change (andThen x f).log = _
  unfold andThen
  rw [h]

theorem ext {x y : Traced ε α} (hl : x.log = y.log) (hv : x.val = y.val) : x = y := by
  cases x
  cases y
  simp_all

theorem andThen_ret (x : Traced ε α) : andThen x ret = x := by
  unfold andThen
  cases h : x.val <;> exact ext (by simp [ret]) (by simp [ret, h])

theorem andThen_assoc (x : Traced ε α) (f : α → Traced ε β) (g : β → Traced ε σ) :
    andThen (andThen x f) g = andThen x fun a => andThen (f a) g := by
  unfold andThen
  cases x.val with
  | none => rfl
  | some a => cases h : (f a).val <;> simp [h]

instance : LawfulMonad (Traced ε) :=
  .mk' _ andThen_ret (fun _ _ => ext (by simp [log_bind_some (val_pure _)]) (by simp)) andThen_assoc

@[simp] theorem val_map (f : α → β) (x : Traced ε α) : (f <$> x).val = x.val.map f := by
  rw [← bind_pure_comp, val_bind]
  cases x.val <;> rfl

/-- Every entry of the log satisfies `p`. -/
def Logs (p : ε → Prop) (x : Traced ε α) : Prop := ∀ e ∈ x.log, p e

theorem logs_pure (p : ε → Prop) (a : α) : Logs p (pure a : Traced ε α) := by
  simp [Logs]

theorem logs_stuck (p : ε → Prop) : Logs p (stuck : Traced ε α) := by
  simp [Logs]

theorem logs_touch (p : ε → Prop) (e : ε) (a : α) : Logs p (touch e a) ↔ p e := by
  simp [Logs]

/-- The log of a sequence is in order when both parts are; the second part
counts only where the first returns. -/
theorem logs_bind (p : ε → Prop) (x : Traced ε α) (f : α → Traced ε β) :
    Logs p (x >>= f) ↔ Logs p x ∧ ∀ a, x.val = some a → Logs p (f a) := by
  unfold Logs
  cases h : x.val with
  | none => simp [log_bind_none h]
  | some a =>
    rw [log_bind_some h]
    simp only [List.mem_append, Option.some.injEq]
    constructor
    · intro hp
      refine ⟨fun e he => hp e (.inl he), ?_⟩
      rintro b rfl e he
      exact hp e (.inr he)
    · rintro ⟨hx, hf⟩ e (he | he)
      · exact hx e he
      · exact hf a rfl e he

/-- What one pass of a loop body decides: go round again or leave. -/
inductive Pass (σ ρ : Type) where
  | again (s : σ)
  | leave (r : ρ)

/-- `while (true) body`, making at most the given number of passes. -/
def loop (body : σ → Traced ε (Pass σ ρ)) : Nat → σ → Traced ε ρ
  | 0, _ => stuck
  | n+1, s => body s >>= fun
    | .again s' => loop body n s'
    | .leave r => pure r

/-- More passes change nothing once the loop has returned. -/
theorem loop_mono (body : σ → Traced ε (Pass σ ρ)) {n m : Nat} {s : σ} {r : ρ}
    (h : (loop body n s).val = some r) (hle : n ≤ m) : loop body m s = loop body n s := by
  induction n generalizing m s with
  | zero => simp [loop] at h
  | succ n ih =>
    obtain ⟨m, rfl⟩ : ∃ k, m = k+1 := ⟨m-1, by omega⟩
    simp only [loop, val_bind, Option.bind_eq_some_iff] at h
    obtain ⟨p, hp, hr⟩ := h
    cases p with
    | leave r' => simp only [loop]; exact ext (by simp [log_bind_some hp]) (by simp [hp])
    | again s' =>
      have hs := ih hr (by omega : n ≤ m)
      simp only [loop]
      exact ext (by simp [log_bind_some hp, hs]) (by simp [hp, hs])

/-! ### Growing families

A computation with a loop in it is a family indexed by the passes allowed. -/

/-- More passes only add to the log, and change nothing once there is a result. -/
structure Growing (f : Nat → Traced ε α) : Prop where
  settled : ∀ {n m a}, (f n).val = some a → n ≤ m → f m = f n
  grows : ∀ {n m}, n ≤ m → (f n).log <+: (f m).log

def Gives (f : Nat → Traced ε α) (a : α) : Prop := ∃ n, (f n).val = some a

def Returns (f : Nat → Traced ε α) : Prop := ∃ a, Gives f a

/-- Everything that is ever logged satisfies `p`. -/
def AllLogs (p : ε → Prop) (f : Nat → Traced ε α) : Prop := ∀ n, Logs p (f n)

theorem growing_const (x : Traced ε α) : Growing fun _ => x :=
  ⟨fun _ _ => rfl, fun _ => List.prefix_rfl⟩

theorem growing_bind {f : Nat → Traced ε α} {g : α → Nat → Traced ε β} (hf : Growing f)
    (hg : ∀ a, Growing (g a)) : Growing fun n => f n >>= fun a => g a n := by
  constructor
  · intro n m b hb hle
    simp only [val_bind, Option.bind_eq_some_iff] at hb
    obtain ⟨a, ha, hb⟩ := hb
    rw [hf.settled ha hle]
    exact ext (by rw [log_bind_some ha, log_bind_some ha, (hg a).settled hb hle])
      (by simp [ha, (hg a).settled hb hle])
  · intro n m hle
    cases ha : (f n).val with
    | some a =>
      rw [hf.settled ha hle, log_bind_some ha, log_bind_some ha, List.prefix_append_right_inj]
      exact (hg a).grows hle
    | none =>
      rw [log_bind_none ha]
      refine (hf.grows hle).trans ?_
      cases hm : (f m).val with
      | none =>
        rw [log_bind_none hm]
      | some a =>
        rw [log_bind_some hm]
        exact List.prefix_append _ _

theorem growing_loop (body : σ → Traced ε (Pass σ ρ)) (s : σ) :
    Growing fun n => loop body n s := by
  constructor
  · intro n m r h hle
    exact loop_mono body h hle
  · intro n m hle
    induction n generalizing m s with
    | zero => exact List.nil_prefix
    | succ n ih =>
      obtain ⟨m, rfl⟩ : ∃ k, m = k+1 := ⟨m-1, by omega⟩
      simp only [loop]
      cases hb : (body s).val with
      | none =>
        rw [log_bind_none hb, log_bind_none hb]
      | some p =>
        rw [log_bind_some hb, log_bind_some hb, List.prefix_append_right_inj]
        cases p with
        | again s' => exact ih s' (by omega)
        | leave r => exact List.prefix_rfl

theorem gives_const (x : Traced ε α) (a : α) : Gives (fun _ => x) a ↔ x.val = some a := by
  simp [Gives]

theorem Growing.unique {f : Nat → Traced ε α} (hf : Growing f) {a b : α} (ha : Gives f a)
    (hb : Gives f b) : a = b := by
  obtain ⟨n, hn⟩ := ha
  obtain ⟨m, hm⟩ := hb
  have h1 := hf.settled hn (Nat.le_max_left n m)
  have h2 := hf.settled hm (Nat.le_max_right n m)
  rw [h1] at h2
  rw [← h2] at hm
  exact Option.some.inj (hn.symm.trans hm)

theorem gives_bind {f : Nat → Traced ε α} {g : α → Nat → Traced ε β} (hf : Growing f)
    (hg : ∀ a, Growing (g a)) (b : β) :
    Gives (fun n => f n >>= fun a => g a n) b ↔ ∃ a, Gives f a ∧ Gives (g a) b := by
  constructor
  · rintro ⟨n, hn⟩
    simp only [val_bind, Option.bind_eq_some_iff] at hn
    obtain ⟨a, ha, hb⟩ := hn
    exact ⟨a, ⟨n, ha⟩, ⟨n, hb⟩⟩
  · rintro ⟨a, ⟨n, hn⟩, ⟨m, hm⟩⟩
    refine ⟨max n m, ?_⟩
    rw [val_bind, hf.settled hn (Nat.le_max_left n m), hn, Option.bind_some,
      (hg a).settled hm (Nat.le_max_right n m), hm]

theorem returns_bind {f : Nat → Traced ε α} {g : α → Nat → Traced ε β} (hf : Growing f)
    (hg : ∀ a, Growing (g a)) :
    Returns (fun n => f n >>= fun a => g a n) ↔ ∃ a, Gives f a ∧ Returns (g a) := by
  unfold Returns
  constructor
  · rintro ⟨b, hb⟩
    obtain ⟨a, ha, hb⟩ := (gives_bind hf hg b).mp hb
    exact ⟨a, ha, b, hb⟩
  · rintro ⟨a, ha, b, hb⟩
    exact ⟨b, (gives_bind hf hg b).mpr ⟨a, ha, hb⟩⟩

theorem allLogs_bind (p : ε → Prop) {f : Nat → Traced ε α} {g : α → Nat → Traced ε β}
    (hf : Growing f) (hg : ∀ a, Growing (g a)) :
    AllLogs p (fun n => f n >>= fun a => g a n) ↔
      AllLogs p f ∧ ∀ a, Gives f a → AllLogs p (g a) := by
  unfold AllLogs
  simp only [logs_bind]
  constructor
  · intro h
    refine ⟨fun n => (h n).1, ?_⟩
    rintro a ⟨n, hn⟩ m e he
    have hv : (f (max n m)).val = some a := by rw [hf.settled hn (Nat.le_max_left n m), hn]
    exact (h (max n m)).2 a hv e (((hg a).grows (Nat.le_max_right n m)).subset he)
  · rintro ⟨h1, h2⟩ n
    exact ⟨h1 n, fun a ha => h2 a ⟨n, ha⟩ n⟩

def Settles (f : Nat → Traced ε α) (a : α) : Prop := ∃ n, ∀ m, n ≤ m → (f m).val = some a

theorem settles_const {x : Traced ε α} {a : α} (h : x.val = some a) : Settles (fun _ => x) a :=
  ⟨0, fun _ _ => h⟩

theorem Growing.settles {f : Nat → Traced ε α} (hf : Growing f) {a : α} (h : Gives f a) :
    Settles f a := by
  obtain ⟨n, hn⟩ := h
  exact ⟨n, fun m hm => by rw [hf.settled hn hm, hn]⟩

theorem Settles.gives {f : Nat → Traced ε α} {a : α} (h : Settles f a) : Gives f a := by
  obtain ⟨n, hn⟩ := h
  exact ⟨n, hn n (Nat.le_refl n)⟩

theorem Settles.bind {f : Nat → Traced ε α} {g : α → Nat → Traced ε β} {a : α} {b : β}
    (hf : Settles f a) (hg : Settles (g a) b) : Settles (fun n => f n >>= fun a => g a n) b := by
  obtain ⟨n, hn⟩ := hf
  obtain ⟨m, hm⟩ := hg
  refine ⟨max n m, fun k hk => ?_⟩
  rw [val_bind, hn k (by omega), Option.bind_some, hm k (by omega)]

/-- A property of computations that splits along `>>=`: the first part has it, and
the second part wherever the first can leave off. -/
structure Splits (Φ : ∀ α : Type, (Nat → Traced ε α) → Prop) : Prop where
  ret : ∀ {α : Type} (a : α), Φ α fun _ => pure a
  bind : ∀ {α β : Type} {f : Nat → Traced ε α} {g : α → Nat → Traced ε β}, Growing f →
    (∀ a, Growing (g a)) →
    (Φ β (fun n => f n >>= fun a => g a n) ↔ Φ α f ∧ ∀ a, Gives f a → Φ β (g a))

theorem splits_allLogs (p : ε → Prop) : Splits fun _ f => AllLogs p f :=
  ⟨fun a _ => logs_pure p a, allLogs_bind p⟩

theorem splits_returns : Splits (ε := ε) fun _ f => Returns f := by
  refine ⟨fun a => ⟨a, 0, rfl⟩, fun hf hg => ?_⟩
  rw [returns_bind hf hg]
  constructor
  · rintro ⟨a, ha, hr⟩
    refine ⟨⟨a, ha⟩, fun b hb => ?_⟩
    rwa [hf.unique hb ha]
  · rintro ⟨⟨a, ha⟩, h⟩
    exact ⟨a, ha, h a ha⟩

end Traced
end Flingd
