import Mathlib.Data.List.Basic

/-! Runs of steps that may fail, and the emission of a signal. -/
namespace Flingd.Outcome
variable {φ σ ε α β : Type}

theorem bind_eq_ok {x : Except φ α} {f : α → Except φ β} {b : β} :
    x >>= f = .ok b ↔ ∃ a, x = .ok a ∧ f a = .ok b := by
  cases x <;> simp [bind, Except.bind]

@[simp] theorem ok_bind (a : α) (f : α → Except φ β) : (Except.ok a >>= f) = f a := rfl

def Returns (x : Except φ α) : Prop := ∃ a, x = .ok a

theorem Returns.ok (a : α) : Returns (.ok a : Except φ α) := ⟨a, rfl⟩

theorem not_returns_error (f : φ) : ¬ Returns (.error f : Except φ α) := by
  rintro ⟨a, h⟩
  cases h

theorem returns_bind {x : Except φ α} {f : α → Except φ β} :
    Returns (x >>= f) ↔ ∃ a, x = .ok a ∧ Returns (f a) := by
  constructor
  · rintro ⟨b, h⟩
    obtain ⟨a, ha, hb⟩ := bind_eq_ok.mp h
    exact ⟨a, ha, b, hb⟩
  · rintro ⟨a, ha, b, hb⟩
    exact ⟨b, bind_eq_ok.mpr ⟨a, ha, hb⟩⟩

theorem returns_bind_ok {x : Except φ α} {g : α → β} :
    Returns (x >>= fun a => .ok (g a)) ↔ Returns x := by
  rw [returns_bind]
  exact ⟨fun ⟨a, ha, _⟩ => ⟨a, ha⟩, fun ⟨a, ha⟩ => ⟨a, ha, .ok _⟩⟩

/-- What every step keeps, every run keeps that comes to its end. -/
theorem foldlM_keeps {step : σ → ε → Except φ σ} {I : σ → Prop} {es : List ε}
    (h : ∀ s s', ∀ e ∈ es, I s → step s e = .ok s' → I s') {s s' : σ} (hs : I s)
    (hr : es.foldlM step s = .ok s') : I s' := by
  induction es generalizing s with
  | nil =>
    cases hr
    exact hs
  | cons e es ih =>
    rw [List.foldlM_cons, bind_eq_ok] at hr
    obtain ⟨s₁, h₁, hr⟩ := hr
    exact ih (fun s s' e he => h s s' e (List.mem_cons_of_mem _ he)) (h s s₁ e (by simp) hs h₁) hr

theorem foldlM_append_ok {step : σ → ε → Except φ σ} {es fs : List ε} {s s' : σ} :
    (es ++ fs).foldlM step s = .ok s' ↔
      ∃ s₁, es.foldlM step s = .ok s₁ ∧ fs.foldlM step s₁ = .ok s' := by
  rw [List.foldlM_append, bind_eq_ok]

/-- A handler connected `n` times to a signal runs `n` times, one after the other. -/
def runSlots (handler : σ → Except φ σ) : Nat → σ → Except φ σ
  | 0, s => .ok s
  | n+1, s => do
    let s ← handler s
    runSlots handler n s

theorem runSlots_keeps {handler : σ → Except φ σ} {I : σ → Prop}
    (hk : ∀ t t', I t → handler t = .ok t' → I t') {n : Nat} {s s' : σ} (hs : I s)
    (h : runSlots handler n s = .ok s') : I s' := by
  induction n generalizing s with
  | zero =>
    cases h
    exact hs
  | succ n ih =>
    obtain ⟨s₁, h₁, h⟩ := bind_eq_ok.mp h
    exact ih (hk s s₁ hs h₁) h

@[simp] theorem runSlots_one (handler : σ → Except φ σ) (s : σ) :
    runSlots handler 1 s = handler s := by
  cases h : handler s <;> simp [runSlots, h, bind, Except.bind]

def counted (handler : σ → Except φ σ) (x : σ × Nat) : Except φ (σ × Nat) :=
  (handler x.1).map fun s => (s, x.2 + 1)

theorem runSlots_counted (handler : σ → Except φ σ) (n : Nat) (s : σ) (k : Nat) :
    runSlots (counted handler) n (s, k) = (runSlots handler n s).map fun s => (s, k + n) := by
  induction n generalizing s k with
  | zero => rfl
  | succ n ih =>
    rw [runSlots, runSlots, counted]
    cases handler s with
    | error e => rfl
    | ok s' =>
      have hrest := ih s' (k + 1)
      rw [show k + 1 + n = k + (n + 1) by omega] at hrest
      exact hrest

/-! ### How a computation ends -/

/-- A computation ends with a result as in `post`, or with a F as in `F`. -/
def Ends (x : Except φ α) (F : φ → Prop) (post : α → Prop) : Prop :=
  match x with
  | .ok a => post a
  | .error f => F f

section
variable {x : Except φ α} {F F' : φ → Prop} {post post' : α → Prop}

theorem Ends.ok {a : α} (h : post a) : Ends (.ok a) F post := h

theorem Ends.error {f : φ} (h : F f) : Ends (.error f) F post := h

theorem Ends.of_ok {a : α} (h : Ends x F post) (hx : x = .ok a) : post a := by
  subst hx
  exact h

theorem Ends.of_error {f : φ} (h : Ends x F post) (hx : x = .error f) : F f := by
  subst hx
  exact h

theorem Ends.mono (h : Ends x F post) (hf : ∀ f, F f → F' f) (hp : ∀ a, post a → post' a) :
    Ends x F' post' := by
  cases x with
  | ok a => exact hp a h
  | error f => exact hf f h

theorem Ends.bind {g : α → Except φ β} {goal : β → Prop} (h : Ends x F post)
    (hg : ∀ a, x = .ok a → post a → Ends (g a) F goal) : Ends (x >>= g) F goal := by
  cases x with
  | ok a => exact hg a rfl h
  | error f => exact h

theorem Ends.map {g : α → β} {goal : β → Prop} (h : Ends x F fun a => goal (g a)) :
    Ends (x.map g) F goal := by
  cases x with
  | ok a => exact h
  | error f => exact h

theorem Ends.runSlots {handler : σ → Except φ σ} {I : σ → Prop} {F : φ → Prop}
    (h : ∀ s, I s → Ends (handler s) F I) {n : Nat} {s : σ} (hs : I s) :
    Ends (runSlots handler n s) F I := by
  induction n generalizing s with
  | zero => exact hs
  | succ n ih => exact (h s hs).bind fun a _ ha => ih ha

theorem Ends.foldlM {step : σ → ε → Except φ σ} {I : σ → Prop} {F : φ → Prop} {es : List ε}
    (h : ∀ s, ∀ e ∈ es, I s → Ends (step s e) F I) {s : σ} (hs : I s) :
    Ends (es.foldlM step s) F I := by
  induction es generalizing s with
  | nil => exact hs
  | cons e es ih =>
    rw [List.foldlM_cons]
    exact (h s e (by simp) hs).bind fun a _ ha => ih (fun s e he => h s e (by simp [he])) ha

end

def yields (x : Except φ α) (test : α → Bool) : Bool :=
  match x with
  | .ok a => test a
  | .error _ => false

theorem yields_iff {x : Except φ α} {test : α → Bool} :
    yields x test = true ↔ ∃ a, x = .ok a ∧ test a = true := by
  cases x <;> simp [yields]

def faults [DecidableEq φ] (x : Except φ α) (f : φ) : Bool :=
  match x with
  | .ok _ => false
  | .error e => e = f

theorem faults_iff [DecidableEq φ] {x : Except φ α} {f : φ} :
    faults x f = true ↔ x = .error f := by
  cases x <;> simp [faults]

/-- Every step of the run is taken from a state and with an event as in `P`. -/
def Meets (step : σ → ε → Except φ σ) (P : σ → ε → Prop) : σ → List ε → Prop
  | _, [] => True
  | s, e :: es => P s e ∧
    match step s e with
    | .ok s' => Meets step P s' es
    | .error _ => True

instance Meets.decidable {step : σ → ε → Except φ σ} {P : σ → ε → Prop}
    [∀ s e, Decidable (P s e)] : ∀ s es, Decidable (Meets step P s es)
  | _, [] => isTrue trivial
  | s, e :: es =>
    have : Decidable (match step s e with
        | .ok s' => Meets step P s' es
        | .error _ => True) :=
      match step s e with
      | .ok s' => Meets.decidable s' es
      | .error _ => isTrue trivial
    inferInstanceAs (Decidable (P s e ∧ _))

theorem Meets.ends {step : σ → ε → Except φ σ} {P : σ → ε → Prop} {I : σ → Prop}
    {F : φ → Prop} {es : List ε} (hstep : ∀ s e, I s → P s e → Ends (step s e) F I)
    {s : σ} (h : Meets step P s es) (hs : I s) : Ends (es.foldlM step s) F I := by
  induction es generalizing s with
  | nil => exact hs
  | cons e es ih =>
    obtain ⟨he, hes⟩ := h
    rw [List.foldlM_cons]
    refine (hstep s e hs he).bind fun s' hs' hinv => ?_
    rw [hs'] at hes
    exact ih hes hinv

/-- What a step outside `P` leaves behind stays, and it is not there at the end. -/
theorem Meets.of_run {step : σ → ε → Except φ σ} {P : σ → ε → Prop} {D : σ → Prop} {F : φ → Prop}
    (hbad : ∀ s e, ¬ P s e → Ends (step s e) F D) (hkeep : ∀ s e, D s → Ends (step s e) F D)
    {es : List ε} {s t : σ} (hrun : es.foldlM step s = .ok t) (ht : ¬ D t) : Meets step P s es := by
  induction es generalizing s with
  | nil => trivial
  | cons e es ih =>
    obtain ⟨s', hs', hrest⟩ := bind_eq_ok.mp (List.foldlM_cons.symm.trans hrun)
    refine ⟨?_, ?_⟩
    · by_contra he
      have hs'' : D s' := (hbad s e he).of_ok hs'
      exact ht ((Ends.foldlM (fun s e _ => hkeep s e) hs'').of_ok hrest)
    · rw [hs']
      exact ih hrest

/-- The condition holds wherever the run has come to. -/
theorem Meets.split {step : σ → ε → Except φ σ} {P : σ → ε → Prop} {es fs : List ε} {e : ε} {s u : σ}
    (h : Meets step P s (es ++ e :: fs)) (hrun : es.foldlM step s = .ok u) :
    Meets step P s es ∧ P u e := by
  induction es generalizing s with
  | nil =>
    cases hrun
    exact ⟨trivial, h.1⟩
  | cons f es ih =>
    obtain ⟨s', hs', hrun⟩ := bind_eq_ok.mp (List.foldlM_cons.symm.trans hrun)
    obtain ⟨hf, hrest⟩ := h
    rw [List.append_eq, hs'] at hrest
    refine ⟨⟨hf, ?_⟩, (ih hrest hrun).2⟩
    rw [hs']
    exact (ih hrest hrun).1

end Flingd.Outcome
