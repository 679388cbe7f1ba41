import Flingd.Base.Outcome

/-! What goes into a system along a run, what waits in it, and what comes out. -/
namespace Flingd.Ledger
open Outcome
variable {φ σ ε α β : Type} {step : σ → ε → Except φ σ}

def along (step : σ → ε → Except φ σ) (note : σ → ε → σ → List α) : σ → List ε → List α
  | _, [] => []
  | s, e :: es =>
    match step s e with
    | .ok s' => note s e s' ++ along step note s' es
    | .error _ => []

theorem along_cons {note : σ → ε → σ → List α} {s s' : σ} {e : ε} (h : step s e = .ok s')
    (es : List ε) : along step note s (e :: es) = note s e s' ++ along step note s' es := by
  rw [along, h]

theorem along_filterMap (note : σ → ε → σ → List α) (f : α → Option β) (s : σ) (es : List ε) :
    (along step note s es).filterMap f =
      along step (fun s e s' => (note s e s').filterMap f) s es := by
  induction es generalizing s with
  | nil => rfl
  | cons e es ih =>
    unfold along
    split
    · rw [List.filterMap_append, ih]
    · rfl

theorem along_filter (note : σ → ε → σ → List α) (p : α → Bool) (s : σ) (es : List ε) :
    (along step note s es).filter p = along step (fun s e s' => (note s e s').filter p) s es := by
  simp only [← List.filterMap_eq_filter]
  exact along_filterMap note _ s es

/-- What is noted is noted of a step that the run takes. -/
theorem mem_along {note : σ → ε → σ → List α} {s : σ} {es : List ε} {a : α}
    (h : a ∈ along step note s es) : ∃ before e after s₁ s₂, es = before ++ e :: after ∧
      before.foldlM step s = .ok s₁ ∧ step s₁ e = .ok s₂ ∧ a ∈ note s₁ e s₂ := by
  induction es generalizing s with
  | nil => exact absurd h List.not_mem_nil
  | cons e es ih =>
    unfold along at h
    split at h
    · rename_i s' hs'
      rcases List.mem_append.mp h with h | h
      · exact ⟨[], e, es, s, s', rfl, rfl, hs', h⟩
      · obtain ⟨before, e', after, s₁, s₂, rfl, h₁, h₂, ha⟩ := ih h
        refine ⟨e :: before, e', after, s₁, s₂, rfl, ?_, h₂, ha⟩
        rw [List.foldlM_cons, hs', ok_bind, h₁]
    · exact absurd h List.not_mem_nil

/-! ### What is passed on in order -/

/-- What comes out, and then what waits, is in order among what waited, and then what went in. -/
def InOrder (waited into out waits : List α) : Prop := (out ++ waits).Sublist (waited ++ into)

theorem InOrder.refl (waits : List α) : InOrder waits [] [] waits := by
  unfold InOrder
  rw [List.nil_append, List.append_nil]

theorem InOrder.trans {w₀ w₁ w₂ into₁ into₂ out₁ out₂ : List α} (h₁ : InOrder w₀ into₁ out₁ w₁)
    (h₂ : InOrder w₁ into₂ out₂ w₂) : InOrder w₀ (into₁ ++ into₂) (out₁ ++ out₂) w₂ := by
  have hsecond : (out₁ ++ (out₂ ++ w₂)).Sublist (out₁ ++ (w₁ ++ into₂)) := h₂.append_left out₁
  have hfirst : ((out₁ ++ w₁) ++ into₂).Sublist ((w₀ ++ into₁) ++ into₂) := h₁.append_right into₂
  unfold InOrder
  rw [List.append_assoc, ← List.append_assoc w₀]
  rw [List.append_assoc] at hfirst
  exact hsecond.trans hfirst

/-- What waits may be lost. -/
theorem InOrder.lose {waited waits : List α} (h : waits.Sublist waited) :
    InOrder waited [] [] waits := by
  unfold InOrder
  rwa [List.nil_append, List.append_nil]

/-- What every step passes on in order, every run does. -/
theorem along_inOrder {I : σ → Prop} (waits : σ → List α) (into out : σ → ε → σ → List α)
    (hstep : ∀ s e s', I s → step s e = .ok s' →
      I s' ∧ InOrder (waits s) (into s e s') (out s e s') (waits s'))
    {s s' : σ} {es : List ε} (hs : I s) (hrun : es.foldlM step s = .ok s') :
    InOrder (waits s) (along step into s es) (along step out s es) (waits s') := by
  induction es generalizing s with
  | nil =>
    cases hrun
    exact .refl _
  | cons e es ih =>
    obtain ⟨s₁, h₁, hrest⟩ := bind_eq_ok.mp (List.foldlM_cons.symm.trans hrun)
    obtain ⟨hs₁, hfirst⟩ := hstep s e s₁ hs h₁
    rw [along_cons h₁, along_cons h₁]
    exact hfirst.trans (ih hs₁ hrest)

end Flingd.Ledger
