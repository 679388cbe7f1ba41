import Mathlib.Data.List.Infix

/-! A stream of encoded messages that arrives in pieces. -/
namespace Flingd
variable {α β σ : Type*} {encode : β → List α} {todo ms : List β} {p b piece x y : List α}

theorem prefix_append_cases (h : p <+: x ++ y) : p <+: x ∨ ∃ q, p = x ++ q ∧ q <+: y := by
  by_cases hx : x <+: p
  · obtain ⟨q, rfl⟩ := hx
    exact .inr ⟨q, rfl, (List.prefix_append_right_inj x).mp h⟩
  · have hle := List.prefix_or_prefix_of_prefix h (List.prefix_append x y)
    exact .inl (hle.resolve_right hx)

/-- What is read of the messages `todo` and not yet decoded: a part of the first, and not all
of it. -/
def Begun (encode : β → List α) : List β → List α → Prop
  | [], b => b = []
  | m :: _, b => b <+: encode m ∧ b ≠ encode m

/-- A beginning of the stream is a number of messages, and what is begun of the others. -/
theorem exists_begun (hne : ∀ m ∈ todo, encode m ≠ []) (hp : p <+: todo.flatMap encode) :
    ∃ done rest b, todo = done ++ rest ∧ p = done.flatMap encode ++ b ∧ Begun encode rest b := by
  induction todo generalizing p with
  | nil => exact ⟨[], [], [], rfl, List.prefix_nil.mp hp, rfl⟩
  | cons m todo ih =>
    have hnext {q : List α} (hq : p = encode m ++ q) (hle : q <+: todo.flatMap encode) :
        ∃ done rest b, m :: todo = done ++ rest ∧ p = done.flatMap encode ++ b ∧
          Begun encode rest b := by
      obtain ⟨done, rest, b, rfl, rfl, hb⟩ := ih (fun m hm => hne m (by simp [hm])) hle
      exact ⟨m :: done, rest, b, rfl, by rw [hq, List.flatMap_cons, List.append_assoc], hb⟩
    rw [List.flatMap_cons] at hp
    by_cases hm : p = encode m
    · exact hnext (by rw [hm, List.append_nil]) List.nil_prefix
    · rcases prefix_append_cases hp with hp | ⟨q, hq, hle⟩
      · exact ⟨[], m :: todo, p, rfl, rfl, hp, hm⟩
      · exact hnext hq hle

/-- All of the stream is read when nothing follows. -/
theorem Begun.eq_nil (h : Begun encode todo b) (hall : b = todo.flatMap encode) : todo = [] := by
  cases todo with
  | nil => rfl
  | cons m todo =>
    rw [List.flatMap_cons] at hall
    have hle := h.1.length_le
    have hrest : (todo.flatMap encode).length = 0 := by
      rw [hall, List.length_append] at hle
      omega
    rw [List.length_eq_zero_iff.mp hrest, List.append_nil] at hall
    exact absurd hall h.2

/-- What is read later begins with the messages that are complete by now. -/
theorem begun_extends {done rest done' rest' : List β} {b' z : List α}
    (hsplit : done ++ rest = done' ++ rest')
    (h : done.flatMap encode ++ b ++ z = done'.flatMap encode ++ b') (hb : Begun encode rest' b') :
    ∃ d, done' = done ++ d ∧ rest = d ++ rest' ∧ b ++ z = d.flatMap encode ++ b' := by
  rcases List.append_eq_append_iff.mp hsplit with ⟨d, rfl, rfl⟩ | ⟨d, rfl, rfl⟩
  · rw [List.flatMap_append, List.append_assoc, List.append_assoc] at h
    exact ⟨d, rfl, rfl, List.append_cancel_left h⟩
  · cases d with
    | nil =>
      rw [List.append_nil, List.append_assoc] at h
      exact ⟨[], by simp, rfl, List.append_cancel_left h⟩
    | cons m d =>
      -- The message `m` is complete, so it is not what is begun.
      rw [List.flatMap_append, List.flatMap_cons, List.append_assoc, List.append_assoc,
        List.append_assoc] at h
      have h := List.append_cancel_left h
      have hle := hb.1.length_le
      rw [← h, List.length_append] at hle
      exact absurd (hb.1.eq_of_length (by rw [← h, List.length_append]; omega)) hb.2

/-- A decoder that takes one piece rightly takes any pieces rightly. `Holds` relates what is
decoded and what is begun to the state. -/
theorem foldl_pieces {step : σ → List α → σ} {Holds : List β → List α → σ → Prop}
    (hne : ∀ m ∈ ms, encode m ≠ [])
    (hstep : ∀ s out done rest b piece b', ms = out ++ done ++ rest → Holds out b s →
      b ++ piece = done.flatMap encode ++ b' → Begun encode rest b' →
      Holds (out ++ done) b' (step s piece))
    {s : σ} (h : Holds [] [] s) {pieces : List (List α)}
    (hcut : pieces.flatten = ms.flatMap encode) : Holds ms [] (pieces.foldl step s) := by
  have hrun (pieces : List (List α)) (out todo : List β) (b : List α) (s : σ)
      (hms : ms = out ++ todo) (hb : Begun encode todo b) (h : Holds out b s)
      (hcut : b ++ pieces.flatten = todo.flatMap encode) : Holds ms [] (pieces.foldl step s) := by
    induction pieces generalizing out todo b s with
    | nil =>
      rw [List.flatten_nil, List.append_nil] at hcut
      obtain rfl := hb.eq_nil hcut
      obtain rfl : b = [] := hcut
      rw [hms, List.append_nil]
      exact h
    | cons piece pieces ih =>
      rw [List.flatten_cons, ← List.append_assoc] at hcut
      have hne' : ∀ m ∈ todo, encode m ≠ [] := fun m hm => hne m (by simp [hms, hm])
      obtain ⟨done, rest, b', rfl, hp, hb'⟩ := exists_begun hne' ⟨_, hcut⟩
      rw [List.foldl_cons]
      refine ih (out ++ done) rest b' _ (by rw [hms, List.append_assoc]) hb' ?_ ?_
      · exact hstep s out done rest b piece b' (by rw [hms, List.append_assoc]) h hp hb'
      · rw [hp, List.flatMap_append, List.append_assoc] at hcut
        exact List.append_cancel_left hcut
  refine hrun pieces [] ms [] s rfl ?_ h hcut
  cases ms with
  | nil => rfl
  | cons m ms => exact ⟨List.nil_prefix, (hne m (by simp)).symm⟩

end Flingd
