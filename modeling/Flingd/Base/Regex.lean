import Mathlib.Data.List.TakeWhile

/-! Regular expressions that are matched by backtracking. The ways in which an expression matches
the front of a text are listed in the order in which they are tried. -/
namespace Flingd

/-- Units are of type `α`; the groups that are captured have names in `ι`. -/
inductive Regex (ι α : Type) where
  /-- At least `lo` and at most `hi` units of a class, as many as possible. -/
  | units (p : α → Bool) (lo : Nat) (hi : Option Nat)
  | seq (r r' : Regex ι α)
  /-- Once, or else not at all. -/
  | optional (r : Regex ι α)
  | group (name : ι) (r : Regex ι α)

namespace Regex
variable {ι α β : Type}

structure Way (ι α : Type) where
  captures : List (ι × List α)
  rest : List α

/-- What a row of units leaves: one unit more is tried before the row ends. -/
def unitRests (p : α → Bool) : Nat → Option Nat → List α → List (List α)
  | lo, _, [] => if lo = 0 then [[]] else []
  | lo, hi, c :: s =>
    (if p c ∧ hi ≠ some 0 then unitRests p (lo - 1) (hi.map (· - 1)) s else []) ++
      if lo = 0 then [c :: s] else []

def ways : Regex ι α → List α → List (Way ι α)
  | units p lo hi, s => (unitRests p lo hi s).map fun rest => ⟨[], rest⟩
  | seq r r', s => (ways r s).flatMap fun w =>
      (ways r' w.rest).map fun w' => ⟨w.captures ++ w'.captures, w'.rest⟩
  | optional r, s => ways r s ++ [⟨[], s⟩]
  | group name r, s => (ways r s).map fun w =>
      ⟨(name, s.take (s.length - w.rest.length)) :: w.captures, w.rest⟩

/-- The captures of the first way that leaves nothing. -/
def fullMatch (r : Regex ι α) (s : List α) : Option (List (ι × List α)) :=
  (ways r s).findSome? fun w => if w.rest.isEmpty then some w.captures else none

/-- A group that has captured nothing is empty. -/
def capture [DecidableEq ι] (captures : List (ι × List α)) (name : ι) : List α :=
  ((captures.find? (·.1 = name)).map (·.2)).getD []

def one (p : α → Bool) : Regex ι α := units p 1 (some 1)

def many (p : α → Bool) : Regex ι α := units p 0 none

/-! ### What is tried first -/

def attempt (r : Regex ι α) (s : List α) (k : Way ι α → Option β) : Option β :=
  (ways r s).findSome? k

theorem attempt_seq (r r' : Regex ι α) (s : List α) (k : Way ι α → Option β) :
    attempt (seq r r') s k = attempt r s fun w =>
      attempt r' w.rest fun w' => k ⟨w.captures ++ w'.captures, w'.rest⟩ := by
  unfold attempt
  rw [ways]
  induction ways r s with
  | nil => rfl
  | cons w ws ih =>
    rw [List.flatMap_cons, List.findSome?_append, ih, List.findSome?_map, List.findSome?_cons,
      Function.comp_def]
    cases (ways r' w.rest).findSome? fun w' => k ⟨w.captures ++ w'.captures, w'.rest⟩ <;> rfl

theorem attempt_optional (r : Regex ι α) (s : List α) (k : Way ι α → Option β) :
    attempt (optional r) s k = (attempt r s k).or (k ⟨[], s⟩) := by
  unfold attempt
  rw [ways, List.findSome?_append, List.findSome?_singleton]

theorem attempt_group (name : ι) (r : Regex ι α) (s : List α) (k : Way ι α → Option β) :
    attempt (group name r) s k = attempt r s fun w =>
      k ⟨(name, s.take (s.length - w.rest.length)) :: w.captures, w.rest⟩ := by
  unfold attempt
  rw [ways, List.findSome?_map]
  rfl

/-- Where nothing that begins with a unit of the class can be gone on with, only the longest row
counts. -/
theorem attempt_units {p : α → Bool} {k : Way ι α → Option β}
    (h : ∀ c s, p c = true → k ⟨[], c :: s⟩ = none) (lo : Nat) (hi : Option Nat) (s : List α) :
    attempt (units p lo hi) s k =
      if lo ≤ (s.takeWhile p).length ∧ ∀ m ∈ hi, (s.takeWhile p).length ≤ m then
        k ⟨[], s.dropWhile p⟩
      else none := by
  have hrest (s : List α) (lo : Nat) (hi : Option Nat) :
      (unitRests p lo hi s).findSome? (fun rest => k ⟨[], rest⟩) =
        if lo ≤ (s.takeWhile p).length ∧ ∀ m ∈ hi, (s.takeWhile p).length ≤ m then
          k ⟨[], s.dropWhile p⟩
        else none := by
    induction s generalizing lo hi with
    | nil =>
      rw [unitRests]
      by_cases hlo : lo = 0 <;> simp [hlo]
    | cons c s ih =>
      rw [unitRests, List.findSome?_append]
      cases hc : p c with
      | false =>
        rw [if_neg (by simp), List.takeWhile_cons_of_neg (by simp [hc]),
          List.dropWhile_cons_of_neg (by simp [hc])]
        by_cases hlo : lo = 0 <;> simp [hlo]
      | true =>
        have hstop :
            (if lo = 0 then [c :: s] else []).findSome? (fun rest => k ⟨[], rest⟩) = none := by
          split <;> simp [h c s hc]
        rw [hstop, Option.or_none, List.takeWhile_cons_of_pos hc, List.dropWhile_cons_of_pos hc,
          List.length_cons]
        by_cases hhi : hi = some 0
        · subst hhi
          simp
        · rw [if_pos ⟨rfl, hhi⟩, ih]
          have hbound : (lo - 1 ≤ (s.takeWhile p).length ∧
              ∀ m ∈ hi.map (· - 1), (s.takeWhile p).length ≤ m) ↔
              lo ≤ (s.takeWhile p).length + 1 ∧ ∀ m ∈ hi, (s.takeWhile p).length + 1 ≤ m := by
            refine and_congr (by omega) ?_
            cases hi with
            | none => simp
            | some m =>
              have hm : m ≠ 0 := fun hm => hhi (congrArg some hm)
              simp only [Option.map_some, Option.mem_def, Option.some.injEq, forall_eq']
              omega
          simp only [hbound]
  unfold attempt
  rw [ways, List.findSome?_map]
  exact hrest s lo hi

theorem attempt_many {p : α → Bool} {k : Way ι α → Option β}
    (h : ∀ c s, p c = true → k ⟨[], c :: s⟩ = none) (s : List α) :
    attempt (many p) s k = k ⟨[], s.dropWhile p⟩ := by
  rw [many, attempt_units h, if_pos ⟨Nat.zero_le _, fun _ hm => nomatch hm⟩]

theorem attempt_one_cons (p : α → Bool) (c : α) (s : List α) (k : Way ι α → Option β) :
    attempt (one p) (c :: s) k = if p c then k ⟨[], s⟩ else none := by
  unfold attempt
  rw [one, ways]
  cases hc : p c <;> cases s <;> simp [unitRests, hc]

/-! ### Full matches -/

/-- The rest of a sequence is matched by itself. -/
theorem fullMatch_seq (r r' : Regex ι α) (s : List α) : fullMatch (seq r r') s =
    attempt r s fun w => (fullMatch r' w.rest).map (w.captures ++ ·) := by
  refine (attempt_seq r r' s _).trans ?_
  congr 1
  funext w
  unfold fullMatch attempt
  rw [List.map_findSome?]
  congr 1
  funext w'
  rw [Function.comp_apply]
  split <;> rfl

/-- What may be left out is left out only where the rest does not match behind it. -/
theorem fullMatch_seq_optional (r r' : Regex ι α) (s : List α) :
    fullMatch (seq (optional r) r') s = (fullMatch (seq r r') s).or (fullMatch r' s) := by
  rw [fullMatch_seq, fullMatch_seq, attempt_optional]
  congr 1
  exact Option.map_id_apply

theorem fullMatch_optional (r : Regex ι α) (s : List α) :
    fullMatch (optional r) s = (fullMatch r s).or (if s.isEmpty then some [] else none) :=
  attempt_optional r s _

end Regex
end Flingd
