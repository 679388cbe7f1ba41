import Flingd.App.Queue

/-! One application at a time, and the state that a GET reports of it. -/
namespace Flingd.App
open Outcome
namespace ApplicationManager
variable {m : ApplicationManager} {ph : Phase} {q : List Nat} {app : Nat}

/-- A deleted application stays in its slot only where it was handed to the platform. -/
def HandsDangling (ph : Phase) (c : Course) : Prop :=
  c.Sat fun ph' _ marks => ∀ app, ph' = .dangling app → ph = .dangling app ∨ .handed app ∈ marks

theorem HandsDangling.same : HandsDangling ph (some (ph, q, [])) :=
  Course.sat_some.mpr fun _ h => .inl h

/-- A stop does not hand anything over, and what follows it does so on its own. -/
theorem HandsDangling.next {f : Phase → List Nat → Course}
    (hf : ∀ ph' q', ph' = .idle ∨ (∃ app, ph' = .stopping app) → HandsDangling ph (f ph' q')) :
    HandsDangling ph ((m.stopTo ph q).next f) := by
  have hstopped : (m.stopTo ph q).Sat fun ph' _ _ => ph' = .idle ∨ ∃ app, ph' = .stopping app :=
    fun _ _ _ h => stopTo_stopping h
  refine hstopped.next fun ph' q' marks hph => ?_
  exact (hf ph' q' hph).mono fun _ _ _ h i hi => (h i hi).imp id (List.mem_append_right _)

end ApplicationManager

namespace Daemon
variable {s s' : Daemon} {ph : Phase} {q : List Nat}

end Daemon
end Flingd.App
