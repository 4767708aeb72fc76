import Mathlib

/-!
# Loops that add up

A loop `for e in l { s = step(s, e) }` seen through one quantity of its state.
-/

namespace MiniSbAgent.Lib

variable {S E M : Type} [AddCommMonoid M]

/-- Each turn of the loop keeps `P` and adds `gain e` to the quantity `val`, so the loop adds their sum. -/
theorem foldl_gain (step : S → E → S) (P : S → Prop) (val : S → M) (gain : E → M) (l : List E)
    (hP : ∀ s, ∀ e ∈ l, P s → P (step s e)) (hval : ∀ s, ∀ e ∈ l, P s → val (step s e) = val s + gain e)
    {s : S} (h : P s) : val (l.foldl step s) = val s + (l.map gain).sum := by
  induction l generalizing s with
  | nil => simp
  | cons e l ih =>
    have htail := ih (fun s e' he' => hP s e' (List.mem_cons_of_mem _ he'))
      (fun s e' he' => hval s e' (List.mem_cons_of_mem _ he')) (hP s e List.mem_cons_self h)
    rw [List.foldl_cons, htail, hval s e List.mem_cons_self h, List.map_cons, List.sum_cons, add_assoc]

end MiniSbAgent.Lib
