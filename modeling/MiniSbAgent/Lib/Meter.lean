import Mathlib

/-!
# Two-phase metering

A meter counts what is consumed on one account and reports it to a ledger elsewhere.  It takes what is still to be
reported, tries to deliver it, and once it knows the outcome settles the account or leaves it as it was.  More may
be consumed at any time.

* `Step` — what can happen to the account;
* `Fair` — what every step keeps: the ledger has what is committed and, between a delivery and its settlement, the
  amount on the way;
* `Fair.booked_eq`, `Fair.booked_le` — so an account at rest is booked exactly once.
-/

namespace MiniSbAgent.Lib

/-- An account: what was counted, what the meter takes to be reported, what the ledger holds, and the amount on its
way to the ledger. -/
@[ext] structure Meter (M : Type) where
  counted : M
  committed : M
  booked : M
  taken : Option M
  delivered : Bool

namespace Meter

variable {M : Type} [AddCommGroup M] [PartialOrder M]

/-- What is still to be reported. -/
def pending (m : Meter M) : M := m.counted - m.committed

inductive Step : Meter M → Meter M → Prop
  | count {m : Meter M} (d : M) : 0 ≤ d → Step m { m with counted := m.counted + d }
  | take {m : Meter M} : m.taken = none → Step m { m with taken := some m.pending }
  | deliver {m : Meter M} {x : M} : m.taken = some x → m.delivered = false →
      Step m { m with booked := m.booked + x, delivered := true }
  | settle {m : Meter M} {x : M} : m.taken = some x → m.delivered = true →
      Step m { m with committed := m.committed + x, taken := none, delivered := false }
  | abandon {m : Meter M} : m.delivered = false → Step m { m with taken := none }

/-- What holds of an account at any moment. -/
structure Fair (m : Meter M) : Prop where
  /-- the amount on its way is part of what is to be reported -/
  taken_le : 0 ≤ m.taken.getD 0 ∧ m.taken.getD 0 ≤ m.pending
  /-- the ledger is ahead by what has been delivered and not yet settled -/
  booked : m.booked = m.committed + if m.delivered then m.taken.getD 0 else 0
  /-- nothing is delivered that was not taken -/
  rest : m.taken = none → m.delivered = false

theorem Fair.pending_nonneg {m : Meter M} (h : Fair m) : 0 ≤ m.pending := h.taken_le.1.trans h.taken_le.2

/-- **An account at rest is booked as it is committed.** -/
theorem Fair.booked_eq {m : Meter M} (h : Fair m) (ht : m.taken = none) : m.booked = m.committed := by
  have := h.booked
  simpa [h.rest ht] using this

variable [IsOrderedAddMonoid M]

theorem Fair.step {m m' : Meter M} (h : Fair m) (hs : Step m m') : Fair m' := by
  obtain ⟨⟨h0, hle⟩, hb, hr⟩ := h
  cases hs with
  | count d hd =>
    refine ⟨⟨h0, ?_⟩, hb, hr⟩
    calc m.taken.getD 0 ≤ m.counted - m.committed := hle
      _ ≤ m.counted + d - m.committed := sub_le_sub_right (le_add_of_nonneg_right hd) _
  | take ht =>
    have hd := hr ht
    rw [ht] at hle
    refine ⟨⟨hle, le_rfl⟩, ?_, fun h => nomatch h⟩
    simpa [hd] using hb
  | deliver ht hd =>
    refine ⟨⟨h0, hle⟩, ?_, fun h => ?_⟩
    · simp only [hd, Bool.false_eq_true, if_false, add_zero] at hb
      simp only [hb, ht, Option.getD_some, if_true]
    · exact absurd h (by simp [ht])
  | settle ht hd =>
    simp only [ht, Option.getD_some] at h0 hle hb
    refine ⟨⟨le_rfl, ?_⟩, ?_, fun _ => rfl⟩
    · show 0 ≤ m.counted - (m.committed + _)
      rw [← sub_sub]
      exact sub_nonneg.2 hle
    · simpa [hd] using hb
  | abandon hd =>
    refine ⟨⟨le_rfl, h0.trans hle⟩, ?_, fun _ => hd⟩
    simpa [hd] using hb

/-- **An account at rest is never booked for more than was counted.** -/
theorem Fair.booked_le {m : Meter M} (h : Fair m) (ht : m.taken = none) : m.booked ≤ m.counted := by
  rw [h.booked_eq ht]
  exact sub_nonneg.1 h.pending_nonneg

end Meter

end MiniSbAgent.Lib
