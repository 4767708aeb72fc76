import Mathlib

/-!
# Token buckets that may go into debt

A bucket of rate `r` and size `B` holds `τ` tokens since the time `ℓ`; a negative `τ` is a debt.  Bytes are *admitted*
at points of time: at once when the bucket covers them, otherwise when the debt they leave will be paid off.

The quantity that carries the argument is the level `τ - r * ℓ`, the tokens the bucket would have held at time `0`.
Filling the bucket up to `B` never raises it and taking `n` tokens lowers it by `n`.  `Metered` says of a bucket and
of its admissions so far that

* the bytes admitted after any time `s` and the level stay below `B - r * s` together (`debt`);
* no admission is later than the moment at which the debt is paid (`past`);

so that every window `(s, t]` holds at most `B + r * (t - s)` bytes (`window`) and the admissions come in order
(`sorted`).  `Metered.relax` and `Metered.take` are the two steps that keep it.
-/

namespace MiniSbAgent.Lib.TokenBucket

/-- Some bytes that pass at some time. -/
structure Admission (K : Type) where
  time : K
  bytes : K

section Window

variable {K : Type} [Field K] [LinearOrder K]

/-- The bytes admitted in `(s, t]`. -/
def admittedIn (tr : List (Admission K)) (s t : K) : K :=
  ((tr.filter fun a => decide (s < a.time ∧ a.time ≤ t)).map Admission.bytes).sum

/-- The bytes admitted after `s`. -/
def admittedAfter (tr : List (Admission K)) (s : K) : K :=
  ((tr.filter fun a => decide (s < a.time)).map Admission.bytes).sum

theorem admittedIn_concat (tr : List (Admission K)) (a : Admission K) (s t : K) :
    admittedIn (tr ++ [a]) s t = admittedIn tr s t + if s < a.time ∧ a.time ≤ t then a.bytes else 0 := by
  unfold admittedIn
  rw [List.filter_append, List.map_append, List.sum_append]
  by_cases h : s < a.time ∧ a.time ≤ t <;> simp [h]

theorem admittedAfter_concat (tr : List (Admission K)) (a : Admission K) (s : K) :
    admittedAfter (tr ++ [a]) s = admittedAfter tr s + if s < a.time then a.bytes else 0 := by
  unfold admittedAfter
  rw [List.filter_append, List.map_append, List.sum_append]
  by_cases h : s < a.time <;> simp [h]

/-- A window that ends after the last admission is not cut on the right. -/
theorem admittedIn_eq_after {tr : List (Admission K)} {t : K} (h : ∀ a ∈ tr, a.time ≤ t) (s : K) :
    admittedIn tr s t = admittedAfter tr s := by
  unfold admittedIn admittedAfter
  congr 2
  refine List.filter_congr fun a ha => ?_
  simp [h a ha]

theorem admittedAfter_eq_zero {tr : List (Admission K)} {s : K} (h : ∀ a ∈ tr, a.time ≤ s) :
    admittedAfter tr s = 0 := by
  unfold admittedAfter
  rw [List.filter_eq_nil_iff.2 fun a ha => by simpa using h a ha]
  rfl

/-- What holds of a bucket and of its admissions, in the order in which they were given out. -/
structure Metered (r B τ ℓ : K) (tr : List (Admission K)) : Prop where
  /-- The bucket never holds more than its size. -/
  le_size : τ ≤ B
  /-- An admission lies in the past, or its debt is still open. -/
  past : ∀ a ∈ tr, a.time ≤ ℓ ∨ r * a.time + (τ - r * ℓ) ≤ 0
  /-- What was admitted after `s` has been paid out of one bucket and the tokens since `s`. -/
  debt : ∀ a ∈ tr, ∀ s < a.time, admittedAfter tr s + (τ - r * ℓ) ≤ B - r * s
  /-- No window holds more than one bucket and the tokens of its length. -/
  window : ∀ s t, s ≤ t → admittedIn tr s t ≤ B + r * (t - s)
  /-- The admissions come in order. -/
  sorted : tr.Pairwise fun a b => a.time ≤ b.time

variable {r B τ ℓ : K} {tr : List (Admission K)}

/-- The time at which `n` bytes pass a bucket that holds `τ` at time `ℓ`. -/
def admitTime (r τ ℓ n : K) : K := if n ≤ τ then ℓ else ℓ + (n - τ) / r

/-- At the admission the bucket is out of debt: exactly so when the bytes had to wait. -/
theorem level_admitTime (hr : 0 < r) (n : K) :
    (n ≤ τ ∧ admitTime r τ ℓ n = ℓ) ∨ (τ < n ∧ r * admitTime r τ ℓ n + (τ - n - r * ℓ) = 0) := by
  unfold admitTime
  split
  · rename_i h; exact Or.inl ⟨h, rfl⟩
  · rename_i h
    right
    refine ⟨not_le.1 h, ?_⟩
    rw [mul_add, mul_div_cancel₀ _ hr.ne']
    ring

end Window

section Steps

variable {K : Type} [Field K] [LinearOrder K] [IsStrictOrderedRing K] {r B τ ℓ : K} {tr : List (Admission K)}

/-- A bucket that has admitted nothing. -/
theorem Metered.init (hr : 0 ≤ r) (hB : 0 ≤ B) (hτ : τ ≤ B) : Metered r B τ ℓ [] := by
  refine ⟨hτ, by simp, by simp, fun s t hst => ?_, List.Pairwise.nil⟩
  have : 0 ≤ r * (t - s) := mul_nonneg hr (sub_nonneg.2 hst)
  simp only [admittedIn, List.filter_nil, List.map_nil, List.sum_nil]
  linarith

/-- **Filling and resetting.** Time may pass and the bucket may change, as long as the level does not rise. -/
theorem Metered.relax (h : Metered r B τ ℓ tr) {τ' ℓ' : K} (hτ : τ' ≤ B) (hℓ : ℓ ≤ ℓ')
    (hlev : τ' - r * ℓ' ≤ τ - r * ℓ) : Metered r B τ' ℓ' tr := by
  refine ⟨hτ, fun a ha => ?_, fun a ha s hs => ?_, h.window, h.sorted⟩
  · rcases h.past a ha with h1 | h1
    · exact Or.inl (le_trans h1 hℓ)
    · exact Or.inr (by linarith)
  · have := h.debt a ha s hs
    linarith

theorem le_admitTime (hr : 0 < r) (n : K) : ℓ ≤ admitTime r τ ℓ n := by
  unfold admitTime
  split
  · exact le_rfl
  · have : 0 ≤ (n - τ) / r := div_nonneg (by linarith) hr.le
    linarith

/-- No earlier admission is later than the next one. -/
theorem Metered.le_admitTime (h : Metered r B τ ℓ tr) (hr : 0 < r) {n : K} (hn : 0 < n) {a : Admission K}
    (ha : a ∈ tr) : a.time ≤ admitTime r τ ℓ n := by
  rcases h.past a ha with h1 | h1
  · exact le_trans h1 (TokenBucket.le_admitTime hr n)
  · refine le_of_mul_le_mul_left ?_ hr
    rcases level_admitTime (τ := τ) (ℓ := ℓ) hr n with ⟨h2, h3⟩ | ⟨-, h3⟩
    · rw [h3]; linarith
    · linarith

theorem Metered.forall_le_of_admitTime_le (h : Metered r B τ ℓ tr) (hr : 0 < r) {n x : K} (hn : 0 < n)
    (hx : admitTime r τ ℓ n ≤ x) : ∀ a ∈ tr ++ [⟨admitTime r τ ℓ n, n⟩], a.time ≤ x := by
  intro a ha
  rcases List.mem_append.1 ha with ha | ha
  · exact le_trans (h.le_admitTime hr hn ha) hx
  · rw [List.mem_singleton.1 ha]
    exact hx

/-- With the next admission, what was admitted after a time before it is still paid out of one bucket. -/
theorem Metered.debt_take (h : Metered r B τ ℓ tr) (hr : 0 < r) {n : K} (hB : n ≤ B) {s : K}
    (hs : s < admitTime r τ ℓ n) :
    admittedAfter (tr ++ [⟨admitTime r τ ℓ n, n⟩]) s + (τ - n - r * ℓ) ≤ B - r * s := by
  rw [admittedAfter_concat, if_pos hs]
  by_cases hex : ∃ a ∈ tr, s < a.time
  · obtain ⟨a, ha, hsa⟩ := hex
    have := h.debt a ha s hsa
    linarith
  · -- nothing else was admitted since, and the tokens before are covered by the bucket at the admission
    have hcover : τ - r * ℓ ≤ B - r * admitTime r τ ℓ n := by
      rcases level_admitTime (τ := τ) (ℓ := ℓ) hr n with ⟨-, hlev⟩ | ⟨-, hlev⟩
      · rw [hlev]
        linarith [h.le_size]
      · linarith
    push Not at hex
    rw [admittedAfter_eq_zero hex]
    have := mul_le_mul_of_nonneg_left hs.le hr.le
    linarith

theorem Metered.window_take (h : Metered r B τ ℓ tr) (hr : 0 < r) {n : K} (hn : 0 < n) (hB : n ≤ B) {s t : K}
    (hst : s ≤ t) : admittedIn (tr ++ [⟨admitTime r τ ℓ n, n⟩]) s t ≤ B + r * (t - s) := by
  by_cases ht : admitTime r τ ℓ n ≤ t
  · -- the window reaches past the newest admission, so it holds all that was admitted after `s`
    rw [admittedIn_eq_after (h.forall_le_of_admitTime_le hr hn ht)]
    by_cases hs : s < admitTime r τ ℓ n
    · have hdebt := h.debt_take hr hB hs
      have hpaid : 0 ≤ r * admitTime r τ ℓ n + (τ - n - r * ℓ) := by
        rcases level_admitTime (τ := τ) (ℓ := ℓ) hr n with ⟨hle, hlev⟩ | ⟨-, hlev⟩
        · rw [hlev]
          linarith
        · exact hlev.ge
      have hlength := mul_le_mul_of_nonneg_left ht hr.le
      linarith
    · rw [admittedAfter_eq_zero (h.forall_le_of_admitTime_le hr hn (not_lt.1 hs))]
      have := mul_nonneg hr.le (sub_nonneg.2 hst)
      linarith
  · rw [admittedIn_concat, if_neg fun hc => ht hc.2, add_zero]
    exact h.window s t hst

/-- **Taking tokens.** A bucket that gives out `n` bytes, at once or on credit, stays metered. -/
theorem Metered.take (h : Metered r B τ ℓ tr) (hr : 0 < r) {n : K} (hn : 0 < n) (hB : n ≤ B) :
    Metered r B (τ - n) ℓ (tr ++ [⟨admitTime r τ ℓ n, n⟩]) := by
  have hlate : ∀ a ∈ tr ++ [⟨admitTime r τ ℓ n, n⟩], a.time ≤ admitTime r τ ℓ n :=
    h.forall_le_of_admitTime_le hr hn le_rfl
  refine ⟨by linarith [h.le_size], ?_, ?_, fun s t hst => h.window_take hr hn hB hst, ?_⟩
  · intro a ha
    rcases List.mem_append.1 ha with ha | ha
    · rcases h.past a ha with hpast | hopen
      · exact Or.inl hpast
      · exact Or.inr (by linarith)
    · rw [List.mem_singleton.1 ha]
      rcases level_admitTime (τ := τ) (ℓ := ℓ) hr n with ⟨-, hlev⟩ | ⟨-, hlev⟩
      · exact Or.inl hlev.le
      · exact Or.inr hlev.le
  · intro a ha s hs
    exact h.debt_take hr hB (lt_of_lt_of_le hs (hlate a ha))
  · rw [List.pairwise_append]
    refine ⟨h.sorted, List.pairwise_singleton _ _, fun a ha b hb => ?_⟩
    rw [List.mem_singleton.1 hb]
    exact h.le_admitTime hr hn ha

end Steps

end MiniSbAgent.Lib.TokenBucket
