import MiniSbAgent.Counter.RateLimit
import MiniSbAgent.Lib.TokenBucket

/-!
# What a shared limiter lets through

Any number of connections call one limiter.  Its mutex makes the calls a sequence, so a history is a list of calls
with the time at which each one reads the clock, and `run` plays it and notes what is *admitted*: an allowed packet
when it is called, a reserved chunk after the wait it was given.

* `run_metered` — the limiter and its admissions are `Metered` throughout;
* `rate_window` — hence no window of a history of packets and reservations exceeds the burst and the rate;
* `resync_window` — the same with `SetRate` calls that apply the rate again, as every user sync does, provided none
  of them meets a limiter in debt; `resync_loosens` is what happens otherwise, because `SetRate` forgives the debt
  while the connections that ran it up are still waiting for their turn.
-/

namespace MiniSbAgent.Counter.RateWindow

open Lib.TokenBucket RateLimiter

inductive Call where
  | allow (n : ℤ)
  | reserve (n : ℤ)
  | setRate (r : ℤ)
  deriving DecidableEq

/-- A limiter with its admissions, in the order of the calls. -/
abbrev State := RateLimiter × List (Admission ℚ)

def step (s : State) (c : ℚ × Call) : State :=
  match c.2 with
  | .allow n =>
    match s.1.Allow c.1 n with
    -- an empty packet carries no bytes
    | (l, .ok true) => (l, if 0 < n then s.2 ++ [⟨c.1, n⟩] else s.2)
    | (l, _) => (l, s.2)
  | .reserve n =>
    match s.1.reserve c.1 n with
    | (l, .ok wait) => (l, s.2 ++ [⟨c.1 + wait, n⟩])
    | (l, .error _) => (l, s.2)
  | .setRate r => (s.1.setRate c.1 r, s.2)

def run (s : State) (calls : List (ℚ × Call)) : State := calls.foldl step s

/-- A limiter of rate `r` made at `t₀`. -/
def start (t₀ : ℚ) (r : ℤ) : State := (newRateLimiter t₀ r, [])

/-- The times of the calls, from the making of the limiter on, do not go back. -/
def InOrder (t₀ : ℚ) (calls : List (ℚ × Call)) : Prop := (t₀ :: calls.map Prod.fst).Pairwise (· ≤ ·)

/-- No debt is open at time `t`: the tokens since the last update make up for it. -/
def OutOfDebt (l : RateLimiter) (t : ℚ) : Prop := 0 ≤ l.tokens + (t - l.last.getD t) * l.rate

instance (l : RateLimiter) (t : ℚ) : Decidable (OutOfDebt l t) := by unfold OutOfDebt; infer_instance

/-- Every `SetRate` of the history finds the limiter out of debt. -/
def Settled : State → List (ℚ × Call) → Prop
  | _, [] => True
  | s, c :: calls => (∀ r, c.2 = .setRate r → OutOfDebt s.1 c.1) ∧ Settled (step s c) calls

/-- The calls that `Wait`, the packet connections and a sync issue to a limiter of rate `r`. -/
def Call.Fits (r : ℤ) : Call → Prop
  | .allow n => n ≤ burstFor r
  | .reserve n => 0 < n ∧ n ≤ burstFor r
  | .setRate r' => r' = r

/-- The limiter is on, its clock does not run ahead of `t`, and its admissions are metered. -/
structure Inv (r : ℤ) (t : ℚ) (s : State) : Prop where
  metered : ∃ τ ℓ, On s.1 r τ ℓ ∧ ℓ ≤ t ∧ Metered (r : ℚ) (burstFor r) τ ℓ s.2

section

variable {r : ℤ} {s : State}

theorem Inv.later {t t' : ℚ} (h : Inv r t s) (ht : t ≤ t') : Inv r t' s := by
  obtain ⟨τ, ℓ, h1, h2, h3⟩ := h
  exact ⟨τ, ℓ, h1, le_trans h2 ht, h3⟩

theorem inv_start (hr : 0 < r) (t₀ : ℚ) : Inv r t₀ (start t₀ r) := by
  have hb : (0 : ℚ) ≤ burstFor r := by exact_mod_cast (burstFor_pos r).le
  exact ⟨0, t₀, On.new hr t₀, le_rfl, Metered.init (by exact_mod_cast hr.le) hb hb⟩

/-- Bringing the clock up to date does not raise the level. -/
theorem metered_refilled {τ ℓ t : ℚ} {tr : List (Admission ℚ)} (h : Metered (r : ℚ) (burstFor r) τ ℓ tr)
    (ht : ℓ ≤ t) : Metered (r : ℚ) (burstFor r) (refilled r τ ℓ t) t tr := by
  have h1 : refilled r τ ℓ t ≤ burstFor r := min_le_left _ _
  have h2 : refilled r τ ℓ t ≤ τ + (t - ℓ) * r := min_le_right _ _
  refine h.relax h1 ht ?_
  linarith

theorem inv_allow (hr : 0 < r) {t : ℚ} (h : Inv r t s) {n : ℤ} (hn : n ≤ burstFor r) :
    Inv r t (step s (t, .allow n)) := by
  obtain ⟨τ, ℓ, hon, ht, hm⟩ := h
  by_cases hpos : 0 < n
  · have hm' := metered_refilled hm ht
    rcases hon.Allow hr hm.le_size ht hpos hn with ⟨-, h1, h2⟩ | ⟨h0, h1, h2⟩
    · rcases hx : s.1.Allow t n with ⟨l, res⟩
      rw [hx] at h1 h2
      obtain rfl : res = .ok false := h1
      have he : step s (t, .allow n) = (l, s.2) := by simp [step, hx]
      rw [he]
      exact ⟨_, t, h2, le_rfl, hm'⟩
    · rcases hx : s.1.Allow t n with ⟨l, res⟩
      rw [hx] at h1 h2
      obtain rfl : res = .ok true := h1
      have he : step s (t, .allow n) = (l, s.2 ++ [⟨t, n⟩]) := by simp [step, hx, hpos]
      rw [he]
      refine ⟨_, t, h2, le_rfl, ?_⟩
      have := hm'.take (by exact_mod_cast hr) (n := (n : ℚ)) (by exact_mod_cast hpos) (by exact_mod_cast hn)
      rwa [admitTime, if_pos h0] at this
  · have he : step s (t, .allow n) = s := by
      simp [step, RateLimiter.Allow, not_lt.1 hpos, hpos]
    rw [he]
    exact ⟨τ, ℓ, hon, ht, hm⟩

theorem inv_reserve (hr : 0 < r) {t : ℚ} (h : Inv r t s) {n : ℤ} (hpos : 0 < n) (hn : n ≤ burstFor r) :
    Inv r t (step s (t, .reserve n)) := by
  obtain ⟨τ, ℓ, hon, ht, hm⟩ := h
  have hm' := metered_refilled hm ht
  obtain ⟨h1, h2⟩ := hon.reserve hr hm.le_size ht hpos hn
  rcases hx : s.1.reserve t n with ⟨l, res⟩
  rw [hx] at h1 h2
  obtain rfl : res = .ok _ := h1
  have he : step s (t, .reserve n) = (l, s.2 ++ [⟨admitTime r (refilled r τ ℓ t) t n, n⟩]) := by
    simp only [step, hx, admitTime]
    split
    · rw [add_zero]
    · rfl
  rw [he]
  exact ⟨_, t, h2, le_rfl, hm'.take (by exact_mod_cast hr) (by exact_mod_cast hpos) (by exact_mod_cast hn)⟩

/-- Applying the rate again is harmless out of debt: what is forgiven has already been paid. -/
theorem inv_setRate (hr : 0 < r) {t : ℚ} (h : Inv r t s) (hd : OutOfDebt s.1 t) :
    Inv r t (step s (t, .setRate r)) := by
  obtain ⟨τ, ℓ, hon, ht, hm⟩ := h
  have hb : (0 : ℚ) ≤ burstFor r := by exact_mod_cast (burstFor_pos r).le
  have hr' : (0 : ℚ) ≤ r := by exact_mod_cast hr.le
  refine ⟨max τ 0, t, hon.setRate hr hm.le_size t, le_rfl, hm.relax (max_le hm.le_size hb) ht ?_⟩
  unfold OutOfDebt at hd
  rw [hon.tokens, hon.last, hon.rate, Option.getD_some] at hd
  have hrt := mul_le_mul_of_nonneg_left ht hr'
  rcases le_total τ 0 with hτ | hτ
  · rw [max_eq_right hτ]; linarith
  · rw [max_eq_left hτ]; linarith

theorem inv_step (hr : 0 < r) {c : ℚ × Call} (h : Inv r c.1 s) (hc : c.2.Fits r)
    (hd : ∀ r', c.2 = .setRate r' → OutOfDebt s.1 c.1) : Inv r c.1 (step s c) := by
  obtain ⟨t, c⟩ := c
  cases c with
  | allow n => exact inv_allow hr h hc
  | reserve n => exact inv_reserve hr h hc.1 hc.2
  | setRate r' =>
    have hr' : r' = r := hc
    subst hr'
    exact inv_setRate hr h (hd r' rfl)

/-- **The run lemma.** Whatever the calls, the limiter stays metered. -/
theorem run_metered (hr : 0 < r) : ∀ (calls : List (ℚ × Call)) (t₀ : ℚ) (s : State), Inv r t₀ s →
    InOrder t₀ calls → (∀ c ∈ calls, c.2.Fits r) → Settled s calls → ∃ t, Inv r t (run s calls) := by
  intro calls
  induction calls with
  | nil => intro t₀ s h _ _ _; exact ⟨t₀, h⟩
  | cons c calls ih =>
    intro t₀ s h ho hf hs
    obtain ⟨ho1, ho2⟩ := List.pairwise_cons.1 ho
    have hc : Inv r c.1 (step s c) :=
      inv_step hr (h.later (ho1 c.1 (by simp))) (hf c (by simp)) hs.1
    exact ih c.1 (step s c) hc ho2 (fun c' hc' => hf c' (List.mem_cons_of_mem _ hc')) hs.2

/-- A history without `SetRate` is settled. -/
theorem settled_of_no_setRate : ∀ (calls : List (ℚ × Call)) (s : State),
    (∀ c ∈ calls, ∀ r, c.2 ≠ .setRate r) → Settled s calls
  | [], _, _ => trivial
  | c :: calls, s, h =>
    ⟨fun r hc => absurd hc (h c (by simp) r),
      settled_of_no_setRate calls (step s c) fun c' hc' => h c' (List.mem_cons_of_mem _ hc')⟩

end

/-! ### The rate is kept -/

/-- Packets of at most 64 KiB, and reservations as `Wait` makes them. -/
def Call.IsTraffic (r : ℤ) : Call → Prop
  | .allow n => n ≤ 65536
  | .reserve n => 0 < n ∧ n ≤ burstFor r
  | .setRate _ => False

/-- **A shared limiter keeps its rate in every window.** Over any history of packets and reservations the bytes
admitted in `(s, t]` are at most the burst and the bytes of `t - s` seconds, the admissions never go back in time,
and the bucket never holds more than the burst. -/
theorem rate_window {r : ℤ} (hr : 0 < r) (t₀ : ℚ) (calls : List (ℚ × Call)) (ho : InOrder t₀ calls)
    (hf : ∀ c ∈ calls, c.2.IsTraffic r) :
    (∀ s t, s ≤ t → admittedIn (run (start t₀ r) calls).2 s t ≤ (run (start t₀ r) calls).1.burst + r * (t - s)) ∧
    (run (start t₀ r) calls).2.Pairwise (fun a b => a.time ≤ b.time) ∧
    (run (start t₀ r) calls).1.tokens ≤ (run (start t₀ r) calls).1.burst := by
  have hfits : ∀ c ∈ calls, c.2.Fits r := by
    intro c hc
    have h := hf c hc
    cases hcall : c.2 with
    | allow n =>
      rw [hcall] at h
      exact le_trans h (maxWriteChunk_le_burstFor r)
    | reserve n => rw [hcall] at h; exact h
    | setRate r' => rw [hcall] at h; exact h.elim
  have hset : Settled (start t₀ r) calls := by
    apply settled_of_no_setRate
    intro c hc r' hr'
    have h := hf c hc
    rw [hr'] at h
    exact h
  obtain ⟨t, τ, ℓ, hon, -, hm⟩ := run_metered hr calls t₀ _ (inv_start hr t₀) ho hfits hset
  rw [hon.burst, hon.tokens]
  exact ⟨hm.window, hm.sorted, hm.le_size⟩

/-- Two reservations at once and a packet three seconds later, on a limiter of 64 KiB a second. -/
theorem rate_window_three :
    admittedIn (run (start 0 65536) [(0, .reserve 65536), (0, .reserve 32768), (3, .allow 1500)]).2 0 3 ≤
      (run (start 0 65536) [(0, .reserve 65536), (0, .reserve 32768), (3, .allow 1500)]).1.burst +
        (65536 : ℤ) * (3 - 0) :=
  (rate_window (by decide) 0 [(0, .reserve 65536), (0, .reserve 32768), (3, .allow 1500)]
    (by simp [InOrder]) (by simp [Call.IsTraffic]; decide)).1 0 3 (by norm_num)

/-! ### Applying the rate again -/

/-- **A sync that meets no debt does not loosen the limit.** `SetRate` with the same rate may come at any point of
the history at which no reservation is still waiting for its turn. -/
theorem resync_window {r : ℤ} (hr : 0 < r) (t₀ : ℚ) (calls : List (ℚ × Call)) (ho : InOrder t₀ calls)
    (hf : ∀ c ∈ calls, c.2.Fits r) (hs : Settled (start t₀ r) calls) (s t : ℚ) (hst : s ≤ t) :
    admittedIn (run (start t₀ r) calls).2 s t ≤ burstFor r + r * (t - s) := by
  obtain ⟨t', τ, ℓ, -, -, hm⟩ := run_metered hr calls t₀ _ (inv_start hr t₀) ho hf hs
  exact hm.window s t hst

/-- A reservation, a sync once it has been paid for, and another reservation. -/
theorem resync_window_settled :
    admittedIn (run (start 0 65536) [(0, .reserve 65536), (1, .setRate 65536), (1, .reserve 65536)]).2 0 2 ≤
      burstFor 65536 + (65536 : ℤ) * (2 - 0) :=
  resync_window (by decide) 0 [(0, .reserve 65536), (1, .setRate 65536), (1, .reserve 65536)]
    (by simp [InOrder]) (by simp [Call.Fits]; decide)
    ⟨by simp, ⟨fun _ _ => by decide +kernel, ⟨by simp, trivial⟩⟩⟩ 0 2 (by norm_num)

/-- **A sync that meets a debt forgives it.** Two chunks reserved around a `SetRate` are both let through when the
first one is due, half a second's bytes too many for the last half second. -/
theorem resync_loosens :
    ¬ ∀ (r : ℤ) (t₀ : ℚ) (calls : List (ℚ × Call)), 0 < r → InOrder t₀ calls → (∀ c ∈ calls, c.2.Fits r) →
      ∀ s t, s ≤ t → admittedIn (run (start t₀ r) calls).2 s t ≤ burstFor r + r * (t - s) := by
  intro h
  have := h 65536 0 [(0, .reserve 65536), (0, .setRate 65536), (0, .reserve 65536)] (by decide)
    (by simp [InOrder]) (by simp [Call.Fits]; decide) (1 / 2) 1 (by norm_num)
  exact absurd this (by decide +kernel)

end MiniSbAgent.Counter.RateWindow
