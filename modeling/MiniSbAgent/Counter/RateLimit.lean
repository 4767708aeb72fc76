import MiniSbAgent.Go.Strings
import MiniSbAgent.Lib.Noted

/-!
# The rate limiter (`counter/ratelimit.go`)

`RateLimiter` is the state behind the limiter's mutex and every method is one atomic step on it, given the time at
which it reads the clock.  Tokens, times (in seconds) and waits are exact rationals where the code has `float64`,
`time.Time` and `time.Duration`; `rate` and `burst` are `int64`, with the wrap-around of the multiplication in
`setRate`.
-/

namespace MiniSbAgent.Counter

open Go Lib

/-- `defaultBurstWindow`, in nanoseconds. -/
def defaultBurstWindow : ℤ := 200 * 1000000

/-- `time.Second`, in nanoseconds. -/
def second : ℤ := 1000000000

def maxWriteChunk : ℤ := 64 * 1024

structure RateLimiter where
  rate : ℤ := 0
  burst : ℤ := 0
  tokens : ℚ := 0
  /-- `none` is the zero time. -/
  last : Option ℚ := none
  disabled : Bool := false
  closed : Bool := false
  deriving DecidableEq

/-- `ErrLimiterClosed` -/
inductive LimiterError where
  | closed
  deriving DecidableEq, Repr

namespace RateLimiter

/-- The burst that `SetRate` computes: a fifth of a second's bytes, at least one chunk. -/
def burstFor (bytesPerSecond : ℤ) : ℤ :=
  let burst := (wrap64 (bytesPerSecond * defaultBurstWindow)).tdiv second
  if burst < maxWriteChunk then maxWriteChunk else burst

def setRate (l : RateLimiter) (now : ℚ) (bytesPerSecond : ℤ) : RateLimiter :=
  let l := { l with rate := bytesPerSecond, burst := burstFor bytesPerSecond }
  if bytesPerSecond ≤ 0 then { l with disabled := true, tokens := 0 }
  else
    { l with
      closed := false
      disabled := false
      tokens := if l.tokens < 0 ∨ (l.burst : ℚ) < l.tokens then 0 else l.tokens
      last := some now }

/-- `NewRateLimiter` -/
def newRateLimiter (now : ℚ) (bytesPerSecond : ℤ) : RateLimiter :=
  setRate { last := some now } now bytesPerSecond

def close (l : RateLimiter) : RateLimiter :=
  { l with closed := true, disabled := true, rate := 0, burst := 0, tokens := 0 }

/-- `l.disabled || l.rate <= 0 || n <= 0` -/
def passes (l : RateLimiter) (n : ℤ) : Bool := l.disabled || decide (l.rate ≤ 0) || decide (n ≤ 0)

/-- The tokens that have accrued since `last`, up to the burst; the beginning of `allow` and of `reserve`. -/
def refill (l : RateLimiter) (now : ℚ) : RateLimiter :=
  let last := l.last.getD now
  let elapsed := now - last
  if 0 < elapsed then
    let tokens := l.tokens + elapsed * l.rate
    { l with tokens := if (l.burst : ℚ) < tokens then l.burst else tokens, last := some now }
  else { l with last := some last }

/-- `need`: the bytes asked for, capped by the burst. -/
def need (l : RateLimiter) (n : ℤ) : ℚ := if (l.burst : ℚ) < n then l.burst else n

/-- The body of `allow`. -/
def allow (l : RateLimiter) (now : ℚ) (n : ℤ) : RateLimiter × Except LimiterError Bool :=
  if l.closed then (l, .error .closed)
  else if l.passes n then (l, .ok true)
  else
    let l := l.refill now
    if l.tokens < l.need n then (l, .ok false)
    else ({ l with tokens := l.tokens - l.need n }, .ok true)

/-- `Allow`, on a limiter that is not nil. -/
def Allow (l : RateLimiter) (now : ℚ) (n : ℤ) : RateLimiter × Except LimiterError Bool :=
  if n ≤ 0 then (l, .ok true) else l.allow now n

/-- `reserve`, with the wait in seconds. -/
def reserve (l : RateLimiter) (now : ℚ) (n : ℤ) : RateLimiter × Except LimiterError ℚ :=
  if l.closed then (l, .error .closed)
  else if l.passes n then (l, .ok 0)
  else
    let l := l.refill now
    let need := l.need n
    if need ≤ l.tokens then ({ l with tokens := l.tokens - need }, .ok 0)
    else
      let missing := need - l.tokens
      ({ l with tokens := l.tokens - need }, .ok (missing / l.rate))

/-- The next chunk that the loop of `Wait` reserves while `remaining` bytes are left; `none` when it stops asking
because the limiter is off. -/
def waitChunk (l : RateLimiter) (remaining : ℤ) : Option ℤ :=
  if l.disabled || decide (l.rate ≤ 0) || l.closed then none
  else some (if 0 < l.burst ∧ l.burst < remaining then l.burst else remaining)

theorem waitChunk_pos {l : RateLimiter} {remaining n : ℤ} (hr : 0 < remaining) (h : l.waitChunk remaining = some n) :
    0 < n := by
  unfold waitChunk at h
  split at h
  · cases h
  · cases h
    split <;> omega

/-- A call of `reserve` by `Wait` on the limiter and at the time it finds, noted with the bytes it is for. -/
def reserveNoted (seen : RateLimiter × ℚ) (n : ℤ) : Noted ℤ LimiterError ℚ := ⟨[n], (seen.1.reserve seen.2 n).2⟩

/-- The loop of `Wait` with `remaining` bytes to go.  Each pass locks the limiter twice, and others may use it between
any two of these critical sections: the `k`-th one finds the limiter `(see k).1`, at the time `(see k).2`. -/
def waitFrom (see : ℕ → RateLimiter × ℚ) (k : ℕ) (remaining : ℤ) : Noted ℤ LimiterError Unit :=
  if 0 < remaining then
    match h : (see k).1.waitChunk remaining with
    | none => (reserveNoted (see (k + 1)) 0).bind fun _ => .ok ()
    | some chunk => (reserveNoted (see (k + 1)) chunk).bind fun _ => waitFrom see (k + 2) (remaining - chunk)
  else .ok ()
termination_by remaining.toNat
decreasing_by
  have := waitChunk_pos (by assumption) h
  omega

/-- `Wait`, on a limiter that is not nil, with its calls of `reserve`. -/
def waited (see : ℕ → RateLimiter × ℚ) (n : ℤ) : Noted ℤ LimiterError Unit :=
  if n ≤ 0 then .ok () else waitFrom see 0 n

/-- The result of `Wait`. -/
def Wait (see : ℕ → RateLimiter × ℚ) (n : ℤ) : Except LimiterError Unit := (waited see n).result

/-! ### What keeps a limiter closed -/

section Closed

variable {l : RateLimiter}

theorem Allow_of_closed (h : l.closed = true) (now : ℚ) {n : ℤ} (hn : 0 < n) :
    (l.Allow now n).2 = .error .closed := by
  unfold Allow allow
  rw [if_neg (not_le.2 hn), if_pos h]

/-- Whoever waits on a limiter that is closed, and stays closed, is told so. -/
theorem Wait_of_closed {see : ℕ → RateLimiter × ℚ} (h : ∀ k, (see k).1.closed = true) {n : ℤ} (hn : 0 < n) :
    Wait see n = .error .closed := by
  have hchunk : (see 0).1.waitChunk n = none := by
    unfold waitChunk
    rw [h 0, Bool.or_true, if_pos rfl]
  have hreserve : ((see 1).1.reserve (see 1).2 0).2 = .error .closed := by
    unfold reserve
    rw [if_pos (h 1)]
  unfold Wait waited
  rw [if_neg (not_le.2 hn), waitFrom, if_pos hn]
  split
  · rw [Noted.result_bind]
    show ((see 1).1.reserve (see 1).2 0).2.bind _ = _
    rw [hreserve]
    rfl
  · rename_i chunk hc
    rw [hchunk] at hc
    cases hc

@[simp] theorem closed_refill (now : ℚ) : (l.refill now).closed = l.closed := by
  simp only [refill]
  split <;> rfl

@[simp] theorem rate_refill (now : ℚ) : (l.refill now).rate = l.rate := by
  simp only [refill]
  split <;> rfl

/-- `Allow` and `reserve` spend tokens and change nothing else that matters here. -/
theorem Allow_keeps (now : ℚ) (n : ℤ) : (l.Allow now n).1.closed = l.closed ∧ (l.Allow now n).1.rate = l.rate := by
  unfold Allow allow
  split_ifs
  · exact ⟨rfl, rfl⟩
  · exact ⟨rfl, rfl⟩
  · exact ⟨rfl, rfl⟩
  · simp only
    split <;> exact ⟨closed_refill now, rate_refill now⟩

theorem reserve_keeps (now : ℚ) (n : ℤ) :
    (l.reserve now n).1.closed = l.closed ∧ (l.reserve now n).1.rate = l.rate := by
  unfold reserve
  split_ifs
  · exact ⟨rfl, rfl⟩
  · exact ⟨rfl, rfl⟩
  · simp only
    split <;> exact ⟨closed_refill now, rate_refill now⟩

/-- `SetRate` never closes a limiter. -/
theorem setRate_keeps (h : l.closed = false) (now : ℚ) (r : ℤ) :
    (l.setRate now r).closed = false ∧ (l.setRate now r).rate = r := by
  unfold setRate
  simp only
  split
  · exact ⟨h, rfl⟩
  · exact ⟨rfl, rfl⟩

end Closed

/-! ### A limiter that limits -/

/-- The state of a limiter of rate `r` that is neither disabled nor closed, with `τ` tokens since `ℓ`. -/
structure On (l : RateLimiter) (r : ℤ) (τ ℓ : ℚ) : Prop where
  rate : l.rate = r
  burst : l.burst = burstFor r
  tokens : l.tokens = τ
  last : l.last = some ℓ
  disabled : l.disabled = false
  closed : l.closed = false

theorem maxWriteChunk_le_burstFor (r : ℤ) : maxWriteChunk ≤ burstFor r := by
  simp only [burstFor]
  split <;> omega

theorem burstFor_pos (r : ℤ) : 0 < burstFor r :=
  lt_of_lt_of_le (by decide) (maxWriteChunk_le_burstFor r)

theorem On.new {r : ℤ} (hr : 0 < r) (t : ℚ) : On (newRateLimiter t r) r 0 t := by
  have hb : ¬ (burstFor r : ℚ) < 0 := by
    have := burstFor_pos r
    exact_mod_cast not_lt.2 this.le
  have hr' : ¬ r ≤ 0 := not_le.2 hr
  constructor <;> simp [newRateLimiter, setRate, hr', hb]

section

variable {l : RateLimiter} {r : ℤ} {τ ℓ : ℚ}

/-- The tokens at time `t`. -/
def refilled (r : ℤ) (τ ℓ t : ℚ) : ℚ := min (burstFor r) (τ + (t - ℓ) * r)

/-- `refill` brings the tokens and the clock up to date. -/
theorem On.refill (h : On l r τ ℓ) (hτ : τ ≤ burstFor r) {t : ℚ} (ht : ℓ ≤ t) :
    On (l.refill t) r (refilled r τ ℓ t) t := by
  obtain ⟨h1, h2, h3, h4, h5, h6⟩ := h
  unfold RateLimiter.refill refilled
  simp only [h4, Option.getD_some]
  split
  · rename_i hlt
    refine ⟨h1, h2, ?_, rfl, h5, h6⟩
    simp only [h1, h2, h3]
    split
    · rename_i hc; rw [min_eq_left hc.le]
    · rename_i hc; rw [min_eq_right (not_lt.1 hc)]
  · rename_i hlt
    have ht' : t = ℓ := le_antisymm (by linarith) ht
    refine ⟨h1, h2, ?_, by rw [ht'], h5, h6⟩
    rw [ht', sub_self, zero_mul, add_zero, min_eq_right hτ, h3]

theorem On.need (h : On l r τ ℓ) {n : ℤ} (hn : n ≤ burstFor r) : l.need n = n := by
  unfold RateLimiter.need
  rw [h.burst, if_neg]
  exact not_lt.2 (by exact_mod_cast hn)

theorem On.passes (h : On l r τ ℓ) (hr : 0 < r) {n : ℤ} (hn : 0 < n) : l.passes n = false := by
  simp [RateLimiter.passes, h.disabled, h.rate, not_le.2 hr, not_le.2 hn]

theorem On.take (h : On l r τ ℓ) (n : ℚ) : On { l with tokens := l.tokens - n } r (τ - n) ℓ :=
  ⟨h.rate, h.burst, by rw [h.tokens], h.last, h.disabled, h.closed⟩

/-- **`Allow`.** A packet passes exactly when the refilled bucket covers it; it is charged only then. -/
theorem On.Allow (h : On l r τ ℓ) (hr : 0 < r) (hτ : τ ≤ burstFor r) {t : ℚ} (ht : ℓ ≤ t) {n : ℤ} (hn : 0 < n)
    (hb : n ≤ burstFor r) :
    (refilled r τ ℓ t < n ∧ (l.Allow t n).2 = .ok false ∧ On (l.Allow t n).1 r (refilled r τ ℓ t) t) ∨
    ((n : ℚ) ≤ refilled r τ ℓ t ∧ (l.Allow t n).2 = .ok true ∧ On (l.Allow t n).1 r (refilled r τ ℓ t - n) t) := by
  have hre := h.refill hτ ht
  unfold RateLimiter.Allow RateLimiter.allow
  rw [if_neg (not_le.2 hn), h.closed, h.passes hr hn]
  simp only [Bool.false_eq_true, if_false, hre.need hb, hre.tokens]
  by_cases hc : refilled r τ ℓ t < n
  · left
    rw [if_pos hc]
    exact ⟨hc, rfl, hre⟩
  · right
    rw [if_neg hc]
    refine ⟨not_lt.1 hc, rfl, ?_⟩
    have := hre.take (n : ℚ)
    rwa [hre.tokens] at this

/-- **`reserve`.** The bytes are always charged; what the bucket misses is waited for. -/
theorem On.reserve (h : On l r τ ℓ) (hr : 0 < r) (hτ : τ ≤ burstFor r) {t : ℚ} (ht : ℓ ≤ t) {n : ℤ} (hn : 0 < n)
    (hb : n ≤ burstFor r) :
    (l.reserve t n).2 = .ok (if (n : ℚ) ≤ refilled r τ ℓ t then 0 else (n - refilled r τ ℓ t) / r) ∧
      On (l.reserve t n).1 r (refilled r τ ℓ t - n) t := by
  have hre := h.refill hτ ht
  have htake := hre.take (n : ℚ)
  rw [hre.tokens] at htake
  unfold RateLimiter.reserve
  rw [h.closed, h.passes hr hn]
  simp only [Bool.false_eq_true, if_false, hre.need hb, hre.tokens]
  split
  · exact ⟨rfl, htake⟩
  · exact ⟨by rw [hre.rate], htake⟩

/-- **`SetRate`** with the rate the limiter has: a debt is forgiven, and the tokens since `ℓ` are given up. -/
theorem On.setRate (h : On l r τ ℓ) (hr : 0 < r) (hτ : τ ≤ burstFor r) (t : ℚ) :
    On (l.setRate t r) r (max τ 0) t := by
  have hr' : ¬ r ≤ 0 := not_le.2 hr
  unfold RateLimiter.setRate
  rw [if_neg hr']
  refine ⟨rfl, rfl, ?_, rfl, rfl, rfl⟩
  simp only [h.tokens]
  by_cases hneg : τ < 0
  · rw [if_pos (Or.inl hneg), max_eq_right hneg.le]
  · rw [if_neg, max_eq_left (not_lt.1 hneg)]
    rintro (hc | hc)
    · exact hneg hc
    · exact absurd hc (not_lt.2 hτ)

/-- What `Wait` asks of a limiter that is on lies between one byte and the burst. -/
theorem On.waitChunk (h : On l r τ ℓ) (hr : 0 < r) {remaining : ℤ} (hn : 0 < remaining) :
    ∃ n, l.waitChunk remaining = some n ∧ 0 < n ∧ n ≤ burstFor r ∧ n ≤ remaining := by
  have hb := burstFor_pos r
  unfold RateLimiter.waitChunk
  rw [h.disabled, h.rate, h.closed, h.burst]
  simp only [not_le.2 hr, decide_false, Bool.or_self, Bool.false_eq_true, if_false]
  refine ⟨_, rfl, ?_, ?_, ?_⟩ <;> split <;> omega

end

end RateLimiter

end MiniSbAgent.Counter
