import MiniSbAgent.Agent.UserManager

/-!
# From a speed limit to a limiter (`cmd/mini-sb-agent/user_manager.go`, `counter/ratelimit.go`)

`updateLimiterLocked` turns the `SpeedLimit` of a user, an integer that the panel sends in Mbit/s, into the rate of the
user's two limiters by `mbpsToBytes`, and `SetRate` turns the rate into a burst.  Both multiply before they divide:

* `products a` — every product on the way from a limit `a` to rate and burst, as an integer;
* `Exact l a` — `l` is what the limiter for `a` should be: on, with the rate of `a` Mbit/s and a fifth of a second's
  bytes as its burst;
* `speedLimit_exact_iff` — the limiters are exact and grow with the limit as long as the larger limit is at most 368934,
  and no further.
-/

namespace MiniSbAgent.Agent

open Go Counter Panelapi Counter.RateLimiter

/-- The largest limit for which the product in `SetRate` fits in an `int64`. -/
def maxExactMbps : ℤ := 368934

/-- The products of `mbpsToBytes` and `SetRate`, before they are stored. -/
def products (mbps : ℤ) : List ℤ :=
  [mbps * 1000, wrap64 (mbps * 1000) * 1000, mbpsToBytes mbps * defaultBurstWindow]

/-- `x` is an `int64`. -/
def FitsInt64 (x : ℤ) : Prop := -maxInt64 - 1 ≤ x ∧ x ≤ maxInt64

/-- The limiter of a user with a limit of `mbps` Mbit/s, without rounding and overflow. -/
structure Exact (l : RateLimiter) (mbps : ℤ) : Prop where
  bytes : mbpsToBytes mbps = mbps * 125000
  rate : l.rate = mbpsToBytes mbps
  enabled : l.disabled = false ∧ l.closed = false
  burst : l.burst = max 65536 (l.rate / 5)

/-- Neither rate nor burst of `l'` is smaller than that of `l`. -/
def AtMost (l l' : RateLimiter) : Prop := l.rate ≤ l'.rate ∧ l.burst ≤ l'.burst

/-- The limiters that a table has for a user. -/
def LimiterTable.pairOf (t : LimiterTable) (id : ℤ) : Option LimiterPair :=
  (t.limiters.lookup id).bind fun a => t.heap[a]?

/-- Whether the pair is new or not, both limiters of the user are set to the rate of the limit. -/
theorem LimiterTable.pairOf_updateLimiterLocked (clock : Clock) (t : LimiterTable) (u : User) :
    ∃ p now, (t.updateLimiterLocked true clock u).pairOf u.id =
      some (LimiterPair.setRate p now (mbpsToBytes u.speedLimit)) := by
  unfold updateLimiterLocked
  rw [if_pos rfl]
  split
  · rename_i a h
    have hlt := t.lt _ _ h
    refine ⟨t.heap[a], clock a, ?_⟩
    show (t.limiters.lookup u.id).bind (fun a' => (t.heap.modify a _)[a']?) = _
    rw [h, Option.bind_some, List.getElem?_modify_eq, List.getElem?_eq_getElem hlt]
    rfl
  · refine ⟨⟨{ last := some (clock t.heap.length .rx) }, { last := some (clock t.heap.length .tx) }⟩,
      clock t.heap.length, ?_⟩
    show ((t.limiters.insert u.id t.heap.length).lookup u.id).bind (fun a' => (t.heap ++ [_])[a']?) = _
    rw [AList.lookup_insert, Option.bind_some, List.getElem?_concat_length]
    rfl

/-! ### Below the bound -/

theorem wrap64_le (x : ℤ) : wrap64 x ≤ maxInt64 := by
  have h := Int.bmod_lt (x := x) (m := 2 ^ 64) (by decide)
  unfold wrap64 maxInt64
  omega

theorem mbpsToBytes_of_le {a : ℤ} (h0 : 0 < a) (h : a ≤ 9223372036854) : mbpsToBytes a = a * 125000 := by
  unfold mbpsToBytes
  rw [if_neg (by omega), wrap64_of_le (x := a * 1000) (by omega) (by unfold maxInt64; omega),
    wrap64_of_le (by omega) (by unfold maxInt64; omega), Int.tdiv_eq_ediv_of_nonneg (by omega)]
  omega

theorem burstFor_eq_max (r : ℤ) :
    burstFor r = max 65536 ((wrap64 (r * defaultBurstWindow)).tdiv second) := by
  show (if _ < (65536 : ℤ) then (65536 : ℤ) else _) = _
  split <;> omega

theorem burstFor_of_le {a : ℤ} (h0 : 0 < a) (h : a ≤ maxExactMbps) :
    burstFor (a * 125000) = max 65536 (a * 125000 / 5) := by
  unfold maxExactMbps at h
  rw [burstFor_eq_max]
  unfold defaultBurstWindow second
  rw [wrap64_of_le (by omega) (by unfold maxInt64; omega), Int.tdiv_eq_ediv_of_nonneg (by omega)]
  omega

theorem fits_products {a : ℤ} (h0 : 0 < a) (h : a ≤ maxExactMbps) : ∀ x ∈ products a, FitsInt64 x := by
  unfold maxExactMbps at h
  unfold products
  rw [mbpsToBytes_of_le h0 (by omega), wrap64_of_le (by omega) (by unfold maxInt64; omega)]
  simp only [List.forall_mem_cons, FitsInt64, defaultBurstWindow, maxInt64]
  refine ⟨by omega, by omega, by omega, by simp⟩

theorem rate_setRate (l : RateLimiter) (now : ℚ) (r : ℤ) : (l.setRate now r).rate = r := by
  unfold setRate
  split <;> rfl

theorem burst_setRate (l : RateLimiter) (now : ℚ) (r : ℤ) : (l.setRate now r).burst = burstFor r := by
  unfold setRate
  split <;> rfl

theorem exact_setRate {a : ℤ} (h0 : 0 < a) (h : a ≤ maxExactMbps) (l : RateLimiter) (now : ℚ) :
    Exact (l.setRate now (mbpsToBytes a)) a := by
  have hbytes : mbpsToBytes a = a * 125000 := mbpsToBytes_of_le h0 (by unfold maxExactMbps at h; omega)
  refine ⟨hbytes, rate_setRate _ _ _, ?_, ?_⟩
  · rw [hbytes]
    unfold setRate
    rw [if_neg (by omega)]
    exact ⟨rfl, rfl⟩
  · rw [burst_setRate, rate_setRate, hbytes, burstFor_of_le h0 h]

theorem Exact.atMost {l l' : RateLimiter} {a b : ℤ} (hl : Exact l a) (hl' : Exact l' b) (hab : a ≤ b) :
    AtMost l l' := by
  have hrate : l.rate ≤ l'.rate := by
    rw [hl.rate, hl'.rate, hl.bytes, hl'.bytes]
    omega
  refine ⟨hrate, ?_⟩
  rw [hl.burst, hl'.burst]
  omega

/-! ### Above the bound -/

/-- The burst of a stored product is at most the largest `int64` over `time.Second`. -/
theorem burstFor_le (r : ℤ) : burstFor r ≤ 9223372036 := by
  have hw := wrap64_le (r * defaultBurstWindow)
  have hdiv : (wrap64 (r * defaultBurstWindow)).tdiv second ≤ maxInt64.tdiv second :=
    Int.tdiv_le_tdiv (by decide) hw
  have hmax : maxInt64.tdiv second = 9223372036 := by decide
  rw [burstFor_eq_max]
  omega

/-- Beyond the bound either the rate or the burst is not what it should be. -/
theorem Exact.le {a : ℤ} {l : RateLimiter} {now : ℚ} (h : Exact (l.setRate now (mbpsToBytes a)) a) :
    a ≤ maxExactMbps := by
  have hburst := h.burst
  rw [burst_setRate, rate_setRate, h.bytes] at hburst
  have hle := burstFor_le (a * 125000)
  unfold maxExactMbps
  omega

/-- **Speed limits.**  For two users with limits `0 < a ≤ b`: both pairs are exact, the one for `b` is nowhere smaller
than the one for `a`, and no product on the way leaves the `int64` range, if and only if `b ≤ 368934`. -/
theorem speedLimit_exact_iff (clock clock' : Clock) (t t' : LimiterTable) (u v : User) (hu : 0 < u.speedLimit)
    (huv : u.speedLimit ≤ v.speedLimit) :
    (∃ p q, (t.updateLimiterLocked true clock u).pairOf u.id = some p ∧
      (t'.updateLimiterLocked true clock' v).pairOf v.id = some q ∧
      (Exact p.rx u.speedLimit ∧ Exact p.tx u.speedLimit) ∧ (Exact q.rx v.speedLimit ∧ Exact q.tx v.speedLimit) ∧
      AtMost p.rx q.rx ∧ AtMost p.tx q.tx ∧
      (∀ x ∈ products u.speedLimit, FitsInt64 x) ∧ ∀ x ∈ products v.speedLimit, FitsInt64 x) ↔
      v.speedLimit ≤ maxExactMbps := by
  obtain ⟨p, now, hp⟩ := LimiterTable.pairOf_updateLimiterLocked clock t u
  obtain ⟨q, now', hq⟩ := LimiterTable.pairOf_updateLimiterLocked clock' t' v
  rw [hp, hq]
  constructor
  · rintro ⟨_, _, -, hq', -, ⟨hrx, -⟩, -⟩
    cases hq'
    exact Exact.le hrx
  · intro hv
    have hv0 : 0 < v.speedLimit := by omega
    have hu' : u.speedLimit ≤ maxExactMbps := by omega
    have hexact := exact_setRate hu hu'
    have hexact' := exact_setRate hv0 hv
    exact ⟨_, _, rfl, rfl, ⟨hexact _ _, hexact _ _⟩, ⟨hexact' _ _, hexact' _ _⟩,
      (hexact _ _).atMost (hexact' _ _) huv, (hexact _ _).atMost (hexact' _ _) huv,
      fits_products hu hu', fits_products hv0 hv⟩

/-- A table without limiters and a user with a limit. -/
def idleTable : LimiterTable := LimiterTable.new (fun _ => 0) 0

def limitedUser (mbps : ℤ) : User := { id := 1, uuid := "u", password := "", name := "", speedLimit := mbps }

theorem speedLimit_exact_thousand :
    ∃ p q, (idleTable.updateLimiterLocked true (fun _ _ => 0) (limitedUser 100)).pairOf 1 = some p ∧
      (idleTable.updateLimiterLocked true (fun _ _ => 0) (limitedUser 1000)).pairOf 1 = some q ∧
      (Exact p.rx 100 ∧ Exact p.tx 100) ∧ (Exact q.rx 1000 ∧ Exact q.tx 1000) ∧
      AtMost p.rx q.rx ∧ AtMost p.tx q.tx ∧ (∀ x ∈ products 100, FitsInt64 x) ∧ ∀ x ∈ products 1000, FitsInt64 x :=
  (speedLimit_exact_iff _ _ idleTable idleTable (limitedUser 100) (limitedUser 1000) (by decide) (by decide)).2
    (by decide)

/-- One Mbit/s more than the bound gives the smallest burst, less than a limit of 3 Mbit/s has. -/
theorem speedLimit_overflows :
    burstFor (mbpsToBytes (maxExactMbps + 1)) = 65536 ∧ burstFor (mbpsToBytes 3) = 75000 ∧
      ¬ ∀ x ∈ products (maxExactMbps + 1), FitsInt64 x := by
  refine ⟨by decide +kernel, by decide +kernel, ?_⟩
  intro h
  have hlast := (h (mbpsToBytes (maxExactMbps + 1) * defaultBurstWindow) (by simp [products])).2
  exact absurd hlast (by decide +kernel)

end MiniSbAgent.Agent
