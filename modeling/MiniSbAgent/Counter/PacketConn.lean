import MiniSbAgent.Counter.RateLimit
import MiniSbAgent.Counter.Traffic
import MiniSbAgent.Counter.Conn

/-!
# Packets through counters and limiters (`counter/counter.go`, `counter/ratelimit.go`)

A packet connection is wrapped by a `PacketConnCounter` and by up to two `RateLimitedPacketConn`s, which do not wait
but drop what their limiter does not cover.  The wrappers act on a `PacketWorld`; `passed` and `dropped` are not in the
source, they record what the wrapped connection took without an error and how many packets a limiter dropped.

* `Covers`, `Lacks`, `Charges` — what a limiter makes of a packet, by its state before;
* `Untaken` — a limiter that has at most been refilled;
* `allow_cases` — the three outcomes of `Allow`;
* `PacketCall`, `PacketConn.run` — sequences of calls, between which others may do anything to the limiters;
* `callSpec_call`, `accounted_iff` — what one call does, and when a whole run is accounted for.
-/

namespace MiniSbAgent.Counter

open Go

namespace RateLimiter

/-- `Allow` lets `n` bytes pass at time `t`. -/
def Covers (l : RateLimiter) (t : ℚ) (n : ℤ) : Prop :=
  l.closed = false ∧ (l.passes n = true ∨ (l.refill t).need n ≤ (l.refill t).tokens)

/-- `Allow` drops `n` bytes at time `t`. -/
def Lacks (l : RateLimiter) (t : ℚ) (n : ℤ) : Prop :=
  l.closed = false ∧ l.passes n = false ∧ (l.refill t).tokens < (l.refill t).need n

/-- `Allow` lets `n` bytes pass at time `t` and takes tokens for them. -/
def Charges (l : RateLimiter) (t : ℚ) (n : ℤ) : Prop :=
  l.closed = false ∧ l.passes n = false ∧ (l.refill t).need n ≤ (l.refill t).tokens ∧ (l.refill t).need n ≠ 0

theorem Covers.not_lacks {l : RateLimiter} {t : ℚ} {n : ℤ} (h : l.Covers t n) : ¬ l.Lacks t n := by
  rintro ⟨-, hpasses, hlt⟩
  rcases h.2 with hp | hle
  · rw [hpasses] at hp
    cases hp
  · exact absurd hlt (not_lt.2 hle)

/-- No tokens were taken from `l` on the way to `l'`. -/
def Untaken (l l' : RateLimiter) (t : ℚ) : Prop := l' = l ∨ l' = l.refill t

theorem tokens_refill_of_last {l : RateLimiter} {t : ℚ} (h : (l.refill t).last = l.last) :
    (l.refill t).tokens = l.tokens := by
  unfold refill at h ⊢
  simp only at h ⊢
  split
  · rename_i hlt
    rw [if_pos hlt] at h
    rw [← h, Option.getD_some, sub_self] at hlt
    exact absurd hlt (lt_irrefl 0)
  · rfl

/-- Taking tokens shows, even if as many have just come in. -/
theorem not_untaken_take {l : RateLimiter} {t x : ℚ} (hx : x ≠ 0) :
    ¬ Untaken l { l.refill t with tokens := (l.refill t).tokens - x } t := by
  rintro (h | h)
  · have hlast := congrArg RateLimiter.last h
    have htokens := congrArg RateLimiter.tokens h
    simp only at hlast htokens
    rw [tokens_refill_of_last hlast] at htokens
    exact hx (by linarith)
  · have htokens := congrArg RateLimiter.tokens h
    simp only at htokens
    exact hx (by linarith)

/-- **`Allow`.**  The limiter is closed, or covers the packet, or drops it. -/
theorem Allow_cases (l : RateLimiter) (t : ℚ) {n : ℤ} (hn : 0 < n) :
    (l.closed = true ∧ l.Allow t n = (l, .error .closed)) ∨
    (l.Covers t n ∧ (l.Allow t n).2 = .ok true ∧ (Untaken l (l.Allow t n).1 t ↔ ¬ l.Charges t n)) ∨
    (l.Lacks t n ∧ l.Allow t n = (l.refill t, .ok false)) := by
  unfold Allow allow Covers Lacks Charges
  rw [if_neg (not_le.2 hn)]
  rcases hclosed : l.closed with _ | _
  · rcases hpasses : l.passes n with _ | _
    · simp only [Bool.false_eq_true, if_false, true_and, false_or]
      by_cases hlt : (l.refill t).tokens < (l.refill t).need n
      · right; right
        rw [if_pos hlt]
        exact ⟨hlt, rfl⟩
      · right; left
        rw [if_neg hlt]
        refine ⟨not_lt.1 hlt, rfl, fun h hc => not_untaken_take hc.2 h, fun h => ?_⟩
        have h0 : (l.refill t).need n = 0 := not_not.1 fun h0 => h ⟨not_lt.1 hlt, h0⟩
        right
        show { l.refill t with tokens := (l.refill t).tokens - (l.refill t).need n } = l.refill t
        rw [h0, sub_zero]
    · right; left
      simp [Untaken]
  · exact Or.inl ⟨rfl, if_pos rfl⟩

end RateLimiter

open RateLimiter

/-! ### The wrappers -/

/-- What `ReadPacket` leaves in the buffer and returns. -/
structure Packet (δ ε : Type*) where
  buff : Bytes
  dest : δ
  err : Option ε

/-- `N.PacketConn`, as far as packets go. -/
structure PacketConn (τ δ ε : Type*) where
  readPacket : τ → τ × Packet δ ε
  writePacket : Bytes → δ → τ → τ × Option ε

structure PacketWorld (ι σ : Type*) where
  conn : σ
  storage : TrafficStorage
  limiter : ι → RateLimiter
  /-- the time at which the limiter reads the clock during the call -/
  now : ι → ℚ
  passed : ℤ
  dropped : ℕ

section Wrappers

variable {ι σ δ ε : Type*} [DecidableEq ι]

/-- The connection that is wrapped. -/
def PacketConn.inWorld (c : PacketConn σ δ ε) : PacketConn (PacketWorld ι σ) δ (ConnError ε) where
  readPacket w :=
    let r := c.readPacket w.conn
    ({ w with conn := r.1 }, ⟨r.2.buff, r.2.dest, r.2.err.map .conn⟩)
  writePacket buff dest w :=
    let r := c.writePacket buff dest w.conn
    ({ w with conn := r.1, passed := if r.2.isNone then w.passed + buff.length else w.passed }, r.2.map .conn)

def PacketWorld.count (w : PacketWorld ι σ) (d : ℤ × ℤ) : PacketWorld ι σ := { w with storage := w.storage.count d }

/-- `NewPacketConnCounter` -/
def newPacketConnCounter (c : PacketConn (PacketWorld ι σ) δ ε) : PacketConn (PacketWorld ι σ) δ ε where
  readPacket w :=
    let r := c.readPacket w
    if r.2.err.isNone ∧ 0 < r.2.buff.length then (r.1.count (r.2.buff.length, 0), r.2) else r
  writePacket buff dest w :=
    let n := buff.length
    let r := c.writePacket buff dest w
    if r.2.isNone ∧ 0 < n then (r.1.count (0, n), r.2) else r

/-- `l.Allow(n)`; a nil limiter lets everything pass. -/
def PacketWorld.allow (w : PacketWorld ι σ) (l : Option ι) (n : ℤ) : PacketWorld ι σ × Except LimiterError Bool :=
  match l with
  | none => (w, .ok true)
  | some p =>
    let r := (w.limiter p).Allow (w.now p) n
    ({ w with
        limiter := Function.update w.limiter p r.1
        dropped := match r.2 with
          | .ok false => w.dropped + 1
          | _ => w.dropped }, r.2)

/-- What `ReadPacket` makes of a packet after `Allow`: an error, an empty buffer, or nothing. -/
def Packet.limited (p : Packet δ (ConnError ε)) : Except LimiterError Bool → Packet δ (ConnError ε)
  | .error e => { p with err := some (.limiter e) }
  | .ok false => { p with buff := [] }
  | .ok true => p

/-- `RateLimitedPacketConn` -/
def rateLimitedPacketConn (readLimiter writeLimiter : Option ι) (c : PacketConn (PacketWorld ι σ) δ (ConnError ε)) :
    PacketConn (PacketWorld ι σ) δ (ConnError ε) where
  readPacket w :=
    let r := c.readPacket w
    if r.2.err.isNone ∧ 0 < r.2.buff.length ∧ readLimiter.isSome then
      let a := r.1.allow readLimiter r.2.buff.length
      (a.1, r.2.limited a.2)
    else r
  writePacket buff dest w :=
    if 0 < buff.length ∧ writeLimiter.isSome then
      let a := w.allow writeLimiter buff.length
      match a.2 with
      | .error e => (a.1, some (.limiter e))
      | .ok false => (a.1, none)
      | .ok true => c.writePacket buff dest a.1
    else c.writePacket buff dest w

/-- `NewRateLimitedPacketConn` -/
def newRateLimitedPacketConn (readLimiter writeLimiter : Option ι)
    (c : PacketConn (PacketWorld ι σ) δ (ConnError ε)) : PacketConn (PacketWorld ι σ) δ (ConnError ε) :=
  if readLimiter.isNone ∧ writeLimiter.isNone then c else rateLimitedPacketConn readLimiter writeLimiter c

end Wrappers

/-! ### One limiter -/

section Allow

variable {ι σ δ ε : Type*} [DecidableEq ι] (w : PacketWorld ι σ) (l : Option ι) (n : ℤ)

/-- The limiter, if there is one, lets the packet pass. -/
def PacketWorld.Covers : Prop := ∀ p, l = some p → (w.limiter p).Covers (w.now p) n

/-- There is a limiter, and it drops the packet. -/
def PacketWorld.Lacks : Prop := ∃ p, l = some p ∧ (w.limiter p).Lacks (w.now p) n

/-- There is a limiter, and it takes tokens for the packet. -/
def PacketWorld.Charges : Prop := ∃ p, l = some p ∧ (w.limiter p).Charges (w.now p) n

/-- No limiter lost tokens on the way to `w'`. -/
def PacketWorld.Untaken (w' : PacketWorld ι σ) : Prop := ∀ p, (w.limiter p).Untaken (w'.limiter p) (w.now p)

@[simp] theorem conn_allow : (w.allow l n).1.conn = w.conn := by cases l <;> rfl
@[simp] theorem storage_allow : (w.allow l n).1.storage = w.storage := by cases l <;> rfl
@[simp] theorem passed_allow : (w.allow l n).1.passed = w.passed := by cases l <;> rfl
@[simp] theorem now_allow : (w.allow l n).1.now = w.now := by cases l <;> rfl

variable {l} in
theorem limiter_allow_of_ne {p : ι} (hp : l ≠ some p) : (w.allow l n).1.limiter p = w.limiter p := by
  rcases l with _ | q
  · rfl
  · exact Function.update_of_ne (fun h => hp (by rw [h])) _ _

theorem limiter_allow (p : ι) : (w.allow (some p) n).1.limiter p = ((w.limiter p).Allow (w.now p) n).1 :=
  Function.update_self _ _ _

variable {n} in
/-- **`Allow`, nil or not.**  It refuses, or the packet is covered, or it is dropped. -/
theorem allow_cases (hn : 0 < n) :
    ((∃ e, (w.allow l n).2 = .error e) ∧ (w.allow l n).1.dropped = w.dropped ∧
      ¬ w.Covers l n ∧ ¬ w.Lacks l n ∧ ¬ w.Charges l n) ∨
    ((w.allow l n).2 = .ok true ∧ (w.allow l n).1.dropped = w.dropped ∧ w.Covers l n ∧ ¬ w.Lacks l n ∧
      (w.Untaken (w.allow l n).1 ↔ ¬ w.Charges l n)) ∨
    ((w.allow l n).2 = .ok false ∧ (w.allow l n).1.dropped = w.dropped + 1 ∧ ¬ w.Covers l n ∧ w.Lacks l n ∧
      ¬ w.Charges l n ∧ w.Untaken (w.allow l n).1) := by
  rcases l with _ | p
  · right; left
    exact ⟨rfl, rfl, nofun, nofun, fun _ => nofun, fun _ _ => Or.inl rfl⟩
  · have hcovers : w.Covers (some p) n ↔ (w.limiter p).Covers (w.now p) n := by
      simp [PacketWorld.Covers]
    have hlacks : w.Lacks (some p) n ↔ (w.limiter p).Lacks (w.now p) n := by
      simp [PacketWorld.Lacks]
    have hcharges : w.Charges (some p) n ↔ (w.limiter p).Charges (w.now p) n := by
      simp [PacketWorld.Charges]
    have huntaken : w.Untaken (w.allow (some p) n).1 ↔
        (w.limiter p).Untaken ((w.limiter p).Allow (w.now p) n).1 (w.now p) := by
      rw [← limiter_allow]
      refine ⟨fun h => h p, fun h q => ?_⟩
      by_cases hq : q = p
      · rw [hq]
        exact h
      · left
        exact limiter_allow_of_ne w n (fun h => hq (Option.some.inj h).symm)
    rw [hcovers, hlacks, hcharges, huntaken]
    have hdropped : (w.allow (some p) n).1.dropped =
        match ((w.limiter p).Allow (w.now p) n).2 with
          | .ok false => w.dropped + 1
          | _ => w.dropped := rfl
    have hres : (w.allow (some p) n).2 = ((w.limiter p).Allow (w.now p) n).2 := rfl
    rw [hdropped, hres]
    rcases Allow_cases (w.limiter p) (w.now p) hn with ⟨hclosed, h⟩ | ⟨hc, h, hu⟩ | ⟨hl, h⟩
    · left
      rw [h]
      refine ⟨⟨_, rfl⟩, rfl, ?_, ?_, ?_⟩
      all_goals
        intro h'
        rw [h'.1] at hclosed
        cases hclosed
    · right; left
      rw [h]
      exact ⟨rfl, rfl, hc, hc.not_lacks, hu⟩
    · right; right
      rw [h]
      exact ⟨rfl, rfl, fun hc => hc.not_lacks hl, hl, fun hc => absurd hl.2.2 (not_lt.2 hc.2.2.1), Or.inr rfl⟩

/-! What one limiter makes of a packet, another does not change. -/

section Other

variable {w l} {l' : Option ι} (h : ∀ p, l = some p → l' ≠ some p) (m : ℤ)

include h

theorem limiter_allow_other {p : ι} (hp : l' = some p) : (w.allow l n).1.limiter p = w.limiter p :=
  limiter_allow_of_ne w n fun hl => h p hl hp

theorem covers_allow : (w.allow l n).1.Covers l' m ↔ w.Covers l' m := by
  unfold PacketWorld.Covers
  refine forall₂_congr fun p hp => ?_
  rw [limiter_allow_other n h hp, now_allow]

theorem lacks_allow : (w.allow l n).1.Lacks l' m ↔ w.Lacks l' m := by
  unfold PacketWorld.Lacks
  refine exists_congr fun p => and_congr_right fun hp => ?_
  rw [limiter_allow_other n h hp, now_allow]

/-- A second limiter that took nothing does not hide what the first one took. -/
theorem untaken_allow (hu : (w.allow l n).1.Untaken ((w.allow l n).1.allow l' m).1) :
    w.Untaken ((w.allow l n).1.allow l' m).1 ↔ w.Untaken (w.allow l n).1 := by
  refine forall_congr' fun p => ?_
  by_cases hp : l' = some p
  · have hp' := hu p
    rw [limiter_allow_other n h hp, now_allow] at hp'
    rw [limiter_allow_other n h hp]
    exact ⟨fun _ => Or.inl rfl, fun _ => hp'⟩
  · rw [limiter_allow_of_ne _ m hp]

end Other

end Allow

/-! ### Both limiters and the counter -/

section Wrapped

variable {ι σ δ ε : Type*} [DecidableEq ι]

/-- The bytes that `ReadPacket` hands to its caller. -/
def Packet.handed (p : Packet δ ε) : ℤ := if p.err.isNone then p.buff.length else 0

theorem newRateLimitedPacketConn_eq (readLimiter writeLimiter : Option ι)
    (c : PacketConn (PacketWorld ι σ) δ (ConnError ε)) :
    newRateLimitedPacketConn readLimiter writeLimiter c = rateLimitedPacketConn readLimiter writeLimiter c := by
  unfold newRateLimitedPacketConn
  split
  · rename_i h
    rw [Option.isNone_iff_eq_none, Option.isNone_iff_eq_none] at h
    unfold rateLimitedPacketConn
    simp [h.1, h.2]
  · rfl

section Limited

variable (readLimiter writeLimiter : Option ι) {c : PacketConn (PacketWorld ι σ) δ (ConnError ε)} {w : PacketWorld ι σ}

/-- Errors and empty packets are none of the limiter's business. -/
theorem readPacket_rateLimited_of_not (h : (c.readPacket w).2.err ≠ none ∨ (c.readPacket w).2.buff.length = 0) :
    (rateLimitedPacketConn readLimiter writeLimiter c).readPacket w = c.readPacket w := by
  unfold rateLimitedPacketConn
  simp only
  rw [if_neg]
  rintro ⟨he, hlen, -⟩
  rcases h with h | h
  · exact h (Option.isNone_iff_eq_none.1 he)
  · omega

theorem readPacket_rateLimited (he : (c.readPacket w).2.err = none) (hlen : 0 < (c.readPacket w).2.buff.length) :
    (rateLimitedPacketConn readLimiter writeLimiter c).readPacket w =
      (((c.readPacket w).1.allow readLimiter (c.readPacket w).2.buff.length).1,
        (c.readPacket w).2.limited ((c.readPacket w).1.allow readLimiter (c.readPacket w).2.buff.length).2) := by
  unfold rateLimitedPacketConn
  simp only [he, Option.isNone_none, true_and, hlen]
  rcases readLimiter with _ | l
  · rfl
  · exact if_pos rfl

theorem writePacket_rateLimited_nil (dest : δ) :
    (rateLimitedPacketConn readLimiter writeLimiter c).writePacket [] dest w = c.writePacket [] dest w := by
  simp [rateLimitedPacketConn]

theorem writePacket_rateLimited {buff : Bytes} (hlen : 0 < buff.length) (dest : δ) :
    (rateLimitedPacketConn readLimiter writeLimiter c).writePacket buff dest w =
      match (w.allow writeLimiter buff.length).2 with
      | .error e => ((w.allow writeLimiter buff.length).1, some (.limiter e))
      | .ok false => ((w.allow writeLimiter buff.length).1, none)
      | .ok true => c.writePacket buff dest (w.allow writeLimiter buff.length).1 := by
  rcases writeLimiter with _ | l
  · exact if_neg (by simp)
  · exact if_pos ⟨hlen, rfl⟩

end Limited

variable (nodeRead nodeWrite userRead userWrite : Option ι) (c : PacketConn σ δ ε)

/-- The counter inside, the limiters of the node around it and those of the user outermost. -/
def wrappedPacketConn : PacketConn (PacketWorld ι σ) δ (ConnError ε) :=
  newRateLimitedPacketConn userRead userWrite
    (newRateLimitedPacketConn nodeRead nodeWrite (newPacketConnCounter c.inWorld))

variable {nodeRead nodeWrite userRead userWrite c} {w : PacketWorld ι σ}

theorem readPacket_idle (h : (c.readPacket w.conn).2.err ≠ none ∨ (c.readPacket w.conn).2.buff.length = 0) :
    (wrappedPacketConn nodeRead nodeWrite userRead userWrite c).readPacket w = c.inWorld.readPacket w := by
  have hcount : (newPacketConnCounter c.inWorld).readPacket w = c.inWorld.readPacket w := by
    unfold newPacketConnCounter
    simp only
    rw [if_neg]
    rintro ⟨he, hlen⟩
    rcases h with h | h
    · exact h (by simpa [PacketConn.inWorld] using he)
    · have : (c.readPacket w.conn).2.buff.length > 0 := hlen
      omega
  have hidle : (c.inWorld.readPacket w).2.err ≠ none ∨ (c.inWorld.readPacket w).2.buff.length = 0 := by
    refine h.imp (fun he h0 => he ?_) id
    exact Option.map_eq_none_iff.1 h0
  unfold wrappedPacketConn
  rw [newRateLimitedPacketConn_eq, newRateLimitedPacketConn_eq]
  have hnode := readPacket_rateLimited_of_not nodeRead nodeWrite (by rw [hcount]; exact hidle)
  rw [readPacket_rateLimited_of_not, hnode, hcount]
  rw [hnode, hcount]
  exact hidle

/-- What two limiters make of a packet of `n` bytes. -/
theorem readPacket_limited {c : PacketConn (PacketWorld ι σ) δ (ConnError ε)} {w₁ : PacketWorld ι σ}
    {p : Packet δ (ConnError ε)} (hapart : ∀ l, nodeRead = some l → userRead ≠ some l) (hc : c.readPacket w = (w₁, p))
    (he : p.err = none) {n : ℕ} (hn : p.buff.length = n) (hpos : 0 < n) :
    ∃ r, (rateLimitedPacketConn userRead userWrite (rateLimitedPacketConn nodeRead nodeWrite c)).readPacket w = r ∧
      r.1.storage = w₁.storage ∧ r.1.passed = w₁.passed ∧
      ((r.2.handed = n ∧ r.1.dropped = w₁.dropped ∧ w₁.Covers nodeRead n ∧ w₁.Covers userRead n) ∨
        r.2.handed = 0 ∧ ¬ (w₁.Covers nodeRead n ∧ w₁.Covers userRead n)) := by
  have hpos' : (0 : ℤ) < n := by exact_mod_cast hpos
  have hnode := readPacket_rateLimited nodeRead nodeWrite (c := c) (w := w) (by rw [hc]; exact he)
    (by rw [hc]; exact hn ▸ hpos)
  rw [hc] at hnode
  simp only [hn] at hnode
  obtain ⟨c', hc'⟩ : ∃ c', c' = rateLimitedPacketConn nodeRead nodeWrite c := ⟨_, rfl⟩
  rw [← hc'] at hnode ⊢
  rcases allow_cases w₁ nodeRead hpos' with ⟨⟨e, ha⟩, -, hcov, -⟩ | ⟨ha, hd, hcov, -⟩ | ⟨ha, -, hcov, -⟩
  · rw [ha] at hnode
    refine ⟨_, readPacket_rateLimited_of_not userRead userWrite (Or.inl ?_), ?_⟩
    · rw [hnode]
      exact nofun
    · rw [hnode]
      exact ⟨storage_allow _ _ _, passed_allow _ _ _, Or.inr ⟨rfl, fun h => hcov h.1⟩⟩
  · rw [ha] at hnode
    refine ⟨_, readPacket_rateLimited userRead userWrite ?_ ?_, ?_⟩
    · rw [hnode]
      exact he
    · rw [hnode]
      exact hn ▸ hpos
    · rw [hnode]
      simp only [Packet.limited, hn, storage_allow, passed_allow, true_and]
      have hcov' := covers_allow (w := w₁) (n := n) hapart n
      rcases allow_cases (w₁.allow nodeRead n).1 userRead hpos' with
        ⟨⟨e, hb⟩, -, hno, -⟩ | ⟨hb, hd', hyes, -⟩ | ⟨hb, -, hno, -⟩
      · rw [hb]
        exact Or.inr ⟨rfl, fun h => hno (hcov'.2 h.2)⟩
      · rw [hb, hd', hd]
        refine Or.inl ⟨?_, rfl, hcov, hcov'.1 hyes⟩
        simp [Packet.handed, he, hn]
      · rw [hb]
        refine Or.inr ⟨?_, fun h => hno (hcov'.2 h.2)⟩
        simp [Packet.handed]
  · rw [ha] at hnode
    refine ⟨_, readPacket_rateLimited_of_not userRead userWrite (Or.inr ?_), ?_⟩
    · rw [hnode]
      rfl
    · rw [hnode]
      refine ⟨storage_allow _ _ _, passed_allow _ _ _, Or.inr ⟨?_, fun h => hcov h.1⟩⟩
      simp [Packet.limited, Packet.handed]

/-- **A packet is read.**  It is counted whatever the limiters say, and handed on when both cover it. -/
theorem readPacket_cases (nodeWrite userWrite : Option ι) (hapart : ∀ p, nodeRead = some p → userRead ≠ some p)
    (he : (c.readPacket w.conn).2.err = none) {n : ℕ} (hn : (c.readPacket w.conn).2.buff.length = n) (hpos : 0 < n) :
    ∃ r, (wrappedPacketConn nodeRead nodeWrite userRead userWrite c).readPacket w = r ∧
      r.1.storage = w.storage.count (n, 0) ∧ r.1.passed = w.passed ∧
      ((r.2.handed = n ∧ r.1.dropped = w.dropped ∧ w.Covers nodeRead n ∧ w.Covers userRead n) ∨
        r.2.handed = 0 ∧ ¬ (w.Covers nodeRead n ∧ w.Covers userRead n)) := by
  have hcount : (newPacketConnCounter c.inWorld).readPacket w =
      (({ w with conn := (c.readPacket w.conn).1 } : PacketWorld ι σ).count (n, 0),
        ⟨(c.readPacket w.conn).2.buff, (c.readPacket w.conn).2.dest, none⟩) := by
    unfold newPacketConnCounter PacketConn.inWorld
    simp only [he, hn, Option.map_none, Option.isNone_none, true_and, hpos, if_true]
  unfold wrappedPacketConn
  rw [newRateLimitedPacketConn_eq, newRateLimitedPacketConn_eq]
  exact readPacket_limited hapart hcount rfl hn hpos

theorem count_zero (s : TrafficStorage) : s.count (0, 0) = s := by
  simp [TrafficStorage.count]

omit [DecidableEq ι] in
theorem writePacket_counted (buff : Bytes) (dest : δ) (w : PacketWorld ι σ) :
    ∃ r, (newPacketConnCounter c.inWorld).writePacket buff dest w = r ∧
      r.1.storage = w.storage.count (0, r.1.passed - w.passed) ∧ r.1.dropped = w.dropped := by
  unfold newPacketConnCounter PacketConn.inWorld
  refine ⟨_, rfl, ?_⟩
  rcases hr : (c.writePacket buff dest w.conn).2 with _ | e
  · by_cases hlen : 0 < buff.length
    · simp [hr, hlen, PacketWorld.count]
    · have h0 : buff.length = 0 := by omega
      simp [hr, h0, count_zero]
  · simp [hr, count_zero]

theorem writePacket_nil (dest : δ) :
    (wrappedPacketConn nodeRead nodeWrite userRead userWrite c).writePacket [] dest w =
      (newPacketConnCounter c.inWorld).writePacket [] dest w := by
  unfold wrappedPacketConn
  rw [newRateLimitedPacketConn_eq, newRateLimitedPacketConn_eq, writePacket_rateLimited_nil,
    writePacket_rateLimited_nil]

/-- **A packet is written.**  What reaches the connection is counted, and nothing else; a packet that is dropped costs
tokens when the limiter of the user takes them and that of the node drops it. -/
theorem writePacket_cases (nodeRead userRead : Option ι) (hapart : ∀ p, userWrite = some p → nodeWrite ≠ some p)
    {buff : Bytes} (hlen : 0 < buff.length) (dest : δ) :
    ∃ r, (wrappedPacketConn nodeRead nodeWrite userRead userWrite c).writePacket buff dest w = r ∧
      r.1.storage = w.storage.count (0, r.1.passed - w.passed) ∧
      ((r.1.dropped = w.dropped ∧ ¬ (w.Charges userWrite buff.length ∧ w.Lacks nodeWrite buff.length)) ∨
        r.1.dropped = w.dropped + 1 ∧ r.1.storage = w.storage ∧
          (w.Untaken r.1 ↔ ¬ (w.Charges userWrite buff.length ∧ w.Lacks nodeWrite buff.length))) := by
  have hpos : (0 : ℤ) < buff.length := by exact_mod_cast hlen
  unfold wrappedPacketConn
  rw [newRateLimitedPacketConn_eq, newRateLimitedPacketConn_eq, writePacket_rateLimited _ _ hlen]
  rcases allow_cases w userWrite hpos with ⟨⟨e, ha⟩, hd, -, -, hno⟩ | ⟨ha, hd, -, -, hu⟩ | ⟨ha, hd, -, -, hno, hu⟩
  · rw [ha]
    refine ⟨_, rfl, ?_, Or.inl ⟨hd, fun h => hno h.1⟩⟩
    simp [count_zero]
  · rw [ha]
    simp only
    rw [writePacket_rateLimited _ _ hlen]
    have hlacks := lacks_allow (w := w) (n := buff.length) hapart buff.length
    rcases allow_cases (w.allow userWrite buff.length).1 nodeWrite hpos with
      ⟨⟨e, hb⟩, hd', -, hno, -⟩ | ⟨hb, hd', -, hno, -⟩ | ⟨hb, hd', -, hyes, -, hu'⟩
    · rw [hb]
      refine ⟨_, rfl, ?_, Or.inl ⟨hd'.trans hd, fun h => hno (hlacks.2 h.2)⟩⟩
      simp [count_zero]
    · rw [hb]
      obtain ⟨r, hr, hstorage, hdropped⟩ := writePacket_counted (c := c) buff dest
        ((w.allow userWrite buff.length).1.allow nodeWrite buff.length).1
      refine ⟨r, hr, ?_, Or.inl ⟨hdropped.trans (hd'.trans hd), fun h => hno (hlacks.2 h.2)⟩⟩
      simpa using hstorage
    · rw [hb]
      refine ⟨_, rfl, ?_, Or.inr ⟨hd'.trans (by rw [hd]), ?_, ?_⟩⟩
      · simp [count_zero]
      · simp
      · rw [untaken_allow _ hapart _ hu', hu]
        simp [hlacks.1 hyes]
  · rw [ha]
    refine ⟨_, rfl, ?_, Or.inr ⟨hd, ?_, ?_⟩⟩
    · simp [count_zero]
    · simp
    · exact ⟨fun _ h => hno h.1, fun _ => hu⟩

end Wrapped

/-! ### Sequences of calls -/

/-- A call, with the times at which the limiters read the clock; or what others do to the limiters in between. -/
inductive PacketCall (ι δ : Type*) where
  | readPacket (now : ι → ℚ)
  | writePacket (now : ι → ℚ) (buff : Bytes) (dest : δ)
  | elsewhere (limiter : ι → RateLimiter)

section Runs

variable {ι σ δ ε : Type*} [DecidableEq ι]

/-- The world in which a call is made. -/
def PacketCall.start (w : PacketWorld ι σ) : PacketCall ι δ → PacketWorld ι σ
  | .readPacket now => { w with now := now }
  | .writePacket now _ _ => { w with now := now }
  | .elsewhere limiter => { w with limiter := limiter }

/-- The world after a call, and the bytes that it handed to its caller. -/
def PacketConn.call (c : PacketConn (PacketWorld ι σ) δ ε) (w : PacketWorld ι σ) (k : PacketCall ι δ) :
    PacketWorld ι σ × ℤ :=
  match k with
  | .readPacket _ =>
    let r := c.readPacket (k.start w)
    (r.1, r.2.handed)
  | .writePacket _ buff dest => ((c.writePacket buff dest (k.start w)).1, 0)
  | .elsewhere _ => (k.start w, 0)

def PacketConn.run (c : PacketConn (PacketWorld ι σ) δ ε) (w : PacketWorld ι σ) :
    List (PacketCall ι δ) → PacketWorld ι σ × ℤ
  | [] => (w, 0)
  | k :: ks =>
    let r := c.call w k
    let r' := c.run r.1 ks
    (r'.1, r.2 + r'.2)

/-- `P` holds of every call of a run, in the world that the run has then reached. -/
def PacketConn.Along (c : PacketConn (PacketWorld ι σ) δ ε) (P : PacketWorld ι σ → PacketCall ι δ → Prop)
    (w : PacketWorld ι σ) : List (PacketCall ι δ) → Prop
  | [] => True
  | k :: ks => P w k ∧ c.Along P (c.call w k).1 ks

/-- A packet that this call lost to a limiter has cost nothing. -/
def PacketConn.DropFree (c : PacketConn (PacketWorld ι σ) δ ε) (w : PacketWorld ι σ) (k : PacketCall ι δ) : Prop :=
  (c.call w k).1.dropped ≠ w.dropped → (c.call w k).1.storage = w.storage ∧ (k.start w).Untaken (c.call w k).1

/-- **The counters of a run follow its packets, and dropped packets cost nothing.** -/
structure PacketConn.Accounted (c : PacketConn (PacketWorld ι σ) δ ε) (w : PacketWorld ι σ)
    (ks : List (PacketCall ι δ)) : Prop where
  up : (c.run w ks).1.storage.upCounter = w.storage.upCounter + (c.run w ks).2
  down : (c.run w ks).1.storage.downCounter = w.storage.downCounter + ((c.run w ks).1.passed - w.passed)
  drops : c.Along c.DropFree w ks

variable (nodeRead nodeWrite userRead userWrite : Option ι) (c : PacketConn σ δ ε)

/-- A read finds both limiters able to cover its packet; in a write the limiter of the user does not take tokens for a
packet that the limiter of the node drops. -/
def FairCall (w : PacketWorld ι σ) (k : PacketCall ι δ) : Prop :=
  match k with
  | .readPacket _ =>
    let r := (c.readPacket w.conn).2
    r.err = none → 0 < r.buff.length →
      (k.start w).Covers nodeRead r.buff.length ∧ (k.start w).Covers userRead r.buff.length
  | .writePacket _ buff _ =>
    0 < buff.length → ¬ ((k.start w).Charges userWrite buff.length ∧ (k.start w).Lacks nodeWrite buff.length)
  | .elsewhere _ => True

variable {nodeRead nodeWrite userRead userWrite c} (hread : ∀ p, nodeRead = some p → userRead ≠ some p)
  (hwrite : ∀ p, userWrite = some p → nodeWrite ≠ some p)

/-- What a call is seen to do: `UpCounter` may run ahead of what is handed on, `DownCounter` follows what is passed on,
and nothing is amiss exactly when the call is `fair`. -/
def CallSpec (w start w' : PacketWorld ι σ) (handed : ℤ) (fair : Prop) : Prop :=
  ∃ ahead : ℤ, 0 ≤ ahead ∧ w'.storage.upCounter = w.storage.upCounter + handed + ahead ∧
    w'.storage.downCounter = w.storage.downCounter + (w'.passed - w.passed) ∧
    ((ahead = 0 ∧ (w'.dropped ≠ w.dropped → w'.storage = w.storage ∧ start.Untaken w')) ↔ fair)

include hread in
theorem callSpec_readPacket (w : PacketWorld ι σ) :
    CallSpec w w ((wrappedPacketConn nodeRead nodeWrite userRead userWrite c).readPacket w).1
      ((wrappedPacketConn nodeRead nodeWrite userRead userWrite c).readPacket w).2.handed
      ((c.readPacket w.conn).2.err = none → 0 < (c.readPacket w.conn).2.buff.length →
        w.Covers nodeRead (c.readPacket w.conn).2.buff.length ∧
          w.Covers userRead (c.readPacket w.conn).2.buff.length) := by
  by_cases hidle : (c.readPacket w.conn).2.err ≠ none ∨ (c.readPacket w.conn).2.buff.length = 0
  · have hhanded : (c.inWorld.readPacket w).2.handed = 0 := by
      unfold Packet.handed PacketConn.inWorld
      rcases hidle with he | hlen
      · simp [he]
      · simp [hlen]
    rw [readPacket_idle hidle, hhanded]
    refine ⟨0, le_rfl, by simp [PacketConn.inWorld], by simp [PacketConn.inWorld], ?_⟩
    refine iff_of_true ⟨rfl, fun h => absurd rfl h⟩ fun he hlen => ?_
    rcases hidle with h | h
    · exact absurd he h
    · omega
  · obtain ⟨he, hlen⟩ := not_or.1 hidle
    obtain ⟨n, hn⟩ : ∃ n, (c.readPacket w.conn).2.buff.length = n := ⟨_, rfl⟩
    obtain ⟨r, hr, hstorage, hpassed, hcases⟩ :=
      readPacket_cases nodeWrite userWrite hread (not_not.1 he) hn (by omega)
    rw [hr, hn]
    have hup : r.1.storage.upCounter = w.storage.upCounter + n := by rw [hstorage]; rfl
    have hdown : r.1.storage.downCounter = w.storage.downCounter := by
      rw [hstorage]
      exact add_zero _
    refine ⟨n - r.2.handed, ?_, by omega, by omega, ?_⟩
    · rcases hcases with ⟨hh, -⟩ | ⟨hh, -⟩ <;> omega
    · rcases hcases with ⟨hh, hd, hcov⟩ | ⟨hh, hno⟩
      · exact iff_of_true ⟨by omega, fun h => absurd hd h⟩ fun _ _ => hcov
      · refine iff_of_false (fun h => ?_) fun h => hno (h (not_not.1 he) (by omega))
        have := h.1
        omega

include hwrite in
theorem callSpec_writePacket (w : PacketWorld ι σ) (buff : Bytes) (dest : δ) :
    CallSpec w w ((wrappedPacketConn nodeRead nodeWrite userRead userWrite c).writePacket buff dest w).1 0
      (0 < buff.length → ¬ (w.Charges userWrite buff.length ∧ w.Lacks nodeWrite buff.length)) := by
  have hcounts : ∀ w' : PacketWorld ι σ, w'.storage = w.storage.count (0, w'.passed - w.passed) →
      w'.storage.upCounter = w.storage.upCounter + 0 + 0 ∧
        w'.storage.downCounter = w.storage.downCounter + (w'.passed - w.passed) := by
    intro w' h
    rw [h]
    exact ⟨by simp [TrafficStorage.count], rfl⟩
  by_cases hlen : 0 < buff.length
  · obtain ⟨r, hr, hstorage, hcases⟩ :=
      writePacket_cases nodeRead userRead (c := c) (w := w) hwrite hlen dest
    obtain ⟨hup, hdown⟩ := hcounts r.1 hstorage
    rw [hr]
    refine ⟨0, le_rfl, hup, hdown, ?_⟩
    simp only [hlen, true_implies, true_and]
    rcases hcases with ⟨hd, hfair⟩ | ⟨hd, hsame, hu⟩
    · exact iff_of_true (fun h => absurd hd h) hfair
    · rw [← hu]
      exact ⟨fun h => (h (by omega)).2, fun h _ => ⟨hsame, h⟩⟩
  · have hnil : buff = [] := List.eq_nil_of_length_eq_zero (by omega)
    obtain ⟨r, hr, hstorage, hd⟩ := writePacket_counted (c := c) [] dest w
    obtain ⟨hup, hdown⟩ := hcounts r.1 hstorage
    rw [hnil, writePacket_nil, hr]
    exact ⟨0, le_rfl, hup, hdown, iff_of_true ⟨rfl, fun h => absurd hd h⟩ fun h => absurd h (by simp)⟩

include hread hwrite

/-- **One call.** -/
theorem callSpec_call (w : PacketWorld ι σ) (k : PacketCall ι δ) :
    CallSpec w (k.start w) ((wrappedPacketConn nodeRead nodeWrite userRead userWrite c).call w k).1
      ((wrappedPacketConn nodeRead nodeWrite userRead userWrite c).call w k).2
      (FairCall nodeRead nodeWrite userRead userWrite c w k) := by
  cases k with
  | readPacket now => exact callSpec_readPacket hread { w with now := now }
  | writePacket now buff dest => exact callSpec_writePacket hwrite { w with now := now } buff dest
  | elsewhere limiter =>
    refine ⟨0, le_rfl, ?_, ?_, iff_of_true ⟨rfl, fun h => absurd rfl h⟩ trivial⟩
    · simp [PacketConn.call, PacketCall.start]
    · simp [PacketConn.call, PacketCall.start]

/-- **A run.** -/
theorem run_spec (w : PacketWorld ι σ) (ks : List (PacketCall ι δ)) :
    ∃ ahead : ℤ, 0 ≤ ahead ∧
      ((wrappedPacketConn nodeRead nodeWrite userRead userWrite c).run w ks).1.storage.upCounter =
        w.storage.upCounter + ((wrappedPacketConn nodeRead nodeWrite userRead userWrite c).run w ks).2 + ahead ∧
      ((wrappedPacketConn nodeRead nodeWrite userRead userWrite c).run w ks).1.storage.downCounter =
        w.storage.downCounter +
          (((wrappedPacketConn nodeRead nodeWrite userRead userWrite c).run w ks).1.passed - w.passed) ∧
      (ahead = 0 ∧ (wrappedPacketConn nodeRead nodeWrite userRead userWrite c).Along
          (wrappedPacketConn nodeRead nodeWrite userRead userWrite c).DropFree w ks ↔
        (wrappedPacketConn nodeRead nodeWrite userRead userWrite c).Along
          (FairCall nodeRead nodeWrite userRead userWrite c) w ks) := by
  induction ks generalizing w with
  | nil => exact ⟨0, le_rfl, by simp [PacketConn.run], by simp [PacketConn.run], by simp [PacketConn.Along]⟩
  | cons k ks ih =>
    obtain ⟨a, ha, hup, hdown, hfair⟩ := callSpec_call (c := c) hread hwrite w k
    obtain ⟨b, hb, hup', hdown', hfair'⟩ :=
      ih ((wrappedPacketConn nodeRead nodeWrite userRead userWrite c).call w k).1
    refine ⟨a + b, by omega, ?_, ?_, ?_⟩
    · simp only [PacketConn.run]
      omega
    · simp only [PacketConn.run]
      omega
    · simp only [PacketConn.Along, ← hfair, ← hfair', PacketConn.DropFree]
      constructor
      · rintro ⟨h0, hd, hds⟩
        exact ⟨⟨by omega, hd⟩, by omega, hds⟩
      · rintro ⟨⟨ha0, hd⟩, hb0, hds⟩
        exact ⟨by omega, hd, hds⟩

/-- Packets are accounted for in a run exactly when all its calls are fair. -/
theorem accounted_iff (w : PacketWorld ι σ) (ks : List (PacketCall ι δ)) :
    (wrappedPacketConn nodeRead nodeWrite userRead userWrite c).Accounted w ks ↔
      (wrappedPacketConn nodeRead nodeWrite userRead userWrite c).Along
        (FairCall nodeRead nodeWrite userRead userWrite c) w ks := by
  obtain ⟨a, ha, hup, hdown, hfair⟩ := run_spec (c := c) hread hwrite w ks
  rw [← hfair]
  constructor
  · rintro ⟨h, -, hd⟩
    exact ⟨by omega, hd⟩
  · rintro ⟨h0, hd⟩
    exact ⟨by omega, hdown, hd⟩

end Runs

end MiniSbAgent.Counter
