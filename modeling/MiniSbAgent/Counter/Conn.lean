import MiniSbAgent.Counter.RateLimit
import MiniSbAgent.Counter.Traffic
import MiniSbAgent.Go.Utf8
import MiniSbAgent.Lib.Writers

/-!
# Writing through counters and limiters (`counter/counter.go`, `counter/ratelimit.go`)

A routed stream connection is wrapped by a `ConnCounter` and by up to two `RateLimitedConn`s.  Their writing halves act
on a `StreamWorld`: the wrapped connection, the storage that is counted on, and for each limiter, by its pointer, how
often it was waited on and which reservations were made of it.

Others use the limiters at the same time.  `see l i k` is the limiter `l` and the time as the `k`-th critical section
of the `i`-th `Wait` finds them; between two of them tokens come and go, while without `SetRate` and `Close` the
`Setting` stays.

* `sum_waited` — a `Wait` on an enabled limiter reserves as many bytes as it is for;
* `newConnCounter_layer`, `rateLimitedConn_layer` — a write through one wrapper delivers what its result says, with one
  more gauge: `DownCounter`, and the bytes asked of an enabled limiter;
* `newConnCounter_reliable`, `rateLimitedConn_reliable` — the same of `WriteBuffer`, when nothing fails.
-/

namespace MiniSbAgent.Counter

open Go Lib Lib.Writers RateLimiter

namespace RateLimiter

/-! ### What `Wait` reserves -/

/-- Two states of a limiter between which there was no `SetRate` and no `Close`. -/
structure Setting (l l' : RateLimiter) : Prop where
  rate : l'.rate = l.rate
  burst : l'.burst = l.burst
  disabled : l'.disabled = l.disabled
  closed : l'.closed = l.closed

/-- The limiter limits. -/
structure Enabled (l : RateLimiter) : Prop where
  not_closed : l.closed = false
  not_disabled : l.disabled = false
  rate_pos : 0 < l.rate

section Wait

variable {l : RateLimiter} {see : ℕ → RateLimiter × ℚ} (hsee : ∀ k, Setting l (see k).1)

include hsee

theorem reserve_ok (hl : l.closed = false) (k : ℕ) (n : ℤ) :
    ∃ wait, ((see k).1.reserve (see k).2 n).2 = .ok wait := by
  unfold reserve
  rw [(hsee k).closed, hl, if_neg Bool.false_ne_true]
  split
  · exact ⟨_, rfl⟩
  · simp only
    split
    · exact ⟨_, rfl⟩
    · exact ⟨_, rfl⟩

theorem reserveNoted_open (hl : l.closed = false) (k : ℕ) (n : ℤ) (next : Noted ℤ LimiterError Unit) :
    (reserveNoted (see k) n).bind (fun _ => next) = next.note n := by
  obtain ⟨wait, hw⟩ := reserve_ok hsee hl k n
  unfold reserveNoted Noted.bind
  rw [hw]
  rfl

/-- Nobody is refused by a limiter that stays open. -/
theorem waitFrom_ok (hl : l.closed = false) (k : ℕ) (remaining : ℤ) : (waitFrom see k remaining).result = .ok () := by
  induction hm : remaining.toNat using Nat.strong_induction_on generalizing k remaining with
  | _ m ih =>
    rw [waitFrom]
    split
    · rename_i hpos
      split
      · rw [reserveNoted_open hsee hl]
        rfl
      · rename_i chunk hc
        have hchunk := waitChunk_pos hpos hc
        rw [reserveNoted_open hsee hl]
        exact ih _ (by omega) (k + 2) (remaining - chunk) rfl
    · rfl

theorem Wait_ok (hl : l.closed = false) (n : ℤ) : Wait see n = .ok () := by
  unfold Wait waited
  split
  · rfl
  · exact waitFrom_ok hsee hl 0 n

/-- The reservations at a limiter that limits come to every byte. -/
theorem sum_waitFrom (hl : Enabled l) (k : ℕ) (remaining : ℤ) (h0 : 0 ≤ remaining) :
    (waitFrom see k remaining).notes.sum = remaining := by
  induction hm : remaining.toNat using Nat.strong_induction_on generalizing k remaining with
  | _ m ih =>
    rw [waitFrom]
    by_cases hpos : 0 < remaining
    · rw [if_pos hpos]
      split
      · rename_i hc
        unfold waitChunk at hc
        rw [(hsee k).disabled, hl.not_disabled, (hsee k).rate, (hsee k).closed, hl.not_closed,
          if_neg (by simp [hl.rate_pos])] at hc
        cases hc
      · rename_i chunk hc
        have hchunk := waitChunk_pos hpos hc
        have hle : chunk ≤ remaining := by
          unfold waitChunk at hc
          split at hc
          · cases hc
          · cases hc
            split <;> omega
        rw [reserveNoted_open hsee hl.not_closed, Noted.notes_note, List.sum_cons,
          ih _ (by omega) (k + 2) (remaining - chunk) (by omega) rfl]
        omega
    · rw [if_neg hpos, Noted.notes_ok, List.sum_nil]
      omega

theorem sum_waited (hl : Enabled l) {n : ℤ} (hn : 0 ≤ n) : (waited see n).notes.sum = n := by
  unfold waited
  split
  · rw [Noted.notes_ok, List.sum_nil]
    omega
  · exact sum_waitFrom hsee hl 0 n hn

end Wait

end RateLimiter

/-! ### The wrappers -/

/-- `N.ExtendedConn`, as far as writing goes. -/
structure ExtendedConn (τ ε : Type*) where
  write : Bytes → τ → Written τ ε
  writeBuffer : Bytes → τ → τ × Option ε

/-- What a wrapped connection returns: an error of the connection itself, of a limiter, or `io.ErrShortWrite`. -/
inductive ConnError (ε : Type*) where
  | conn (e : ε)
  | limiter (e : LimiterError)
  | shortWrite

structure StreamWorld (ι σ : Type*) where
  conn : σ
  storage : TrafficStorage
  waits : ι → ℕ
  /-- the bytes of the `reserve` calls on each limiter, one after the other -/
  reserved : ι → List ℤ

/-- The bytes a limiter was asked for. -/
def StreamWorld.asked {ι σ : Type*} (w : StreamWorld ι σ) (l : ι) : ℤ := (w.reserved l).sum

instance : NeZero maxWriteChunk.toNat := ⟨by decide⟩

section Wrappers

variable {ι σ ε : Type*} [DecidableEq ι] (see : ι → ℕ → ℕ → RateLimiter × ℚ)

/-- `l.Wait(n)` -/
def StreamWorld.wait (l : ι) (n : ℤ) (w : StreamWorld ι σ) : StreamWorld ι σ × Except LimiterError Unit :=
  let r := waited (see l (w.waits l)) n
  ({ w with
      waits := Function.update w.waits l (w.waits l + 1)
      reserved := Function.update w.reserved l (w.reserved l ++ r.notes) }, r.result)

def StreamWorld.countDown (w : StreamWorld ι σ) (n : ℤ) : StreamWorld ι σ :=
  { w with storage := w.storage.count (0, n) }

/-- The connection that is wrapped. -/
def ExtendedConn.inWorld (c : ExtendedConn σ ε) : ExtendedConn (StreamWorld ι σ) (ConnError ε) where
  write b w :=
    let r := c.write b w.conn
    ⟨{ w with conn := r.state }, r.n, r.err.map .conn⟩
  writeBuffer b w :=
    let r := c.writeBuffer b w.conn
    ({ w with conn := r.1 }, r.2.map .conn)

/-- `NewConnCounter` -/
def newConnCounter (c : ExtendedConn (StreamWorld ι σ) ε) : ExtendedConn (StreamWorld ι σ) ε where
  write b w :=
    let r := c.write b w
    if 0 < r.n then { r with state := r.state.countDown r.n } else r
  writeBuffer b w :=
    let n := b.length
    let r := c.writeBuffer b w
    if r.2.isNone ∧ 0 < n then (r.1.countDown n, r.2) else r

/-- One pass of the loops: wait for the length of the chunk, then write it. -/
def waitThenWrite (l : ι) (c : ExtendedConn (StreamWorld ι σ) (ConnError ε)) (chunk : Bytes) (w : StreamWorld ι σ) :
    Written (StreamWorld ι σ) (ConnError ε) :=
  let r := w.wait see l chunk.length
  match r.2 with
  | .error e => ⟨r.1, 0, some (.limiter e)⟩
  | .ok _ => c.write chunk r.1

/-- The end of `WriteBuffer`. -/
def waitThenWriteBuffer (l : ι) (c : ExtendedConn (StreamWorld ι σ) (ConnError ε)) (buffer : Bytes)
    (w : StreamWorld ι σ) : StreamWorld ι σ × Option (ConnError ε) :=
  let r := w.wait see l buffer.length
  match r.2 with
  | .error e => (r.1, some (.limiter e))
  | .ok _ => c.writeBuffer buffer r.1

/-- `RateLimitedConn`, with its write limiter. -/
def rateLimitedConn (writeLimiter : Option ι) (c : ExtendedConn (StreamWorld ι σ) (ConnError ε)) :
    ExtendedConn (StreamWorld ι σ) (ConnError ε) where
  write b w :=
    match writeLimiter with
    | none => c.write b w
    | some l =>
      if b.length = 0 then c.write b w
      else writeLoop maxWriteChunk.toNat .shortWrite (waitThenWrite see l c) b 0 w
  writeBuffer b w :=
    match writeLimiter with
    | none => c.writeBuffer b w
    | some l =>
      if b.length = 0 then c.writeBuffer b w
      else bufferLoop maxWriteChunk.toNat (waitThenWrite see l c) (waitThenWriteBuffer see l c) b w

/-- `NewRateLimitedConn` -/
def newRateLimitedConn (readLimiter writeLimiter : Option ι) (c : ExtendedConn (StreamWorld ι σ) (ConnError ε)) :
    ExtendedConn (StreamWorld ι σ) (ConnError ε) :=
  if readLimiter.isNone ∧ writeLimiter.isNone then c else rateLimitedConn see writeLimiter c

end Wrappers

/-! ### What a layer of wrappers guarantees -/

/-- `DownCounter`. -/
def downGauge {ι σ : Type*} : Gauge (StreamWorld ι σ) := ⟨fun w => w.storage.downCounter, 0⟩

/-- The bytes asked of a limiter, at most one chunk ahead. -/
def askedGauge {ι σ : Type*} (l : ι) : Gauge (StreamWorld ι σ) := ⟨fun w => w.asked l, maxWriteChunk⟩

/-- The gauge of a limiter that is there and enabled. -/
def limiterGauges {ι σ : Type*} (limiter : ι → RateLimiter) (l : Option ι) : Set (Gauge (StreamWorld ι σ)) :=
  {g | ∃ p, l = some p ∧ Enabled (limiter p) ∧ g = askedGauge p}

/-- **A layer of wrappers.**  Writes deliver what their results say, with the gauges of `G`; the limiters outside
`touched` are not asked, and waiting on one of them moves no gauge. -/
structure Layer {ι σ ε : Type*} [DecidableEq ι] (see : ι → ℕ → ℕ → RateLimiter × ℚ) (received : σ → Bytes)
    (G : Set (Gauge (StreamWorld ι σ))) (touched : Set ι) (c : ExtendedConn (StreamWorld ι σ) (ConnError ε)) :
    Prop where
  delivers : ∀ b w, Delivers (fun w => received w.conn) G b w (c.write b w)
  slack : ∀ g ∈ G, 0 ≤ g.slack
  keeps : ∀ p ∉ touched, ∀ b w, (c.write b w).state.asked p = w.asked p
  free : ∀ p ∉ touched, ∀ g ∈ G, ∀ n w, g.read (StreamWorld.wait see p n w).1 = g.read w

/-- A layer that never fails, by `Write` or by `WriteBuffer`. -/
structure Reliable {ι σ ε : Type*} (received : σ → Bytes) (G : Set (Gauge (StreamWorld ι σ))) (touched : Set ι)
    (c : ExtendedConn (StreamWorld ι σ) (ConnError ε)) : Prop where
  ok : ∀ b w, (c.write b w).err = none
  buffer : ∀ b w, DeliversAll (fun w => received w.conn) G b w (c.writeBuffer b w)
  keeps_buffer : ∀ p ∉ touched, ∀ b w, (c.writeBuffer b w).1.asked p = w.asked p

section Layers

variable {ι σ ε : Type*} [DecidableEq ι] {see : ι → ℕ → ℕ → RateLimiter × ℚ} {limiter : ι → RateLimiter}
  {received : σ → Bytes} {c : ExtendedConn (StreamWorld ι σ) (ConnError ε)} {G : Set (Gauge (StreamWorld ι σ))}
  {touched : Set ι}

/-! #### The counter -/

section Counter

variable {c : ExtendedConn σ ε}

omit [DecidableEq ι] in
/-- A write of nothing adds nothing, so the check of the sign makes no difference. -/
theorem write_newConnCounter (b : Bytes) (w : StreamWorld ι σ) :
    (newConnCounter c.inWorld).write b w =
      ⟨{ w with conn := (c.write b w.conn).state, storage := w.storage.count (0, (c.write b w.conn).n) },
        (c.write b w.conn).n, (c.write b w.conn).err.map .conn⟩ := by
  unfold newConnCounter ExtendedConn.inWorld
  simp only
  split
  · rfl
  · rename_i h
    have h0 : (c.write b w.conn).n = 0 := by omega
    simp [h0, TrafficStorage.count]

omit [DecidableEq ι] in
theorem writeBuffer_newConnCounter (b : Bytes) (w : StreamWorld ι σ) (hok : (c.writeBuffer b w.conn).2 = none) :
    (newConnCounter c.inWorld).writeBuffer b w =
      ({ w with conn := (c.writeBuffer b w.conn).1, storage := w.storage.count (0, b.length) }, none) := by
  unfold newConnCounter ExtendedConn.inWorld
  simp only [hok, Option.map_none, Option.isNone_none, true_and]
  split
  · rfl
  · rename_i h
    have h0 : b.length = 0 := by omega
    simp [h0, TrafficStorage.count]

theorem newConnCounter_layer (see : ι → ℕ → ℕ → RateLimiter × ℚ)
    (hc : ∀ b s, Delivers received ∅ b s (c.write b s)) :
    Layer see received {downGauge} ∅ (newConnCounter (ι := ι) c.inWorld) := by
  refine ⟨fun b w => ?_, ?_, fun p _ b w => ?_, ?_⟩
  · have h := hc b w.conn
    rw [write_newConnCounter]
    refine ⟨h.le, h.prefix_received, fun he => h.whole (Option.map_eq_none_iff.1 he), ?_, ?_⟩
    · rintro g rfl
      simp [downGauge, TrafficStorage.count]
    · rintro - g rfl
      simp [downGauge, TrafficStorage.count]
  · rintro g rfl
    exact le_rfl
  · rw [write_newConnCounter]
    rfl
  · rintro p - g rfl n w
    rfl

omit [DecidableEq ι] in
theorem newConnCounter_reliable (hok : ∀ b s, (c.write b s).err = none)
    (hbuffer : ∀ b s, (c.writeBuffer b s).2 = none ∧ received (c.writeBuffer b s).1 = received s ++ b) :
    Reliable received {downGauge} ∅ (newConnCounter (ι := ι) c.inWorld) := by
  refine ⟨fun b w => ?_, fun b w => ?_, fun p _ b w => ?_⟩
  · rw [write_newConnCounter]
    exact Option.map_eq_none_iff.2 (hok b w.conn)
  · rw [writeBuffer_newConnCounter b w (hbuffer b w.conn).1]
    refine ⟨rfl, (hbuffer b w.conn).2, ?_⟩
    rintro g rfl
    simp [downGauge, TrafficStorage.count]
  · rw [writeBuffer_newConnCounter b w (hbuffer b w.conn).1]
    rfl

end Counter

/-! #### A limiter -/

section Limiter

variable {l : ι}

theorem asked_wait_of_ne {p : ι} (hp : p ≠ l) (n : ℤ) (w : StreamWorld ι σ) :
    (StreamWorld.wait see l n w).1.asked p = w.asked p :=
  congrArg List.sum (Function.update_of_ne hp _ _)

omit [DecidableEq ι] in
theorem mem_limiterGauges {g : Gauge (StreamWorld ι σ)} :
    g ∈ limiterGauges limiter (some l) ↔ Enabled (limiter l) ∧ g = askedGauge l := by
  constructor
  · rintro ⟨_, ⟨⟩, h⟩
    exact h
  · exact fun h => ⟨l, rfl, h⟩

theorem keeps_waitThenWrite (hc : Layer see received G touched c) {p : ι} (hp : p ∉ touched) (hne : p ≠ l) (b : Bytes)
    (w : StreamWorld ι σ) : (waitThenWrite see l c b w).state.asked p = w.asked p := by
  unfold waitThenWrite
  simp only
  split
  · exact asked_wait_of_ne hne _ w
  · exact (hc.keeps p hp _ _).trans (asked_wait_of_ne hne _ w)

variable (hsee : ∀ i k, Setting (limiter l) (see l i k).1)

include hsee

theorem asked_wait (hl : Enabled (limiter l)) {n : ℤ} (hn : 0 ≤ n) (w : StreamWorld ι σ) :
    (StreamWorld.wait see l n w).1.asked l = w.asked l + n := by
  show (Function.update w.reserved l (w.reserved l ++ _) l).sum = (w.reserved l).sum + n
  rw [Function.update_self, List.sum_append, sum_waited (hsee _) hl hn]

/-- One chunk: the limiter is asked for its length, and as much of it is written as the result says. -/
theorem waitThenWrite_delivers (hc : Layer see received G touched c) (hl : l ∉ touched) {b : Bytes}
    (hb : b.length ≤ maxWriteChunk.toNat) (w : StreamWorld ι σ) :
    Delivers (fun w => received w.conn) (G ∪ limiterGauges limiter (some l)) b w (waitThenWrite see l c b w) := by
  have hfree : ∀ g ∈ G, g.read (StreamWorld.wait see l b.length w).1 = g.read w := fun g hg => hc.free l hl g hg _ w
  unfold waitThenWrite
  simp only
  split
  · rename_i e hrefused
    refine ⟨Nat.zero_le _, ?_, nofun, ?_, nofun⟩
    · rw [List.take_zero, List.append_nil]
      rfl
    · rintro g (hg | hg)
      · have hslack := hc.slack g hg
        rw [hfree g hg]
        simp only [Nat.cast_zero]
        omega
      · -- an enabled limiter does not refuse
        have hok := Wait_ok (hsee (w.waits l)) (mem_limiterGauges.1 hg).1.not_closed b.length
        exact absurd (hok.symm.trans hrefused) nofun
  · have h := hc.delivers b (StreamWorld.wait see l b.length w).1
    have hle := h.le
    have hkeep := hc.keeps l hl b (StreamWorld.wait see l b.length w).1
    have hchunk : maxWriteChunk.toNat = maxWriteChunk := rfl
    refine ⟨hle, h.prefix_received, h.whole, ?_, ?_⟩
    · rintro g (hg | hg)
      · have hfollows := h.follows g hg
        rwa [hfree g hg] at hfollows
      · obtain ⟨hon, rfl⟩ := mem_limiterGauges.1 hg
        simp only [askedGauge]
        rw [hkeep, asked_wait hsee hon (Int.natCast_nonneg _)]
        omega
    · rintro he g (hg | hg)
      · rw [h.exact_of_ok he g hg, hfree g hg]
      · obtain ⟨hon, rfl⟩ := mem_limiterGauges.1 hg
        have hwhole := h.whole he
        simp only [askedGauge]
        rw [hkeep, asked_wait hsee hon (Int.natCast_nonneg _), hwhole]

/-- **A limiter around a layer.** -/
theorem rateLimitedConn_layer (hc : Layer see received G touched c) (hl : l ∉ touched) :
    Layer see received (G ∪ limiterGauges limiter (some l)) (insert l touched) (rateLimitedConn see (some l) c) := by
  have hslack : ∀ g ∈ G ∪ limiterGauges limiter (some l), 0 ≤ g.slack := by
    rintro g (hg | hg)
    · exact hc.slack g hg
    · obtain ⟨-, rfl⟩ := mem_limiterGauges.1 hg
      exact (by decide : (0 : ℤ) ≤ maxWriteChunk)
  refine ⟨fun b w => ?_, hslack, fun p hp b w => ?_, fun p hp g hg n w => ?_⟩
  · unfold rateLimitedConn
    simp only
    split
    · rename_i h0
      have h := hc.delivers b w
      have hle := h.le
      refine ⟨hle, h.prefix_received, h.whole, ?_, ?_⟩
      · rintro g (hg | hg)
        · exact h.follows g hg
        · obtain ⟨-, rfl⟩ := mem_limiterGauges.1 hg
          simp only [askedGauge]
          rw [hc.keeps l hl b w]
          unfold maxWriteChunk
          omega
      · rintro he g (hg | hg)
        · exact h.exact_of_ok he g hg
        · obtain ⟨-, rfl⟩ := mem_limiterGauges.1 hg
          simp only [askedGauge]
          rw [hc.keeps l hl b w]
          omega
    · exact writeLoop_delivers (k := maxWriteChunk.toNat) hslack
        (fun b w _ hb => waitThenWrite_delivers hsee hc hl hb w) b w
  · obtain ⟨hne, hp⟩ := not_or.1 hp
    unfold rateLimitedConn
    simp only
    split
    · exact hc.keeps p hp b w
    · exact writeLoop_keeps (k := maxWriteChunk.toNat) (f := fun w => w.asked p)
        (fun b w => keeps_waitThenWrite hc hp hne b w) b 0 w
  · obtain ⟨hne, hp⟩ := not_or.1 hp
    rcases hg with hg | hg
    · exact hc.free p hp g hg n w
    · obtain ⟨-, rfl⟩ := mem_limiterGauges.1 hg
      exact asked_wait_of_ne (Ne.symm hne) n w

variable (hopen : (limiter l).closed = false)

include hopen

theorem waitThenWrite_open (b : Bytes) (w : StreamWorld ι σ) :
    waitThenWrite see l c b w = c.write b (StreamWorld.wait see l b.length w).1 := by
  have hok : (StreamWorld.wait see l b.length w).2 = .ok () := Wait_ok (hsee _) hopen _
  unfold waitThenWrite
  simp only [hok]

theorem waitThenWriteBuffer_open (b : Bytes) (w : StreamWorld ι σ) :
    waitThenWriteBuffer see l c b w = c.writeBuffer b (StreamWorld.wait see l b.length w).1 := by
  have hok : (StreamWorld.wait see l b.length w).2 = .ok () := Wait_ok (hsee _) hopen _
  unfold waitThenWriteBuffer
  simp only [hok]

/-- The rest of a buffer: the limiter is asked for its length, and all of it is written. -/
theorem waitThenWriteBuffer_delivers (hc : Layer see received G touched c) (hr : Reliable received G touched c)
    (hl : l ∉ touched) (b : Bytes) (w : StreamWorld ι σ) :
    DeliversAll (fun w => received w.conn) (G ∪ limiterGauges limiter (some l)) b w
      (waitThenWriteBuffer see l c b w) := by
  rw [waitThenWriteBuffer_open hsee hopen]
  have h := hr.buffer b (StreamWorld.wait see l b.length w).1
  refine ⟨h.ok, h.all_received, ?_⟩
  rintro g (hg | hg)
  · rw [h.exact_all g hg, hc.free l hl g hg]
  · obtain ⟨hon, rfl⟩ := mem_limiterGauges.1 hg
    simp only [askedGauge]
    rw [hr.keeps_buffer l hl, asked_wait hsee hon (Int.natCast_nonneg _)]

/-- **An open limiter around a layer that never fails.** -/
theorem rateLimitedConn_reliable (hc : Layer see received G touched c) (hr : Reliable received G touched c)
    (hl : l ∉ touched) :
    Reliable received (G ∪ limiterGauges limiter (some l)) (insert l touched) (rateLimitedConn see (some l) c) := by
  have hstep : ∀ b w, (waitThenWrite see l c b w).err = none ∧ (waitThenWrite see l c b w).n = b.length := by
    intro b w
    rw [waitThenWrite_open hsee hopen]
    exact ⟨hr.ok _ _, (hc.delivers _ _).whole (hr.ok _ _)⟩
  refine ⟨fun b w => ?_, fun b w => ?_, fun p hp b w => ?_⟩
  · unfold rateLimitedConn
    simp only
    split
    · exact hr.ok b w
    · exact writeLoop_ok hstep b 0 w
  · unfold rateLimitedConn
    simp only
    split
    · rename_i h0
      have h := hr.buffer b w
      refine ⟨h.ok, h.all_received, ?_⟩
      rintro g (hg | hg)
      · exact h.exact_all g hg
      · obtain ⟨-, rfl⟩ := mem_limiterGauges.1 hg
        simp only [askedGauge]
        rw [hr.keeps_buffer l hl b w]
        omega
    · rename_i h0
      refine bufferLoop_deliversAll (k := maxWriteChunk.toNat) (fun b w _ hb => ⟨(hstep b w).1, ?_⟩)
        (fun b w _ _ => waitThenWriteBuffer_delivers hsee hopen hc hr hl b w) w (by omega)
      exact (waitThenWrite_delivers hsee hc hl hb w).all (hstep b w).1
  · obtain ⟨hne, hp⟩ := not_or.1 hp
    unfold rateLimitedConn
    simp only
    split
    · exact hr.keeps_buffer p hp b w
    · refine bufferLoop_keeps (k := maxWriteChunk.toNat) (f := fun w => w.asked p)
        (fun b w => keeps_waitThenWrite hc hp hne b w) (fun b w => ?_) b w
      rw [waitThenWriteBuffer_open hsee hopen]
      exact (hr.keeps_buffer p hp _ _).trans (asked_wait_of_ne hne _ w)

end Limiter

/-! #### `NewRateLimitedConn` -/

theorem newRateLimitedConn_none (readLimiter : Option ι) : newRateLimitedConn see readLimiter none c = c := by
  unfold newRateLimitedConn
  split
  · rfl
  · rfl

theorem newRateLimitedConn_some (readLimiter : Option ι) (l : ι) :
    newRateLimitedConn see readLimiter (some l) c = rateLimitedConn see (some l) c := by
  unfold newRateLimitedConn
  rw [if_neg (by simp)]

omit [DecidableEq ι] in
theorem union_limiterGauges_none : G ∪ limiterGauges limiter none = G := by
  simp [limiterGauges]

omit [DecidableEq ι] in
theorem union_pointers_some (touched : Set ι) (l : ι) : touched ∪ {p | some l = some p} = insert l touched := by
  ext p
  simp [eq_comm]

section New

variable (hsee : ∀ l i k, Setting (limiter l) (see l i k).1) (readLimiter : Option ι) {writeLimiter : Option ι}
  (hc : Layer see received G touched c) (hl : ∀ l, writeLimiter = some l → l ∉ touched)

include hsee hc hl

theorem newRateLimitedConn_layer :
    Layer see received (G ∪ limiterGauges limiter writeLimiter) (touched ∪ {l | writeLimiter = some l})
      (newRateLimitedConn see readLimiter writeLimiter c) := by
  rcases writeLimiter with _ | l
  · simpa [newRateLimitedConn_none, union_limiterGauges_none] using hc
  · rw [union_pointers_some, newRateLimitedConn_some]
    exact rateLimitedConn_layer (hsee l) hc (hl l rfl)

theorem newRateLimitedConn_reliable (hr : Reliable received G touched c)
    (hopen : ∀ l, writeLimiter = some l → (limiter l).closed = false) :
    Reliable received (G ∪ limiterGauges limiter writeLimiter) (touched ∪ {l | writeLimiter = some l})
      (newRateLimitedConn see readLimiter writeLimiter c) := by
  rcases writeLimiter with _ | l
  · simpa [newRateLimitedConn_none, union_limiterGauges_none] using hr
  · rw [union_pointers_some, newRateLimitedConn_some]
    exact rateLimitedConn_reliable (hsee l) (hopen l rfl) hc hr (hl l rfl)

end New

end Layers

end MiniSbAgent.Counter
