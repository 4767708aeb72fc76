import MiniSbAgent.Agent.UserManager
import MiniSbAgent.Counter.Conn
import MiniSbAgent.Counter.PacketConn

/-!
# Routed connections (`cmd/mini-sb-agent/main.go`)

`RoutedConnection` and `RoutedPacketConnection` put the wrappers of the counter package around a connection: the counter
inside, the limiters of the node around it, those of the user outermost.  The limiters are the ones of
`DirectionalLimiters`, so those of the node are never those of a user.

* `stream_delivered` — a write delivers, counts and asks for what it returns, and `WriteBuffer` agrees with it when
  nothing fails;
* `packets_accounted_iff` — the counters follow the packets, and dropped packets are free, exactly in the runs in which
  no packet is dropped after it was counted or charged.
-/

namespace MiniSbAgent.Agent

open MiniSbAgent.Go MiniSbAgent.Counter MiniSbAgent.Lib.Writers MiniSbAgent.Counter.RateLimiter

/-- `Hook.directionalLimiters`; a hook without users has no limiters. -/
def directionalLimiters (build : Bool) (users : Option UserManager) (user : String) : UserManager.Limits :=
  match users with
  | none => ⟨none, none, none, none⟩
  | some m => m.directionalLimiters build user

section

variable {σ δ ε : Type*} (build : Bool) (users : Option UserManager) (user : String)

/-- `Hook.RoutedConnection` -/
def routedConnection (see : LimiterPtr → ℕ → ℕ → RateLimiter × ℚ) (conn : ExtendedConn σ ε) :
    ExtendedConn (StreamWorld LimiterPtr σ) (ConnError ε) :=
  if user = "" then conn.inWorld
  else
    let l := directionalLimiters build users user
    let conn := newConnCounter conn.inWorld
    let conn := newRateLimitedConn see l.nodeRead l.nodeWrite conn
    newRateLimitedConn see l.userRead l.userWrite conn

/-- `Hook.RoutedPacketConnection` -/
def routedPacketConnection (conn : PacketConn σ δ ε) : PacketConn (PacketWorld LimiterPtr σ) δ (ConnError ε) :=
  if user = "" then conn.inWorld
  else
    let l := directionalLimiters build users user
    let conn := newPacketConnCounter conn.inWorld
    let conn := newRateLimitedPacketConn l.nodeRead l.nodeWrite conn
    newRateLimitedPacketConn l.userRead l.userWrite conn

/-- The limiters of the node and those of a user are different ones. -/
theorem directionalLimiters_apart (p : LimiterPtr) :
    ((directionalLimiters build users user).nodeRead = some p →
      (directionalLimiters build users user).userRead ≠ some p) ∧
    ((directionalLimiters build users user).nodeWrite = some p →
      (directionalLimiters build users user).userWrite ≠ some p) := by
  rcases users with _ | m
  · exact ⟨nofun, nofun⟩
  · have hnode : ∀ d, m.nodeLimit.map (⟨·, d⟩) = some p → m.nodeLimit = some p.pair := by
      intro d h
      obtain ⟨a, ha, rfl⟩ := Option.map_eq_some_iff.1 h
      exact ha
    have huser : ∀ d, (if build then (m.bySecret.lookup user).bind fun id => m.limiters.lookup id else none).map
        (⟨·, d⟩) = some p → ∃ id, m.limiters.lookup id = some p.pair := by
      intro d h
      obtain ⟨a, ha, rfl⟩ := Option.map_eq_some_iff.1 h
      split at ha
      · obtain ⟨id, -, hid⟩ := Option.bind_eq_some_iff.1 ha
        exact ⟨id, hid⟩
      · cases ha
    constructor
    · intro h h'
      obtain ⟨id, hid⟩ := huser .rx h'
      exact m.not_node id _ hid (hnode .rx h)
    · intro h h'
      obtain ⟨id, hid⟩ := huser .tx h'
      exact m.not_node id _ hid (hnode .tx h)

end

/-! ### Streams -/

/-- The contract of `io.Writer`, with the bytes that the connection has received. -/
structure HonoursWriter {σ ε : Type*} (received : σ → Bytes) (conn : ExtendedConn σ ε) : Prop where
  le : ∀ b s, (conn.write b s).n ≤ b.length
  takes : ∀ b s, received (conn.write b s).state = received s ++ b.take (conn.write b s).n
  short : ∀ b s, (conn.write b s).n < b.length → (conn.write b s).err ≠ none

/-- The connection takes whatever it is given. -/
structure NeverFails {σ ε : Type*} (received : σ → Bytes) (conn : ExtendedConn σ ε) : Prop where
  write : ∀ b s, (conn.write b s).err = none
  writeBuffer : ∀ b s, (conn.writeBuffer b s).2 = none ∧ received (conn.writeBuffer b s).1 = received s ++ b

section Streams

variable {σ ε : Type*}

/-- What a write of `b` from `w` is to have done, given the write limiters in use. -/
structure StreamDelivered (received : σ → Bytes) (limiters : Set LimiterPtr) (b : Bytes) (w : StreamWorld LimiterPtr σ)
    (r : Written (StreamWorld LimiterPtr σ) (ConnError ε)) : Prop where
  le : r.n ≤ b.length
  received : received r.state.conn = received w.conn ++ b.take r.n
  counted : r.state.storage.downCounter = w.storage.downCounter + r.n
  asked : ∀ l ∈ limiters, w.asked l + r.n ≤ r.state.asked l ∧ r.state.asked l ≤ w.asked l + r.n + 65536
  short : r.n < b.length → r.err ≠ none

/-- `Write` and `WriteBuffer` of `b` from `w` both did all there is to do. -/
structure SameStream (received : σ → Bytes) (limiters : Set LimiterPtr) (b : Bytes) (w : StreamWorld LimiterPtr σ)
    (r : Written (StreamWorld LimiterPtr σ) (ConnError ε)) (r' : StreamWorld LimiterPtr σ × Option (ConnError ε)) :
    Prop where
  ok : r.err = none ∧ r'.2 = none
  received : received r.state.conn = received w.conn ++ b ∧ received r'.1.conn = received w.conn ++ b
  counted : r.state.storage.downCounter = w.storage.downCounter + b.length ∧
    r'.1.storage.downCounter = w.storage.downCounter + b.length
  asked : ∀ l ∈ limiters, r.state.asked l = w.asked l + b.length ∧ r'.1.asked l = w.asked l + b.length

/-- The enabled ones among the two write limiters. -/
def enabledWriteLimiters (limiter : LimiterPtr → RateLimiter) (l : UserManager.Limits) : Set LimiterPtr :=
  {p | (l.nodeWrite = some p ∨ l.userWrite = some p) ∧ Enabled (limiter p)}

/-- **Streams.**  Whatever the connection does within its contract and whatever the limiters are, a write delivers a prefix
in order, counts it, asks the enabled limiters for it and at most a chunk more, and is short only with an error; when
nothing can fail, `WriteBuffer` does the same as `Write`. -/
theorem stream_delivered (build : Bool) (users : Option UserManager) {user : String} (huser : user ≠ "")
    {received : σ → Bytes} {conn : ExtendedConn σ ε} (hconn : HonoursWriter received conn)
    (limiter : LimiterPtr → RateLimiter) (see : LimiterPtr → ℕ → ℕ → RateLimiter × ℚ)
    (hsee : ∀ p i k, Setting (limiter p) (see p i k).1) (b : Bytes) (w : StreamWorld LimiterPtr σ) :
    let l := directionalLimiters build users user
    let c := routedConnection build users user see conn
    StreamDelivered received (enabledWriteLimiters limiter l) b w (c.write b w) ∧
      (NeverFails received conn →
        (∀ p, l.nodeWrite = some p ∨ l.userWrite = some p → (limiter p).closed = false) →
        SameStream received (enabledWriteLimiters limiter l) b w (c.write b w) (c.writeBuffer b w)) := by
  intro l c
  have hc : c = newRateLimitedConn see l.userRead l.userWrite
      (newRateLimitedConn see l.nodeRead l.nodeWrite (newConnCounter conn.inWorld)) := if_neg huser
  have hinner : ∀ b s, Delivers received ∅ b s (conn.write b s) := fun b s =>
    ⟨hconn.le b s, hconn.takes b s,
      fun he => (hconn.le b s).eq_or_lt.resolve_right fun hlt => hconn.short b s hlt he, nofun, fun _ => nofun⟩
  have hnone : ∀ p, l.nodeWrite = some p → p ∉ (∅ : Set LimiterPtr) := fun _ _ => id
  have hapart : ∀ p, l.userWrite = some p → p ∉ (∅ : Set LimiterPtr) ∪ {p | l.nodeWrite = some p} := by
    rintro p hp (h | h)
    · exact h
    · exact (directionalLimiters_apart build users user p).2 h hp
  have hcounter := newConnCounter_layer see hinner
  have hnode := newRateLimitedConn_layer hsee l.nodeRead hcounter hnone
  have hlayer := newRateLimitedConn_layer hsee l.userRead hnode hapart
  rw [← hc] at hlayer
  -- the gauges of the statement are among those of the layer
  have hdown : downGauge ∈ ({downGauge} ∪ limiterGauges limiter l.nodeWrite ∪ limiterGauges limiter l.userWrite :
      Set (Gauge (StreamWorld LimiterPtr σ))) := Or.inl (Or.inl rfl)
  have hasked : ∀ p ∈ enabledWriteLimiters limiter l, askedGauge p ∈ ({downGauge} ∪ limiterGauges limiter l.nodeWrite ∪
      limiterGauges limiter l.userWrite : Set (Gauge (StreamWorld LimiterPtr σ))) := by
    rintro p ⟨hp | hp, hon⟩
    · exact Or.inl (Or.inr ⟨p, hp, hon, rfl⟩)
    · exact Or.inr ⟨p, hp, hon, rfl⟩
  have hd := hlayer.delivers b w
  constructor
  · refine ⟨hd.le, hd.prefix_received, ?_, fun p hp => hd.follows _ (hasked p hp), fun hlt he => ?_⟩
    · have hfollows := hd.follows _ hdown
      simp only [downGauge] at hfollows
      omega
    · have hwhole := hd.whole he
      omega
  · intro hok hopen
    have hcounter' := newConnCounter_reliable (ι := LimiterPtr) hok.write hok.writeBuffer
    have hnode' := newRateLimitedConn_reliable hsee l.nodeRead hcounter hnone hcounter' fun p hp => hopen p (Or.inl hp)
    have hreliable := newRateLimitedConn_reliable hsee l.userRead hnode hapart hnode' fun p hp => hopen p (Or.inr hp)
    rw [← hc] at hreliable
    have hwrite := hd.all (hreliable.ok b w)
    have hbuffer := hreliable.buffer b w
    exact ⟨⟨hwrite.ok, hbuffer.ok⟩, ⟨hwrite.all_received, hbuffer.all_received⟩,
      ⟨hwrite.exact_all _ hdown, hbuffer.exact_all _ hdown⟩,
      fun p hp => ⟨hwrite.exact_all _ (hasked p hp), hbuffer.exact_all _ (hasked p hp)⟩⟩

/-- A connection that takes everything, as the bytes it has received. -/
def sink : ExtendedConn Bytes Unit where
  write b s := ⟨s ++ b, b.length, none⟩
  writeBuffer b s := (s ++ b, none)

/-- A hook with a limit of 8 Mbit/s for the node. -/
def nodeLimited : Option UserManager := some (.new (fun _ => 0) 8)

theorem stream_delivered_hello :
    let limiter : LimiterPtr → RateLimiter := fun _ => newRateLimiter 0 1000000
    let w : StreamWorld LimiterPtr Bytes := ⟨[], .zero, fun _ => 0, fun _ => []⟩
    let l := directionalLimiters false nodeLimited "u"
    let c := routedConnection false nodeLimited "u" (fun p _ _ => (limiter p, 0)) sink
    (⟨0, .tx⟩ : LimiterPtr) ∈ enabledWriteLimiters limiter l ∧
    StreamDelivered id (enabledWriteLimiters limiter l) (bytes "hello") w (c.write (bytes "hello") w) ∧
      SameStream id (enabledWriteLimiters limiter l) (bytes "hello") w (c.write (bytes "hello") w)
        (c.writeBuffer (bytes "hello") w) := by
  intro limiter w l c
  have hsink : HonoursWriter id sink :=
    ⟨fun _ _ => le_rfl, fun b s => by simp [sink], fun b s h => absurd h (lt_irrefl _)⟩
  obtain ⟨h, h'⟩ := stream_delivered false nodeLimited (by decide : "u" ≠ "") hsink limiter
    (fun p _ _ => (limiter p, 0)) (fun _ _ _ => ⟨rfl, rfl, rfl, rfl⟩) (bytes "hello") w
  exact ⟨⟨Or.inl (by decide +kernel), by decide +kernel, by decide +kernel, by decide +kernel⟩, h,
    h' ⟨fun _ _ => rfl, fun _ _ => ⟨rfl, rfl⟩⟩ fun _ _ => by decide +kernel⟩

end Streams

/-! ### Packets -/

section Packets

variable {σ δ ε : Type*}

/-- **Packets.**  In a run of a routed packet connection the counters follow the packets and dropped packets cost nothing,
if and only if every packet that is read finds both limiters able to cover it, and in no write the limiter of the user
takes tokens for a packet that the limiter of the node drops. -/
theorem packets_accounted_iff (build : Bool) (users : Option UserManager) {user : String} (huser : user ≠ "")
    (conn : PacketConn σ δ ε) (w : PacketWorld LimiterPtr σ) (ks : List (PacketCall LimiterPtr δ)) :
    let l := directionalLimiters build users user
    let c := routedPacketConnection build users user conn
    c.Accounted w ks ↔ c.Along (FairCall l.nodeRead l.nodeWrite l.userRead l.userWrite conn) w ks := by
  intro l c
  have hc : c = wrappedPacketConn l.nodeRead l.nodeWrite l.userRead l.userWrite conn := if_neg huser
  rw [hc]
  refine accounted_iff (fun p => (directionalLimiters_apart build users user p).1) (fun p h h' => ?_) w ks
  exact (directionalLimiters_apart build users user p).2 h' h

/-- A connection on which packets of two bytes arrive, and which takes every packet. -/
def pings : PacketConn Unit Unit Unit where
  readPacket _ := ((), ⟨bytes "hi", (), none⟩)
  writePacket _ _ _ := ((), none)

/-- New counters, and the limiters as given. -/
def freshWorld (limiter : LimiterPtr → RateLimiter) : PacketWorld LimiterPtr Unit :=
  ⟨(), .zero, limiter, fun _ => 0, 0, 0⟩

/-- One second after the limiter of the node was made, packets go through. -/
theorem packets_accounted_pings :
    (routedPacketConnection false nodeLimited "u" pings).Accounted (freshWorld fun _ => newRateLimiter 0 1000000)
      [.readPacket fun _ => 1, .writePacket (fun _ => 1) (bytes "hi") ()] := by
  have hcovers : (newRateLimiter 0 1000000).Covers 1 (bytes "hi").length :=
    ⟨by decide +kernel, Or.inr (by decide +kernel)⟩
  refine (packets_accounted_iff false nodeLimited (by decide : "u" ≠ "") pings _ _).2
    ⟨fun _ _ => ⟨fun _ _ => hcovers, fun _ _ => hcovers⟩, ?_, trivial⟩
  rintro - ⟨⟨p, hp, -⟩, -⟩
  have hnone : (directionalLimiters false nodeLimited "u").userWrite = none := by decide +kernel
  rw [hnone] at hp
  cases hp

/-- The hook of `nodeLimited`, with a limited user `u`. -/
def bothLimited : Option UserManager :=
  some { (LimiterTable.new (fun _ => 0) 8).updateLimiterLocked true (fun _ _ => 0) ⟨1, "u", "", "", 8⟩ with
    users := ∅, bySecret := writes ∅ [("u", 1)], byInbound := ∅ }

/-- The limiters of the node are empty, those of the user are full. -/
def emptyNode (p : LimiterPtr) : RateLimiter :=
  if p.pair = 0 then newRateLimiter 0 1000000 else { newRateLimiter 0 1000000 with tokens := 200000 }

/-- A packet that is read and dropped is counted, and a packet that is written and dropped by the node is charged to the
user. -/
theorem dropped_packets_cost :
    (let c := routedPacketConnection false nodeLimited "u" pings;
      let ks := [.readPacket fun _ => 0];
      let r := c.run (freshWorld emptyNode) ks;
      (r.1.dropped = 1 ∧ r.2 = 0 ∧ r.1.storage.upCounter = 2) ∧ ¬ c.Accounted (freshWorld emptyNode) ks) ∧
    (let c := routedPacketConnection true bothLimited "u" pings;
      let ks := [.writePacket (fun _ => 0) (bytes "hi") ()];
      let r := c.run (freshWorld emptyNode) ks;
      (r.1.dropped = 1 ∧ r.1.passed = 0 ∧ (r.1.limiter ⟨1, .tx⟩).tokens = 199998) ∧
        ¬ c.Accounted (freshWorld emptyNode) ks) := by
  refine ⟨⟨by decide +kernel, fun h => ?_⟩, by decide +kernel, fun h => ?_⟩
  · exact absurd h.up (by decide +kernel)
  · obtain ⟨-, huntaken⟩ := h.drops.1 (by decide +kernel)
    rcases huntaken ⟨1, .tx⟩ with hsame | hrefill
    · exact absurd (congrArg RateLimiter.tokens hsame) (by decide +kernel)
    · exact absurd (congrArg RateLimiter.tokens hrefill) (by decide +kernel)

end Packets

end MiniSbAgent.Agent
