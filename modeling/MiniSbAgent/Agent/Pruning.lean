import MiniSbAgent.Panelapi.Sync

/-!
# Connections that outlive their user

A connection keeps the `TrafficStorage` it was given when it was opened.  A user sync prunes the map of storages:
`RemoveAbsent` drops the storage of a user who is gone once all it counted is committed.  Connections, syncs, flushes
and new connections may come in any order.

* `step` — one event, with the bytes that connections added and that commits covered noted on the side;
* `missing` — what was added under a key and is neither covered nor visible to the next snapshot;
* `missing_step` — the only event that makes anything go missing counts bytes on a storage that is no longer in the
  map;
* `no_byte_lost_iff` — so no byte is lost in a run exactly when no such bytes are counted, and `dropped_bytes_lost` shows
  that they can be.
-/

namespace MiniSbAgent.Agent.Pruning

open MiniSbAgent.Go MiniSbAgent.Counter MiniSbAgent.Counter.Hook MiniSbAgent.Panelapi

/-- A connection, with the key it was opened under and the storage it counts on. -/
structure Conn where
  tag : String
  user : String
  storage : ℕ

structure State where
  hook : Hook
  conns : List Conn
  /-- the snapshot that is being pushed -/
  pushing : Option Delta
  /-- the bytes added by the connections of a key -/
  added : String → String → ℤ × ℤ
  /-- the bytes in committed snapshots under a key -/
  covered : String → String → ℤ × ℤ

inductive Event
  /-- `RoutedConnection`: `h.tc(tag).GetCounter(user)` -/
  | opened (tag user : String)
  /-- bytes on the connection opened as number `i` -/
  | count (i : ℕ) (up down : ℕ)
  /-- the callback of a user sync -/
  | removeAbsent (active : GoMap String Unit)
  /-- a flush takes its snapshot -/
  | snapshot
  /-- a flush ends, with the outcome of its push -/
  | commit (p : PanelPush)

def start : State := ⟨Hook.new, [], none, fun _ _ => 0, fun _ _ => 0⟩

/-- Adds `d` under one key. -/
def note (f : String → String → ℤ × ℤ) (tag user : String) (d : ℤ × ℤ) : String → String → ℤ × ℤ :=
  fun t u => f t u + if t = tag ∧ u = user then d else 0

def step (s : State) : Event → State
  | .opened tag user =>
    { s with
      hook := (s.hook.getCounter tag user).1
      conns := s.conns ++ [⟨tcTag tag, user, (s.hook.getCounter tag user).2⟩] }
  | .count i up down =>
    match s.conns[i]? with
    | none => s
    | some c =>
      { s with
        hook := s.hook.update c.storage (·.count (up, down))
        added := note s.added c.tag c.user (up, down) }
  | .removeAbsent active => { s with hook := s.hook.removeAbsent active }
  | .snapshot =>
    match s.pushing with
    | some _ => s
    | none => { s with pushing := toPush s.hook }
  | .commit p =>
    match s.pushing with
    | none => s
    | some delta =>
      match toCommit delta p with
      | none => { s with pushing := none }
      | some commit =>
        { s with
          hook := s.hook.commitSnapshot commit
          pushing := none
          covered := fun t u => s.covered t u + (lookup₂ commit t u).getD 0 }

def run (s : State) (events : List Event) : State := events.foldl step s

/-- What was added under a key and is neither covered by a commit nor visible to the next snapshot. -/
def missing (s : State) (tag user : String) : ℤ × ℤ :=
  s.added tag user - s.covered tag user - (lookup₂ s.hook.snapshotDelta tag user).getD 0

/-- The storage of the connection has been dropped from the map. -/
def Dropped (s : State) (c : Conn) : Prop := s.hook.ptr c.tag c.user ≠ some c.storage

instance (s : State) (c : Conn) : Decidable (Dropped s c) := by unfold Dropped; infer_instance

/-- The bytes of an event that are counted on a dropped storage. -/
def loss (s : State) (tag user : String) : Event → ℤ × ℤ
  | .count i up down =>
    match s.conns[i]? with
    | some c => if (tag = c.tag ∧ user = c.user) ∧ Dropped s c then (up, down) else 0
    | none => 0
  | _ => 0

/-! ### What the events keep -/

structure Inv (s : State) : Prop where
  /-- a connection counts on an allocated storage, which no other key has -/
  conns : ∀ c ∈ s.conns, c.storage < s.hook.heap.length ∧
    ∀ tag user, s.hook.ptr tag user = some c.storage → tag = c.tag ∧ user = c.user
  /-- no counter is overdrawn -/
  pending : ∀ tag user, 0 ≤ (s.hook.storage tag user).pending
  /-- the amounts being pushed are still pending -/
  pushing : ∀ delta ∈ s.pushing, ∀ tag user d, lookup₂ delta tag user = some d →
    (s.hook.ptr tag user).isSome ∧ d ≤ (s.hook.storage tag user).pending ∧ (0 < d.1 ∨ 0 < d.2)

theorem inv_start : Inv start :=
  ⟨fun _ hc => (nomatch hc), fun _ _ => le_rfl, fun _ hd => (nomatch hd)⟩

theorem missing_eq {s : State} (hs : Inv s) (tag user : String) :
    missing s tag user = s.added tag user - s.covered tag user - (s.hook.storage tag user).pending := by
  unfold missing
  rw [getD_snapshotDelta (hs.pending tag user)]

section Opened

variable {s : State} (hs : Inv s) (tag user : String)

include hs

theorem inv_opened : Inv (step s (.opened tag user)) := by
  have hold : ∀ c ∈ s.conns, c.storage < (s.hook.getCounter tag user).1.heap.length ∧
      ∀ t u, (s.hook.getCounter tag user).1.ptr t u = some c.storage → t = c.tag ∧ u = c.user := by
    intro c hc
    obtain ⟨hlt, hkey⟩ := hs.conns c hc
    refine ⟨lt_of_lt_of_le hlt (length_le_getCounter s.hook tag user), fun t u hp => ?_⟩
    rcases ptr_getCounter_fresh s.hook tag user hp with hp | hnew
    · exact hkey t u hp
    · omega
  refine ⟨fun c hc => ?_, fun t u => ?_, fun delta hd t u d hl => ?_⟩
  · rcases List.mem_append.1 hc with hc | hc
    · exact hold c hc
    · obtain rfl := List.mem_singleton.1 hc
      have hself := ptr_getCounter_self s.hook tag user
      exact ⟨getCounter_lt s.hook tag user, fun t u hp => (s.hook.getCounter tag user).1.inj hp hself⟩
  · show 0 ≤ ((s.hook.getCounter tag user).1.storage t u).pending
    rw [storage_getCounter]
    exact hs.pending t u
  · obtain ⟨hp, hle, hpos⟩ := hs.pushing delta hd t u d hl
    obtain ⟨p, hp⟩ := Option.isSome_iff_exists.1 hp
    refine ⟨?_, ?_, hpos⟩
    · show ((s.hook.getCounter tag user).1.ptr t u).isSome
      rw [ptr_getCounter_of_ptr s.hook tag user hp]
      rfl
    · show d ≤ ((s.hook.getCounter tag user).1.storage t u).pending
      rw [storage_getCounter]
      exact hle

end Opened

section Count

variable {s : State} (hs : Inv s) {c : Conn} (hc : c ∈ s.conns) (d : ℤ × ℤ)

include hs hc

/-- Bytes on a connection show under its key, unless its storage was dropped. -/
theorem storage_count (tag user : String) :
    (s.hook.update c.storage (·.count d)).storage tag user =
      if (tag = c.tag ∧ user = c.user) ∧ ¬ Dropped s c then (s.hook.storage tag user).count d
      else s.hook.storage tag user := by
  obtain ⟨hlt, hkey⟩ := hs.conns c hc
  by_cases hdrop : Dropped s c
  · have hne : s.hook.ptr tag user ≠ some c.storage := by
      intro hp
      obtain ⟨rfl, rfl⟩ := hkey tag user hp
      exact hdrop hp
    rw [storage_update_of_ne hlt hne, if_neg fun h => h.2 hdrop]
  · rw [storage_update (not_not.1 hdrop)]
    simp only [hdrop, not_false_eq_true, and_true]

theorem pending_count (tag user : String) :
    ((s.hook.update c.storage (·.count d)).storage tag user).pending =
      (s.hook.storage tag user).pending + if (tag = c.tag ∧ user = c.user) ∧ ¬ Dropped s c then d else 0 := by
  rw [storage_count hs hc]
  split
  · rw [TrafficStorage.pending_eq, TrafficStorage.pending_eq, TrafficStorage.counted_count,
      TrafficStorage.committed_count]
    abel
  · rw [add_zero]

end Count

/-- A commit takes from what is pending what it covers. -/
theorem pending_commit {s : State} (hs : Inv s) {delta commit : Delta} (hpushing : s.pushing = some delta)
    {p : PanelPush} (hcommit : toCommit delta p = some commit) (tag user : String) :
    ((s.hook.commitSnapshot commit).storage tag user).pending =
      (s.hook.storage tag user).pending - (lookup₂ commit tag user).getD 0 := by
  have hsome : ∀ d, lookup₂ commit tag user = some d → (s.hook.ptr tag user).isSome := by
    intro d hd
    rcases lookup₂_toCommit hcommit tag user with h | h
    · rw [h] at hd
      cases hd
    · exact (hs.pushing delta hpushing tag user d (h.symm.trans hd)).1
  rw [TrafficStorage.pending_eq, TrafficStorage.pending_eq, counted_commitSnapshot,
    committed_commitSnapshot_of hsome, sub_sub]

theorem inv_count {s : State} (hs : Inv s) (i up down : ℕ) : Inv (step s (.count i up down)) := by
  simp only [step]
  rcases hi : s.conns[i]? with _ | c
  · exact hs
  have hc : c ∈ s.conns := List.mem_of_getElem? hi
  have hd : (0 : ℤ × ℤ) ≤ ((up : ℤ), (down : ℤ)) := ⟨Int.natCast_nonneg up, Int.natCast_nonneg down⟩
  have hpending := pending_count hs hc ((up : ℤ), (down : ℤ))
  have hgrow : ∀ t u, (s.hook.storage t u).pending ≤
      ((s.hook.update c.storage (·.count ((up : ℤ), (down : ℤ)))).storage t u).pending := by
    intro t u
    rw [hpending]
    refine le_add_of_nonneg_right ?_
    split
    · exact hd
    · exact le_rfl
  refine ⟨fun c' hc' => ?_, fun t u => (hs.pending t u).trans (hgrow t u), fun delta hdelta t u d hl => ?_⟩
  · obtain ⟨hlt, hkey⟩ := hs.conns c' hc'
    refine ⟨?_, hkey⟩
    show c'.storage < (s.hook.heap.modify c.storage _).length
    rwa [List.length_modify]
  · obtain ⟨hp, hle, hpos⟩ := hs.pushing delta hdelta t u d hl
    exact ⟨hp, hle.trans (hgrow t u), hpos⟩

theorem inv_removeAbsent {s : State} (hs : Inv s) (active : GoMap String Unit) :
    Inv (step s (.removeAbsent active)) := by
  have hpending := pending_removeAbsent s.hook active
  refine ⟨fun c hc => ?_, fun t u => ?_, fun delta hdelta t u d hl => ?_⟩
  · obtain ⟨hlt, hkey⟩ := hs.conns c hc
    refine ⟨hlt, fun t u hp => hkey t u ?_⟩
    rcases ptr_removeAbsent_cases s.hook active t u with h | ⟨h, -⟩
    · exact h.symm.trans hp
    · exact absurd (h.symm.trans hp) (by simp)
  · show 0 ≤ ((s.hook.removeAbsent active).storage t u).pending
    rw [hpending]
    exact hs.pending t u
  · obtain ⟨hp, hle, hpos⟩ := hs.pushing delta hdelta t u d hl
    refine ⟨?_, by show d ≤ ((s.hook.removeAbsent active).storage t u).pending; rwa [hpending], hpos⟩
    -- a storage with a positive amount pending is not dropped
    rcases ptr_removeAbsent_cases s.hook active t u with h | ⟨-, hset⟩
    · show ((s.hook.removeAbsent active).ptr t u).isSome
      rwa [h]
    · rw [(TrafficStorage.settled_iff _).1 hset] at hle
      obtain ⟨hle1, hle2⟩ := hle
      rcases hpos with hpos | hpos
      · exact absurd hle1 (not_le.2 hpos)
      · exact absurd hle2 (not_le.2 hpos)

theorem inv_snapshot {s : State} (hs : Inv s) : Inv (step s .snapshot) := by
  simp only [step]
  rcases hpushing : s.pushing with _ | delta
  · refine ⟨hs.conns, hs.pending, fun delta hdelta t u d hl => ?_⟩
    obtain ⟨rfl, -⟩ := toPush_eq_some hdelta
    obtain ⟨p, hp, hd, hpos⟩ := ptr_of_lookup₂_snapshotDelta hl
    refine ⟨by rw [hp]; rfl, ?_, hpos⟩
    rw [storage_of_ptr hp, hd]
  · exact hs

theorem inv_commit {s : State} (hs : Inv s) (p : PanelPush) : Inv (step s (.commit p)) := by
  simp only [step]
  rcases hpushing : s.pushing with _ | delta
  · exact hs
  simp only
  rcases hcommit : toCommit delta p with _ | commit
  · exact ⟨hs.conns, hs.pending, fun _ h => (nomatch h)⟩
  refine ⟨fun c hc => ?_, fun t u => ?_, fun _ h => (nomatch h)⟩
  · obtain ⟨hlt, hkey⟩ := hs.conns c hc
    refine ⟨?_, fun t u hp => hkey t u ?_⟩
    · show c.storage < (s.hook.commitSnapshot commit).heap.length
      rwa [length_commitSnapshot]
    · change (s.hook.commitSnapshot commit).ptr t u = some c.storage at hp
      rwa [ptr_commitSnapshot] at hp
  · show 0 ≤ ((s.hook.commitSnapshot commit).storage t u).pending
    rw [pending_commit hs hpushing hcommit]
    rcases lookup₂_toCommit hcommit t u with h | h
    · rw [h]
      simpa using hs.pending t u
    · rw [h]
      rcases hl : lookup₂ delta t u with _ | d
      · simpa using hs.pending t u
      · exact sub_nonneg.2 (hs.pushing delta hpushing t u d hl).2.1

theorem inv_step {s : State} (hs : Inv s) (e : Event) : Inv (step s e) := by
  cases e with
  | opened tag user => exact inv_opened hs tag user
  | count i up down => exact inv_count hs i up down
  | removeAbsent active => exact inv_removeAbsent hs active
  | snapshot => exact inv_snapshot hs
  | commit p => exact inv_commit hs p

/-! ### Where bytes go missing -/

/-- **Only bytes on a dropped storage go missing.** -/
theorem missing_step {s : State} (hs : Inv s) (e : Event) (tag user : String) :
    missing (step s e) tag user = missing s tag user + loss s tag user e := by
  rw [missing_eq (inv_step hs e), missing_eq hs]
  cases e with
  | opened tag' user' => simp only [step, storage_getCounter, loss, add_zero]
  | count i up down =>
    simp only [step, loss]
    rcases hi : s.conns[i]? with _ | c
    · simp only [add_zero]
    · simp only [pending_count hs (List.mem_of_getElem? hi), note]
      -- the bytes are added under the key; they are pending there unless the storage was dropped
      by_cases hkey : tag = c.tag ∧ user = c.user
      · by_cases hdrop : Dropped s c
        · simp only [hkey, hdrop, and_self, not_true_eq_false, and_false, if_true, if_false, add_zero]
          abel
        · simp only [hkey, hdrop, and_self, not_false_eq_true, and_false, if_true, if_false]
          abel
      · simp only [hkey, false_and, if_false, add_zero]
  | removeAbsent active => simp only [step, pending_removeAbsent, loss, add_zero]
  | snapshot =>
    simp only [step, loss, add_zero]
    split <;> rfl
  | commit p =>
    simp only [step, loss, add_zero]
    rcases hpushing : s.pushing with _ | delta
    · rfl
    simp only
    rcases hcommit : toCommit delta p with _ | commit
    · rfl
    · simp only [pending_commit hs hpushing hcommit]
      abel

theorem loss_nonneg (s : State) (tag user : String) (e : Event) : 0 ≤ loss s tag user e := by
  cases e with
  | count i up down =>
    simp only [loss]
    split
    · split
      · exact ⟨Int.natCast_nonneg up, Int.natCast_nonneg down⟩
      · exact le_rfl
    · exact le_rfl
  | _ => exact le_rfl

/-- The event counts no bytes on a dropped storage. -/
def Event.Safe (s : State) : Event → Prop
  | .count i up down => ∀ c, s.conns[i]? = some c → Dropped s c → up = 0 ∧ down = 0
  | _ => True

theorem safe_iff (s : State) (e : Event) : e.Safe s ↔ ∀ tag user, loss s tag user e = 0 := by
  cases e with
  | count i up down =>
    simp only [Event.Safe, loss]
    constructor
    · intro h tag user
      rcases hi : s.conns[i]? with _ | c
      · rfl
      · simp only
        split
        · rename_i hdrop
          obtain ⟨rfl, rfl⟩ := h c hi hdrop.2
          rfl
        · rfl
    · intro h c hi hdrop
      have hkey := h c.tag c.user
      simp only [hi, hdrop, and_self, if_true, Prod.mk_eq_zero] at hkey
      exact ⟨Int.natCast_eq_zero.1 hkey.1, Int.natCast_eq_zero.1 hkey.2⟩
  | _ => exact ⟨fun _ _ _ => rfl, fun _ => trivial⟩

/-- No event of the run counts bytes on a storage that is dropped at that moment. -/
def Kept : State → List Event → Prop
  | _, [] => True
  | s, e :: events => e.Safe s ∧ Kept (step s e) events

theorem missing_le_run {s : State} (hs : Inv s) (events : List Event) (tag user : String) :
    missing s tag user ≤ missing (run s events) tag user := by
  induction events generalizing s with
  | nil => exact le_rfl
  | cons e events ih =>
    refine le_trans ?_ (ih (inv_step hs e))
    rw [missing_step hs]
    exact le_add_of_nonneg_right (loss_nonneg s tag user e)

/-- The run lemma: what is missing stays the same exactly when every event is safe. -/
theorem missing_run_iff {s : State} (hs : Inv s) (events : List Event) :
    (∀ tag user, missing (run s events) tag user = missing s tag user) ↔ Kept s events := by
  induction events generalizing s with
  | nil => exact ⟨fun _ => trivial, fun _ _ _ => rfl⟩
  | cons e events ih =>
    have hs' := inv_step hs e
    have hrun : run s (e :: events) = run (step s e) events := rfl
    unfold Kept
    rw [safe_iff, ← ih hs', hrun]
    constructor
    · intro h
      -- the first step and the rest can only add to what is missing, so neither does
      have hfirst : ∀ tag user, missing (step s e) tag user = missing s tag user := by
        intro tag user
        refine le_antisymm ?_ ?_
        · rw [← h tag user]
          exact missing_le_run hs' events tag user
        · exact missing_le_run hs [e] tag user
      refine ⟨fun tag user => ?_, fun tag user => (h tag user).trans (hfirst tag user).symm⟩
      have := hfirst tag user
      rwa [missing_step hs, add_eq_left] at this
    · rintro ⟨hloss, hrest⟩ tag user
      rw [hrest tag user, missing_step hs, hloss tag user, add_zero]

/-- **When no counted byte is lost.** After any run of connections, bytes, user syncs and flushes: under every key
the bytes added are those covered by commits and those the next snapshot shows, exactly when no bytes were counted
on a storage that a sync had dropped. -/
theorem no_byte_lost_iff (events : List Event) :
    (∀ tag user, (run start events).added tag user = (run start events).covered tag user +
      (lookup₂ (run start events).hook.snapshotDelta tag user).getD 0) ↔ Kept start events := by
  rw [← missing_run_iff inv_start events]
  refine forall₂_congr fun tag user => ?_
  have hstart : missing start tag user = 0 := rfl
  rw [hstart]
  unfold missing
  rw [sub_sub, sub_eq_zero]

/-- **A removed user's connection counts into nothing.** Five bytes are counted, pushed and committed; the user goes
away and a sync drops the storage; the connection is still open, and its next ten bytes are neither committed nor
ever seen again. -/
theorem dropped_bytes_lost :
    ¬ ∀ (events : List Event) (tag user : String), (run start events).added tag user =
      (run start events).covered tag user + (lookup₂ (run start events).hook.snapshotDelta tag user).getD 0 := by
  intro h
  exact absurd (h [.opened "vless-in" "7", .count 0 5 0, .snapshot, .commit ⟨∅, []⟩, .removeAbsent ∅, .count 0 10 0]
    "vless-in" "7") (by decide +kernel)

end MiniSbAgent.Agent.Pruning
