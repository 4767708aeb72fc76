import MiniSbAgent.Lib.Pool
import MiniSbAgent.Panelapi.Sync

/-!
# Counting and flushing at the same time

The connections, the requests for statistics and the syncer run in goroutines of their own and share the maps and the
counters of the hook, with no lock around them: only a single `Load`, `LoadOrStore` or `Add` is atomic.  Here each of
these is a call, and a goroutine is a program over them.  Two flushes never overlap, so the syncer is one program that
makes one flush after the other; `RemoveAbsent` is not part of it.  A loop over a `sync.Map` may end early and may meet
keys that were stored while it ran, and visits as many as it is given.

* `Memory`, `exec` — the maps and counters, and what one atomic operation does to them;
* `connection`, `flush`, `stats` — the goroutines, operation by operation;
* `Memory.Ok`, `Extends` — no two keys share a storage, and a key keeps the one it has;
* `lookup_of_toldTag`, `lookup_of_toldUser` — a pointer that some goroutine was once told is still the one;
* `storages_memoryAfter` — a counter holds what was added to it;
* `syncer_spec`, `connection_spec`, `stats_spec` — which counters each goroutine touches.
-/

namespace MiniSbAgent.Agent.Interleaving

open MiniSbAgent.Go MiniSbAgent.Lib MiniSbAgent.Counter MiniSbAgent.Panelapi

/-! ### Shared memory -/

inductive Direction
  | up
  | down
deriving Repr, DecidableEq

def Direction.of : Direction → ℤ × ℤ → ℤ
  | .up, x => x.1
  | .down, x => x.2

/-- The counters of a `TrafficStorage`: `UpCounter` and `DownCounter`, `CommittedUp` and `CommittedDown`. -/
inductive Field
  | counter (d : Direction)
  | committed (d : Direction)
deriving Repr, DecidableEq

/-- `Hook.byInbound`, the `TrafficCounter`s and the `TrafficStorage`s behind their pointers, and the next pointer that
is free.  What no pointer has been handed out for is empty, or zero. -/
structure Memory where
  byInbound : GoMap String ℕ
  counters : ℕ → GoMap String ℕ
  storages : ℕ → Field → ℤ
  next : ℕ

def Memory.new : Memory := ⟨∅, fun _ => ∅, fun _ _ => 0, 0⟩

/-- What decides a call from outside: which key a loop meets next, if any, and the answer of the panel. -/
structure Env where
  choice : Option ℕ
  reply : PanelPush

inductive Call
  /-- `byInbound.Load` -/
  | loadTag (tag : String)
  /-- `byInbound.LoadOrStore` of a new counter -/
  | loadOrStoreTag (tag : String)
  /-- `byInbound.Range` goes on to its next key -/
  | nextTag (seen : List String)
  /-- `Counters.Load` -/
  | loadUser (c : ℕ) (user : String)
  /-- `Counters.LoadOrStore` of a new storage -/
  | loadOrStoreUser (c : ℕ) (user : String)
  /-- `Counters.Range` goes on to its next key -/
  | nextUser (c : ℕ) (seen : List String)
  | load (p : ℕ) (f : Field)
  | add (p : ℕ) (f : Field) (n : ℤ)
  /-- `Panel.PushTraffic` -/
  | push (delta : Delta)

def Call.Result : Call → Type
  | .loadTag _ => Option ℕ
  | .loadOrStoreTag _ => ℕ
  | .nextTag _ => Option (String × ℕ)
  | .loadUser _ _ => Option ℕ
  | .loadOrStoreUser _ _ => ℕ
  | .nextUser _ _ => Option (String × ℕ)
  | .load _ _ => ℤ
  | .add _ _ _ => Unit
  | .push _ => PanelPush

/-- The keys that a loop has not met yet. -/
def unseen (m : GoMap String ℕ) (seen : List String) : List (String × ℕ) :=
  (m.entries.filter fun e => decide (e.1 ∉ seen)).map fun e => (e.1, e.2)

def visitNext (e : Env) (m : GoMap String ℕ) (seen : List String) : Option (String × ℕ) :=
  e.choice.bind fun i => (unseen m seen)[i]?

namespace Memory

/-- `LoadOrStore` of a new, empty counter. -/
def storeTag (m : Memory) (tag : String) : Memory × ℕ :=
  match m.byInbound.lookup tag with
  | some c => (m, c)
  | none => ({ m with byInbound := m.byInbound.insert tag m.next, next := m.next + 1 }, m.next)

/-- `LoadOrStore` of a new storage. -/
def storeUser (m : Memory) (c : ℕ) (user : String) : Memory × ℕ :=
  match (m.counters c).lookup user with
  | some p => (m, p)
  | none =>
    ({ m with
        counters := Function.update m.counters c ((m.counters c).insert user m.next)
        next := m.next + 1 }, m.next)

def add (m : Memory) (p : ℕ) (f : Field) (n : ℤ) : Memory :=
  { m with storages := Function.update m.storages p (Function.update (m.storages p) f (m.storages p f + n)) }

end Memory

def exec (e : Env) (m : Memory) : (c : Call) → Memory × c.Result
  | .loadTag tag => (m, m.byInbound.lookup tag)
  | .loadOrStoreTag tag => m.storeTag tag
  | .nextTag seen => (m, visitNext e m.byInbound seen)
  | .loadUser c user => (m, (m.counters c).lookup user)
  | .loadOrStoreUser c user => m.storeUser c user
  | .nextUser c seen => (m, visitNext e (m.counters c) seen)
  | .load p f => (m, m.storages p f)
  | .add p f n => (m.add p f n, ())
  | .push _ => (m, e.reply)

/-! ### The goroutines -/

abbrev Thread := Prog Call Call.Result Unit

/-- `Hook.tc`, with what comes after it. -/
def tc (tag : String) (k : ℕ → Thread) : Thread :=
  .call (.loadTag (Hook.tcTag tag)) fun
    | some c => k c
    | none => .call (.loadOrStoreTag (Hook.tcTag tag)) k

/-- `TrafficCounter.GetCounter`. -/
def getCounter (c : ℕ) (user : String) (k : ℕ → Thread) : Thread :=
  .call (.loadUser c user) fun
    | some p => k p
    | none => .call (.loadOrStoreUser c user) k

/-- The bytes of a connection, in the order in which it counts them. -/
def count (p : ℕ) : List (Direction × ℕ) → Thread
  | [] => .done ()
  | (d, n) :: rest => .call (.add p (.counter d) n) fun _ => count p rest

/-- A connection that is routed for a user of an inbound. -/
def connection (tag user : String) (traffic : List (Direction × ℕ)) : Thread :=
  tc tag fun c => getCounter c user fun p => count p traffic

/-- The loop of `TrafficCounter.SnapshotDelta`. -/
def snapshotUsers (c : ℕ) (k : GoMap String (ℤ × ℤ) → Thread) :
    ℕ → List String → GoMap String (ℤ × ℤ) → Thread
  | 0, _, out => k out
  | visits + 1, seen, out =>
    .call (.nextUser c seen) fun
      | none => k out
      | some (user, p) =>
        .call (.load p (.counter .up)) fun (up : ℤ) =>
          .call (.load p (.committed .up)) fun (committedUp : ℤ) =>
            .call (.load p (.counter .down)) fun (down : ℤ) =>
              .call (.load p (.committed .down)) fun (committedDown : ℤ) =>
                let d := (up - committedUp, down - committedDown)
                snapshotUsers c k visits (user :: seen) (if 0 < d.1 ∨ 0 < d.2 then out.insert user d else out)

/-- The loop of `Hook.SnapshotDelta`. -/
def snapshotTags (users : ℕ) (k : Delta → Thread) : ℕ → List String → Delta → Thread
  | 0, _, out => k out
  | visits + 1, seen, out =>
    .call (.nextTag seen) fun
      | none => k out
      | some (tag, c) =>
        snapshotUsers c (fun delta =>
          snapshotTags users k visits (tag :: seen) (if isEmpty delta then out else out.insert tag delta)) users [] ∅

/-- The loop of `TrafficCounter.CommitSnapshot`. -/
def commitUsers (c : ℕ) (k : Thread) : List ((_ : String) × ℤ × ℤ) → Thread
  | [] => k
  | e :: rest =>
    .call (.loadUser c e.1) fun
      | none => commitUsers c k rest
      | some p =>
        .call (.add p (.committed .up) e.2.1) fun _ =>
          .call (.add p (.committed .down) e.2.2) fun _ => commitUsers c k rest

/-- The loop of `Hook.CommitSnapshot`, with the order in which it takes the users of each tag. -/
def commitTags (users : String → RangeOrder ((_ : String) × ℤ × ℤ)) (k : Thread) :
    List ((_ : String) × GoMap String (ℤ × ℤ)) → Thread
  | [] => k
  | e :: rest =>
    .call (.loadTag e.1) fun
      | none => commitTags users k rest
      | some c => commitUsers c (commitTags users k rest) ((users e.1).visit e.2.entries)

/-- How many keys the loops of a snapshot visit: tags, and users of each of them. -/
structure Visits where
  tags : ℕ
  users : ℕ
deriving Repr, DecidableEq

/-- How the loops of one flush go: the visits of its snapshot, and the orders of its commit. -/
structure Round where
  visits : Visits
  tags : RangeOrder ((_ : String) × GoMap String (ℤ × ℤ))
  users : String → RangeOrder ((_ : String) × ℤ × ℤ)

/-- `Syncer.flush`. -/
def flush (r : Round) (k : Thread) : Thread :=
  snapshotTags r.visits.users (fun delta =>
    if isEmpty delta ∨ hasTraffic delta = false then k
    else
      .call (.push delta) fun reply =>
        match toCommit delta reply with
        | none => k
        | some commit => commitTags r.users k (r.tags.visit commit.entries)) r.visits.tags [] ∅

/-- The syncer, one flush after the other. -/
def syncer : List Round → Thread
  | [] => .done ()
  | r :: rest => flush r (syncer rest)

/-- A request for the statistics of what is still to be pushed. -/
def stats (v : Visits) : Thread := snapshotTags v.users (fun _ => .done ()) v.tags [] ∅

inductive Worker
  | connection (tag user : String) (traffic : List (Direction × ℕ))
  | stats (v : Visits)
deriving Repr, DecidableEq

def Worker.thread : Worker → Thread
  | .connection tag user traffic => Interleaving.connection tag user traffic
  | .stats v => Interleaving.stats v

/-! ### Runs -/

/-- A goroutine starts, or one makes its next operation. -/
inductive Event
  | start (w : Worker)
  | step (i : ℕ) (e : Env)

def Event.turn : Event → Turn Env Call Call.Result Unit
  | .start w => .arrive w.thread
  | .step i e => .step i e

def workers (events : List Event) : List Worker :=
  events.filterMap fun
    | .start w => some w
    | .step _ _ => none

abbrev LogEntry := Entry Env Call Call.Result

/-- The agent from its start; the syncer is goroutine `0`. -/
def interleave (rounds : List Round) (events : List Event) : Pool Memory Env Call Call.Result Unit :=
  Lib.run exec Memory.new (.arrive (syncer rounds) :: events.map Event.turn)

/-- The memory after the operations of a log. -/
def memoryAfter (log : List LogEntry) : Memory := replay exec Memory.new log

theorem arrivals_interleave (rounds : List Round) (events : List Event) :
    arrivals (.arrive (syncer rounds) :: events.map Event.turn) =
      syncer rounds :: (workers events).map Worker.thread := by
  have hrest : arrivals (events.map Event.turn) = (workers events).map Worker.thread := by
    induction events with
    | nil => rfl
    | cons e events ih =>
      cases e with
      | start w =>
        show w.thread :: arrivals (events.map Event.turn) = _
        rw [ih]
        rfl
      | step i e => exact ih
  show syncer rounds :: arrivals (events.map Event.turn) = _
  rw [hrest]

/-! ### Keys and their storages -/

namespace Memory

/-- The storage of a user of an inbound. -/
def ptr (m : Memory) (tag user : String) : Option ℕ :=
  (m.byInbound.lookup tag).bind fun c => (m.counters c).lookup user

/-- A counter of a user of an inbound, zero when there is no storage. -/
def value (m : Memory) (tag user : String) (f : Field) : ℤ := ((m.ptr tag user).map fun p => m.storages p f).getD 0

theorem ptr_eq_some {m : Memory} {tag user : String} {p : ℕ} :
    m.ptr tag user = some p ↔ ∃ c, m.byInbound.lookup tag = some c ∧ (m.counters c).lookup user = some p :=
  Option.bind_eq_some_iff

/-- Pointers are handed out once. -/
structure Ok (m : Memory) : Prop where
  tag_lt : ∀ {tag c}, m.byInbound.lookup tag = some c → c < m.next
  user_lt : ∀ {c user p}, (m.counters c).lookup user = some p → p < m.next
  tag_inj : ∀ {tag tag' c}, m.byInbound.lookup tag = some c → m.byInbound.lookup tag' = some c → tag = tag'
  user_inj : ∀ {c c' user user' p}, (m.counters c).lookup user = some p → (m.counters c').lookup user' = some p →
    c = c' ∧ user = user'

theorem ok_new : Memory.new.Ok := by
  constructor <;> simp [Memory.new]

/-- No two keys share a storage. -/
theorem Ok.ptr_inj {m : Memory} (h : m.Ok) {tag user tag' user' : String} {p : ℕ} (h1 : m.ptr tag user = some p)
    (h2 : m.ptr tag' user' = some p) : tag = tag' ∧ user = user' := by
  obtain ⟨c, hc, hp⟩ := ptr_eq_some.1 h1
  obtain ⟨c', hc', hp'⟩ := ptr_eq_some.1 h2
  obtain ⟨rfl, rfl⟩ := h.user_inj hp hp'
  exact ⟨h.tag_inj hc hc', rfl⟩

theorem storeTag_cases (m : Memory) (tag : String) :
    (∃ c, m.byInbound.lookup tag = some c ∧ m.storeTag tag = (m, c)) ∨
      m.byInbound.lookup tag = none ∧
        m.storeTag tag = ({ m with byInbound := m.byInbound.insert tag m.next, next := m.next + 1 }, m.next) := by
  unfold storeTag
  rcases m.byInbound.lookup tag with _ | c
  · exact .inr ⟨rfl, rfl⟩
  · exact .inl ⟨c, rfl, rfl⟩

theorem storeUser_cases (m : Memory) (c : ℕ) (user : String) :
    (∃ p, (m.counters c).lookup user = some p ∧ m.storeUser c user = (m, p)) ∨
      (m.counters c).lookup user = none ∧
        m.storeUser c user =
          ({ m with
              counters := Function.update m.counters c ((m.counters c).insert user m.next)
              next := m.next + 1 }, m.next) := by
  unfold storeUser
  rcases (m.counters c).lookup user with _ | p
  · exact .inr ⟨rfl, rfl⟩
  · exact .inl ⟨p, rfl, rfl⟩

theorem lookup_update_counters (m : Memory) (c : ℕ) (user : String) (q c' : ℕ) (user' : String) :
    (Function.update m.counters c ((m.counters c).insert user q) c').lookup user' =
      if c' = c ∧ user' = user then some q else (m.counters c').lookup user' := by
  by_cases hc : c' = c
  · subst hc
    rw [Function.update_self, lookup_insert_of]
    simp
  · rw [Function.update_of_ne hc, if_neg fun h => hc h.1]

theorem Ok.storeTag {m : Memory} (h : m.Ok) (tag : String) : (m.storeTag tag).1.Ok := by
  rcases m.storeTag_cases tag with ⟨c, -, heq⟩ | ⟨hnone, heq⟩
  · rw [heq]
    exact h
  · rw [heq]
    refine ⟨?_, fun hp => Nat.lt_succ_of_lt (h.user_lt hp), ?_, h.user_inj⟩
    · intro tag' c hc
      simp only [lookup_insert_of] at hc
      split_ifs at hc
      · cases hc
        exact Nat.lt_succ_self _
      · exact Nat.lt_succ_of_lt (h.tag_lt hc)
    · intro tag₁ tag₂ c h1 h2
      simp only [lookup_insert_of] at h1 h2
      split_ifs at h1 h2 with e1 e2 e2
      · exact e1.trans e2.symm
      · cases h1
        exact absurd (h.tag_lt h2) (lt_irrefl _)
      · cases h2
        exact absurd (h.tag_lt h1) (lt_irrefl _)
      · exact h.tag_inj h1 h2

theorem Ok.storeUser {m : Memory} (h : m.Ok) (c : ℕ) (user : String) : (m.storeUser c user).1.Ok := by
  rcases m.storeUser_cases c user with ⟨p, -, heq⟩ | ⟨hnone, heq⟩
  · rw [heq]
    exact h
  · rw [heq]
    refine ⟨fun hc => Nat.lt_succ_of_lt (h.tag_lt hc), ?_, h.tag_inj, ?_⟩
    · intro c' user' p hp
      simp only [lookup_update_counters] at hp
      split_ifs at hp
      · cases hp
        exact Nat.lt_succ_self _
      · exact Nat.lt_succ_of_lt (h.user_lt hp)
    · intro c₁ c₂ user₁ user₂ p h1 h2
      simp only [lookup_update_counters] at h1 h2
      split_ifs at h1 h2 with e1 e2 e2
      · exact ⟨e1.1.trans e2.1.symm, e1.2.trans e2.2.symm⟩
      · cases h1
        exact absurd (h.user_lt h2) (lt_irrefl _)
      · cases h2
        exact absurd (h.user_lt h1) (lt_irrefl _)
      · exact h.user_inj h1 h2

/-- `m'` has all keys of `m`, with their pointers. -/
structure Extends (m m' : Memory) : Prop where
  tag : ∀ {tag c}, m.byInbound.lookup tag = some c → m'.byInbound.lookup tag = some c
  user : ∀ {c user p}, (m.counters c).lookup user = some p → (m'.counters c).lookup user = some p

theorem Extends.refl (m : Memory) : m.Extends m := ⟨id, id⟩

theorem Extends.trans {m m' m'' : Memory} (h : m.Extends m') (h' : m'.Extends m'') : m.Extends m'' :=
  ⟨fun hc => h'.tag (h.tag hc), fun hp => h'.user (h.user hp)⟩

theorem Extends.ptr {m m' : Memory} (h : m.Extends m') {tag user : String} {p : ℕ} (hp : m.ptr tag user = some p) :
    m'.ptr tag user = some p := by
  obtain ⟨c, hc, hp⟩ := ptr_eq_some.1 hp
  exact ptr_eq_some.2 ⟨c, h.tag hc, h.user hp⟩

end Memory

open Memory

section Exec

variable (e : Env) (m : Memory) (c : Call)

theorem ok_exec (h : m.Ok) : (exec e m c).1.Ok := by
  cases c with
  | loadOrStoreTag tag => exact h.storeTag tag
  | loadOrStoreUser c user => exact h.storeUser c user
  | add p f n => exact ⟨h.tag_lt, h.user_lt, h.tag_inj, h.user_inj⟩
  | _ => exact h

theorem extends_exec : m.Extends (exec e m c).1 := by
  cases c with
  | loadOrStoreTag tag =>
    show m.Extends (m.storeTag tag).1
    rcases m.storeTag_cases tag with ⟨c, -, heq⟩ | ⟨hnone, heq⟩
    · rw [heq]
      exact .refl m
    · rw [heq]
      refine ⟨fun {tag' c} hc => ?_, id⟩
      rw [lookup_insert_of, if_neg]
      · exact hc
      · rintro rfl
        rw [hnone] at hc
        cases hc
  | loadOrStoreUser c user =>
    show m.Extends (m.storeUser c user).1
    rcases m.storeUser_cases c user with ⟨p, -, heq⟩ | ⟨hnone, heq⟩
    · rw [heq]
      exact .refl m
    · rw [heq]
      refine ⟨id, fun {c' user' p} hp => ?_⟩
      rw [lookup_update_counters, if_neg]
      · exact hp
      · rintro ⟨rfl, rfl⟩
        rw [hnone] at hp
        cases hp
  | add p f n => exact ⟨id, id⟩
  | _ => exact .refl m

end Exec

theorem ok_memoryAfter (log : List LogEntry) : (memoryAfter log).Ok :=
  replay_invariant exec ok_new (fun e m c h => ok_exec e m c h) log

theorem extends_memoryAfter (log log' : List LogEntry) : (memoryAfter log).Extends (memoryAfter (log ++ log')) := by
  induction log' using List.reverseRecOn with
  | nil =>
    rw [List.append_nil]
    exact .refl _
  | append_singleton log' x ih =>
    rw [← List.append_assoc]
    unfold memoryAfter at ih ⊢
    rw [replay_concat]
    exact ih.trans (extends_exec _ _ _)

/-! ### What a log tells -/

/-- The call has told the counter of a tag. -/
def TellsTag (tag : String) (ct : ℕ) : (c : Call) → c.Result → Prop
  | .loadTag t, r => t = tag ∧ r = some ct
  | .loadOrStoreTag t, r => t = tag ∧ r = ct
  | .nextTag _, r => r = some (tag, ct)
  | _, _ => False

/-- The call has told the storage of a user. -/
def TellsUser (ct : ℕ) (user : String) (p : ℕ) : (c : Call) → c.Result → Prop
  | .loadUser ct' u, r => (ct' = ct ∧ u = user) ∧ r = some p
  | .loadOrStoreUser ct' u, r => (ct' = ct ∧ u = user) ∧ r = p
  | .nextUser ct' _, r => ct' = ct ∧ r = some (user, p)
  | _, _ => False

theorem lookup_of_visitNext {e : Env} {m : GoMap String ℕ} {seen : List String} {k : String} {v : ℕ}
    (h : visitNext e m seen = some (k, v)) : m.lookup k = some v := by
  obtain ⟨i, -, hi⟩ := Option.bind_eq_some_iff.1 h
  obtain ⟨⟨k', v'⟩, hmem, heq⟩ := List.mem_map.1 (List.mem_of_getElem? hi)
  cases heq
  exact (mem_entries_iff m).1 (List.mem_of_mem_filter hmem)

theorem lookup_of_tellsTag {e : Env} {m : Memory} {c : Call} {tag : String} {ct : ℕ}
    (h : TellsTag tag ct c (exec e m c).2) : (exec e m c).1.byInbound.lookup tag = some ct := by
  cases c with
  | loadTag t =>
    obtain ⟨rfl, hr⟩ := h
    exact hr
  | loadOrStoreTag t =>
    obtain ⟨rfl, hr⟩ := h
    show (m.storeTag t).1.byInbound.lookup t = some ct
    have hr : (m.storeTag t).2 = ct := hr
    rcases m.storeTag_cases t with ⟨c, hc, heq⟩ | ⟨-, heq⟩
    · rw [heq] at hr ⊢
      rw [hc, show c = ct from hr]
    · rw [heq] at hr ⊢
      rw [lookup_insert_of, if_pos rfl, show m.next = ct from hr]
  | nextTag seen => exact lookup_of_visitNext h
  | _ => exact h.elim

theorem lookup_of_tellsUser {e : Env} {m : Memory} {c : Call} {ct : ℕ} {user : String} {p : ℕ}
    (h : TellsUser ct user p c (exec e m c).2) : ((exec e m c).1.counters ct).lookup user = some p := by
  cases c with
  | loadUser ct' u =>
    obtain ⟨⟨rfl, rfl⟩, hr⟩ := h
    exact hr
  | loadOrStoreUser ct' u =>
    obtain ⟨⟨rfl, rfl⟩, hr⟩ := h
    show ((m.storeUser ct' u).1.counters ct').lookup u = some p
    have hr : (m.storeUser ct' u).2 = p := hr
    rcases m.storeUser_cases ct' u with ⟨q, hq, heq⟩ | ⟨-, heq⟩
    · rw [heq] at hr ⊢
      rw [hq, show q = p from hr]
    · rw [heq] at hr ⊢
      rw [lookup_update_counters, if_pos ⟨rfl, rfl⟩, show m.next = p from hr]
  | nextUser ct' seen =>
    obtain ⟨rfl, hr⟩ := h
    exact lookup_of_visitNext hr
  | _ => exact h.elim

def ToldTag (past : List LogEntry) (tag : String) (ct : ℕ) : Prop := ∃ x ∈ past, TellsTag tag ct x.call x.result

def ToldUser (past : List LogEntry) (ct : ℕ) (user : String) (p : ℕ) : Prop :=
  ∃ x ∈ past, TellsUser ct user p x.call x.result

section Told

variable {past past' : List LogEntry} {tag user : String} {ct p : ℕ}

theorem ToldTag.mono (h : ToldTag past tag ct) (hsub : past ⊆ past') : ToldTag past' tag ct := by
  obtain ⟨x, hx, htells⟩ := h
  exact ⟨x, hsub hx, htells⟩

theorem ToldUser.mono (h : ToldUser past ct user p) (hsub : past ⊆ past') : ToldUser past' ct user p := by
  obtain ⟨x, hx, htells⟩ := h
  exact ⟨x, hsub hx, htells⟩

end Told

section Logged

variable {log : List LogEntry} (hlog : Logged exec Memory.new log)

include hlog

/-- A call of the log, and the memory before and after it. -/
theorem exec_of_mem {x : LogEntry} (hx : x ∈ log) :
    ∃ before after, log = before ++ x :: after ∧ x.result = (exec x.env (memoryAfter before) x.call).2 ∧
      ((exec x.env (memoryAfter before) x.call).1).Extends (memoryAfter log) := by
  obtain ⟨before, after, rfl⟩ := List.append_of_mem hx
  refine ⟨before, after, rfl, hlog before x after rfl, ?_⟩
  have hnext : memoryAfter (before ++ [x]) = (exec x.env (memoryAfter before) x.call).1 := replay_concat _ _ _ _
  have hsplit : before ++ x :: after = before ++ [x] ++ after := by simp
  rw [← hnext, hsplit]
  exact extends_memoryAfter _ _

/-- What a log has told is so. -/
theorem lookup_of_toldTag {tag : String} {ct : ℕ} (h : ToldTag log tag ct) :
    (memoryAfter log).byInbound.lookup tag = some ct := by
  obtain ⟨x, hx, htells⟩ := h
  obtain ⟨before, -, -, hres, hext⟩ := exec_of_mem hlog hx
  rw [hres] at htells
  exact hext.tag (lookup_of_tellsTag htells)

theorem lookup_of_toldUser {ct : ℕ} {user : String} {p : ℕ} (h : ToldUser log ct user p) :
    ((memoryAfter log).counters ct).lookup user = some p := by
  obtain ⟨x, hx, htells⟩ := h
  obtain ⟨before, -, -, hres, hext⟩ := exec_of_mem hlog hx
  rw [hres] at htells
  exact hext.user (lookup_of_tellsUser htells)

end Logged

/-! ### Sums -/

/-- What a call adds to a counter. -/
def added (p : ℕ) (f : Field) (x : LogEntry) : ℤ :=
  match x.call with
  | .add p' f' n => if p' = p ∧ f' = f then n else 0
  | _ => 0

def total (p : ℕ) (f : Field) (log : List LogEntry) : ℤ := (log.map (added p f)).sum

theorem total_append (p : ℕ) (f : Field) (log log' : List LogEntry) :
    total p f (log ++ log') = total p f log + total p f log' := by simp [total]

theorem total_singleton (p : ℕ) (f : Field) (x : LogEntry) : total p f [x] = added p f x := by simp [total]

theorem storages_exec (e : Env) (m : Memory) (i : ℕ) (c : Call) (r : c.Result) (p : ℕ) (f : Field) :
    (exec e m c).1.storages p f = m.storages p f + added p f ⟨i, e, c, r⟩ := by
  cases c with
  | loadOrStoreTag tag =>
    show (m.storeTag tag).1.storages p f = m.storages p f + 0
    rcases m.storeTag_cases tag with ⟨c, -, heq⟩ | ⟨-, heq⟩ <;> rw [heq, add_zero]
  | loadOrStoreUser c user =>
    show (m.storeUser c user).1.storages p f = m.storages p f + 0
    rcases m.storeUser_cases c user with ⟨q, -, heq⟩ | ⟨-, heq⟩ <;> rw [heq, add_zero]
  | add p' f' n =>
    show Function.update m.storages p' _ p f = m.storages p f + if p' = p ∧ f' = f then n else 0
    by_cases hp : p = p'
    · subst hp
      by_cases hf : f = f'
      · subst hf
        simp
      · simp [hf, Ne.symm hf]
    · simp [hp, Ne.symm hp]
  | _ => exact (add_zero _).symm

/-- A counter holds what was added to it. -/
theorem storages_memoryAfter (log : List LogEntry) (p : ℕ) (f : Field) :
    (memoryAfter log).storages p f = total p f log := by
  induction log using List.reverseRecOn with
  | nil => rfl
  | append_singleton log x ih =>
    have hnext : memoryAfter (log ++ [x]) = (exec x.env (memoryAfter log) x.call).1 := replay_concat _ _ _ _
    rw [hnext, storages_exec _ _ x.thread _ x.result, ih, total_append, total_singleton]

/-! ### What each goroutine does -/

/-- The syncer adds to what is committed only. -/
def SyncerCall : Call → Prop
  | .add _ (.counter _) _ => False
  | _ => True

/-- A request for statistics adds nothing. -/
def ReaderCall : Call → Prop
  | .add _ _ _ => False
  | .push _ => False
  | _ => True

/-- A connection counts on the storage that it was told for its key. -/
def ConnectionCall (tag user : String) (past : List LogEntry) : Call → Prop
  | .add p f n => (∃ d, f = .counter d) ∧ 0 ≤ n ∧ ∃ c, ToldTag past (Hook.tcTag tag) c ∧ ToldUser past c user p
  | .push _ => False
  | _ => True

section Specs

variable {J : List LogEntry → Call → Prop} {Q : List LogEntry → Unit → Prop}

theorem snapshotUsers_spec (hJ : ∀ past c, ReaderCall c → J past c) {c : ℕ} {k : GoMap String (ℤ × ℤ) → Thread}
    (hk : ∀ past out, (k out).Spec J Q past) (visits : ℕ) (seen : List String) (out : GoMap String (ℤ × ℤ))
    (past : List LogEntry) : (snapshotUsers c k visits seen out).Spec J Q past := by
  induction visits generalizing seen out past with
  | zero => exact hk past out
  | succ visits ih =>
    refine ⟨hJ _ _ trivial, fun i e r => ?_⟩
    cases r with
    | none => exact hk _ out
    | some up =>
      refine ⟨hJ _ _ trivial, fun _ _ _ => ⟨hJ _ _ trivial, fun _ _ _ => ⟨hJ _ _ trivial, fun _ _ _ =>
        ⟨hJ _ _ trivial, fun _ _ _ => ?_⟩⟩⟩⟩
      exact ih _ _ _

theorem snapshotTags_spec (hJ : ∀ past c, ReaderCall c → J past c) {users : ℕ} {k : Delta → Thread}
    (hk : ∀ past out, (k out).Spec J Q past) (visits : ℕ) (seen : List String) (out : Delta)
    (past : List LogEntry) : (snapshotTags users k visits seen out).Spec J Q past := by
  induction visits generalizing seen out past with
  | zero => exact hk past out
  | succ visits ih =>
    refine ⟨hJ _ _ trivial, fun i e r => ?_⟩
    cases r with
    | none => exact hk _ out
    | some tag => exact snapshotUsers_spec hJ (fun past out' => ih _ _ past) _ _ _ _

theorem commitUsers_spec {c : ℕ} {k : Thread} (hk : ∀ past, k.Spec (fun _ => SyncerCall) Q past)
    (users : List ((_ : String) × ℤ × ℤ)) (past : List LogEntry) :
    (commitUsers c k users).Spec (fun _ => SyncerCall) Q past := by
  induction users generalizing past with
  | nil => exact hk past
  | cons e users ih =>
    refine ⟨trivial, fun _ _ r => ?_⟩
    cases r with
    | none => exact ih _
    | some p => exact ⟨trivial, fun _ _ _ => ⟨trivial, fun _ _ _ => ih _⟩⟩

theorem commitTags_spec {users : String → RangeOrder ((_ : String) × ℤ × ℤ)} {k : Thread}
    (hk : ∀ past, k.Spec (fun _ => SyncerCall) Q past) (tags : List ((_ : String) × GoMap String (ℤ × ℤ)))
    (past : List LogEntry) : (commitTags users k tags).Spec (fun _ => SyncerCall) Q past := by
  induction tags generalizing past with
  | nil => exact hk past
  | cons e tags ih =>
    refine ⟨trivial, fun _ _ r => ?_⟩
    cases r with
    | none => exact ih _
    | some c => exact commitUsers_spec ih _ _

end Specs

theorem syncer_spec (rounds : List Round) (past : List LogEntry) :
    (syncer rounds).Spec (fun _ => SyncerCall) (fun _ _ => True) past := by
  have hreads : ∀ (past : List LogEntry) c, ReaderCall c → SyncerCall c := by
    intro _ c hc
    cases c with
    | add p f n => exact hc.elim
    | _ => trivial
  induction rounds generalizing past with
  | nil => trivial
  | cons r rounds ih =>
    refine snapshotTags_spec hreads (fun past delta => ?_) _ _ _ _
    split_ifs
    · exact ih past
    · refine ⟨trivial, fun _ _ reply => ?_⟩
      simp only
      split
      · exact ih _
      · exact commitTags_spec ih _ _

theorem stats_spec (v : Visits) :
    (stats v).Spec (fun _ => ReaderCall) (fun _ _ => True) ([] : List LogEntry) := by
  refine snapshotTags_spec (fun _ _ h => h) ?_ _ _ _ _
  intro past out
  trivial

section Connection

variable {tag user : String} {past : List LogEntry} {c : ℕ}

theorem count_spec {p : ℕ} (traffic : List (Direction × ℕ)) (hc : ToldTag past (Hook.tcTag tag) c)
    (hp : ToldUser past c user p) : (count p traffic).Spec (ConnectionCall tag user) (fun _ _ => True) past := by
  induction traffic generalizing past with
  | nil => trivial
  | cons t traffic ih =>
    obtain ⟨d, n⟩ := t
    refine ⟨⟨⟨d, rfl⟩, Int.natCast_nonneg n, c, hc, hp⟩, fun i e r => ?_⟩
    exact ih (hc.mono (List.subset_append_left _ _)) (hp.mono (List.subset_append_left _ _))

theorem getCounter_spec (traffic : List (Direction × ℕ)) (hc : ToldTag past (Hook.tcTag tag) c) :
    (getCounter c user fun p => count p traffic).Spec (ConnectionCall tag user) (fun _ _ => True) past := by
  have hlast : ∀ (past : List LogEntry) (x : LogEntry), x ∈ past ++ [x] := by simp
  refine ⟨trivial, fun i e r => ?_⟩
  cases r with
  | some p => exact count_spec traffic (hc.mono (List.subset_append_left _ _)) ⟨_, hlast _ _, ⟨rfl, rfl⟩, rfl⟩
  | none =>
    refine ⟨trivial, fun i e p => count_spec traffic ?_ ⟨_, hlast _ _, ⟨rfl, rfl⟩, rfl⟩⟩
    exact (hc.mono (List.subset_append_left _ _)).mono (List.subset_append_left _ _)

theorem connection_spec (tag user : String) (traffic : List (Direction × ℕ)) :
    (connection tag user traffic).Spec (ConnectionCall tag user) (fun _ _ => True) [] := by
  have hlast : ∀ (past : List LogEntry) (x : LogEntry), x ∈ past ++ [x] := by simp
  refine ⟨trivial, fun i e r => ?_⟩
  cases r with
  | some c => exact getCounter_spec traffic ⟨_, hlast _ _, rfl, rfl⟩
  | none => exact ⟨trivial, fun i e c => getCounter_spec traffic ⟨_, hlast _ _, rfl, rfl⟩⟩

end Connection

end MiniSbAgent.Agent.Interleaving
