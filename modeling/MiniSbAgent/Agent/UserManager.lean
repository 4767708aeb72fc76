import MiniSbAgent.Agent.UserDelta
import MiniSbAgent.Counter.RateLimit
import MiniSbAgent.Fork.Inbounds

/-!
# The user manager

`UserManager` keeps, for every inbound, the snapshot of users it applied last, the union of all snapshots, the alias
map from credentials to ids and one pair of limiters per user.  `applyBoxByInbound` first edits each live inbound by
the difference to its snapshot and then commits the new snapshots in one step.

A limiter pair is an allocation: connections hold pointers into it, so the manager has a heap of pairs and the maps
hold addresses.  `LimiterTable` carries what the allocations promise: no two users share a pair, and none has the
node's.  The orders in which the maps are walked are the fields of `Orders`, and `clock` is the time each limiter
reads.  The inbounds of a box are separate objects, so the order in which they are walked is not observable.

* `mem_limiters_refresh` — after a commit of the user-limit build exactly the committed users have a pair;
* `lookup_secretsFrom`, `lookup_secretsFrom_of_unique` — the alias map;
* `snapshot_commit`, `lookup_unionOf` — what a commit stores.
-/

namespace MiniSbAgent.Agent

open MiniSbAgent.Go MiniSbAgent.Counter MiniSbAgent.Panelapi MiniSbAgent.Fork

/-! ### Limiter pairs -/

inductive Direction where
  | rx
  | tx
deriving Repr, DecidableEq

structure LimiterPair where
  rx : RateLimiter
  tx : RateLimiter
deriving DecidableEq

/-- A `*counter.RateLimiter`: one of the two limiters of an allocated pair. -/
structure LimiterPtr where
  pair : ℕ
  dir : Direction
deriving Repr, DecidableEq

/-- The time at which the limiter of an address and direction reads the clock. -/
abbrev Clock := ℕ → Direction → ℚ

def newLimiterPair (now : Direction → ℚ) (bytesPerSecond : ℤ) : LimiterPair :=
  ⟨.newRateLimiter (now .rx) bytesPerSecond, .newRateLimiter (now .tx) bytesPerSecond⟩

def LimiterPair.setRate (p : LimiterPair) (now : Direction → ℚ) (bytesPerSecond : ℤ) : LimiterPair :=
  ⟨p.rx.setRate (now .rx) bytesPerSecond, p.tx.setRate (now .tx) bytesPerSecond⟩

def LimiterPair.close (p : LimiterPair) : LimiterPair := ⟨p.rx.close, p.tx.close⟩

/-- `int64(mbps) * 1000 * 1000 / 8` -/
def mbpsToBytes (mbps : ℤ) : ℤ :=
  if mbps ≤ 0 then 0 else (wrap64 (wrap64 (mbps * 1000) * 1000)).tdiv 8

/-- The allocated pairs, the pair of the node and those of the users. -/
structure LimiterTable where
  heap : List LimiterPair
  nodeLimit : Option ℕ
  limiters : GoMap ℤ ℕ
  node_lt : ∀ a, nodeLimit = some a → a < heap.length
  lt : ∀ id a, limiters.lookup id = some a → a < heap.length
  not_node : ∀ id a, limiters.lookup id = some a → nodeLimit ≠ some a
  inj : ∀ id id' a, limiters.lookup id = some a → limiters.lookup id' = some a → id = id'

namespace LimiterTable

/-- The limiters of `NewUserManager`. -/
def new (now : Direction → ℚ) (nodeMbps : ℤ) : LimiterTable :=
  if 0 < nodeMbps then
    { heap := [newLimiterPair now (mbpsToBytes nodeMbps)], nodeLimit := some 0, limiters := ∅
      node_lt := fun a h => by cases h; exact Nat.one_pos
      lt := fun _ _ h => (nomatch h), not_node := fun _ _ h => (nomatch h), inj := fun _ _ _ h => (nomatch h) }
  else
    { heap := [], nodeLimit := none, limiters := ∅
      node_lt := fun _ h => (nomatch h)
      lt := fun _ _ h => (nomatch h), not_node := fun _ _ h => (nomatch h), inj := fun _ _ _ h => (nomatch h) }

/-- The table with another value in one allocated pair. -/
def modify (t : LimiterTable) (a : ℕ) (f : LimiterPair → LimiterPair) : LimiterTable :=
  { t with
    heap := t.heap.modify a f
    node_lt := fun b h => by rw [List.length_modify]; exact t.node_lt b h
    lt := fun id b h => by rw [List.length_modify]; exact t.lt id b h }

/-- `delete(m.limiters, id)` -/
def drop (t : LimiterTable) (id : ℤ) : LimiterTable :=
  have keep : ∀ i a, (t.limiters.erase id).lookup i = some a → t.limiters.lookup i = some a := by
    intro i a h
    rw [lookup_erase_of] at h
    split at h
    · cases h
    · exact h
  { t with
    limiters := t.limiters.erase id
    lt := fun i a h => t.lt i a (keep i a h)
    not_node := fun i a h => t.not_node i a (keep i a h)
    inj := fun i j a h h' => t.inj i j a (keep i a h) (keep j a h') }

/-- `m.limiters[id] = &p` with a new pair. -/
def alloc (t : LimiterTable) (id : ℤ) (p : LimiterPair) : LimiterTable :=
  have cases : ∀ i a, (t.limiters.insert id t.heap.length).lookup i = some a →
      (i = id ∧ a = t.heap.length) ∨ t.limiters.lookup i = some a := by
    intro i a h
    rw [lookup_insert_of] at h
    split at h
    · rename_i hi
      exact Or.inl ⟨hi, (Option.some.inj h).symm⟩
    · exact Or.inr h
  { t with
    heap := t.heap ++ [p]
    limiters := t.limiters.insert id t.heap.length
    node_lt := fun a h => by
      have := t.node_lt a h
      rw [List.length_append]
      omega
    lt := fun i a h => by
      rw [List.length_append, List.length_singleton]
      rcases cases i a h with ⟨-, rfl⟩ | h
      · omega
      · have := t.lt i a h
        omega
    not_node := fun i a h hn => by
      rcases cases i a h with ⟨-, rfl⟩ | h
      · exact lt_irrefl _ (t.node_lt _ hn)
      · exact t.not_node i a h hn
    inj := fun i j a hi hj => by
      rcases cases i a hi with ⟨hi, ha⟩ | hi' <;> rcases cases j a hj with ⟨hj, hb⟩ | hj'
      · rw [hi, hj]
      · exact absurd (t.lt j a hj') (by omega)
      · exact absurd (t.lt i a hi') (by omega)
      · exact t.inj i j a hi' hj' }

def closeLimiterLocked (t : LimiterTable) (id : ℤ) : LimiterTable :=
  match t.limiters.lookup id with
  | some a => (t.modify a LimiterPair.close).drop id
  | none => t

/-- `userRateLimitBuildEnabled` is the argument `build`. -/
def updateLimiterLocked (build : Bool) (clock : Clock) (t : LimiterTable) (u : User) : LimiterTable :=
  if build then
    match t.limiters.lookup u.id with
    | some a => t.modify a fun p => p.setRate (clock a) (mbpsToBytes u.speedLimit)
    | none => t.alloc u.id (newLimiterPair (clock t.heap.length) (mbpsToBytes u.speedLimit))
  else t

/-- The two loops of a commit: the pairs of absent users are closed, those of the others updated. -/
def refresh (build : Bool) (clock : Clock) (oClose : RangeOrder ((_ : ℤ) × ℕ)) (oUpdate : RangeOrder ((_ : ℤ) × User))
    (t : LimiterTable) (users : GoMap ℤ User) : LimiterTable :=
  let closed := (oClose.visit t.limiters.entries).foldl
    (fun t e => if e.1 ∈ users then t else t.closeLimiterLocked e.1) t
  (oUpdate.visit users.entries).foldl (fun t e => t.updateLimiterLocked build clock e.2) closed

theorem lookup_closeLimiterLocked (t : LimiterTable) (id i : ℤ) :
    (t.closeLimiterLocked id).limiters.lookup i = if i = id then none else t.limiters.lookup i := by
  unfold closeLimiterLocked
  split
  · exact lookup_erase_of _ _ _
  · rename_i h
    split
    · rename_i hi
      rw [hi, h]
    · rfl

theorem mem_updateLimiterLocked (clock : Clock) (t : LimiterTable) (u : User) (i : ℤ) :
    i ∈ (t.updateLimiterLocked true clock u).limiters ↔ i = u.id ∨ i ∈ t.limiters := by
  unfold updateLimiterLocked
  rw [if_pos rfl]
  split
  · rename_i a h
    refine ⟨Or.inr, ?_⟩
    rintro (rfl | hi)
    · exact AList.lookup_isSome.1 (by rw [show (t.modify a _).limiters = t.limiters from rfl, h]; rfl)
    · exact hi
  · exact AList.mem_insert _

/-- The users of a list of entries lose their pairs, unless they are still there. -/
theorem lookup_close_loop (users : GoMap ℤ User) (es : List ((_ : ℤ) × ℕ)) (t : LimiterTable) (i : ℤ) :
    (es.foldl (fun t e => if e.1 ∈ users then t else t.closeLimiterLocked e.1) t).limiters.lookup i =
      if i ∉ users ∧ i ∈ es.map Sigma.fst then none else t.limiters.lookup i := by
  induction es generalizing t with
  | nil => simp
  | cons e es ih =>
    rw [List.foldl_cons, ih]
    simp only [List.map_cons, List.mem_cons]
    by_cases hi : i = e.1
    · by_cases he : e.1 ∈ users
      · simp only [hi, he, not_true_eq_false, false_and, if_true]
      · rw [if_neg he, lookup_closeLimiterLocked, if_pos hi, ite_self, if_pos ⟨hi ▸ he, Or.inl hi⟩]
    · simp only [hi, false_or]
      by_cases he : e.1 ∈ users
      · rw [if_pos he]
      · rw [if_neg he, lookup_closeLimiterLocked, if_neg hi]

theorem mem_update_loop (clock : Clock) (es : List ((_ : ℤ) × User)) (t : LimiterTable) (i : ℤ) :
    i ∈ (es.foldl (fun t e => t.updateLimiterLocked true clock e.2) t).limiters ↔
      i ∈ t.limiters ∨ ∃ e ∈ es, e.2.id = i := by
  induction es generalizing t with
  | nil => simp
  | cons e es ih =>
    rw [List.foldl_cons, ih, mem_updateLimiterLocked, List.exists_mem_cons_iff]
    constructor
    · rintro ((rfl | h) | h)
      · exact Or.inr (Or.inl rfl)
      · exact Or.inl h
      · exact Or.inr (Or.inr h)
    · rintro (h | rfl | h)
      · exact Or.inl (Or.inr h)
      · exact Or.inl (Or.inl rfl)
      · exact Or.inr h

/-- **After a commit exactly the committed users have a pair of limiters.** -/
theorem mem_limiters_refresh (clock : Clock) (oClose : RangeOrder ((_ : ℤ) × ℕ))
    (oUpdate : RangeOrder ((_ : ℤ) × User)) (t : LimiterTable) {users : GoMap ℤ User} (hk : Keyed users) (i : ℤ) :
    i ∈ (t.refresh true clock oClose oUpdate users).limiters ↔ i ∈ users := by
  unfold refresh
  rw [mem_update_loop, ← AList.lookup_isSome, lookup_close_loop]
  constructor
  · rintro (h | ⟨⟨id, u⟩, he, rfl⟩)
    · by_contra hi
      have hmem : i ∈ t.limiters := by
        split at h
        · cases h
        · exact AList.lookup_isSome.1 h
      obtain ⟨a, ha⟩ := Option.isSome_iff_exists.1 (AList.lookup_isSome.2 hmem)
      rw [if_pos ⟨hi, mem_range_keys oClose ha⟩] at h
      cases h
    · have hl := (mem_range_iff oUpdate users).1 he
      rw [(hk id u hl).1, ← AList.lookup_isSome, hl]
      rfl
  · intro hi
    obtain ⟨u, hu⟩ := Option.isSome_iff_exists.1 (AList.lookup_isSome.2 hi)
    exact Or.inr ⟨⟨i, u⟩, (mem_range_iff oUpdate users).2 hu, (hk i u hu).1⟩

end LimiterTable

/-! ### The alias map -/

/-- The three aliases of a user. -/
def aliases (u : User) : List String := [u.uuid, u.password, u.name].filter fun x => x ≠ ""

def secretsFrom (o : RangeOrder ((_ : ℤ) × User)) (users : GoMap ℤ User) : GoMap String ℤ :=
  writes ∅ ((o.visit users.entries).flatMap fun e => (aliases e.2).map fun secret => (secret, e.1))

theorem mem_secrets (o : RangeOrder ((_ : ℤ) × User)) {users : GoMap ℤ User} {x : String} {id : ℤ} :
    (x, id) ∈ ((o.visit users.entries).flatMap fun e => (aliases e.2).map fun secret => (secret, e.1)) ↔
      ∃ u, users.lookup id = some u ∧ x ∈ aliases u := by
  rw [List.mem_flatMap]
  constructor
  · rintro ⟨⟨id', u⟩, he, hx⟩
    obtain ⟨x', hx', heq⟩ := List.mem_map.1 hx
    cases heq
    exact ⟨u, (mem_range_iff o users).1 he, hx'⟩
  · rintro ⟨u, hu, hx⟩
    exact ⟨⟨id, u⟩, (mem_range_iff o users).2 hu, List.mem_map.2 ⟨x, hx, rfl⟩⟩

/-- What the alias map says belongs to a user. -/
theorem lookup_secretsFrom (o : RangeOrder ((_ : ℤ) × User)) {users : GoMap ℤ User} {x : String} {id : ℤ}
    (h : (secretsFrom o users).lookup x = some id) : ∃ u, users.lookup id = some u ∧ x ∈ aliases u := by
  rcases mem_or_of_lookup_writes h with h | h
  · simp at h
  · exact (mem_secrets o).1 h

/-- An alias that one user alone has leads to that user, in whatever order the users are walked. -/
theorem lookup_secretsFrom_of_unique (o : RangeOrder ((_ : ℤ) × User)) {users : GoMap ℤ User} {x : String} {id : ℤ}
    {u : User} (hu : users.lookup id = some u) (hx : x ∈ aliases u)
    (huniq : ∀ id' u', users.lookup id' = some u' → x ∈ aliases u' → id' = id) :
    (secretsFrom o users).lookup x = some id := by
  refine lookup_writes_of_unique ((mem_secrets o).2 ⟨u, hu, hx⟩) fun id' hid' => ?_
  obtain ⟨u', hu', hx'⟩ := (mem_secrets o).1 hid'
  exact huniq id' u' hu' hx'

/-! ### Applying users to inbounds -/

/-- A live inbound; those of other protocols have no users to apply. -/
inductive Inbound where
  | vless (h : Vless.Inbound)
  | hysteria2 (h : Hysteria2.Inbound)
  | other

def vlessUserFromPanelUser (user : User) : Vless.User := ⟨user.uuid, user.uuid, "xtls-rprx-vision"⟩

/-- `desired` of `applyVLESSUsers`. -/
def vlessDesired (added : List User) : List Vless.User :=
  (added.filter fun u => u.uuid ≠ "").map vlessUserFromPanelUser

/-- `desired` and `desiredIDs` of `applyHysteria2Users`; a user without a name is named by its password. -/
def hysteria2Desired (added : List User) : List (Hysteria2.User × ℤ) :=
  (added.filter fun u => u.password ≠ "").map fun u =>
    (⟨if u.name = "" then u.password else u.name, u.password⟩, u.id)

/-- The `DelUsers` call of an inbound, made when there is something to delete. -/
def Inbound.delete (raw : Inbound) (removed : List User) : Inbound :=
  match raw with
  | .vless h =>
    let remove := credentials User.uuid removed
    if remove = [] then raw else .vless (h.delUsers remove)
  | .hysteria2 h =>
    let remove := credentials User.password removed
    if remove = [] then raw else .hysteria2 (h.delUsers remove)
  | .other => raw

/-- The `AddUsers` call of an inbound, made when there is something to add. -/
def Inbound.add (raw : Inbound) (added : List User) : Inbound :=
  match raw with
  | .vless h => if vlessDesired added = [] then raw else .vless (h.addUsers (vlessDesired added))
  | .hysteria2 h => if hysteria2Desired added = [] then raw else .hysteria2 (h.addUsers (hysteria2Desired added))
  | .other => raw

/-- The orders in which one call of `ApplyBoxByInbound` walks its maps. -/
structure Orders where
  removed : String → RangeOrder ((_ : ℤ) × User)
  added : String → RangeOrder ((_ : ℤ) × User)
  lists : RangeOrder ((_ : String) × List User)
  snapshot : String → RangeOrder ((_ : ℤ) × User)
  secrets : RangeOrder ((_ : ℤ) × User)
  limiters : RangeOrder ((_ : ℤ) × ℕ)
  users : RangeOrder ((_ : ℤ) × User)

/-- Every map in the order in which it is stored. -/
def Orders.stored : Orders :=
  ⟨fun _ => .stored _, fun _ => .stored _, .stored _, fun _ => .stored _, .stored _, .stored _, .stored _⟩

section ApplyUsers

variable (o : Orders) (tag : String) (raw : Inbound) (users : List User) (oldUsers : GoMap ℤ User)

/-- The first half of `applyVLESSUsers` and `applyHysteria2Users`, whichever handles the inbound. -/
def deleteRemoved : Inbound := raw.delete (userChanges (o.removed tag) (o.added tag) oldUsers users).1

/-- The second half. -/
def addAdded : Inbound := raw.add (userChanges (o.removed tag) (o.added tag) oldUsers users).2

/-- `applyVLESSUsers` and `applyHysteria2Users` -/
def applyUsers : Inbound := addAdded o tag (deleteRemoved o tag raw users oldUsers) users oldUsers

end ApplyUsers

/-! ### The manager -/

structure UserManager extends LimiterTable where
  users : GoMap ℤ User
  bySecret : GoMap String ℤ
  byInbound : GoMap String (GoMap ℤ User)

namespace UserManager

/-- `NewUserManager` -/
def new (now : Direction → ℚ) (nodeMbps : ℤ) : UserManager :=
  { LimiterTable.new now nodeMbps with users := ∅, bySecret := ∅, byInbound := ∅ }

/-- The union of the snapshots, a later one over an earlier one. -/
def unionOf (o : Orders) (usersByInbound : GoMap String (List User)) : GoMap ℤ User :=
  writes ∅ ((o.lists.visit usersByInbound.entries).flatMap fun e =>
    ((o.snapshot e.1).visit (usersByID e.2).entries).map fun x => (x.1, x.2))

/-- The commit of `ApplyBoxByInbound` under `m.mu`. -/
def commit (build : Bool) (o : Orders) (clock : Clock) (m : UserManager) (usersByInbound : GoMap String (List User)) :
    UserManager :=
  let union := unionOf o usersByInbound
  { m.toLimiterTable.refresh build clock o.limiters o.users union with
    users := union
    bySecret := secretsFrom o.secrets union
    byInbound := collect (fun _ users => some (usersByID users)) usersByInbound }

/-- `oldByInbound[tag]`, with the empty map for nil. -/
def snapshot (m : UserManager) (tag : String) : GoMap ℤ User := (m.byInbound.lookup tag).getD ∅

def applyBoxByInbound (build : Bool) (o : Orders) (clock : Clock) (m : UserManager) (inbounds : GoMap String Inbound)
    (usersByInbound : GoMap String (List User)) : UserManager × GoMap String Inbound :=
  (m.commit build o clock usersByInbound,
    collect (fun tag raw => some (applyUsers o tag raw ((usersByInbound.lookup tag).getD []) (m.snapshot tag)))
      inbounds)

/-- `applyGlobal` keeps the snapshots of the inbounds. -/
def applyGlobal (build : Bool) (o : Orders) (clock : Clock) (m : UserManager) (users : List User) : UserManager :=
  let next := usersByID users
  { m.toLimiterTable.refresh build clock o.limiters o.users next with
    users := next
    bySecret := secretsFrom o.secrets next
    byInbound := m.byInbound }

def applyBox (build : Bool) (o : Orders) (clock : Clock) (m : UserManager) (inbounds : GoMap String Inbound)
    (users : List User) : UserManager × GoMap String Inbound :=
  if isEmpty inbounds then (m.applyGlobal build o clock users, inbounds)
  else m.applyBoxByInbound build o clock inbounds (collect (fun _ _ => some users) inbounds)

def resolve (m : UserManager) (user : String) : String :=
  if user = "" then ""
  else match m.bySecret.lookup user with
    | some id => itoa id
    | none => user

def activeIDs (m : UserManager) : GoMap String Unit := writes ∅ (m.users.keys.map fun id => (itoa id, ()))

/-- `InboundSnapshot`: a copy of the committed snapshot, which is empty for an unknown tag. -/
def inboundSnapshot (m : UserManager) (tag : String) : GoMap ℤ User :=
  collect (fun _ u => some u) (m.snapshot tag)

/-- The four results of `DirectionalLimiters`; `none` is nil. -/
structure Limits where
  nodeRead : Option LimiterPtr
  nodeWrite : Option LimiterPtr
  userRead : Option LimiterPtr
  userWrite : Option LimiterPtr
deriving Repr, DecidableEq

def directionalLimiters (build : Bool) (m : UserManager) (user : String) : Limits :=
  let own := if build then (m.bySecret.lookup user).bind fun id => m.limiters.lookup id else none
  ⟨m.nodeLimit.map (⟨·, .rx⟩), m.nodeLimit.map (⟨·, .tx⟩), own.map (⟨·, .rx⟩), own.map (⟨·, .tx⟩)⟩

/-! ### What a commit stores -/

theorem lookup_byInbound_commit (build : Bool) (o : Orders) (clock : Clock) (m : UserManager)
    (usersByInbound : GoMap String (List User)) (tag : String) :
    (m.commit build o clock usersByInbound).byInbound.lookup tag = (usersByInbound.lookup tag).map usersByID := by
  show (collect _ usersByInbound).lookup tag = _
  rw [lookup_collect]
  cases usersByInbound.lookup tag <;> rfl

/-- The snapshot of a tag after a commit is that of the list given for it. -/
theorem snapshot_commit (build : Bool) (o : Orders) (clock : Clock) (m : UserManager)
    (usersByInbound : GoMap String (List User)) (tag : String) :
    (m.commit build o clock usersByInbound).snapshot tag = usersByID ((usersByInbound.lookup tag).getD []) := by
  unfold snapshot
  rw [lookup_byInbound_commit]
  cases usersByInbound.lookup tag <;> rfl

theorem lookup_inboundSnapshot (m : UserManager) (tag : String) (id : ℤ) :
    (m.inboundSnapshot tag).lookup id = (m.snapshot tag).lookup id := by
  unfold inboundSnapshot
  rw [lookup_collect]
  cases (m.snapshot tag).lookup id <;> rfl

theorem mem_union (o : Orders) {usersByInbound : GoMap String (List User)} {id : ℤ} {u : User} :
    (id, u) ∈ ((o.lists.visit usersByInbound.entries).flatMap fun e =>
      ((o.snapshot e.1).visit (usersByID e.2).entries).map fun x => (x.1, x.2)) ↔
      ∃ tag users, usersByInbound.lookup tag = some users ∧ (usersByID users).lookup id = some u := by
  rw [List.mem_flatMap]
  constructor
  · rintro ⟨⟨tag, users⟩, he, hx⟩
    obtain ⟨⟨id', u'⟩, hx', heq⟩ := List.mem_map.1 hx
    cases heq
    exact ⟨tag, users, (mem_range_iff o.lists usersByInbound).1 he, (mem_range_iff (o.snapshot tag) _).1 hx'⟩
  · rintro ⟨tag, users, hl, hu⟩
    exact ⟨⟨tag, users⟩, (mem_range_iff o.lists usersByInbound).2 hl,
      List.mem_map.2 ⟨⟨id, u⟩, (mem_range_iff (o.snapshot tag) _).2 hu, rfl⟩⟩

/-- A user of the union is the user of some list. -/
theorem lookup_unionOf (o : Orders) {usersByInbound : GoMap String (List User)} {id : ℤ} {u : User}
    (h : (unionOf o usersByInbound).lookup id = some u) :
    ∃ tag users, usersByInbound.lookup tag = some users ∧ (usersByID users).lookup id = some u := by
  rcases mem_or_of_lookup_writes h with h | h
  · simp at h
  · exact (mem_union o).1 h

/-- Every user of a list is in the union, if not with this entry. -/
theorem exists_lookup_unionOf (o : Orders) {usersByInbound : GoMap String (List User)} {tag : String}
    {users : List User} {id : ℤ} {u : User} (hl : usersByInbound.lookup tag = some users)
    (hu : (usersByID users).lookup id = some u) : ∃ v, (unionOf o usersByInbound).lookup id = some v := by
  obtain ⟨v, hv, -⟩ := exists_lookup_writes (m := ∅) ((mem_union o).2 ⟨tag, users, hl, hu⟩)
  exact ⟨v, hv⟩

theorem keyed_unionOf (o : Orders) (usersByInbound : GoMap String (List User)) :
    Keyed (unionOf o usersByInbound) := by
  intro id u h
  obtain ⟨tag, users, -, hu⟩ := lookup_unionOf o h
  exact keyed_usersByID users id u hu

end UserManager

/-! ### The two apply paths -/

/-- What `ApplyBox` or `ApplyBoxByInbound` is called with. -/
inductive ApplyArgs where
  | box (inbounds : GoMap String Inbound) (users : List User)
  | byInbound (inbounds : GoMap String Inbound) (usersByInbound : GoMap String (List User))

structure ApplyCall where
  orders : Orders
  clock : Clock
  args : ApplyArgs

namespace ApplyArgs

/-- The call is given this list, for all inbounds or for one. -/
def Gives (users : List User) : ApplyArgs → Prop
  | .box _ users' => users = users'
  | .byInbound _ usersByInbound => ∃ tag, usersByInbound.lookup tag = some users

/-- The users that the call commits. -/
def union (o : Orders) : ApplyArgs → GoMap ℤ User
  | .box inbounds users =>
    if isEmpty inbounds then usersByID users
    else UserManager.unionOf o (collect (fun _ _ => some users) inbounds)
  | .byInbound _ usersByInbound => UserManager.unionOf o usersByInbound

theorem lookup_collect_const {inbounds : GoMap String Inbound} {users users' : List User} {tag : String} :
    (collect (fun _ _ => some users) inbounds).lookup tag = some users' ↔ tag ∈ inbounds ∧ users' = users := by
  rw [lookup_collect, Option.bind_eq_some_iff, ← AList.lookup_isSome, Option.isSome_iff_exists]
  constructor
  · rintro ⟨raw, hraw, heq⟩
    exact ⟨⟨raw, hraw⟩, (Option.some.inj heq).symm⟩
  · rintro ⟨⟨raw, hraw⟩, rfl⟩
    exact ⟨raw, hraw, rfl⟩

theorem exists_mem_of_not_isEmpty {inbounds : GoMap String Inbound} (h : ¬ isEmpty inbounds = true) :
    ∃ tag, tag ∈ inbounds := by
  by_contra hnone
  refine h ((isEmpty_iff inbounds).2 fun tag => AList.lookup_eq_none.2 fun ht => hnone ⟨tag, ht⟩)

/-- A user that is committed is the user of some list. -/
theorem lookup_union {args : ApplyArgs} (o : Orders) {id : ℤ} {u : User} (h : (args.union o).lookup id = some u) :
    ∃ users, args.Gives users ∧ (usersByID users).lookup id = some u := by
  cases args with
  | box inbounds users =>
    refine ⟨users, rfl, ?_⟩
    simp only [union] at h
    split at h
    · exact h
    · obtain ⟨tag, users', hl, hu⟩ := UserManager.lookup_unionOf o h
      obtain ⟨-, rfl⟩ := lookup_collect_const.1 hl
      exact hu
  | byInbound inbounds lists =>
    obtain ⟨tag, users, hl, hu⟩ := UserManager.lookup_unionOf o h
    exact ⟨users, ⟨tag, hl⟩, hu⟩

/-- Every user of a list is committed, if not with this entry. -/
theorem exists_lookup_union {args : ApplyArgs} (o : Orders) {users : List User} {id : ℤ} {u : User}
    (hg : args.Gives users) (hu : (usersByID users).lookup id = some u) :
    ∃ v, (args.union o).lookup id = some v := by
  cases args with
  | box inbounds users =>
    cases hg
    simp only [union]
    split
    · exact ⟨u, hu⟩
    · rename_i hne
      obtain ⟨tag, ht⟩ := exists_mem_of_not_isEmpty hne
      exact UserManager.exists_lookup_unionOf o (lookup_collect_const.2 ⟨ht, rfl⟩) hu
  | byInbound inbounds lists =>
    obtain ⟨tag, hl⟩ := hg
    exact UserManager.exists_lookup_unionOf o hl hu

theorem keyed_union (args : ApplyArgs) (o : Orders) : Keyed (args.union o) := by
  intro id u h
  obtain ⟨users, -, hu⟩ := lookup_union o h
  exact keyed_usersByID users id u hu

theorem mem_union {args : ApplyArgs} (o : Orders) {id : ℤ} :
    id ∈ args.union o ↔ 0 < id ∧ ∃ users, args.Gives users ∧ ∃ u ∈ users, u.id = id := by
  constructor
  · intro h
    obtain ⟨u, hu⟩ := Option.isSome_iff_exists.1 (AList.lookup_isSome.2 h)
    obtain ⟨users, hg, hu⟩ := lookup_union o hu
    obtain ⟨hmem, hid, hpos⟩ := mem_of_lookup_usersByID hu
    exact ⟨hpos, users, hg, u, hmem, hid⟩
  · rintro ⟨hpos, users, hg, hex⟩
    obtain ⟨u, hu⟩ := Option.isSome_iff_exists.1 (AList.lookup_isSome.2 (mem_usersByID.2 ⟨hpos, hex⟩))
    obtain ⟨v, hv⟩ := exists_lookup_union o hg hu
    exact AList.lookup_isSome.1 (Option.isSome_iff_exists.2 ⟨v, hv⟩)

end ApplyArgs

namespace UserManager

variable (build : Bool) (m : UserManager) (c : ApplyCall)

/-- The manager after a call. -/
def call : UserManager :=
  match c.args with
  | .box inbounds users => (m.applyBox build c.orders c.clock inbounds users).1
  | .byInbound inbounds usersByInbound => (m.applyBoxByInbound build c.orders c.clock inbounds usersByInbound).1

/-- **Every call is one commit**: of the users, their aliases and their limiters. -/
theorem call_spec :
    (m.call build c).users = c.args.union c.orders ∧
    (m.call build c).bySecret = secretsFrom c.orders.secrets (c.args.union c.orders) ∧
    (m.call build c).toLimiterTable = m.toLimiterTable.refresh build c.clock c.orders.limiters c.orders.users
      (c.args.union c.orders) := by
  obtain ⟨orders, clock, args⟩ := c
  cases args with
  | box inbounds users =>
    simp only [call, applyBox, ApplyArgs.union]
    split <;> exact ⟨rfl, rfl, rfl⟩
  | byInbound inbounds lists => exact ⟨rfl, rfl, rfl⟩

end UserManager

end MiniSbAgent.Agent
