import MiniSbAgent.Go.Maps
import MiniSbAgent.Lib.Folds

/-!
# Traffic counters

Each inbound has a `TrafficCounter`, a map from user keys to *pointers* to a `TrafficStorage`; a connection keeps
the pointer it was given when it was opened.  The pointers are kept: `Hook` holds the map of maps of the agent and
the heap of all storages ever made, so that a storage which `RemoveAbsent` drops from the map is still there for
the connections that count on it.  The four counters of a storage are read as exact integers.

* `Hook` carries what every operation keeps: a pointer of the map is allocated, and no two keys share one;
* `snapshotDelta`, `commitSnapshot`, `removeAbsent` — the loops of the source, over both levels of the map;
* `committed_commitSnapshot`, `lookup₂_snapshotDelta`, `ptr_removeAbsent` — what they do to one key.
-/

namespace MiniSbAgent.Counter

open MiniSbAgent.Go MiniSbAgent.Lib

structure TrafficStorage where
  upCounter : ℤ
  downCounter : ℤ
  committedUp : ℤ
  committedDown : ℤ
deriving Repr, DecidableEq

/-- Amounts of `[2]int64`, up and down, by inbound tag and user key. -/
abbrev Delta := GoMap String (GoMap String (ℤ × ℤ))

namespace TrafficStorage

/-- `&TrafficStorage{}`. -/
def zero : TrafficStorage := ⟨0, 0, 0, 0⟩

def counted (s : TrafficStorage) : ℤ × ℤ := (s.upCounter, s.downCounter)

def committed (s : TrafficStorage) : ℤ × ℤ := (s.committedUp, s.committedDown)

/-- What `SnapshotDelta` subtracts. -/
def pending (s : TrafficStorage) : ℤ × ℤ :=
  (s.upCounter - s.committedUp, s.downCounter - s.committedDown)

/-- `UpCounter.Add` and `DownCounter.Add`. -/
def count (s : TrafficStorage) (d : ℤ × ℤ) : TrafficStorage :=
  { s with upCounter := s.upCounter + d.1, downCounter := s.downCounter + d.2 }

/-- `CommittedUp.Add` and `CommittedDown.Add`. -/
def commit (s : TrafficStorage) (d : ℤ × ℤ) : TrafficStorage :=
  { s with committedUp := s.committedUp + d.1, committedDown := s.committedDown + d.2 }

/-- Nothing is left to push. -/
def Settled (s : TrafficStorage) : Prop := s.upCounter = s.committedUp ∧ s.downCounter = s.committedDown

instance (s : TrafficStorage) : Decidable s.Settled := by unfold Settled; infer_instance

theorem pending_eq (s : TrafficStorage) : s.pending = s.counted - s.committed := rfl

theorem settled_iff (s : TrafficStorage) : s.Settled ↔ s.pending = 0 := by
  unfold Settled pending
  rw [Prod.mk_eq_zero, sub_eq_zero, sub_eq_zero]

@[simp] theorem counted_count (s : TrafficStorage) (d : ℤ × ℤ) : (s.count d).counted = s.counted + d := rfl
@[simp] theorem committed_count (s : TrafficStorage) (d : ℤ × ℤ) : (s.count d).committed = s.committed := rfl
@[simp] theorem counted_commit (s : TrafficStorage) (d : ℤ × ℤ) : (s.commit d).counted = s.counted := rfl
@[simp] theorem committed_commit (s : TrafficStorage) (d : ℤ × ℤ) :
    (s.commit d).committed = s.committed + d := rfl
theorem ext_of_counted {s s' : TrafficStorage} (h1 : s.counted = s'.counted) (h2 : s.committed = s'.committed) :
    s = s' := by
  obtain ⟨a, b, c, d⟩ := s
  obtain ⟨a', b', c', d'⟩ := s'
  obtain ⟨rfl, rfl⟩ := Prod.mk.inj h1
  obtain ⟨rfl, rfl⟩ := Prod.mk.inj h2
  rfl

@[simp] theorem counted_zero : zero.counted = 0 := rfl
@[simp] theorem committed_zero : zero.committed = 0 := rfl

end TrafficStorage

/-! ### The hook -/

/-- `Hook.byInbound`, with its counters and the storages they point to. -/
structure Hook where
  byInbound : GoMap String (GoMap String ℕ)
  heap : List TrafficStorage
  /-- a pointer of the map is allocated -/
  valid : ∀ {tag user p}, lookup₂ byInbound tag user = some p → p < heap.length
  /-- no two keys share a storage -/
  inj : ∀ {tag user tag' user' p}, lookup₂ byInbound tag user = some p →
    lookup₂ byInbound tag' user' = some p → tag = tag' ∧ user = user'

namespace Hook

/-- `&Hook{}`. -/
def new : Hook := ⟨∅, [], by simp [lookup₂], by simp [lookup₂]⟩

/-- The pointer stored for a user of an inbound. -/
def ptr (h : Hook) (tag user : String) : Option ℕ := lookup₂ h.byInbound tag user

def deref (h : Hook) (p : ℕ) : TrafficStorage := h.heap.getD p TrafficStorage.zero

/-- The storage of a user of an inbound; all zero when there is none. -/
def storage (h : Hook) (tag user : String) : TrafficStorage :=
  match h.ptr tag user with
  | some p => h.deref p
  | none => TrafficStorage.zero

theorem storage_of_ptr {h : Hook} {tag user : String} {p : ℕ} (hp : h.ptr tag user = some p) :
    h.storage tag user = h.deref p := by
  unfold storage
  rw [hp]

theorem storage_of_ptr_none {h : Hook} {tag user : String} (hp : h.ptr tag user = none) :
    h.storage tag user = TrafficStorage.zero := by
  unfold storage
  rw [hp]

/-! ### Writing through a pointer -/

/-- An atomic update of the storage at `p`. -/
def update (h : Hook) (p : ℕ) (f : TrafficStorage → TrafficStorage) : Hook where
  byInbound := h.byInbound
  heap := h.heap.modify p f
  valid hp := by rw [List.length_modify]; exact h.valid hp
  inj := h.inj

@[simp] theorem ptr_update (h : Hook) (p : ℕ) (f : TrafficStorage → TrafficStorage) :
    (h.update p f).ptr = h.ptr := rfl

theorem deref_update {h : Hook} {p : ℕ} (hp : p < h.heap.length) (f : TrafficStorage → TrafficStorage) (q : ℕ) :
    (h.update p f).deref q = if q = p then f (h.deref q) else h.deref q := by
  unfold update deref
  rw [List.getD_eq_getElem?_getD, List.getD_eq_getElem?_getD, List.getElem?_modify]
  by_cases hq : q = p
  · subst hq
    simp [List.getElem?_eq_getElem hp]
  · have hq' : ¬ p = q := fun h => hq h.symm
    simp [hq, hq']

/-- A write through the pointer of one key is seen under that key only. -/
theorem storage_update {h : Hook} {tag user : String} {p : ℕ} (hp : h.ptr tag user = some p)
    (f : TrafficStorage → TrafficStorage) (tag' user' : String) :
    (h.update p f).storage tag' user' =
      if tag' = tag ∧ user' = user then f (h.storage tag' user') else h.storage tag' user' := by
  rcases hq : h.ptr tag' user' with _ | q
  · have hne : ¬ (tag' = tag ∧ user' = user) := by
      rintro ⟨rfl, rfl⟩
      rw [hp] at hq
      cases hq
    rw [if_neg hne, storage_of_ptr_none hq, storage_of_ptr_none (by simpa using hq)]
  · rw [storage_of_ptr hq, storage_of_ptr (h := h.update p f) (p := q) (by simpa using hq),
      deref_update (h.valid hp)]
    by_cases hqp : q = p
    · subst hqp
      rw [if_pos rfl, if_pos (h.inj hq hp)]
    · have hne : ¬ (tag' = tag ∧ user' = user) := by
        rintro ⟨rfl, rfl⟩
        rw [hp] at hq
        exact hqp (Option.some.inj hq).symm
      rw [if_neg hqp, if_neg hne]

/-- A write through a pointer that a key does not have is not seen under that key. -/
theorem storage_update_of_ne {h : Hook} {tag user : String} {p : ℕ} (hlt : p < h.heap.length)
    (hp : h.ptr tag user ≠ some p) (f : TrafficStorage → TrafficStorage) :
    (h.update p f).storage tag user = h.storage tag user := by
  rcases hq : h.ptr tag user with _ | q
  · rw [storage_of_ptr_none hq, storage_of_ptr_none (by simpa using hq)]
  · have hqp : q ≠ p := fun h => hp (h ▸ hq)
    rw [storage_of_ptr hq, storage_of_ptr (h := h.update p f) (p := q) (by simpa using hq), deref_update hlt,
      if_neg hqp]

/-! ### Opening a counter -/

/-- The key `tc` looks up. -/
def tcTag (tag : String) : String := if tag = "" then "default" else tag

/-- `LoadOrStore` of a new, empty `TrafficCounter`. -/
def tc (h : Hook) (tag : String) : Hook where
  byInbound := if tcTag tag ∈ h.byInbound then h.byInbound else h.byInbound.insert (tcTag tag) ∅
  heap := h.heap
  valid {tag' user p} hp := by
    split at hp
    · exact h.valid hp
    · unfold lookup₂ at hp
      rw [lookup_insert_of] at hp
      split at hp
      · simp at hp
      · exact h.valid hp
  inj {tag₁ user₁ tag₂ user₂ p} h1 h2 := by
    split at h1
    · rename_i hmem
      rw [if_pos hmem] at h2
      exact h.inj h1 h2
    · rename_i hmem
      rw [if_neg hmem] at h2
      unfold lookup₂ at h1 h2
      rw [lookup_insert_of] at h1 h2
      split at h1
      · simp at h1
      · split at h2
        · simp at h2
        · exact h.inj h1 h2

@[simp] theorem ptr_tc (h : Hook) (tag : String) : (h.tc tag).ptr = h.ptr := by
  funext tag' user
  show lookup₂ (if tcTag tag ∈ h.byInbound then h.byInbound else h.byInbound.insert (tcTag tag) ∅) tag' user =
    lookup₂ h.byInbound tag' user
  split
  · rfl
  · rename_i hmem
    unfold lookup₂
    rw [lookup_insert_of]
    split
    · rename_i htag
      rw [htag, AList.lookup_eq_none.2 hmem]
      rfl
    · rfl

/-- A new storage for a user of an inbound. -/
def alloc (h : Hook) (tag user : String) : Hook where
  byInbound := insert₂ h.byInbound tag user h.heap.length
  heap := h.heap ++ [TrafficStorage.zero]
  valid {tag' user' p} hp := by
    rw [lookup₂_insert₂] at hp
    rw [List.length_append, List.length_singleton]
    split at hp
    · cases hp; omega
    · have := h.valid hp; omega
  inj {tag₁ user₁ tag₂ user₂ p} h1 h2 := by
    rw [lookup₂_insert₂] at h1 h2
    split at h1 <;> split at h2
    · rename_i e1 e2
      exact ⟨e1.1.trans e2.1.symm, e1.2.trans e2.2.symm⟩
    · cases h1; exact absurd (h.valid h2) (lt_irrefl _)
    · cases h2; exact absurd (h.valid h1) (lt_irrefl _)
    · exact h.inj h1 h2

/-- `h.tc(tag).GetCounter(user)`. -/
def getCounter (h : Hook) (tag user : String) : Hook × ℕ :=
  match (h.tc tag).ptr (tcTag tag) user with
  | some p => (h.tc tag, p)
  | none => ((h.tc tag).alloc (tcTag tag) user, h.heap.length)

theorem ptr_alloc (h : Hook) (tag user tag' user' : String) :
    (h.alloc tag user).ptr tag' user' =
      if tag' = tag ∧ user' = user then some h.heap.length else h.ptr tag' user' :=
  lookup₂_insert₂ _ _ _ _ _ _

/-- A new storage changes none of the old ones, and reads as zero. -/
theorem deref_alloc (h : Hook) (tag user : String) (p : ℕ) : (h.alloc tag user).deref p = h.deref p := by
  unfold alloc deref
  rw [List.getD_eq_getElem?_getD, List.getD_eq_getElem?_getD, List.getElem?_append]
  split
  · rfl
  · rename_i hp
    rw [List.getElem?_eq_none (by omega : h.heap.length ≤ p)]
    rcases Nat.lt_or_ge (p - h.heap.length) 1 with hlt | hge
    · have h0 : p - h.heap.length = 0 := by omega
      simp [h0]
    · rw [List.getElem?_eq_none (by simpa using hge)]

theorem deref_length (h : Hook) : h.deref h.heap.length = TrafficStorage.zero := by
  unfold deref
  simp

section GetCounter

variable (h : Hook) (tag user : String)

theorem ptr_getCounter_self : (h.getCounter tag user).1.ptr (tcTag tag) user = some (h.getCounter tag user).2 := by
  unfold getCounter
  rcases hp : (h.tc tag).ptr (tcTag tag) user with _ | p
  · show ((h.tc tag).alloc (tcTag tag) user).ptr (tcTag tag) user = _
    rw [ptr_alloc, if_pos ⟨rfl, rfl⟩]
    rfl
  · exact hp

theorem ptr_getCounter_of_ptr {tag' user' : String} {p : ℕ} (hp : h.ptr tag' user' = some p) :
    (h.getCounter tag user).1.ptr tag' user' = some p := by
  unfold getCounter
  rcases hq : (h.tc tag).ptr (tcTag tag) user with _ | q
  · show ((h.tc tag).alloc (tcTag tag) user).ptr tag' user' = _
    rw [ptr_alloc, if_neg, ptr_tc, hp]
    rintro ⟨rfl, rfl⟩
    rw [ptr_tc, hp] at hq
    cases hq
  · show (h.tc tag).ptr tag' user' = _
    rw [ptr_tc, hp]

/-- No other key appears. -/
theorem ptr_getCounter_cases {tag' user' : String} {p : ℕ} (hp : (h.getCounter tag user).1.ptr tag' user' = some p) :
    h.ptr tag' user' = some p ∨ tag' = tcTag tag ∧ user' = user := by
  unfold getCounter at hp
  rcases hq : (h.tc tag).ptr (tcTag tag) user with _ | q
  · rw [hq] at hp
    change ((h.tc tag).alloc (tcTag tag) user).ptr tag' user' = some p at hp
    rw [ptr_alloc, ptr_tc] at hp
    split at hp
    · rename_i e; exact Or.inr e
    · exact Or.inl hp
  · rw [hq] at hp
    change (h.tc tag).ptr tag' user' = some p at hp
    rw [ptr_tc] at hp
    exact Or.inl hp

/-- A pointer of the map was there before, or is new to the heap. -/
theorem ptr_getCounter_fresh {tag' user' : String} {p : ℕ}
    (hp : (h.getCounter tag user).1.ptr tag' user' = some p) : h.ptr tag' user' = some p ∨ h.heap.length ≤ p := by
  rcases ptr_getCounter_cases h tag user hp with hold | ⟨rfl, rfl⟩
  · exact Or.inl hold
  · unfold getCounter at hp
    rcases hq : (h.tc tag).ptr (tcTag tag) user' with _ | q
    · rw [hq] at hp
      change ((h.tc tag).alloc (tcTag tag) user').ptr (tcTag tag) user' = some p at hp
      rw [ptr_alloc, if_pos ⟨rfl, rfl⟩] at hp
      exact Or.inr (le_of_eq (Option.some.inj hp))
    · rw [hq] at hp
      change (h.tc tag).ptr (tcTag tag) user' = some p at hp
      rw [ptr_tc] at hp
      exact Or.inl hp

theorem deref_getCounter (p : ℕ) : (h.getCounter tag user).1.deref p = h.deref p := by
  unfold getCounter
  rcases (h.tc tag).ptr (tcTag tag) user with _ | q
  · exact deref_alloc (h.tc tag) (tcTag tag) user p
  · rfl

theorem getCounter_lt : (h.getCounter tag user).2 < (h.getCounter tag user).1.heap.length :=
  (h.getCounter tag user).1.valid (ptr_getCounter_self h tag user)

/-- The heap never shrinks. -/
theorem length_le_getCounter : h.heap.length ≤ (h.getCounter tag user).1.heap.length := by
  unfold getCounter
  rcases (h.tc tag).ptr (tcTag tag) user with _ | q
  · show h.heap.length ≤ ((h.tc tag).heap ++ [TrafficStorage.zero]).length
    rw [List.length_append]
    exact Nat.le_add_right _ _
  · exact le_refl _

/-- Opening a counter changes what no key reads. -/
@[simp] theorem storage_getCounter : (h.getCounter tag user).1.storage = h.storage := by
  funext tag' user'
  rcases hp : h.ptr tag' user' with _ | p
  · rw [storage_of_ptr_none hp]
    rcases hq : (h.getCounter tag user).1.ptr tag' user' with _ | q
    · rw [storage_of_ptr_none hq]
    · -- the key is new, so its storage is the one at the end of the heap
      rw [storage_of_ptr hq, deref_getCounter]
      rcases ptr_getCounter_cases h tag user hq with h' | ⟨rfl, rfl⟩
      · rw [hp] at h'; cases h'
      · have hself := ptr_getCounter_self h tag user'
        rw [hq] at hself
        have hlen : (h.getCounter tag user').2 = h.heap.length := by
          unfold getCounter
          rw [ptr_tc, hp]
        rw [Option.some.inj hself, hlen, deref_length]
  · rw [storage_of_ptr hp, storage_of_ptr (ptr_getCounter_of_ptr h tag user hp), deref_getCounter]

end GetCounter

/-! ### Snapshots and commits -/

/-- `SnapshotDelta` of one storage. -/
def storageDelta (s : TrafficStorage) : Option (ℤ × ℤ) :=
  if 0 < s.pending.1 ∨ 0 < s.pending.2 then some s.pending else none

def snapshotDelta (h : Hook) : Delta := collect₂ (fun _ _ p => storageDelta (h.deref p)) h.byInbound

/-- `Load` of the tag, `Load` of the user, and the two `Add`s. -/
def commitAt (h : Hook) (tag user : String) (d : ℤ × ℤ) : Hook :=
  match h.ptr tag user with
  | some p => h.update p (·.commit d)
  | none => h

def commitSnapshot (h : Hook) (snapshot : Delta) : Hook :=
  snapshot.entries.foldl (fun h e => e.2.entries.foldl (fun h u => h.commitAt e.1 u.1 u.2) h) h

theorem lookup₂_snapshotDelta (h : Hook) (tag user : String) :
    lookup₂ h.snapshotDelta tag user = (h.ptr tag user).bind fun p => storageDelta (h.deref p) :=
  lookup₂_collect₂ _ _ _ _

/-- What the snapshot reports for a key is what the key has pending, as long as no counter is overdrawn. -/
theorem getD_snapshotDelta {h : Hook} {tag user : String} (hle : 0 ≤ (h.storage tag user).pending) :
    (lookup₂ h.snapshotDelta tag user).getD 0 = (h.storage tag user).pending := by
  rw [lookup₂_snapshotDelta]
  rcases hp : h.ptr tag user with _ | p
  · rw [storage_of_ptr_none hp]
    rfl
  · rw [storage_of_ptr hp] at hle ⊢
    simp only [Option.bind_some, storageDelta]
    split
    · rfl
    · rename_i hno
      push Not at hno
      exact le_antisymm hle ⟨hno.1, hno.2⟩

theorem ptr_of_lookup₂_snapshotDelta {h : Hook} {tag user : String} {d : ℤ × ℤ}
    (hd : lookup₂ h.snapshotDelta tag user = some d) :
    ∃ p, h.ptr tag user = some p ∧ d = (h.deref p).pending ∧ (0 < d.1 ∨ 0 < d.2) := by
  rw [lookup₂_snapshotDelta, Option.bind_eq_some_iff] at hd
  obtain ⟨p, hp, hd⟩ := hd
  unfold storageDelta at hd
  split at hd
  · rename_i hpos
    cases hd
    exact ⟨p, hp, rfl, hpos⟩
  · cases hd

@[simp] theorem ptr_commitAt (h : Hook) (tag user : String) (d : ℤ × ℤ) : (h.commitAt tag user d).ptr = h.ptr := by
  unfold commitAt
  split <;> rfl

theorem storage_commitAt (h : Hook) (tag user : String) (d : ℤ × ℤ) (tag' user' : String) :
    (h.commitAt tag user d).storage tag' user' =
      if (tag' = tag ∧ user' = user) ∧ (h.ptr tag' user').isSome then (h.storage tag' user').commit d
      else h.storage tag' user' := by
  unfold commitAt
  rcases hp : h.ptr tag user with _ | p
  · rw [if_neg]
    rintro ⟨⟨rfl, rfl⟩, hsome⟩
    rw [hp] at hsome
    cases hsome
  · show (h.update p (·.commit d)).storage tag' user' = _
    rw [storage_update hp]
    by_cases he : tag' = tag ∧ user' = user
    · obtain ⟨rfl, rfl⟩ := he
      simp [hp]
    · simp [he]

theorem ptr_commitUsers (h : Hook) (tag : String) (l : List ((_ : String) × ℤ × ℤ)) :
    (l.foldl (fun h u => h.commitAt tag u.1 u.2) h).ptr = h.ptr :=
  List.foldlRecOn (motive := fun k : Hook => k.ptr = h.ptr) l _ rfl fun k hk u _ => by rw [ptr_commitAt, hk]

@[simp] theorem ptr_commitSnapshot (h : Hook) (snapshot : Delta) : (h.commitSnapshot snapshot).ptr = h.ptr :=
  List.foldlRecOn (motive := fun k : Hook => k.ptr = h.ptr) snapshot.entries _ rfl
    fun k hk e _ => by rw [ptr_commitUsers, hk]

theorem length_commitAt (h : Hook) (tag user : String) (d : ℤ × ℤ) :
    (h.commitAt tag user d).heap.length = h.heap.length := by
  unfold commitAt
  split
  · exact List.length_modify _ _ _
  · rfl

theorem length_commitSnapshot (h : Hook) (snapshot : Delta) :
    (h.commitSnapshot snapshot).heap.length = h.heap.length := by
  refine List.foldlRecOn (motive := fun k : Hook => k.heap.length = h.heap.length) snapshot.entries _ rfl
    fun k hk e _ => ?_
  refine List.foldlRecOn (motive := fun k : Hook => k.heap.length = h.heap.length) e.2.entries _ hk
    fun k hk u _ => ?_
  rw [length_commitAt, hk]

@[simp] theorem counted_commitSnapshot (h : Hook) (snapshot : Delta) (tag user : String) :
    ((h.commitSnapshot snapshot).storage tag user).counted = (h.storage tag user).counted := by
  refine List.foldlRecOn (motive := fun k : Hook => (k.storage tag user).counted = (h.storage tag user).counted)
    snapshot.entries _ rfl fun k hk e _ => ?_
  refine List.foldlRecOn (motive := fun k : Hook => (k.storage tag user).counted = (h.storage tag user).counted)
    e.2.entries _ hk fun k hk u _ => ?_
  rw [storage_commitAt]
  split
  · exact hk
  · exact hk

/-- The inner loop adds to one key what its user has in the list, when the tag is the right one. -/
theorem committed_commitUsers {h : Hook} {tag user : String} (hp : (h.ptr tag user).isSome) (tag' : String)
    (l : List ((_ : String) × ℤ × ℤ)) :
    ((l.foldl (fun h u => h.commitAt tag' u.1 u.2) h).storage tag user).committed =
      (h.storage tag user).committed +
        if tag' = tag then (l.map fun u => if u.1 = user then u.2 else 0).sum else 0 := by
  have hgain := foldl_gain (fun (h : Hook) (u : (_ : String) × ℤ × ℤ) => h.commitAt tag' u.1 u.2)
    (fun k => k.ptr = h.ptr) (fun k => (k.storage tag user).committed)
    (fun u => if tag' = tag ∧ u.1 = user then u.2 else 0) l
    (fun k u _ hk => by rw [ptr_commitAt, hk])
    (fun k u _ hk => by
      rw [storage_commitAt, hk]
      by_cases he : tag' = tag ∧ u.1 = user
      · rw [if_pos ⟨⟨he.1.symm, he.2.symm⟩, hp⟩, if_pos he]; rfl
      · rw [if_neg (fun hc => he ⟨hc.1.1.symm, hc.1.2.symm⟩), if_neg he, add_zero])
    rfl
  rw [hgain]
  by_cases ht : tag' = tag
  · simp [ht]
  · simp [ht]

/-- **A commit adds to each key what the snapshot holds for it.** -/
theorem committed_commitSnapshot {h : Hook} {tag user : String} (hp : (h.ptr tag user).isSome) (snapshot : Delta) :
    ((h.commitSnapshot snapshot).storage tag user).committed =
      (h.storage tag user).committed + (lookup₂ snapshot tag user).getD 0 := by
  rw [← sum_entries₂]
  exact foldl_gain _ (fun k : Hook => k.ptr = h.ptr) (fun k => (k.storage tag user).committed) _
    snapshot.entries (fun k e _ hk => by rw [ptr_commitUsers, hk])
    (fun k e _ hk => committed_commitUsers (by rw [hk]; exact hp) e.1 e.2.entries) rfl

/-- A key the snapshot does not hold is left alone. -/
theorem storage_commitSnapshot_of_none {h : Hook} {tag user : String} {snapshot : Delta}
    (hs : lookup₂ snapshot tag user = none) :
    (h.commitSnapshot snapshot).storage tag user = h.storage tag user := by
  rcases hp : h.ptr tag user with _ | p
  · rw [storage_of_ptr_none hp, storage_of_ptr_none (by rw [ptr_commitSnapshot, hp])]
  · refine TrafficStorage.ext_of_counted (counted_commitSnapshot h snapshot tag user) ?_
    rw [committed_commitSnapshot (by rw [hp]; rfl), hs]
    exact add_zero _

/-- The same for a key that need not have a storage, when the snapshot holds keys with a storage only. -/
theorem committed_commitSnapshot_of {h : Hook} {tag user : String} {snapshot : Delta}
    (hs : ∀ d, lookup₂ snapshot tag user = some d → (h.ptr tag user).isSome) :
    ((h.commitSnapshot snapshot).storage tag user).committed =
      (h.storage tag user).committed + (lookup₂ snapshot tag user).getD 0 := by
  rcases hd : lookup₂ snapshot tag user with _ | d
  · rw [storage_commitSnapshot_of_none hd]
    exact (add_zero _).symm
  · rw [committed_commitSnapshot (hs d hd), hd]

/-- The snapshot of a key depends on its pointer and its storage only. -/
theorem lookup₂_snapshotDelta_congr {h h' : Hook} {tag user : String} (hp : h'.ptr tag user = h.ptr tag user)
    (hs : h'.storage tag user = h.storage tag user) :
    lookup₂ h'.snapshotDelta tag user = lookup₂ h.snapshotDelta tag user := by
  rw [lookup₂_snapshotDelta, lookup₂_snapshotDelta, hp]
  rcases hq : h.ptr tag user with _ | q
  · rfl
  · rw [storage_of_ptr hq, storage_of_ptr (hp.trans hq)] at hs
    rw [Option.bind_some, Option.bind_some, hs]

/-! ### Pruning -/

/-- `RemoveAbsent` on every counter: a user that is not active is dropped when all it counted is committed. -/
def removeAbsent (h : Hook) (active : GoMap String Unit) : Hook where
  byInbound := prune₂ (fun _ user p => decide (user ∈ active ∨ ¬ (h.deref p).Settled)) h.byInbound
  heap := h.heap
  valid hp := h.valid (lookup₂_of_prune₂ hp).1
  inj h1 h2 := h.inj (lookup₂_of_prune₂ h1).1 (lookup₂_of_prune₂ h2).1

@[simp] theorem deref_removeAbsent (h : Hook) (active : GoMap String Unit) :
    (h.removeAbsent active).deref = h.deref := rfl

theorem ptr_removeAbsent (h : Hook) (active : GoMap String Unit) (tag user : String) :
    (h.removeAbsent active).ptr tag user =
      (h.ptr tag user).bind fun p => if user ∈ active ∨ ¬ (h.deref p).Settled then some p else none := by
  unfold ptr removeAbsent
  rw [lookup₂_prune₂]
  simp only [decide_eq_true_eq]

/-- What is still stored after a pruning was stored before it, and what is not is settled. -/
theorem ptr_removeAbsent_cases (h : Hook) (active : GoMap String Unit) (tag user : String) :
    (h.removeAbsent active).ptr tag user = h.ptr tag user ∨
      (h.removeAbsent active).ptr tag user = none ∧ (h.storage tag user).Settled := by
  rw [ptr_removeAbsent]
  rcases hp : h.ptr tag user with _ | p
  · exact Or.inl rfl
  · rw [storage_of_ptr hp, Option.bind_some]
    by_cases hkeep : user ∈ active ∨ ¬ (h.deref p).Settled
    · exact Or.inl (if_pos hkeep)
    · push Not at hkeep
      exact Or.inr ⟨if_neg (by tauto), hkeep.2⟩

/-- Pruning changes what no key has pending. -/
theorem pending_removeAbsent (h : Hook) (active : GoMap String Unit) (tag user : String) :
    ((h.removeAbsent active).storage tag user).pending = (h.storage tag user).pending := by
  rcases ptr_removeAbsent_cases h active tag user with hp | ⟨hp, hset⟩
  · rcases hq : h.ptr tag user with _ | q
    · rw [storage_of_ptr_none hq, storage_of_ptr_none (hp.trans hq)]
    · rw [storage_of_ptr hq, storage_of_ptr (hp.trans hq), deref_removeAbsent]
  · rw [storage_of_ptr_none hp, (TrafficStorage.settled_iff _).1 hset]
    rfl

end Hook

end MiniSbAgent.Counter
