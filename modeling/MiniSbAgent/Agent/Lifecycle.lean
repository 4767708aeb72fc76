import MiniSbAgent.Agent.UserManager

/-!
# The life of a user's limiters

A connection takes the limiters of its user when it opens and keeps the pointers, so what matters about a limiter is
what happens to its allocation: who may still reach it through `m.limiters`, and whether it is closed.  `SetRate` can
open a limiter again, and only reachability keeps it from doing so.

* `LimiterTable.Sound` — every pair that is reachable is open, and every other pair but the node's is closed;
* `LimiterTable.Grows` — what a commit can do to the addresses: nothing that was dropped comes back;
* `LimiterInv` — the pairs of the manager are those of its users, at their rates;
* `limiter_lifecycle` — both over all runs of the two apply paths, with traffic on any limiter in between.
-/

namespace MiniSbAgent.Agent

open MiniSbAgent.Go MiniSbAgent.Counter MiniSbAgent.Panelapi

/-! ### One pair -/

namespace LimiterPair

def get (p : LimiterPair) : Direction → RateLimiter
  | .rx => p.rx
  | .tx => p.tx

def set (p : LimiterPair) (l : RateLimiter) : Direction → LimiterPair
  | .rx => { p with rx := l }
  | .tx => { p with tx := l }

def IsOpen (p : LimiterPair) : Prop := ∀ d, (p.get d).closed = false

def IsClosed (p : LimiterPair) : Prop := ∀ d, (p.get d).closed = true

def HasRate (p : LimiterPair) (r : ℤ) : Prop := ∀ d, (p.get d).rate = r

variable {p : LimiterPair}

theorem get_set (l : RateLimiter) (d d' : Direction) : (p.set l d).get d' = if d' = d then l else p.get d' := by
  cases d <;> cases d' <;> rfl

theorem isClosed_close (p : LimiterPair) : p.close.IsClosed := by
  intro d
  cases d <;> rfl

theorem IsOpen.setRate (h : p.IsOpen) (now : Direction → ℚ) (r : ℤ) :
    (p.setRate now r).IsOpen ∧ (p.setRate now r).HasRate r := by
  have hkeep : ∀ d, ((p.setRate now r).get d).closed = false ∧ ((p.setRate now r).get d).rate = r := by
    intro d
    cases d with
    | rx => exact RateLimiter.setRate_keeps (h .rx) (now .rx) r
    | tx => exact RateLimiter.setRate_keeps (h .tx) (now .tx) r
  exact ⟨fun d => (hkeep d).1, fun d => (hkeep d).2⟩

/-- A new pair is an open one whose rate has been set. -/
theorem isOpen_newLimiterPair (now : Direction → ℚ) (r : ℤ) :
    (newLimiterPair now r).IsOpen ∧ (newLimiterPair now r).HasRate r := by
  have hopen : (⟨{ last := some (now .rx) }, { last := some (now .tx) }⟩ : LimiterPair).IsOpen := by
    intro d
    cases d <;> rfl
  exact hopen.setRate now r

/-- Traffic on one limiter of a pair. -/
theorem get_set_keeps {l : RateLimiter} {d : Direction}
    (hl : l.closed = (p.get d).closed ∧ l.rate = (p.get d).rate) (d' : Direction) :
    ((p.set l d).get d').closed = (p.get d').closed ∧ ((p.set l d).get d').rate = (p.get d').rate := by
  rw [get_set]
  split
  · rename_i hd
    rw [hd]
    exact hl
  · exact ⟨rfl, rfl⟩

end LimiterPair

/-! ### The allocations -/

namespace LimiterTable

/-- The pair at an address is out of reach: it is neither the node's nor any user's. -/
def Dead (t : LimiterTable) (a : ℕ) : Prop :=
  a < t.heap.length ∧ t.nodeLimit ≠ some a ∧ ∀ id, t.limiters.lookup id ≠ some a

/-- **What a limiter's reachability says about it.** -/
structure Sound (t : LimiterTable) : Prop where
  live : ∀ id a p, t.limiters.lookup id = some a → t.heap[a]? = some p → p.IsOpen
  dead : ∀ a p, t.Dead a → t.heap[a]? = some p → p.IsClosed

/-- **What can become of the addresses.** A pair that a user has afterwards the user had before, or it is new. -/
structure Grows (t t' : LimiterTable) : Prop where
  length : t.heap.length ≤ t'.heap.length
  node : t'.nodeLimit = t.nodeLimit
  limiters : ∀ id a, t'.limiters.lookup id = some a → t.limiters.lookup id = some a ∨ t.heap.length ≤ a

theorem Grows.refl (t : LimiterTable) : t.Grows t := ⟨le_rfl, rfl, fun _ _ h => Or.inl h⟩

theorem Grows.trans {t t' t'' : LimiterTable} (h : t.Grows t') (h' : t'.Grows t'') : t.Grows t'' := by
  refine ⟨h.length.trans h'.length, h'.node.trans h.node, fun id a hl => ?_⟩
  rcases h'.limiters id a hl with hl | hl
  · exact h.limiters id a hl
  · exact Or.inr (h.length.trans hl)

/-- A pair that is out of reach stays out of reach. -/
theorem Grows.dead {t t' : LimiterTable} (h : t.Grows t') {a : ℕ} (ha : t.Dead a) : t'.Dead a := by
  obtain ⟨hlt, hnode, huser⟩ := ha
  refine ⟨lt_of_lt_of_le hlt h.length, h.node ▸ hnode, fun id hl => ?_⟩
  rcases h.limiters id a hl with hl | hl
  · exact huser id hl
  · omega

theorem exists_pair (t : LimiterTable) {id : ℤ} {a : ℕ} (h : t.limiters.lookup id = some a) :
    ∃ p, t.heap[a]? = some p :=
  ⟨_, List.getElem?_eq_getElem (t.lt id a h)⟩

/-! #### Closing the pair of a user -/

theorem heap_closeLimiterLocked (t : LimiterTable) (id : ℤ) (b : ℕ) :
    (t.closeLimiterLocked id).heap[b]? =
      if t.limiters.lookup id = some b then (t.heap[b]?).map LimiterPair.close else t.heap[b]? := by
  unfold closeLimiterLocked
  rcases h : t.limiters.lookup id with _ | a
  · rw [if_neg (by simp)]
  · show (t.heap.modify a LimiterPair.close)[b]? = _
    rw [List.getElem?_modify]
    simp only [Option.some.injEq]
    split <;> simp

theorem grows_closeLimiterLocked (t : LimiterTable) (id : ℤ) : t.Grows (t.closeLimiterLocked id) := by
  refine ⟨?_, ?_, fun i a h => Or.inl ?_⟩
  · unfold closeLimiterLocked
    split
    · exact (List.length_modify _ _ _).ge
    · exact le_rfl
  · unfold closeLimiterLocked
    split <;> rfl
  · rw [lookup_closeLimiterLocked] at h
    split at h
    · cases h
    · exact h

theorem Sound.closeLimiterLocked {t : LimiterTable} (ht : t.Sound) (id : ℤ) : (t.closeLimiterLocked id).Sound := by
  refine ⟨fun i a p hl hp => ?_, fun a p hd hp => ?_⟩
  · -- a user that keeps its pair is another one, so the pair is another one
    rw [lookup_closeLimiterLocked] at hl
    split at hl
    · cases hl
    · rename_i hne
      rw [heap_closeLimiterLocked, if_neg (fun h => hne (t.inj i id a hl h))] at hp
      exact ht.live i a p hl hp
  · rw [heap_closeLimiterLocked] at hp
    split at hp
    · obtain ⟨q, -, rfl⟩ := Option.map_eq_some_iff.1 hp
      exact q.isClosed_close
    · rename_i hne
      refine ht.dead a p ⟨(List.getElem?_eq_some_iff.1 hp).1, ?_, fun i hl => ?_⟩ hp
      · rw [← (t.grows_closeLimiterLocked id).node]
        exact hd.2.1
      · have hi : i ≠ id := fun h => hne (h ▸ hl)
        refine hd.2.2 i ?_
        rw [lookup_closeLimiterLocked, if_neg hi, hl]

/-! #### Updating the pair of a user -/

variable (clock : Clock)

theorem lookup_updateLimiterLocked (t : LimiterTable) (u : User) (i : ℤ) :
    (t.updateLimiterLocked true clock u).limiters.lookup i =
      if i = u.id then some ((t.limiters.lookup u.id).getD t.heap.length) else t.limiters.lookup i := by
  unfold updateLimiterLocked
  rw [if_pos rfl]
  rcases h : t.limiters.lookup u.id with _ | a
  · exact lookup_insert_of _ _ _ _
  · show t.limiters.lookup i = _
    split
    · rename_i hi
      rw [hi, h]
      rfl
    · rfl

/-- Only the pair of the user changes, and it is open at the user's rate afterwards. -/
theorem heap_updateLimiterLocked {t : LimiterTable} (ht : t.Sound) (u : User) {b : ℕ} {p : LimiterPair}
    (hp : (t.updateLimiterLocked true clock u).heap[b]? = some p) :
    ((t.updateLimiterLocked true clock u).limiters.lookup u.id = some b ∧ p.IsOpen ∧
        p.HasRate (mbpsToBytes u.speedLimit)) ∨
      ((t.updateLimiterLocked true clock u).limiters.lookup u.id ≠ some b ∧ t.heap[b]? = some p) := by
  rw [lookup_updateLimiterLocked, if_pos rfl]
  unfold updateLimiterLocked at hp
  rw [if_pos rfl] at hp
  rcases h : t.limiters.lookup u.id with _ | a
  · simp only [h] at hp
    replace hp : (t.heap ++ [newLimiterPair (clock t.heap.length) (mbpsToBytes u.speedLimit)])[b]? = some p := hp
    rw [List.getElem?_append] at hp
    simp only [Option.getD_none, Option.some.injEq, ne_eq]
    split at hp
    · exact Or.inr ⟨by omega, hp⟩
    · left
      rw [List.getElem?_singleton] at hp
      split at hp
      · cases hp
        exact ⟨by omega, LimiterPair.isOpen_newLimiterPair _ _⟩
      · cases hp
  · simp only [h] at hp
    replace hp : (t.heap.modify a fun p => p.setRate (clock a) (mbpsToBytes u.speedLimit))[b]? = some p := hp
    rw [List.getElem?_modify] at hp
    simp only [Option.getD_some, Option.some.injEq, ne_eq]
    by_cases hab : a = b
    · left
      simp only [hab, if_true, Option.map_eq_map] at hp
      obtain ⟨q, hq, rfl⟩ := Option.map_eq_some_iff.1 hp
      exact ⟨hab, (ht.live u.id a q h (hab ▸ hq)).setRate _ _⟩
    · refine Or.inr ⟨hab, ?_⟩
      simpa [hab] using hp

theorem grows_updateLimiterLocked (t : LimiterTable) (u : User) :
    t.Grows (t.updateLimiterLocked true clock u) := by
  refine ⟨?_, ?_, fun i a h => ?_⟩
  · unfold updateLimiterLocked
    rw [if_pos rfl]
    split
    · exact (List.length_modify _ _ _).ge
    · exact (List.length_append ▸ Nat.le_add_right _ _ :
        t.heap.length ≤ (t.heap ++ [newLimiterPair (clock t.heap.length) (mbpsToBytes u.speedLimit)]).length)
  · unfold updateLimiterLocked
    rw [if_pos rfl]
    split <;> rfl
  · rw [lookup_updateLimiterLocked] at h
    split at h
    · rename_i hi
      rcases hl : t.limiters.lookup u.id with _ | b
      · rw [hl] at h
        cases h
        exact Or.inr le_rfl
      · rw [hl] at h
        cases h
        exact Or.inl (hi ▸ hl)
    · exact Or.inl h

theorem Sound.updateLimiterLocked {t : LimiterTable} (ht : t.Sound) (u : User) :
    (t.updateLimiterLocked true clock u).Sound := by
  refine ⟨fun i a p hl hp => ?_, fun a p hd hp => ?_⟩
  · rcases heap_updateLimiterLocked clock ht u hp with ⟨-, hopen, -⟩ | ⟨hne, hp⟩
    · exact hopen
    · rw [lookup_updateLimiterLocked] at hl hne
      split at hl
      · rw [if_pos rfl] at hne
        exact absurd hl hne
      · exact ht.live i a p hl hp
  · rcases heap_updateLimiterLocked clock ht u hp with ⟨hl, -, -⟩ | ⟨hne, hp⟩
    · exact absurd hl (hd.2.2 _)
    · refine ht.dead a p ⟨(List.getElem?_eq_some_iff.1 hp).1, ?_, fun i hl => ?_⟩ hp
      · rw [← (t.grows_updateLimiterLocked clock u).node]
        exact hd.2.1
      · by_cases hi : i = u.id
        · refine hne ?_
          rw [lookup_updateLimiterLocked, if_pos rfl, ← hi, hl]
          rfl
        · refine hd.2.2 i ?_
          rw [lookup_updateLimiterLocked, if_neg hi, hl]

/-! #### The two loops of a commit -/

/-- A user that the update loop passes by keeps the pair, and the pair its value. -/
theorem update_loop_frame (es : List ((_ : ℤ) × User)) {t : LimiterTable} (ht : t.Sound) {i : ℤ} {a : ℕ}
    {p : LimiterPair} (hi : ∀ e ∈ es, e.2.id ≠ i) (hl : t.limiters.lookup i = some a) (hp : t.heap[a]? = some p) :
    (es.foldl (fun t e => t.updateLimiterLocked true clock e.2) t).heap[a]? = some p := by
  induction es generalizing t with
  | nil => exact hp
  | cons e es ih =>
    have hne : i ≠ e.2.id := fun h => hi e List.mem_cons_self h.symm
    have hl' : (t.updateLimiterLocked true clock e.2).limiters.lookup i = some a := by
      rw [lookup_updateLimiterLocked, if_neg hne, hl]
    obtain ⟨q, hq⟩ := exists_pair _ hl'
    refine ih (ht.updateLimiterLocked clock e.2) (fun e' he' => hi e' (List.mem_cons_of_mem _ he')) hl' ?_
    rcases heap_updateLimiterLocked clock ht e.2 hq with ⟨h, -, -⟩ | ⟨-, h⟩
    · exact absurd (LimiterTable.inj _ _ _ _ hl' h) hne
    · rw [hq, ← h, hp]

/-- A pair that exists is not moved by the update loop. -/
theorem lookup_update_loop (es : List ((_ : ℤ) × User)) (t : LimiterTable) {i : ℤ} {a : ℕ}
    (hl : t.limiters.lookup i = some a) :
    (es.foldl (fun t e => t.updateLimiterLocked true clock e.2) t).limiters.lookup i = some a := by
  induction es generalizing t with
  | nil => exact hl
  | cons e es ih =>
    refine ih _ ?_
    rw [lookup_updateLimiterLocked]
    split
    · rename_i hi
      rw [← hi, hl]
      rfl
    · exact hl

/-- Every user of the update loop has its rate afterwards. -/
theorem rate_update_loop (es : List ((_ : ℤ) × User)) {t : LimiterTable} (ht : t.Sound)
    (hn : (es.map fun e => e.2.id).Nodup) {e : (_ : ℤ) × User} (he : e ∈ es) :
    ∃ a p, (es.foldl (fun t e => t.updateLimiterLocked true clock e.2) t).limiters.lookup e.2.id = some a ∧
      (es.foldl (fun t e => t.updateLimiterLocked true clock e.2) t).heap[a]? = some p ∧
      p.HasRate (mbpsToBytes e.2.speedLimit) := by
  induction es generalizing t with
  | nil => cases he
  | cons f es ih =>
    rw [List.map_cons, List.nodup_cons] at hn
    rcases List.mem_cons.1 he with rfl | he
    · have hl := lookup_updateLimiterLocked clock t e.2 e.2.id
      rw [if_pos rfl] at hl
      obtain ⟨p, hp⟩ := exists_pair _ hl
      have hother : ∀ f ∈ es, f.2.id ≠ e.2.id := fun f hf h => hn.1 (List.mem_map.2 ⟨f, hf, h⟩)
      refine ⟨_, p, lookup_update_loop clock es _ hl,
        update_loop_frame clock es (ht.updateLimiterLocked clock e.2) hother hl hp, ?_⟩
      rcases heap_updateLimiterLocked clock ht e.2 hp with ⟨-, -, hrate⟩ | ⟨hne, -⟩
      · exact hrate
      · exact absurd hl hne
    · exact ih (ht.updateLimiterLocked clock f.2) hn.2 he

section Refresh

variable (oClose : RangeOrder ((_ : ℤ) × ℕ)) (oUpdate : RangeOrder ((_ : ℤ) × User)) (t : LimiterTable)
  (users : GoMap ℤ User)

/-- The table between the two loops. -/
def afterClose : LimiterTable :=
  (oClose.visit t.limiters.entries).foldl (fun t e => if e.1 ∈ users then t else t.closeLimiterLocked e.1) t

theorem refresh_eq : t.refresh true clock oClose oUpdate users =
    (oUpdate.visit users.entries).foldl (fun t e => t.updateLimiterLocked true clock e.2)
      (t.afterClose oClose users) := rfl

theorem grows_refresh : t.Grows (t.refresh true clock oClose oUpdate users) := by
  rw [refresh_eq]
  refine List.foldlRecOn (motive := t.Grows) _ _ ?_ fun t' ht' e _ => ht'.trans (grows_updateLimiterLocked clock t' e.2)
  refine List.foldlRecOn (motive := t.Grows) _ _ (Grows.refl t) fun t' ht' e _ => ?_
  split
  · exact ht'
  · exact ht'.trans (t'.grows_closeLimiterLocked e.1)

variable {t}

theorem Sound.afterClose (ht : t.Sound) : (t.afterClose oClose users).Sound := by
  refine List.foldlRecOn (motive := Sound) _ _ ht fun t' ht' e _ => ?_
  split
  · exact ht'
  · exact ht'.closeLimiterLocked e.1

theorem Sound.refresh (ht : t.Sound) : (t.refresh true clock oClose oUpdate users).Sound := by
  rw [refresh_eq]
  exact List.foldlRecOn (motive := Sound) _ _ (ht.afterClose oClose users) fun t' ht' e _ =>
    ht'.updateLimiterLocked clock e.2

variable {users}

/-- A user that is in the commit keeps the pair it had. -/
theorem lookup_refresh {i : ℤ} {a : ℕ} (hi : i ∈ users) (hl : t.limiters.lookup i = some a) :
    (t.refresh true clock oClose oUpdate users).limiters.lookup i = some a := by
  rw [refresh_eq]
  refine lookup_update_loop clock _ _ ?_
  unfold LimiterTable.afterClose
  rw [lookup_close_loop, if_neg (fun h => h.1 hi), hl]

/-- Each user of the commit has a pair at its rate. -/
theorem rate_refresh (ht : t.Sound) (hk : Keyed users) {i : ℤ} {u : User} (hu : users.lookup i = some u) :
    ∃ a p, (t.refresh true clock oClose oUpdate users).limiters.lookup i = some a ∧
      (t.refresh true clock oClose oUpdate users).heap[a]? = some p ∧ p.HasRate (mbpsToBytes u.speedLimit) := by
  have hids : ((oUpdate.visit users.entries).map fun e => e.2.id) = (oUpdate.visit users.entries).map Sigma.fst := by
    refine List.map_congr_left fun e he => ?_
    exact (hk e.1 e.2 ((mem_range_iff oUpdate users).1 he)).1
  have hn : ((oUpdate.visit users.entries).map fun e => e.2.id).Nodup := hids ▸ nodup_range_keys oUpdate users
  have h := rate_update_loop clock _ (ht.afterClose oClose users) hn ((mem_range_iff oUpdate users).2 hu)
  rw [show (⟨i, u⟩ : (_ : ℤ) × User).2.id = i from (hk i u hu).1] at h
  exact h

/-- The pair of a user that is not in the commit goes out of reach. -/
theorem dead_refresh (hk : Keyed users) {i : ℤ} {a : ℕ} (hi : i ∉ users) (hl : t.limiters.lookup i = some a) :
    (t.refresh true clock oClose oUpdate users).Dead a := by
  have hg := grows_refresh clock oClose oUpdate t users
  refine ⟨lt_of_lt_of_le (t.lt i a hl) hg.length, hg.node ▸ t.not_node i a hl, fun j hj => ?_⟩
  rcases hg.limiters j a hj with h | h
  · -- the pair belongs to one user only, and that one is not in the commit
    rw [t.inj j i a h hl] at hj
    refine hi ((mem_limiters_refresh clock oClose oUpdate t hk i).1 ?_)
    rw [← AList.lookup_isSome, hj]
    rfl
  · exact absurd (t.lt i a hl) (not_lt.2 h)

end Refresh

end LimiterTable

/-! ### Runs of the manager -/

/-- What can happen to the limiters: an apply call, or a connection that uses a limiter it has a pointer to. -/
inductive LimiterEvent
  | apply (call : ApplyCall)
  | allow (l : LimiterPtr) (now : ℚ) (n : ℤ)
  | reserve (l : LimiterPtr) (now : ℚ) (n : ℤ)

namespace UserManager

/-- The limiter behind a pointer. -/
def limiter (m : UserManager) (l : LimiterPtr) : Option RateLimiter := (m.heap[l.pair]?).map (·.get l.dir)

/-- The limiter behind a pointer changes. -/
def touch (m : UserManager) (l : LimiterPtr) (f : RateLimiter → RateLimiter) : UserManager :=
  { m.toLimiterTable.modify l.pair fun p => p.set (f (p.get l.dir)) l.dir with
    users := m.users, bySecret := m.bySecret, byInbound := m.byInbound }

/-- One event in the user-limit build. -/
def event (m : UserManager) : LimiterEvent → UserManager
  | .apply call => m.call true call
  | .allow l now n => m.touch l fun r => (r.Allow now n).1
  | .reserve l now n => m.touch l fun r => (r.reserve now n).1

def events (m : UserManager) (es : List LimiterEvent) : UserManager := es.foldl event m

/-- Traffic leaves the addresses alone, and every limiter at its rate and as open or closed as it was. -/
theorem heap_touch (m : UserManager) (l : LimiterPtr) {f : RateLimiter → RateLimiter}
    (hf : ∀ r, (f r).closed = r.closed ∧ (f r).rate = r.rate) {a : ℕ} {p : LimiterPair}
    (hp : (m.touch l f).heap[a]? = some p) :
    ∃ q, m.heap[a]? = some q ∧ ∀ d, (p.get d).closed = (q.get d).closed ∧ (p.get d).rate = (q.get d).rate := by
  replace hp : (m.heap.modify l.pair fun p => p.set (f (p.get l.dir)) l.dir)[a]? = some p := hp
  rw [List.getElem?_modify, Option.map_eq_map] at hp
  obtain ⟨q, hq, rfl⟩ := Option.map_eq_some_iff.1 hp
  refine ⟨q, hq, fun d => ?_⟩
  split
  · exact LimiterPair.get_set_keeps (hf _) d
  · exact ⟨rfl, rfl⟩

/-- An event that is not a call. -/
theorem event_cases (m : UserManager) (e : LimiterEvent) :
    (∃ c, m.event e = m.call true c) ∨
      ∃ l f, m.event e = m.touch l f ∧ ∀ r : RateLimiter, (f r).closed = r.closed ∧ (f r).rate = r.rate := by
  cases e with
  | apply c => exact Or.inl ⟨c, rfl⟩
  | allow l now n => exact Or.inr ⟨l, _, rfl, fun r => RateLimiter.Allow_keeps now n⟩
  | reserve l now n => exact Or.inr ⟨l, _, rfl, fun r => RateLimiter.reserve_keeps now n⟩

theorem grows_call (m : UserManager) (c : ApplyCall) :
    m.toLimiterTable.Grows (m.call true c).toLimiterTable := by
  rw [(m.call_spec true c).2.2]
  exact LimiterTable.grows_refresh _ _ _ _ _

theorem grows_event (m : UserManager) (e : LimiterEvent) : m.toLimiterTable.Grows (m.event e).toLimiterTable := by
  rcases m.event_cases e with ⟨c, heq⟩ | ⟨l, f, heq, -⟩
  · rw [heq]
    exact m.grows_call c
  · rw [heq]
    exact ⟨(List.length_modify _ _ _).ge, rfl, fun _ _ h => Or.inl h⟩

theorem grows_events (m : UserManager) (es : List LimiterEvent) :
    m.toLimiterTable.Grows (m.events es).toLimiterTable :=
  List.foldlRecOn (motive := fun m' : UserManager => m.toLimiterTable.Grows m'.toLimiterTable) es event
    (LimiterTable.Grows.refl _) fun m' h e _ => h.trans (m'.grows_event e)

/-- **What holds of the limiters at all times.** -/
structure LimiterInv (m : UserManager) : Prop where
  sound : m.toLimiterTable.Sound
  keys : ∀ id, id ∈ m.limiters ↔ id ∈ m.users
  rate : ∀ id u a p, m.users.lookup id = some u → m.limiters.lookup id = some a → m.heap[a]? = some p →
    p.HasRate (mbpsToBytes u.speedLimit)

theorem limiterInv_new (now : Direction → ℚ) (nodeMbps : ℤ) : LimiterInv (new now nodeMbps) := by
  have hnone : ∀ id, (new now nodeMbps).limiters.lookup id = none := by
    intro id
    unfold new LimiterTable.new
    split <;> rfl
  refine ⟨⟨fun id a p hl => ?_, fun a p hd => ?_⟩, fun id => ?_, fun id u a p hu => ?_⟩
  · rw [hnone] at hl
    cases hl
  · -- the only pair is the node's
    intro _
    obtain ⟨hlt, hnode, -⟩ := hd
    unfold new LimiterTable.new at hlt hnode
    split at hlt
    · rename_i hpos
      rw [if_pos hpos] at hnode
      have ha : a = 0 := Nat.lt_one_iff.1 hlt
      exact absurd (by rw [ha]) hnode
    · exact absurd hlt (Nat.not_lt_zero a)
  · rw [← AList.lookup_isSome, hnone]
    exact ⟨fun h => (nomatch h), fun h => absurd h (AList.notMem_empty id)⟩
  · exact absurd hu (by rw [show (new now nodeMbps).users = ∅ from rfl]; exact nofun)

theorem LimiterInv.call {m : UserManager} (hm : LimiterInv m) (c : ApplyCall) : LimiterInv (m.call true c) := by
  obtain ⟨husers, -, htable⟩ := m.call_spec true c
  have hk := c.args.keyed_union c.orders
  refine ⟨htable ▸ hm.sound.refresh _ _ _ _, fun id => ?_, fun id u a p hu hl hp => ?_⟩
  · rw [husers, htable]
    exact LimiterTable.mem_limiters_refresh _ _ _ _ hk id
  · rw [husers] at hu
    rw [htable] at hl hp
    obtain ⟨a', p', hl', hp', hrate⟩ :=
      LimiterTable.rate_refresh c.clock c.orders.limiters c.orders.users hm.sound hk hu
    rw [hl'] at hl
    cases hl
    rw [hp'] at hp
    cases hp
    exact hrate

theorem LimiterInv.touch {m : UserManager} (hm : LimiterInv m) (l : LimiterPtr) {f : RateLimiter → RateLimiter}
    (hf : ∀ r, (f r).closed = r.closed ∧ (f r).rate = r.rate) : LimiterInv (m.touch l f) := by
  refine ⟨⟨fun id a p hl hp d => ?_, fun a p hd hp d => ?_⟩, hm.keys, fun id u a p hu hl hp d => ?_⟩
  · obtain ⟨q, hq, hsame⟩ := m.heap_touch l hf hp
    rw [(hsame d).1]
    exact hm.sound.live id a q hl hq d
  · obtain ⟨q, hq, hsame⟩ := m.heap_touch l hf hp
    have hlt : a < m.heap.length := (List.getElem?_eq_some_iff.1 hq).1
    rw [(hsame d).1]
    exact hm.sound.dead a q ⟨hlt, hd.2⟩ hq d
  · obtain ⟨q, hq, hsame⟩ := m.heap_touch l hf hp
    rw [(hsame d).2]
    exact hm.rate id u a q hu hl hq d

theorem LimiterInv.event {m : UserManager} (hm : LimiterInv m) (e : LimiterEvent) : LimiterInv (m.event e) := by
  rcases m.event_cases e with ⟨c, heq⟩ | ⟨l, f, heq, hf⟩
  · rw [heq]
    exact hm.call c
  · rw [heq]
    exact hm.touch l hf

theorem LimiterInv.events {m : UserManager} (hm : LimiterInv m) (es : List LimiterEvent) :
    LimiterInv (m.events es) :=
  List.foldlRecOn (motive := LimiterInv) es UserManager.event hm fun _ h e _ => h.event e

/-- A pair out of reach is closed in both directions. -/
theorem LimiterInv.limiter_of_dead {m : UserManager} (hm : LimiterInv m) {a : ℕ} (ha : m.toLimiterTable.Dead a)
    (d : Direction) : ∃ l, m.limiter ⟨a, d⟩ = some l ∧ l.closed = true := by
  obtain ⟨p, hp⟩ : ∃ p, m.heap[a]? = some p := ⟨_, List.getElem?_eq_getElem ha.1⟩
  refine ⟨p.get d, ?_, hm.sound.dead a p ha hp d⟩
  unfold limiter
  rw [hp]
  rfl

/-- **The life of a limiter pair.** Take any run of apply calls, with traffic on any limiters in between, and one more
call:

* the users of the manager are those of the lists it is given, and exactly they have limiters;
* these are open, at the rate of the user's speed limit;
* a user that was there after the last call, and still is, has the very same pair;
* the pair of a user that is no longer there is closed in every later state, no user is ever given it again, and
  whoever asks it for bytes, or waits for it from now on, gets `ErrLimiterClosed`. -/
theorem limiter_lifecycle (now : Direction → ℚ) (nodeMbps : ℤ) (before : List LimiterEvent) (c : ApplyCall) :
    let m := (new now nodeMbps).events before
    let m' := m.call true c
    (∀ id, id ∈ m'.users ↔ 0 < id ∧ ∃ users, c.args.Gives users ∧ ∃ u ∈ users, u.id = id) ∧
    (∀ id, id ∈ m'.limiters ↔ id ∈ m'.users) ∧
    (∀ id u, m'.users.lookup id = some u → ∃ a, m'.limiters.lookup id = some a ∧
      ∀ d, ∃ l, m'.limiter ⟨a, d⟩ = some l ∧ l.closed = false ∧ l.rate = mbpsToBytes u.speedLimit) ∧
    (∀ id, id ∈ m.users → id ∈ m'.users → m'.limiters.lookup id = m.limiters.lookup id) ∧
    (∀ id a, m.limiters.lookup id = some a → id ∉ m'.users →
      (∀ later d, ∃ l, (m'.events later).limiter ⟨a, d⟩ = some l ∧ l.closed = true ∧
        ∀ t n, 0 < n → (l.Allow t n).2 = .error .closed) ∧
      (∀ later i, (m'.events later).limiters.lookup i ≠ some a) ∧
      (∀ d (see : ℕ → RateLimiter × ℚ), (∀ k, ∃ later, (m'.events later).limiter ⟨a, d⟩ = some (see k).1) →
        ∀ n, 0 < n → RateLimiter.Wait see n = .error .closed)) := by
  intro m m'
  have hm : LimiterInv m := (limiterInv_new now nodeMbps).events before
  have hm' : LimiterInv m' := hm.call c
  obtain ⟨husers, -, htable⟩ := m.call_spec true c
  have hk := c.args.keyed_union c.orders
  refine ⟨fun id => husers ▸ c.args.mem_union c.orders, hm'.keys, fun id u hu => ?_, fun id hid hid' => ?_,
    fun id a hl hid => ?_⟩
  · have hmem : id ∈ m'.limiters := (hm'.keys id).2 (AList.lookup_isSome.1 (by rw [hu]; rfl))
    obtain ⟨a, ha⟩ := Option.isSome_iff_exists.1 (AList.lookup_isSome.2 hmem)
    obtain ⟨p, hp⟩ := m'.exists_pair ha
    refine ⟨a, ha, fun d => ⟨p.get d, ?_, hm'.sound.live id a p ha hp d, hm'.rate id u a p hu ha hp d⟩⟩
    unfold limiter
    rw [hp]
    rfl
  · obtain ⟨a, ha⟩ := Option.isSome_iff_exists.1 (AList.lookup_isSome.2 ((hm.keys id).2 hid))
    have hkeep := LimiterTable.lookup_refresh c.clock c.orders.limiters c.orders.users (husers ▸ hid') ha
    rw [ha, ← hkeep, ← htable]
  · have hdead : ∀ later, (m'.events later).toLimiterTable.Dead a := by
      intro later
      refine (m'.grows_events later).dead ?_
      have := LimiterTable.dead_refresh c.clock c.orders.limiters c.orders.users hk (husers ▸ hid) hl
      rwa [← htable] at this
    refine ⟨fun later d => ?_, fun later i => (hdead later).2.2 i, fun d see hsee n hn => ?_⟩
    · obtain ⟨l, hl, hclosed⟩ := (hm'.events later).limiter_of_dead (hdead later) d
      exact ⟨l, hl, hclosed, fun t n hn => RateLimiter.Allow_of_closed hclosed t hn⟩
    · refine RateLimiter.Wait_of_closed (fun k => ?_) hn
      obtain ⟨later, hlater⟩ := hsee k
      obtain ⟨l, hl, hclosed⟩ := (hm'.events later).limiter_of_dead (hdead later) d
      rw [hlater] at hl
      cases hl
      exact hclosed

end UserManager

end MiniSbAgent.Agent
