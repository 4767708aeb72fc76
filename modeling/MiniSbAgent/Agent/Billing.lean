import MiniSbAgent.Lib.Meter
import MiniSbAgent.Panelapi.Sync

/-!
# Billing in topology mode

The connections count bytes while the syncer flushes: it takes a snapshot, pushes it for one node after the other
and commits what was acknowledged.  `flushMu` keeps flushes apart, but bytes may be counted between any two of these
steps, and every push may fail on its own.  A run is a list of such events from a fresh agent and an empty panel.

* `step` — one event; an event that is not possible in a state (a second flush, a push nobody asked for) changes
  nothing.  `run_flush` is the agreement with `Panelapi.flush` when nothing is counted meanwhile;
* `account` — the state seen from one user of one node, which is a `Lib.Meter`;
* `account_step` — every event is a step of the meter, or none: the refinement that carries the billing;
* `billed_once` — so between flushes the panel has booked exactly what the agent committed, and the next snapshot
  reports exactly the rest.
-/

namespace MiniSbAgent.Agent.Billing

open MiniSbAgent.Go MiniSbAgent.Lib MiniSbAgent.Counter MiniSbAgent.Counter.Hook MiniSbAgent.Panelapi

/-- An agent that serves a topology, with the URLs that its HTTP library can parse. -/
structure Deployment where
  topology : Topology
  valid : topology.validate = .ok ()
  baseURL : String
  token : String
  urlOk : String → Bool

namespace Deployment

def nodes (D : Deployment) : List NodeSpec := D.topology.nodes

def client (D : Deployment) (n : NodeSpec) : Client := Client.newNode D.baseURL D.token n

def panel (D : Deployment) : Panel := .topology D.baseURL D.token D.nodes

theorem isValid (D : Deployment) : D.topology.Valid := (validate_ok_iff _).1 D.valid

end Deployment

/-- A flush under way: the snapshot, the nodes still to be pushed, and the outcome so far. -/
structure Round where
  delta : Delta
  todo : List NodeSpec
  acc : PanelPush

/-- What the panel booked, by the `node_id` and the `node_type` of the request and the number of the user. -/
abbrev Books := String → String → ℤ → ℤ × ℤ

structure State where
  hook : Hook
  books : Books
  round : Option Round

inductive Event
  /-- bytes on a connection of a user -/
  | count (tag user : String) (up down : ℕ)
  /-- a flush begins -/
  | snapshot
  /-- the push of the next node -/
  | push (order : RangeOrder ((_ : String) × ℤ × ℤ)) (reply : Exchange Unit)
  /-- the flush ends -/
  | commit

/-- The panel adds a payload to its books. -/
def book (b : Books) (c : Client) (payload : PushRequest) : Books :=
  fun id type uid => b id type uid + if id = c.nodeID ∧ type = c.nodeType then (payload.lookup uid).getD 0 else 0

def start : State := ⟨Hook.new, fun _ _ _ => 0, none⟩

section Machine

variable (D : Deployment)

/-- The push of one node. -/
def pushStep (s : State) (r : Round) (n : NodeSpec) (rest : List NodeSpec)
    (order : RangeOrder ((_ : String) × ℤ × ℤ)) (reply : Exchange Unit) : State :=
  let p := (D.client n).pushTraffic D.urlOk order r.delta reply
  ⟨s.hook, book s.books (D.client n) (p.booked reply), some ⟨r.delta, rest, absorbNode r.acc n p⟩⟩

/-- The last part of `flush`. -/
def commitStep (h : Hook) (r : Round) : Hook :=
  match toCommit r.delta r.acc with
  | none => h
  | some commit => h.commitSnapshot commit

/-- Bytes on the counter of a user. -/
def countStep (h : Hook) (tag user : String) (d : ℤ × ℤ) : Hook :=
  (h.getCounter tag user).1.update (h.getCounter tag user).2 (·.count d)

def step (s : State) : Event → State
  | .count tag user up down => { s with hook := countStep s.hook tag user (up, down) }
  | .snapshot =>
    match s.round with
    | some _ => s
    | none =>
      match toPush s.hook with
      | none => s
      | some delta => { s with round := some ⟨delta, D.nodes, ⟨∅, []⟩⟩ }
  | .push order reply =>
    match s.round with
    | some ⟨delta, n :: rest, acc⟩ => pushStep D s ⟨delta, n :: rest, acc⟩ n rest order reply
    | _ => s
  | .commit =>
    match s.round with
    | some ⟨delta, [], acc⟩ => ⟨commitStep s.hook ⟨delta, [], acc⟩, s.books, none⟩
    | _ => s

def run (s : State) (events : List Event) : State := events.foldl (step D) s

/-- The bytes are counted on an inbound of the topology, for a user whose key, if it is all digits, is a number in
decimal. -/
def Event.Proper : Event → Prop
  | .count tag user _ _ => (∃ n ∈ D.nodes, tag = n.inboundTag) ∧ Canonical user
  | _ => True

end Machine

/-- The bytes of an event on one key. -/
def Event.amount (tag user : String) : Event → ℤ × ℤ
  | .count tag' user' up down => if tag' = tag ∧ user' = user then (up, down) else 0
  | _ => 0

/-- **The bytes counted on one key in a run.** -/
def counted (events : List Event) (tag user : String) : ℤ × ℤ := (events.map (Event.amount tag user)).sum

/-! ### Counting -/

theorem tcTag_inboundTag (n : NodeSpec) : tcTag n.inboundTag = n.inboundTag := if_neg n.inboundTag_ne_empty

section Count

variable (h : Hook) {tag : String} (user : String) (d : ℤ × ℤ)

theorem storage_countStep (htag : tcTag tag = tag) (tag' user' : String) :
    (countStep h tag user d).storage tag' user' =
      if tag' = tag ∧ user' = user then (h.storage tag' user').count d else h.storage tag' user' := by
  have hp := ptr_getCounter_self h tag user
  rw [htag] at hp
  unfold countStep
  rw [storage_update hp, storage_getCounter]

theorem ptr_countStep_of_ptr {tag' user' : String} {p : ℕ} (hp : h.ptr tag' user' = some p) :
    (countStep h tag user d).ptr tag' user' = some p :=
  ptr_getCounter_of_ptr h tag user hp

theorem ptr_countStep_cases {tag' user' : String} {p : ℕ} (hp : (countStep h tag user d).ptr tag' user' = some p) :
    h.ptr tag' user' = some p ∨ tag' = tcTag tag ∧ user' = user :=
  ptr_getCounter_cases h tag user hp

end Count

/-! ### What a flush relies on -/

section Sound

variable (D : Deployment)

/-- A flush under way: every node is pushed once, and what is acknowledged so far are the nodes that succeeded. -/
structure RoundOk (h : Hook) (r : Round) : Prop where
  todo_sub : ∀ n ∈ r.todo, n ∈ D.nodes
  todo_nodup : r.todo.Nodup
  todo_fresh : ∀ n ∈ r.todo, r.acc.acked.lookup n.inboundTag = none
  acked : ∀ tag b, r.acc.acked.lookup tag = some b → b = true
  done : r.acc.errs = [] → ∀ n ∈ D.nodes, n ∉ r.todo → r.acc.acked.lookup n.inboundTag = some true
  keys : ∀ tag user d, lookup₂ r.delta tag user = some d → (h.ptr tag user).isSome

/-- All keys of the counters are canonical, and a flush under way is in order. -/
structure Sound (s : State) : Prop where
  canonical : ∀ tag user p, s.hook.ptr tag user = some p → Canonical user
  round : ∀ r ∈ s.round, RoundOk D s.hook r

theorem sound_start : Sound D start :=
  ⟨fun _ _ _ hp => (nomatch hp), fun _ hr => (nomatch hr)⟩

variable {D}

theorem RoundOk.mono {h h' : Hook} {r : Round} (hr : RoundOk D h r)
    (hptr : ∀ tag user, (h.ptr tag user).isSome → (h'.ptr tag user).isSome) : RoundOk D h' r :=
  { hr with keys := fun tag user d hd => hptr tag user (hr.keys tag user d hd) }

/-- The push of the next node keeps the round in order. -/
theorem RoundOk.push {h : Hook} {delta : Delta} {n : NodeSpec} {rest : List NodeSpec} {acc : PanelPush}
    (hr : RoundOk D h ⟨delta, n :: rest, acc⟩) (p : Push) : RoundOk D h ⟨delta, rest, absorbNode acc n p⟩ := by
  obtain ⟨hsub, hnodup, hfresh, hacked, hdone, hkeys⟩ := hr
  obtain ⟨hn, hrest⟩ := List.nodup_cons.1 hnodup
  have hne : ∀ m ∈ rest, m.inboundTag ≠ n.inboundTag := by
    intro m hm htag
    have := D.isValid.eq_of_inboundTag (hsub m (List.mem_cons_of_mem _ hm)) (hsub n List.mem_cons_self) htag
    exact hn (this ▸ hm)
  refine ⟨fun m hm => hsub m (List.mem_cons_of_mem _ hm), hrest, fun m hm => ?_, fun tag b hb => ?_,
    fun herrs m hm hnot => ?_, hkeys⟩
  · show (absorbNode acc n p).acked.lookup m.inboundTag = none
    rw [lookup_absorbNode, if_neg (fun h => hne m hm h.1)]
    exact hfresh m (List.mem_cons_of_mem _ hm)
  · change (absorbNode acc n p).acked.lookup tag = some b at hb
    rw [lookup_absorbNode] at hb
    split at hb
    · exact (Option.some.inj hb).symm
    · exact hacked tag b hb
  · obtain ⟨herrs, hp⟩ := (absorbNode_errs acc n p).1 herrs
    show (absorbNode acc n p).acked.lookup m.inboundTag = some true
    rw [lookup_absorbNode]
    by_cases hmn : m.inboundTag = n.inboundTag
    · rw [if_pos ⟨hmn, hp⟩]
    · rw [if_neg (fun h => hmn h.1)]
      refine hdone herrs m hm fun hmem => ?_
      rcases List.mem_cons.1 hmem with rfl | hmem
      · exact hmn rfl
      · exact hnot hmem

theorem ptr_commitStep (h : Hook) (r : Round) : (commitStep h r).ptr = h.ptr := by
  unfold commitStep
  split
  · rfl
  · exact ptr_commitSnapshot h _

theorem sound_step {s : State} (hs : Sound D s) {e : Event} (he : e.Proper D) : Sound D (step D s e) := by
  cases e with
  | count tag user up down =>
    refine ⟨fun tag' user' p hp => ?_, fun r hr => ?_⟩
    · rcases ptr_countStep_cases s.hook user (up, down) hp with hp | ⟨-, rfl⟩
      · exact hs.canonical tag' user' p hp
      · exact he.2
    · refine (hs.round r hr).mono fun tag' user' hsome => ?_
      obtain ⟨p, hp⟩ := Option.isSome_iff_exists.1 hsome
      have hkeep : (countStep s.hook tag user (up, down)).ptr tag' user' = some p :=
        ptr_countStep_of_ptr s.hook user (up, down) hp
      show ((countStep s.hook tag user (up, down)).ptr tag' user').isSome
      rw [hkeep]
      rfl
  | snapshot =>
    simp only [step]
    rcases hround : s.round with _ | r
    · simp only
      rcases hpush : toPush s.hook with _ | delta
      · exact hs
      · obtain ⟨rfl, -⟩ := toPush_eq_some hpush
        refine ⟨hs.canonical, fun r hr => ?_⟩
        obtain rfl := Option.some.inj hr
        refine ⟨fun n hn => hn, D.isValid.nodup, fun n _ => rfl, fun tag b hb => (nomatch hb),
          fun _ n hn hnot => absurd hn hnot, fun tag user d hd => ?_⟩
        obtain ⟨p, hp, -⟩ := ptr_of_lookup₂_snapshotDelta hd
        rw [hp]
        rfl
    · exact hs
  | push order reply =>
    simp only [step]
    rcases hround : s.round with _ | ⟨delta, todo, acc⟩
    · exact hs
    · cases todo with
      | nil => exact hs
      | cons n rest =>
        refine ⟨hs.canonical, fun r hr => ?_⟩
        obtain rfl := Option.some.inj hr
        exact (hs.round _ hround).push _
  | commit =>
    simp only [step]
    rcases hround : s.round with _ | ⟨delta, todo, acc⟩
    · exact hs
    · cases todo with
      | nil =>
        refine ⟨fun tag user p hp => hs.canonical tag user p ?_, fun r hr => (nomatch hr)⟩
        change (commitStep s.hook ⟨delta, [], acc⟩).ptr tag user = some p at hp
        rwa [ptr_commitStep] at hp
      | cons n rest => exact hs

end Sound

/-! ### One user of one node -/

/-- The state as one user of one node sees it. -/
def account (n : NodeSpec) (uid : ℤ) (s : State) : Meter (ℤ × ℤ) where
  counted := (s.hook.storage n.inboundTag (itoa uid)).counted
  committed := (s.hook.storage n.inboundTag (itoa uid)).committed
  booked := s.books n.nodeID n.panelNodeType uid
  taken := s.round.map fun r => (lookup₂ r.delta n.inboundTag (itoa uid)).getD 0
  delivered := (s.round.map fun r => decide (r.acc.acked.lookup n.inboundTag = some true)).getD false

section Account

variable {D : Deployment} {n : NodeSpec} {uid : ℤ}

/-- What the commit of a flush adds to a user of a node: the snapshot, if the node was acknowledged. -/
theorem committed_commitStep {h : Hook} {delta : Delta} {acc : PanelPush} (hr : RoundOk D h ⟨delta, [], acc⟩)
    (hn : n ∈ D.nodes) (h0 : 0 ≤ uid) :
    ((commitStep h ⟨delta, [], acc⟩).storage n.inboundTag (itoa uid)).committed =
      (h.storage n.inboundTag (itoa uid)).committed +
        if acc.acked.lookup n.inboundTag = some true then (lookup₂ delta n.inboundTag (itoa uid)).getD 0
        else 0 := by
  have hnum := isNumericUser_itoa h0
  -- whatever is committed for the key, the key has a storage
  have hcommit : ∀ only, ((h.commitSnapshot (commitDelta delta only)).storage n.inboundTag (itoa uid)).committed =
      (h.storage n.inboundTag (itoa uid)).committed +
        (lookup₂ (commitDelta delta only) n.inboundTag (itoa uid)).getD 0 := by
    intro only
    refine committed_commitSnapshot_of fun d hd => ?_
    rw [lookup₂_commitDelta] at hd
    split at hd
    · exact hr.keys _ _ d hd
    · cases hd
  unfold commitStep toCommit
  simp only
  by_cases herrs : acc.errs = []
  · -- no errors: every node was acknowledged
    have hacked := hr.done herrs n hn List.not_mem_nil
    simp only [herrs, ne_eq, not_true_eq_false, if_false, hcommit, hacked, if_true]
    rw [lookup₂_commitDelta, if_pos ⟨by simp, hnum⟩]
  · simp only [ne_eq, herrs, not_false_eq_true, if_true]
    by_cases hempty : isEmpty acc.acked = true
    · have hnone : acc.acked.lookup n.inboundTag ≠ some true := by
        rw [(isEmpty_iff _).1 hempty]
        exact Option.some_ne_none true |>.symm
      simp only [hempty, if_true, hnone, if_false, add_zero]
    · simp only [if_neg hempty, hcommit]
      rw [lookup₂_commitDelta]
      rcases hl : acc.acked.lookup n.inboundTag with _ | b
      · simp [hl]
      · obtain rfl := hr.acked _ b hl
        simp [hl, hnum]

theorem counted_commitStep (h : Hook) (r : Round) (tag user : String) :
    ((commitStep h r).storage tag user).counted = (h.storage tag user).counted := by
  unfold commitStep
  split
  · rfl
  · exact counted_commitSnapshot h _ tag user

/-- The payload of a node that succeeds holds, for each of its users, the amount of the snapshot. -/
theorem getD_booked {h : Hook} {r : Round} (hr : RoundOk D h r)
    (hcan : ∀ tag user p, h.ptr tag user = some p → Canonical user) (h0 : 0 ≤ uid) (h1 : uid ≤ maxInt64)
    {order : RangeOrder ((_ : String) × ℤ × ℤ)} {reply : Exchange Unit}
    (hok : ¬ (D.client n).PushFails D.urlOk order r.delta reply) :
    ((((D.client n).pushTraffic D.urlOk order r.delta reply).booked reply).lookup uid).getD 0 =
      (lookup₂ r.delta n.inboundTag (itoa uid)).getD 0 := by
  have hkeys : ∀ user ∈ (D.client n).flat r.delta, isNumericUser user = true ∧ Canonical user := by
    intro user huser
    obtain ⟨hnum, tag, users, hl, -, hmem⟩ := (mem_flat _ _ _).1 huser
    obtain ⟨d, hd⟩ := Option.isSome_iff_exists.1 (AList.lookup_isSome.2 hmem)
    have hl₂ : lookup₂ r.delta tag user = some d := by
      unfold lookup₂
      rw [hl]
      exact hd
    obtain ⟨p, hp⟩ := Option.isSome_iff_exists.1 (hr.keys tag user d hl₂)
    exact ⟨hnum, hcan tag user p hp⟩
  rw [(pushTraffic_of_not_fails hok).2.2 uid,
    lookup_payload order (fun u hu => (hkeys u hu).1) (fun u hu => (hkeys u hu).2) h0 h1]
  exact getD_flat_node D.baseURL D.token n r.delta (isNumericUser_itoa h0)

/-- Bytes are counted: a step of the account they belong to. -/
theorem account_count (s : State) {tag user : String} (htag : tcTag tag = tag) (up down : ℕ) :
    account n uid (step D s (.count tag user up down)) = account n uid s ∨
      (account n uid s).Step (account n uid (step D s (.count tag user up down))) := by
  have hst := storage_countStep s.hook user ((up : ℤ), (down : ℤ)) htag n.inboundTag (itoa uid)
  by_cases he : n.inboundTag = tag ∧ itoa uid = user
  · right
    rw [if_pos he] at hst
    have hd : (0 : ℤ × ℤ) ≤ ((up : ℤ), (down : ℤ)) := ⟨Int.natCast_nonneg up, Int.natCast_nonneg down⟩
    have heq : account n uid (step D s (.count tag user up down)) =
        { account n uid s with counted := (account n uid s).counted + ((up : ℤ), (down : ℤ)) } := by
      unfold account step
      simp only [hst, TrafficStorage.counted_count, TrafficStorage.committed_count]
    rw [heq]
    exact Meter.Step.count _ hd
  · left
    rw [if_neg he] at hst
    unfold account step
    simp only [hst]

/-- A flush begins: the account takes what it has pending. -/
theorem account_snapshot {s : State} (hf : (account n uid s).Fair) :
    account n uid (step D s .snapshot) = account n uid s ∨
      (account n uid s).Step (account n uid (step D s .snapshot)) := by
  rcases hround : s.round with _ | r
  swap
  · left
    simp only [step, hround]
  rcases hpush : toPush s.hook with _ | delta
  · left
    simp only [step, hround, hpush]
  obtain ⟨rfl, -⟩ := toPush_eq_some hpush
  right
  have htaken : (account n uid s).taken = none := by
    unfold account
    simp only [hround, Option.map_none]
  have hdelivered := hf.rest htaken
  have heq : account n uid (step D s .snapshot) =
      { account n uid s with taken := some (account n uid s).pending } := by
    have hpending : 0 ≤ (s.hook.storage n.inboundTag (itoa uid)).pending := hf.pending_nonneg
    simp only [step, hround, hpush]
    refine Meter.ext rfl rfl rfl ?_ hdelivered.symm
    show some ((lookup₂ s.hook.snapshotDelta n.inboundTag (itoa uid)).getD 0) = _
    rw [getD_snapshotDelta hpending]
    rfl
  rw [heq]
  exact Meter.Step.take htaken

section Push

variable {s : State} {delta : Delta} {m : NodeSpec} {rest : List NodeSpec} {acc : PanelPush}
  (hround : s.round = some ⟨delta, m :: rest, acc⟩) (order : RangeOrder ((_ : String) × ℤ × ℤ)) (reply : Exchange Unit)

include hround

/-- A push that fails books nothing and acknowledges nothing. -/
theorem account_pushStep_fails (hfail : (D.client m).PushFails D.urlOk order delta reply) :
    account m uid (pushStep D s ⟨delta, m :: rest, acc⟩ m rest order reply) = account m uid s := by
  obtain ⟨-, herr, hbooked⟩ := pushTraffic_of_fails hfail
  refine Meter.ext rfl rfl ?_ ?_ ?_
  · show book s.books (D.client m) _ m.nodeID m.panelNodeType uid = _
    unfold book
    rw [hbooked]
    simp [account]
  · simp only [account, pushStep, hround, Option.map_some]
  · simp only [account, pushStep, hround, Option.map_some, lookup_absorbNode, herr, and_false, if_false]

/-- A push that succeeds delivers the accounts of its node. -/
theorem account_pushStep_ok (hs : Sound D s) (h0 : 0 ≤ uid) (h1 : uid ≤ maxInt64)
    (hok : ¬ (D.client m).PushFails D.urlOk order delta reply) :
    (account m uid s).Step (account m uid (pushStep D s ⟨delta, m :: rest, acc⟩ m rest order reply)) := by
  have hr := hs.round _ hround
  obtain ⟨-, herr, -⟩ := pushTraffic_of_not_fails hok
  have htaken : (account m uid s).taken = some ((lookup₂ delta m.inboundTag (itoa uid)).getD 0) := by
    simp only [account, hround, Option.map_some]
  have hfresh : (account m uid s).delivered = false := by
    simp only [account, hround, Option.map_some, Option.getD_some, hr.todo_fresh m List.mem_cons_self]
    rfl
  have heq : account m uid (pushStep D s ⟨delta, m :: rest, acc⟩ m rest order reply) =
      { account m uid s with
        booked := (account m uid s).booked + (lookup₂ delta m.inboundTag (itoa uid)).getD 0
        delivered := true } := by
    refine Meter.ext rfl rfl ?_ ?_ ?_
    · show book s.books (D.client m) _ m.nodeID m.panelNodeType uid = _
      unfold book
      rw [if_pos ⟨rfl, rfl⟩, getD_booked hr hs.canonical h0 h1 hok]
      rfl
    · simp only [account, pushStep, hround, Option.map_some]
    · simp only [account, pushStep, Option.map_some, lookup_absorbNode, herr, and_self, if_true,
        Option.getD_some, decide_true]
  rw [heq]
  exact Meter.Step.deliver htaken hfresh

/-- The push of another node has neither the request nor the tag of `n`. -/
theorem account_pushStep_other (hn : n ∈ D.nodes) (hm : m ∈ D.nodes) (hmn : n ≠ m) :
    account n uid (pushStep D s ⟨delta, m :: rest, acc⟩ m rest order reply) = account n uid s := by
  have htag : n.inboundTag ≠ m.inboundTag := fun h => hmn (D.isValid.eq_of_inboundTag hn hm h)
  have hpanel : ¬ (n.nodeID = (D.client m).nodeID ∧ n.panelNodeType = (D.client m).nodeType) :=
    fun h => hmn (D.isValid.eq_of_panel hn hm h.1 h.2)
  refine Meter.ext rfl rfl ?_ ?_ ?_
  · show book s.books (D.client m) _ n.nodeID n.panelNodeType uid = _
    unfold book
    rw [if_neg hpanel, add_zero]
    rfl
  · simp only [account, pushStep, hround, Option.map_some]
  · simp only [account, pushStep, hround, Option.map_some, lookup_absorbNode, htag, false_and, if_false]

end Push

/-- A node is pushed: its own accounts are delivered, if it succeeds, and the accounts of other nodes are untouched. -/
theorem account_push {s : State} (hs : Sound D s) (hn : n ∈ D.nodes) (h0 : 0 ≤ uid) (h1 : uid ≤ maxInt64)
    (order : RangeOrder ((_ : String) × ℤ × ℤ)) (reply : Exchange Unit) :
    account n uid (step D s (.push order reply)) = account n uid s ∨
      (account n uid s).Step (account n uid (step D s (.push order reply))) := by
  rcases hround : s.round with _ | ⟨delta, todo, acc⟩
  · left
    simp only [step, hround]
  cases todo with
  | nil =>
    left
    simp only [step, hround]
  | cons m rest =>
    have hm : m ∈ D.nodes := (hs.round _ hround).todo_sub m List.mem_cons_self
    have hstep : step D s (.push order reply) = pushStep D s ⟨delta, m :: rest, acc⟩ m rest order reply := by
      simp only [step, hround]
    rw [hstep]
    by_cases hmn : n = m
    · subst hmn
      by_cases hfail : (D.client n).PushFails D.urlOk order delta reply
      · exact Or.inl (account_pushStep_fails hround order reply hfail)
      · exact Or.inr (account_pushStep_ok hround order reply hs h0 h1 hfail)
    · exact Or.inl (account_pushStep_other hround order reply hn hm hmn)

/-- A flush ends: the accounts that were delivered are settled, the others are left for the next one. -/
theorem account_commit {s : State} (hs : Sound D s) (hn : n ∈ D.nodes) (h0 : 0 ≤ uid) :
    account n uid (step D s .commit) = account n uid s ∨
      (account n uid s).Step (account n uid (step D s .commit)) := by
  rcases hround : s.round with _ | ⟨delta, todo, acc⟩
  · left
    simp only [step, hround]
  cases todo with
  | cons m rest =>
    left
    simp only [step, hround]
  | nil =>
    right
    have hcommit := committed_commitStep (hs.round _ hround) hn h0
    have hcounted := counted_commitStep s.hook ⟨delta, [], acc⟩ n.inboundTag (itoa uid)
    have htaken : (account n uid s).taken = some ((lookup₂ delta n.inboundTag (itoa uid)).getD 0) := by
      simp only [account, hround, Option.map_some]
    have hdelivered : (account n uid s).delivered = decide (acc.acked.lookup n.inboundTag = some true) := by
      simp only [account, hround, Option.map_some, Option.getD_some]
    by_cases hacked : acc.acked.lookup n.inboundTag = some true
    · rw [if_pos hacked] at hcommit
      have heq : account n uid (step D s .commit) =
          { account n uid s with
            committed := (account n uid s).committed + (lookup₂ delta n.inboundTag (itoa uid)).getD 0
            taken := none
            delivered := false } := by
        simp only [step, hround]
        exact Meter.ext hcounted hcommit rfl rfl rfl
      rw [heq]
      exact Meter.Step.settle htaken (by rw [hdelivered, decide_eq_true hacked])
    · rw [if_neg hacked, add_zero] at hcommit
      have hnot : (account n uid s).delivered = false := by rw [hdelivered, decide_eq_false hacked]
      have heq : account n uid (step D s .commit) = { account n uid s with taken := none } := by
        simp only [step, hround]
        exact Meter.ext hcounted hcommit rfl rfl hnot.symm
      rw [heq]
      exact Meter.Step.abandon hnot

/-- **Every event is a step of the meter of each account, or none.** -/
theorem account_step {s : State} (hs : Sound D s) (hf : (account n uid s).Fair) (hn : n ∈ D.nodes) (h0 : 0 ≤ uid)
    (h1 : uid ≤ maxInt64) {e : Event} (he : e.Proper D) :
    account n uid (step D s e) = account n uid s ∨ (account n uid s).Step (account n uid (step D s e)) := by
  cases e with
  | count tag user up down =>
    obtain ⟨⟨m, -, rfl⟩, -⟩ := he
    exact account_count s (tcTag_inboundTag m) up down
  | snapshot => exact account_snapshot hf
  | push order reply => exact account_push hs hn h0 h1 order reply
  | commit => exact account_commit hs hn h0

end Account

/-! ### Whole runs -/

section Runs

variable {D : Deployment}

/-- What a run keeps: the state is sound, and every account is fair. -/
structure Inv (D : Deployment) (s : State) : Prop where
  sound : Sound D s
  fair : ∀ n ∈ D.nodes, ∀ uid, 0 ≤ uid → uid ≤ maxInt64 → (account n uid s).Fair

theorem inv_start : Inv D start := by
  refine ⟨sound_start D, fun n _ uid _ _ => ⟨⟨le_rfl, ?_⟩, rfl, fun _ => rfl⟩⟩
  exact le_of_eq rfl

theorem inv_step {s : State} (hs : Inv D s) {e : Event} (he : e.Proper D) : Inv D (step D s e) := by
  refine ⟨sound_step hs.sound he, fun n hn uid h0 h1 => ?_⟩
  have hf := hs.fair n hn uid h0 h1
  rcases account_step hs.sound hf hn h0 h1 he with heq | hstep
  · rw [heq]
    exact hf
  · exact hf.step hstep

theorem inv_run {events : List Event} (he : ∀ e ∈ events, e.Proper D) : Inv D (run D start events) :=
  List.foldlRecOn events (step D) inv_start fun _ hs e hmem => inv_step hs (he e hmem)

/-- One event adds its bytes to the counter of its key, and no event takes any away. -/
theorem counted_step {s : State} {e : Event} (he : e.Proper D) (tag user : String) :
    ((step D s e).hook.storage tag user).counted = (s.hook.storage tag user).counted + e.amount tag user := by
  cases e with
  | count tag' user' up down =>
    obtain ⟨⟨m, -, rfl⟩, -⟩ := he
    show ((countStep s.hook m.inboundTag user' (up, down)).storage tag user).counted = _
    rw [storage_countStep s.hook user' (up, down) (tcTag_inboundTag m)]
    simp only [Event.amount]
    by_cases h : tag = m.inboundTag ∧ user = user'
    · rw [if_pos h, if_pos ⟨h.1.symm, h.2.symm⟩, TrafficStorage.counted_count]
    · rw [if_neg h, if_neg fun h' => h ⟨h'.1.symm, h'.2.symm⟩, add_zero]
  | snapshot =>
    simp only [step, Event.amount, add_zero]
    split
    · rfl
    · split <;> rfl
  | push order reply =>
    simp only [step, Event.amount, add_zero]
    split <;> rfl
  | commit =>
    simp only [step, Event.amount, add_zero]
    split
    · exact counted_commitStep _ _ _ _
    · rfl

/-- The counters of the agent hold the bytes that were counted. -/
theorem counted_run {events : List Event} (he : ∀ e ∈ events, e.Proper D) (tag user : String) :
    ((run D start events).hook.storage tag user).counted = counted events tag user := by
  have hgain := foldl_gain (step D) (fun _ => True)
    (fun s => (s.hook.storage tag user).counted) _ events (fun _ _ _ _ => trivial)
    (fun s e hmem _ => counted_step (he e hmem) tag user) (s := start) trivial
  exact hgain.trans (zero_add _)

end Runs

/-! ### A flush without interruptions -/

section Flush

variable (D : Deployment) (net : Net)

/-- The events of one flush over the network `net`. -/
def flushEvents : List Event :=
  .snapshot :: (D.nodes.zipIdx.map fun n => .push (net.order n.2) (net.reply n.2)) ++ [.commit]

variable {D net}

theorem run_pushes (hurl : net.urlOk = D.urlOk) {delta : Delta} (l : List (NodeSpec × ℕ)) (s : State)
    (acc : PanelPush) (hround : s.round = some ⟨delta, l.map Prod.fst, acc⟩) :
    (run D s (l.map fun n => .push (net.order n.2) (net.reply n.2))).round =
        some ⟨delta, [], l.foldl (fun acc n => absorbNode acc n.1 (net.push delta (D.client n.1) n.2)) acc⟩ ∧
      (run D s (l.map fun n => .push (net.order n.2) (net.reply n.2))).hook = s.hook := by
  induction l generalizing s acc with
  | nil => exact ⟨hround, rfl⟩
  | cons n l ih =>
    have hstep : step D s (.push (net.order n.2) (net.reply n.2)) =
        pushStep D s ⟨delta, (n :: l).map Prod.fst, acc⟩ n.1 (l.map Prod.fst) (net.order n.2) (net.reply n.2) := by
      simp only [step, hround, List.map_cons]
    show (run D (step D s _) _).round = _ ∧ (run D (step D s _) _).hook = _
    rw [hstep, List.foldl_cons, Net.push, hurl]
    exact ih _ _ rfl

theorem run_pushes_idle (l : List (NodeSpec × ℕ)) (s : State) (hround : s.round = none) :
    run D s (l.map fun n => .push (net.order n.2) (net.reply n.2)) = s := by
  induction l with
  | nil => rfl
  | cons n l ih =>
    have hstep : step D s (.push (net.order n.2) (net.reply n.2)) = s := by simp only [step, hround]
    show run D (step D s _) _ = s
    rw [hstep, ih]

/-- **The events of one flush, one after the other, are `flush`.** -/
theorem run_flush (hurl : net.urlOk = D.urlOk) {s : State} (hidle : s.round = none) :
    (run D s (flushEvents D net)).hook = flush D.panel net s.hook ∧ (run D s (flushEvents D net)).round = none := by
  have hrun : run D s (flushEvents D net) =
      step D (run D (step D s .snapshot) (D.nodes.zipIdx.map fun n => .push (net.order n.2) (net.reply n.2)))
        .commit := by
    unfold run flushEvents
    rw [List.cons_append, List.foldl_cons, List.foldl_append, List.foldl_cons, List.foldl_nil]
  rw [hrun]
  unfold flush
  rcases hpush : toPush s.hook with _ | delta
  · have hsnap : step D s .snapshot = s := by simp only [step, hidle, hpush]
    rw [hsnap, run_pushes_idle _ s hidle]
    simp only [step, hidle, and_self]
  · have hsnap : step D s .snapshot = { s with round := some ⟨delta, D.nodes, ⟨∅, []⟩⟩ } := by
      simp only [step, hidle, hpush]
    have hfst : D.nodes.zipIdx.map Prod.fst = D.nodes := List.zipIdx_map_fst 0 D.nodes
    have hstart : (step D s .snapshot).round = some ⟨delta, D.nodes.zipIdx.map Prod.fst, ⟨∅, []⟩⟩ := by
      rw [hsnap, hfst]
    obtain ⟨hround, hhook⟩ := run_pushes hurl D.nodes.zipIdx (step D s .snapshot) ⟨∅, []⟩ hstart
    rw [hsnap] at hround hhook ⊢
    simp only [step, hround, hhook, commitStep, and_true]
    rfl

end Flush

/-- **Every byte is billed exactly once.** Take any run in which bytes are counted on the nodes of the topology and
flushes go on, with any push failing and bytes counted in the middle of a flush.  Between flushes, and for every
user of every node, up and down alike: the panel has booked what the agent holds as committed, it has booked no more
than was counted, and the next snapshot reports exactly what is missing. -/
theorem billed_once (D : Deployment) (events : List Event) (he : ∀ e ∈ events, e.Proper D)
    (hidle : (run D start events).round = none) (n : NodeSpec) (hn : n ∈ D.topology.nodes) (uid : ℤ)
    (h0 : 0 ≤ uid) (h1 : uid ≤ maxInt64) :
    (run D start events).books n.nodeID n.panelNodeType uid =
        ((run D start events).hook.storage n.inboundTag (itoa uid)).committed ∧
      (run D start events).books n.nodeID n.panelNodeType uid ≤ counted events n.inboundTag (itoa uid) ∧
      (lookup₂ (run D start events).hook.snapshotDelta n.inboundTag (itoa uid)).getD 0 =
        counted events n.inboundTag (itoa uid) - (run D start events).books n.nodeID n.panelNodeType uid := by
  have hfair := (inv_run he).fair n hn uid h0 h1
  have hcounted := counted_run he n.inboundTag (itoa uid)
  have htaken : (account n uid (run D start events)).taken = none := by
    unfold account
    simp only [hidle, Option.map_none]
  have hbooked : (run D start events).books n.nodeID n.panelNodeType uid =
      ((run D start events).hook.storage n.inboundTag (itoa uid)).committed := hfair.booked_eq htaken
  have hpending : 0 ≤ ((run D start events).hook.storage n.inboundTag (itoa uid)).pending := hfair.pending_nonneg
  refine ⟨hbooked, ?_, ?_⟩
  · rw [← hcounted]
    exact hfair.booked_le htaken
  · rw [getD_snapshotDelta hpending, TrafficStorage.pending_eq, hcounted, hbooked]

/-- A topology of one VLESS node. -/
def oneNode : Deployment where
  topology := ⟨[⟨"1", "vless", "", ⟨"direct", "", 0, "", "", "", ""⟩⟩]⟩
  valid := by decide +kernel
  baseURL := "http://panel"
  token := "token"
  urlOk := fun _ => true

/-- A first flush fails after more bytes were counted, the second one succeeds. -/
theorem billed_once_retry :
    let n : NodeSpec := ⟨"1", "vless", "", ⟨"direct", "", 0, "", "", "", ""⟩⟩
    let events : List Event :=
      [.count n.inboundTag "7" 10 5, .snapshot, .count n.inboundTag "7" 3 0,
        .push (RangeOrder.stored _) (.answered 500 ()), .commit, .snapshot,
        .push (RangeOrder.stored _) (.answered 200 ()), .count n.inboundTag "7" 1 1, .commit]
    (run oneNode start events).books "1" n.panelNodeType 7 ≤ counted events n.inboundTag (itoa 7) ∧
      (lookup₂ (run oneNode start events).hook.snapshotDelta n.inboundTag (itoa 7)).getD 0 =
        counted events n.inboundTag (itoa 7) - (run oneNode start events).books "1" n.panelNodeType 7 := by
  intro n events
  have hn : n ∈ oneNode.topology.nodes := List.mem_singleton_self n
  have hcan : Canonical "7" := fun _ => ⟨7, by decide, by decide, by decide⟩
  have he : ∀ e ∈ events, e.Proper oneNode := by
    have hcount : ∀ up down, (Event.count n.inboundTag "7" up down).Proper oneNode :=
      fun _ _ => ⟨⟨n, hn, rfl⟩, hcan⟩
    simp only [events, List.forall_mem_cons]
    exact ⟨hcount 10 5, trivial, hcount 3 0, trivial, trivial, trivial, trivial, hcount 1 1, trivial,
      fun _ h => (nomatch h)⟩
  exact (billed_once oneNode events he (by decide +kernel) n hn 7 (by decide) (by decide)).2

end MiniSbAgent.Agent.Billing
