import MiniSbAgent.Agent.AuthTables
import MiniSbAgent.Panelapi.Sync

/-!
# Node isolation

In topology mode every node of the panel has its own inbound.  A round of the syncer fetches the users of every node,
checks that the lists agree on the users they share, applies each list to the inbound of its node, prunes the counters
and flushes the traffic.  On the way a list is keyed twice: by the key of its node, and by the tag of the inbound.

* `fetchUsers_of_succeeds`, `fetchUsers_of_not_succeeds` — a round applies all lists or none;
* `lookup_groupNodeUsers` — in a valid topology both keyings keep the lists apart;
* `nodes_isolated` — an inbound has the users of its own node, as of the last round that succeeded.
-/

namespace MiniSbAgent.Agent

open MiniSbAgent.Go MiniSbAgent.Counter MiniSbAgent.Panelapi

/-! ### Fetching the users of every node -/

inductive FetchError where
  /-- `fetch users for %s: %w` -/
  | node (key : String) (err : PanelError)
  /-- `conflicting user definition for ID %d across nodes (%s)` -/
  | conflict (id : ℤ) (nodeKey : String)
deriving Repr, DecidableEq

/-- The loop of `FetchUsers`; `fetch i` is what the client of the node at position `i` returns. -/
def fetchNodes (fetch : ℕ → Except PanelError (List User)) (byNode : GoMap String (List User)) :
    List (NodeSpec × ℕ) → Except FetchError (GoMap String (List User))
  | [] => .ok byNode
  | n :: nodes =>
    match fetch n.2 with
    | .error err => .error (.node n.1.key err)
    | .ok users => fetchNodes fetch (byNode.insert n.1.key users) nodes

/-- The inner loop of `mergeUsersByNode`. -/
def mergeUsers (nodeKey : String) (merged : GoMap ℤ User) : List User → Except FetchError (GoMap ℤ User)
  | [] => .ok merged
  | u :: users =>
    match merged.lookup u.id with
    | some existing =>
      if existing.uuid ≠ u.uuid ∨ existing.password ≠ u.password ∨ existing.speedLimit ≠ u.speedLimit then
        .error (.conflict u.id nodeKey)
      else mergeUsers nodeKey merged users
    | none => mergeUsers nodeKey (merged.insert u.id u) users

/-- The outer loop. -/
def mergeNodes (merged : GoMap ℤ User) : List ((_ : String) × List User) → Except FetchError (GoMap ℤ User)
  | [] => .ok merged
  | e :: es =>
    match mergeUsers e.1 merged e.2 with
    | .error err => .error err
    | .ok merged => mergeNodes merged es

/-- The orders of the two loops over maps. -/
structure MergeOrders where
  nodes : RangeOrder ((_ : String) × List User)
  out : RangeOrder ((_ : ℤ) × User)

def mergeUsersByNode (o : MergeOrders) (usersByNode : GoMap String (List User)) : Except FetchError (List User) :=
  (mergeNodes ∅ (o.nodes.visit usersByNode.entries)).map fun merged => (o.out.visit merged.entries).map Sigma.snd

def groupNodeUsers (nodes : List NodeSpec) (usersByNode : GoMap String (List User)) : GoMap String (List User) :=
  writes ∅ (nodes.map fun node => (node.inboundTag, (usersByNode.lookup node.key).getD []))

/-! ### Rounds -/

/-- What happens around one `syncOnce`. -/
structure SyncRound where
  fetch : ℕ → Except PanelError (List User)
  merge : MergeOrders
  orders : Orders
  clock : Clock
  net : Net

/-- The agent in topology mode. -/
structure TopologyAgent where
  box : Box
  hook : Hook

section Rounds

variable (build : Bool) (baseURL token : String) (t : Topology)

/-- `topologyPanel.FetchUsers` with the `apply` of the agent. -/
def fetchUsers (r : SyncRound) (s : Box) : Except FetchError (List User) × Box :=
  match fetchNodes r.fetch ∅ t.nodes.zipIdx with
  | .error err => (.error err, s)
  | .ok byNode =>
    match mergeUsersByNode r.merge byNode with
    | .error err => (.error err, s)
    | .ok merged => (.ok merged, s.call build ⟨r.orders, r.clock, groupNodeUsers t.nodes byNode⟩)

/-- `syncOnce`; the callback of topology mode prunes the counters and leaves the users alone. -/
def syncOnce (s : TopologyAgent) (r : SyncRound) : TopologyAgent :=
  let fetched := fetchUsers build t r s.box
  let hook := match fetched.1 with
    | .error _ => s.hook
    | .ok _ => s.hook.removeAbsent fetched.2.manager.activeIDs
  ⟨fetched.2, flush (.topology baseURL token t.nodes) r.net hook⟩

def syncRun (s : TopologyAgent) (rounds : List SyncRound) : TopologyAgent :=
  rounds.foldl (syncOnce build baseURL token t) s

end Rounds

namespace SyncRound

variable (t : Topology) (r : SyncRound)

/-- The lists that the nodes returned, by node key. -/
def byNode : GoMap String (List User) :=
  writes ∅ (t.nodes.zipIdx.map fun n => (n.1.key, (r.fetch n.2).toOption.getD []))

/-- **A round is fully successful**: every node returned a list, and the lists do not conflict. -/
def Succeeds : Prop :=
  (∀ i < t.nodes.length, (r.fetch i).isOk = true) ∧ (mergeUsersByNode r.merge (r.byNode t)).isOk = true

instance : Decidable (r.Succeeds t) := by unfold Succeeds; infer_instance

end SyncRound

/-! ### All lists or none -/

theorem fetchNodes_of_ok {fetch : ℕ → Except PanelError (List User)} (l : List (NodeSpec × ℕ))
    (byNode : GoMap String (List User)) (h : ∀ n ∈ l, (fetch n.2).isOk = true) :
    fetchNodes fetch byNode l =
      .ok (writes byNode (l.map fun n => (n.1.key, (fetch n.2).toOption.getD []))) := by
  induction l generalizing byNode with
  | nil => rfl
  | cons n l ih =>
    have hn := h n List.mem_cons_self
    unfold fetchNodes
    cases hf : fetch n.2 with
    | error err =>
      rw [hf] at hn
      cases hn
    | ok users =>
      simp only [List.map_cons, writes_cons, hf]
      exact ih _ fun m hm => h m (List.mem_cons_of_mem _ hm)

theorem fetchNodes_of_error (fetch : ℕ → Except PanelError (List User)) (l : List (NodeSpec × ℕ))
    (byNode : GoMap String (List User)) {n : NodeSpec × ℕ} (hn : n ∈ l) (h : (fetch n.2).isOk = false) :
    ∃ err, fetchNodes fetch byNode l = .error err := by
  induction l generalizing byNode with
  | nil => cases hn
  | cons m l ih =>
    unfold fetchNodes
    cases hf : fetch m.2 with
    | error err => exact ⟨_, rfl⟩
    | ok users =>
      rcases List.mem_cons.1 hn with rfl | hn
      · rw [hf] at h
        cases h
      · exact ih _ hn

variable {build : Bool} {t : Topology} {r : SyncRound}

theorem lt_of_mem_zipIdx {n : NodeSpec × ℕ} (hn : n ∈ t.nodes.zipIdx) : n.2 < t.nodes.length := by
  have hget := List.mem_zipIdx_iff_getElem?.1 hn
  exact (List.getElem?_eq_some_iff.1 hget).1

/-- When no fetch fails, the loop collects every list. -/
theorem fetchNodes_eq (h : ∀ i < t.nodes.length, (r.fetch i).isOk = true) :
    fetchNodes r.fetch ∅ t.nodes.zipIdx = .ok (r.byNode t) :=
  fetchNodes_of_ok _ _ fun n hn => h n.2 (lt_of_mem_zipIdx hn)

/-- A successful round applies every list. -/
theorem fetchUsers_of_succeeds (h : r.Succeeds t) (s : Box) :
    (fetchUsers build t r s).2 = s.call build ⟨r.orders, r.clock, groupNodeUsers t.nodes (r.byNode t)⟩ := by
  unfold fetchUsers
  rw [fetchNodes_eq h.1]
  cases hm : mergeUsersByNode r.merge (r.byNode t) with
  | error err =>
    have := h.2
    rw [hm] at this
    cases this
  | ok merged => simp only [hm]

/-- **A round that does not succeed changes nothing**: no inbound, snapshot, alias or limiter. -/
theorem fetchUsers_of_not_succeeds (h : ¬ r.Succeeds t) (s : Box) : (fetchUsers build t r s).2 = s := by
  unfold fetchUsers
  by_cases hall : ∀ i < t.nodes.length, (r.fetch i).isOk = true
  · rw [fetchNodes_eq hall]
    cases hm : mergeUsersByNode r.merge (r.byNode t) with
    | error err => simp only [hm]
    | ok merged => exact absurd ⟨hall, by rw [hm]; rfl⟩ h
  · push Not at hall
    obtain ⟨i, hi, herr⟩ := hall
    have hmem : (t.nodes[i], i) ∈ t.nodes.zipIdx :=
      List.mem_zipIdx_iff_getElem?.2 (List.getElem?_eq_getElem hi)
    obtain ⟨err, hnodes⟩ := fetchNodes_of_error r.fetch _ ∅ hmem (by simpa using herr)
    rw [hnodes]

/-! ### The two keyings -/

/-- Every node finds its own list under its key. -/
theorem lookup_byNode (ht : t.Valid) {i : ℕ} {n : NodeSpec} (hn : t.nodes[i]? = some n) :
    (r.byNode t).lookup n.key = some ((r.fetch i).toOption.getD []) := by
  refine lookup_writes_of_unique
    (List.mem_map.2 ⟨(n, i), List.mem_zipIdx_iff_getElem?.2 hn, rfl⟩) fun users hu => ?_
  obtain ⟨⟨m, j⟩, hm, heq⟩ := List.mem_map.1 hu
  obtain ⟨hkey, rfl⟩ := Prod.mk.inj heq
  have hm := List.mem_zipIdx_iff_getElem?.1 hm
  -- two nodes with one key are one node, at one position
  have hmn : m = n := ht.eq_of_key (List.mem_of_getElem? hm) (List.mem_of_getElem? hn) hkey
  have hij : i = j := by
    refine (List.getElem?_inj (List.getElem?_eq_some_iff.1 hn).1 ht.nodup).1 ?_
    rw [hn, hm, hmn]
  rw [hij]

/-- Every inbound finds the list of its node under its tag. -/
theorem lookup_groupNodeUsers (ht : t.Valid) {n : NodeSpec} (hn : n ∈ t.nodes)
    (usersByNode : GoMap String (List User)) :
    (groupNodeUsers t.nodes usersByNode).lookup n.inboundTag = some ((usersByNode.lookup n.key).getD []) := by
  refine lookup_writes_of_unique (List.mem_map.2 ⟨n, hn, rfl⟩) fun users hu => ?_
  obtain ⟨m, hm, heq⟩ := List.mem_map.1 hu
  obtain ⟨htag, rfl⟩ := Prod.mk.inj heq
  rw [ht.eq_of_inboundTag hm hn htag]

/-- A successful round gives every inbound the users of its node. -/
theorem snapshot_of_succeeds (ht : t.Valid) (h : r.Succeeds t) (s : Box) {i : ℕ} {n : NodeSpec}
    (hn : t.nodes[i]? = some n) :
    (fetchUsers build t r s).2.manager.snapshot n.inboundTag = usersByID ((r.fetch i).toOption.getD []) := by
  rw [fetchUsers_of_succeeds h]
  have hlist := lookup_groupNodeUsers ht (List.mem_of_getElem? hn) (r.byNode t)
  rw [lookup_byNode ht hn, Option.getD_some] at hlist
  have hcommit := UserManager.snapshot_commit build r.orders r.clock s.manager
    (groupNodeUsers t.nodes (r.byNode t)) n.inboundTag
  rw [hlist, Option.getD_some] at hcommit
  exact hcommit

/-! ### Runs of rounds -/

section Runs

variable (build : Bool) (baseURL token : String)

theorem box_syncOnce (s : TopologyAgent) (r : SyncRound) :
    (syncOnce build baseURL token t s r).box = (fetchUsers build t r s.box).2 := rfl

theorem syncRun_concat (s : TopologyAgent) (rounds : List SyncRound) (r : SyncRound) :
    syncRun build baseURL token t s (rounds ++ [r]) =
      syncOnce build baseURL token t (syncRun build baseURL token t s rounds) r := List.foldl_concat ..

/-- The snapshots are those of the last round that succeeded. -/
theorem snapshot_syncRun (ht : t.Valid) (s : TopologyAgent) (rounds : List SyncRound)
    (h : ∃ r ∈ rounds, r.Succeeds t) :
    ∃ pre r post, rounds = pre ++ r :: post ∧ r.Succeeds t ∧ (∀ r' ∈ post, ¬ r'.Succeeds t) ∧
      ∀ i n, t.nodes[i]? = some n →
        (syncRun build baseURL token t s rounds).box.manager.snapshot n.inboundTag =
          usersByID ((r.fetch i).toOption.getD []) := by
  -- induction on the number of rounds; a round that fails leaves the box as it was
  induction rounds using List.reverseRecOn with
  | nil =>
    obtain ⟨r, hr, -⟩ := h
    cases hr
  | append_singleton rounds r ih =>
    by_cases hr : r.Succeeds t
    · refine ⟨rounds, r, [], rfl, hr, fun _ hmem => (nomatch hmem), fun i n hn => ?_⟩
      rw [syncRun_concat, box_syncOnce]
      exact snapshot_of_succeeds ht hr _ hn
    · obtain ⟨r₀, hmem, hr₀⟩ := h
      have hold : r₀ ∈ rounds := by
        rcases List.mem_append.1 hmem with hmem | hmem
        · exact hmem
        · rw [List.mem_singleton.1 hmem] at hr₀
          exact absurd hr₀ hr
      obtain ⟨pre, r₁, post, rfl, hr₁, hpost, hsnap⟩ := ih ⟨r₀, hold, hr₀⟩
      refine ⟨pre, r₁, post ++ [r], by simp, hr₁, fun r' hr' => ?_, fun i n hn => ?_⟩
      · rcases List.mem_append.1 hr' with hr' | hr'
        · exact hpost r' hr'
        · rw [List.mem_singleton.1 hr']
          exact hr
      · rw [syncRun_concat, box_syncOnce, fetchUsers_of_not_succeeds hr]
        exact hsnap i n hn

end Runs

/-- **Node isolation.**  Take a valid topology, any state of the agent and any rounds.  Once a round has succeeded, the
snapshot of every inbound is that of the list its own node returned in the last round that succeeded, so a user that
only other nodes listed is not in it.  A round that does not succeed leaves the manager and the inbounds as they
were. -/
theorem nodes_isolated (build : Bool) (baseURL token : String) (t : Topology) (ht : t.validate = .ok ())
    (s : TopologyAgent) (rounds : List SyncRound) :
    ((∃ r ∈ rounds, r.Succeeds t) →
      ∃ pre r post, rounds = pre ++ r :: post ∧ r.Succeeds t ∧ (∀ r' ∈ post, ¬ r'.Succeeds t) ∧
        ∀ i n, t.nodes[i]? = some n → ∃ users, r.fetch i = .ok users ∧
          (∀ id, ((syncRun build baseURL token t s rounds).box.manager.inboundSnapshot n.inboundTag).lookup id =
            (usersByID users).lookup id) ∧
          ∀ id, (∀ u ∈ users, u.id ≠ id) →
            id ∉ (syncRun build baseURL token t s rounds).box.manager.inboundSnapshot n.inboundTag) ∧
    ∀ r, ¬ r.Succeeds t →
      (syncOnce build baseURL token t (syncRun build baseURL token t s rounds) r).box =
        (syncRun build baseURL token t s rounds).box := by
  have hv := (validate_ok_iff t).1 ht
  refine ⟨fun h => ?_, fun r hr => ?_⟩
  · obtain ⟨pre, r, post, hsplit, hr, hpost, hsnap⟩ := snapshot_syncRun build baseURL token hv s rounds h
    refine ⟨pre, r, post, hsplit, hr, hpost, fun i n hn => ?_⟩
    have hok := hr.1 i (List.getElem?_eq_some_iff.1 hn).1
    cases hf : r.fetch i with
    | error err =>
      rw [hf] at hok
      cases hok
    | ok users =>
      have hlookup : ∀ id,
          ((syncRun build baseURL token t s rounds).box.manager.inboundSnapshot n.inboundTag).lookup id =
            (usersByID users).lookup id := by
        intro id
        rw [UserManager.lookup_inboundSnapshot, hsnap i n hn, hf]
        rfl
      refine ⟨users, rfl, hlookup, fun id hid hmem => ?_⟩
      obtain ⟨u, hu⟩ := Option.isSome_iff_exists.1 (AList.lookup_isSome.2 hmem)
      rw [hlookup] at hu
      obtain ⟨hu, heq, -⟩ := mem_of_lookup_usersByID hu
      exact hid u hu heq
  · rw [box_syncOnce, fetchUsers_of_not_succeeds hr]

/-- Two nodes of one protocol. -/
def twoNodes : Topology :=
  ⟨[⟨"1", "vless", "", ⟨"direct", "", 0, "", "", "", ""⟩⟩, ⟨"2", "vless", "", ⟨"direct", "", 0, "", "", "", ""⟩⟩]⟩

/-- A round in which the two nodes return the given results. -/
def roundOf (first second : Except PanelError (List User)) : SyncRound where
  fetch i := if i = 0 then first else second
  merge := ⟨.stored _, .stored _⟩
  orders := .stored
  clock _ _ := 0
  net := ⟨fun _ => true, fun _ => .stored _, fun _ => .failed⟩

/-- A round that succeeds, then one in which the second node cannot be reached. -/
theorem nodes_isolated_twoNodes :
    let s : TopologyAgent := ⟨⟨.new (fun _ => 0) 0, ∅⟩, .new⟩
    let good := roundOf (.ok [⟨1, "a", "", "", 0⟩]) (.ok [⟨2, "b", "", "", 0⟩])
    let bad := roundOf (.ok [⟨3, "c", "", "", 0⟩]) (.error .transport)
    twoNodes.validate = .ok () ∧ good.Succeeds twoNodes ∧ ¬ bad.Succeeds twoNodes ∧
      (syncOnce true "http://panel" "token" twoNodes
        (syncRun true "http://panel" "token" twoNodes s [good]) bad).box =
        (syncRun true "http://panel" "token" twoNodes s [good]).box ∧
      ∃ pre r post, [good] = pre ++ r :: post ∧ r.Succeeds twoNodes := by
  intro s good bad
  have hvalid : twoNodes.validate = .ok () := by decide +kernel
  have hgood : good.Succeeds twoNodes := by decide +kernel
  have hbad : ¬ bad.Succeeds twoNodes := by decide +kernel
  obtain ⟨hsnap, hfail⟩ := nodes_isolated true "http://panel" "token" twoNodes hvalid s [good]
  obtain ⟨pre, r, post, hsplit, hr, -⟩ := hsnap ⟨good, List.mem_singleton_self _, hgood⟩
  exact ⟨hvalid, hgood, hbad, hfail bad hbad, pre, r, post, hsplit, hr⟩

end MiniSbAgent.Agent
