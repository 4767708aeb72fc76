import MiniSbAgent.Go.Maps
import MiniSbAgent.Panelapi.Topology

/-!
# The store of the panel

The store keeps agents, their topologies, the usage of each account and the batches it has applied.  All operations
run under one mutex.  The clock and the random revision of a topology are arguments of the operations that use
them; a time is `none` when it is the zero `time.Time`.  Usage is added up in `int64`.

* `applyTraffic` checks a whole batch before it touches any account; `applyTraffic_cases` lists its outcomes;
* `run` plays a history of operations and records the `ApplyTraffic` calls with their results;
* `firstsFrom` picks, for each agent and batch, the first call that did not fail;
* `ledger_exactly_once` — the accounts hold exactly those batches, each once and whole.
-/

namespace MiniSbAgent.Panelserver

open MiniSbAgent.Go MiniSbAgent.Panelapi

/-- A time in nanoseconds; `none` is the zero time. -/
abbrev Time := Option ℤ

structure Agent where
  id : String
  name : String
  secret : String
  createdAt : Time
  seenAt : Time
deriving Repr, DecidableEq

/-- A topology is recorded only when it is valid. -/
structure TopologyRecord where
  revision : String
  etag : String
  topology : Topology
  updatedAt : Time
  valid : topology.validate = .ok ()

structure UsageKey where
  agentID : String
  nodeKey : String
  userID : ℤ
deriving Repr, DecidableEq

structure BatchKey where
  agentID : String
  batchID : String
deriving Repr, DecidableEq

/-- Upload and download. -/
abbrev Usage := ℤ × ℤ

structure Store where
  agents : GoMap String Agent
  topologies : GoMap String TopologyRecord
  usage : GoMap UsageKey Usage
  batches : GoMap BatchKey Unit

structure TrafficItem where
  nodeID : String
  nodeType : String
  userID : ℤ
  upload : ℤ
  download : ℤ
deriving Repr, DecidableEq

structure TrafficPushRequest where
  batchID : String
  items : List TrafficItem
deriving Repr, DecidableEq

inductive StoreError
  /-- `agent id and secret are required` -/
  | agentFields
  /-- of `Validate` -/
  | topology (e : TopologyError)
  /-- `agent %q not found` -/
  | noSuchAgent (agentID : String)
  /-- `batch_id is required` -/
  | noBatchID
  /-- `agent not found` -/
  | agentNotFound
  /-- `agent %q has no assigned topology` -/
  | noTopology (agentID : String)
  /-- `invalid traffic item` -/
  | invalidItem
  /-- `node %q of type %q is not assigned to agent %q` -/
  | notAssigned (nodeID nodeType agentID : String)
deriving Repr, DecidableEq

namespace Store

def new : Store := ⟨∅, ∅, ∅, ∅⟩

def putAgent (s : Store) (now : ℤ) (agent : Agent) : Store × Except StoreError Unit :=
  if agent.id = "" ∨ agent.secret = "" then (s, .error .agentFields)
  else
    let agent := if agent.createdAt = none then { agent with createdAt := some now } else agent
    ({ s with agents := s.agents.insert agent.id agent }, .ok ())

def putTopology (s : Store) (now : ℤ) (revision etag : String) (agentID : String) (topology : Topology) :
    Store × Except StoreError Unit :=
  match h : topology.validate with
  | .error e => (s, .error (.topology e))
  | .ok () =>
    if agentID ∉ s.agents then (s, .error (.noSuchAgent agentID))
    else
      ({ s with topologies := s.topologies.insert agentID ⟨revision, etag, topology, some now, h⟩ }, .ok ())

/-- The checks of one item against the nodes of the agent. -/
def checkItem (agentID : String) (owned : List String) (item : TrafficItem) : Except StoreError Unit :=
  if item.nodeID = "" ∨ item.nodeType = "" ∨ item.userID ≤ 0 ∨ item.upload < 0 ∨ item.download < 0 then
    .error .invalidItem
  else if nodeKey item.nodeType item.nodeID ∉ owned then
    .error (.notAssigned item.nodeID item.nodeType agentID)
  else .ok ()

def checkItems (agentID : String) (owned : List String) : List TrafficItem → Except StoreError Unit
  | [] => .ok ()
  | item :: items =>
    match checkItem agentID owned item with
    | .error e => .error e
    | .ok () => checkItems agentID owned items

def itemKey (agentID : String) (item : TrafficItem) : UsageKey :=
  ⟨agentID, nodeKey item.nodeType item.nodeID, item.userID⟩

/-- `int64` addition of both amounts. -/
def addUsage (old : Usage) (item : TrafficItem) : Usage :=
  (wrap64 (old.1 + item.upload), wrap64 (old.2 + item.download))

/-- The loop that books the items. -/
def bookItems (agentID : String) (usage : GoMap UsageKey Usage) (items : List TrafficItem) :
    GoMap UsageKey Usage :=
  items.foldl (fun usage item =>
    usage.insert (itemKey agentID item) (addUsage ((usage.lookup (itemKey agentID item)).getD 0) item)) usage

def applyTraffic (s : Store) (now : ℤ) (agentID : String) (payload : TrafficPushRequest) :
    Store × Except StoreError Bool :=
  if payload.batchID = "" then (s, .error .noBatchID)
  else
    match s.agents.lookup agentID with
    | none => (s, .error .agentNotFound)
    | some agent =>
      if (⟨agentID, payload.batchID⟩ : BatchKey) ∈ s.batches then (s, .ok false)
      else
        match s.topologies.lookup agentID with
        | none => (s, .error (.noTopology agentID))
        | some record =>
          match checkItems agentID (record.topology.nodes.map NodeSpec.key) payload.items with
          | .error e => (s, .error e)
          | .ok () =>
            ({ s with
                usage := bookItems agentID s.usage payload.items
                batches := s.batches.insert ⟨agentID, payload.batchID⟩ ()
                agents := s.agents.insert agentID { agent with seenAt := some now } }, .ok true)

/-- `Usage(agentID, nodeType, nodeID, userID)` by its key. -/
def usageOf (s : Store) (k : UsageKey) : Usage := (s.usage.lookup k).getD 0

end Store

/-! ### The outcomes of a call -/

section Outcomes

variable {s s' : Store}

theorem putAgent_cases (now : ℤ) (agent : Agent) :
    (∃ e, s.putAgent now agent = (s, .error e)) ∨
      ∃ agent', s.putAgent now agent = ({ s with agents := s.agents.insert agent.id agent' }, .ok ()) := by
  unfold Store.putAgent
  by_cases h : agent.id = "" ∨ agent.secret = ""
  · exact Or.inl ⟨_, if_pos h⟩
  · refine Or.inr ⟨if agent.createdAt = none then { agent with createdAt := some now } else agent, ?_⟩
    rw [if_neg h]
    split <;> rfl

theorem putTopology_cases (now : ℤ) (revision etag agentID : String) (topology : Topology) :
    (∃ e, s.putTopology now revision etag agentID topology = (s, .error e)) ∨
      ∃ record, s.putTopology now revision etag agentID topology =
        ({ s with topologies := s.topologies.insert agentID record }, .ok ()) := by
  unfold Store.putTopology
  split
  · exact Or.inl ⟨_, rfl⟩
  · split
    · exact Or.inl ⟨_, rfl⟩
    · exact Or.inr ⟨_, rfl⟩

theorem putAgent_ok {now : ℤ} {agent : Agent} (h : (s.putAgent now agent).2 = .ok ()) :
    (s.putAgent now agent).1 = { s with
      agents := s.agents.insert agent.id { agent with createdAt := agent.createdAt.or (some now) } } := by
  unfold Store.putAgent at h ⊢
  split_ifs at h with hbad hnew
  · rw [if_neg hbad, if_pos hnew]
    simp [hnew]
  · have hold : agent.createdAt.or (some now) = agent.createdAt := by
      obtain ⟨t, ht⟩ := Option.ne_none_iff_exists'.1 hnew
      rw [ht]
      rfl
    rw [if_neg hbad, if_neg hnew, hold]

theorem putTopology_ok {now : ℤ} {revision etag agentID : String} {topology : Topology}
    (h : (s.putTopology now revision etag agentID topology).2 = .ok ()) :
    ∃ hvalid, (s.putTopology now revision etag agentID topology).1 =
      { s with topologies := s.topologies.insert agentID ⟨revision, etag, topology, some now, hvalid⟩ } := by
  unfold Store.putTopology at h ⊢
  split at h
  · cases h
  · rename_i hvalid
    split_ifs at h with hagent
    exact ⟨hvalid, by rw [if_neg (not_not.2 hagent)]⟩

/-- **What `ApplyTraffic` can do.** It fails and changes nothing; it knows the batch and changes nothing; or the batch
is new, and is booked and recorded. -/
theorem applyTraffic_cases (now : ℤ) (agentID : String) (payload : TrafficPushRequest) :
    (∃ e, s.applyTraffic now agentID payload = (s, .error e) ∧
        (payload.batchID ≠ "" → agentID ∈ s.agents → (⟨agentID, payload.batchID⟩ : BatchKey) ∉ s.batches)) ∨
      ((⟨agentID, payload.batchID⟩ : BatchKey) ∈ s.batches ∧
        s.applyTraffic now agentID payload = (s, .ok false)) ∨
      ∃ agent, payload.batchID ≠ "" ∧ s.agents.lookup agentID = some agent ∧
        (⟨agentID, payload.batchID⟩ : BatchKey) ∉ s.batches ∧
        s.applyTraffic now agentID payload =
          ({ s with
              usage := Store.bookItems agentID s.usage payload.items
              batches := s.batches.insert ⟨agentID, payload.batchID⟩ ()
              agents := s.agents.insert agentID { agent with seenAt := some now } }, .ok true) := by
  unfold Store.applyTraffic
  by_cases hid : payload.batchID = ""
  · exact Or.inl ⟨_, if_pos hid, fun h => absurd hid h⟩
  rw [if_neg hid]
  rcases hagent : s.agents.lookup agentID with _ | agent
  · exact Or.inl ⟨_, rfl, fun _ h => absurd h (AList.lookup_eq_none.1 hagent)⟩
  simp only
  by_cases hdup : (⟨agentID, payload.batchID⟩ : BatchKey) ∈ s.batches
  · exact Or.inr (Or.inl ⟨hdup, if_pos hdup⟩)
  rw [if_neg hdup]
  rcases s.topologies.lookup agentID with _ | record
  · exact Or.inl ⟨_, rfl, fun _ _ => hdup⟩
  simp only
  rcases Store.checkItems agentID (record.topology.nodes.map NodeSpec.key) payload.items with e | ⟨⟩
  · exact Or.inl ⟨_, rfl, fun _ _ => hdup⟩
  · exact Or.inr (Or.inr ⟨agent, hid, rfl, hdup, rfl⟩)

end Outcomes

/-! ### Booking a batch -/

/-- Both amounts as `int64`. -/
def wrapUsage (x : ℤ × ℤ) : Usage := (wrap64 x.1, wrap64 x.2)

/-- What a batch holds for an account. -/
def batchAmount (agentID : String) (items : List TrafficItem) (k : UsageKey) : ℤ × ℤ :=
  (items.map fun item => if Store.itemKey agentID item = k then (item.upload, item.download) else 0).sum

/-- Booking a batch adds to each account what the batch holds for it. -/
theorem getD_bookItems (agentID : String) (items : List TrafficItem) {usage : GoMap UsageKey Usage} {k : UsageKey}
    {x : ℤ × ℤ} (hx : (usage.lookup k).getD 0 = wrapUsage x) :
    ((Store.bookItems agentID usage items).lookup k).getD 0 = wrapUsage (x + batchAmount agentID items k) := by
  induction items generalizing usage x with
  | nil =>
    show (usage.lookup k).getD 0 = wrapUsage (x + 0)
    rw [hx, add_zero]
  | cons item items ih =>
    unfold Store.bookItems batchAmount
    rw [List.foldl_cons, List.map_cons, List.sum_cons, ← add_assoc]
    refine ih ?_
    rw [lookup_insert_of]
    by_cases hk : k = Store.itemKey agentID item
    · rw [if_pos hk, if_pos hk.symm, Option.getD_some, ← hk, hx]
      unfold Store.addUsage wrapUsage
      simp only [wrap64_wrap64_add, Prod.fst_add, Prod.snd_add]
    · rw [if_neg hk, if_neg (Ne.symm hk), add_zero, hx]

/-- The accounts of other agents are not touched. -/
theorem lookup_bookItems_of_ne {agentID : String} (items : List TrafficItem) (usage : GoMap UsageKey Usage)
    {k : UsageKey} (hk : k.agentID ≠ agentID) :
    (Store.bookItems agentID usage items).lookup k = usage.lookup k := by
  induction items generalizing usage with
  | nil => rfl
  | cons item items ih =>
    have hne : k ≠ Store.itemKey agentID item := fun h => hk (congrArg UsageKey.agentID h)
    unfold Store.bookItems
    rw [List.foldl_cons]
    exact (ih _).trans (AList.lookup_insert_ne hne)

/-! ### Histories -/

inductive Op
  | putAgent (now : ℤ) (agent : Agent)
  | putTopology (now : ℤ) (revision etag agentID : String) (topology : Topology)
  | applyTraffic (now : ℤ) (agentID : String) (payload : TrafficPushRequest)

/-- A call of `ApplyTraffic` that was made, with its result. -/
structure Call where
  agentID : String
  payload : TrafficPushRequest
  result : Except StoreError Bool

namespace Call

def key (c : Call) : BatchKey := ⟨c.agentID, c.payload.batchID⟩

/-- The call returned no error. -/
def ok (c : Call) : Bool := match c.result with
  | .ok _ => true
  | .error _ => false

/-- The call returned `(true, nil)`. -/
def applied (c : Call) : Bool := match c.result with
  | .ok b => b
  | .error _ => false

end Call

structure History where
  store : Store
  calls : List Call

def History.step (h : History) : Op → History
  | .putAgent now agent => { h with store := (h.store.putAgent now agent).1 }
  | .putTopology now revision etag agentID topology =>
    { h with store := (h.store.putTopology now revision etag agentID topology).1 }
  | .applyTraffic now agentID payload =>
    ⟨(h.store.applyTraffic now agentID payload).1,
      h.calls ++ [⟨agentID, payload, (h.store.applyTraffic now agentID payload).2⟩]⟩

/-- A history from an empty store. -/
def run (ops : List Op) : History := ops.foldl History.step ⟨Store.new, []⟩

/-- The first call without an error of each agent and batch that is not in `seen`. -/
def firstsFrom (seen : List BatchKey) : List Call → List Call
  | [] => []
  | c :: calls =>
    if c.ok = true ∧ c.key ∉ seen then c :: firstsFrom (c.key :: seen) calls else firstsFrom seen calls

/-- **What should be on an account**: the items for it over the batches whose first call without an error was
applied. -/
def booked (calls : List Call) (k : UsageKey) : ℤ × ℤ :=
  (((firstsFrom [] calls).filter Call.applied).map fun c => batchAmount c.agentID c.payload.items k).sum

theorem firstsFrom_concat (seen : List BatchKey) (calls : List Call) (c : Call) :
    firstsFrom seen (calls ++ [c]) = firstsFrom seen calls ++
      if c.ok = true ∧ c.key ∉ seen ∧ ∀ c' ∈ calls, c'.ok = true → c'.key ≠ c.key then [c] else [] := by
  induction calls generalizing seen with
  | nil =>
    rw [List.nil_append, firstsFrom]
    simp [firstsFrom]
  | cons c' calls ih =>
    rw [List.cons_append, firstsFrom, firstsFrom]
    by_cases h : c'.ok = true ∧ c'.key ∉ seen
    · rw [if_pos h, if_pos h, ih, List.cons_append]
      congr 2
      refine if_congr ?_ rfl rfl
      rw [List.forall_mem_cons]
      simp only [List.mem_cons, not_or, h.1, true_implies]
      constructor
      · rintro ⟨h1, ⟨h2, h3⟩, h4⟩
        exact ⟨h1, h3, fun he => h2 he.symm, h4⟩
      · rintro ⟨h1, h3, h2, h4⟩
        exact ⟨h1, ⟨fun he => h2 he.symm, h3⟩, h4⟩
    · rw [if_neg h, if_neg h, ih]
      congr 1
      refine if_congr ?_ rfl rfl
      -- the call `c'` is not new, so if it has the key of `c` the key is in `seen`
      simp only [List.forall_mem_cons]
      constructor
      · rintro ⟨h1, h2, h3⟩
        exact ⟨h1, h2, fun hok heq => h ⟨hok, heq ▸ h2⟩, h3⟩
      · rintro ⟨h1, h2, -, h3⟩
        exact ⟨h1, h2, h3⟩

/-- A further call counts when it is the first of its batch and is applied. -/
theorem booked_concat (calls : List Call) (c : Call) (k : UsageKey) :
    booked (calls ++ [c]) k = booked calls k +
      if c.applied = true ∧ ∀ c' ∈ calls, c'.ok = true → c'.key ≠ c.key then
        batchAmount c.agentID c.payload.items k else 0 := by
  have hok : c.applied = true → c.ok = true := by
    unfold Call.applied Call.ok
    cases c.result <;> simp
  unfold booked
  rw [firstsFrom_concat, List.filter_append, List.map_append, List.sum_append]
  congr 1
  by_cases happ : c.applied = true
  · simp only [hok happ, List.not_mem_nil, not_false_eq_true, true_and, happ]
    split <;> simp [happ]
  · simp only [happ, Bool.false_eq_true, false_and, if_false]
    split <;> simp [happ]

/-! ### The ledger -/

/-- What every history keeps. -/
structure Inv (h : History) : Prop where
  usage : ∀ k, h.store.usageOf k = wrapUsage (booked h.calls k)
  /-- the batches on record are those of the calls without an error -/
  batches : ∀ bk, bk ∈ h.store.batches ↔ ∃ c ∈ h.calls, c.ok = true ∧ c.key = bk
  /-- and their agents are still there -/
  agents : ∀ c ∈ h.calls, c.ok = true → c.agentID ∈ h.store.agents ∧ c.payload.batchID ≠ ""

theorem inv_new : Inv ⟨Store.new, []⟩ :=
  ⟨fun _ => rfl, fun bk => ⟨fun h => absurd h (AList.notMem_empty bk), fun ⟨_, h, _⟩ => (nomatch h)⟩,
    fun _ h => (nomatch h)⟩

/-- A call that is not applied changes nothing, as long as its batch is on record if it returned no error. -/
theorem Inv.not_applied {h : History} (hi : Inv h) {c : Call} (hnot : c.applied = false)
    (hknown : c.ok = true → ∃ c₀ ∈ h.calls, c₀.ok = true ∧ c₀.key = c.key) : Inv ⟨h.store, h.calls ++ [c]⟩ := by
  refine ⟨fun k => ?_, fun bk => ?_, fun c' hc' hok => ?_⟩
  · rw [booked_concat, if_neg (by simp [hnot]), add_zero]
    exact hi.usage k
  · rw [hi.batches bk]
    constructor
    · rintro ⟨c', hc', hok, hkey⟩
      exact ⟨c', List.mem_append_left _ hc', hok, hkey⟩
    · rintro ⟨c', hc', hok, hkey⟩
      rcases List.mem_append.1 hc' with hc' | hc'
      · exact ⟨c', hc', hok, hkey⟩
      · rw [List.mem_singleton.1 hc'] at hok hkey
        obtain ⟨c₀, hc₀, hok₀, hkey₀⟩ := hknown hok
        exact ⟨c₀, hc₀, hok₀, hkey₀.trans hkey⟩
  · rcases List.mem_append.1 hc' with hc' | hc'
    · exact hi.agents c' hc' hok
    · rw [List.mem_singleton.1 hc'] at hok ⊢
      obtain ⟨c₀, hc₀, hok₀, hkey₀⟩ := hknown hok
      obtain ⟨h1, h2⟩ := hi.agents c₀ hc₀ hok₀
      have ha : c₀.agentID = c.agentID := congrArg BatchKey.agentID hkey₀
      have hb : c₀.payload.batchID = c.payload.batchID := congrArg BatchKey.batchID hkey₀
      exact ⟨ha ▸ h1, hb ▸ h2⟩

theorem inv_applyTraffic {h : History} (hi : Inv h) (now : ℤ) (agentID : String) (payload : TrafficPushRequest) :
    Inv (h.step (.applyTraffic now agentID payload)) := by
  unfold History.step
  rcases applyTraffic_cases (s := h.store) now agentID payload with
    ⟨e, heq, -⟩ | ⟨hdup, heq⟩ | ⟨agent, hid, hagent, hnew, heq⟩
  · -- an error: the call counts for nothing
    simp only [heq]
    exact hi.not_applied rfl (fun hok => absurd hok Bool.false_ne_true)
  · -- a batch on record: an earlier call has its key
    simp only [heq]
    exact hi.not_applied rfl (fun _ => (hi.batches _).1 hdup)
  · -- a new batch: no earlier call has its key
    simp only [heq]
    have hfirst : ∀ c' ∈ h.calls, c'.ok = true → c'.key ≠ (⟨agentID, payload, .ok true⟩ : Call).key :=
      fun c' hc' hok' hkey => hnew ((hi.batches _).2 ⟨c', hc', hok', hkey⟩)
    refine ⟨fun k => ?_, fun bk => ?_, fun c hc hok => ?_⟩
    · rw [booked_concat, if_pos ⟨rfl, hfirst⟩]
      exact getD_bookItems agentID payload.items (hi.usage k)
    · show bk ∈ h.store.batches.insert _ () ↔ _
      rw [AList.mem_insert, hi.batches bk]
      constructor
      · rintro (rfl | ⟨c, hc, hok, hkey⟩)
        · exact ⟨_, List.mem_append_right _ (List.mem_singleton_self _), rfl, rfl⟩
        · exact ⟨c, List.mem_append_left _ hc, hok, hkey⟩
      · rintro ⟨c, hc, hok, hkey⟩
        rcases List.mem_append.1 hc with hc | hc
        · exact Or.inr ⟨c, hc, hok, hkey⟩
        · rw [List.mem_singleton.1 hc] at hkey
          exact Or.inl hkey.symm
    · show c.agentID ∈ h.store.agents.insert agentID _ ∧ _
      rw [AList.mem_insert]
      rcases List.mem_append.1 hc with hc | hc
      · exact ⟨Or.inr (hi.agents c hc hok).1, (hi.agents c hc hok).2⟩
      · rw [List.mem_singleton.1 hc]
        exact ⟨Or.inl rfl, hid⟩

theorem inv_step {h : History} (hi : Inv h) (op : Op) : Inv (h.step op) := by
  cases op with
  | putAgent now agent =>
    unfold History.step
    rcases putAgent_cases (s := h.store) now agent with ⟨e, heq⟩ | ⟨agent', heq⟩
    · simp only [heq]
      exact hi
    · simp only [heq]
      refine ⟨hi.usage, hi.batches, fun c hc hok => ⟨?_, (hi.agents c hc hok).2⟩⟩
      show c.agentID ∈ h.store.agents.insert agent.id agent'
      rw [AList.mem_insert]
      exact Or.inr (hi.agents c hc hok).1
  | putTopology now revision etag agentID topology =>
    unfold History.step
    rcases putTopology_cases (s := h.store) now revision etag agentID topology with ⟨e, heq⟩ | ⟨record, heq⟩
    · simp only [heq]
      exact hi
    · simp only [heq]
      exact ⟨hi.usage, hi.batches, hi.agents⟩
  | applyTraffic now agentID payload => exact inv_applyTraffic hi now agentID payload

theorem inv_run (ops : List Op) : Inv (run ops) :=
  List.foldlRecOn ops History.step inv_new fun _ hi op _ => inv_step hi op

/-- The call returned an error, or `false` for a batch it knew. -/
def Op.Refused (s : Store) : Op → Prop
  | .putAgent now agent => ∃ e, (s.putAgent now agent).2 = .error e
  | .putTopology now revision etag agentID topology =>
    ∃ e, (s.putTopology now revision etag agentID topology).2 = .error e
  | .applyTraffic now agentID payload => (s.applyTraffic now agentID payload).2 ≠ .ok true

/-- A call that is refused leaves no trace. -/
theorem store_of_refused {h : History} {op : Op} (hr : op.Refused h.store) : (h.step op).store = h.store := by
  cases op with
  | putAgent now agent =>
    obtain ⟨e, he⟩ := hr
    rcases putAgent_cases (s := h.store) now agent with ⟨e', heq⟩ | ⟨agent', heq⟩
    · simp only [History.step, heq]
    · rw [heq] at he
      cases he
  | putTopology now revision etag agentID topology =>
    obtain ⟨e, he⟩ := hr
    rcases putTopology_cases (s := h.store) now revision etag agentID topology with ⟨e', heq⟩ | ⟨record, heq⟩
    · simp only [History.step, heq]
    · rw [heq] at he
      cases he
  | applyTraffic now agentID payload =>
    rcases applyTraffic_cases (s := h.store) now agentID payload with ⟨e, heq, -⟩ | ⟨-, heq⟩ | ⟨agent, -, -, -, heq⟩
    · simp only [History.step, heq]
    · simp only [History.step, heq]
    · exact absurd (congrArg Prod.snd heq) hr

/-- **The ledger of the panel is exactly-once and all-or-nothing.** After any history of registrations, topologies
and traffic:

* each account holds the `int64` sum of its items over the batches whose first call without an error was applied;
* a batch that was applied is known for good, whatever the topology has become;
* a call that returns an error, or `false`, leaves the store as it is;
* a call that is applied touches no account and no batch of another agent. -/
theorem ledger_exactly_once (ops : List Op) :
    (∀ k, (run ops).store.usageOf k = wrapUsage (booked (run ops).calls k)) ∧
    (∀ c ∈ (run ops).calls, c.applied = true → ∀ now payload, payload.batchID = c.payload.batchID →
      ((run ops).store.applyTraffic now c.agentID payload).2 = .ok false) ∧
    (∀ op : Op, op.Refused (run ops).store → ((run ops).step op).store = (run ops).store) ∧
    (∀ now agentID payload, ((run ops).store.applyTraffic now agentID payload).2 = .ok true →
      (∀ k : UsageKey, k.agentID ≠ agentID →
        ((run ops).store.applyTraffic now agentID payload).1.usage.lookup k = (run ops).store.usage.lookup k) ∧
      ∀ bk : BatchKey, bk.agentID ≠ agentID →
        ((run ops).store.applyTraffic now agentID payload).1.batches.lookup bk =
          (run ops).store.batches.lookup bk) := by
  have hi := inv_run ops
  refine ⟨hi.usage, fun c hc happ now payload hbatch => ?_, fun op hr => store_of_refused hr,
    fun now agentID payload happ => ?_⟩
  · have hok : c.ok = true := by
      unfold Call.applied at happ
      unfold Call.ok
      rcases hres : c.result with e | b
      · rw [hres] at happ
        cases happ
      · rfl
    obtain ⟨hagent, hid⟩ := hi.agents c hc hok
    have hknown : (⟨c.agentID, payload.batchID⟩ : BatchKey) ∈ (run ops).store.batches := by
      rw [hbatch]
      exact (hi.batches _).2 ⟨c, hc, hok, rfl⟩
    rcases applyTraffic_cases (s := (run ops).store) now c.agentID payload with
      ⟨e, -, hnot⟩ | ⟨-, heq⟩ | ⟨agent, -, -, hnew, -⟩
    · exact absurd hknown (hnot (hbatch ▸ hid) hagent)
    · rw [heq]
    · exact absurd hknown hnew
  · rcases applyTraffic_cases (s := (run ops).store) now agentID payload with
      ⟨e, heq, -⟩ | ⟨-, heq⟩ | ⟨agent, -, -, -, heq⟩
    · rw [heq] at happ
      cases happ
    · rw [heq] at happ
      cases happ
    · rw [heq]
      refine ⟨fun k hk => lookup_bookItems_of_ne payload.items _ hk, fun bk hbk => ?_⟩
      exact AList.lookup_insert_ne fun h => hbk (congrArg BatchKey.agentID h)

end MiniSbAgent.Panelserver
