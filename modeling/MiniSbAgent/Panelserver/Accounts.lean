import MiniSbAgent.Panelserver.Store

/-!
# The accounts of the panel

An account is named by an agent, a user and the key of a node, which joins a protocol and an id by a colon.  Both
parts of the key come from the item: its protocol is any text, and an id may hold colons of its own.  What is added to
an account is added in `int64`.

* `nodeKey_inj` — a key can be taken apart again when the protocol has no colon;
* `booked_on_own_node` — the items of an applied batch name nodes of the agent exactly when their protocols have none;
* `AddsFit` — no addition of a batch overflows;
* `usage_monotone_iff` — accounts never go down exactly when none is ever given more than an `int64` can hold.
-/

namespace MiniSbAgent.Panelserver

open MiniSbAgent.Go MiniSbAgent.Panelapi

/-! ### Applied batches -/

theorem checkItems_ok_iff (agentID : String) (owned : List String) (items : List TrafficItem) :
    Store.checkItems agentID owned items = .ok () ↔ ∀ item ∈ items, Store.checkItem agentID owned item = .ok () := by
  induction items with
  | nil => simp [Store.checkItems]
  | cons item items ih =>
    rw [Store.checkItems, List.forall_mem_cons, ← ih]
    rcases Store.checkItem agentID owned item with e | ⟨⟩ <;> simp

theorem checkItem_ok_iff (agentID : String) (owned : List String) (item : TrafficItem) :
    Store.checkItem agentID owned item = .ok () ↔
      (item.nodeID ≠ "" ∧ item.nodeType ≠ "" ∧ 0 < item.userID ∧ 0 ≤ item.upload ∧ 0 ≤ item.download) ∧
        nodeKey item.nodeType item.nodeID ∈ owned := by
  unfold Store.checkItem
  by_cases hbad : item.nodeID = "" ∨ item.nodeType = "" ∨ item.userID ≤ 0 ∨ item.upload < 0 ∨ item.download < 0
  · simp only [hbad, if_true, reduceCtorEq, false_iff]
    rintro ⟨⟨h1, h2, h3, h4, h5⟩, -⟩
    rcases hbad with h | h | h | h | h
    · exact h1 h
    · exact h2 h
    · omega
    · omega
    · omega
  · rw [if_neg hbad]
    push Not at hbad
    by_cases hown : nodeKey item.nodeType item.nodeID ∈ owned
    · simp [hbad, hown]
    · simp [hown]

/-- An applied batch has passed the checks against the topology of its agent. -/
theorem applyTraffic_true {s : Store} {now : ℤ} {agentID : String} {payload : TrafficPushRequest}
    (h : (s.applyTraffic now agentID payload).2 = .ok true) :
    ∃ record, s.topologies.lookup agentID = some record ∧ ∀ item ∈ payload.items,
      Store.checkItem agentID (record.topology.nodes.map NodeSpec.key) item = .ok () := by
  unfold Store.applyTraffic at h
  split at h
  · cases h
  · split at h
    · cases h
    · split at h
      · cases h
      · split at h
        · cases h
        · rename_i record hrecord
          split at h
          · cases h
          · rename_i hcheck
            exact ⟨record, hrecord, (checkItems_ok_iff _ _ _).1 hcheck⟩

/-! ### Whose node it is -/

theorem append_cons_inj {α : Type} {x : α} {a a' b b' : List α} (ha : x ∉ a) (ha' : x ∉ a')
    (h : a ++ x :: b = a' ++ x :: b') : a = a' ∧ b = b' := by
  induction a generalizing a' with
  | nil =>
    cases a' with
    | nil =>
      cases h
      exact ⟨rfl, rfl⟩
    | cons y a' =>
      cases h
      exact absurd List.mem_cons_self ha'
  | cons y a ih =>
    cases a' with
    | nil =>
      cases h
      exact absurd List.mem_cons_self ha
    | cons y' a' =>
      rw [List.cons_append, List.cons_append, List.cons.injEq] at h
      obtain ⟨h1, h2⟩ := ih (fun hx => ha (List.mem_cons_of_mem _ hx)) (fun hx => ha' (List.mem_cons_of_mem _ hx)) h.2
      exact ⟨by rw [h.1, h1], h2⟩

/-- The normalised protocol has no colon. -/
def PlainType (nodeType : String) : Prop := ':' ∉ (normalizeNodeType nodeType).toList

instance (nodeType : String) : Decidable (PlainType nodeType) := by unfold PlainType; infer_instance

/-- The two parts of the key are the same. -/
def SameNode (nodeType nodeID nodeType' nodeID' : String) : Prop :=
  normalizeNodeType nodeType = normalizeNodeType nodeType' ∧ trimSpace nodeID = trimSpace nodeID'

instance (t i t' i' : String) : Decidable (SameNode t i t' i') := by unfold SameNode; infer_instance

/-- **A key can be taken apart when its protocol has no colon.** -/
theorem nodeKey_inj {t t' i i' : String} (ht : PlainType t) (ht' : PlainType t')
    (h : nodeKey t i = nodeKey t' i') : SameNode t i t' i' := by
  have hlist : (normalizeNodeType t).toList ++ ':' :: (trimSpace i).toList =
      (normalizeNodeType t').toList ++ ':' :: (trimSpace i').toList := by
    have := congrArg String.toList h
    simpa [nodeKey] using this
  obtain ⟨h1, h2⟩ := append_cons_inj ht ht' hlist
  exact ⟨String.ext h1, String.ext h2⟩

theorem plainType_of_typeOk {n : NodeSpec} (h : n.TypeOk) : PlainType n.nodeType := by
  unfold PlainType
  rcases h with h | h
  · rw [h]
    decide
  · rw [h]
    decide

/-- The item names a node of the topology by both parts of its identity. -/
def NamesNode (topology : Topology) (item : TrafficItem) : Prop :=
  ∃ n ∈ topology.nodes, SameNode n.nodeType n.nodeID item.nodeType item.nodeID

instance (topology : Topology) (item : TrafficItem) : Decidable (NamesNode topology item) := by
  unfold NamesNode; infer_instance

/-- **Whose nodes an applied batch names.** In every reachable store:

* the items of a batch that is applied name nodes of the agent's topology by protocol and id exactly when none of
  their normalised protocols has a colon;
* accounts of one agent and user that are named by different nodes, without colons in the protocols, are different. -/
theorem booked_on_own_node (ops : List Op) :
    (∀ now agentID payload, ((run ops).store.applyTraffic now agentID payload).2 = .ok true →
      ∃ record, (run ops).store.topologies.lookup agentID = some record ∧
        ((∀ item ∈ payload.items, NamesNode record.topology item) ↔
          ∀ item ∈ payload.items, PlainType item.nodeType)) ∧
    (∀ agentID userID t i t' i', PlainType t → PlainType t' →
      (⟨agentID, nodeKey t i, userID⟩ : UsageKey) = ⟨agentID, nodeKey t' i', userID⟩ → SameNode t i t' i') := by
  refine ⟨fun now agentID payload happ => ?_, fun agentID userID t i t' i' ht ht' h =>
    nodeKey_inj ht ht' (UsageKey.mk.inj h).2.1⟩
  obtain ⟨record, hrecord, hitems⟩ := applyTraffic_true happ
  have hvalid := (validate_ok_iff record.topology).1 record.valid
  refine ⟨record, hrecord, fun h item hitem => ?_, fun h item hitem => ?_⟩
  · obtain ⟨n, hn, htype, -⟩ := h item hitem
    have := plainType_of_typeOk (hvalid.ok n hn).type
    unfold PlainType at this ⊢
    rwa [← htype]
  · obtain ⟨-, hown⟩ := (checkItem_ok_iff _ _ _).1 (hitems item hitem)
    obtain ⟨n, hn, hkey⟩ := List.mem_map.1 hown
    unfold NodeSpec.key at hkey
    exact ⟨n, hn, nodeKey_inj (plainType_of_typeOk (hvalid.ok n hn).type) (h item hitem) hkey⟩

/-- A VLESS node with a colon in its id. -/
def colonTopology : Topology := ⟨[⟨"hysteria:21", "vless", "", ⟨"direct", "", 0, "", "", "", ""⟩⟩]⟩

/-- One agent, which has that node. -/
def colonHistory : List Op :=
  [.putAgent 0 ⟨"edge", "", "secret", none, none⟩, .putTopology 0 "r1" "e1" "edge" colonTopology]

/-- **A colon can move from the id to the protocol.** The agent has no node `21` of a protocol `vless:hysteria`, but
traffic for it is applied, and goes to the account of the node `hysteria:21` of protocol `vless`. -/
theorem colon_identity_booked :
    let item : TrafficItem := ⟨"21", "vless:hysteria", 1, 100, 0⟩
    let applied := (run colonHistory).store.applyTraffic 1 "edge" ⟨"b1", [item]⟩
    applied.2 = .ok true ∧ ¬ NamesNode colonTopology item ∧
      ¬ SameNode "vless:hysteria" "21" "vless" "hysteria:21" ∧
      applied.1.usageOf ⟨"edge", nodeKey "vless" "hysteria:21", 1⟩ = (100, 0) := by
  decide +kernel

/-! ### Additions that fit -/

/-- The largest amounts that an account can hold. -/
def maxUsage : Usage := (maxInt64, maxInt64)

/-- What an account holds. -/
def heldBy (usage : GoMap UsageKey Usage) (k : UsageKey) : Usage := (usage.lookup k).getD 0

/-- The accounts after one turn of the loop over the items. -/
def bookItem (agentID : String) (usage : GoMap UsageKey Usage) (item : TrafficItem) : GoMap UsageKey Usage :=
  usage.insert (Store.itemKey agentID item) (Store.addUsage (heldBy usage (Store.itemKey agentID item)) item)

/-- No addition of the loop overflows. -/
def AddsFit (agentID : String) (usage : GoMap UsageKey Usage) : List TrafficItem → Prop
  | [] => True
  | item :: items =>
    heldBy usage (Store.itemKey agentID item) + (item.upload, item.download) ≤ maxUsage ∧
      AddsFit agentID (bookItem agentID usage item) items

/-- The amounts of the item are not negative. -/
def TrafficItem.Nonneg (item : TrafficItem) : Prop := 0 ≤ item.upload ∧ 0 ≤ item.download

theorem addUsage_of_fits {old : Usage} {item : TrafficItem} (h0 : 0 ≤ old) (hitem : item.Nonneg)
    (hfit : old + (item.upload, item.download) ≤ maxUsage) :
    Store.addUsage old item = old + (item.upload, item.download) := by
  unfold Store.addUsage
  rw [wrap64_of_le (add_nonneg h0.1 hitem.1) hfit.1, wrap64_of_le (add_nonneg h0.2 hitem.2) hfit.2]
  rfl

theorem batchAmount_cons (agentID : String) (item : TrafficItem) (items : List TrafficItem) (k : UsageKey) :
    batchAmount agentID (item :: items) k =
      (if Store.itemKey agentID item = k then (item.upload, item.download) else 0) + batchAmount agentID items k := by
  unfold batchAmount
  rw [List.map_cons, List.sum_cons]

theorem batchAmount_nonneg {agentID : String} {items : List TrafficItem} (h : ∀ item ∈ items, item.Nonneg)
    (k : UsageKey) : 0 ≤ batchAmount agentID items k := by
  refine List.sum_nonneg fun x hx => ?_
  obtain ⟨item, hitem, rfl⟩ := List.mem_map.1 hx
  split
  · exact h item hitem
  · exact le_rfl

theorem heldBy_insert (usage : GoMap UsageKey Usage) (k k' : UsageKey) (v : Usage) :
    heldBy (usage.insert k v) k' = if k' = k then v else heldBy usage k' := by
  unfold heldBy
  rw [lookup_insert_of]
  split <;> rfl

/-- Booking one item that fits. -/
theorem heldBy_book {agentID : String} {usage : GoMap UsageKey Usage} {item : TrafficItem}
    (h0 : ∀ k, 0 ≤ heldBy usage k) (hitem : item.Nonneg)
    (hfit : heldBy usage (Store.itemKey agentID item) + (item.upload, item.download) ≤ maxUsage) (k : UsageKey) :
    heldBy (bookItem agentID usage item) k =
      heldBy usage k + if Store.itemKey agentID item = k then (item.upload, item.download) else 0 := by
  rw [bookItem, heldBy_insert, addUsage_of_fits (h0 _) hitem hfit]
  by_cases hk : k = Store.itemKey agentID item
  · rw [if_pos hk, if_pos hk.symm, hk]
  · rw [if_neg hk, if_neg (Ne.symm hk), add_zero]

/-- **The additions of a batch fit exactly when each account can hold what the batch brings it.** -/
theorem addsFit_iff {agentID : String} {items : List TrafficItem} (hitems : ∀ item ∈ items, item.Nonneg)
    {usage : GoMap UsageKey Usage} (h0 : ∀ k, 0 ≤ heldBy usage k) (h1 : ∀ k, heldBy usage k ≤ maxUsage) :
    AddsFit agentID usage items ↔ ∀ k, heldBy usage k + batchAmount agentID items k ≤ maxUsage := by
  induction items generalizing usage with
  | nil =>
    refine ⟨fun _ k => ?_, fun _ => trivial⟩
    rw [show batchAmount agentID [] k = 0 from rfl, add_zero]
    exact h1 k
  | cons item items ih =>
    have hitem := hitems item List.mem_cons_self
    have hrest : ∀ item ∈ items, item.Nonneg := fun i hi => hitems i (List.mem_cons_of_mem _ hi)
    rw [AddsFit]
    by_cases hfit : heldBy usage (Store.itemKey agentID item) + (item.upload, item.download) ≤ maxUsage
    · -- the item fits: go on with the accounts it leaves
      have hbook := heldBy_book h0 hitem hfit
      have hstep : ∀ k, 0 ≤ if Store.itemKey agentID item = k then (item.upload, item.download) else (0 : ℤ × ℤ) := by
        intro k
        split
        · exact hitem
        · exact le_rfl
      have h0' : ∀ k, 0 ≤ heldBy (bookItem agentID usage item) k := by
        intro k
        rw [hbook]
        exact add_nonneg (h0 k) (hstep k)
      have h1' : ∀ k, heldBy (bookItem agentID usage item) k ≤ maxUsage := by
        intro k
        rw [hbook]
        split
        · rename_i hk
          exact hk ▸ hfit
        · rw [add_zero]
          exact h1 k
      rw [ih hrest h0' h1']
      simp only [hfit, true_and, hbook, batchAmount_cons, add_assoc]
    · refine ⟨fun h => absurd h.1 hfit, fun h => absurd ?_ hfit⟩
      have hk := h (Store.itemKey agentID item)
      rw [batchAmount_cons, if_pos rfl, ← add_assoc] at hk
      exact (le_add_of_nonneg_right (batchAmount_nonneg hrest _)).trans hk

/-! ### Accounts over a history -/

namespace Op

/-- What a call brings an account: the items of the batch for it, when the batch is applied. -/
def amount (s : Store) (k : UsageKey) : Op → ℤ × ℤ
  | .applyTraffic now agentID payload =>
    match (s.applyTraffic now agentID payload).2 with
    | .ok true => batchAmount agentID payload.items k
    | _ => 0
  | _ => 0

/-- No addition of the call overflows. -/
def NoOverflow (s : Store) : Op → Prop
  | .applyTraffic now agentID payload =>
    (s.applyTraffic now agentID payload).2 = .ok true → AddsFit agentID s.usage payload.items
  | _ => True

/-- **The call adds up**: no addition overflows, and no account goes down or below zero. -/
def AddsUp (h : History) (op : Op) : Prop :=
  op.NoOverflow h.store ∧
    ∀ k, 0 ≤ (h.step op).store.usageOf k ∧ h.store.usageOf k ≤ (h.step op).store.usageOf k

end Op

theorem nonneg_of_applied {s : Store} {now : ℤ} {agentID : String} {payload : TrafficPushRequest}
    (h : (s.applyTraffic now agentID payload).2 = .ok true) : ∀ item ∈ payload.items, item.Nonneg := by
  obtain ⟨record, -, hitems⟩ := applyTraffic_true h
  intro item hitem
  obtain ⟨⟨-, -, -, hup, hdown⟩, -⟩ := (checkItem_ok_iff _ _ _).1 (hitems item hitem)
  exact ⟨hup, hdown⟩

section Amount

variable {s : Store} {now : ℤ} {agentID : String} {payload : TrafficPushRequest}

theorem amount_of_applied (h : (s.applyTraffic now agentID payload).2 = .ok true) (k : UsageKey) :
    (Op.applyTraffic now agentID payload).amount s k = batchAmount agentID payload.items k := by
  simp only [Op.amount, h]

theorem amount_of_refused (h : (s.applyTraffic now agentID payload).2 ≠ .ok true) (k : UsageKey) :
    (Op.applyTraffic now agentID payload).amount s k = 0 := by
  rcases hres : (s.applyTraffic now agentID payload).2 with e | ⟨_ | _⟩
  · simp only [Op.amount, hres]
  · simp only [Op.amount, hres]
  · exact absurd hres h

end Amount

theorem amount_nonneg (s : Store) (op : Op) (k : UsageKey) : 0 ≤ op.amount s k := by
  cases op with
  | putAgent => exact le_rfl
  | putTopology => exact le_rfl
  | applyTraffic now agentID payload =>
    by_cases happ : (s.applyTraffic now agentID payload).2 = .ok true
    · rw [amount_of_applied happ]
      exact batchAmount_nonneg (nonneg_of_applied happ) k
    · rw [amount_of_refused happ]

/-- What should be on an account grows by what each call brings it. -/
theorem booked_step {h : History} (hi : Inv h) (op : Op) (k : UsageKey) :
    booked (h.step op).calls k = booked h.calls k + op.amount h.store k := by
  cases op with
  | putAgent => exact (add_zero _).symm
  | putTopology => exact (add_zero _).symm
  | applyTraffic now agentID payload =>
    refine (booked_concat h.calls ⟨agentID, payload, (h.store.applyTraffic now agentID payload).2⟩ k).trans ?_
    congr 1
    by_cases happ : (h.store.applyTraffic now agentID payload).2 = .ok true
    · rw [amount_of_applied happ, if_pos]
      refine ⟨by rw [Call.applied, happ], fun c' hc' hok' hkey => ?_⟩
      -- a batch of an earlier call is on record, and would not have been applied
      have hknown := (hi.batches _).2 ⟨c', hc', hok', hkey⟩
      rcases applyTraffic_cases (s := h.store) now agentID payload with ⟨e, heq, -⟩ | ⟨-, heq⟩ | ⟨-, -, -, hnew, -⟩
      · rw [heq] at happ
        cases happ
      · rw [heq] at happ
        cases happ
      · exact hnew hknown
    · rw [amount_of_refused happ, if_neg]
      rintro ⟨hc, -⟩
      unfold Call.applied at hc
      simp only at hc
      split at hc
      · rename_i b hb
        rw [hc] at hb
        exact happ hb
      · cases hc

theorem run_concat (ops : List Op) (op : Op) : run (ops ++ [op]) = (run ops).step op := by
  unfold run
  rw [List.foldl_append]
  rfl

theorem booked_nonneg (ops : List Op) (k : UsageKey) : 0 ≤ booked (run ops).calls k := by
  induction ops using List.reverseRecOn with
  | nil => exact le_rfl
  | append_singleton ops op ih =>
    rw [run_concat, booked_step (inv_run ops)]
    exact add_nonneg ih (amount_nonneg _ op k)

/-- An account holds what it should as long as an `int64` can. -/
theorem usageOf_of_fits {ops : List Op} {k : UsageKey} (h : booked (run ops).calls k ≤ maxUsage) :
    (run ops).store.usageOf k = booked (run ops).calls k := by
  have h0 := booked_nonneg ops k
  rw [(inv_run ops).usage]
  unfold wrapUsage
  rw [wrap64_of_le h0.1 h.1, wrap64_of_le h0.2 h.2]

/-- One more call adds up exactly when the accounts can hold what it brings. -/
theorem addsUp_iff {ops : List Op} (h : ∀ k, booked (run ops).calls k ≤ maxUsage) (op : Op) :
    op.AddsUp (run ops) ↔ ∀ k, booked (run (ops ++ [op])).calls k ≤ maxUsage := by
  have hstep : ∀ k, booked (run (ops ++ [op])).calls k = booked (run ops).calls k + op.amount (run ops).store k := by
    intro k
    rw [run_concat, booked_step (inv_run ops)]
  have hfit : op.NoOverflow (run ops).store ↔ ∀ k, booked (run (ops ++ [op])).calls k ≤ maxUsage := by
    simp only [hstep]
    cases op with
    | putAgent now agent => simpa [Op.NoOverflow, Op.amount] using h
    | putTopology now revision etag agentID topology => simpa [Op.NoOverflow, Op.amount] using h
    | applyTraffic now agentID payload =>
      have hheld : ∀ k, heldBy (run ops).store.usage k = booked (run ops).calls k := fun k => usageOf_of_fits (h k)
      simp only [Op.NoOverflow]
      by_cases happ : ((run ops).store.applyTraffic now agentID payload).2 = .ok true
      · simp only [happ, true_implies, amount_of_applied happ]
        rw [addsFit_iff (nonneg_of_applied happ) (fun k => hheld k ▸ booked_nonneg ops k) (fun k => hheld k ▸ h k)]
        simp only [hheld]
      · simpa [happ, amount_of_refused happ] using h
  refine ⟨fun hadds => hfit.1 hadds.1, fun hnext => ⟨hfit.2 hnext, fun k => ?_⟩⟩
  have hk := hnext k
  rw [← run_concat, usageOf_of_fits hk, usageOf_of_fits (h k)]
  refine ⟨booked_nonneg _ k, ?_⟩
  rw [hstep]
  exact le_add_of_nonneg_right (amount_nonneg _ op k)

/-- **When usage never goes down.** Along a history every call adds up exactly when no account is given more than an
`int64` holds: for each account, the uploads of all applied items for it sum to at most `2^63 - 1`, and so do the
downloads. -/
theorem usage_monotone_iff (ops : List Op) :
    (∀ pre op post, ops = pre ++ op :: post → op.AddsUp (run pre)) ↔ ∀ k, booked (run ops).calls k ≤ maxUsage := by
  induction ops using List.reverseRecOn with
  | nil =>
    refine ⟨fun _ k => ?_, fun _ pre op post h => absurd h (by simp)⟩
    show (0 : ℤ × ℤ) ≤ maxUsage
    decide
  | append_singleton ops op ih =>
    constructor
    · intro hall
      have hbefore : ∀ k, booked (run ops).calls k ≤ maxUsage := by
        refine ih.1 fun pre op' post h => hall pre op' (post ++ [op]) ?_
        rw [h, List.append_assoc, List.cons_append]
      exact (addsUp_iff hbefore op).1 (hall ops op [] rfl)
    · intro hafter pre op' post h
      have hbefore : ∀ k, booked (run ops).calls k ≤ maxUsage := by
        intro k
        have hk := hafter k
        rw [run_concat, booked_step (inv_run ops)] at hk
        exact (le_add_of_nonneg_right (amount_nonneg _ op k)).trans hk
      -- the call is the last one, or one of those before it
      rcases List.eq_nil_or_concat post with rfl | ⟨post', last, rfl⟩
      · obtain ⟨rfl, heq⟩ := List.append_inj' h rfl
        cases heq
        exact (addsUp_iff hbefore op).2 hafter
      · have hlast : ops = pre ++ op' :: post' := by
          have : ops ++ [op] = (pre ++ op' :: post') ++ [last] := by rw [h]; simp
          exact (List.append_inj' this rfl).1
        exact ih.2 hbefore pre op' post' hlast

/-- **Two batches can take an account below zero.** -/
theorem usage_wraps :
    let item (upload : ℤ) : TrafficItem := ⟨"hysteria:21", "vless", 1, upload, 0⟩
    let first := run (colonHistory ++ [.applyTraffic 1 "edge" ⟨"b1", [item maxInt64]⟩])
    let second := first.step (.applyTraffic 2 "edge" ⟨"b2", [item 1]⟩)
    let k : UsageKey := ⟨"edge", nodeKey "vless" "hysteria:21", 1⟩
    second.calls.map Call.applied = [true, true] ∧ first.store.usageOf k = (maxInt64, 0) ∧
      second.store.usageOf k = (-maxInt64 - 1, 0) := by
  decide +kernel

end MiniSbAgent.Panelserver
