import MiniSbAgent.Go.Strings

/-!
# Topologies

A topology lists the nodes one agent serves.  A node is named three times over: by its key (normalised protocol and
trimmed id), by the tag of its inbound and by the tag of its outbound.  All three are built by lossy
normalisation, and `Topology.validate` is what makes them injective on the nodes of one topology.

* `validate` scans the nodes in order and stops at the first fault, as the source does;
* `validate_ok_iff` — it accepts exactly the topologies that are `Valid`.
-/

namespace MiniSbAgent.Panelapi

open MiniSbAgent.Go

structure OutboundSpec where
  type : String
  server : String
  serverPort : ℤ
  method : String
  password : String
  plugin : String
  pluginOpts : String
deriving Repr, DecidableEq

structure NodeSpec where
  nodeID : String
  nodeType : String
  tag : String
  outbound : OutboundSpec
deriving Repr, DecidableEq

structure Topology where
  nodes : List NodeSpec
deriving Repr, DecidableEq

/-! ### The names of a node -/

def normalizeNodeType (nodeType : String) : String :=
  let t := toLower (trimSpace nodeType)
  if t = "vless" ∨ t = "vless-reality" ∨ t = "reality" then "vless"
  else if t = "hy2" ∨ t = "hysteria" ∨ t = "hysteria2" then "hysteria"
  else t

/-- The class `[^a-zA-Z0-9_-]` of `tagUnsafe`. -/
def tagUnsafe (c : Char) : Bool :=
  !(c.isAlphanum || c == '_' || c == '-')

def safeTagPart (value : String) : String :=
  trim (replaceRuns tagUnsafe '-' (trimSpace value)) '-'

/-- The error carries the trimmed id, which its text quotes. -/
def validateNodeID (id : String) : Except String Unit :=
  let id := trimSpace id
  if id = "" ∨ contains id "/" ∨ contains id "\\" ∨ contains id ".." then .error id else .ok ()

def nodeKey (nodeType nodeID : String) : String :=
  normalizeNodeType nodeType ++ ":" ++ trimSpace nodeID

namespace NodeSpec

def key (n : NodeSpec) : String := nodeKey n.nodeType n.nodeID

/-- The protocol as the two tags spell it. -/
def tagProtocol (n : NodeSpec) : String :=
  let protocol := normalizeNodeType n.nodeType
  if protocol = "hysteria" then "hy2" else protocol

def inboundTag (n : NodeSpec) : String :=
  if safeTagPart n.tag ≠ "" then safeTagPart n.tag
  else n.tagProtocol ++ "-" ++ safeTagPart n.nodeID ++ "-in"

def outboundTag (n : NodeSpec) : String :=
  "node-" ++ n.tagProtocol ++ "-" ++ safeTagPart n.nodeID ++ "-out"

def panelNodeType (n : NodeSpec) : String :=
  if normalizeNodeType n.nodeType = "hysteria" then "hysteria" else "vless"

theorem inboundTag_ne_empty (n : NodeSpec) : n.inboundTag ≠ "" := by
  unfold inboundTag
  split
  · assumption
  · intro h
    have := congrArg (fun s => s.toList.length) h
    simp at this

-- the names are compared, never computed, in the proofs
attribute [irreducible] key inboundTag outboundTag panelNodeType

end NodeSpec

/-! ### Validation -/

/-- The errors of `Validate`, with the operands of their texts. -/
inductive TopologyError
  /-- `topology contains no nodes` -/
  | noNodes
  /-- `nodes[%d]: invalid or unsafe node_id: %q` -/
  | nodeID (i : ℕ) (id : String)
  /-- `nodes[%d].node_type %q is unsupported` -/
  | nodeType (i : ℕ) (nodeType : String)
  /-- `duplicate node key %q` -/
  | duplicateKey (key : String)
  /-- `duplicate inbound tag %q` -/
  | duplicateInboundTag (tag : String)
  /-- `duplicate outbound tag %q` -/
  | duplicateOutboundTag (tag : String)
  /-- `nodes[%d] shadowsocks outbound requires server, valid server_port, method and password` -/
  | shadowsocks (i : ℕ)
  /-- `nodes[%d] outbound type %q is unsupported` -/
  | outboundType (i : ℕ) (type : String)
deriving Repr, DecidableEq

/-- `seenKeys`, `seenTags` and `seenOutboundTags`. -/
structure Seen where
  keys : List String
  tags : List String
  outboundTags : List String
deriving Repr, DecidableEq

def Seen.add (seen : Seen) (n : NodeSpec) : Seen :=
  ⟨n.key :: seen.keys, n.inboundTag :: seen.tags, n.outboundTag :: seen.outboundTags⟩

/-- A protocol the agent can serve. -/
def NodeSpec.TypeOk (n : NodeSpec) : Prop :=
  normalizeNodeType n.nodeType = "vless" ∨ normalizeNodeType n.nodeType = "hysteria"

instance (n : NodeSpec) : Decidable n.TypeOk := by unfold NodeSpec.TypeOk; infer_instance

namespace OutboundSpec

def kind (o : OutboundSpec) : String := toLower (trimSpace o.type)

def IsShadowsocks (o : OutboundSpec) : Prop := o.kind = "shadowsocks" ∨ o.kind = "ss"

/-- What a Shadowsocks outbound must not leave out. -/
def Complete (o : OutboundSpec) : Prop :=
  o.server ≠ "" ∧ 0 < o.serverPort ∧ o.serverPort ≤ 65535 ∧ o.method ≠ "" ∧ o.password ≠ ""

instance (o : OutboundSpec) : Decidable o.IsShadowsocks := by unfold IsShadowsocks; infer_instance
instance (o : OutboundSpec) : Decidable o.Complete := by unfold Complete; infer_instance

end OutboundSpec

/-- The last `switch` of the loop body. -/
def validateOutbound (i : ℕ) (o : OutboundSpec) : Except TopologyError Unit :=
  if o.kind = "direct" then .ok ()
  else if o.IsShadowsocks then if o.Complete then .ok () else .error (.shadowsocks i)
  else .error (.outboundType i o.type)

/-- One pass of the loop body of `Validate`. -/
def validateNode (i : ℕ) (seen : Seen) (n : NodeSpec) : Except TopologyError Seen :=
  match validateNodeID n.nodeID with
  | .error id => .error (.nodeID i id)
  | .ok () =>
    if ¬ n.TypeOk then .error (.nodeType i n.nodeType)
    else if n.key ∈ seen.keys then .error (.duplicateKey n.key)
    else if n.inboundTag ∈ seen.tags then .error (.duplicateInboundTag n.inboundTag)
    else if n.outboundTag ∈ seen.outboundTags then .error (.duplicateOutboundTag n.outboundTag)
    else
      match validateOutbound i n.outbound with
      | .error e => .error e
      | .ok () => .ok (seen.add n)

def validateFrom (i : ℕ) (seen : Seen) : List NodeSpec → Except TopologyError Unit
  | [] => .ok ()
  | n :: rest =>
    match validateNode i seen n with
    | .error e => .error e
    | .ok seen => validateFrom (i + 1) seen rest

def Topology.validate (t : Topology) : Except TopologyError Unit :=
  if t.nodes = [] then .error .noNodes else validateFrom 0 ⟨[], [], []⟩ t.nodes

/-! ### What it accepts -/

/-- What is asked of each node alone. -/
structure NodeSpec.Ok (n : NodeSpec) : Prop where
  nodeID : validateNodeID n.nodeID = .ok ()
  type : n.TypeOk
  outbound : n.outbound.kind = "direct" ∨ n.outbound.IsShadowsocks ∧ n.outbound.Complete

/-- **The topologies an agent can serve**: every node is sound, and no name is given twice. -/
structure Topology.Valid (t : Topology) : Prop where
  nonempty : t.nodes ≠ []
  ok : ∀ n ∈ t.nodes, n.Ok
  keys : (t.nodes.map NodeSpec.key).Nodup
  tags : (t.nodes.map NodeSpec.inboundTag).Nodup
  outboundTags : (t.nodes.map NodeSpec.outboundTag).Nodup

theorem validateOutbound_ok_iff (i : ℕ) (o : OutboundSpec) :
    validateOutbound i o = .ok () ↔ o.kind = "direct" ∨ o.IsShadowsocks ∧ o.Complete := by
  unfold validateOutbound
  by_cases h1 : o.kind = "direct"
  · simp [h1]
  · by_cases h2 : o.IsShadowsocks
    · by_cases h3 : o.Complete <;> simp [h1, h2, h3]
    · simp [h1, h2]

/-- The names of `n` are all new. -/
def Seen.Fresh (seen : Seen) (n : NodeSpec) : Prop :=
  n.key ∉ seen.keys ∧ n.inboundTag ∉ seen.tags ∧ n.outboundTag ∉ seen.outboundTags

theorem validateNode_ok_iff (i : ℕ) (seen seen' : Seen) (n : NodeSpec) :
    validateNode i seen n = .ok seen' ↔ n.Ok ∧ seen.Fresh n ∧ seen' = seen.add n := by
  unfold validateNode
  rcases hid : validateNodeID n.nodeID with id | ⟨⟩
  · simp only [reduceCtorEq, false_iff]
    rintro ⟨hok, -⟩
    rw [hok.nodeID] at hid
    cases hid
  by_cases htype : n.TypeOk
  swap
  · simp only [htype, not_false_eq_true, if_true, reduceCtorEq, false_iff]
    exact fun h => htype h.1.type
  by_cases hfresh : seen.Fresh n
  swap
  · have hno : ¬ (n.Ok ∧ seen.Fresh n ∧ seen' = seen.add n) := fun h => hfresh h.2.1
    unfold Seen.Fresh at hfresh
    simp only [htype, not_true_eq_false, if_false, hno, iff_false]
    -- one of the three names is taken, so one of the three guards fires
    split_ifs with h1 h2 h3 <;> simp_all
  obtain ⟨h1, h2, h3⟩ := id hfresh
  simp only [htype, h1, h2, h3, not_true_eq_false, if_false, hfresh, true_and]
  rcases hout : validateOutbound i n.outbound with e | ⟨⟩
  · simp only [reduceCtorEq, false_iff]
    rintro ⟨hok, -⟩
    rw [(validateOutbound_ok_iff i n.outbound).2 hok.outbound] at hout
    cases hout
  · have hok : n.Ok := ⟨hid, htype, (validateOutbound_ok_iff i n.outbound).1 hout⟩
    simp only [Except.ok.injEq, hok, true_and]
    exact eq_comm

theorem validateFrom_ok_iff (i : ℕ) (seen : Seen) (nodes : List NodeSpec) :
    validateFrom i seen nodes = .ok () ↔
      (∀ n ∈ nodes, n.Ok ∧ seen.Fresh n) ∧ (nodes.map NodeSpec.key).Nodup ∧
        (nodes.map NodeSpec.inboundTag).Nodup ∧ (nodes.map NodeSpec.outboundTag).Nodup := by
  induction nodes generalizing i seen with
  | nil => simp [validateFrom]
  | cons n rest ih =>
    -- a later node is fresh for the grown sets when it is fresh for the old ones and differs from `n`
    have hadd : ∀ m, (seen.add n).Fresh m ↔
        seen.Fresh m ∧ m.key ≠ n.key ∧ m.inboundTag ≠ n.inboundTag ∧ m.outboundTag ≠ n.outboundTag := by
      intro m
      simp only [Seen.Fresh, Seen.add, List.mem_cons, not_or]
      constructor
      · rintro ⟨⟨h1, h2⟩, ⟨h3, h4⟩, h5, h6⟩
        exact ⟨⟨h2, h4, h6⟩, h1, h3, h5⟩
      · rintro ⟨⟨h2, h4, h6⟩, h1, h3, h5⟩
        exact ⟨⟨h1, h2⟩, ⟨h3, h4⟩, h5, h6⟩
    rw [validateFrom]
    rcases hn : validateNode i seen n with e | seen'
    · simp only [reduceCtorEq, false_iff]
      rintro ⟨hall, -⟩
      obtain ⟨hok, hfresh⟩ := hall n List.mem_cons_self
      rw [(validateNode_ok_iff i seen (seen.add n) n).2 ⟨hok, hfresh, rfl⟩] at hn
      cases hn
    · obtain ⟨hok, hfresh, rfl⟩ := (validateNode_ok_iff i seen seen' n).1 hn
      simp only [ih, hadd, List.mem_cons, forall_eq_or_imp, List.map_cons, List.nodup_cons, List.mem_map, not_exists,
        not_and, hok, hfresh, true_and]
      constructor
      · rintro ⟨h, hk, ht, ho⟩
        exact ⟨fun m hm => ⟨(h m hm).1, (h m hm).2.1⟩, ⟨fun m hm => (h m hm).2.2.1, hk⟩,
          ⟨fun m hm => (h m hm).2.2.2.1, ht⟩, ⟨fun m hm => (h m hm).2.2.2.2, ho⟩⟩
      · rintro ⟨h, ⟨hk', hk⟩, ⟨ht', ht⟩, ⟨ho', ho⟩⟩
        exact ⟨fun m hm => ⟨(h m hm).1, (h m hm).2, hk' m hm, ht' m hm, ho' m hm⟩, hk, ht, ho⟩

/-- **`Validate` accepts exactly the valid topologies.** -/
theorem validate_ok_iff (t : Topology) : t.validate = .ok () ↔ t.Valid := by
  unfold Topology.validate
  by_cases h : t.nodes = []
  · simp only [h, if_true, reduceCtorEq, false_iff]
    exact fun hv => hv.nonempty h
  · rw [if_neg h, validateFrom_ok_iff]
    simp only [Seen.Fresh, List.not_mem_nil, not_false_eq_true, and_self, and_true]
    exact ⟨fun ⟨h1, h2, h3, h4⟩ => ⟨h, h1, h2, h3, h4⟩, fun hv => ⟨hv.ok, hv.keys, hv.tags, hv.outboundTags⟩⟩

namespace Topology.Valid

variable {t : Topology}

theorem eq_of_key (ht : t.Valid) {n m : NodeSpec} (hn : n ∈ t.nodes) (hm : m ∈ t.nodes) (h : n.key = m.key) :
    n = m :=
  List.inj_on_of_nodup_map ht.keys hn hm h

theorem eq_of_inboundTag (ht : t.Valid) {n m : NodeSpec} (hn : n ∈ t.nodes) (hm : m ∈ t.nodes)
    (h : n.inboundTag = m.inboundTag) : n = m :=
  List.inj_on_of_nodup_map ht.tags hn hm h

/-- The two parameters a push names the node by are enough to tell the nodes apart. -/
theorem eq_of_panel (ht : t.Valid) {n m : NodeSpec} (hn : n ∈ t.nodes) (hm : m ∈ t.nodes)
    (hid : n.nodeID = m.nodeID) (htype : n.panelNodeType = m.panelNodeType) : n = m := by
  refine ht.eq_of_key hn hm ?_
  have hnorm : ∀ k ∈ t.nodes, normalizeNodeType k.nodeType = k.panelNodeType := by
    intro k hk
    unfold NodeSpec.panelNodeType
    rcases (ht.ok k hk).type with h | h <;> simp [h]
  unfold NodeSpec.key nodeKey
  rw [hnorm n hn, hnorm m hm, hid, htype]

theorem nodup (ht : t.Valid) : t.nodes.Nodup := ht.keys.of_map

end Topology.Valid

end MiniSbAgent.Panelapi
