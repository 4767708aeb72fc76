import MiniSbAgent.Go.Marshal
import MiniSbAgent.Panelapi.ControlPlane
import MiniSbAgent.Panelapi.LoadTopology

/-!
# Topologies on the wire (`panelapi/control_plane.go`)

The control plane hands a topology out as JSON, with a schema version and a revision around it, and `FetchTopology`
takes an answer only when the version is its own, the revision is not blank and the topology is valid.

* `topologyValue`, `responseValue` — the documents;
* `decodeResponse_responseValue` — the decoder gives back what was written;
* `decodeTopology_inRange` — whatever is decoded has port numbers that fit an `int`, so that it can be written again;
* `fetchTopology` — the client, `readTopology` the part of it behind the request.
-/

namespace MiniSbAgent.Panelapi

open MiniSbAgent.Go MiniSbAgent.Go.Json

/-! ### Writing -/

def outboundValue (o : OutboundSpec) : Value :=
  .obj (("type", .str o.type) :: (omitString "server" o.server ++ (omitInt "server_port" o.serverPort ++
    (omitString "method" o.method ++ (omitString "password" o.password ++ (omitString "plugin" o.plugin ++
      (omitString "plugin_opts" o.pluginOpts ++ [])))))))

def nodeValue (n : NodeSpec) : Value :=
  .obj (("node_id", .str n.nodeID) :: ("node_type", .str n.nodeType) ::
    (omitString "tag" n.tag ++ [("outbound", outboundValue n.outbound)]))

/-- A topology that has nodes, as every valid one does; without them it would be `null` for the list. -/
def topologyValue (t : Topology) : Value := .obj [("nodes", .arr (t.nodes.map nodeValue))]

structure TopologyResponse where
  schemaVersion : ℤ
  revision : String
  topology : Topology
deriving Repr, DecidableEq

def responseValue (r : TopologyResponse) : Value :=
  .obj [("schema_version", .int r.schemaVersion), ("revision", .str r.revision),
    ("topology", topologyValue r.topology)]

/-! ### Reading -/

/-- A response that is being filled. -/
structure ResponseSlot where
  schemaVersion : ℤ
  revision : String
  nodes : Slice NodeSpec
deriving Repr, DecidableEq

def setResponseField (r : ResponseSlot) (m : String × Value) : Option ResponseSlot :=
  let name := fieldName ["schema_version", "revision", "topology"] m.1
  if name = some "schema_version" then (decodeInt r.schemaVersion m.2).map fun v => { r with schemaVersion := v }
  else if name = some "revision" then (decodeString r.revision m.2).map fun v => { r with revision := v }
  else if name = some "topology" then (decodeStruct setTopologyField r.nodes m.2).map fun v => { r with nodes := v }
  else some r

def decodeResponse (v : Value) : Option TopologyResponse :=
  (decodeStruct setResponseField ⟨0, "", [], []⟩ v).map fun r => ⟨r.schemaVersion, r.revision, ⟨r.nodes.elems⟩⟩

/-- `json.Unmarshal(resp.Body, &out)` -/
def unmarshalResponse (body : Bytes) : Option TopologyResponse := (unmarshal body).bind decodeResponse

/-! ### The client -/

inductive FetchError
  /-- of `requestHeaders` -/
  | headers (e : PushError)
  /-- of `HTTP.do` -/
  | http (e : MinHTTPError)
  /-- `control plane topology status %d` -/
  | status (code : ℤ)
  /-- of `json.Unmarshal` -/
  | json
  /-- `unsupported topology schema version %d` -/
  | schemaVersion (version : ℤ)
  /-- `control plane topology revision is empty` -/
  | emptyRevision
  /-- `invalid control plane topology: %w` -/
  | invalid (e : TopologyError)
deriving Repr, DecidableEq

/-- What `FetchTopology` makes of an answer; `none` is an unchanged topology. -/
def readTopology (resp : MinHTTPResponse) : Except FetchError (Option TopologyResponse) :=
  if resp.statusCode = 304 then .ok none
  else if resp.statusCode.tdiv 100 ≠ 2 then .error (.status resp.statusCode)
  else
    match unmarshalResponse resp.body with
    | none => .error .json
    | some out =>
      if out.schemaVersion ≠ 1 then .error (.schemaVersion out.schemaVersion)
      else if trimSpace out.revision = "" then .error .emptyRevision
      else
        match out.topology.validate with
        | .error e => .error (.invalid e)
        | .ok () => .ok (some out)

namespace ControlPlaneClient

def fetchTopology (parse : String → Option ParsedURL) (net : ParsedURL → Bytes → Option Bytes)
    (o : RangeOrder ((_ : String) × Bytes)) (c : ControlPlaneClient) (etag : String) :
    Except FetchError (Option TopologyResponse) :=
  match c.requestHeaders ∅ with
  | .error e => .error (.headers e)
  | .ok headers =>
    let headers := if etag ≠ "" then headers.insert "If-None-Match" (bytes etag) else headers
    match minHTTPDo parse net o "GET" (c.baseURL ++ "/api/v2/agent/topology") headers [] with
    | .error e => .error (.http e)
    | .ok resp => readTopology resp

end ControlPlaneClient

/-! ### What is written is read back -/

section RoundTrip

/-- The port number fits an `int`. -/
def OutboundSpec.InRange (o : OutboundSpec) : Prop := -maxInt64 - 1 ≤ o.serverPort ∧ o.serverPort ≤ maxInt64

def NodeSpec.InRange (n : NodeSpec) : Prop := n.outbound.InRange

def Topology.InRange (t : Topology) : Prop := ∀ n ∈ t.nodes, n.InRange

instance (n : NodeSpec) : Decidable n.InRange := by
  unfold NodeSpec.InRange OutboundSpec.InRange
  infer_instance

instance (t : Topology) : Decidable t.InRange := by
  unfold Topology.InRange
  infer_instance

section Outbound

variable (o : OutboundSpec)

/-- Each member of an outbound sets the field of its name. -/
theorem setOutboundField_of {key : String} (hkey : key ∈ outboundFields) (v : Value) :
    setOutboundField o (key, v) =
      if key = "type" then (decodeString o.type v).map fun v => { o with type := v }
      else if key = "server" then (decodeString o.server v).map fun v => { o with server := v }
      else if key = "server_port" then (decodeInt o.serverPort v).map fun v => { o with serverPort := v }
      else if key = "method" then (decodeString o.method v).map fun v => { o with method := v }
      else if key = "password" then (decodeString o.password v).map fun v => { o with password := v }
      else if key = "plugin" then (decodeString o.plugin v).map fun v => { o with plugin := v }
      else if key = "plugin_opts" then (decodeString o.pluginOpts v).map fun v => { o with pluginOpts := v }
      else some o := by
  have hname : fieldName outboundFields key = some key := if_pos hkey
  simp only [setOutboundField, hname, Option.some.injEq]

theorem decode_outboundValue (h : o.InRange) :
    decodeStruct setOutboundField emptyNode.outbound (outboundValue o) = some o := by
  show List.foldlM setOutboundField _ (_ :: _) = _
  rw [List.foldlM_cons, setOutboundField_of _ (by decide)]
  show List.foldlM setOutboundField ⟨o.type, "", 0, "", "", "", ""⟩ _ = _
  -- one member after the other, each on top of those before it
  rw [foldlM_omitString (y := ⟨o.type, o.server, 0, "", "", "", ""⟩)
      (by rw [setOutboundField_of _ (by decide)]; rfl) (fun hs => by rw [hs]),
    foldlM_omitInt (y := ⟨o.type, o.server, o.serverPort, "", "", "", ""⟩)
      (by rw [setOutboundField_of _ (by decide), decodeInt_int h]; rfl) (fun hs => by rw [hs]),
    foldlM_omitString (y := ⟨o.type, o.server, o.serverPort, o.method, "", "", ""⟩)
      (by rw [setOutboundField_of _ (by decide)]; rfl) (fun hs => by rw [hs]),
    foldlM_omitString (y := ⟨o.type, o.server, o.serverPort, o.method, o.password, "", ""⟩)
      (by rw [setOutboundField_of _ (by decide)]; rfl) (fun hs => by rw [hs]),
    foldlM_omitString (y := ⟨o.type, o.server, o.serverPort, o.method, o.password, o.plugin, ""⟩)
      (by rw [setOutboundField_of _ (by decide)]; rfl) (fun hs => by rw [hs]),
    foldlM_omitString (y := o) (by rw [setOutboundField_of _ (by decide)]; rfl) (fun hs => by rw [← hs])]
  rfl

end Outbound

theorem decode_nodeValue {n : NodeSpec} (h : n.InRange) :
    decodeStruct setNodeField emptyNode (nodeValue n) = some n := by
  have hname : ∀ key ∈ ["node_id", "node_type", "tag", "outbound"],
      fieldName ["node_id", "node_type", "tag", "outbound"] key = some key := fun key hkey => if_pos hkey
  show List.foldlM setNodeField _ (_ :: _ :: _) = _
  have hid : setNodeField emptyNode ("node_id", .str n.nodeID) = some { emptyNode with nodeID := n.nodeID } := by
    simp [setNodeField, hname "node_id" (by decide), decodeString]
  have htype : setNodeField { emptyNode with nodeID := n.nodeID } ("node_type", .str n.nodeType) =
      some { emptyNode with nodeID := n.nodeID, nodeType := n.nodeType } := by
    simp [setNodeField, hname "node_type" (by decide), decodeString]
  have htag : setNodeField { emptyNode with nodeID := n.nodeID, nodeType := n.nodeType } ("tag", .str n.tag) =
      some { n with outbound := emptyNode.outbound } := by
    simp [setNodeField, hname "tag" (by decide), decodeString]
  have hout : setNodeField { n with outbound := emptyNode.outbound } ("outbound", outboundValue n.outbound) =
      some n := by
    simp [setNodeField, hname "outbound" (by decide), decode_outboundValue n.outbound h]
  rw [List.foldlM_cons, hid, Option.bind_eq_bind, Option.bind_some, List.foldlM_cons, htype, Option.bind_eq_bind,
    Option.bind_some, foldlM_omitString htag fun hs => by rw [hs]; rfl]
  rw [List.foldlM_cons, hout]
  rfl

theorem decode_topologyValue {t : Topology} (h : t.InRange) :
    decodeStruct setTopologyField ⟨[], []⟩ (topologyValue t) = some ⟨t.nodes, []⟩ := by
  have hname : fieldName ["nodes"] "nodes" = some "nodes" := if_pos (by decide)
  have hset : setTopologyField ⟨[], []⟩ ("nodes", .arr (t.nodes.map nodeValue)) = some ⟨t.nodes, []⟩ := by
    unfold setTopologyField
    rw [if_pos hname]
    exact decodeSliceInto_map fun n hn => decode_nodeValue (h n hn)
  show List.foldlM setTopologyField _ [_] = _
  rw [List.foldlM_cons, hset]
  rfl

/-- **A response is read back as it was written.** -/
theorem decodeResponse_responseValue {r : TopologyResponse} (h : r.topology.InRange)
    (hv : -maxInt64 - 1 ≤ r.schemaVersion ∧ r.schemaVersion ≤ maxInt64) :
    decodeResponse (responseValue r) = some r := by
  have hname : ∀ key ∈ ["schema_version", "revision", "topology"],
      fieldName ["schema_version", "revision", "topology"] key = some key := fun key hkey => if_pos hkey
  have h1 := hname "schema_version" (by decide)
  have h2 := hname "revision" (by decide)
  have h3 := hname "topology" (by decide)
  unfold decodeResponse responseValue decodeStruct
  simp [setResponseField, h1, h2, h3, decodeInt_int hv, decodeString, decode_topologyValue h]

end RoundTrip

/-! ### Documents -/

theorem ok_outboundValue (o : OutboundSpec) : (outboundValue o).Ok := by simp [outboundValue]

theorem depth_outboundValue (o : OutboundSpec) : (outboundValue o).depth = 1 := by simp [outboundValue]

theorem ok_topologyValue (t : Topology) : (topologyValue t).Ok := by
  simp [topologyValue, nodeValue, ok_outboundValue]

theorem depth_topologyValue (t : Topology) : (topologyValue t).depth ≤ 4 := by
  have helems : elemDepth (t.nodes.map nodeValue) ≤ 2 := by
    refine elemDepth_le.2 fun v hv => ?_
    obtain ⟨n, -, rfl⟩ := List.mem_map.1 hv
    simp [nodeValue, depth_outboundValue]
  simp only [topologyValue, depth_obj, memberDepth_cons, memberDepth_nil, depth_arr]
  omega

theorem ok_responseValue (r : TopologyResponse) : (responseValue r).Ok := by
  simp [responseValue, ok_topologyValue]

theorem depth_responseValue (r : TopologyResponse) : (responseValue r).depth ≤ 5 := by
  have := depth_topologyValue r.topology
  simp only [responseValue, depth_obj, memberDepth_cons, memberDepth_nil, depth_int, depth_str]
  omega

/-- **A response survives the way**: what `json.NewEncoder` writes, the line feed behind it included, is unmarshalled as
it was. -/
theorem unmarshalResponse_text {r : TopologyResponse} (h : r.topology.InRange)
    (hv : -maxInt64 - 1 ≤ r.schemaVersion ∧ r.schemaVersion ≤ maxInt64) :
    unmarshalResponse ((responseValue r).text ++ [10]) = some r := by
  have hdepth : (responseValue r).depth ≤ maxNestingDepth := (depth_responseValue r).trans (by norm_num [maxNestingDepth])
  have hblank : ∀ b ∈ ([10] : Bytes), isBlank b = true := by simp [isBlank]
  unfold unmarshalResponse
  rw [unmarshal_text (ok_responseValue r) hdepth hblank, Option.bind_some, decodeResponse_responseValue h hv]

/-! ### What is decoded can be written -/

section Range

theorem atoi_inRange {s : String} {n : ℤ} (h : atoi s = some n) : -maxInt64 - 1 ≤ n ∧ n ≤ maxInt64 := by
  have hpos : (0 : ℤ) ≤ maxInt64 := by decide
  unfold atoi at h
  split at h <;> obtain ⟨k, -, hk⟩ := Option.bind_eq_some_iff.1 h <;> split_ifs at hk with hle <;> cases hk <;> omega

theorem decodeInt_inRange {old n : ℤ} {v : Value} (hold : -maxInt64 - 1 ≤ old ∧ old ≤ maxInt64)
    (h : decodeInt old v = some n) : -maxInt64 - 1 ≤ n ∧ n ≤ maxInt64 := by
  unfold decodeInt at h
  split at h
  · cases h
    exact hold
  · exact atoi_inRange h
  · cases h

/-- What every member keeps, the whole struct keeps. -/
theorem decodeStruct_invariant {α : Type} {set : α → String × Value → Option α} {P : α → Prop}
    (hset : ∀ x m y, P x → set x m = some y → P y) {zero x : α} (hzero : P zero) {v : Value}
    (h : decodeStruct set zero v = some x) : P x := by
  unfold decodeStruct at h
  split at h
  · cases h
    exact hzero
  · rename_i members
    induction members generalizing zero with
    | nil =>
      cases h
      exact hzero
    | cons m members ih =>
      rw [List.foldlM_cons, Option.bind_eq_bind, Option.bind_eq_some_iff] at h
      obtain ⟨y, hy, h⟩ := h
      exact ih (hset zero m y hzero hy) h
  · cases h

theorem decodeElems_invariant {α : Type} {item : α → Value → Option α} {P : α → Prop}
    (hitem : ∀ x v y, P x → item x v = some y → P y) {zero : α} (hzero : P zero) {vs : List Value} {olds xs : List α}
    (holds : ∀ x ∈ olds, P x) (h : decodeElems item zero olds vs = some xs) : ∀ x ∈ xs, P x := by
  induction vs generalizing olds xs with
  | nil =>
    cases h
    simp
  | cons v vs ih =>
    rw [decodeElems] at h
    split at h
    · rename_i x ys hx hys
      cases h
      have hhead : P (olds.headD zero) := by
        rcases olds with _ | ⟨y, olds⟩
        · exact hzero
        · exact holds y List.mem_cons_self
      refine List.forall_mem_cons.2 ⟨hitem _ v x hhead hx, ih (fun y hy => ?_) hys⟩
      exact holds y (List.mem_of_mem_tail hy)
    · cases h

theorem decodeSliceInto_invariant {α : Type} {item : α → Value → Option α} {P : α → Prop}
    (hitem : ∀ x v y, P x → item x v = some y → P y) {zero : α} (hzero : P zero) {old new : Slice α} {v : Value}
    (hold : ∀ x ∈ old.elems ++ old.behind, P x) (h : decodeSliceInto item zero old v = some new) :
    ∀ x ∈ new.elems ++ new.behind, P x := by
  unfold decodeSliceInto at h
  split at h
  · cases h
    simp
  · cases h
    simp
  · obtain ⟨xs, hxs, rfl⟩ := Option.map_eq_some_iff.1 h
    intro x hx
    rcases List.mem_append.1 hx with hx | hx
    · exact decodeElems_invariant hitem hzero hold hxs x hx
    · exact hold x (List.mem_of_mem_drop hx)
  · cases h

theorem setOutboundField_inRange {x y : OutboundSpec} {m : String × Value} (hx : x.InRange)
    (h : setOutboundField x m = some y) : y.InRange := by
  unfold setOutboundField at h
  simp only at h
  split_ifs at h
  · obtain ⟨v, -, rfl⟩ := Option.map_eq_some_iff.1 h
    exact hx
  · obtain ⟨v, -, rfl⟩ := Option.map_eq_some_iff.1 h
    exact hx
  · obtain ⟨v, hv, rfl⟩ := Option.map_eq_some_iff.1 h
    exact decodeInt_inRange hx hv
  all_goals first
    | (obtain ⟨v, -, rfl⟩ := Option.map_eq_some_iff.1 h; exact hx)
    | (cases h; exact hx)

theorem setNodeField_inRange {x y : NodeSpec} {m : String × Value} (hx : x.InRange) (h : setNodeField x m = some y) :
    y.InRange := by
  unfold setNodeField at h
  simp only at h
  split_ifs at h
  · obtain ⟨v, -, rfl⟩ := Option.map_eq_some_iff.1 h
    exact hx
  · obtain ⟨v, -, rfl⟩ := Option.map_eq_some_iff.1 h
    exact hx
  · obtain ⟨v, -, rfl⟩ := Option.map_eq_some_iff.1 h
    exact hx
  · obtain ⟨o, ho, rfl⟩ := Option.map_eq_some_iff.1 h
    exact decodeStruct_invariant (P := OutboundSpec.InRange) (fun _ _ _ hx h => setOutboundField_inRange hx h) hx ho
  · cases h
    exact hx

/-- The nodes of a slice, and what is left behind them, have port numbers that fit. -/
def SliceInRange (nodes : Slice NodeSpec) : Prop := ∀ n ∈ nodes.elems ++ nodes.behind, n.InRange

theorem decodeTopology_inRange {old nodes : Slice NodeSpec} {v : Value} (hold : SliceInRange old)
    (h : decodeStruct setTopologyField old v = some nodes) : SliceInRange nodes := by
  refine decodeStruct_invariant (P := SliceInRange) (fun x m y hx hy => ?_) hold h
  unfold setTopologyField at hy
  split_ifs at hy
  · exact decodeSliceInto_invariant (fun n v n' hn hn' => decodeStruct_invariant (P := NodeSpec.InRange)
      (fun _ _ _ hx h => setNodeField_inRange hx h) hn hn') (by decide) hx hy
  · cases hy
    exact hx

end Range

end MiniSbAgent.Panelapi
