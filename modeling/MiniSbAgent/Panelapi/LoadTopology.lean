import MiniSbAgent.Go.Json
import MiniSbAgent.Panelapi.Topology

/-!
# Topology files (`panelapi/topology.go`)

`LoadTopology` decodes a file and validates the result.  The decoder is lenient: it takes the names of fields in any
case, passes over members that it does not know, lets the last of several members of one name win, and decodes strings
whatever way they are escaped.
-/

namespace MiniSbAgent.Panelapi

open MiniSbAgent.Go

def outboundFields : List String := ["type", "server", "server_port", "method", "password", "plugin", "plugin_opts"]

def setOutboundField (o : OutboundSpec) (m : String × Json.Value) : Option OutboundSpec :=
  let name := Json.fieldName outboundFields m.1
  if name = some "type" then (Json.decodeString o.type m.2).map fun v => { o with type := v }
  else if name = some "server" then (Json.decodeString o.server m.2).map fun v => { o with server := v }
  else if name = some "server_port" then (Json.decodeInt o.serverPort m.2).map fun v => { o with serverPort := v }
  else if name = some "method" then (Json.decodeString o.method m.2).map fun v => { o with method := v }
  else if name = some "password" then (Json.decodeString o.password m.2).map fun v => { o with password := v }
  else if name = some "plugin" then (Json.decodeString o.plugin m.2).map fun v => { o with plugin := v }
  else if name = some "plugin_opts" then (Json.decodeString o.pluginOpts m.2).map fun v => { o with pluginOpts := v }
  else some o

def setNodeField (n : NodeSpec) (m : String × Json.Value) : Option NodeSpec :=
  let name := Json.fieldName ["node_id", "node_type", "tag", "outbound"] m.1
  if name = some "node_id" then (Json.decodeString n.nodeID m.2).map fun v => { n with nodeID := v }
  else if name = some "node_type" then (Json.decodeString n.nodeType m.2).map fun v => { n with nodeType := v }
  else if name = some "tag" then (Json.decodeString n.tag m.2).map fun v => { n with tag := v }
  else if name = some "outbound" then
    (Json.decodeStruct setOutboundField n.outbound m.2).map fun v => { n with outbound := v }
  else some n

def emptyNode : NodeSpec := ⟨"", "", "", ⟨"", "", 0, "", "", "", ""⟩⟩

def setTopologyField (nodes : Json.Slice NodeSpec) (m : String × Json.Value) : Option (Json.Slice NodeSpec) :=
  if Json.fieldName ["nodes"] m.1 = some "nodes" then
    Json.decodeSliceInto (Json.decodeStruct setNodeField) emptyNode nodes m.2
  else some nodes

/-- `json.Unmarshal(data, &topology)` -/
def unmarshalTopology (data : Bytes) : Option Topology :=
  (Json.unmarshal data).bind fun v => (Json.decodeStruct setTopologyField ⟨[], []⟩ v).map fun nodes => ⟨nodes.elems⟩

/-- The errors of `LoadTopology` after the file was read. -/
inductive LoadError
  | json
  | invalid (e : TopologyError)
deriving Repr, DecidableEq

def loadTopology (data : Bytes) : Except LoadError Topology :=
  match unmarshalTopology data with
  | none => .error .json
  | some t =>
    match t.validate with
    | .error e => .error (.invalid e)
    | .ok () => .ok t

theorem loadTopology_ok {data : Bytes} {t : Topology} (h : loadTopology data = .ok t) :
    unmarshalTopology data = some t ∧ t.Valid := by
  unfold loadTopology at h
  split at h
  · cases h
  · rename_i t' hjson
    split at h
    · cases h
    · rename_i hvalid
      cases h
      exact ⟨hjson, (validate_ok_iff t).1 hvalid⟩

end MiniSbAgent.Panelapi
