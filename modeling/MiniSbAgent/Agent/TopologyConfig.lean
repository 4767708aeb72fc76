import MiniSbAgent.Go.Paths
import MiniSbAgent.Panelapi.Topology

/-!
# The sing-box configuration of a topology

`generateTopologyConfig` turns a topology and what the panel says about each of its nodes into one configuration:
an inbound for each node, the built-in outbounds and a Shadowsocks outbound for each node that wants one, and a
rule that ties the inbound of a node to its outbound.

* the panel, the certificate files and the final write are parameters (`Env`), with an answer for each node, so that
  a result holds for every panel and every file system;
* `generateNodes_ok` — what one whole loop appends to the three lists;
* `topology_config_routes` — the rules send each inbound to the outbound of its own node, and nothing else gets out.
-/

namespace MiniSbAgent.Panelapi

/-! ### What the panel says about a node -/

/-- `server_port` is a string or a number in the JSON, and kept as text. -/
structure TLSSettings where
  serverName : String
  serverPort : String
  privateKey : String
  shortID : String
deriving Repr, DecidableEq

structure NodeConfig where
  protocol : String
  listenIP : String
  serverPort : ℤ
  tlsSettings : TLSSettings
  version : ℤ
  serverName : String
  upMbps : ℤ
  downMbps : ℤ
  obfs : String
  obfsPassword : String
deriving Repr, DecidableEq

end MiniSbAgent.Panelapi

namespace MiniSbAgent.Agent.TopologyConfig

open MiniSbAgent.Go MiniSbAgent.Panelapi

/-! ### The configuration -/

/-- The `tls` object of an inbound, which is always enabled. -/
inductive InboundTLS
  | reality (serverName handshakeServer : String) (handshakePort : ℤ) (privateKey : String) (shortID : List String)
  | certificate (serverName certificatePath keyPath : String)
deriving Repr, DecidableEq

/-- An inbound; its `users` are empty until the agent fills them in.  A field that is left out is `none`. -/
structure InboundConfig where
  type : String
  tag : String
  listen : String
  listenPort : ℤ
  tls : InboundTLS
  upMbps : Option ℤ
  downMbps : Option ℤ
  /-- type and password -/
  obfs : Option (String × String)
deriving Repr, DecidableEq

structure ShadowsocksServer where
  server : String
  serverPort : ℤ
  method : String
  password : String
  plugin : String
  pluginOpts : String
deriving Repr, DecidableEq

/-- An outbound; the built-in ones have a type and a tag only. -/
structure OutboundConfig where
  type : String
  tag : String
  shadowsocks : Option ShadowsocksServer
deriving Repr, DecidableEq

structure Rule where
  inbound : List String
  outbound : String
deriving Repr, DecidableEq

/-- The generated file: `final` is the outbound of what no rule matches. -/
structure SingBoxConfig where
  inbounds : List InboundConfig
  outbounds : List OutboundConfig
  rules : List Rule
  final : String
deriving Repr, DecidableEq

/-! ### The inbound of a node -/

structure XboardGenerateOptions where
  out : String
  certPath : String
  keyPath : String
deriving Repr, DecidableEq

inductive InboundError
  /-- `vless server_port is missing` -/
  | vlessServerPort
  /-- `vless reality private_key is missing` -/
  | vlessPrivateKey
  /-- `hysteria2 server_port is missing` -/
  | hysteria2ServerPort
  /-- `cert/key path is empty` -/
  | emptyCertPath
  /-- of the files and the key generation in `ensureSelfSignedCert` -/
  | cert
  /-- `unsupported hysteria version %d` -/
  | hysteriaVersion (version : ℤ)
  /-- `unsupported node protocol %q` -/
  | protocol (protocol : String)
deriving Repr, DecidableEq

def firstNonEmpty (vals : List String) : String := (vals.find? (· != "")).getD ""

def defaultListen (listen : String) : String := if listen = "" then "::" else listen

def normalizeNodeMode (v : String) : String :=
  let t := toLower (trimSpace v)
  if t = "vless" ∨ t = "vless-reality" ∨ t = "reality" then "vless"
  else if t = "hy2" ∨ t = "hysteria" ∨ t = "hysteria2" then "hy2"
  else if t = "both" ∨ t = "dual" ∨ t = "all" then "both"
  else t

/-- 443 unless the settings have a positive number. -/
def handshakePort (tls : TLSSettings) : ℤ :=
  match atoi tls.serverPort with
  | some p => if 0 < p then p else 443
  | none => 443

def vlessInboundFromNodeConfig (cfg : NodeConfig) (listen : String) : Except InboundError InboundConfig :=
  if cfg.serverPort ≤ 0 then .error .vlessServerPort
  else if cfg.tlsSettings.privateKey = "" then .error .vlessPrivateKey
  else
    let serverName := firstNonEmpty [cfg.tlsSettings.serverName, "www.microsoft.com"]
    let shortIDs := if cfg.tlsSettings.shortID ≠ "" then [cfg.tlsSettings.shortID] else []
    .ok ⟨"vless", "vless-in", listen, cfg.serverPort,
      .reality serverName serverName (handshakePort cfg.tlsSettings) cfg.tlsSettings.privateKey shortIDs,
      none, none, none⟩

section Inbound

-- whether the certificate and key files for a server name are there or could be written
variable (certOk : String → String → String → Bool)

def ensureSelfSignedCert (certPath keyPath serverName : String) : Except InboundError Unit :=
  if certPath = "" ∨ keyPath = "" then .error .emptyCertPath
  else if certOk certPath keyPath serverName then .ok () else .error .cert

def hy2InboundFromNodeConfig (cfg : NodeConfig) (opts : XboardGenerateOptions) (listen : String) :
    Except InboundError InboundConfig :=
  if cfg.serverPort ≤ 0 then .error .hysteria2ServerPort
  else
    let outDir := dirPath opts.out
    let certPath := if opts.certPath = "" then joinPath [outDir, "cert.pem"] else opts.certPath
    let keyPath := if opts.keyPath = "" then joinPath [outDir, "key.pem"] else opts.keyPath
    let serverName := firstNonEmpty [cfg.serverName, cfg.tlsSettings.serverName, "bing.com"]
    match ensureSelfSignedCert certOk certPath keyPath serverName with
    | .error e => .error e
    | .ok () =>
      .ok ⟨"hysteria2", "hy2-in", listen, cfg.serverPort, .certificate serverName certPath keyPath,
        if 0 < cfg.upMbps then some cfg.upMbps else none,
        if 0 < cfg.downMbps then some cfg.downMbps else none,
        if cfg.obfs ≠ "" ∧ cfg.obfsPassword ≠ "" then some (cfg.obfs, cfg.obfsPassword) else none⟩

/-- The protocol is lower-cased but not trimmed here. -/
def inboundFromNodeConfig (cfg : NodeConfig) (opts : XboardGenerateOptions) (listen : String) :
    Except InboundError InboundConfig :=
  let protocol := toLower cfg.protocol
  if protocol = "vless" then vlessInboundFromNodeConfig cfg listen
  else if protocol = "hysteria" ∨ protocol = "hysteria2" then
    if cfg.version ≠ 0 ∧ cfg.version ≠ 2 then .error (.hysteriaVersion cfg.version)
    else hy2InboundFromNodeConfig certOk cfg opts listen
  else .error (.protocol cfg.protocol)

end Inbound

/-! ### The loop over the nodes -/

/-- The errors of the generator, with the operands of their texts; `ε` are the errors of a fetch. -/
inductive GenerateError (ε : Type)
  /-- of `Validate` -/
  | topology (e : TopologyError)
  /-- `fetch node %s: %w` -/
  | fetch (key : String) (e : ε)
  /-- `node %s protocol mismatch: topology specifies %q but panel returned %q` -/
  | protocolMismatch (nodeID nodeType protocol : String)
  /-- `build node %s inbound: %w` -/
  | inbound (key : String) (e : InboundError)
  /-- of `MkdirAll` or `WriteFile` -/
  | write
deriving Repr, DecidableEq

/-- What the world answers: the panel and the certificate files for the `i`-th node, and the final write. -/
structure Env (ε : Type) where
  fetchNodeConfig : ℕ → Except ε NodeConfig
  certOk : ℕ → String → String → String → Bool
  writeOk : Bool

/-- `norm` of the source is a copy of `normalizeNodeType`. -/
def validateNodeProtocol {ε : Type} (node : NodeSpec) (cfg : NodeConfig) : Except (GenerateError ε) Unit :=
  if normalizeNodeType node.nodeType ≠ normalizeNodeType cfg.protocol then
    .error (.protocolMismatch node.nodeID node.nodeType cfg.protocol)
  else .ok ()

def outboundFromNodeSpec (node : NodeSpec) : OutboundConfig :=
  ⟨"shadowsocks", node.outboundTag, some ⟨node.outbound.server, node.outbound.serverPort, node.outbound.method,
    node.outbound.password, node.outbound.plugin, node.outbound.pluginOpts⟩⟩

/-- With several nodes each Hysteria2 node has certificate files of its own. -/
def nodeOpts (count : ℕ) (opts : XboardGenerateOptions) (node : NodeSpec) : XboardGenerateOptions :=
  if 1 < count ∧ normalizeNodeMode node.nodeType = "hy2" then
    let base := dirPath opts.out
    { opts with
      certPath := joinPath [base, "cert-" ++ node.nodeID ++ ".pem"]
      keyPath := joinPath [base, "key-" ++ node.nodeID ++ ".pem"] }
  else opts

/-- The three lists the loop appends to. -/
structure Parts where
  inbounds : List InboundConfig
  outbounds : List OutboundConfig
  rules : List Rule
deriving Repr, DecidableEq

def builtinOutbounds : List OutboundConfig :=
  [⟨"direct", "direct", none⟩, ⟨"block", "block", none⟩, ⟨"dns", "dns-out", none⟩]

/-- The outbounds a node adds: one when its type is Shadowsocks. -/
def nodeOutbounds (node : NodeSpec) : List OutboundConfig :=
  if node.outbound.IsShadowsocks then [outboundFromNodeSpec node] else []

def nodeOutTag (node : NodeSpec) : String :=
  if node.outbound.kind = "direct" then "direct" else node.outboundTag

section Generate

variable {ε : Type} (env : Env ε) (opts : XboardGenerateOptions)

/-- One pass of the loop body, for the `i`-th of `count` nodes. -/
def generateNode (count i : ℕ) (parts : Parts) (node : NodeSpec) : Except (GenerateError ε) Parts :=
  match env.fetchNodeConfig i with
  | .error e => .error (.fetch node.key e)
  | .ok cfg =>
    match validateNodeProtocol node cfg with
    | .error e => .error e
    | .ok () =>
      match inboundFromNodeConfig (env.certOk i) cfg (nodeOpts count opts node) (defaultListen cfg.listenIP) with
      | .error e => .error (.inbound node.key e)
      | .ok inbound =>
        .ok ⟨parts.inbounds ++ [{ inbound with tag := node.inboundTag }], parts.outbounds ++ nodeOutbounds node,
          parts.rules ++ [⟨[node.inboundTag], nodeOutTag node⟩]⟩

def generateNodes (count i : ℕ) (parts : Parts) : List NodeSpec → Except (GenerateError ε) Parts
  | [] => .ok parts
  | node :: rest =>
    match generateNode env opts count i parts node with
    | .error e => .error e
    | .ok parts => generateNodes count (i + 1) parts rest

/-- `generateTopologyConfig`, with the file it writes as the result. -/
def generateTopologyConfig (topology : Topology) : Except (GenerateError ε) SingBoxConfig :=
  match topology.validate with
  | .error e => .error (.topology e)
  | .ok () =>
    match generateNodes env opts topology.nodes.length 0 ⟨[], builtinOutbounds, []⟩ topology.nodes with
    | .error e => .error e
    | .ok parts => if env.writeOk then .ok ⟨parts.inbounds, parts.outbounds, parts.rules, "block"⟩ else .error .write

end Generate

/-! ### What the loop appends -/

/-- The type of inbound that serves the protocol of a node. -/
def inboundType (node : NodeSpec) : String :=
  if normalizeNodeType node.nodeType = "hysteria" then "hysteria2" else "vless"

def nodeRule (node : NodeSpec) : Rule := ⟨[node.inboundTag], nodeOutTag node⟩

theorem vless_type {cfg : NodeConfig} {listen : String} {inbound : InboundConfig}
    (h : vlessInboundFromNodeConfig cfg listen = .ok inbound) : inbound.type = "vless" := by
  unfold vlessInboundFromNodeConfig at h
  split_ifs at h
  all_goals
    cases h
    rfl

theorem hy2_type {certOk : String → String → String → Bool} {cfg : NodeConfig} {opts : XboardGenerateOptions}
    {listen : String} {inbound : InboundConfig} (h : hy2InboundFromNodeConfig certOk cfg opts listen = .ok inbound) :
    inbound.type = "hysteria2" := by
  unfold hy2InboundFromNodeConfig at h
  split at h
  · cases h
  · simp only at h
    split at h
    · cases h
    · cases h
      rfl

theorem inboundFromNodeConfig_type {certOk : String → String → String → Bool} {cfg : NodeConfig}
    {opts : XboardGenerateOptions} {listen : String} {inbound : InboundConfig}
    (h : inboundFromNodeConfig certOk cfg opts listen = .ok inbound) :
    inbound.type = if normalizeNodeType cfg.protocol = "hysteria" then "hysteria2" else "vless" := by
  -- what is matched has no white space, so the missing `TrimSpace` makes no difference
  have hnorm : (∀ c ∈ (toLower cfg.protocol).toList, isSpace c = false) →
      toLower (trimSpace cfg.protocol) = toLower cfg.protocol := fun hs => by rw [trimSpace_of_toLower hs]
  unfold inboundFromNodeConfig at h
  simp only at h
  split_ifs at h with hv hh
  · rw [hv] at hnorm
    rw [vless_type h]
    unfold normalizeNodeType
    rw [hnorm (by simp [isSpace])]
    decide
  · rw [hy2_type h]
    unfold normalizeNodeType
    rcases hh with hh | hh
    · rw [hh] at hnorm
      rw [hnorm (by simp [isSpace])]
      decide
    · rw [hh] at hnorm
      rw [hnorm (by simp [isSpace])]
      decide

section Loop

variable {ε : Type} {env : Env ε} {opts : XboardGenerateOptions}

variable (env opts) in
/-- An inbound that a pass of the loop appends for a node: the panel knows the node under its own protocol, and the tag
of the inbound is replaced. -/
def Serves (count : ℕ) (node : NodeSpec) (inbound : InboundConfig) : Prop :=
  ∃ i cfg made, normalizeNodeType node.nodeType = normalizeNodeType cfg.protocol ∧
    inboundFromNodeConfig (env.certOk i) cfg (nodeOpts count opts node) (defaultListen cfg.listenIP) = .ok made ∧
    inbound = { made with tag := node.inboundTag }

theorem Serves.tag_eq {count : ℕ} {node : NodeSpec} {inbound : InboundConfig}
    (h : Serves env opts count node inbound) : inbound.tag = node.inboundTag := by
  obtain ⟨-, -, made, -, -, rfl⟩ := h
  rfl

theorem Serves.type_eq {count : ℕ} {node : NodeSpec} {inbound : InboundConfig}
    (h : Serves env opts count node inbound) : inbound.type = inboundType node := by
  obtain ⟨i, cfg, made, hsame, hmade, rfl⟩ := h
  have htype := inboundFromNodeConfig_type hmade
  rwa [← hsame] at htype

theorem generateNode_ok {count i : ℕ} {parts parts' : Parts} {node : NodeSpec}
    (h : generateNode env opts count i parts node = .ok parts') :
    ∃ inbound, Serves env opts count node inbound ∧
      parts' = ⟨parts.inbounds ++ [inbound], parts.outbounds ++ nodeOutbounds node,
        parts.rules ++ [nodeRule node]⟩ := by
  unfold generateNode at h
  split at h
  · cases h
  rename_i cfg hcfg
  split at h
  · cases h
  rename_i hproto
  split at h
  · cases h
  rename_i inbound hin
  have hsame : normalizeNodeType node.nodeType = normalizeNodeType cfg.protocol := by
    unfold validateNodeProtocol at hproto
    split_ifs at hproto with hne
    exact not_not.1 hne
  exact ⟨_, ⟨i, cfg, inbound, hsame, hin, rfl⟩, (Except.ok.inj h).symm⟩

/-- **One whole loop**: an inbound and a rule for each node, and the outbounds of the nodes in their order. -/
theorem generateNodes_ok {count i : ℕ} {parts parts' : Parts} {nodes : List NodeSpec}
    (h : generateNodes env opts count i parts nodes = .ok parts') :
    ∃ inbounds, List.Forall₂ (Serves env opts count) nodes inbounds ∧
      parts' = ⟨parts.inbounds ++ inbounds, parts.outbounds ++ nodes.flatMap nodeOutbounds,
        parts.rules ++ nodes.map nodeRule⟩ := by
  induction nodes generalizing i parts with
  | nil =>
    cases h
    exact ⟨[], List.Forall₂.nil, by simp⟩
  | cons node rest ih =>
    rw [generateNodes] at h
    split at h
    · cases h
    rename_i mid hnode
    obtain ⟨inbound, hserves, rfl⟩ := generateNode_ok hnode
    obtain ⟨inbounds, hrest, rfl⟩ := ih h
    exact ⟨inbound :: inbounds, List.Forall₂.cons hserves hrest, by simp⟩

theorem generateTopologyConfig_serves {t : Topology} {c : SingBoxConfig}
    (h : generateTopologyConfig env opts t = .ok c) :
    t.Valid ∧ ∃ inbounds, List.Forall₂ (Serves env opts t.nodes.length) t.nodes inbounds ∧
      c = ⟨inbounds, builtinOutbounds ++ t.nodes.flatMap nodeOutbounds, t.nodes.map nodeRule, "block"⟩ := by
  unfold generateTopologyConfig at h
  split at h
  · cases h
  rename_i hvalid
  split at h
  · cases h
  rename_i parts hparts
  split at h
  · obtain ⟨inbounds, hserves, rfl⟩ := generateNodes_ok hparts
    cases h
    exact ⟨(validate_ok_iff t).1 hvalid, inbounds, hserves, by simp⟩
  · cases h

theorem map_eq_of_serves {α : Type} {f : InboundConfig → α} {g : NodeSpec → α} {count : ℕ}
    (hfg : ∀ node inbound, Serves env opts count node inbound → f inbound = g node) {nodes : List NodeSpec}
    {inbounds : List InboundConfig} (h : List.Forall₂ (Serves env opts count) nodes inbounds) :
    inbounds.map f = nodes.map g := by
  induction h with
  | nil => rfl
  | cons hserves _ ih => rw [List.map_cons, List.map_cons, hfg _ _ hserves, ih]

theorem generateTopologyConfig_ok {t : Topology} {c : SingBoxConfig}
    (h : generateTopologyConfig env opts t = .ok c) :
    t.Valid ∧ ∃ inbounds : List InboundConfig, inbounds.map InboundConfig.tag = t.nodes.map NodeSpec.inboundTag ∧
      inbounds.map InboundConfig.type = t.nodes.map inboundType ∧
      c = ⟨inbounds, builtinOutbounds ++ t.nodes.flatMap nodeOutbounds, t.nodes.map nodeRule, "block"⟩ := by
  obtain ⟨hvalid, inbounds, hserves, hc⟩ := generateTopologyConfig_serves h
  exact ⟨hvalid, inbounds, map_eq_of_serves (fun _ _ => Serves.tag_eq) hserves,
    map_eq_of_serves (fun _ _ => Serves.type_eq) hserves, hc⟩

end Loop

/-! ### Routing -/

namespace SingBoxConfig

/-- The outbound tag of what comes in on `tag`: that of the first rule that matches. -/
def route (c : SingBoxConfig) (tag : String) : String :=
  ((c.rules.find? fun r => r.inbound.contains tag).map Rule.outbound).getD c.final

def outbound (c : SingBoxConfig) (tag : String) : Option OutboundConfig := c.outbounds.find? fun o => o.tag == tag

/-- The outbound that takes what comes in on `tag`. -/
def routed (c : SingBoxConfig) (tag : String) : Option OutboundConfig := c.outbound (c.route tag)

end SingBoxConfig

theorem find?_of_nodup {α : Type} {f : α → String} {l : List α} (hl : (l.map f).Nodup) {a : α} (ha : a ∈ l) :
    l.find? (fun b => f b == f a) = some a := by
  rcases hfind : l.find? (fun b => f b == f a) with _ | b
  · have := List.find?_eq_none.1 hfind a ha
    simp at this
  · have hb : f b = f a := by simpa using List.find?_some hfind
    rw [List.inj_on_of_nodup_map hl (List.mem_of_find?_eq_some hfind) ha hb]

/-- The tag of a node's outbound starts with `node-`, so no built-in outbound has it. -/
theorem outboundTag_ne_builtin (n : NodeSpec) {o : OutboundConfig} (ho : o ∈ builtinOutbounds) :
    n.outboundTag ≠ o.tag := by
  have hhead : n.outboundTag.toList.head? = some 'n' := by
    unfold NodeSpec.outboundTag
    simp
  intro h
  rw [h] at hhead
  simp only [builtinOutbounds, List.mem_cons, List.not_mem_nil, or_false] at ho
  rcases ho with rfl | rfl | rfl
  all_goals
    revert hhead
    decide

theorem tags_flatMap_nodeOutbounds (nodes : List NodeSpec) :
    (nodes.flatMap nodeOutbounds).map OutboundConfig.tag =
      (nodes.filter fun n => n.outbound.IsShadowsocks).map NodeSpec.outboundTag := by
  induction nodes with
  | nil => rfl
  | cons n rest ih =>
    rw [List.flatMap_cons, List.map_append, ih]
    by_cases hss : n.outbound.IsShadowsocks
    · simp [nodeOutbounds, hss, outboundFromNodeSpec]
    · simp [nodeOutbounds, hss]

section Routes

variable {t : Topology} {inbounds : List InboundConfig}

/-- The configuration that the generator writes around the inbounds. -/
def configOf (t : Topology) (inbounds : List InboundConfig) : SingBoxConfig :=
  ⟨inbounds, builtinOutbounds ++ t.nodes.flatMap nodeOutbounds, t.nodes.map nodeRule, "block"⟩

theorem nodup_outboundTags (ht : t.Valid) :
    ((configOf t inbounds).outbounds.map OutboundConfig.tag).Nodup := by
  simp only [configOf, List.map_append, tags_flatMap_nodeOutbounds]
  refine List.Nodup.append (by decide) ?_ ?_
  · exact ht.outboundTags.sublist (List.filter_sublist.map _)
  · intro tag hbuiltin hnode
    obtain ⟨o, ho, rfl⟩ := List.mem_map.1 hbuiltin
    obtain ⟨n, -, hn⟩ := List.mem_map.1 hnode
    exact outboundTag_ne_builtin n ho hn

theorem outbound_of_mem (ht : t.Valid) {o : OutboundConfig} (ho : o ∈ (configOf t inbounds).outbounds) :
    (configOf t inbounds).outbound o.tag = some o :=
  find?_of_nodup (nodup_outboundTags ht) ho

theorem direct_mem : (⟨"direct", "direct", none⟩ : OutboundConfig) ∈ (configOf t inbounds).outbounds :=
  List.mem_append_left _ (by decide)

theorem block_mem : (⟨"block", "block", none⟩ : OutboundConfig) ∈ (configOf t inbounds).outbounds :=
  List.mem_append_left _ (by decide)

/-- The outbound a node is meant to have. -/
def ownOutbound (n : NodeSpec) : OutboundConfig :=
  if n.outbound.kind = "direct" then ⟨"direct", "direct", none⟩ else outboundFromNodeSpec n

theorem tag_ownOutbound (n : NodeSpec) : (ownOutbound n).tag = nodeOutTag n := by
  unfold ownOutbound nodeOutTag
  split <;> rfl

theorem ownOutbound_mem (ht : t.Valid) {n : NodeSpec} (hn : n ∈ t.nodes) :
    ownOutbound n ∈ (configOf t inbounds).outbounds := by
  unfold ownOutbound
  split
  · exact direct_mem
  · rename_i hkind
    rcases (ht.ok n hn).outbound with hdirect | ⟨hss, -⟩
    · exact absurd hdirect hkind
    · refine List.mem_append_right _ (List.mem_flatMap.2 ⟨n, hn, ?_⟩)
      unfold nodeOutbounds
      rw [if_pos hss]
      exact List.mem_singleton_self _

theorem route_of_mem (ht : t.Valid) {n : NodeSpec} (hn : n ∈ t.nodes) :
    (configOf t inbounds).route n.inboundTag = nodeOutTag n := by
  have hmatch : (fun r : Rule => r.inbound.contains n.inboundTag) ∘ nodeRule =
      fun m => m.inboundTag == n.inboundTag := by
    funext m
    simp [nodeRule, beq_eq_decide, eq_comm]
  simp only [SingBoxConfig.route, configOf, List.find?_map, hmatch, find?_of_nodup ht.tags hn, Option.map_some,
    Option.getD_some, nodeRule]

theorem route_of_not_mem {tag : String} (h : ∀ n ∈ t.nodes, n.inboundTag ≠ tag) :
    (configOf t inbounds).route tag = "block" := by
  have hnone : (t.nodes.map nodeRule).find? (fun r => r.inbound.contains tag) = none := by
    rw [List.find?_eq_none]
    intro r hr
    obtain ⟨n, hn, rfl⟩ := List.mem_map.1 hr
    simpa [nodeRule, eq_comm] using h n hn
  simp only [SingBoxConfig.route, configOf, hnone, Option.map_none, Option.getD_none]

end Routes

/-- **Each node goes out through its own outbound, and nothing else goes out.**  The outbound of a node that is not
direct has the server, port, method, password and plugin of that node. -/
theorem topology_config_routes {ε : Type} (env : Env ε) (opts : XboardGenerateOptions) (t : Topology)
    (c : SingBoxConfig) (h : generateTopologyConfig env opts t = .ok c) :
    (c.inbounds.map InboundConfig.tag = t.nodes.map NodeSpec.inboundTag ∧
      c.inbounds.map InboundConfig.type = t.nodes.map inboundType ∧ (c.inbounds.map InboundConfig.tag).Nodup) ∧
    ((c.outbounds.map OutboundConfig.tag).Nodup ∧ ∀ r ∈ c.rules, ∃ o ∈ c.outbounds, o.tag = r.outbound) ∧
    (∀ n ∈ t.nodes,
      (n.outbound.kind = "direct" → c.routed n.inboundTag = some ⟨"direct", "direct", none⟩) ∧
      (n.outbound.kind ≠ "direct" → c.routed n.inboundTag = some
        { type := "shadowsocks"
          tag := n.outboundTag
          shadowsocks := some
            { server := n.outbound.server
              serverPort := n.outbound.serverPort
              method := n.outbound.method
              password := n.outbound.password
              plugin := n.outbound.plugin
              pluginOpts := n.outbound.pluginOpts } })) ∧
    (∀ tag, (∀ n ∈ t.nodes, n.inboundTag ≠ tag) → c.routed tag = some ⟨"block", "block", none⟩) := by
  obtain ⟨ht, inbounds, htags, htypes, hc⟩ := generateTopologyConfig_ok h
  replace hc : c = configOf t inbounds := hc
  subst hc
  have hrouted : ∀ n ∈ t.nodes, (configOf t inbounds).routed n.inboundTag = some (ownOutbound n) := by
    intro n hn
    unfold SingBoxConfig.routed
    rw [route_of_mem ht hn, ← tag_ownOutbound]
    exact outbound_of_mem ht (ownOutbound_mem ht hn)
  refine ⟨⟨htags, htypes, ?_⟩, ⟨nodup_outboundTags ht, ?_⟩, ?_, ?_⟩
  · show (inbounds.map InboundConfig.tag).Nodup
    rw [htags]
    exact ht.tags
  · intro r hr
    simp only [configOf, List.mem_map] at hr
    obtain ⟨n, hn, rfl⟩ := hr
    refine ⟨ownOutbound n, ownOutbound_mem ht hn, ?_⟩
    simp only [tag_ownOutbound, nodeRule]
  · intro n hn
    rw [hrouted n hn]
    unfold ownOutbound
    exact ⟨fun hkind => by rw [if_pos hkind], fun hkind => by rw [if_neg hkind, outboundFromNodeSpec]⟩
  · intro tag htag
    unfold SingBoxConfig.routed
    rw [route_of_not_mem htag]
    exact outbound_of_mem ht block_mem

/-- Two nodes with one id: VLESS straight out, Hysteria2 through a Shadowsocks server. -/
def siteTopology : Topology :=
  ⟨[⟨"21", "vless", "", ⟨"direct", "", 0, "", "", "", ""⟩⟩,
    ⟨"21", "hy2", "", ⟨"ss", "10.0.0.2", 8388, "aes-128-gcm", "pw", "", ""⟩⟩]⟩

def siteEnv : Env Unit where
  fetchNodeConfig i :=
    if i = 0 then .ok ⟨"VLESS", "", 443, ⟨"example.com", "8443", "key", "01"⟩, 0, "", 0, 0, "", ""⟩
    else .ok ⟨"hysteria2", "0.0.0.0", 8443, ⟨"", "", "", ""⟩, 2, "", 100, 0, "", ""⟩
  certOk _ _ _ _ := true
  writeOk := true

def siteConfig : SingBoxConfig where
  inbounds :=
    [⟨"vless", "vless-21-in", "::", 443, .reality "example.com" "example.com" 8443 "key" ["01"], none, none, none⟩,
     ⟨"hysteria2", "hy2-21-in", "0.0.0.0", 8443,
       .certificate "bing.com" "/etc/sb/cert-21.pem" "/etc/sb/key-21.pem", some 100, none, none⟩]
  outbounds :=
    builtinOutbounds ++
      [⟨"shadowsocks", "node-hy2-21-out", some ⟨"10.0.0.2", 8388, "aes-128-gcm", "pw", "", ""⟩⟩]
  rules := [⟨["vless-21-in"], "direct"⟩, ⟨["hy2-21-in"], "node-hy2-21-out"⟩]
  final := "block"

theorem site_routes :
    generateTopologyConfig siteEnv ⟨"/etc/sb/config.json", "", ""⟩ siteTopology = .ok siteConfig ∧
      (siteConfig.outbounds.map OutboundConfig.tag).Nodup ∧
      siteConfig.routed "hy2-21-in" =
        some ⟨"shadowsocks", "node-hy2-21-out", some ⟨"10.0.0.2", 8388, "aes-128-gcm", "pw", "", ""⟩⟩ := by
  have hok : generateTopologyConfig siteEnv ⟨"/etc/sb/config.json", "", ""⟩ siteTopology = .ok siteConfig := by
    decide +kernel
  obtain ⟨-, ⟨hnodup, -⟩, hroutes, -⟩ := topology_config_routes _ _ _ _ hok
  have hnode : siteTopology.nodes[1]? = some ⟨"21", "hy2", "", ⟨"ss", "10.0.0.2", 8388, "aes-128-gcm", "pw", "", ""⟩⟩ :=
    rfl
  have hroute := (hroutes _ (List.mem_of_getElem? hnode)).2 (by decide +kernel)
  have htags : NodeSpec.inboundTag ⟨"21", "hy2", "", ⟨"ss", "10.0.0.2", 8388, "aes-128-gcm", "pw", "", ""⟩⟩ =
        "hy2-21-in" ∧
      NodeSpec.outboundTag ⟨"21", "hy2", "", ⟨"ss", "10.0.0.2", 8388, "aes-128-gcm", "pw", "", ""⟩⟩ =
        "node-hy2-21-out" := by
    decide +kernel
  rw [htags.1, htags.2] at hroute
  exact ⟨hok, hnodup, hroute⟩

end MiniSbAgent.Agent.TopologyConfig
