import MiniSbAgent.Agent.TopologyConfig
import MiniSbAgent.Go.Json

/-!
# The capability gate (`cmd/mini-sb-agent/capabilities.go`)

Before an agent generates a configuration it asks whether its build includes what the topology needs.  The gate, the
generator and `Validate` each read the free-form type strings in their own way: the gate compares the outbound type with
`strings.EqualFold`, the other two trim it and lower its case first.

* `namesShadowsocks_iff` — on the types that `Validate` admits, the gate sees exactly the Shadowsocks outbounds whose
  type has no white space around it;
* `validateTopologyCapabilities_ok_iff` — what the gate asks of a build;
* `generate_matching` — a panel that answers every node with its own protocol makes the generator succeed;
* `capability_gate_iff` — when gate and generator agree.
-/

namespace MiniSbAgent.Agent

open MiniSbAgent.Go MiniSbAgent.Panelapi TopologyConfig

/-- The fields that the gate reads, and `DirectOutbound`. -/
structure BuildCapabilities where
  buildID : String
  vlessInbound : Bool
  hysteria2Inbound : Bool
  shadowsocksOutbound : Bool
  directOutbound : Bool
deriving Repr, DecidableEq

/-- `build %q does not include … inbound` and `… outbound`, with the operand of the text. -/
inductive CapabilityError
  | vlessInbound (buildID : String)
  | hysteria2Inbound (buildID : String)
  | shadowsocksOutbound (buildID : String)
deriving Repr, DecidableEq

/-- `strings.EqualFold` with a second argument in ASCII: simple folding of both. -/
def equalFold (s t : String) : Bool := s.toList.map Json.foldRune == t.toList.map Json.foldRune

/-- The condition of the last `if` of the loop body. -/
def namesShadowsocks (o : OutboundSpec) : Bool := equalFold o.type "shadowsocks" || equalFold o.type "ss"

section Gate

variable (caps : BuildCapabilities)

/-- One pass of the loop body. -/
def validateNodeCapabilities (node : NodeSpec) : Except CapabilityError Unit :=
  if node.panelNodeType = "vless" ∧ caps.vlessInbound = false then .error (.vlessInbound caps.buildID)
  else if node.panelNodeType = "hysteria" ∧ caps.hysteria2Inbound = false then
    .error (.hysteria2Inbound caps.buildID)
  else if namesShadowsocks node.outbound = true ∧ caps.shadowsocksOutbound = false then
    .error (.shadowsocksOutbound caps.buildID)
  else .ok ()

def validateNodesCapabilities : List NodeSpec → Except CapabilityError Unit
  | [] => .ok ()
  | node :: rest =>
    match validateNodeCapabilities caps node with
    | .error e => .error e
    | .ok () => validateNodesCapabilities rest

def validateTopologyCapabilities (topology : Topology) : Except CapabilityError Unit :=
  validateNodesCapabilities caps topology.nodes

/-- The build includes an inbound of this type. -/
def IncludesInbound (type : String) : Prop :=
  type = "vless" ∧ caps.vlessInbound = true ∨ type = "hysteria2" ∧ caps.hysteria2Inbound = true

/-- The build includes an outbound of this type; `block` and `dns` are registered in every build. -/
def IncludesOutbound (type : String) : Prop :=
  type = "direct" ∧ caps.directOutbound = true ∨ type = "shadowsocks" ∧ caps.shadowsocksOutbound = true ∨
    type = "block" ∨ type = "dns"

/-- The build includes every protocol of a configuration. -/
def Supports (c : SingBoxConfig) : Prop :=
  (∀ i ∈ c.inbounds, IncludesInbound caps i.type) ∧ ∀ o ∈ c.outbounds, IncludesOutbound caps o.type

end Gate

/-! ### Case folding -/

/-- Folding does not see the difference between a rune and its lower case, as long as that is an ASCII letter other
than the `i` that the Turkish capital has as its lower case. -/
theorem foldRune_toLowerRune {c : Char} (h : (toLowerRune c).toNat < 128) (hi : toLowerRune c ≠ 'i') :
    Json.foldRune (toLowerRune c) = Json.foldRune c := by
  have hascii : ∀ n < 128, Json.foldRune (toLowerRune (Char.ofNat n)) = Json.foldRune (Char.ofNat n) := by
    decide +kernel
  by_cases hc : c.toNat < 128
  · have := hascii c.toNat hc
    rwa [Char.ofNat_toNat] at this
  · rcases toLowerRune_ascii (not_lt.1 hc) h with h304 | h8490
    · have hc : c = Char.ofNat 304 := by rw [← h304, Char.ofNat_toNat]
      subst hc
      exact absurd (by decide +kernel) hi
    · have hc : c = Char.ofNat 8490 := by rw [← h8490, Char.ofNat_toNat]
      subst hc
      decide +kernel

theorem equalFold_of_toLower {s t : String} (h : toLower s = t)
    (ht : ∀ c ∈ t.toList, c.toNat < 128 ∧ c ≠ 'i') : equalFold s t = true := by
  have hlist : s.toList.map toLowerRune = t.toList := by rw [← h, toLower, String.toList_ofList]
  unfold equalFold
  rw [beq_iff_eq, ← hlist, List.map_map]
  refine List.map_congr_left fun c hc => ?_
  obtain ⟨hlt, hi⟩ := ht (toLowerRune c) (by rw [← hlist]; exact List.mem_map_of_mem hc)
  exact (foldRune_toLowerRune hlt hi).symm

theorem foldRune_of_isSpace {c : Char} (h : isSpace c = true) : isSpace (Json.foldRune c) = true := by
  have hne : c.toNat ≠ 0x17F ∧ c.toNat ≠ 0x212A ∧ ¬ (97 ≤ c.toNat ∧ c.toNat ≤ 122) := by
    simp only [isSpace, Bool.or_eq_true, decide_eq_true_eq, beq_iff_eq] at h
    omega
  have hupper : c.toUpper = c := by
    unfold Char.toUpper
    rw [dif_neg]
    simp only [UInt32.le_iff_toNat_le]
    exact fun hlow => hne.2.2 hlow
  unfold Json.foldRune
  rwa [if_neg hne.1, if_neg hne.2.1, hupper]

/-- What folds to a text without white space has none. -/
theorem trimSpace_of_equalFold {s t : String} (h : equalFold s t = true)
    (ht : ∀ c ∈ t.toList, isSpace (Json.foldRune c) = false) : trimSpace s = s := by
  unfold equalFold at h
  rw [beq_iff_eq] at h
  refine trimRunes_of_all fun c hc => ?_
  have hmem : Json.foldRune c ∈ t.toList.map Json.foldRune := h ▸ List.mem_map_of_mem hc
  obtain ⟨d, hd, hfold⟩ := List.mem_map.1 hmem
  have hspace := ht d hd
  rw [hfold] at hspace
  by_contra hne
  rw [foldRune_of_isSpace (by simpa using hne)] at hspace
  cases hspace

theorem length_of_equalFold {s t : String} (h : equalFold s t = true) : s.toList.length = t.toList.length := by
  unfold equalFold at h
  rw [beq_iff_eq] at h
  simpa using congrArg List.length h

/-- **What the gate takes for Shadowsocks**, among the outbounds that `Validate` admits. -/
theorem namesShadowsocks_iff {o : OutboundSpec} (ho : o.kind = "direct" ∨ o.IsShadowsocks) :
    namesShadowsocks o = true ↔ o.IsShadowsocks ∧ trimSpace o.type = o.type := by
  unfold namesShadowsocks
  rw [Bool.or_eq_true]
  constructor
  · intro h
    have htrim : trimSpace o.type = o.type := by
      rcases h with h | h
      · exact trimSpace_of_equalFold h (by simp [Json.foldRune, isSpace])
      · exact trimSpace_of_equalFold h (by simp [Json.foldRune, isSpace])
    refine ⟨ho.resolve_left fun hdirect => ?_, htrim⟩
    -- the lower case of a type has as many runes as the type
    have hlen : o.type.toList.length = 6 := by
      have := congrArg (fun s => s.toList.length) hdirect
      simpa [OutboundSpec.kind, htrim, toLower] using this
    rcases h with h | h
    · exact absurd (length_of_equalFold h) (by rw [hlen]; decide)
    · exact absurd (length_of_equalFold h) (by rw [hlen]; decide)
  · rintro ⟨hkind, htrim⟩
    unfold OutboundSpec.IsShadowsocks OutboundSpec.kind at hkind
    rw [htrim] at hkind
    rcases hkind with h | h
    · exact Or.inl (equalFold_of_toLower h (by simp))
    · exact Or.inr (equalFold_of_toLower h (by simp))

/-! ### What the gate asks -/

section Gate

variable {caps : BuildCapabilities}

theorem inboundType_cases (n : NodeSpec) :
    inboundType n = "vless" ∧ n.panelNodeType = "vless" ∨ inboundType n = "hysteria2" ∧ n.panelNodeType = "hysteria" := by
  unfold inboundType NodeSpec.panelNodeType
  split
  · exact Or.inr ⟨rfl, rfl⟩
  · exact Or.inl ⟨rfl, rfl⟩

/-- The gate lets a node pass when the build has its inbound and, if it takes the outbound for Shadowsocks, that. -/
theorem validateNodeCapabilities_ok_iff {n : NodeSpec} :
    validateNodeCapabilities caps n = .ok () ↔ IncludesInbound caps (inboundType n) ∧
      (namesShadowsocks n.outbound = true → caps.shadowsocksOutbound = true) := by
  unfold validateNodeCapabilities IncludesInbound
  rcases inboundType_cases n with ⟨h, h'⟩ | ⟨h, h'⟩
  · rw [h, h']
    cases caps.vlessInbound
    · simp
    · cases caps.shadowsocksOutbound <;> cases namesShadowsocks n.outbound <;> simp
  · rw [h, h']
    cases caps.hysteria2Inbound
    · simp
    · cases caps.shadowsocksOutbound <;> cases namesShadowsocks n.outbound <;> simp

theorem validateTopologyCapabilities_ok_iff {t : Topology} :
    validateTopologyCapabilities caps t = .ok () ↔ ∀ n ∈ t.nodes, IncludesInbound caps (inboundType n) ∧
      (namesShadowsocks n.outbound = true → caps.shadowsocksOutbound = true) := by
  unfold validateTopologyCapabilities
  induction t.nodes with
  | nil => simp [validateNodesCapabilities]
  | cons n rest ih =>
    rw [List.forall_mem_cons, ← ih, ← validateNodeCapabilities_ok_iff, validateNodesCapabilities]
    rcases validateNodeCapabilities caps n with e | ⟨⟩
    · simp
    · simp

end Gate

/-! ### What the generator emits -/

/-- The answers of a panel that knows every node under its own protocol. -/
def matchingConfig (n : NodeSpec) : NodeConfig :=
  ⟨inboundType n, "", 443, ⟨"", "", "key", ""⟩, 0, "", 0, 0, "", ""⟩

def matchingEnv (ε : Type) (t : Topology) : Env ε where
  fetchNodeConfig i := .ok (matchingConfig ((t.nodes[i]?).getD ⟨"", "", "", ⟨"", "", 0, "", "", "", ""⟩⟩))
  certOk _ _ _ _ := true
  writeOk := true

def matchingOpts : XboardGenerateOptions := ⟨"config.json", "cert.pem", "key.pem"⟩

theorem nodeOpts_ne_empty (count : ℕ) (opts : XboardGenerateOptions) (hcert : opts.certPath ≠ "")
    (hkey : opts.keyPath ≠ "") (n : NodeSpec) :
    (nodeOpts count opts n).certPath ≠ "" ∧ (nodeOpts count opts n).keyPath ≠ "" := by
  have hdir : dirPath opts.out ≠ "" := cleanPath_ne_empty _
  have hjoin : ∀ e : String, joinPath [dirPath opts.out, e] ≠ "" := by
    intro e
    unfold joinPath
    rw [List.dropWhile_cons_of_neg (by simpa using hdir)]
    exact cleanPath_ne_empty _
  unfold nodeOpts
  split
  · dsimp only
    exact ⟨hjoin ("cert-" ++ n.nodeID ++ ".pem"), hjoin ("key-" ++ n.nodeID ++ ".pem")⟩
  · exact ⟨hcert, hkey⟩

theorem generateNode_matching {ε : Type} {t : Topology} (count : ℕ) {i : ℕ} {n : NodeSpec} (hi : t.nodes[i]? = some n)
    (hn : n.TypeOk) (parts : Parts) :
    ∃ parts', generateNode (matchingEnv ε t) matchingOpts count i parts n = .ok parts' := by
  obtain ⟨hcert, hkey⟩ := nodeOpts_ne_empty count matchingOpts (by decide) (by decide) n
  have hfetch : (matchingEnv ε t).fetchNodeConfig i = .ok (matchingConfig n) := by
    simp [matchingEnv, hi]
  have hproto : validateNodeProtocol (ε := ε) n (matchingConfig n) = .ok () := by
    unfold validateNodeProtocol
    rw [if_neg]
    rw [not_not]
    unfold matchingConfig inboundType
    rcases hn with h | h
    · rw [h, if_neg (by decide)]
      decide +kernel
    · rw [h, if_pos rfl]
      decide +kernel
  have hinbound : ∃ inbound, inboundFromNodeConfig ((matchingEnv ε t).certOk i) (matchingConfig n)
      (nodeOpts count matchingOpts n) (defaultListen (matchingConfig n).listenIP) = .ok inbound := by
    unfold inboundFromNodeConfig matchingConfig inboundType
    split
    · simp only
      rw [if_neg (by decide +kernel), if_pos (by decide +kernel), if_neg (by decide)]
      unfold hy2InboundFromNodeConfig
      rw [if_neg (by decide)]
      simp only [ensureSelfSignedCert, hcert, hkey, or_self, if_false, matchingEnv, if_true]
      exact ⟨_, rfl⟩
    · simp only
      rw [if_pos (by decide +kernel)]
      unfold vlessInboundFromNodeConfig
      rw [if_neg (by decide), if_neg (by decide)]
      exact ⟨_, rfl⟩
  obtain ⟨inbound, hin⟩ := hinbound
  unfold generateNode
  rw [hfetch]
  simp only [hproto, hin]
  exact ⟨_, rfl⟩

theorem generateNodes_matching {ε : Type} {t : Topology} (count : ℕ) {nodes : List NodeSpec} (i : ℕ)
    (hi : ∀ j, nodes[j]? = t.nodes[i + j]?) (hok : ∀ n ∈ nodes, n.TypeOk) (parts : Parts) :
    ∃ parts', generateNodes (matchingEnv ε t) matchingOpts count i parts nodes = .ok parts' := by
  induction nodes generalizing i parts with
  | nil => exact ⟨parts, rfl⟩
  | cons n rest ih =>
    obtain ⟨mid, hmid⟩ := generateNode_matching (ε := ε) count (i := i) (hi 0).symm (hok n List.mem_cons_self) parts
    rw [generateNodes, hmid]
    refine ih (i + 1) (fun j => ?_) (fun m hm => hok m (List.mem_cons_of_mem _ hm)) mid
    have := hi (j + 1)
    rwa [List.getElem?_cons_succ, ← Nat.add_assoc, Nat.add_right_comm] at this

/-- For every valid topology some panel makes the generator succeed. -/
theorem generate_matching (ε : Type) {t : Topology} (ht : t.Valid) :
    ∃ c, generateTopologyConfig (matchingEnv ε t) matchingOpts t = .ok c := by
  obtain ⟨parts, hparts⟩ := generateNodes_matching (ε := ε) (t := t) t.nodes.length 0
    (fun j => by rw [Nat.zero_add]) (fun n hn => (ht.ok n hn).type) ⟨[], builtinOutbounds, []⟩
  unfold generateTopologyConfig
  rw [(validate_ok_iff t).2 ht]
  simp only [hparts]
  exact ⟨_, if_pos rfl⟩

/-- What a build needs for the configuration of a topology. -/
theorem supports_iff {ε : Type} {env : Env ε} {opts : XboardGenerateOptions} {caps : BuildCapabilities} {t : Topology}
    {c : SingBoxConfig} (h : generateTopologyConfig env opts t = .ok c) :
    Supports caps c ↔ caps.directOutbound = true ∧ ∀ n ∈ t.nodes, IncludesInbound caps (inboundType n) ∧
      (n.outbound.IsShadowsocks → caps.shadowsocksOutbound = true) := by
  obtain ⟨-, inbounds, -, htypes, rfl⟩ := generateTopologyConfig_ok h
  have hin : (∀ i ∈ inbounds, IncludesInbound caps i.type) ↔ ∀ n ∈ t.nodes, IncludesInbound caps (inboundType n) := by
    rw [← List.forall_mem_map (f := InboundConfig.type), htypes, List.forall_mem_map]
  have hnode : ∀ n : NodeSpec, (∀ o ∈ nodeOutbounds n, IncludesOutbound caps o.type) ↔
      (n.outbound.IsShadowsocks → caps.shadowsocksOutbound = true) := by
    intro n
    unfold nodeOutbounds
    by_cases hss : n.outbound.IsShadowsocks
    · simp [hss, outboundFromNodeSpec, IncludesOutbound]
    · simp [hss]
  have hbuiltin : (∀ o ∈ builtinOutbounds, IncludesOutbound caps o.type) ↔ caps.directOutbound = true := by
    simp [builtinOutbounds, IncludesOutbound]
  unfold Supports
  simp only [List.forall_mem_append, List.forall_mem_flatMap, hin, hnode, hbuiltin]
  constructor
  · rintro ⟨h1, h2, h3⟩
    exact ⟨h2, fun n hn => ⟨h1 n hn, h3 n hn⟩⟩
  · rintro ⟨h1, h2⟩
    exact ⟨fun n hn => (h2 n hn).1, h1, fun n hn => (h2 n hn).2⟩

/-! ### Agreement -/

/-- The build lacks something the gate asks for on behalf of this node: its inbound, or Shadowsocks for a type that has
no white space around it. -/
def Lacks (caps : BuildCapabilities) (n : NodeSpec) : Prop :=
  ¬ IncludesInbound caps (inboundType n) ∨
    n.outbound.IsShadowsocks ∧ trimSpace n.outbound.type = n.outbound.type ∧ caps.shadowsocksOutbound = false

/-- **Gate and generator.**  For a valid topology the gate passes exactly the builds that include every protocol the
generator emits, if and only if the build has the direct outbound and, unless it has Shadowsocks, no Shadowsocks type of
the topology has white space around it; a topology that the build lacks something else for is refused either way. -/
theorem capability_gate_iff (ε : Type) (t : Topology) (caps : BuildCapabilities) (hvalid : t.validate = .ok ()) :
    (validateTopologyCapabilities caps t = .ok () ↔
      ∀ (env : Env ε) opts c, generateTopologyConfig env opts t = .ok c → Supports caps c) ↔
      (∃ n ∈ t.nodes, Lacks caps n) ∨ caps.directOutbound = true ∧ (caps.shadowsocksOutbound = true ∨
        ∀ n ∈ t.nodes, n.outbound.IsShadowsocks → trimSpace n.outbound.type = n.outbound.type) := by
  have ht := (validate_ok_iff t).1 hvalid
  have hsupports : (∀ (env : Env ε) opts c, generateTopologyConfig env opts t = .ok c → Supports caps c) ↔
      caps.directOutbound = true ∧ ∀ n ∈ t.nodes, IncludesInbound caps (inboundType n) ∧
        (n.outbound.IsShadowsocks → caps.shadowsocksOutbound = true) := by
    constructor
    · intro h
      obtain ⟨c, hc⟩ := generate_matching ε ht
      exact (supports_iff hc).1 (h _ _ c hc)
    · intro h env opts c hc
      exact (supports_iff hc).2 h
  have hnames : ∀ n ∈ t.nodes, (namesShadowsocks n.outbound = true ↔
      n.outbound.IsShadowsocks ∧ trimSpace n.outbound.type = n.outbound.type) := fun n hn =>
    namesShadowsocks_iff ((ht.ok n hn).outbound.imp_right And.left)
  rw [validateTopologyCapabilities_ok_iff, hsupports]
  by_cases hlacks : ∃ n ∈ t.nodes, Lacks caps n
  · -- neither side holds
    refine iff_of_true ?_ (Or.inl hlacks)
    obtain ⟨n, hn, hlack⟩ := hlacks
    rcases hlack with hin | ⟨hss, htrim, hno⟩
    · exact iff_of_false (fun h => hin (h n hn).1) (fun h => hin (h.2 n hn).1)
    · refine iff_of_false (fun h => ?_) (fun h => ?_)
      · simpa [hno] using (h n hn).2 ((hnames n hn).2 ⟨hss, htrim⟩)
      · simpa [hno] using (h.2 n hn).2 hss
  · -- the gate passes the build, and the generator has to agree
    have hgate : ∀ n ∈ t.nodes, IncludesInbound caps (inboundType n) ∧
        (namesShadowsocks n.outbound = true → caps.shadowsocksOutbound = true) := by
      intro n hn
      have hn' : ¬ Lacks caps n := fun h => hlacks ⟨n, hn, h⟩
      unfold Lacks at hn'
      rw [not_or, not_not] at hn'
      refine ⟨hn'.1, fun hname => ?_⟩
      obtain ⟨hss, htrim⟩ := (hnames n hn).1 hname
      simpa using fun hno => hn'.2 ⟨hss, htrim, hno⟩
    rw [iff_true_left hgate, or_iff_right hlacks]
    refine and_congr_right fun _ => ⟨fun h => ?_, fun h n hn => ⟨(hgate n hn).1, fun hss => ?_⟩⟩
    · by_cases hcap : caps.shadowsocksOutbound = true
      · exact Or.inl hcap
      · exact Or.inr fun n hn hss => absurd ((h n hn).2 hss) hcap
    · rcases h with h | h
      · exact h
      · exact (hgate n hn).2 ((hnames n hn).2 ⟨hss, h n hn hss⟩)

/-- A build without Shadowsocks. -/
def vlessDirect : BuildCapabilities := ⟨"vless-direct", true, false, false, true⟩

/-- One VLESS node behind a Shadowsocks server, with the type of the outbound as given. -/
def relayTopology (type : String) : Topology :=
  ⟨[⟨"1", "vless", "", ⟨type, "10.0.0.2", 8388, "aes-128-gcm", "pw", "", ""⟩⟩]⟩

theorem capability_gate_refuses :
    (relayTopology "SS").validate = .ok () ∧
      (validateTopologyCapabilities vlessDirect (relayTopology "SS") = .ok () ↔
        ∀ (env : Env Unit) opts c, generateTopologyConfig env opts (relayTopology "SS") = .ok c →
          Supports vlessDirect c) :=
  ⟨by decide +kernel, (capability_gate_iff Unit (relayTopology "SS") vlessDirect (by decide +kernel)).2
    (Or.inl ⟨_, List.mem_singleton_self _, Or.inr ⟨by decide +kernel, by decide +kernel, rfl⟩⟩)⟩

/-- With a blank in front of the type the gate passes a build that cannot run the configuration. -/
theorem capability_gate_misses_padding :
    (relayTopology " ss").validate = .ok () ∧
      validateTopologyCapabilities vlessDirect (relayTopology " ss") = .ok () ∧
      ∃ c, generateTopologyConfig (matchingEnv Unit (relayTopology " ss")) matchingOpts (relayTopology " ss") = .ok c ∧
        ¬ Supports vlessDirect c := by
  have hvalid : (relayTopology " ss").validate = .ok () := by decide +kernel
  refine ⟨hvalid, by decide +kernel, ?_⟩
  obtain ⟨c, hc⟩ := generate_matching Unit ((validate_ok_iff _).1 hvalid)
  refine ⟨c, hc, fun hsupports => ?_⟩
  have hcap := ((supports_iff hc).1 hsupports).2 _ (List.mem_singleton_self _)
  exact absurd (hcap.2 (by decide +kernel)) (by decide)

end MiniSbAgent.Agent
