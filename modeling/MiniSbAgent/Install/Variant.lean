import MiniSbAgent.Agent.Capabilities
import MiniSbAgent.Panelapi.LoadTopology
import MiniSbAgent.Posix.Grep

/-!
# Which build the installer picks (`install.sh`, `scripts/build.sh`)

In topology mode the installer looks for what a topology needs by four searches in the text of `topology.json`, and
downloads the smallest build that has it.  The agent decodes the same file, and in doing so takes many more spellings
than the searches do.

* `selectVariant` — the searches and the choice;
* `Variant.capabilities` — what the builds include, by their build tags;
* `Spells`, `hasMatch_member_iff` — what a search finds: a line with a member written in one of the listed ways;
* `selectVariant_ok_iff` — the chosen build includes what was found and nothing else;
* `variant_sufficient_iff` — the build does for the agent exactly when all that the topology needs is written so.
-/

namespace MiniSbAgent.Install

open MiniSbAgent.Go MiniSbAgent.Panelapi MiniSbAgent.Agent TopologyConfig Posix.Grep

/-! ### The choice -/

/-- `grep -Eq pattern file`; also `grep -q` for a pattern without special characters. -/
def hasMatch (pattern : String) (file : Bytes) : Bool :=
  match readEre pattern with
  | some e => grep e file
  | none => false

def nodeIDPattern : String := "\"node_id\""

def vlessPattern : String := "\"node_type\"[[:space:]]*:[[:space:]]*\"(vless|vless-reality|reality)\""

def hy2Pattern : String := "\"node_type\"[[:space:]]*:[[:space:]]*\"(hysteria|hy2|hysteria2)\""

def ssPattern : String := "\"type\"[[:space:]]*:[[:space:]]*\"(shadowsocks|ss)\""

inductive Variant where
  | vlessDirect
  | vlessSS
  | hy2Direct
  | hy2SS
  | vlessHy2Direct
  | vlessHy2SS
deriving Repr, DecidableEq

inductive SelectError where
  /-- `topology 文件里没有节点（缺少 node_id 字段）` -/
  | noNodeID
  /-- `topology 里没有可识别的 node_type（只支持 vless / hysteria）` -/
  | noNodeType
deriving Repr, DecidableEq

/-- The part of the choice after the searches. -/
def variantOf (hasVless hasHy2 hasSS : Bool) : Except SelectError Variant :=
  if hasVless = false ∧ hasHy2 = false then .error .noNodeType
  else if hasVless = true ∧ hasHy2 = true then .ok (if hasSS then .vlessHy2SS else .vlessHy2Direct)
  else if hasVless = true then .ok (if hasSS then .vlessSS else .vlessDirect)
  else .ok (if hasSS then .hy2SS else .hy2Direct)

/-- `TOPOLOGY_VARIANT` -/
def selectVariant (file : Bytes) : Except SelectError Variant :=
  if hasMatch nodeIDPattern file = false then .error .noNodeID
  else variantOf (hasMatch vlessPattern file) (hasMatch hy2Pattern file) (hasMatch ssPattern file)

/-! ### The builds -/

/-- The build tags of `scripts/build.sh`. -/
inductive BuildTag where
  | minimal
  | withVless
  | withHysteria2
  | withShadowsocksOutbound
deriving Repr, DecidableEq

/-- `build_matrix` -/
def Variant.tags : Variant → List BuildTag
  | .vlessDirect => [.minimal, .withVless]
  | .vlessSS => [.minimal, .withVless, .withShadowsocksOutbound]
  | .hy2Direct => [.minimal, .withHysteria2]
  | .hy2SS => [.minimal, .withHysteria2, .withShadowsocksOutbound]
  | .vlessHy2Direct => [.minimal, .withVless, .withHysteria2]
  | .vlessHy2SS => [.minimal, .withVless, .withHysteria2, .withShadowsocksOutbound]

/-- The constraint `tag || !minimal` of the `protocol_*_enabled.go` files. -/
def buildEnabled (tags : List BuildTag) (tag : BuildTag) : Bool := tags.contains tag || !tags.contains .minimal

def currentBuildCapabilities (tags : List BuildTag) : BuildCapabilities :=
  let vless := buildEnabled tags .withVless
  let hysteria2 := buildEnabled tags .withHysteria2
  let shadowsocks := buildEnabled tags .withShadowsocksOutbound
  let parts := (if vless then ["vless"] else []) ++ (if hysteria2 then ["hy2"] else []) ++ ["direct"] ++
    (if shadowsocks then ["ss"] else [])
  ⟨"-".intercalate parts, vless, hysteria2, shadowsocks, true⟩

def Variant.capabilities (v : Variant) : BuildCapabilities := currentBuildCapabilities v.tags

/-! ### What a build has to include -/

/-- The build includes the inbound protocol of every node, and Shadowsocks if there is an outbound of that kind. -/
structure Includes (caps : BuildCapabilities) (t : Topology) : Prop where
  inbounds : ∀ n ∈ t.nodes, IncludesInbound caps (inboundType n)
  shadowsocks : (∃ n ∈ t.nodes, n.outbound.IsShadowsocks) → caps.shadowsocksOutbound = true

/-- The gate of the agent asks for no more. -/
theorem Includes.gate {caps : BuildCapabilities} {t : Topology} (ht : t.Valid) (h : Includes caps t) :
    validateTopologyCapabilities caps t = .ok () := by
  refine validateTopologyCapabilities_ok_iff.2 fun n hn => ⟨h.inbounds n hn, fun hss => ?_⟩
  have hkind : n.outbound.kind = "direct" ∨ n.outbound.IsShadowsocks := (ht.ok n hn).outbound.imp_right And.left
  exact h.shadowsocks ⟨n, hn, ((namesShadowsocks_iff hkind).1 hss).1⟩

/-! ### What the searches find -/

def quoted (s : String) : Bytes := 34 :: bytes s ++ [34]

def Blank (bs : Bytes) : Prop := ∀ b ∈ bs, CharClass.space.has b = true

/-- Some line of the file has this text in it. -/
def Mentions (file text : Bytes) : Prop := ∃ line ∈ fileLines file, text <:+: line

/-- Some line of the file has a member with this key and one of these values, written without escapes; blanks may stand
around the colon. -/
def Spells (file : Bytes) (key : String) (names : List String) : Prop :=
  ∃ name ∈ names, ∃ l r : Bytes, Blank l ∧ Blank r ∧ Mentions file (quoted key ++ (l ++ (58 :: r ++ quoted name)))

/-- The spellings of a protocol that the installer knows. -/
def spellingsOf (type : String) : List String :=
  if type = "hysteria2" then ["hysteria", "hy2", "hysteria2"] else ["vless", "vless-reality", "reality"]

/-- Everything that a topology needs is written in the file in a way that the installer knows. -/
structure SpelledOut (file : Bytes) (t : Topology) : Prop where
  nodeID : Mentions file (quoted "node_id")
  inbounds : ∀ n ∈ t.nodes, Spells file "node_type" (spellingsOf (inboundType n))
  shadowsocks : (∃ n ∈ t.nodes, n.outbound.IsShadowsocks) → Spells file "type" ["shadowsocks", "ss"]

/-- The expression that the patterns for members stand for. -/
def memberEre (key : String) (names : List String) : Ere :=
  .seq (.text (quoted key)) (.seq (.many .space) (.seq (.text [58]) (.seq (.many .space)
    (.seq (.text [34]) (.seq (.oneOf (names.map bytes)) (.seq (.text [34]) (.text [])))))))

theorem readEre_patterns :
    readEre nodeIDPattern = some (.seq (.text (quoted "node_id")) (.text [])) ∧
    readEre vlessPattern = some (memberEre "node_type" (spellingsOf "vless")) ∧
    readEre hy2Pattern = some (memberEre "node_type" (spellingsOf "hysteria2")) ∧
    readEre ssPattern = some (memberEre "type" ["shadowsocks", "ss"]) := by
  decide +kernel

theorem mem_memberEre_iff {key : String} {names : List String} {w : Bytes} :
    w ∈ (memberEre key names).lang ↔ ∃ name ∈ names, ∃ l r, Blank l ∧ Blank r ∧
      w = quoted key ++ (l ++ (58 :: r ++ quoted name)) := by
  unfold memberEre
  simp only [mem_lang_text_seq, mem_lang_many_seq, mem_lang_oneOf_seq, mem_lang_text, List.mem_map]
  constructor
  · rintro ⟨_, ⟨l, hl, _, ⟨_, ⟨r, hr, _, ⟨_, ⟨_, ⟨name, hname, rfl⟩, _, ⟨_, rfl, rfl⟩, rfl⟩, rfl⟩, rfl⟩, rfl⟩, rfl⟩, rfl⟩
    exact ⟨name, hname, l, r, hl, hr, by simp [quoted]⟩
  · rintro ⟨name, hname, l, r, hl, hr, rfl⟩
    exact ⟨_, ⟨l, hl, _, ⟨_, ⟨r, hr, _, ⟨_, ⟨_, ⟨name, hname, rfl⟩, _, ⟨_, rfl, rfl⟩, rfl⟩, rfl⟩, rfl⟩, rfl⟩, rfl⟩,
      by simp [quoted]⟩

theorem hasMatch_eq {pattern : String} {e : Ere} (h : readEre pattern = some e) (file : Bytes) :
    hasMatch pattern file = grep e file := by
  unfold hasMatch
  rw [h]

theorem hasMatch_member_iff {pattern key : String} {names : List String}
    (h : readEre pattern = some (memberEre key names)) {file : Bytes} :
    hasMatch pattern file = true ↔ Spells file key names := by
  rw [hasMatch_eq h, grep_iff]
  constructor
  · rintro ⟨line, hline, w, hw, hin⟩
    obtain ⟨name, hname, l, r, hl, hr, rfl⟩ := mem_memberEre_iff.1 hw
    exact ⟨name, hname, l, r, hl, hr, line, hline, hin⟩
  · rintro ⟨name, hname, l, r, hl, hr, line, hline, hin⟩
    exact ⟨line, hline, _, mem_memberEre_iff.2 ⟨name, hname, l, r, hl, hr, rfl⟩, hin⟩

theorem hasMatch_nodeID_iff {file : Bytes} :
    hasMatch nodeIDPattern file = true ↔ Mentions file (quoted "node_id") := by
  rw [hasMatch_eq readEre_patterns.1, grep_iff]
  simp only [mem_lang_text_seq, mem_lang_text, exists_eq_left, List.append_nil, exists_eq_left']
  rfl

/-! ### What is chosen -/

theorem variantOf_ok_iff {hasVless hasHy2 hasSS : Bool} {v : Variant} :
    variantOf hasVless hasHy2 hasSS = .ok v ↔ v.capabilities.vlessInbound = hasVless ∧
      v.capabilities.hysteria2Inbound = hasHy2 ∧ v.capabilities.shadowsocksOutbound = hasSS := by
  cases v <;> revert hasVless hasHy2 hasSS <;> decide

/-- **The choice.**  A build is chosen if the file mentions a node, and it includes exactly what is spelled there. -/
theorem selectVariant_ok_iff {file : Bytes} {v : Variant} :
    selectVariant file = .ok v ↔ Mentions file (quoted "node_id") ∧
      (v.capabilities.vlessInbound = true ↔ Spells file "node_type" (spellingsOf "vless")) ∧
      (v.capabilities.hysteria2Inbound = true ↔ Spells file "node_type" (spellingsOf "hysteria2")) ∧
      (v.capabilities.shadowsocksOutbound = true ↔ Spells file "type" ["shadowsocks", "ss"]) := by
  obtain ⟨-, hvless, hhy2, hss⟩ := readEre_patterns
  rw [← hasMatch_nodeID_iff, ← hasMatch_member_iff hvless, ← hasMatch_member_iff hhy2, ← hasMatch_member_iff hss]
  simp only [← Bool.eq_iff_iff, ← variantOf_ok_iff]
  unfold selectVariant
  cases hasMatch nodeIDPattern file
  · simp
  · simp

theorem exists_variantOf (hasVless hasHy2 hasSS : Bool) (h : hasVless = true ∨ hasHy2 = true) :
    ∃ v, variantOf hasVless hasHy2 hasSS = .ok v := by
  cases hasVless
  · cases hasHy2
    · simp at h
    · exact ⟨_, rfl⟩
  · cases hasHy2
    · exact ⟨_, rfl⟩
    · exact ⟨_, rfl⟩

/-- The installer gives up: it finds no node, or no protocol. -/
def GivesUp (file : Bytes) : Prop :=
  ¬ Mentions file (quoted "node_id") ∨
    ¬ Spells file "node_type" (spellingsOf "vless") ∧ ¬ Spells file "node_type" (spellingsOf "hysteria2")

theorem exists_selectVariant_iff {file : Bytes} : (∃ v, selectVariant file = .ok v) ↔ ¬ GivesUp file := by
  obtain ⟨-, hvless, hhy2, -⟩ := readEre_patterns
  unfold GivesUp
  rw [← hasMatch_nodeID_iff, ← hasMatch_member_iff hvless, ← hasMatch_member_iff hhy2]
  unfold selectVariant
  constructor
  · rintro ⟨v, hv⟩ (hid | ⟨hno, hno'⟩)
    · rw [if_pos (by simpa using hid)] at hv
      cases hv
    · rw [Bool.not_eq_true] at hno hno'
      rw [hno, hno'] at hv
      split at hv <;> cases hv
  · intro h
    rw [not_or, not_not, not_and_or, not_not, not_not] at h
    rw [if_neg (by simp [h.1])]
    exact exists_variantOf _ _ _ h.2

section Choice

variable {file : Bytes} {t : Topology} {v : Variant}

theorem includesInbound_iff (hv : selectVariant file = .ok v) (n : NodeSpec) :
    IncludesInbound v.capabilities (inboundType n) ↔ Spells file "node_type" (spellingsOf (inboundType n)) := by
  obtain ⟨-, hvless, hhy2, -⟩ := selectVariant_ok_iff.1 hv
  unfold IncludesInbound
  rcases inboundType_cases n with ⟨h, -⟩ | ⟨h, -⟩
  · rw [h, ← hvless]
    simp
  · rw [h, ← hhy2]
    simp

theorem includes_iff (hv : selectVariant file = .ok v) : Includes v.capabilities t ↔ SpelledOut file t := by
  obtain ⟨hid, -, -, hss⟩ := selectVariant_ok_iff.1 hv
  constructor
  · intro h
    exact ⟨hid, fun n hn => (includesInbound_iff hv n).1 (h.inbounds n hn), fun hex => hss.1 (h.shadowsocks hex)⟩
  · intro h
    exact ⟨fun n hn => (includesInbound_iff hv n).2 (h.inbounds n hn), fun hex => hss.2 (h.shadowsocks hex)⟩

theorem SpelledOut.not_givesUp (ht : t.nodes ≠ []) (h : SpelledOut file t) : ¬ GivesUp file := by
  obtain ⟨n, hn⟩ := List.exists_mem_of_ne_nil _ ht
  have hspells := h.inbounds n hn
  rintro (hid | ⟨hvless, hhy2⟩)
  · exact hid h.nodeID
  · rcases inboundType_cases n with ⟨htype, -⟩ | ⟨htype, -⟩
    · exact hvless (htype ▸ hspells)
    · exact hhy2 (htype ▸ hspells)

end Choice

/-- **Installer and agent.**  For a file that the agent accepts, the installer finds a build that includes what the
topology needs, and that the agent's gate lets pass, if and only if all of it is spelled out in the file; and no build
that it finds lacks anything if and only if it finds none or all is spelled out. -/
theorem variant_sufficient_iff (file : Bytes) (t : Topology) (h : loadTopology file = .ok t) :
    ((∃ v, selectVariant file = .ok v ∧ Includes v.capabilities t ∧
        validateTopologyCapabilities v.capabilities t = .ok ()) ↔ SpelledOut file t) ∧
    ((∀ v, selectVariant file = .ok v → Includes v.capabilities t ∧
        validateTopologyCapabilities v.capabilities t = .ok ()) ↔ GivesUp file ∨ SpelledOut file t) := by
  obtain ⟨-, ht⟩ := loadTopology_ok h
  constructor
  · constructor
    · rintro ⟨v, hv, hincludes, -⟩
      exact (includes_iff hv).1 hincludes
    · intro hspelled
      obtain ⟨v, hv⟩ := exists_selectVariant_iff.2 (hspelled.not_givesUp ht.nonempty)
      have hincludes := (includes_iff hv).2 hspelled
      exact ⟨v, hv, hincludes, hincludes.gate ht⟩
  · constructor
    · intro hall
      by_cases hup : GivesUp file
      · exact Or.inl hup
      · obtain ⟨v, hv⟩ := exists_selectVariant_iff.2 hup
        exact Or.inr ((includes_iff hv).1 (hall v hv).1)
    · rintro (hup | hspelled) v hv
      · exact absurd hup (exists_selectVariant_iff.1 ⟨v, hv⟩)
      · have hincludes := (includes_iff hv).2 hspelled
        exact ⟨hincludes, hincludes.gate ht⟩

/-- A node with a direct outbound, as a line of a file. -/
def nodeLine (id nodeType : String) : Bytes :=
  ["\x7b\"node_id\": \"", id, "\", ", "\"node_type\": \"", nodeType, "\", ", "\"outbound\": ",
    "\x7b\"type\": \"direct\"\x7d\x7d"].flatMap bytes

/-- A file with two nodes, the first of this type. -/
def twoNodesFile (nodeType : String) : Bytes :=
  bytes "\x7b\"nodes\": [\n" ++ nodeLine "1" nodeType ++ bytes ",\n" ++ nodeLine "2" "hy2" ++ bytes "\n]\x7d\n"

def twoNodes (nodeType : String) : Topology :=
  ⟨[⟨"1", nodeType, "", ⟨"direct", "", 0, "", "", "", ""⟩⟩, ⟨"2", "hy2", "", ⟨"direct", "", 0, "", "", "", ""⟩⟩]⟩

theorem variant_sufficient_two :
    loadTopology (twoNodesFile "vless") = .ok (twoNodes "vless") ∧
      ∃ v, selectVariant (twoNodesFile "vless") = .ok v ∧ Includes v.capabilities (twoNodes "vless") ∧
        validateTopologyCapabilities v.capabilities (twoNodes "vless") = .ok () := by
  have hload : loadTopology (twoNodesFile "vless") = .ok (twoNodes "vless") := by decide +kernel
  refine ⟨hload, (variant_sufficient_iff _ _ hload).1.2 ⟨hasMatch_nodeID_iff.1 (by decide +kernel), ?_, ?_⟩⟩
  · intro n _
    obtain ⟨-, hvless, hhy2, -⟩ := readEre_patterns
    rcases inboundType_cases n with ⟨htype, -⟩ | ⟨htype, -⟩
    · rw [htype]
      exact (hasMatch_member_iff hvless).1 (by decide +kernel)
    · rw [htype]
      exact (hasMatch_member_iff hhy2).1 (by decide +kernel)
  · intro h
    exact absurd h (by simp only [OutboundSpec.IsShadowsocks]; decide +kernel)

/-- With the type in capitals the installer picks a build without VLESS, and the agent refuses to start. -/
theorem variant_insufficient_capitals :
    loadTopology (twoNodesFile "VLESS") = .ok (twoNodes "VLESS") ∧
      selectVariant (twoNodesFile "VLESS") = .ok .hy2Direct ∧
      validateTopologyCapabilities Variant.hy2Direct.capabilities (twoNodes "VLESS") =
        .error (.vlessInbound "hy2-direct") ∧
      ¬ Includes Variant.hy2Direct.capabilities (twoNodes "VLESS") := by
  have hgate : validateTopologyCapabilities Variant.hy2Direct.capabilities (twoNodes "VLESS") =
      .error (.vlessInbound "hy2-direct") := by decide +kernel
  have hload : loadTopology (twoNodesFile "VLESS") = .ok (twoNodes "VLESS") := by decide +kernel
  have hselect : selectVariant (twoNodesFile "VLESS") = .ok .hy2Direct := by
    obtain ⟨hid, hvless, hhy2, hss⟩ := readEre_patterns
    unfold selectVariant
    rw [hasMatch_eq hid, hasMatch_eq hvless, hasMatch_eq hhy2, hasMatch_eq hss]
    decide +kernel
  refine ⟨hload, hselect, hgate, ?_⟩
  intro h
  rw [h.gate (loadTopology_ok hload).2] at hgate
  cases hgate

end MiniSbAgent.Install
