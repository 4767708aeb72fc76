import MiniSbAgent.Agent.TopologyConfig

/-!
# The certificate files of a topology

With more than one node `generateTopologyConfig` gives each Hysteria2 node a certificate and a key file of its own, next
to the generated configuration.  Their names are made of the raw `node_id`, while `Validate` looks at the trimmed one and
tells the nodes apart by their keys:

* `validateNodeID_noSlash` — what is trimmed away is white space, so the raw id has no separator either;
* `nodeID_inj` — two Hysteria2 nodes with the same raw id have the same key;
* `certificate_files_apart` — the files are all different and lie directly in the directory of the configuration.
-/

namespace MiniSbAgent.Agent.TopologyConfig

open MiniSbAgent.Go MiniSbAgent.Panelapi

/-- The certificate and the key file of an inbound. -/
def InboundConfig.files (i : InboundConfig) : List String :=
  match i.tls with
  | .certificate _ certificatePath keyPath => [certificatePath, keyPath]
  | .reality .. => []

/-- The files that the generator picks for a Hysteria2 node, one of `count` nodes. -/
def nodeFiles (count : ℕ) (opts : XboardGenerateOptions) (n : NodeSpec) : List String :=
  [(nodeOpts count opts n).certPath, (nodeOpts count opts n).keyPath]

def hy2Nodes (t : Topology) : List NodeSpec := t.nodes.filter fun n => inboundType n = "hysteria2"

/-! ### Which nodes have files -/

theorem normalizeNodeMode_hy2 {v : String} (h : normalizeNodeType v = "hysteria") : normalizeNodeMode v = "hy2" := by
  unfold normalizeNodeType at h
  unfold normalizeNodeMode
  simp only at h ⊢
  split_ifs at h with hv hh
  · exact absurd h (by decide)
  · rw [if_neg hv, if_pos hh]
  · exact absurd (Or.inr (Or.inl h)) hh

theorem inboundType_hy2 {n : NodeSpec} : inboundType n = "hysteria2" ↔ normalizeNodeType n.nodeType = "hysteria" := by
  unfold inboundType
  split
  · rename_i h
    simp [h]
  · rename_i h
    simp [h]

theorem mem_hy2Nodes {t : Topology} {n : NodeSpec} :
    n ∈ hy2Nodes t ↔ n ∈ t.nodes ∧ normalizeNodeType n.nodeType = "hysteria" := by
  unfold hy2Nodes
  rw [List.mem_filter, decide_eq_true_eq, inboundType_hy2]

theorem nodeFiles_eq {count : ℕ} (hcount : 1 < count) (opts : XboardGenerateOptions) {n : NodeSpec}
    (hn : normalizeNodeType n.nodeType = "hysteria") :
    nodeFiles count opts n = [joinPath [dirPath opts.out, "cert-" ++ n.nodeID ++ ".pem"],
      joinPath [dirPath opts.out, "key-" ++ n.nodeID ++ ".pem"]] := by
  unfold nodeFiles nodeOpts
  rw [if_pos ⟨hcount, normalizeNodeMode_hy2 hn⟩]

/-! ### The names of the files -/

theorem validateNodeID_noSlash {id : String} (h : validateNodeID id = .ok ()) : '/' ∉ id.toList := by
  intro hslash
  have hcontains : contains (trimSpace id) "/" = true := by
    unfold contains
    exact decide_eq_true ((List.singleton_infix_iff _ _).2 (mem_trimRunes hslash (by decide)))
  unfold validateNodeID at h
  simp [hcontains] at h

section Names

variable {pre id : String}

/-- A name with a prefix that does not start with a dot is not one of the special elements. -/
theorem fileName_plain (hpre : '/' ∉ pre.toList) (hid : '/' ∉ id.toList) (hhead : pre.toList.head? ≠ some '.')
    (hne : pre ≠ "") : PlainElem (pre ++ id ++ ".pem") := by
  obtain ⟨c, cs, hcs⟩ := List.exists_cons_of_ne_nil (l := pre.toList) fun h => hne (String.toList_injective h)
  have hfirst : (pre ++ id ++ ".pem").toList.head? = some c := by simp [hcs]
  rw [hcs, List.head?_cons] at hhead
  have hother : ∀ e : String, e.toList.head? ≠ some c → pre ++ id ++ ".pem" ≠ e := fun e he h => he (h ▸ hfirst)
  refine ⟨?_, hother "" nofun, hother "." (Ne.symm hhead), hother ".." (Ne.symm hhead)⟩
  simp only [String.toList_append, List.mem_append, not_or]
  exact ⟨⟨hpre, hid⟩, by decide⟩

theorem certName_plain (hid : '/' ∉ id.toList) : PlainElem ("cert-" ++ id ++ ".pem") :=
  fileName_plain (by decide) hid (by decide) (by decide)

theorem keyName_plain (hid : '/' ∉ id.toList) : PlainElem ("key-" ++ id ++ ".pem") :=
  fileName_plain (by decide) hid (by decide) (by decide)

theorem fileName_inj {id' : String} (h : pre ++ id ++ ".pem" = pre ++ id' ++ ".pem") : id = id' :=
  String.toList_injective (by simpa using congrArg String.toList h)

theorem certName_ne_keyName (id' : String) : "cert-" ++ id ++ ".pem" ≠ "key-" ++ id' ++ ".pem" := by
  intro h
  have := congrArg (fun s => s.toList.head?) h
  simp at this

end Names

/-- Two Hysteria2 nodes of a valid topology have different raw ids. -/
theorem nodeID_inj {t : Topology} (ht : t.Valid) {n m : NodeSpec} (hn : n ∈ hy2Nodes t) (hm : m ∈ hy2Nodes t)
    (h : n.nodeID = m.nodeID) : n = m := by
  rw [mem_hy2Nodes] at hn hm
  refine ht.eq_of_key hn.1 hm.1 ?_
  unfold NodeSpec.key nodeKey
  rw [hn.2, hm.2, h]

section Files

variable {t : Topology} {opts : XboardGenerateOptions}

theorem dirPath_ne_empty (path : String) : dirPath path ≠ "" := cleanPath_ne_empty _

/-- Every file is the directory of the configuration joined with one plain element. -/
theorem mem_nodeFiles (ht : t.Valid) (hmany : 1 < t.nodes.length) {n : NodeSpec} (hn : n ∈ hy2Nodes t) {f : String}
    (hf : f ∈ nodeFiles t.nodes.length opts n) :
    ∃ e, PlainElem e ∧ f = joinPath [dirPath opts.out, e] ∧
      (e = "cert-" ++ n.nodeID ++ ".pem" ∨ e = "key-" ++ n.nodeID ++ ".pem") := by
  obtain ⟨hmem, htype⟩ := mem_hy2Nodes.1 hn
  have hslash := validateNodeID_noSlash (ht.ok n hmem).nodeID
  rw [nodeFiles_eq hmany opts htype, List.mem_cons, List.mem_singleton] at hf
  rcases hf with hf | hf
  · exact ⟨_, certName_plain hslash, hf, Or.inl rfl⟩
  · exact ⟨_, keyName_plain hslash, hf, Or.inr rfl⟩

theorem nodup_nodeFiles (ht : t.Valid) (hmany : 1 < t.nodes.length) {n : NodeSpec} (hn : n ∈ hy2Nodes t) :
    (nodeFiles t.nodes.length opts n).Nodup := by
  obtain ⟨hmem, htype⟩ := mem_hy2Nodes.1 hn
  have hslash := validateNodeID_noSlash (ht.ok n hmem).nodeID
  rw [nodeFiles_eq hmany opts htype, List.nodup_cons, List.mem_singleton]
  refine ⟨fun h => ?_, List.nodup_singleton _⟩
  exact certName_ne_keyName _ (joinPath_inj (dirPath_ne_empty _) (certName_plain hslash) (keyName_plain hslash) h)

theorem disjoint_nodeFiles (ht : t.Valid) (hmany : 1 < t.nodes.length) {n m : NodeSpec} (hn : n ∈ hy2Nodes t)
    (hm : m ∈ hy2Nodes t) (hne : n ≠ m) :
    List.Disjoint (nodeFiles t.nodes.length opts n) (nodeFiles t.nodes.length opts m) := by
  intro f hf hf'
  obtain ⟨e, hplain, hjoin, he⟩ := mem_nodeFiles ht hmany hn hf
  obtain ⟨e', hplain', hjoin', he'⟩ := mem_nodeFiles ht hmany hm hf'
  have hsame := joinPath_inj (dirPath_ne_empty _) hplain hplain' (hjoin.symm.trans hjoin')
  subst hsame
  -- only names of one kind can agree, and then the ids do
  rcases he with rfl | rfl <;> rcases he' with he' | he'
  · exact hne (nodeID_inj ht hn hm (fileName_inj he'))
  · exact certName_ne_keyName _ he'
  · exact certName_ne_keyName _ he'.symm
  · exact hne (nodeID_inj ht hn hm (fileName_inj he'))

theorem nodup_files (ht : t.Valid) (hmany : 1 < t.nodes.length) :
    ((hy2Nodes t).flatMap (nodeFiles t.nodes.length opts)).Nodup := by
  have hnodup : (hy2Nodes t).Nodup := ht.nodup.filter _
  refine List.nodup_flatMap.2 ⟨fun n hn => nodup_nodeFiles ht hmany hn, ?_⟩
  exact hnodup.imp_of_mem fun hn hm hne => disjoint_nodeFiles ht hmany hn hm hne

end Files

/-! ### The files in the configuration -/

theorem vless_files {cfg : NodeConfig} {listen : String} {inbound : InboundConfig}
    (h : vlessInboundFromNodeConfig cfg listen = .ok inbound) : inbound.files = [] := by
  unfold vlessInboundFromNodeConfig at h
  split_ifs at h
  all_goals
    cases h
    rfl

theorem hy2_files {certOk : String → String → String → Bool} {cfg : NodeConfig} {opts : XboardGenerateOptions}
    {listen : String} {inbound : InboundConfig} (h : hy2InboundFromNodeConfig certOk cfg opts listen = .ok inbound)
    (hcert : opts.certPath ≠ "") (hkey : opts.keyPath ≠ "") : inbound.files = [opts.certPath, opts.keyPath] := by
  unfold hy2InboundFromNodeConfig at h
  simp only [if_neg hcert, if_neg hkey] at h
  split at h
  · cases h
  · split at h
    · cases h
    · cases h
      rfl

section Configuration

variable {ε : Type} {env : Env ε} {opts : XboardGenerateOptions} {t : Topology} (ht : t.Valid)
  (hmany : 1 < t.nodes.length)

include ht hmany

/-- The files of the inbound that a node gets: its own if it is a Hysteria2 node, none otherwise. -/
theorem Serves.files_eq {n : NodeSpec} {inbound : InboundConfig} (hn : n ∈ t.nodes)
    (h : Serves env opts t.nodes.length n inbound) :
    inbound.files = if inboundType n = "hysteria2" then nodeFiles t.nodes.length opts n else [] := by
  have htype := h.type_eq
  obtain ⟨i, cfg, made, -, hmade, rfl⟩ := h
  show made.files = _
  unfold inboundFromNodeConfig at hmade
  simp only at hmade htype
  split_ifs at hmade with hv hh
  · rw [vless_type hmade] at htype
    rw [vless_files hmade, if_neg (by rw [← htype]; decide)]
  · rw [hy2_type hmade] at htype
    rw [if_pos htype.symm]
    have hmem : n ∈ hy2Nodes t := mem_hy2Nodes.2 ⟨hn, inboundType_hy2.1 htype.symm⟩
    have hfile : ∀ f ∈ nodeFiles t.nodes.length opts n, f ≠ "" := by
      intro f hf
      obtain ⟨e, he, hjoin, -⟩ := mem_nodeFiles ht hmany hmem hf
      rw [hjoin, ← cleanPath_joinPath (dirPath_ne_empty _) he]
      exact cleanPath_ne_empty _
    exact hy2_files hmade (hfile _ List.mem_cons_self) (hfile _ (List.mem_cons_of_mem _ List.mem_cons_self))

theorem flatMap_files {nodes : List NodeSpec} (hsub : ∀ n ∈ nodes, n ∈ t.nodes) {inbounds : List InboundConfig}
    (h : List.Forall₂ (Serves env opts t.nodes.length) nodes inbounds) :
    inbounds.flatMap InboundConfig.files =
      (nodes.filter fun n => inboundType n = "hysteria2").flatMap (nodeFiles t.nodes.length opts) := by
  induction h with
  | nil => rfl
  | @cons n inbound nodes inbounds hserves _ ih =>
    rw [List.forall_mem_cons] at hsub
    rw [List.flatMap_cons, hserves.files_eq ht hmany hsub.1, ih hsub.2, List.filter_cons]
    by_cases htype : inboundType n = "hysteria2"
    · simp [htype]
    · simp [htype]

end Configuration

/-- **Certificate files.**  With several nodes, the certificate and key files of the Hysteria2 nodes are pairwise
different; each of them is a file directly in the directory of the output, whatever the raw ids look like; and they are
the files that the generated configuration names. -/
theorem certificate_files_apart {ε : Type} (env : Env ε) (opts : XboardGenerateOptions) (t : Topology)
    (hvalid : t.validate = .ok ()) (hmany : 1 < t.nodes.length) :
    ((hy2Nodes t).flatMap (nodeFiles t.nodes.length opts)).Nodup ∧
    (∀ f ∈ (hy2Nodes t).flatMap (nodeFiles t.nodes.length opts), ∃ e, PlainElem e ∧
      cleanPath f = joinPath [dirPath opts.out, e] ∧ dirPath f = dirPath opts.out) ∧
    ∀ c, generateTopologyConfig env opts t = .ok c →
      c.inbounds.flatMap InboundConfig.files = (hy2Nodes t).flatMap (nodeFiles t.nodes.length opts) := by
  have ht := (validate_ok_iff t).1 hvalid
  refine ⟨nodup_files ht hmany, ?_, ?_⟩
  · intro f hf
    obtain ⟨n, hn, hf⟩ := List.mem_flatMap.1 hf
    obtain ⟨e, he, hjoin, -⟩ := mem_nodeFiles ht hmany hn hf
    refine ⟨e, he, ?_, ?_⟩
    · rw [hjoin]
      exact cleanPath_joinPath (dirPath_ne_empty _) he
    rw [hjoin, dirPath_joinPath (dirPath_ne_empty _) he]
    exact cleanPath_cleanPath _
  · intro c hc
    obtain ⟨-, inbounds, hserves, rfl⟩ := generateTopologyConfig_serves hc
    exact flatMap_files ht hmany (fun _ hn => hn) hserves

/-- Two Hysteria2 nodes, one of them with an id that is padded. -/
def paddedTopology : Topology :=
  ⟨[⟨" 7\t", "hy2", "", ⟨"direct", "", 0, "", "", "", ""⟩⟩,
    ⟨"8", " Hysteria2", "", ⟨"direct", "", 0, "", "", "", ""⟩⟩]⟩

theorem certificate_files_padded :
    paddedTopology.validate = .ok () ∧
      ((hy2Nodes paddedTopology).flatMap (nodeFiles 2 ⟨"/etc/sb/config.json", "", ""⟩)).Nodup ∧
      (hy2Nodes paddedTopology).flatMap (nodeFiles 2 ⟨"/etc/sb/config.json", "", ""⟩) =
        ["/etc/sb/cert- 7\t.pem", "/etc/sb/key- 7\t.pem", "/etc/sb/cert-8.pem", "/etc/sb/key-8.pem"] :=
  ⟨by decide +kernel, (certificate_files_apart siteEnv ⟨"/etc/sb/config.json", "", ""⟩ paddedTopology
    (by decide +kernel) (by decide)).1, by decide +kernel⟩

end MiniSbAgent.Agent.TopologyConfig
