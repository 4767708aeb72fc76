import MiniSbAgent.Panelapi.Client

/-!
# Panels and the flush of the syncer

A panel is one client, a `MultiPanel` of clients, or the `topologyPanel` with one client for each node; all push to
every client they have, collect the tags that were acknowledged, and join the errors.  `flush` takes a snapshot,
pushes it and commits what the outcome of the push allows.

* `toCommit` — the three ways a flush can end: nothing, the acknowledged inbounds, or every inbound;
* `pushTraffic_errs`, `pushTraffic_acked` — the errors and the acknowledged tags of any panel, client by client;
* `untaken_iff` — when a flush commits only what some client took.  The branch for a push without errors does not
  look at the acknowledged tags, so it also commits inbounds that are no client's: `untaken_committed`.
-/

namespace MiniSbAgent.Panelapi

open MiniSbAgent.Go MiniSbAgent.Counter MiniSbAgent.Counter.Hook

/-- An error of one client, as the panel reports it. -/
inductive PushFault
  | plain (e : PanelError)
  /-- `push traffic for %s: %w` -/
  | node (key : String) (e : PanelError)
deriving Repr, DecidableEq

/-- What `Panel.PushTraffic` returns; no errors stand for `nil`. -/
structure PanelPush where
  acked : GoMap String Bool
  errs : List PushFault

/-- What the network does while a panel pushes: the URLs that parse and, for the client at each position, the order
of its loop over the users and the answer to its request. -/
structure Net where
  urlOk : String → Bool
  order : ℕ → RangeOrder ((_ : String) × ℤ × ℤ)
  reply : ℕ → Exchange Unit

/-- The push of the client at position `i`. -/
def Net.push (net : Net) (delta : Delta) (c : Client) (i : ℕ) : Push :=
  c.pushTraffic net.urlOk (net.order i) delta (net.reply i)

/-- One turn of the loop of `MultiPanel.PushTraffic`. -/
def absorb (acc : PanelPush) (p : Push) : PanelPush :=
  ⟨writes acc.acked (p.acked.keys.map fun tag => (tag, true)), acc.errs ++ (p.err.map PushFault.plain).toList⟩

/-- One turn of the loop of `topologyPanel.PushTraffic`. -/
def absorbNode (acc : PanelPush) (node : NodeSpec) (p : Push) : PanelPush :=
  match p.err with
  | some e => ⟨acc.acked, acc.errs ++ [.node node.key e]⟩
  | none => ⟨acc.acked.insert node.inboundTag true, acc.errs⟩

/-- The panels that the agent builds for a panel URL. -/
inductive Panel
  | client (c : Client)
  | multi (clients : List Client)
  | topology (baseURL token : String) (nodes : List NodeSpec)

namespace Panel

def clients : Panel → List Client
  | client c => [c]
  | multi clients => clients
  | topology baseURL token nodes => nodes.map (Client.newNode baseURL token)

def pushTraffic (net : Net) (delta : Delta) : Panel → PanelPush
  | client c => ⟨(net.push delta c 0).acked, ((net.push delta c 0).err.map PushFault.plain).toList⟩
  | multi clients => clients.zipIdx.foldl (fun acc c => absorb acc (net.push delta c.1 c.2)) ⟨∅, []⟩
  | topology baseURL token nodes =>
    nodes.zipIdx.foldl
      (fun acc n => absorbNode acc n.1 (net.push delta (Client.newNode baseURL token n.1) n.2)) ⟨∅, []⟩

end Panel

/-! ### The flush -/

def hasTraffic (delta : Delta) : Bool := delta.entries.any fun e => e.2.entries.any fun u => isNumericUser u.1

/-- The numeric users of the given inbounds; of all inbounds for `none`. -/
def commitDelta (delta : Delta) (only : Option (GoMap String Bool)) : Delta :=
  collect₂ (fun tag user d =>
    if (only.all fun m => (m.lookup tag).getD false) && isNumericUser user then some d else none) delta

/-- What is committed after a push. -/
def toCommit (delta : Delta) (p : PanelPush) : Option Delta :=
  if p.errs ≠ [] then if isEmpty p.acked then none else some (commitDelta delta (some p.acked))
  else some (commitDelta delta none)

/-- The snapshot a flush pushes, if it has anything to push. -/
def toPush (h : Hook) : Option Delta :=
  if isEmpty h.snapshotDelta then none else if hasTraffic h.snapshotDelta then some h.snapshotDelta else none

/-- `Syncer.flush`, with no traffic counted meanwhile. -/
def flush (panel : Panel) (net : Net) (h : Hook) : Hook :=
  match toPush h with
  | none => h
  | some delta =>
    match toCommit delta (panel.pushTraffic net delta) with
    | none => h
    | some commit => h.commitSnapshot commit

theorem lookup₂_commitDelta (delta : Delta) (only : Option (GoMap String Bool)) (tag user : String) :
    lookup₂ (commitDelta delta only) tag user =
      if (∀ m ∈ only, (m.lookup tag).getD false = true) ∧ isNumericUser user = true then lookup₂ delta tag user
      else none := by
  unfold commitDelta
  rw [lookup₂_collect₂]
  have hall : (only.all fun m => (m.lookup tag).getD false) = true ↔
      ∀ m ∈ only, (m.lookup tag).getD false = true := by
    cases only <;> simp
  simp only [Bool.and_eq_true, hall]
  split <;> cases lookup₂ delta tag user <;> rfl

/-- What is committed for a key is what was pushed for it, or nothing. -/
theorem lookup₂_toCommit {delta commit : Delta} {p : PanelPush} (h : toCommit delta p = some commit)
    (tag user : String) : lookup₂ commit tag user = none ∨ lookup₂ commit tag user = lookup₂ delta tag user := by
  have hcommit : ∀ only, lookup₂ (commitDelta delta only) tag user = none ∨
      lookup₂ (commitDelta delta only) tag user = lookup₂ delta tag user := by
    intro only
    rw [lookup₂_commitDelta]
    split
    · exact Or.inr rfl
    · exact Or.inl rfl
  unfold toCommit at h
  split at h
  · split at h
    · cases h
    · cases h
      exact hcommit _
  · cases h
    exact hcommit _

theorem hasTraffic_iff (delta : Delta) :
    hasTraffic delta = true ↔ ∃ tag user d, lookup₂ delta tag user = some d ∧ isNumericUser user = true := by
  unfold hasTraffic
  simp only [List.any_eq_true]
  constructor
  · rintro ⟨⟨tag, users⟩, he, ⟨user, d⟩, hu, hnum⟩
    refine ⟨tag, user, d, ?_, hnum⟩
    unfold lookup₂
    rw [(mem_entries_iff delta).1 he]
    exact (mem_entries_iff users).1 hu
  · rintro ⟨tag, user, d, hl, hnum⟩
    obtain ⟨users, h1, h2⟩ := Option.bind_eq_some_iff.1 hl
    exact ⟨⟨tag, users⟩, (mem_entries_iff delta).2 h1, ⟨user, d⟩, (mem_entries_iff users).2 h2, hnum⟩

theorem toPush_eq_some {h : Hook} {delta : Delta} (hp : toPush h = some delta) :
    delta = h.snapshotDelta ∧ hasTraffic delta = true := by
  unfold toPush at hp
  split at hp
  · cases hp
  · split at hp
    · rename_i ht
      cases hp
      exact ⟨rfl, ht⟩
    · cases hp

/-- A snapshot that is not pushed has no numeric user. -/
theorem toPush_eq_none {h : Hook} (hp : toPush h = none) {tag user : String} {d : ℤ × ℤ}
    (hd : lookup₂ h.snapshotDelta tag user = some d) : isNumericUser user = false := by
  unfold toPush at hp
  split at hp
  · rename_i he
    unfold lookup₂ at hd
    rw [(isEmpty_iff _).1 he tag] at hd
    cases hd
  · split at hp
    · cases hp
    · rename_i ht
      rw [← Bool.not_eq_true]
      exact fun hnum => ht ((hasTraffic_iff _).2 ⟨tag, user, d, hd, hnum⟩)

/-! ### Errors and acknowledged tags of a panel -/

section Fold

variable (net : Net) (delta : Delta)

/-- The client at position `i` pushed without error. -/
def Net.Ok (c : Client) (i : ℕ) : Prop := (net.push delta c i).err = none

theorem mem_absorb (acc : PanelPush) (p : Push) (tag : String) :
    tag ∈ (absorb acc p).acked ↔ tag ∈ acc.acked ∨ tag ∈ p.acked := by
  have hkeys : (p.acked.keys.map fun tag => (tag, true)).map Prod.fst = p.acked.keys := by
    rw [List.map_map]
    exact List.map_id _
  unfold absorb
  by_cases hp : tag ∈ p.acked
  · have hmem : (tag, true) ∈ p.acked.keys.map fun tag => (tag, true) :=
      List.mem_map.2 ⟨tag, AList.mem_keys.1 hp, rfl⟩
    obtain ⟨v, hv, -⟩ := exists_lookup_writes (m := acc.acked) hmem
    simp only [hp, or_true, iff_true]
    rw [← AList.lookup_isSome, hv]
    rfl
  · simp only [hp, or_false]
    rw [← AList.lookup_isSome, lookup_writes_of_not_mem (by rw [hkeys]; exact fun h => hp (AList.mem_keys.2 h)),
      AList.lookup_isSome]

/-- The tags a client acknowledges are its own, and it acknowledges them only on success. -/
theorem mem_acked_push {c : Client} {i : ℕ} {tag : String} (h : tag ∈ (net.push delta c i).acked) :
    net.Ok delta c i ∧ c.matchesInbound tag = true := by
  by_cases hf : c.PushFails net.urlOk (net.order i) delta (net.reply i)
  · unfold Net.push at h
    rw [(pushTraffic_of_fails hf).1] at h
    exact absurd h (AList.notMem_empty tag)
  · refine ⟨(pushTraffic_of_not_fails hf).2.1, ?_⟩
    unfold Net.push at h
    rw [(pushTraffic_of_not_fails hf).1] at h
    unfold Client.ackedTags at h
    rw [mem_collect] at h
    obtain ⟨users, w, -, hw⟩ := h
    split at hw
    · assumption
    · cases hw

theorem multi_errs (l : List (Client × ℕ)) (acc : PanelPush) :
    (l.foldl (fun acc c => absorb acc (net.push delta c.1 c.2)) acc).errs = [] ↔
      acc.errs = [] ∧ ∀ c ∈ l, net.Ok delta c.1 c.2 := by
  induction l generalizing acc with
  | nil => simp
  | cons c l ih =>
    rw [List.foldl_cons, ih, List.forall_mem_cons]
    unfold absorb Net.Ok
    cases (net.push delta c.1 c.2).err <;> simp

theorem multi_acked (l : List (Client × ℕ)) (acc : PanelPush) (tag : String) :
    tag ∈ (l.foldl (fun acc c => absorb acc (net.push delta c.1 c.2)) acc).acked ↔
      tag ∈ acc.acked ∨ ∃ c ∈ l, tag ∈ (net.push delta c.1 c.2).acked := by
  induction l generalizing acc with
  | nil => simp
  | cons c l ih =>
    rw [List.foldl_cons, ih, mem_absorb, List.exists_mem_cons_iff, or_assoc]

theorem absorbNode_errs (acc : PanelPush) (node : NodeSpec) (p : Push) :
    (absorbNode acc node p).errs = [] ↔ acc.errs = [] ∧ p.err = none := by
  unfold absorbNode
  rcases p.err with _ | e <;> simp

theorem lookup_absorbNode (acc : PanelPush) (node : NodeSpec) (p : Push) (tag : String) :
    (absorbNode acc node p).acked.lookup tag =
      if tag = node.inboundTag ∧ p.err = none then some true else acc.acked.lookup tag := by
  unfold absorbNode
  rcases p.err with _ | e
  · simp only [lookup_insert_of, and_true]
  · simp

section Topology

variable (baseURL token : String)

theorem topology_errs (l : List (NodeSpec × ℕ)) (acc : PanelPush) :
    (l.foldl (fun acc n => absorbNode acc n.1 (net.push delta (Client.newNode baseURL token n.1) n.2)) acc).errs
      = [] ↔ acc.errs = [] ∧ ∀ n ∈ l, net.Ok delta (Client.newNode baseURL token n.1) n.2 := by
  induction l generalizing acc with
  | nil => simp
  | cons n l ih =>
    rw [List.foldl_cons, ih, absorbNode_errs, List.forall_mem_cons, and_assoc]
    rfl

theorem topology_acked (l : List (NodeSpec × ℕ)) (acc : PanelPush) (tag : String) :
    tag ∈ (l.foldl (fun acc n =>
        absorbNode acc n.1 (net.push delta (Client.newNode baseURL token n.1) n.2)) acc).acked ↔
      tag ∈ acc.acked ∨ ∃ n ∈ l, tag = n.1.inboundTag ∧ net.Ok delta (Client.newNode baseURL token n.1) n.2 := by
  induction l generalizing acc with
  | nil => simp
  | cons n l ih =>
    rw [List.foldl_cons, ih, List.exists_mem_cons_iff, ← or_assoc]
    refine or_congr_left ?_
    rw [← AList.lookup_isSome, lookup_absorbNode, ← AList.lookup_isSome (s := acc.acked)]
    unfold Net.Ok
    split
    · rename_i h; simp [h]
    · rename_i h; simp [h]

end Topology

/-- **A panel reports no error exactly when every client succeeded.** -/
theorem pushTraffic_errs (panel : Panel) :
    (panel.pushTraffic net delta).errs = [] ↔ ∀ c ∈ panel.clients.zipIdx, net.Ok delta c.1 c.2 := by
  cases panel with
  | client c =>
    simp only [Panel.pushTraffic, Panel.clients, List.zipIdx_singleton, List.forall_mem_singleton, Net.Ok]
    cases (net.push delta c 0).err <;> simp
  | multi clients =>
    have := multi_errs net delta clients.zipIdx ⟨∅, []⟩
    simp only [true_and] at this
    exact this
  | topology baseURL token nodes =>
    have := topology_errs net delta baseURL token nodes.zipIdx ⟨∅, []⟩
    simp only [true_and] at this
    simp only [Panel.clients, List.zipIdx_map, List.forall_mem_map]
    exact this

/-- **A tag a panel acknowledges was taken by one of its clients.** -/
theorem pushTraffic_acked (panel : Panel) {tag : String} (h : tag ∈ (panel.pushTraffic net delta).acked) :
    ∃ c ∈ panel.clients.zipIdx, c.1.matchesInbound tag = true ∧ net.Ok delta c.1 c.2 := by
  cases panel with
  | client c =>
    obtain ⟨hok, hm⟩ := mem_acked_push net delta h
    exact ⟨(c, 0), List.mem_singleton_self _, hm, hok⟩
  | multi clients =>
    rcases (multi_acked net delta clients.zipIdx ⟨∅, []⟩ tag).1 h with h | ⟨c, hc, h⟩
    · exact absurd h (AList.notMem_empty tag)
    · obtain ⟨hok, hm⟩ := mem_acked_push net delta h
      exact ⟨c, hc, hm, hok⟩
  | topology baseURL token nodes =>
    rcases (topology_acked net delta baseURL token nodes.zipIdx ⟨∅, []⟩ tag).1 h with h | ⟨n, hn, htag, hok⟩
    · exact absurd h (AList.notMem_empty tag)
    · have hm := (matchesInbound_newNode baseURL token n.1 tag).2 htag
      refine ⟨(Client.newNode baseURL token n.1, n.2), ?_, hm, hok⟩
      rw [Panel.clients, List.zipIdx_map]
      exact List.mem_map.2 ⟨n, hn, rfl⟩

end Fold

/-! ### Only what was taken is committed -/

section Untaken

variable (panel : Panel) (net : Net) (h : Hook)

/-- Some client accepts the tag and pushed without error. -/
def Took (delta : Delta) (tag : String) : Prop :=
  ∃ c ∈ panel.clients.zipIdx, c.1.matchesInbound tag = true ∧ net.Ok delta c.1 c.2

/-- The flush leaves every inbound that no client took as it was, and the next snapshot offers it again. -/
def TakenOnly : Prop :=
  ∀ tag, ¬ Took panel net h.snapshotDelta tag → ∀ user,
    (flush panel net h).storage tag user = h.storage tag user ∧
      lookup₂ (flush panel net h).snapshotDelta tag user = lookup₂ h.snapshotDelta tag user

theorem ptr_flush : (flush panel net h).ptr = h.ptr := by
  unfold flush
  rcases toPush h with _ | delta
  · rfl
  · simp only
    rcases toCommit delta (panel.pushTraffic net delta) with _ | commit
    · rfl
    · exact ptr_commitSnapshot h commit

/-- A flush changes a key only by committing what the snapshot reported for it. -/
theorem storage_flush_of_none {tag user : String}
    (hnone : ∀ commit, toCommit h.snapshotDelta (panel.pushTraffic net h.snapshotDelta) = some commit →
      lookup₂ commit tag user = none) : (flush panel net h).storage tag user = h.storage tag user := by
  unfold flush
  rcases hp : toPush h with _ | delta
  · rfl
  · obtain ⟨rfl, -⟩ := toPush_eq_some hp
    simp only
    rcases hc : toCommit h.snapshotDelta (panel.pushTraffic net h.snapshotDelta) with _ | commit
    · rfl
    · exact storage_commitSnapshot_of_none (hnone commit hc)

/-- A push without errors commits every numeric user of every inbound, and with it the amount is gone. -/
theorem storage_flush_of_no_errs {tag user : String} {d : ℤ × ℤ}
    (hd : lookup₂ h.snapshotDelta tag user = some d) (hnum : isNumericUser user = true)
    (herrs : (panel.pushTraffic net h.snapshotDelta).errs = []) :
    (flush panel net h).storage tag user ≠ h.storage tag user := by
  have hpush : toPush h = some h.snapshotDelta := by
    rcases hp : toPush h with _ | delta
    · rw [toPush_eq_none hp hd] at hnum
      cases hnum
    · rw [(toPush_eq_some hp).1]
  have hcommit : toCommit h.snapshotDelta (panel.pushTraffic net h.snapshotDelta) =
      some (commitDelta h.snapshotDelta none) := by
    unfold toCommit
    rw [if_neg (not_not.2 herrs)]
  obtain ⟨p, hp, hdp, hpos⟩ := ptr_of_lookup₂_snapshotDelta hd
  have hdelta : lookup₂ (commitDelta h.snapshotDelta none) tag user = some d := by
    rw [lookup₂_commitDelta, if_pos ⟨by simp, hnum⟩, hd]
  intro heq
  unfold flush at heq
  simp only [hpush, hcommit] at heq
  have hptr : (h.ptr tag user).isSome := by rw [hp]; rfl
  have hadd := committed_commitSnapshot hptr (commitDelta h.snapshotDelta none)
  rw [heq, hdelta, Option.getD_some, left_eq_add] at hadd
  rw [hadd] at hpos
  simp at hpos

/-- **When a flush commits only what some client took**: exactly when some client fails, or every inbound with a
numeric user in the snapshot is accepted by some client of the panel. -/
theorem untaken_iff :
    TakenOnly panel net h ↔
      (∃ c ∈ panel.clients.zipIdx, ¬ net.Ok h.snapshotDelta c.1 c.2) ∨
      ∀ tag user d, lookup₂ h.snapshotDelta tag user = some d → isNumericUser user = true →
        ∃ c ∈ panel.clients, c.matchesInbound tag = true := by
  constructor
  · intro htaken
    by_contra hno
    push Not at hno
    obtain ⟨hok, tag, user, d, hd, hnum, hnone⟩ := hno
    have hnot : ¬ Took panel net h.snapshotDelta tag := by
      rintro ⟨c, hc, hm, -⟩
      exact hnone c.1 (List.fst_mem_of_mem_zipIdx hc) hm
    exact storage_flush_of_no_errs panel net h hd hnum ((pushTraffic_errs net h.snapshotDelta panel).2 hok)
      (htaken tag hnot user).1
  · intro hcond tag hnot user
    have hstorage : (flush panel net h).storage tag user = h.storage tag user := by
      refine storage_flush_of_none panel net h fun commit hcommit => ?_
      unfold toCommit at hcommit
      by_cases herrs : (panel.pushTraffic net h.snapshotDelta).errs = []
      · -- every client succeeded, so a numeric user of this tag would have been taken
        rw [if_neg (not_not.2 herrs)] at hcommit
        cases hcommit
        have hok := (pushTraffic_errs net h.snapshotDelta panel).1 herrs
        rw [lookup₂_commitDelta]
        split
        · rename_i hnum
          by_contra hsome
          obtain ⟨d, hd⟩ := Option.ne_none_iff_exists'.1 hsome
          rcases hcond with ⟨c, hc, hfail⟩ | hcond
          · exact hfail (hok c hc)
          · obtain ⟨c, hc, hm⟩ := hcond tag user d hd hnum.2
            obtain ⟨i, hi, rfl⟩ := List.mem_iff_getElem.1 hc
            have hmem : (panel.clients[i], i) ∈ panel.clients.zipIdx := List.mk_mem_zipIdx_iff_getElem?.2
              (List.getElem?_eq_getElem hi)
            exact hnot ⟨_, hmem, hm, hok _ hmem⟩
        · rfl
      · rw [if_pos herrs] at hcommit
        split at hcommit
        · cases hcommit
        · cases hcommit
          rw [lookup₂_commitDelta, if_neg]
          rintro ⟨hacked, -⟩
          have hmem : tag ∈ (panel.pushTraffic net h.snapshotDelta).acked := by
            rw [← AList.lookup_isSome]
            have := hacked _ rfl
            cases hl : (panel.pushTraffic net h.snapshotDelta).acked.lookup tag with
            | none => rw [hl] at this; cases this
            | some b => rfl
          exact hnot (pushTraffic_acked net h.snapshotDelta panel hmem)
    exact ⟨hstorage, lookup₂_snapshotDelta_congr (by rw [ptr_flush]) hstorage⟩

end Untaken

/-- **An inbound of nobody is committed all the same.** One VLESS client, and a user who is busy on the Hysteria2
inbound: the push has nothing to send and succeeds, and the ten bytes count as billed. -/
theorem untaken_committed : ¬ ∀ (panel : Panel) (net : Net) (h : Hook), TakenOnly panel net h := by
  intro hall
  let c := Client.new "http://panel" "token" "1" "vless"
  let net : Net := ⟨fun _ => true, fun _ => RangeOrder.stored _, fun _ => .answered 200 ()⟩
  let h := (Hook.new.getCounter "hy2-in" "7").1.update 0 (·.count (10, 0))
  have hnot : ¬ Took (.client c) net h.snapshotDelta "hy2-in" := by
    rintro ⟨x, hx, hm, -⟩
    obtain rfl : x = (c, 0) := List.mem_singleton.1 hx
    exact absurd hm (by decide +kernel)
  have hkept := (hall (.client c) net h "hy2-in" hnot "7").1
  have hcommitted : ((flush (.client c) net h).storage "hy2-in" "7").committedUp = 10 := by decide +kernel
  have hbefore : (h.storage "hy2-in" "7").committedUp = 0 := by decide +kernel
  rw [hkept, hbefore] at hcommitted
  exact absurd hcommitted (by decide)

end MiniSbAgent.Panelapi
