import MiniSbAgent.Panelserver.Requests

/-!
# What the answers say about secrets

Take any run of the panel, and put other secrets in the place of those that occur in it: in the bodies that register
agents, in the tokens of the requests, in the token of the admin.  As long as different secrets stay different, every
answer is the same, byte for byte.  So no answer tells anything about a secret but which requests show the same one.

* `RequestRel`, `EventRel` — a request and a run with other secrets;
* `exec_rel` — a call of the store cannot tell the difference;
* `handle_rel` — neither can a handler;
* `answers_renamed` — so no client can.
-/

namespace MiniSbAgent.Panelserver

open MiniSbAgent.Go MiniSbAgent.Panelapi MiniSbAgent.Lib

/-- The agent with another secret. -/
def renameAgent (f : String → String) (a : Agent) : Agent := { a with secret := f a.secret }

def renameEntry (f : String → String) (e : (_ : String) × Agent) : (_ : String) × Agent := ⟨e.1, renameAgent f e.2⟩

/-- Different secrets stay different, and a missing one stays missing. -/
structure Renaming (f : String → String) : Prop where
  injective : Function.Injective f
  empty : f "" = ""

/-! ### What is related -/

structure StoreRel (f : String → String) (s s' : Store) : Prop where
  agents : s'.agents.entries = s.agents.entries.map (renameEntry f)
  topologies : s'.topologies = s.topologies
  usage : s'.usage = s.usage
  batches : s'.batches = s.batches

/-- The clocks and the random revisions are the same, and the agents are met in the same order. -/
structure EnvRel (f : String → String) (e e' : Env) : Prop where
  order : ∀ l, e'.order.visit (l.map (renameEntry f)) = (e.order.visit l).map (renameEntry f)
  now : e'.now = e.now
  revision : e'.revision = e.revision

/-- A token is the new secret where it was the old one; bytes that are no text are nobody's secret in either. -/
def TokenRel (f : String → String) (t t' : Bytes) : Prop := ∀ secret, t' = bytes (f secret) ↔ t = bytes secret

inductive CallRel (f : String → String) : StoreCall → StoreCall → Prop
  | agentBySecret {t t' : Bytes} (h : TokenRel f t t') : CallRel f (.agentBySecret t) (.agentBySecret t')
  | topology (agentID : String) : CallRel f (.topology agentID) (.topology agentID)
  | agents : CallRel f .agents .agents
  | putAgent (a : Agent) : CallRel f (.putAgent a) (.putAgent (renameAgent f a))
  | putTopology (agentID : String) (t : Topology) : CallRel f (.putTopology agentID t) (.putTopology agentID t)
  | applyTraffic (agentID : String) (p : TrafficPushRequest) :
      CallRel f (.applyTraffic agentID p) (.applyTraffic agentID p)

/-- Results are the same, but for the secret of an agent that was found. -/
inductive ResultRel (f : String → String) : (c c' : StoreCall) → c.Result → c'.Result → Prop
  | agentBySecret {t t' : Bytes} {a a' : Option Agent} (h : a' = a.map (renameAgent f)) :
      ResultRel f (.agentBySecret t) (.agentBySecret t') a a'
  | topology {agentID : String} {r r' : Option TopologyRecord} (h : r' = r) :
      ResultRel f (.topology agentID) (.topology agentID) r r'
  | agents {l l' : List Agent} (h : l' = l) : ResultRel f .agents .agents l l'
  | putAgent {a a' : Agent} {r r' : Except StoreError Unit} (h : r' = r) : ResultRel f (.putAgent a) (.putAgent a') r r'
  | putTopology {agentID : String} {t : Topology} {r r' : Except StoreError Unit} (h : r' = r) :
      ResultRel f (.putTopology agentID t) (.putTopology agentID t) r r'
  | applyTraffic {agentID : String} {p : TrafficPushRequest} {r r' : Except StoreError Bool} (h : r' = r) :
      ResultRel f (.applyTraffic agentID p) (.applyTraffic agentID p) r r'

/-- The panel with another token for the admin. -/
def Server.rename (f : String → String) (srv : Server) : Server := { srv with adminToken := f srv.adminToken }

/-- A request with other secrets: another token, and another secret where one is registered. -/
structure RequestRel (f : String → String) (srv : Server) (r r' : Incoming) : Prop where
  method : r'.method = r.method
  path : r'.path = r.path
  token : TokenRel f r.token r'.token
  ifNoneMatch : NetHTTP.get r'.header "If-None-Match" = NetHTTP.get r.header "If-None-Match"
  idempotencyKey : NetHTTP.get r'.header "Idempotency-Key" = NetHTTP.get r.header "Idempotency-Key"
  agent : decodeAgent srv r'.body = (decodeAgent srv r.body).map (renameAgent f)
  topology : decodeTopologyBody r'.body = decodeTopologyBody r.body
  traffic : decodeBody r'.body = decodeBody r.body

inductive EventRel (f : String → String) (srv : Server) : Event → Event → Prop
  | request {r r' : Incoming} : RequestRel f srv r r' → EventRel f srv (.request r) (.request r')
  | step (i : ℕ) {e e' : Env} : EnvRel f e e' → EventRel f srv (.step i e) (.step i e')

/-! ### Calls -/

section Calls

variable {f : String → String}

theorem kerase_rename (id : String) (l : List ((_ : String) × Agent)) :
    (l.map (renameEntry f)).kerase id = (l.kerase id).map (renameEntry f) := by
  induction l with
  | nil => rfl
  | cons e l ih =>
    rw [List.map_cons]
    by_cases he : id = e.1
    · rw [List.kerase_cons_eq he, List.kerase_cons_eq (s := renameEntry f e) he]
    · rw [List.kerase_cons_ne he, List.kerase_cons_ne (s := renameEntry f e) he, ih, List.map_cons]

/-- An agent is put under its id in both. -/
theorem insert_rename {agents agents' : GoMap String Agent} (h : agents'.entries = agents.entries.map (renameEntry f))
    (id : String) (a : Agent) :
    (agents'.insert id (renameAgent f a)).entries = (agents.insert id a).entries.map (renameEntry f) := by
  rw [AList.entries_insert, AList.entries_insert, h, kerase_rename]
  rfl

theorem lookup_rename {agents agents' : GoMap String Agent} (h : agents'.entries = agents.entries.map (renameEntry f))
    (id : String) : agents'.lookup id = (agents.lookup id).map (renameAgent f) := by
  have hdlookup : ∀ l : List ((_ : String) × Agent),
      (l.map (renameEntry f)).dlookup id = (l.dlookup id).map (renameAgent f) := by
    intro l
    induction l with
    | nil => rfl
    | cons e l ih =>
      obtain ⟨k, a⟩ := e
      by_cases hk : id = k
      · subst hk
        rw [List.map_cons, renameEntry, List.dlookup_cons_eq, List.dlookup_cons_eq]
        rfl
      · rw [List.map_cons, renameEntry, List.dlookup_cons_ne _ ⟨k, _⟩ hk, List.dlookup_cons_ne _ ⟨k, _⟩ hk]
        exact ih
  show agents'.entries.dlookup id = _
  rw [h]
  exact hdlookup agents.entries

theorem find_rename {t t' : Bytes} (h : TokenRel f t t') (l : List ((_ : String) × Agent)) :
    (l.map (renameEntry f)).find? (fun e => bytes e.2.secret == t') =
      (l.find? fun e => bytes e.2.secret == t).map (renameEntry f) := by
  rw [List.find?_map]
  congr 2
  funext e
  show (bytes (f e.2.secret) == t') = (bytes e.2.secret == t)
  rw [Bool.eq_iff_iff, beq_iff_eq, beq_iff_eq, eq_comm, h, eq_comm]

section Stores

variable {s s' : Store} {e e' : Env}

theorem agentBySecret_rename (hs : StoreRel f s s') (he : EnvRel f e e') {t t' : Bytes} (h : TokenRel f t t') :
    s'.agentBySecret e'.order t' = (s.agentBySecret e.order t).map (renameAgent f) := by
  unfold Store.agentBySecret
  rw [hs.agents, he.order, find_rename h, Option.map_map, Option.map_map]
  rfl

theorem agentList_rename (hs : StoreRel f s s') (he : EnvRel f e e') :
    s'.agentList e'.order = s.agentList e.order := by
  unfold Store.agentList
  rw [hs.agents, he.order, List.map_map]
  rfl

theorem putAgent_rename (hf : Renaming f) (hs : StoreRel f s s') (now : ℤ) (a : Agent) :
    StoreRel f (s.putAgent now a).1 (s'.putAgent now (renameAgent f a)).1 ∧
      (s'.putAgent now (renameAgent f a)).2 = (s.putAgent now a).2 := by
  have hempty : f a.secret = "" ↔ a.secret = "" := by
    rw [← hf.injective.eq_iff (a := a.secret), hf.empty]
  unfold Store.putAgent
  by_cases hbad : a.id = "" ∨ a.secret = ""
  · have hbad' : (renameAgent f a).id = "" ∨ (renameAgent f a).secret = "" := hbad.imp_right hempty.2
    rw [if_pos hbad, if_pos hbad']
    exact ⟨hs, rfl⟩
  · have hbad' : ¬ ((renameAgent f a).id = "" ∨ (renameAgent f a).secret = "") := fun h => hbad (h.imp_right hempty.1)
    rw [if_neg hbad, if_neg hbad']
    refine ⟨⟨?_, hs.topologies, hs.usage, hs.batches⟩, rfl⟩
    by_cases hnew : a.createdAt = none
    · have hnew' : (renameAgent f a).createdAt = none := hnew
      simp only [hnew, hnew', if_true]
      exact insert_rename hs.agents a.id { a with createdAt := some now }
    · have hnew' : (renameAgent f a).createdAt ≠ none := hnew
      simp only [hnew, hnew', if_false]
      exact insert_rename hs.agents a.id a

theorem putTopology_rename (hs : StoreRel f s s') (now : ℤ) (revision etag agentID : String) (t : Topology) :
    StoreRel f (s.putTopology now revision etag agentID t).1 (s'.putTopology now revision etag agentID t).1 ∧
      (s'.putTopology now revision etag agentID t).2 = (s.putTopology now revision etag agentID t).2 := by
  have hmem : agentID ∈ s'.agents ↔ agentID ∈ s.agents := by
    rw [← AList.lookup_isSome, ← AList.lookup_isSome, lookup_rename hs.agents, Option.isSome_map]
  unfold Store.putTopology
  split
  · exact ⟨hs, rfl⟩
  · by_cases hin : agentID ∈ s.agents
    · rw [if_neg (by simpa using hin), if_neg (by simpa [hmem] using hin), hs.topologies]
      exact ⟨⟨hs.agents, rfl, hs.usage, hs.batches⟩, rfl⟩
    · rw [if_pos hin, if_pos (by rwa [hmem])]
      exact ⟨hs, rfl⟩

theorem applyTraffic_rename (hs : StoreRel f s s') (now : ℤ) (agentID : String) (p : TrafficPushRequest) :
    StoreRel f (s.applyTraffic now agentID p).1 (s'.applyTraffic now agentID p).1 ∧
      (s'.applyTraffic now agentID p).2 = (s.applyTraffic now agentID p).2 := by
  unfold Store.applyTraffic
  by_cases hid : p.batchID = ""
  · rw [if_pos hid, if_pos hid]
    exact ⟨hs, rfl⟩
  rw [if_neg hid, if_neg hid, lookup_rename hs.agents, hs.batches, hs.topologies]
  rcases s.agents.lookup agentID with _ | a
  · exact ⟨hs, rfl⟩
  simp only [Option.map_some]
  split_ifs
  · exact ⟨hs, rfl⟩
  rcases s.topologies.lookup agentID with _ | record
  · exact ⟨hs, rfl⟩
  simp only
  rcases Store.checkItems agentID (record.topology.nodes.map NodeSpec.key) p.items with err | ok
  · exact ⟨hs, rfl⟩
  · simp only [hs.usage]
    exact ⟨⟨insert_rename hs.agents agentID { a with seenAt := some now }, rfl, rfl, rfl⟩, trivial⟩

end Stores

/-- **The store cannot tell.** -/
theorem exec_rel (hf : Renaming f) (srv : Server) (e e' : Env) (s s' : Store) (c c' : StoreCall) (he : EnvRel f e e')
    (hs : StoreRel f s s') (hc : CallRel f c c') :
    StoreRel f (s.exec srv e c).1 (s'.exec (srv.rename f) e' c').1 ∧
      ResultRel f c c' (s.exec srv e c).2 (s'.exec (srv.rename f) e' c').2 := by
  obtain ⟨order', now', revision'⟩ := e'
  obtain rfl : now' = e.now := he.now
  obtain rfl : revision' = e.revision := he.revision
  cases hc with
  | agentBySecret h => exact ⟨hs, .agentBySecret (agentBySecret_rename hs he h)⟩
  | topology agentID => exact ⟨hs, .topology (congrArg (AList.lookup agentID) hs.topologies)⟩
  | agents => exact ⟨hs, .agents (agentList_rename hs he)⟩
  | putAgent a =>
    obtain ⟨h1, h2⟩ := putAgent_rename hf hs e.now a
    exact ⟨h1, .putAgent h2⟩
  | putTopology agentID t =>
    obtain ⟨h1, h2⟩ := putTopology_rename hs e.now e.revision (srv.etag e.revision) agentID t
    exact ⟨h1, .putTopology h2⟩
  | applyTraffic agentID p =>
    obtain ⟨h1, h2⟩ := applyTraffic_rename hs e.now agentID p
    exact ⟨h1, .applyTraffic h2⟩

end Calls

/-! ### Handlers -/

section Handlers

variable {f : String → String} {srv : Server} {r r' : Incoming}

theorem withAgent_rel (h : RequestRel f srv r r') {rest rest' : Agent → Handler}
    (hrest : ∀ a, (rest a).Rel (CallRel f) (ResultRel f) (rest' (renameAgent f a))) :
    (withAgent r rest).Rel (CallRel f) (ResultRel f) (withAgent r' rest') := by
  refine .call (.agentBySecret h.token) fun a a' hres => ?_
  cases hres with
  | agentBySecret ha =>
    subst ha
    cases a with
    | none => exact .done _
    | some a => exact hrest a

theorem withAdmin_rel (hf : Renaming f) (h : RequestRel f srv r r') {rest rest' : Handler}
    (hrest : rest.Rel (CallRel f) (ResultRel f) rest') :
    (withAdmin srv r rest).Rel (CallRel f) (ResultRel f) (withAdmin (srv.rename f) r' rest') := by
  have hequal : equal r'.token (bytes (f srv.adminToken)) = equal r.token (bytes srv.adminToken) := by
    have hempty := h.token ""
    rw [hf.empty] at hempty
    have hequal := h.token srv.adminToken
    rw [Bool.eq_iff_iff]
    simp only [equal, Bool.and_eq_true, bne_iff_ne, beq_iff_eq, hequal]
    refine and_congr_left fun ht => ?_
    rw [← hequal.2 ht, ← ht]
    exact and_congr (not_congr hempty) (not_congr hempty)
  unfold withAdmin Server.rename
  rw [hequal]
  split_ifs
  · exact hrest
  · exact .done _

theorem handleAgentTopology_rel (h : RequestRel f srv r r') :
    (handleAgentTopology r).Rel (CallRel f) (ResultRel f) (handleAgentTopology r') := by
  refine withAgent_rel h fun a => .call (.topology a.id) fun x x' hres => ?_
  cases hres with
  | topology hx =>
    subst hx
    cases x' with
    | none => exact .done _
    | some record =>
      simp only [h.ifNoneMatch]
      split_ifs
      · exact .done _
      · exact .done _

theorem handleAgentTraffic_rel (h : RequestRel f srv r r') :
    (handleAgentTraffic srv r).Rel (CallRel f) (ResultRel f) (handleAgentTraffic (srv.rename f) r') := by
  refine withAgent_rel h fun a => ?_
  rw [h.traffic, h.idempotencyKey]
  cases decodeBody r.body with
  | none => exact .done _
  | some payload =>
    simp only
    split_ifs
    · exact .done _
    · refine .call (.applyTraffic a.id payload) fun x x' hres => ?_
      cases hres with
      | applyTraffic hx =>
        subst hx
        cases x' <;> exact .done _

theorem handleAdminAgents_rel (hf : Renaming f) (h : RequestRel f srv r r') :
    (handleAdminAgents srv r).Rel (CallRel f) (ResultRel f) (handleAdminAgents (srv.rename f) r') := by
  refine withAdmin_rel hf h (.call .agents fun x x' hres => ?_)
  cases hres with
  | agents hx =>
    subst hx
    exact .done _

theorem handleAdminPutAgent_rel (hf : Renaming f) (h : RequestRel f srv r r') :
    (handleAdminPutAgent srv r).Rel (CallRel f) (ResultRel f) (handleAdminPutAgent (srv.rename f) r') := by
  refine withAdmin_rel hf h ?_
  have hbody : decodeAgent (srv.rename f) r'.body = decodeAgent srv r'.body := rfl
  rw [hbody, h.agent]
  cases decodeAgent srv r.body with
  | none => exact .done _
  | some a =>
    refine .call (.putAgent a) fun x x' hres => ?_
    cases hres with
    | putAgent hx =>
      subst hx
      cases x' <;> exact .done _

theorem handleAdminPutTopology_rel (hf : Renaming f) (h : RequestRel f srv r r') (id : String) :
    (handleAdminPutTopology srv r id).Rel (CallRel f) (ResultRel f)
      (handleAdminPutTopology (srv.rename f) r' id) := by
  refine withAdmin_rel hf h ?_
  rw [h.topology]
  cases decodeTopologyBody r.body with
  | none => exact .done _
  | some t =>
    refine .call (.putTopology id t) fun x x' hres => ?_
    cases hres with
    | putTopology hx =>
      subst hx
      cases x' with
      | error err => exact .done _
      | ok u =>
        refine .call (.topology id) fun y y' hres => ?_
        cases hres with
        | topology hy =>
          subst hy
          exact .done _

/-- **A handler cannot tell.** -/
theorem handle_rel (hf : Renaming f) (h : RequestRel f srv r r') :
    (handle srv r).Rel (CallRel f) (ResultRel f) (handle (srv.rename f) r') := by
  unfold handle
  rw [h.method, h.path]
  rcases route r.method r.path with _ | route
  · exact .done _
  cases route with
  | dashboard => exact .done _
  | healthz => exact .done _
  | agentTopology => exact handleAgentTopology_rel h
  | agentTraffic => exact handleAgentTraffic_rel h
  | adminAgents => exact handleAdminAgents_rel hf h
  | adminPutAgent => exact handleAdminPutAgent_rel hf h
  | adminPutTopology id => exact handleAdminPutTopology_rel hf h id

end Handlers

theorem turn_rel {f : String → String} (hf : Renaming f) {srv : Server} {x x' : Event} (h : EventRel f srv x x') :
    (x.turn srv).Rel (EnvRel f) (CallRel f) (ResultRel f) (x'.turn (srv.rename f)) := by
  cases h with
  | request h => exact .arrive (handle_rel hf h)
  | step i he => exact .step i he

/-- **No answer tells a secret.** Let other secrets stand in the place of those of a run, different ones for different
ones: the answers, of all requests that have been answered, are the same. -/
theorem answers_renamed {f : String → String} (hf : Renaming f) (srv : Server) {events events' : List Event}
    (h : List.Forall₂ (EventRel f srv) events events') :
    (serve (srv.rename f) events').progs.map Prog.answer = (serve srv events).progs.map Prog.answer := by
  have hturns : List.Forall₂ (Turn.Rel (EnvRel f) (CallRel f) (ResultRel f)) (events.map (Event.turn srv))
      (events'.map (Event.turn (srv.rename f))) := by
    rw [List.forall₂_map_left_iff, List.forall₂_map_right_iff]
    exact h.imp fun x x' hx => turn_rel hf hx
  exact (answers_eq (S := StoreRel f) ⟨rfl, rfl, rfl, rfl⟩ (exec_rel hf srv) hturns).symm

theorem tokenRel_bytes {f : String → String} (hf : Renaming f) {t t' : Bytes} {secret : String} (h : t = bytes secret)
    (h' : t' = bytes (f secret)) : TokenRel f t t' := by
  intro x
  rw [h, h']
  exact ⟨fun heq => congrArg bytes (hf.injective (bytes_injective heq)), fun heq => by rw [bytes_injective heq]⟩

theorem renaming_swap : Renaming (Equiv.swap "s3cret" "zecret") := ⟨Equiv.injective _, by decide +kernel⟩

theorem answers_renamed_tiny :
    List.Forall₂ (EventRel (Equiv.swap "s3cret" "zecret") tinyServer) (tinyEvents "s3cret") (tinyEvents "zecret") ∧
      ((serve tinyServer (tinyEvents "s3cret")).progs.map fun p => p.answer.map Answer.status) = [some 201, some 404] ∧
      (serve (tinyServer.rename (Equiv.swap "s3cret" "zecret")) (tinyEvents "zecret")).progs.map Prog.answer =
        (serve tinyServer (tinyEvents "s3cret")).progs.map Prog.answer := by
  have henv : EnvRel (Equiv.swap "s3cret" "zecret") tinyEnv tinyEnv := ⟨fun _ => rfl, rfl, rfl⟩
  have h : List.Forall₂ (EventRel (Equiv.swap "s3cret" "zecret") tinyServer) (tinyEvents "s3cret")
      (tinyEvents "zecret") := by
    refine .cons (.request ?_) (.cons (.step 0 henv) (.cons (.request ?_) (.cons (.step 1 henv)
      (.cons (.step 1 henv) .nil))))
    · have htoken := tokenRel_bytes renaming_swap
        (show (registerRequest "s3cret").token = bytes "admin" by decide +kernel)
        (show (registerRequest "zecret").token = _ by decide +kernel)
      exact ⟨rfl, rfl, htoken, by decide +kernel, by decide +kernel, by decide +kernel, by decide +kernel,
        by decide +kernel⟩
    · have htoken := tokenRel_bytes renaming_swap
        (show (topologyRequest "s3cret").token = bytes "s3cret" by decide +kernel)
        (show (topologyRequest "zecret").token = _ by decide +kernel)
      exact ⟨rfl, rfl, htoken, rfl, rfl, by decide +kernel, by decide +kernel, by decide +kernel⟩
  exact ⟨h, by decide +kernel, answers_renamed renaming_swap tinyServer h⟩

end MiniSbAgent.Panelserver
