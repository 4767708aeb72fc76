import MiniSbAgent.Panelserver.Handlers

/-!
# Requests that run at the same time

Whatever the order in which the goroutines of the requests get at the store, what they do to it is a history of
operations, each of them asked for by one request that was allowed to.

* `Spec` of `handle` — `handle_spec`: the calls a request makes, given those it made before, and what its answer says
  about them;
* `requests_serialize` — the store of any run is the one of a history, and every call of it is authorised;
* `answers_tell_effects` — an answer tells whether the request has changed the store, and it does so once;
* `agentTraffic_alone` — without others in between, the handler of traffic is `agentTraffic`.
-/

namespace MiniSbAgent.Panelserver

open MiniSbAgent.Go MiniSbAgent.Panelapi MiniSbAgent.Lib

/-! ### Calls of one request -/

/-- A call that may change the store. -/
def StoreCall.writes : StoreCall → Bool
  | .putAgent _ => true
  | .putTopology _ _ => true
  | .applyTraffic _ _ => true
  | _ => false

/-- The result of a call that has done something: a batch that is known already is no error, and is not applied. -/
def StoreCall.succeeded : (c : StoreCall) → c.Result → Bool
  | .putAgent _, .ok _ => true
  | .putTopology _ _, .ok _ => true
  | .applyTraffic _ _, .ok applied => applied
  | _, _ => false

def effective (x : LogEntry) : Bool := x.call.succeeded x.result

def IsAdmin (srv : Server) (r : Incoming) : Prop := r.token = bytes srv.adminToken ∧ srv.adminToken ≠ ""

/-- The request has been taken for one of the agent. -/
def Identified (r : Incoming) (past : List LogEntry) (agentID : String) : Prop :=
  ∃ i e a, (⟨i, e, .agentBySecret r.token, some a⟩ : LogEntry) ∈ past ∧ a.id = agentID

/-- What a request must be like to make a call. -/
def Asks (srv : Server) (r : Incoming) (past : List LogEntry) : StoreCall → Prop
  | .agentBySecret secret => secret = r.token
  | .topology agentID =>
    Identified r past agentID ∨ IsAdmin srv r ∧ route r.method r.path = some (.adminPutTopology agentID)
  | .agents => IsAdmin srv r ∧ route r.method r.path = some .adminAgents
  | .putAgent agent =>
    IsAdmin srv r ∧ route r.method r.path = some .adminPutAgent ∧ decodeAgent srv r.body = some agent
  | .putTopology agentID topology =>
    IsAdmin srv r ∧ route r.method r.path = some (.adminPutTopology agentID) ∧
      decodeTopologyBody r.body = some topology
  | .applyTraffic agentID payload =>
    Identified r past agentID ∧ route r.method r.path = some .agentTraffic ∧ decodeBody r.body = some payload

/-- The answer says that the store was changed: the flag of a batch, the status of what the admin asks for. -/
def Incoming.toldDone (r : Incoming) (a : Answer) : Bool :=
  match route r.method r.path with
  | some .agentTraffic => a.status == 202 && a.body == bytes "\x7b\"applied\":true\x7d\n"
  | some .adminPutAgent => a.status == 201
  | some (.adminPutTopology _) => a.status == 200
  | _ => false

/-- A call is asked for, and none before it has changed the store if it may. -/
def CallOk (srv : Server) (r : Incoming) (past : List LogEntry) (c : StoreCall) : Prop :=
  Asks srv r past c ∧ (c.writes = true → ∀ y ∈ past, y.call.writes = false)

/-- As many calls of the request have changed the store as its answer says. -/
def AnswerOk (r : Incoming) (past : List LogEntry) (a : Answer) : Prop :=
  (past.filter effective).length = if r.toldDone a = true then 1 else 0

theorem isAdmin_of_equal {srv : Server} {r : Incoming} (h : equal r.token (bytes srv.adminToken) = true) :
    IsAdmin srv r := by
  unfold equal at h
  simp only [Bool.and_eq_true, bne_iff_ne, beq_iff_eq] at h
  exact ⟨h.2, fun hempty => h.1.2 (by rw [hempty]; rfl)⟩

section Handlers

variable {srv : Server} {r : Incoming}

theorem toldDone_of_error {a : Answer} (h : 400 ≤ a.status) : r.toldDone a = false := by
  unfold Incoming.toldDone
  split
  · simp only [Bool.and_eq_false_iff, beq_eq_false_iff_ne]
    exact .inl (by omega)
  · exact beq_eq_false_iff_ne.2 (by omega)
  · exact beq_eq_false_iff_ne.2 (by omega)
  · rfl

theorem answerOk_zero {past : List LogEntry} {a : Answer} (h : past.filter effective = [])
    (htold : r.toldDone a = false) : AnswerOk r past a := by
  unfold AnswerOk
  rw [h, htold]
  rfl

theorem answerOk_one {past : List LogEntry} {a : Answer} (h : (past.filter effective).length = 1)
    (htold : r.toldDone a = true) : AnswerOk r past a := by
  unfold AnswerOk
  rw [h, if_pos htold]

/-- A refusal after calls that have changed nothing. -/
theorem answerOk_error {past : List LogEntry} (h : past.filter effective = []) {status : ℕ} (hstatus : 400 ≤ status)
    (message : String) : AnswerOk r past (writeError status message) :=
  answerOk_zero h (toldDone_of_error hstatus)

theorem withAgent_spec {rest : Agent → Handler}
    (hrest : ∀ i e a, (rest a).Spec (CallOk srv r) (AnswerOk r) [⟨i, e, .agentBySecret r.token, some a⟩]) :
    (withAgent r rest).Spec (CallOk srv r) (AnswerOk r) [] := by
  refine ⟨⟨rfl, by simp [StoreCall.writes]⟩, fun i e a => ?_⟩
  cases a with
  | none => exact answerOk_error rfl (by omega) _
  | some a => exact hrest i e a

theorem withAdmin_spec {rest : Handler} (hrest : IsAdmin srv r → rest.Spec (CallOk srv r) (AnswerOk r) []) :
    (withAdmin srv r rest).Spec (CallOk srv r) (AnswerOk r) [] := by
  unfold withAdmin
  split_ifs with h
  · exact hrest (isAdmin_of_equal h)
  · exact answerOk_error rfl (by omega) _

/-- The agent that a request was taken for. -/
theorem identified_singleton (i : ℕ) (e : Env) (a : Agent) :
    Identified r [⟨i, e, .agentBySecret r.token, some a⟩] a.id := ⟨i, e, a, List.mem_singleton_self _, rfl⟩

theorem handleAgentTopology_spec (hroute : route r.method r.path = some .agentTopology) :
    (handleAgentTopology r).Spec (CallOk srv r) (AnswerOk r) [] := by
  have hread : ∀ a, r.toldDone a = false := fun a => by simp [Incoming.toldDone, hroute]
  refine withAgent_spec fun i e a => ⟨⟨.inl (identified_singleton i e a), by simp [StoreCall.writes]⟩, fun j e' x => ?_⟩
  cases x with
  | none => exact answerOk_zero rfl (hread _)
  | some record =>
    simp only
    split_ifs
    · exact answerOk_zero rfl (hread _)
    · exact answerOk_zero rfl (hread _)

theorem handleAgentTraffic_spec (hroute : route r.method r.path = some .agentTraffic) :
    (handleAgentTraffic srv r).Spec (CallOk srv r) (AnswerOk r) [] := by
  refine withAgent_spec fun i e a => ?_
  rcases hbody : decodeBody r.body with _ | payload
  · exact answerOk_error rfl (by omega) _
  simp only
  split_ifs with hkey
  · exact answerOk_error rfl (by omega) _
  refine ⟨⟨⟨identified_singleton i e a, hroute, hbody⟩, fun _ y hy => ?_⟩, fun j e' x => ?_⟩
  · rw [List.mem_singleton.1 hy]
    rfl
  · cases x with
    | error err => exact answerOk_error rfl (by omega) _
    | ok applied =>
      -- a batch that was known has changed nothing, and the body says so
      cases applied with
      | false => exact answerOk_zero rfl (by rw [Incoming.toldDone, hroute]; decide)
      | true => exact answerOk_one rfl (by rw [Incoming.toldDone, hroute]; decide)

theorem handleAdminAgents_spec (hroute : route r.method r.path = some .adminAgents) :
    (handleAdminAgents srv r).Spec (CallOk srv r) (AnswerOk r) [] := by
  have hread : ∀ a, r.toldDone a = false := fun a => by simp [Incoming.toldDone, hroute]
  refine withAdmin_spec fun hadmin => ⟨⟨⟨hadmin, hroute⟩, by simp [StoreCall.writes]⟩, fun i e x => ?_⟩
  exact answerOk_zero rfl (hread _)

theorem handleAdminPutAgent_spec (hroute : route r.method r.path = some .adminPutAgent) :
    (handleAdminPutAgent srv r).Spec (CallOk srv r) (AnswerOk r) [] := by
  refine withAdmin_spec fun hadmin => ?_
  rcases hbody : decodeAgent srv r.body with _ | a
  · exact answerOk_error rfl (by omega) _
  refine ⟨⟨⟨hadmin, hroute, hbody⟩, by simp⟩, fun i e x => ?_⟩
  cases x with
  | error err => exact answerOk_error rfl (by omega) _
  | ok u => exact answerOk_one rfl (by rw [Incoming.toldDone, hroute]; rfl)

theorem handleAdminPutTopology_spec {id : String} (hroute : route r.method r.path = some (.adminPutTopology id)) :
    (handleAdminPutTopology srv r id).Spec (CallOk srv r) (AnswerOk r) [] := by
  refine withAdmin_spec fun hadmin => ?_
  rcases hbody : decodeTopologyBody r.body with _ | t
  · exact answerOk_error rfl (by omega) _
  refine ⟨⟨⟨hadmin, hroute, hbody⟩, by simp⟩, fun i e x => ?_⟩
  cases x with
  | error err => exact answerOk_error rfl (by omega) _
  | ok u =>
    refine ⟨⟨.inr ⟨hadmin, hroute⟩, by simp [StoreCall.writes]⟩, fun j e' x => ?_⟩
    exact answerOk_one rfl (by rw [Incoming.toldDone, hroute]; rfl)

/-- **What a request does**, whatever the store tells it. -/
theorem handle_spec (srv : Server) (r : Incoming) : (handle srv r).Spec (CallOk srv r) (AnswerOk r) [] := by
  unfold handle
  split
  · exact answerOk_zero rfl (toldDone_of_error (show 400 ≤ 405 by omega))
  · rename_i hroute
    exact answerOk_zero rfl (by simp [Incoming.toldDone, hroute])
  · rename_i hroute
    exact answerOk_zero rfl (by simp [Incoming.toldDone, hroute])
  · rename_i hroute
    exact handleAgentTopology_spec hroute
  · rename_i hroute
    exact handleAgentTraffic_spec hroute
  · rename_i hroute
    exact handleAdminAgents_spec hroute
  · rename_i hroute
    exact handleAdminPutAgent_spec hroute
  · rename_i hroute
    exact handleAdminPutTopology_spec hroute

end Handlers

/-! ### Calls of a run -/

/-- Before the calls of `past` were over, the request asked who it was, and its token was the agent's secret then. -/
def HadSecret (srv : Server) (r : Incoming) (thread : ℕ) (past : List LogEntry) (agentID : String) : Prop :=
  ∃ before y after a, past = before ++ y :: after ∧ y.thread = thread ∧
    (storeAfter srv before).agents.lookup agentID = some a ∧ bytes a.secret = r.token

/-- What gives a request the right to a call. -/
def Authorised (srv : Server) (r : Incoming) (thread : ℕ) (past : List LogEntry) : StoreCall → Prop
  | .agentBySecret secret => secret = r.token
  | .topology agentID =>
    HadSecret srv r thread past agentID ∨ IsAdmin srv r ∧ route r.method r.path = some (.adminPutTopology agentID)
  | .agents => IsAdmin srv r ∧ route r.method r.path = some .adminAgents
  | .putAgent agent =>
    IsAdmin srv r ∧ route r.method r.path = some .adminPutAgent ∧ decodeAgent srv r.body = some agent
  | .putTopology agentID topology =>
    IsAdmin srv r ∧ route r.method r.path = some (.adminPutTopology agentID) ∧
      decodeTopologyBody r.body = some topology
  | .applyTraffic agentID payload =>
    HadSecret srv r thread past agentID ∧ route r.method r.path = some .agentTraffic ∧
      decodeBody r.body = some payload

section Run

variable {srv : Server} {events : List Event}

theorem logged_serve (srv : Server) (events : List Event) :
    (serve srv events).state = storeAfter srv (serve srv events).log ∧
      Logged (Store.exec srv) Store.new (serve srv events).log :=
  logged_run (Store.exec srv) Store.new _

theorem spec_serve {i : ℕ} {r : Incoming} (hr : (requests events)[i]? = some r) :
    (∀ before x after, (serve srv events).log = before ++ x :: after → x.thread = i →
      CallOk srv r (callsOf i before) x.call) ∧
      ∀ a, (serve srv events).progs[i]? = some (.done a) → AnswerOk r (callsOf i (serve srv events).log) a := by
  refine spec_run (Store.exec srv) Store.new ?_ (handle_spec srv r)
  rw [arrivals_turn, List.getElem?_map, hr]
  rfl

theorem exists_request {x : LogEntry} (hx : x ∈ (serve srv events).log) :
    ∃ r, (requests events)[x.thread]? = some r := by
  have hlt := (explained_run (Store.exec srv) Store.new (events.map (Event.turn srv))).thread x hx
  rw [arrivals_turn, List.length_map] at hlt
  exact ⟨_, List.getElem?_eq_getElem hlt⟩

/-- The agents of a run are under their own ids. -/
theorem agentsOk_storeAfter (srv : Server) (log : List LogEntry) : AgentsOk (storeAfter srv log).agents := by
  rw [storeAfter_eq_run]
  exact agents_run _

/-- Who was identified had the secret then. -/
theorem hadSecret_of_identified {before after : List LogEntry} (hlog : (serve srv events).log = before ++ after)
    {r : Incoming} {i : ℕ} {agentID : String} (h : Identified r (callsOf i before) agentID) :
    HadSecret srv r i before agentID := by
  obtain ⟨j, e, a, hmem, rfl⟩ := h
  obtain ⟨hbefore, hthread⟩ := List.mem_filter.1 hmem
  obtain ⟨b₁, b₂, rfl⟩ := List.append_of_mem hbefore
  rw [List.append_assoc, List.cons_append] at hlog
  have hres := (logged_serve srv events).2 b₁ _ _ hlog
  obtain ⟨id, hid, hsecret⟩ := agentBySecret_eq_some e.order hres.symm
  refine ⟨b₁, _, b₂, a, rfl, by simpa using hthread, ?_, hsecret⟩
  rw [(agentsOk_storeAfter srv b₁ id a hid).1]
  exact hid

/-- Every call of a run is made by a request that has the right to it. -/
theorem authorised_serve {before after : List LogEntry} {x : LogEntry}
    (hlog : (serve srv events).log = before ++ x :: after) {r : Incoming}
    (hr : (requests events)[x.thread]? = some r) : Authorised srv r x.thread before x.call := by
  have hasks := ((spec_serve hr).1 before x after hlog rfl).1
  obtain ⟨i, e, c, res⟩ := x
  cases c with
  | agentBySecret secret => exact hasks
  | topology agentID => exact hasks.imp_left (hadSecret_of_identified hlog)
  | agents => exact hasks
  | putAgent agent => exact hasks
  | putTopology agentID topology => exact hasks
  | applyTraffic agentID payload => exact ⟨hadSecret_of_identified hlog hasks.1, hasks.2⟩

end Run

/-- **Requests that run at the same time.** In every run of the panel, the store is the one of a history of operations,
and every call in it was made by a request that had the right to it: only the admin registers agents and assigns
topologies, what is stored is what the body of the request says, and traffic is booked for, and a topology is shown to,
an agent whose secret the request has shown. -/
theorem requests_serialize (srv : Server) (events : List Event) :
    (serve srv events).state = (run (ops srv (serve srv events).log)).store ∧
      ∀ before x after, (serve srv events).log = before ++ x :: after →
        ∃ r, (requests events)[x.thread]? = some r ∧ Authorised srv r x.thread before x.call ∧
          x.result = ((run (ops srv before)).store.exec srv x.env x.call).2 := by
  obtain ⟨hstate, hlogged⟩ := logged_serve srv events
  refine ⟨by rw [hstate, storeAfter_eq_run], fun before x after hlog => ?_⟩
  have hx : x ∈ (serve srv events).log := by
    rw [hlog]
    exact List.mem_append_right _ List.mem_cons_self
  obtain ⟨r, hr⟩ := exists_request hx
  refine ⟨r, hr, authorised_serve hlog hr, ?_⟩
  rw [hlogged before x after hlog, ← storeAfter_eq_run]
  rfl

/-- A call that was refused, or only reads, leaves the store as it was. -/
theorem storeAfter_of_not_effective {srv : Server} {before : List LogEntry} {x : LogEntry}
    (hres : x.result = ((storeAfter srv before).exec srv x.env x.call).2) (h : effective x = false) :
    storeAfter srv (before ++ [x]) = storeAfter srv before := by
  have hconcat : storeAfter srv (before ++ [x]) = ((storeAfter srv before).exec srv x.env x.call).1 :=
    replay_concat _ _ _ _
  rw [hconcat]
  obtain ⟨i, e, c, res⟩ := x
  cases c with
  | agentBySecret secret => rfl
  | topology agentID => rfl
  | agents => rfl
  | putAgent agent =>
    rcases putAgent_cases (s := storeAfter srv before) e.now agent with ⟨err, heq⟩ | ⟨agent', heq⟩
    · exact congrArg Prod.fst heq
    · obtain rfl : res = .ok () := hres.trans (congrArg Prod.snd heq)
      cases show true = false from h
  | putTopology agentID topology =>
    rcases putTopology_cases (s := storeAfter srv before) e.now e.revision (srv.etag e.revision) agentID topology with
      ⟨err, heq⟩ | ⟨record, heq⟩
    · exact congrArg Prod.fst heq
    · obtain rfl : res = .ok () := hres.trans (congrArg Prod.snd heq)
      cases show true = false from h
  | applyTraffic agentID payload =>
    rcases applyTraffic_cases (s := storeAfter srv before) e.now agentID payload with
      ⟨err, heq, -⟩ | ⟨-, heq⟩ | ⟨agent, -, -, -, heq⟩
    · exact congrArg Prod.fst heq
    · exact congrArg Prod.fst heq
    · obtain rfl : res = .ok true := hres.trans (congrArg Prod.snd heq)
      cases show true = false from h

/-- What a call is there to do. -/
def Changed (srv : Server) (e : Env) (s s' : Store) : StoreCall → Prop
  | .putAgent agent =>
    s' = { s with agents := s.agents.insert agent.id { agent with createdAt := agent.createdAt.or (some e.now) } }
  | .putTopology agentID topology =>
    ∃ record : TopologyRecord, s' = { s with topologies := s.topologies.insert agentID record } ∧
      record.topology = topology ∧ record.revision = e.revision ∧ record.etag = srv.etag e.revision
  | .applyTraffic agentID payload =>
    (⟨agentID, payload.batchID⟩ : BatchKey) ∉ s.batches ∧ (⟨agentID, payload.batchID⟩ : BatchKey) ∈ s'.batches ∧
      s'.usage = Store.bookItems agentID s.usage payload.items ∧ s'.topologies = s.topologies
  | _ => False

theorem changed_of_effective {srv : Server} {before : List LogEntry} {x : LogEntry}
    (hres : x.result = ((storeAfter srv before).exec srv x.env x.call).2) (h : effective x = true) :
    Changed srv x.env (storeAfter srv before) (storeAfter srv (before ++ [x])) x.call := by
  have hconcat : storeAfter srv (before ++ [x]) = ((storeAfter srv before).exec srv x.env x.call).1 :=
    replay_concat _ _ _ _
  rw [hconcat]
  generalize storeAfter srv before = s at hres
  obtain ⟨i, e, c, res⟩ := x
  cases c with
  | agentBySecret secret => cases show false = true from h
  | topology agentID => cases show false = true from h
  | agents => cases show false = true from h
  | putAgent agent =>
    rcases res with err | ⟨⟩
    · cases show false = true from h
    · exact putAgent_ok (Eq.symm hres)
  | putTopology agentID topology =>
    rcases res with err | ⟨⟩
    · cases show false = true from h
    · obtain ⟨hvalid, heq⟩ := putTopology_ok (Eq.symm hres)
      exact ⟨_, heq, rfl, rfl, rfl⟩
  | applyTraffic agentID payload =>
    rcases applyTraffic_cases (s := s) e.now agentID payload with ⟨err, heq, -⟩ | ⟨-, heq⟩ | ⟨agent, -, -, hnew, heq⟩
    · obtain rfl : res = .error err := hres.trans (congrArg Prod.snd heq)
      cases show false = true from h
    · obtain rfl : res = .ok false := hres.trans (congrArg Prod.snd heq)
      cases show false = true from h
    · have hstore : (s.exec srv e (.applyTraffic agentID payload)).1 = _ := congrArg Prod.fst heq
      rw [hstore]
      exact ⟨hnew, AList.mem_insert _ |>.2 (.inl rfl), rfl, rfl⟩

/-- Request `i` makes the call `x` when those of `before` have been made. -/
def Makes (srv : Server) (events : List Event) (i : ℕ) (before : List LogEntry) (x : LogEntry) : Prop :=
  x.thread = i ∧ ∃ after, (serve srv events).log = before ++ x :: after

/-- Two calls of a log are one, or one of them is made before the other. -/
theorem split_cases {α : Type} {l₁ l₂ l₁' l₂' : List α} {x y : α} (h : l₁ ++ x :: l₂ = l₁' ++ y :: l₂') :
    l₁' = l₁ ∨ (∃ m, l₁ = l₁' ++ y :: m) ∨ ∃ m, l₁' = l₁ ++ x :: m ∧ l₂ = m ++ y :: l₂' := by
  rcases List.append_eq_append_iff.1 h with ⟨m, hm, hl⟩ | ⟨m, hm, hl⟩
  · rcases m with _ | ⟨z, m⟩
    · exact .inl (by rw [hm, List.append_nil])
    · obtain ⟨rfl, htail⟩ := List.cons.inj hl
      exact .inr (.inr ⟨m, hm, htail⟩)
  · rcases m with _ | ⟨z, m⟩
    · exact .inl (by rw [hm, List.append_nil])
    · obtain ⟨rfl, -⟩ := List.cons.inj hl
      exact .inr (.inl ⟨m, hm⟩)

section Answers

variable {srv : Server} {events : List Event} {i : ℕ} {r : Incoming} {before before' : List LogEntry} {x y : LogEntry}

/-- A call that may change the store is the first one of its request. -/
theorem not_writes_of_makes (hr : (requests events)[i]? = some r) (hx : Makes srv events i before x)
    (hwrite : x.call.writes = true) (hy : y ∈ before) (hthread : y.thread = i) : y.call.writes = false := by
  obtain ⟨hi, after, hlog⟩ := hx
  exact ((spec_serve hr).1 before x after hlog hi).2 hwrite y (List.mem_filter.2 ⟨hy, by simpa using hthread⟩)

theorem storeAfter_of_makes (hx : Makes srv events i before x) (h : effective x = false) :
    storeAfter srv (before ++ [x]) = storeAfter srv before := by
  obtain ⟨-, after, hlog⟩ := hx
  exact storeAfter_of_not_effective ((logged_serve srv events).2 before x after hlog) h

/-- The one call of a request that has changed the store. -/
theorem effective_unique (h : ((callsOf i (serve srv events).log).filter effective).length = 1) :
    ∃ before x, Makes srv events i before x ∧ effective x = true ∧
      ∀ before' y, Makes srv events i before' y → before' ≠ before → effective y = false := by
  obtain ⟨x, hone⟩ := List.length_eq_one_iff.1 h
  rw [callsOf, List.filter_filter] at hone
  obtain ⟨before, after, hlog, hbefore, hx, hafter⟩ := List.filter_eq_cons_iff.1 hone
  simp only [Bool.and_eq_true, beq_iff_eq] at hx
  refine ⟨before, x, ⟨hx.2, after, hlog⟩, hx.1, ?_⟩
  rintro before' y ⟨hy, after', hlog'⟩ hne
  rcases split_cases (hlog.symm.trans hlog') with heq | ⟨m, rfl⟩ | ⟨m, -, rfl⟩
  · exact absurd heq hne
  · simpa [hy] using hbefore y (List.mem_append_right _ List.mem_cons_self)
  · simpa [hy] using List.filter_eq_nil_iff.1 hafter y (List.mem_append_right _ List.mem_cons_self)

end Answers

/-- **An answer tells what has happened.** In every run of the panel:

* no request makes two calls that may change the store;
* a request whose answer does not say so has left the store, at each of its calls, as it was: this is so after an
  error, and for a batch that is not applied because it is known;
* a request whose answer says so has changed the store at one of its calls, which did what it is there for and which
  the request had the right to, and has left it as it was at the others. -/
theorem answers_tell_effects (srv : Server) (events : List Event) {i : ℕ} {r : Incoming}
    (hr : (requests events)[i]? = some r) :
    (∀ before x before' y, Makes srv events i before x → Makes srv events i before' y → x.call.writes = true →
      y.call.writes = true → before' = before) ∧
    ∀ a, (serve srv events).progs[i]? = some (.done a) →
      (r.toldDone a = false → ∀ before x, Makes srv events i before x →
        storeAfter srv (before ++ [x]) = storeAfter srv before) ∧
      (r.toldDone a = true → ∃ before x, Makes srv events i before x ∧ Authorised srv r i before x.call ∧
        Changed srv x.env (storeAfter srv before) (storeAfter srv (before ++ [x])) x.call ∧
        ∀ before' y, Makes srv events i before' y → before' ≠ before →
          storeAfter srv (before' ++ [y]) = storeAfter srv before') := by
  have hanswer := (@spec_serve srv events i r hr).2
  refine ⟨fun before x before' y hx hy hxw hyw => ?_, fun a ha => ⟨fun htold before x hx => ?_, fun htold => ?_⟩⟩
  · obtain ⟨after, hlog⟩ := hx.2
    obtain ⟨after', hlog'⟩ := hy.2
    rcases split_cases (hlog.symm.trans hlog') with heq | ⟨m, rfl⟩ | ⟨m, rfl, -⟩
    · exact heq
    · have hno := not_writes_of_makes hr hx hxw (List.mem_append_right _ List.mem_cons_self) hy.1
      rw [hyw] at hno
      cases hno
    · have hno := not_writes_of_makes hr hy hyw (List.mem_append_right _ List.mem_cons_self) hx.1
      rw [hxw] at hno
      cases hno
  · have hnone := hanswer a ha
    rw [AnswerOk, htold, if_neg Bool.false_ne_true, List.length_eq_zero_iff, List.filter_eq_nil_iff] at hnone
    have hmem : x ∈ callsOf i (serve srv events).log := by
      obtain ⟨hi, after, hlog⟩ := hx
      refine List.mem_filter.2 ⟨?_, by simpa using hi⟩
      rw [hlog]
      exact List.mem_append_right _ List.mem_cons_self
    exact storeAfter_of_makes hx (by simpa using hnone x hmem)
  · have hone := hanswer a ha
    rw [AnswerOk, if_pos htold] at hone
    obtain ⟨before, x, hx, heff, hothers⟩ := effective_unique hone
    refine ⟨before, x, hx, ?_, ?_, fun before' y hy hne => storeAfter_of_makes hy (hothers before' y hy hne)⟩
    · obtain ⟨rfl, after, hlog⟩ := hx
      exact authorised_serve hlog hr
    · obtain ⟨-, after, hlog⟩ := hx
      exact changed_of_effective ((logged_serve srv events).2 before x after hlog) heff

theorem answers_tell_effects_tiny :
    let P := serve tinyServer (tinyEvents "s3cret")
    ∃ a, P.progs[0]? = some (.done a) ∧ a.status = 201 ∧
      ∃ before x, Makes tinyServer (tinyEvents "s3cret") 0 before x ∧
        Changed tinyServer x.env (storeAfter tinyServer before) (storeAfter tinyServer (before ++ [x])) x.call := by
  intro P
  have hstatus : (P.progs.map fun p => p.answer.map Answer.status)[0]? = some (some 201) := by decide +kernel
  rw [List.getElem?_map, Option.map_eq_some_iff] at hstatus
  obtain ⟨p, hp, hstatus⟩ := hstatus
  obtain ⟨a, ha, hstatus⟩ := Option.map_eq_some_iff.1 hstatus
  rw [Prog.answer_eq_some.1 ha] at hp
  have hroute : route (registerRequest "s3cret").method (registerRequest "s3cret").path = some .adminPutAgent := by
    decide +kernel
  have htold : (registerRequest "s3cret").toldDone a = true := by
    rw [Incoming.toldDone, hroute]
    exact beq_iff_eq.2 hstatus
  obtain ⟨before, x, hx, -, hchanged, -⟩ := ((answers_tell_effects tinyServer (tinyEvents "s3cret")
    (show _ = some (registerRequest "s3cret") from rfl)).2 a hp).2 htold
  exact ⟨a, hp, hstatus, before, x, hx, hchanged⟩

/-! ### A request without others -/

/-- What is written for a reply. -/
def Reply.answer (srv : Server) : Reply → Answer
  | .error status message => writeError status message
  | .storeError status err => writeError status (err.text srv.quote)
  | .applied status b => writeJSON [] status (.obj [("applied", .bool b)])

theorem alone_withAgent (srv : Server) (e : Env) (s : Store) (r : Incoming) (rest : Agent → Handler) :
    (withAgent r rest).alone (Store.exec srv) e s =
      match s.agentBySecret e.order r.token with
      | none => (s, writeError 401 "invalid agent token")
      | some agent => (rest agent).alone (Store.exec srv) e s := by
  have hexec : Store.exec srv e s (.agentBySecret r.token) = (s, s.agentBySecret e.order r.token) := rfl
  unfold withAgent
  rw [Prog.alone, hexec]
  generalize s.agentBySecret e.order r.token = x
  cases x <;> rfl

/-- When no other request comes in between, the handler of traffic does what `agentTraffic` does. -/
theorem agentTraffic_alone (srv : Server) (e : Env) (s : Store) (r : Incoming) :
    (handleAgentTraffic srv r).alone (Store.exec srv) e s =
      ((agentTraffic e.order s e.now r.toRequest).1, (agentTraffic e.order s e.now r.toRequest).2.answer srv) := by
  have htoken : requireAgent e.order s (NetHTTP.get r.header "Authorization") =
      match s.agentBySecret e.order r.token with
      | none => .error (.error 401 "invalid agent token")
      | some a => .ok a := by
    unfold Incoming.token
    rfl
  unfold handleAgentTraffic agentTraffic
  rw [alone_withAgent, htoken]
  cases s.agentBySecret e.order r.token with
  | none => rfl
  | some a =>
    simp only
    cases decodeBody r.body with
    | none => rfl
    | some payload =>
      simp only
      split_ifs
      · rfl
      · have hexec : Store.exec srv e s (.applyTraffic a.id payload) = s.applyTraffic e.now a.id payload := rfl
        rw [Prog.alone, hexec]
        generalize s.applyTraffic e.now a.id payload = x
        rcases x with ⟨s', err | applied⟩ <;> rfl

end MiniSbAgent.Panelserver
