import MiniSbAgent.Panelserver.Requests

/-!
# How a topology gets to its agent

The admin assigns a topology with one request, the agent fetches it with another, and any others may run in between.
The way of the second one is followed from end to end: the bytes that `FetchTopology` writes, the request that
`net/http` makes of them, the calls of its handler among those of a whole run, the answer under any framing, and what
the client makes of it.

* `latest` — the last assignment of a log, and `lookup_storeAfter`: it is what the store holds;
* `incoming_topology` — the request that comes in;
* `handleAgentTopology_tells` — the calls of its handler, and the answer they lead to;
* `topology_fetched` — the client gets the assignment that was the last one at one moment of the run.
-/

namespace MiniSbAgent.Panelserver

open MiniSbAgent.Go MiniSbAgent.Panelapi MiniSbAgent.Lib

/-! ### Assignments -/

/-- The revision and the topology that a call gives to the agent. -/
def assigned (agentID : String) : LogEntry → Option (String × Topology)
  | ⟨_, e, .putTopology id topology, .ok _⟩ => if id = agentID then some (e.revision, topology) else none
  | _ => none

/-- The last assignment of a log. -/
def latest (log : List LogEntry) (agentID : String) : Option (String × Topology) :=
  (log.filterMap (assigned agentID)).getLast?

theorem latest_concat (log : List LogEntry) (x : LogEntry) (agentID : String) :
    latest (log ++ [x]) agentID = (assigned agentID x).or (latest log agentID) := by
  unfold latest
  rw [List.filterMap_append, List.getLast?_append]
  cases h : assigned agentID x <;> simp [h]

/-- What an agent gets to see of its record. -/
def TopologyRecord.shown (r : TopologyRecord) : String × String × Topology := (r.revision, r.etag, r.topology)

/-- A call changes the record of an agent exactly when it assigns a topology to it. -/
theorem shown_exec {srv : Server} {s : Store} {x : LogEntry} (hres : x.result = (s.exec srv x.env x.call).2)
    (agentID : String) :
    ((s.exec srv x.env x.call).1.topologies.lookup agentID).map TopologyRecord.shown =
      ((assigned agentID x).map fun p => (p.1, srv.etag p.1, p.2)).or
        ((s.topologies.lookup agentID).map TopologyRecord.shown) := by
  obtain ⟨i, e, c, res⟩ := x
  cases c with
  | agentBySecret secret => rfl
  | topology id => rfl
  | agents => rfl
  | putAgent agent =>
    have htop : (s.putAgent e.now agent).1.topologies = s.topologies := by
      rcases putAgent_cases (s := s) e.now agent with ⟨err, heq⟩ | ⟨agent', heq⟩ <;> rw [heq]
    exact congrArg (fun t => (AList.lookup agentID t).map TopologyRecord.shown) htop
  | applyTraffic id payload =>
    have htop : (s.applyTraffic e.now id payload).1.topologies = s.topologies := by
      rcases applyTraffic_cases (s := s) e.now id payload with ⟨err, heq, -⟩ | ⟨-, heq⟩ | ⟨agent, -, -, -, heq⟩ <;>
        rw [heq]
    exact congrArg (fun t => (AList.lookup agentID t).map TopologyRecord.shown) htop
  | putTopology id topology =>
    have hput : res = (s.putTopology e.now e.revision (srv.etag e.revision) id topology).2 := hres
    show ((s.putTopology e.now e.revision (srv.etag e.revision) id topology).1.topologies.lookup agentID).map _ = _
    rcases res with err | ⟨⟩
    · have hsame : (s.putTopology e.now e.revision (srv.etag e.revision) id topology).1 = s := by
        rcases putTopology_cases (s := s) e.now e.revision (srv.etag e.revision) id topology with ⟨_, heq⟩ | ⟨_, heq⟩
        · rw [heq]
        · rw [heq] at hput
          cases hput
      rw [hsame]
      rfl
    · obtain ⟨hvalid, heq⟩ := putTopology_ok hput.symm
      rw [heq]
      show ((AList.insert id _ s.topologies).lookup agentID).map _ =
        (Option.map _ (if id = agentID then some (e.revision, topology) else none)).or _
      rw [lookup_insert_of]
      by_cases hid : id = agentID
      · rw [if_pos hid.symm, if_pos hid]
        rfl
      · rw [if_neg (Ne.symm hid), if_neg hid]
        rfl

/-- **The store holds the last assignment.** -/
theorem lookup_storeAfter {srv : Server} {log : List LogEntry} (hlog : Logged (Store.exec srv) Store.new log)
    (agentID : String) :
    ((storeAfter srv log).topologies.lookup agentID).map TopologyRecord.shown =
      (latest log agentID).map fun p => (p.1, srv.etag p.1, p.2) := by
  induction log using List.reverseRecOn with
  | nil => rfl
  | append_singleton log x ih =>
    have hconcat : storeAfter srv (log ++ [x]) = ((storeAfter srv log).exec srv x.env x.call).1 :=
      replay_concat _ _ _ _
    have hres : x.result = ((storeAfter srv log).exec srv x.env x.call).2 := hlog log x [] rfl
    rw [hconcat, shown_exec hres, ih (Logged.left _ hlog), latest_concat]
    cases assigned agentID x <;> rfl

/-! ### What has been assigned can be sent -/

theorem decodeTopologyBody_inRange {body : Bytes} {t : Topology} (h : decodeTopologyBody body = some t) :
    t.InRange := by
  obtain ⟨nodes, hnodes, rfl⟩ := Option.map_eq_some_iff.1 h
  obtain ⟨v, -, hdecode⟩ := Option.bind_eq_some_iff.1 hnodes
  have hslice : SliceInRange nodes := by
    refine decodeStruct_invariant (P := SliceInRange) (fun x m y hx hy => ?_) (by simp [SliceInRange]) hdecode
    unfold setBodyField at hy
    split_ifs at hy
    · exact decodeTopology_inRange hx hy
    · cases hy
      exact hx
  exact fun n hn => hslice n (List.mem_append_left _ hn)

/-- An assignment was made by a call of the log. -/
theorem exists_of_latest {log : List LogEntry} {agentID revision : String} {t : Topology}
    (h : latest log agentID = some (revision, t)) :
    ∃ i e res, (⟨i, e, .putTopology agentID t, res⟩ : LogEntry) ∈ log ∧ e.revision = revision := by
  obtain ⟨⟨i, e, c, res⟩, hx, hassigned⟩ := List.mem_filterMap.1 (List.mem_of_getLast? h)
  cases c with
  | putTopology id topology =>
    rcases res with err | ⟨⟩
    · cases hassigned
    · have hif : (if id = agentID then some (e.revision, topology) else none) = some (revision, t) := hassigned
      split_ifs at hif with hid
      cases hif
      subst hid
      exact ⟨i, e, _, hx, rfl⟩
  | agentBySecret secret => cases hassigned
  | topology id => cases hassigned
  | agents => cases hassigned
  | putAgent agent => cases hassigned
  | applyTraffic id payload => cases hassigned

/-- `randomID` of 16 bytes. -/
def randomID (raw : Bytes) : String := hexText raw

/-- Every revision of a run is drawn by `randomID`. -/
def RandomRevisions (events : List Event) : Prop :=
  ∀ i e, Event.step i e ∈ events → ∃ raw : Bytes, raw.length = 16 ∧ e.revision = randomID raw

theorem trimSpace_randomID {raw : Bytes} (h : raw ≠ []) : trimSpace (randomID raw) ≠ "" := by
  have hdigit : ∀ n < 16, (Json.hexByte n).toNat < 0x80 ∧ isSpace (Char.ofNat (Json.hexByte n).toNat) = false := by
    decide
  obtain ⟨b, rest, rfl⟩ := List.exists_cons_of_ne_nil h
  have hb : b.toNat < 256 := b.toNat_lt
  obtain ⟨hascii, hspace⟩ := hdigit (b.toNat / 16) (by omega)
  intro hblank
  have hmem : Json.hexByte (b.toNat / 16) ∈
      (b :: rest).flatMap fun b => [Json.hexByte (b.toNat / 16), Json.hexByte (b.toNat % 16)] := by simp
  have hall := trimSpace_eq_empty_iff.1 hblank _ (mem_text_of_mem hmem hascii)
  rw [hspace] at hall
  cases hall

section Assigned

variable {srv : Server} {events : List Event} {before after : List LogEntry} {agentID revision : String} {t : Topology}

/-- Whatever a run has assigned came in a request of the admin, and has a revision of its own. -/
theorem latest_ok (hlog : (serve srv events).log = before ++ after)
    (h : latest before agentID = some (revision, t)) :
    t.InRange ∧ ∃ i e, Event.step i e ∈ events ∧ e.revision = revision := by
  obtain ⟨i, e, res, hmem, hrevision⟩ := exists_of_latest h
  have hmem' : (⟨i, e, .putTopology agentID t, res⟩ : LogEntry) ∈ (serve srv events).log := by
    rw [hlog]
    exact List.mem_append_left _ hmem
  obtain ⟨b₁, b₂, hsplit⟩ := List.append_of_mem hmem'
  obtain ⟨r, hr⟩ := exists_request hmem'
  have hasks : Asks srv r (callsOf i b₁) (.putTopology agentID t) := ((spec_serve hr).1 b₁ _ b₂ hsplit rfl).1
  refine ⟨decodeTopologyBody_inRange hasks.2.2, i, e, ?_, hrevision⟩
  have hturn := env_run (Store.exec srv) Store.new (events.map (Event.turn srv)) _ hmem'
  obtain ⟨ev, hev, hturn⟩ := List.mem_map.1 hturn
  cases ev with
  | request r => cases hturn
  | step j e' =>
    cases hturn
    exact hev

/-- With random revisions, whatever a run has assigned can be sent. -/
theorem latest_sendable (hrandom : RandomRevisions events) (hlog : (serve srv events).log = before ++ after)
    (h : latest before agentID = some (revision, t)) : t.InRange ∧ trimSpace revision ≠ "" := by
  obtain ⟨hrange, i, e, hstep, rfl⟩ := latest_ok hlog h
  obtain ⟨raw, hraw, hdrawn⟩ := hrandom i e hstep
  refine ⟨hrange, ?_⟩
  rw [hdrawn]
  exact trimSpace_randomID (List.length_pos_iff.1 (by omega))

end Assigned

/-! ### The request -/

/-- The header map of `FetchTopology`. -/
def topologyHeaders (c : ControlPlaneClient) (etag : String) : GoMap String Bytes :=
  if etag ≠ "" then (c.addHeaders ∅).insert "If-None-Match" (bytes etag) else c.addHeaders ∅

theorem fetchTopology_eq (parse : String → Option ParsedURL) (net : ParsedURL → Bytes → Option Bytes)
    (o : RangeOrder ((_ : String) × Bytes)) {c : ControlPlaneClient} (hurl : c.baseURL ≠ "") (etag : String) :
    c.fetchTopology parse net o etag =
      match minHTTPDo parse net o "GET" (c.baseURL ++ "/api/v2/agent/topology") (topologyHeaders c etag) [] with
      | .error e => .error (.http e)
      | .ok resp => readTopology resp := by
  have hheaders : c.requestHeaders ∅ = .ok (c.addHeaders ∅) := if_neg hurl
  unfold ControlPlaneClient.fetchTopology
  rw [hheaders]
  rfl

/-- The headers of a request for a topology. -/
def topologyHeaderNames : List String := ["Authorization", "X-Agent-ID", "If-None-Match"]

theorem lookup_topologyHeaders (c : ControlPlaneClient) (etag key : String) :
    (topologyHeaders c etag).lookup key =
      if key = "If-None-Match" ∧ etag ≠ "" then some (bytes etag)
      else if key = "X-Agent-ID" ∧ c.agentID ≠ "" then some (bytes c.agentID)
      else if key = "Authorization" ∧ c.token ≠ "" then some (bytes ("Bearer " ++ c.token))
      else none := by
  unfold topologyHeaders
  by_cases htag : etag = "" <;> simp [htag, lookup_insert_of, lookup_addHeaders]

/-- Nothing that goes into a header has a line feed. -/
structure TopologyLineFree (c : ControlPlaneClient) (etag : String) : Prop where
  token : 10 ∉ bytes c.token
  agentID : 10 ∉ bytes c.agentID
  etag : 10 ∉ bytes etag

theorem lookup_topologyHeaders_cases {c : ControlPlaneClient} {etag key : String} {v : Bytes}
    (h : (topologyHeaders c etag).lookup key = some v) :
    key ∈ topologyHeaderNames ∧ (v = bytes etag ∨ v = bytes c.agentID ∨ v = bytes ("Bearer " ++ c.token)) := by
  rw [lookup_topologyHeaders] at h
  split_ifs at h with h1 h2 h3
  · cases h
    exact ⟨by rw [h1.1]; decide, .inl rfl⟩
  · cases h
    exact ⟨by rw [h2.1]; decide, .inr (.inl rfl)⟩
  · cases h
    exact ⟨by rw [h3.1]; decide, .inr (.inr rfl)⟩

section Get

variable (o : RangeOrder ((_ : String) × Bytes)) {u : ParsedURL} {c : ControlPlaneClient} {etag : String}

theorem oneLine_topologyFields (hu : PanelURL u) (hl : TopologyLineFree c etag) :
    ∀ f ∈ requestFields o u (topologyHeaders c etag) none, NetHTTP.OneLine f := by
  have htoken : ∀ key ∈ topologyHeaderNames ++ ["Host", "Connection"],
      bytes key ≠ [] ∧ (bytes key).all NetHTTP.isTokenByte = true := by decide +kernel
  have hline : ∀ key ∈ topologyHeaderNames ++ ["Host", "Connection"], ∀ v : Bytes, 10 ∉ v →
      NetHTTP.OneLine (bytes key, v) := fun key hkey v hv =>
    ⟨(htoken key hkey).1, List.all_eq_true.1 (htoken key hkey).2, hv⟩
  intro f hf
  simp only [requestFields, Option.toList_none, List.map_nil, List.nil_append, List.cons_append, List.mem_cons,
    List.mem_append, List.mem_map, List.not_mem_nil, or_false] at hf
  rcases hf with rfl | ⟨⟨key, v⟩, he, rfl⟩ | rfl
  · exact hline _ (by decide) _ fun h10 => (not_blank_of_host (host_bytes hu 10 h10)).2.2 rfl
  · obtain ⟨hkey, hcases⟩ := lookup_topologyHeaders_cases ((mem_range_iff o _).1 he)
    refine hline _ (List.mem_append_left _ hkey) _ ?_
    rcases hcases with rfl | rfl | rfl
    · exact hl.etag
    · exact hl.agentID
    · rw [bytes_append, List.mem_append, not_or]
      exact ⟨by decide, hl.token⟩
  · exact hline _ (by decide) _ (by decide)

/-- Each header arrives once, under its own name. -/
theorem get_topologyFields {name : String} (hname : name ∈ topologyHeaderNames) :
    NetHTTP.get (NetHTTP.delivered (requestFields o u (topologyHeaders c etag) none)) name =
      NetHTTP.trimBlank (((topologyHeaders c etag).lookup name).getD []) := by
  have hlower : ∀ name ∈ topologyHeaderNames, ∀ key ∈ topologyHeaderNames ++ ["Host", "Connection"],
      (NetHTTP.lower (bytes key) == NetHTTP.lower (bytes name)) = (key == name) := by decide +kernel
  have hother : ∀ name ∈ topologyHeaderNames, ("Host" == name) = false ∧ ("Connection" == name) = false := by decide
  have hkey := hlower name hname
  obtain ⟨hhost, hconn⟩ := hother name hname
  have hmiddle : (o.visit (topologyHeaders c etag).entries).filter
      (fun e => NetHTTP.lower (bytes e.1) == NetHTTP.lower (bytes name)) =
      ((topologyHeaders c etag).lookup name).toList.map fun v => ⟨name, v⟩ := by
    rw [← filter_range o]
    refine List.filter_congr fun e he => hkey e.1 (List.mem_append_left _ ?_)
    exact (lookup_topologyHeaders_cases ((mem_range_iff o _).1 he)).1
  simp only [NetHTTP.get, NetHTTP.values, NetHTTP.delivered, requestFields, Option.toList_none, List.map_nil,
    List.nil_append, List.filter_map, List.map_map, Function.comp_def, List.cons_append, List.filter_cons,
    List.filter_append, List.filter_nil, hkey "Host" (by decide), hkey "Connection" (by decide), hhost, hconn, hmiddle,
    Bool.false_eq_true, if_false, List.append_nil]
  cases (topologyHeaders c etag).lookup name <;> rfl

/-- **The request that comes in.** -/
theorem incoming_topology (hu : PanelURL u) (huri : u.requestURI = "/api/v2/agent/topology")
    (hl : TopologyLineFree c etag) {maxHead : ℕ} {r : Incoming}
    (h : incoming maxHead (requestHead o "GET" u (topologyHeaders c etag) []) = some r) :
    route r.method r.path = some .agentTopology ∧
      r.header = NetHTTP.delivered (requestFields o u (topologyHeaders c etag) none) := by
  rw [requestHead_eq, if_pos rfl, huri, ← List.append_nil (NetHTTP.sentHead _ _)] at h
  have hone := oneLine_topologyFields o hu hl
  generalize requestFields o u (topologyHeaders c etag) none = fields at h hone ⊢
  -- the first line is a constant; as a variable it is not evaluated at each rewrite
  generalize hfirst : bytes ("GET" ++ " " ++ "/api/v2/agent/topology" ++ " HTTP/1.1") = first at h
  have hok : first ≠ [] ∧ 10 ∉ first := by rw [← hfirst]; decide +kernel
  have hlines := NetHTTP.headLines_sentHead hone hok []
  have hline : NetHTTP.requestLine first = some (bytes "GET", bytes "/api/v2/agent/topology") := by
    rw [← hfirst]
    decide +kernel
  have hpath : Url.requestPath (bytes "/api/v2/agent/topology") = some ["api", "v2", "agent", "topology"] := by
    decide +kernel
  unfold incoming at h
  rw [hlines] at h
  rcases hread : NetHTTP.readRequest maxHead (NetHTTP.sentHead first fields ++ []) with _ | r₀
  · rw [hread] at h
    cases h
  · rw [hread] at h
    simp only [hline, hpath, Option.map_some, Option.some.injEq, text_bytes] at h
    subst h
    obtain ⟨-, -, -, -, n, -, rfl⟩ := (NetHTTP.readRequest_sent hone hok maxHead []).1 hread
    exact ⟨show route "GET" ["api", "v2", "agent", "topology"] = _ by decide, rfl⟩

end Get

/-! ### The handler -/

/-- The calls of a request for a topology, and the answer they lead to. -/
def TopologyTold (r : Incoming) (past : List LogEntry) (a : Answer) : Prop :=
  (∃ i e, past = [⟨i, e, .agentBySecret r.token, none⟩] ∧ a.status = 401) ∨
    ∃ i e agent j e' record,
      past = [⟨i, e, .agentBySecret r.token, some agent⟩, ⟨j, e', .topology agent.id, record⟩] ∧
        match record with
        | none => a.status = 404
        | some record =>
          if NetHTTP.get r.header "If-None-Match" = bytes record.etag then a.status = 304
          else a.status = 200 ∧ a.body = (responseValue ⟨1, record.revision, record.topology⟩).text ++ [10]

theorem handleAgentTopology_tells (r : Incoming) :
    (handleAgentTopology r).Spec (fun _ _ => True) (TopologyTold r) [] := by
  refine ⟨trivial, fun i e agent => ?_⟩
  cases agent with
  | none => exact .inl ⟨i, e, rfl, rfl⟩
  | some agent =>
    refine ⟨trivial, fun j e' record => ?_⟩
    cases record with
    | none => exact .inr ⟨i, e, agent, j, e', none, rfl, rfl⟩
    | some record =>
      simp only
      split_ifs with htag
      · refine .inr ⟨i, e, agent, j, e', some record, rfl, ?_⟩
        simp only [if_pos htag]
      · refine .inr ⟨i, e, agent, j, e', some record, rfl, ?_⟩
        simp only [if_neg htag]
        exact ⟨rfl, rfl⟩

/-! ### The answer -/

/-- The bytes are the answer, under one of the framings. -/
def Answer.Sent (a : Answer) (stream : Bytes) : Prop :=
  ∃ status others lines rest, StatusLine status a.status ∧ (∀ l ∈ others, OtherLine l) ∧
    Framed others a.body lines rest ∧ stream = status ++ crlf ++ (linesOf lines ++ crlf ++ rest)

/-- What the client sends is request `i` of the run, and what it gets back is the answer to it. -/
def ServedAs (srv : Server) (events : List Event) (maxHead i : ℕ) (sent : Bytes) (reply : Option Bytes) : Prop :=
  ∃ r a stream, incoming maxHead sent = some r ∧ (requests events)[i]? = some r ∧
    (serve srv events).progs[i]? = some (.done a) ∧ a.body.length ≤ minHTTPMaxBody ∧ a.Sent stream ∧
    reply = some stream

section Client

variable {parse : String → Option ParsedURL} {net : ParsedURL → Bytes → Option Bytes}
  {o : RangeOrder ((_ : String) × Bytes)} {c : ControlPlaneClient} {etag : String} {u : ParsedURL}

/-- The client reads the status and the body of the answer. -/
theorem fetchTopology_sent (hurl : c.baseURL ≠ "")
    (hparse : parse (c.baseURL ++ "/api/v2/agent/topology") = some u)
    (hscheme : u.scheme = "http" ∨ u.scheme = "https") {a : Answer} (hlen : a.body.length ≤ minHTTPMaxBody)
    {stream : Bytes} (ha : a.Sent stream)
    (hnet : net u (requestHead o "GET" u (topologyHeaders c etag) []) = some stream) :
    ∃ reason, c.fetchTopology parse net o etag = readTopology ⟨a.status, reason, a.body⟩ := by
  obtain ⟨status, others, lines, rest, hstatus, hothers, hframed, rfl⟩ := ha
  rw [← List.append_nil (requestHead o "GET" u (topologyHeaders c etag) [])] at hnet
  obtain ⟨reason, -, hdo⟩ := minHTTPRun_lines hparse hscheme hstatus (plain_of_framed hothers hframed) hnet
  refine ⟨reason, ?_⟩
  rw [fetchTopology_eq parse net o hurl, minHTTPDo, hdo, readBody_framed hothers hlen hframed]
  rfl

theorem readTopology_response {t : Topology} (hrange : t.InRange) (hvalid : t.validate = .ok ()) {revision : String}
    (hrevision : trimSpace revision ≠ "") (reason : String) :
    readTopology ⟨200, reason, (responseValue ⟨1, revision, t⟩).text ++ [10]⟩ = .ok (some ⟨1, revision, t⟩) := by
  have hversion : -maxInt64 - 1 ≤ (1 : ℤ) ∧ (1 : ℤ) ≤ maxInt64 := by decide
  have hread := unmarshalResponse_text (r := ⟨1, revision, t⟩) hrange hversion
  unfold readTopology
  simp only [hread]
  rw [if_neg (by decide), if_neg (by decide), if_neg (by simp), if_neg hrevision, hvalid]

/-- The secret of a client arrives as it is. -/
theorem token_topology {r : Incoming}
    (hheader : r.header = NetHTTP.delivered (requestFields o u (topologyHeaders c etag) none)) (htoken : c.token ≠ "")
    (htrim : trimSpace c.token = c.token) : r.token = bytes c.token := by
  unfold Incoming.token
  rw [hheader, get_topologyFields o (by decide), lookup_topologyHeaders]
  simp only [String.reduceEq, htoken, ne_eq, not_false_eq_true, and_true, false_and, if_false, if_true,
    Option.getD_some]
  rw [NetHTTP.trimBlank_bytes (trimSpace_bearer htoken htrim), bearer_header, htrim]

theorem ifNoneMatch_topology {r : Incoming}
    (hheader : r.header = NetHTTP.delivered (requestFields o u (topologyHeaders c etag) none)) :
    NetHTTP.get r.header "If-None-Match" = NetHTTP.trimBlank (bytes etag) := by
  rw [hheader, get_topologyFields o (by decide), lookup_topologyHeaders]
  by_cases h : etag = ""
  · subst h
    rfl
  · simp [h]

end Client

/-- What the client makes of an assignment. -/
def fetched (srv : Server) (etag : String) : Option (String × Topology) → Except FetchError (Option TopologyResponse)
  | none => .error (.status 404)
  | some (revision, t) =>
    if NetHTTP.trimBlank (bytes etag) = bytes (srv.etag revision) then .ok none else .ok (some ⟨1, revision, t⟩)

/-- The answer with the record of an agent comes out as its last assignment, if that can be sent. -/
theorem readTopology_shown {srv : Server} {record : Option TopologyRecord} {etag : String} {a : Answer}
    {last : Option (String × Topology)} (hnone : record = none → a.status = 404)
    (hsome : ∀ r, record = some r →
      if NetHTTP.trimBlank (bytes etag) = bytes r.etag then a.status = 304
      else a.status = 200 ∧ a.body = (responseValue ⟨1, r.revision, r.topology⟩).text ++ [10])
    (hlatest : record.map TopologyRecord.shown = last.map fun p => (p.1, srv.etag p.1, p.2))
    (hok : ∀ revision t, last = some (revision, t) → t.InRange ∧ trimSpace revision ≠ "") (reason : String) :
    readTopology ⟨a.status, reason, a.body⟩ = fetched srv etag last := by
  cases record with
  | none =>
    rw [Option.map_none, eq_comm, Option.map_eq_none_iff] at hlatest
    rw [hlatest, hnone rfl]
    rfl
  | some record =>
    have hanswer := hsome record rfl
    obtain ⟨⟨revision, t⟩, rfl, hshown⟩ := Option.map_eq_some_iff.1 hlatest.symm
    obtain ⟨rfl, htag, rfl⟩ : revision = record.revision ∧ srv.etag revision = record.etag ∧
      t = record.topology := by simpa [TopologyRecord.shown] using hshown
    obtain ⟨hrange, hrevision⟩ := hok _ _ rfl
    rw [fetched, htag]
    split_ifs at hanswer with hmatch
    · rw [if_pos hmatch, hanswer]
      rfl
    · rw [if_neg hmatch, hanswer.1, hanswer.2]
      exact readTopology_response hrange record.valid hrevision reason

/-- **A topology gets to its agent as it was assigned.** Take any run of the panel in which what a client sends is one
of the requests.  There is a moment of the run, a call of this request, such that

* no agent had the secret of the client then, and the client is told so; or
* an agent had shown it before, and the client gets the last topology assigned to this agent at that moment, with its
  revision, or learns that there is none, or that it is the one of its etag.

It never gets a part of a topology, one of another agent, or one that was replaced before. -/
theorem topology_fetched (srv : Server) (events : List Event) (maxHead : ℕ)
    {parse : String → Option ParsedURL} {net : ParsedURL → Bytes → Option Bytes}
    {o : RangeOrder ((_ : String) × Bytes)} {c : ControlPlaneClient} {u : ParsedURL} {etag : String} {i : ℕ}
    (hrandom : RandomRevisions events) (hurl : c.baseURL ≠ "")
    (hparse : parse (c.baseURL ++ "/api/v2/agent/topology") = some u)
    (hscheme : u.scheme = "http" ∨ u.scheme = "https") (hu : PanelURL u)
    (huri : u.requestURI = "/api/v2/agent/topology") (hl : TopologyLineFree c etag) (htoken : c.token ≠ "")
    (htrim : trimSpace c.token = c.token)
    (hserved : ServedAs srv events maxHead i (requestHead o "GET" u (topologyHeaders c etag) [])
      (net u (requestHead o "GET" u (topologyHeaders c etag) []))) :
    ∃ before x after, (serve srv events).log = before ++ x :: after ∧ x.thread = i ∧
      ((∀ id a, (storeAfter srv before).agents.lookup id = some a → a.secret ≠ c.token) ∧
          c.fetchTopology parse net o etag = .error (.status 401) ∨
        ∃ agentID, (∃ earlier y between a, before = earlier ++ y :: between ∧ y.thread = i ∧
            (storeAfter srv earlier).agents.lookup agentID = some a ∧ a.secret = c.token) ∧
          c.fetchTopology parse net o etag = fetched srv etag (latest before agentID)) := by
  obtain ⟨r, a, stream, hr, hreq, hdone, hlen, hsent, hnet⟩ := hserved
  obtain ⟨hroute, hheader⟩ := incoming_topology o hu huri hl hr
  obtain ⟨reason, hfetch⟩ := fetchTopology_sent hurl hparse hscheme hlen hsent hnet
  have hhandle : handle srv r = handleAgentTopology r := by
    unfold handle
    rw [hroute]
  have htold : TopologyTold r (callsOf i (serve srv events).log) a := by
    refine (spec_run (Store.exec srv) Store.new ?_ (handleAgentTopology_tells r)).2 a hdone
    rw [arrivals_turn, List.getElem?_map, hreq, ← hhandle]
    rfl
  have hlogged := (logged_serve srv events).2
  have htok := token_topology hheader htoken htrim
  rw [hfetch]
  rcases htold with ⟨j, e, hcalls, hstatus⟩ | ⟨j, e, agent, j', e', record, hcalls, hanswer⟩
  · obtain ⟨before, after, hlog, -, hj, -⟩ := List.filter_eq_cons_iff.1 hcalls
    have hres : none = (storeAfter srv before).agentBySecret e.order r.token := hlogged before _ after hlog
    refine ⟨before, _, after, hlog, by simpa using hj, .inl ⟨?_, ?_⟩⟩
    · intro id agent hid hsecret
      exact agentBySecret_eq_none e.order hres.symm id agent hid (by rw [hsecret, htok])
    · rw [hstatus]
      rfl
  · obtain ⟨earlier, later, hlog, -, hj, hcalls⟩ := List.filter_eq_cons_iff.1 hcalls
    obtain ⟨between, after, rfl, -, hj', -⟩ := List.filter_eq_cons_iff.1 hcalls
    have hagent : some agent = (storeAfter srv earlier).agentBySecret e.order r.token := hlogged earlier _ _ hlog
    obtain ⟨id, hid, hsecret⟩ := agentBySecret_eq_some e.order hagent.symm
    rw [← (agentsOk_storeAfter srv earlier id agent hid).1] at hid
    rw [← List.cons_append, ← List.append_assoc] at hlog
    refine ⟨_, _, after, hlog, by simpa using hj', .inr ⟨agent.id, ?_, ?_⟩⟩
    · exact ⟨earlier, _, between, agent, rfl, by simpa using hj, hid, bytes_injective (hsecret.trans htok)⟩
    · have hrecord : record = (storeAfter srv _).topologies.lookup agent.id := hlogged _ _ after hlog
      have hlatest := lookup_storeAfter (Logged.left _ (hlog ▸ hlogged)) agent.id
      rw [← hrecord] at hlatest
      rw [ifNoneMatch_topology hheader] at hanswer
      refine readTopology_shown (fun h => ?_) (fun r h => ?_) hlatest (fun _ _ => latest_sendable hrandom hlog) reason
      · subst h
        exact hanswer
      · subst h
        exact hanswer

/-- One node. -/
def tinyTopology : Topology := ⟨[⟨"21", "vless", "", ⟨"direct", "", 0, "", "", "", ""⟩⟩]⟩

def tinyRevision : String := randomID (List.replicate 16 0)

/-- The admin assigns it to the agent. -/
def assignRequest : Incoming :=
  ⟨⟨[(bytes "Authorization", bytes "Bearer admin")],
    bytes "\x7b\"topology\":\x7b\"nodes\":[\x7b\"node_id\":\"21\",\"node_type\":\"vless\"," ++
      bytes "\"outbound\":\x7b\"type\":\"direct\"\x7d\x7d]\x7d\x7d"⟩,
    "PUT", ["api", "v1", "admin", "agents", "edge", "topology"]⟩

def topologyURL : ParsedURL := ⟨"http", "panel", "panel", "", "/api/v2/agent/topology"⟩

/-- The request of the agent as it comes in. -/
def fetchRequest : Incoming :=
  ⟨⟨NetHTTP.delivered (requestFields (.stored _) topologyURL (topologyHeaders edgeClient "") none), []⟩, "GET",
    ["api", "v2", "agent", "topology"]⟩

/-- The agent asks while the topology is being assigned. -/
def deliveryEvents : List Event :=
  let env : Env := ⟨.stored _, 1, tinyRevision⟩
  [.request (registerRequest "s3cret"), .step 0 env, .request assignRequest, .request fetchRequest, .step 2 env,
   .step 1 env, .step 2 env, .step 1 env]

def deliveryAnswer : Answer :=
  writeJSON [("ETag", tinyServer.etag tinyRevision), ("Cache-Control", "no-store")] 200
    (responseValue ⟨1, tinyRevision, tinyTopology⟩)

def deliveryStream : Bytes := bytes "HTTP/1.1 200 OK" ++ crlf ++ (linesOf [] ++ crlf ++ deliveryAnswer.body)

theorem delivery_served :
    ServedAs tinyServer deliveryEvents 4096 2
      (requestHead (.stored _) "GET" topologyURL (topologyHeaders edgeClient "") []) (some deliveryStream) := by
  have hdone : ((serve tinyServer deliveryEvents).progs.map Prog.answer)[2]? = some (some deliveryAnswer) := by
    decide +kernel
  rw [List.getElem?_map, Option.map_eq_some_iff] at hdone
  obtain ⟨p, hp, hdone⟩ := hdone
  rw [Prog.answer_eq_some.1 hdone] at hp
  refine ⟨fetchRequest, deliveryAnswer, deliveryStream, by decide +kernel, rfl, hp, by decide +kernel, ?_, rfl⟩
  exact ⟨_, [], [], _, statusLine_ok, by simp, .unframed, rfl⟩

theorem topology_fetched_delivery :
    let fetch := edgeClient.fetchTopology (fun _ => some topologyURL) (fun _ _ => some deliveryStream) (.stored _) ""
    fetch = .ok (some ⟨1, tinyRevision, tinyTopology⟩) ∧
      ∃ before x after, (serve tinyServer deliveryEvents).log = before ++ x :: after ∧ x.thread = 2 ∧
        ((∀ id a, (storeAfter tinyServer before).agents.lookup id = some a → a.secret ≠ edgeClient.token) ∧
            fetch = .error (.status 401) ∨
          ∃ agentID, (∃ earlier y between a, before = earlier ++ y :: between ∧ y.thread = 2 ∧
              (storeAfter tinyServer earlier).agents.lookup agentID = some a ∧ a.secret = edgeClient.token) ∧
            fetch = fetched tinyServer "" (latest before agentID)) := by
  have hrandom : RandomRevisions deliveryEvents := by
    intro i e he
    simp only [deliveryEvents, List.mem_cons, reduceCtorEq, Event.step.injEq, false_or, List.not_mem_nil,
      or_false] at he
    refine ⟨List.replicate 16 0, rfl, ?_⟩
    rcases he with ⟨-, rfl⟩ | ⟨-, rfl⟩ | ⟨-, rfl⟩ | ⟨-, rfl⟩ | ⟨-, rfl⟩ <;> rfl
  refine ⟨by decide +kernel, topology_fetched tinyServer deliveryEvents 4096 hrandom (by decide) rfl (.inl rfl)
    ⟨by decide +kernel, by decide +kernel⟩ rfl ⟨by decide +kernel, by decide +kernel, by decide +kernel⟩ (by decide)
    (by decide +kernel) delivery_served⟩

end MiniSbAgent.Panelserver
