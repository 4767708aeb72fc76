import MiniSbAgent.Go.Url
import MiniSbAgent.Lib.Pool
import MiniSbAgent.Panelapi.FetchTopology
import MiniSbAgent.Panelserver.Traffic

/-!
# The handlers of the panel (`panelserver/server.go`)

Every request runs in a goroutine of its own, and all of them share the store.  A handler is therefore a program over
the calls of the store, each of which runs under the mutex: between two calls of one request those of others may run.
`Server` holds what the handlers take from outside the repository: `%q`, the texts of times, the digest and the page of
the dashboard.

* `route` — the patterns of the router;
* `handle` — the program of a request, with every answer it may give;
* `Store.exec` — a call of the store, with the clock, the random revision and the order of the map in `Env`;
* `serve` — a run of the server on arrivals and turns in any order;
* `storeAfter_eq_run` — the store of a run is the one of a history of operations.
-/

namespace MiniSbAgent.Panelapi

open MiniSbAgent.Go

/-- The texts of the errors of `Validate`. -/
def TopologyError.text (quote : String → String) : TopologyError → String
  | .noNodes => "topology contains no nodes"
  | .nodeID i id => "nodes[" ++ itoa i ++ "]: invalid or unsafe node_id: " ++ quote id
  | .nodeType i type => "nodes[" ++ itoa i ++ "].node_type " ++ quote type ++ " is unsupported"
  | .duplicateKey key => "duplicate node key " ++ quote key
  | .duplicateInboundTag tag => "duplicate inbound tag " ++ quote tag
  | .duplicateOutboundTag tag => "duplicate outbound tag " ++ quote tag
  | .shadowsocks i =>
    "nodes[" ++ itoa i ++ "] shadowsocks outbound requires server, valid server_port, method and password"
  | .outboundType i type => "nodes[" ++ itoa i ++ "] outbound type " ++ quote type ++ " is unsupported"

end MiniSbAgent.Panelapi

namespace MiniSbAgent.Panelserver

open MiniSbAgent.Go MiniSbAgent.Panelapi MiniSbAgent.Lib
open MiniSbAgent.Go.Json (Value omitString)

/-- The texts of the errors of the store. -/
def StoreError.text (quote : String → String) : StoreError → String
  | .agentFields => "agent id and secret are required"
  | .topology e => e.text quote
  | .noSuchAgent agentID => "agent " ++ quote agentID ++ " not found"
  | .noBatchID => "batch_id is required"
  | .agentNotFound => "agent not found"
  | .noTopology agentID => "agent " ++ quote agentID ++ " has no assigned topology"
  | .invalidItem => "invalid traffic item"
  | .notAssigned nodeID nodeType agentID =>
    "node " ++ quote nodeID ++ " of type " ++ quote nodeType ++ " is not assigned to agent " ++ quote agentID

structure Server where
  adminToken : String
  quote : String → String
  timeText : Time → String
  parseTime : String → Option Time
  sha256 : Bytes → Bytes
  dashboardHTML : Bytes

/-! ### The store behind its mutex -/

/-- What a call takes from the machine: the order of a map, the clock, and the bytes of `randomID` as hexadecimal. -/
structure Env where
  order : RangeOrder ((_ : String) × Agent)
  now : ℤ
  revision : String

inductive StoreCall
  | agentBySecret (secret : Bytes)
  | topology (agentID : String)
  | agents
  | putAgent (agent : Agent)
  | putTopology (agentID : String) (topology : Topology)
  | applyTraffic (agentID : String) (payload : TrafficPushRequest)

def StoreCall.Result : StoreCall → Type
  | .agentBySecret _ => Option Agent
  | .topology _ => Option TopologyRecord
  | .agents => List Agent
  | .putAgent _ => Except StoreError Unit
  | .putTopology _ _ => Except StoreError Unit
  | .applyTraffic _ _ => Except StoreError Bool

def publicAgent (agent : Agent) : Agent := { agent with secret := "" }

def Store.agentList (o : RangeOrder ((_ : String) × Agent)) (s : Store) : List Agent :=
  (o.visit s.agents.entries).map fun e => publicAgent e.2

/-- `hex.EncodeToString`. -/
def hexText (xs : Bytes) : String :=
  text (xs.flatMap fun b => [Json.hexByte (b.toNat / 16), Json.hexByte (b.toNat % 16)])

def Server.etag (srv : Server) (revision : String) : String :=
  "\"" ++ hexText (srv.sha256 (bytes revision)) ++ "\""

def Store.exec (srv : Server) (e : Env) (s : Store) : (c : StoreCall) → Store × c.Result
  | .agentBySecret secret => (s, s.agentBySecret e.order secret)
  | .topology agentID => (s, s.topologies.lookup agentID)
  | .agents => (s, s.agentList e.order)
  | .putAgent agent => s.putAgent e.now agent
  | .putTopology agentID topology => s.putTopology e.now e.revision (srv.etag e.revision) agentID topology
  | .applyTraffic agentID payload => s.applyTraffic e.now agentID payload

/-! ### Requests and answers -/

/-- A request as the router hands it over, with the parts of its path. -/
structure Incoming extends NetHTTP.Request where
  method : String
  path : List String
deriving Repr, DecidableEq

/-- A request off the wire; `none` when `net/http` answers on its own, without the router. -/
def incoming (maxHead : ℕ) (stream : Bytes) : Option Incoming :=
  match NetHTTP.headLines [] stream, NetHTTP.readRequest maxHead stream with
  | some (first :: _, _), some r =>
    match NetHTTP.requestLine first with
    | none => none
    | some (method, target) => (Url.requestPath target).map fun path => ⟨r, text method, path⟩
  | _, _ => none

def Incoming.token (r : Incoming) : Bytes := bearer (NetHTTP.get r.header "Authorization")

-- tokens are compared, never computed, in the proofs
attribute [irreducible] Incoming.token

structure Answer where
  status : ℕ
  header : List (String × String)
  body : Bytes
deriving Repr, DecidableEq

/-- `writeJSON`, on top of the fields that are set already; the encoder ends with a line feed. -/
def writeJSON (header : List (String × String)) (status : ℕ) (value : Value) : Answer :=
  ⟨status, header ++ [("Content-Type", "application/json")], value.text ++ [10]⟩

def writeError (status : ℕ) (message : String) : Answer := writeJSON [] status (.obj [("error", .str message)])

/-- A time is a string in RFC 3339, and never left out. -/
def agentValue (srv : Server) (a : Agent) : Value :=
  .obj (("id", .str a.id) :: (omitString "name" a.name ++ (omitString "secret" a.secret ++
    [("created_at", .str (srv.timeText a.createdAt)), ("seen_at", .str (srv.timeText a.seenAt))])))

/-- A record, or the zero record when there is none. -/
def recordValue (srv : Server) : Option TopologyRecord → Value
  | some r =>
    .obj [("revision", .str r.revision), ("etag", .str r.etag), ("topology", topologyValue r.topology),
      ("updated_at", .str (srv.timeText r.updatedAt))]
  | none =>
    .obj [("revision", .str ""), ("etag", .str ""), ("topology", .obj [("nodes", .null)]),
      ("updated_at", .str (srv.timeText none))]

/-! ### Decoding -/

def decodeTime (srv : Server) (old : Time) : Value → Option Time
  | .null => some old
  | .str s => srv.parseTime s
  | _ => none

def agentFields : List String := ["id", "name", "secret", "created_at", "seen_at"]

def setAgentField (srv : Server) (a : Agent) (m : String × Value) : Option Agent :=
  let name := Json.fieldName agentFields m.1
  if name = some "id" then (Json.decodeString a.id m.2).map fun v => { a with id := v }
  else if name = some "name" then (Json.decodeString a.name m.2).map fun v => { a with name := v }
  else if name = some "secret" then (Json.decodeString a.secret m.2).map fun v => { a with secret := v }
  else if name = some "created_at" then (decodeTime srv a.createdAt m.2).map fun v => { a with createdAt := v }
  else if name = some "seen_at" then (decodeTime srv a.seenAt m.2).map fun v => { a with seenAt := v }
  else some a

/-- The decoder of `adminPutAgent` on what `MaxBytesReader` lets through. -/
def decodeAgent (srv : Server) (body : Bytes) : Option Agent :=
  (Json.parse (body.take maxTrafficBody)).bind (Json.decodeStruct (setAgentField srv) ⟨"", "", "", none, none⟩)

def setBodyField (nodes : Json.Slice NodeSpec) (m : String × Value) : Option (Json.Slice NodeSpec) :=
  if Json.fieldName ["topology"] m.1 = some "topology" then Json.decodeStruct setTopologyField nodes m.2 else some nodes

/-- The decoder of `adminPutTopology`. -/
def decodeTopologyBody (body : Bytes) : Option Topology :=
  ((Json.parse (body.take maxTrafficBody)).bind (Json.decodeStruct setBodyField ⟨[], []⟩)).map fun nodes =>
    ⟨nodes.elems⟩

/-! ### The handlers -/

abbrev Handler := Prog StoreCall StoreCall.Result Answer

/-- `requireAgent`, with the rest of the handler. -/
def withAgent (r : Incoming) (rest : Agent → Handler) : Handler :=
  .call (.agentBySecret r.token) fun
    | none => .done (writeError 401 "invalid agent token")
    | some agent => rest agent

/-- `equal`; the constant time of the comparison is not observable here. -/
def equal (a b : Bytes) : Bool := a != [] && b != [] && a == b

/-- `requireAdmin`, with the rest of the handler. -/
def withAdmin (srv : Server) (r : Incoming) (rest : Handler) : Handler :=
  if equal r.token (bytes srv.adminToken) then rest else .done (writeError 401 "invalid admin token")

def handleAgentTopology (r : Incoming) : Handler :=
  withAgent r fun agent =>
    .call (.topology agent.id) fun
      | none => .done (writeError 404 "no topology assigned")
      | some record =>
        let header := [("ETag", record.etag), ("Cache-Control", "no-store")]
        if NetHTTP.get r.header "If-None-Match" = bytes record.etag then .done ⟨304, header, []⟩
        else .done (writeJSON header 200 (responseValue ⟨1, record.revision, record.topology⟩))

def handleAgentTraffic (srv : Server) (r : Incoming) : Handler :=
  withAgent r fun agent =>
    match decodeBody r.body with
    | none => .done (writeError 400 "invalid JSON payload")
    | some payload =>
      let key := NetHTTP.get r.header "Idempotency-Key"
      if key ≠ [] ∧ payload.batchID ≠ "" ∧ key ≠ bytes payload.batchID then
        .done (writeError 400 "idempotency key does not match batch_id")
      else
        .call (.applyTraffic agent.id payload) fun
          | .error e => .done (writeError 400 (e.text srv.quote))
          | .ok applied => .done (writeJSON [] 202 (.obj [("applied", .bool applied)]))

def handleAdminAgents (srv : Server) (r : Incoming) : Handler :=
  withAdmin srv r (.call .agents fun (agents : List Agent) =>
    .done (writeJSON [] 200 (.obj [("agents", .arr (agents.map (agentValue srv)))])))

def handleAdminPutAgent (srv : Server) (r : Incoming) : Handler :=
  withAdmin srv r <|
    match decodeAgent srv r.body with
    | none => .done (writeError 400 "invalid JSON payload")
    | some a =>
      .call (.putAgent a) fun
        | .error e => .done (writeError 400 (e.text srv.quote))
        | .ok () => .done (writeJSON [] 201 (agentValue srv { a with secret := "" }))

def handleAdminPutTopology (srv : Server) (r : Incoming) (id : String) : Handler :=
  withAdmin srv r <|
    match decodeTopologyBody r.body with
    | none => .done (writeError 400 "invalid JSON payload")
    | some topology =>
      .call (.putTopology id topology) fun
        | .error e => .done (writeError 400 (e.text srv.quote))
        | .ok () => .call (.topology id) fun record => .done (writeJSON [] 200 (recordValue srv record))

/-! ### The router -/

inductive Route
  | dashboard
  | healthz
  | agentTopology
  | agentTraffic
  | adminAgents
  | adminPutAgent
  | adminPutTopology (id : String)
deriving Repr, DecidableEq

/-- The patterns of `New`; those of `GET` match `HEAD` too, and the one of the dashboard matches every path. -/
def route (method : String) (path : List String) : Option Route :=
  if method = "GET" ∨ method = "HEAD" then
    if path = ["healthz"] then some .healthz
    else if path = ["api", "v2", "agent", "topology"] then some .agentTopology
    else if path = ["api", "v1", "admin", "agents"] then some .adminAgents
    else some .dashboard
  else if method = "POST" then
    if path = ["api", "v2", "agent", "traffic"] then some .agentTraffic
    else if path = ["api", "v1", "admin", "agents"] then some .adminPutAgent
    else none
  else if method = "PUT" then
    match path with
    | ["api", "v1", "admin", "agents", id, "topology"] => some (.adminPutTopology id)
    | _ => none
  else none

/-- What the router answers when only patterns of other methods match. -/
def methodNotAllowed (path : List String) : Answer :=
  let methods := ["GET", "HEAD"] ++ ["POST", "PUT"].filter fun m => (route m path).isSome
  ⟨405, [("Allow", ", ".intercalate methods), ("Content-Type", "text/plain; charset=utf-8"),
    ("X-Content-Type-Options", "nosniff")], bytes "Method Not Allowed\n"⟩

/-- The program of a request. -/
def handle (srv : Server) (r : Incoming) : Handler :=
  match route r.method r.path with
  | none => .done (methodNotAllowed r.path)
  | some .dashboard =>
    .done ⟨200, [("Content-Type", "text/html; charset=utf-8"), ("Cache-Control", "no-store")], srv.dashboardHTML⟩
  | some .healthz => .done (writeJSON [] 200 (.obj [("status", .str "ok")]))
  | some .agentTopology => handleAgentTopology r
  | some .agentTraffic => handleAgentTraffic srv r
  | some .adminAgents => handleAdminAgents srv r
  | some .adminPutAgent => handleAdminPutAgent srv r
  | some (.adminPutTopology id) => handleAdminPutTopology srv r id

/-! ### Runs -/

/-- A request comes in, or the goroutine of one makes its next call. -/
inductive Event
  | request (r : Incoming)
  | step (i : ℕ) (e : Env)

def Event.turn (srv : Server) : Event → Turn Env StoreCall StoreCall.Result Answer
  | .request r => .arrive (handle srv r)
  | .step i e => .step i e

abbrev PanelPool := Pool Store Env StoreCall StoreCall.Result Answer

abbrev LogEntry := Entry Env StoreCall StoreCall.Result

/-- The panel, from its start. -/
def serve (srv : Server) (events : List Event) : PanelPool :=
  Lib.run (Store.exec srv) Store.new (events.map (Event.turn srv))

def requests (events : List Event) : List Incoming :=
  events.filterMap fun
    | .request r => some r
    | .step _ _ => none

/-- The store after the calls of a log. -/
def storeAfter (srv : Server) (log : List LogEntry) : Store := replay (Store.exec srv) Store.new log

theorem arrivals_turn (srv : Server) (events : List Event) :
    arrivals (events.map (Event.turn srv)) = (requests events).map (handle srv) := by
  induction events with
  | nil => rfl
  | cons e events ih =>
    cases e with
    | request r =>
      show handle srv r :: arrivals (events.map (Event.turn srv)) = _
      rw [ih]
      rfl
    | step i e => exact ih

/-- A panel with one token. -/
def tinyServer : Server := ⟨"admin", id, fun _ => "0001-01-01T00:00:00Z", fun _ => none, id, []⟩

def tinyEnv : Env := ⟨.stored _, 1, "r1"⟩

/-- The admin registers an agent with a secret. -/
def registerRequest (secret : String) : Incoming :=
  ⟨⟨[(bytes "Authorization", bytes "Bearer admin")],
    bytes "\x7b\"id\":\"edge\",\"secret\":\"" ++ bytes secret ++ bytes "\"\x7d"⟩,
    "POST", ["api", "v1", "admin", "agents"]⟩

/-- The agent asks for its topology. -/
def topologyRequest (secret : String) : Incoming :=
  ⟨⟨[(bytes "Authorization", bytes "Bearer " ++ bytes secret)], []⟩, "GET", ["api", "v2", "agent", "topology"]⟩

def tinyEvents (secret : String) : List Event :=
  [.request (registerRequest secret), .step 0 tinyEnv, .request (topologyRequest secret), .step 1 tinyEnv,
   .step 1 tinyEnv]

/-! ### The history of a run -/

/-- The operation that a call is, if it is one that may change the store. -/
def opOf (srv : Server) (e : Env) : StoreCall → Option Op
  | .putAgent agent => some (.putAgent e.now agent)
  | .putTopology agentID topology => some (.putTopology e.now e.revision (srv.etag e.revision) agentID topology)
  | .applyTraffic agentID payload => some (.applyTraffic e.now agentID payload)
  | _ => none

def ops (srv : Server) (log : List LogEntry) : List Op := log.filterMap fun x => opOf srv x.env x.call

/-- A call is the operation it stands for, or leaves the store alone. -/
theorem exec_store (srv : Server) (e : Env) (h : History) (c : StoreCall) :
    (h.store.exec srv e c).1 = ((opOf srv e c).toList.foldl History.step h).store := by
  cases c with
  | agentBySecret secret => rfl
  | topology agentID => rfl
  | agents => rfl
  | putAgent agent => rfl
  | putTopology agentID topology => rfl
  | applyTraffic agentID payload => rfl

/-- **The store of a run is the one of a history.** -/
theorem storeAfter_eq_run (srv : Server) (log : List LogEntry) : storeAfter srv log = (run (ops srv log)).store := by
  induction log using List.reverseRecOn with
  | nil => rfl
  | append_singleton log x ih =>
    unfold storeAfter at ih ⊢
    rw [replay_concat, ih, exec_store]
    unfold run ops
    rw [List.filterMap_append, List.foldl_append]
    cases h : opOf srv x.env x.call with
    | none => simp [h]
    | some op => simp [h]

end MiniSbAgent.Panelserver
