import MiniSbAgent.Go.Json
import MiniSbAgent.Panelapi.MinHTTP
import MiniSbAgent.Panelserver.Store

/-!
# The client of the control plane

`PushTraffic` checks a batch, writes it as JSON, and posts it with the batch id once more as the `Idempotency-Key`
header.  An id is any string, which need not be UTF-8.

* `trafficRequest` — the checks, and the headers and the body that are sent;
* `readsAs_batch` — the body is read back as the batch, its id as text.
-/

namespace MiniSbAgent.Panelapi

open MiniSbAgent.Go MiniSbAgent.Go.Json
open MiniSbAgent.Panelserver (TrafficItem)

structure ControlPlaneClient where
  baseURL : String
  token : String
  agentID : String
deriving Repr, DecidableEq

/-- A batch as the client holds it. -/
structure TrafficBatch where
  batchID : Bytes
  items : List TrafficItem
deriving Repr, DecidableEq

inductive PushError
  /-- `traffic batch_id is empty` -/
  | emptyBatchID
  /-- `traffic item for user %d requires node_id and node_type` -/
  | itemIdentity (userID : ℤ)
  /-- `control plane base url is empty` -/
  | emptyBaseURL
  /-- of `HTTP.do` -/
  | http (e : MinHTTPError)
  /-- `control plane traffic status %d` -/
  | status (code : ℤ)
deriving Repr, DecidableEq

/-! ### The body -/

/-- `json.Marshal` of an item. -/
def itemText (item : TrafficItem) : Bytes :=
  listText 123 125
    [memberText "node_id" (stringText (bytes item.nodeID)),
     memberText "node_type" (stringText (bytes item.nodeType)),
     memberText "user_id" (bytes (itoa item.userID)),
     memberText "upload" (bytes (itoa item.upload)),
     memberText "download" (bytes (itoa item.download))]

/-- `json.Marshal` of a batch. -/
def batchText (b : TrafficBatch) : Bytes :=
  listText 123 125
    [memberText "batch_id" (stringText b.batchID), memberText "items" (listText 91 93 (b.items.map itemText))]

/-! ### The request -/

namespace ControlPlaneClient

/-- The headers of every request, added to those in `extra`. -/
def addHeaders (c : ControlPlaneClient) (extra : GoMap String Bytes) : GoMap String Bytes :=
  let headers := if c.token ≠ "" then extra.insert "Authorization" (bytes ("Bearer " ++ c.token)) else extra
  if c.agentID ≠ "" then headers.insert "X-Agent-ID" (bytes c.agentID) else headers

def requestHeaders (c : ControlPlaneClient) (extra : GoMap String Bytes) : Except PushError (GoMap String Bytes) :=
  if c.baseURL = "" then .error .emptyBaseURL else .ok (c.addHeaders extra)

/-- The first half of `PushTraffic`: what is sent, `none` when there is nothing to send. -/
def trafficRequest (c : ControlPlaneClient) (b : TrafficBatch) :
    Except PushError (Option (GoMap String Bytes × Bytes)) :=
  if trimSpace (text b.batchID) = "" then .error .emptyBatchID
  else if b.items = [] then .ok none
  else
    match b.items.find? fun item => decide (trimSpace item.nodeID = "" ∨ trimSpace item.nodeType = "") with
    | some item => .error (.itemIdentity item.userID)
    | none =>
      match c.requestHeaders
        (writes ∅ [("Content-Type", bytes "application/json"), ("Idempotency-Key", b.batchID)]) with
      | .error e => .error e
      | .ok headers => .ok (some (headers, batchText b))

def pushTraffic (parse : String → Option ParsedURL) (net : ParsedURL → Bytes → Option Bytes)
    (o : RangeOrder ((_ : String) × Bytes)) (c : ControlPlaneClient) (b : TrafficBatch) : Except PushError Unit :=
  match c.trafficRequest b with
  | .error e => .error e
  | .ok none => .ok ()
  | .ok (some (headers, body)) =>
    match minHTTPDo parse net o "POST" (c.baseURL ++ "/api/v2/agent/traffic") headers body with
    | .error e => .error (.http e)
    | .ok resp => if resp.statusCode.tdiv 100 ≠ 2 then .error (.status resp.statusCode) else .ok ()

end ControlPlaneClient

/-! ### The body is read back -/

/-- The JSON value of an item. -/
def itemValue (item : TrafficItem) : Value :=
  .obj [("node_id", .str item.nodeID), ("node_type", .str item.nodeType),
    ("user_id", .num (bytes (itoa item.userID))), ("upload", .num (bytes (itoa item.upload))),
    ("download", .num (bytes (itoa item.download)))]

/-- The JSON value of a batch. -/
def batchValue (b : TrafficBatch) : Value :=
  .obj [("batch_id", .str (text b.batchID)), ("items", .arr (b.items.map itemValue))]

theorem readsAs_item (depth : ℕ) (item : TrafficItem) :
    ReadsAs (parseValue (depth + 1)) (itemText item) (itemValue item) := by
  have hstr : ∀ s, ReadsAs (parseValue depth) (stringText (bytes s)) (.str s) := fun s => by
    have := readsAs_string depth (bytes s)
    rwa [text_bytes] at this
  refine readsAs_record
    [("node_id", stringText (bytes item.nodeID), .str item.nodeID),
     ("node_type", stringText (bytes item.nodeType), .str item.nodeType),
     ("user_id", bytes (itoa item.userID), .num (bytes (itoa item.userID))),
     ("upload", bytes (itoa item.upload), .num (bytes (itoa item.upload))),
     ("download", bytes (itoa item.download), .num (bytes (itoa item.download)))] ?_
  intro f hf
  simp only [List.mem_cons, List.not_mem_nil, or_false] at hf
  rcases hf with rfl | rfl | rfl | rfl | rfl
  · exact hstr _
  · exact hstr _
  · exact readsAs_int depth _
  · exact readsAs_int depth _
  · exact readsAs_int depth _

/-- **The body is read back as the batch.** Bytes of the id that are not UTF-8 come back as replacement characters. -/
theorem readsAs_batch (depth : ℕ) (b : TrafficBatch) :
    ReadsAs (parseValue (depth + 3)) (batchText b) (batchValue b) := by
  refine readsAs_record
    [("batch_id", stringText b.batchID, .str (text b.batchID)),
     ("items", listText 91 93 (b.items.map itemText), .arr (b.items.map itemValue))] ?_
  intro f hf
  simp only [List.mem_cons, List.not_mem_nil, or_false] at hf
  rcases hf with rfl | rfl
  · exact readsAs_string _ _
  · exact readsAs_list b.items fun item _ => readsAs_item depth item

/-! ### What is sent -/

section Sent

variable {c : ControlPlaneClient} {b : TrafficBatch} {headers : GoMap String Bytes} {body : Bytes}

/-- The header map that goes out with a batch. -/
def trafficHeaders (c : ControlPlaneClient) (b : TrafficBatch) : GoMap String Bytes :=
  c.addHeaders (writes ∅ [("Content-Type", bytes "application/json"), ("Idempotency-Key", b.batchID)])

/-- A batch is sent exactly when it passes the checks. -/
theorem trafficRequest_sent_iff :
    c.trafficRequest b = .ok (some (headers, body)) ↔
      trimSpace (text b.batchID) ≠ "" ∧ b.items ≠ [] ∧
        (∀ item ∈ b.items, trimSpace item.nodeID ≠ "" ∧ trimSpace item.nodeType ≠ "") ∧ c.baseURL ≠ "" ∧
        headers = trafficHeaders c b ∧ body = batchText b := by
  have hfind : (b.items.find? fun item => decide (trimSpace item.nodeID = "" ∨ trimSpace item.nodeType = "")) = none ↔
      ∀ item ∈ b.items, trimSpace item.nodeID ≠ "" ∧ trimSpace item.nodeType ≠ "" := by
    simp [List.find?_eq_none]
  have hheaders : ∀ hurl : c.baseURL ≠ "", c.requestHeaders
      (writes ∅ [("Content-Type", bytes "application/json"), ("Idempotency-Key", b.batchID)]) =
        .ok (trafficHeaders c b) := fun hurl => if_neg hurl
  unfold ControlPlaneClient.trafficRequest
  by_cases hid : trimSpace (text b.batchID) = ""
  · simp [hid]
  by_cases hitems : b.items = []
  · simp [hid, hitems]
  rw [if_neg hid, if_neg hitems, ← hfind]
  rcases b.items.find? _ with _ | item
  · by_cases hurl : c.baseURL = ""
    · simp [hurl, ControlPlaneClient.requestHeaders]
    · simp only [hheaders hurl]
      simp [hid, hitems, hurl, eq_comm]
  · simp

theorem lookup_addHeaders (c : ControlPlaneClient) (extra : GoMap String Bytes) (key : String) :
    (c.addHeaders extra).lookup key =
      if key = "X-Agent-ID" ∧ c.agentID ≠ "" then some (bytes c.agentID)
      else if key = "Authorization" ∧ c.token ≠ "" then some (bytes ("Bearer " ++ c.token))
      else extra.lookup key := by
  unfold ControlPlaneClient.addHeaders
  by_cases hagent : c.agentID = "" <;> by_cases htoken : c.token = "" <;> simp [hagent, htoken, lookup_insert_of]

/-- What each header of the request holds. -/
theorem lookup_trafficHeaders (c : ControlPlaneClient) (b : TrafficBatch) (key : String) :
    (trafficHeaders c b).lookup key =
      if key = "X-Agent-ID" ∧ c.agentID ≠ "" then some (bytes c.agentID)
      else if key = "Authorization" ∧ c.token ≠ "" then some (bytes ("Bearer " ++ c.token))
      else if key = "Idempotency-Key" then some b.batchID
      else if key = "Content-Type" then some (bytes "application/json")
      else none := by
  rw [trafficHeaders, lookup_addHeaders]
  simp [lookup_insert_of, -AList.insert_empty]

end Sent

end MiniSbAgent.Panelapi
