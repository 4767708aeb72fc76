import MiniSbAgent.Go.NetHTTP
import MiniSbAgent.Panelapi.ControlPlane
import MiniSbAgent.Panelserver.Server

/-!
# A batch on its way to the panel

The id of a batch travels twice: as a header line and as a string of the JSON body.  `net/http` drops the blanks around
a header value and refuses control characters, the JSON encoder replaces what is not UTF-8, and the panel reads at most
`1 << 20` bytes of a body; the client checks none of this.

* `agentTraffic` — the handler, on a request as `net/http` hands it over;
* `decodeBody_batch` — a batch is decoded as it was, unless it is too long;
* `readRequest_traffic` — what the server reads of a request that the client writes;
* `Deliverable` — the batches that get through;
* `traffic_agreed_iff` — these are applied as they are, or known already, and the others are not.
-/

namespace MiniSbAgent.Panelserver

open MiniSbAgent.Go MiniSbAgent.Panelapi

/-! ### The handler -/

/-- The limit of `MaxBytesReader`. -/
def maxTrafficBody : ℕ := 2 ^ 20

def itemFields : List String := ["node_id", "node_type", "user_id", "upload", "download"]

def setItemField (item : TrafficItem) (m : String × Json.Value) : Option TrafficItem :=
  let name := Json.fieldName itemFields m.1
  if name = some "node_id" then (Json.decodeString item.nodeID m.2).map fun v => { item with nodeID := v }
  else if name = some "node_type" then (Json.decodeString item.nodeType m.2).map fun v => { item with nodeType := v }
  else if name = some "user_id" then (Json.decodeInt item.userID m.2).map fun v => { item with userID := v }
  else if name = some "upload" then (Json.decodeInt item.upload m.2).map fun v => { item with upload := v }
  else if name = some "download" then (Json.decodeInt item.download m.2).map fun v => { item with download := v }
  else some item

def emptyItem : TrafficItem := ⟨"", "", 0, 0, 0⟩

/-- A payload while it is decoded: items that come again are decoded into those of before. -/
structure PayloadSlots where
  batchID : String
  items : Json.Slice TrafficItem

def setPayloadField (p : PayloadSlots) (m : String × Json.Value) : Option PayloadSlots :=
  let name := Json.fieldName ["batch_id", "items"] m.1
  if name = some "batch_id" then (Json.decodeString p.batchID m.2).map fun v => { p with batchID := v }
  else if name = some "items" then
    (Json.decodeSliceInto (Json.decodeStruct setItemField) emptyItem p.items m.2).map fun v => { p with items := v }
  else some p

def decodePayload (v : Json.Value) : Option TrafficPushRequest :=
  (Json.decodeStruct setPayloadField ⟨"", ⟨[], []⟩⟩ v).map fun p => ⟨p.batchID, p.items.elems⟩

/-- The decoder on what `MaxBytesReader` lets through. -/
def decodeBody (body : Bytes) : Option TrafficPushRequest :=
  (Json.parse (body.take maxTrafficBody)).bind decodePayload

def agentTraffic (o : RangeOrder ((_ : String) × Agent)) (s : Store) (now : ℤ) (r : NetHTTP.Request) :
    Store × Reply :=
  match requireAgent o s (NetHTTP.get r.header "Authorization") with
  | .error reply => (s, reply)
  | .ok agent =>
    match decodeBody r.body with
    | none => (s, .error 400 "invalid JSON payload")
    | some payload =>
      let key := NetHTTP.get r.header "Idempotency-Key"
      if key ≠ [] ∧ payload.batchID ≠ "" ∧ key ≠ bytes payload.batchID then
        (s, .error 400 "idempotency key does not match batch_id")
      else
        match s.applyTraffic now agent.id payload with
        | (s', .error e) => (s', .storeError 400 e)
        | (s', .ok applied) => (s', .applied 202 applied)

/-! ### The body -/

/-- The amounts and the user of an item are an `int64` and an `int`. -/
structure InRange (item : TrafficItem) : Prop where
  userID : -maxInt64 - 1 ≤ item.userID ∧ item.userID ≤ maxInt64
  upload : -maxInt64 - 1 ≤ item.upload ∧ item.upload ≤ maxInt64
  download : -maxInt64 - 1 ≤ item.download ∧ item.download ≤ maxInt64

theorem decodeInt_itoa {n : ℤ} (h : -maxInt64 - 1 ≤ n ∧ n ≤ maxInt64) (old : ℤ) :
    Json.decodeInt old (.num (bytes (itoa n))) = some n := by
  rw [Json.decodeInt, text_bytes]
  exact atoi_itoa_int h.1 h.2

theorem decode_itemValue {item : TrafficItem} (h : InRange item) :
    Json.decodeStruct setItemField emptyItem (itemValue item) = some item := by
  have hname : ∀ key ∈ itemFields, Json.fieldName itemFields key = some key := fun key hkey => if_pos hkey
  have h1 := hname "node_id" (by decide)
  have h2 := hname "node_type" (by decide)
  have h3 := hname "user_id" (by decide)
  have h4 := hname "upload" (by decide)
  have h5 := hname "download" (by decide)
  simp [itemValue, Json.decodeStruct, setItemField, h1, h2, h3, h4, h5, Json.decodeString,
    decodeInt_itoa h.userID, decodeInt_itoa h.upload, decodeInt_itoa h.download]

theorem decodePayload_batchValue {b : TrafficBatch} (h : ∀ item ∈ b.items, InRange item) :
    decodePayload (batchValue b) = some ⟨text b.batchID, b.items⟩ := by
  have h1 : Json.fieldName ["batch_id", "items"] "batch_id" = some "batch_id" := if_pos (by decide)
  have h2 : Json.fieldName ["batch_id", "items"] "items" = some "items" := if_pos (by decide)
  have hitems := Json.decodeSliceInto_map fun item hitem => decode_itemValue (h item hitem)
  simp [decodePayload, batchValue, Json.decodeStruct, setPayloadField, h1, h2, Json.decodeString, hitems]

/-- The decoder reads the whole body back. -/
theorem parseValue_batchText (b : TrafficBatch) :
    Json.parseValue Json.maxNestingDepth (batchText b) = some (batchValue b, []) := by
  have hread := (readsAs_batch 9997 b).reads [] Json.ends_nil
  rwa [List.append_nil] at hread

/-- **A batch is decoded as it was written**, its id as text, when the body is within the limit; a longer one is cut
inside the object and does not parse. -/
theorem decodeBody_batch {b : TrafficBatch} (h : ∀ item ∈ b.items, InRange item) :
    decodeBody (batchText b) =
      if (batchText b).length ≤ maxTrafficBody then some ⟨text b.batchID, b.items⟩ else none := by
  have hwhole := parseValue_batchText b
  obtain ⟨rest, hrest⟩ : ∃ rest, batchText b = 123 :: rest := ⟨_, rfl⟩
  -- the cut body still starts with the bracket of the object
  obtain ⟨more, hmore⟩ : ∃ more, (batchText b).take maxTrafficBody = 123 :: more := by
    obtain ⟨k, hk⟩ := Nat.exists_eq_add_one_of_ne_zero (show maxTrafficBody ≠ 0 by decide)
    rw [hrest, hk, List.take_succ_cons]
    exact ⟨_, rfl⟩
  have hskip : Json.skipSpace ((batchText b).take maxTrafficBody) = (batchText b).take maxTrafficBody := by
    rw [hmore]
    exact Json.skipSpace_cons (by decide) more
  unfold decodeBody Json.parse
  rw [hskip]
  by_cases hle : (batchText b).length ≤ maxTrafficBody
  · rw [if_pos hle, List.take_of_length_le hle, hwhole]
    exact decodePayload_batchValue h
  · rw [if_neg hle]
    rcases hparse : Json.parseValue Json.maxNestingDepth ((batchText b).take maxTrafficBody) with _ | ⟨v, r⟩
    · rfl
    · exfalso
      rw [← List.take_append_drop maxTrafficBody (batchText b)] at hwhole
      have hnil := Json.parseValue_cut (by rw [hmore]; rfl) hwhole hparse
      exact hle (List.drop_eq_nil_iff.1 hnil)

-- items that come a second time fill in what those of the first time have left open
example :
    decodeBody (bytes "\x7b\"batch_id\":\"b1\",\"items\":[\x7b\"node_id\":\"21\",\"upload\":9\x7d]," ++
        bytes "\"items\":[\x7b\"user_id\":7\x7d]\x7d") =
      some ⟨"b1", [⟨"21", "", 7, 9, 0⟩]⟩ := by
  decide +kernel

/-! ### The head -/

/-- The fields that are written, with the length of the body when there is one. -/
def requestFields (o : RangeOrder ((_ : String) × Bytes)) (u : ParsedURL) (headers : GoMap String Bytes)
    (length : Option ℕ) : List (Bytes × Bytes) :=
  (bytes "Host", bytes (hostHeader u)) :: ((o.visit headers.entries).map fun e => (bytes e.1, e.2)) ++
    (length.toList.map (fun n : ℕ => (bytes "Content-Length", bytes (itoa n))) ++ [(bytes "Connection", bytes "close")])

theorem requestHead_eq (o : RangeOrder ((_ : String) × Bytes)) (method : String) (u : ParsedURL)
    (headers : GoMap String Bytes) (body : Bytes) :
    requestHead o method u headers body =
      NetHTTP.sentHead (bytes (method ++ " " ++ u.requestURI ++ " HTTP/1.1"))
        (requestFields o u headers (if body = [] then none else some body.length)) := by
  have hcrlf : bytes "\r\n" = [13, 10] := by decide
  have hcolon : bytes ": " = [58, 32] := by decide
  have hfirst : bytes (method ++ " " ++ u.requestURI ++ " HTTP/1.1\r\n") =
      bytes (method ++ " " ++ u.requestURI ++ " HTTP/1.1") ++ [13, 10] := by
    rw [← hcrlf, ← bytes_append]
    congr 1
    simp only [String.append_assoc]
    rfl
  unfold requestHead
  rw [hfirst]
  by_cases hbody : body = [] <;>
    simp [NetHTTP.sentHead, NetHTTP.sentLines, NetHTTP.fieldLine, requestFields, headerLine, hcrlf, hcolon, hbody,
      List.flatMap_map]

/-- The order of the headers does not change how long the head is. -/
theorem length_requestHead (o : RangeOrder ((_ : String) × Bytes)) (method : String) (u : ParsedURL)
    (headers : GoMap String Bytes) (body : Bytes) :
    (requestHead o method u headers body).length = (requestHead (.stored _) method u headers body).length := by
  have hperm := (o.perm headers.entries).flatMap_right fun e => headerLine e.1 e.2
  have hlen := hperm.length_eq
  unfold requestHead
  simp only [List.length_append, hlen]
  rfl

/-- The URL of a panel: its request line is one line, and its host is one that `net/http` lets in. -/
structure PanelURL (u : ParsedURL) : Prop where
  line : 10 ∉ bytes u.requestURI
  host : (bytes (hostHeader u)).all NetHTTP.isHostByte = true

/-- Nothing that the client puts into a header goes on on a further line. -/
structure LineFree (c : ControlPlaneClient) (b : TrafficBatch) : Prop where
  batchID : 10 ∉ b.batchID
  token : 10 ∉ bytes c.token
  agentID : 10 ∉ bytes c.agentID

/-- The headers of the client. -/
def headerNames : List String := ["Content-Type", "Idempotency-Key", "Authorization", "X-Agent-ID"]

section Head

variable (o : RangeOrder ((_ : String) × Bytes)) {u : ParsedURL} {c : ControlPlaneClient} {b : TrafficBatch} (n : ℕ)

theorem lookup_headers_cases {key : String} {v : Bytes} (h : (trafficHeaders c b).lookup key = some v) :
    key ∈ headerNames ∧ (v = bytes c.agentID ∨ v = bytes ("Bearer " ++ c.token) ∨ v = b.batchID ∨
      v = bytes "application/json") := by
  rw [lookup_trafficHeaders] at h
  split_ifs at h with h1 h2 h3 h4
  · cases h
    exact ⟨by rw [h1.1]; decide, .inl rfl⟩
  · cases h
    exact ⟨by rw [h2.1]; decide, .inr (.inl rfl)⟩
  · cases h
    exact ⟨by rw [h3]; decide, .inr (.inr (.inl rfl))⟩
  · cases h
    exact ⟨by rw [h4]; decide, .inr (.inr (.inr rfl))⟩

theorem mem_requestFields {f : Bytes × Bytes} (h : f ∈ requestFields o u (trafficHeaders c b) (some n)) :
    f = (bytes "Host", bytes (hostHeader u)) ∨
      (∃ key v, (trafficHeaders c b).lookup key = some v ∧ f = (bytes key, v)) ∨
      f = (bytes "Content-Length", bytes (itoa n)) ∨ f = (bytes "Connection", bytes "close") := by
  simp only [requestFields, Option.toList_some, List.map_cons, List.map_nil, List.cons_append, List.mem_cons,
    List.mem_append, List.mem_map, List.not_mem_nil, or_false, List.nil_append] at h
  rcases h with h | ⟨⟨key, v⟩, he, rfl⟩ | h
  · exact .inl h
  · exact .inr (.inl ⟨key, v, (mem_range_iff o _).1 he, rfl⟩)
  · exact .inr (.inr h)

theorem mem_requestFields_of_lookup {key : String} {v : Bytes} (h : (trafficHeaders c b).lookup key = some v) :
    (bytes key, v) ∈ requestFields o u (trafficHeaders c b) (some n) := by
  have hmem := (mem_range_iff o _).2 h
  simp only [requestFields, List.cons_append, List.mem_cons, List.mem_append, List.mem_map]
  exact .inr (.inl ⟨_, hmem, rfl⟩)

/-- Each header arrives once, under its own name. -/
theorem values_requestFields {name : String}
    (hname : name ∈ headerNames ++ ["Host", "Content-Length", "Transfer-Encoding"]) :
    NetHTTP.values (NetHTTP.delivered (requestFields o u (trafficHeaders c b) (some n))) name =
      (if "Host" = name then [NetHTTP.trimBlank (bytes (hostHeader u))] else []) ++
        (((trafficHeaders c b).lookup name).toList.map NetHTTP.trimBlank ++
          if "Content-Length" = name then [NetHTTP.trimBlank (bytes (itoa n))] else []) := by
  have hlower : ∀ name ∈ headerNames ++ ["Host", "Content-Length", "Transfer-Encoding"],
      ∀ key ∈ headerNames ++ ["Host", "Content-Length", "Connection"],
        (NetHTTP.lower (bytes key) == NetHTTP.lower (bytes name)) = (key == name) := by decide +kernel
  have hconn : ∀ name ∈ headerNames ++ ["Host", "Content-Length", "Transfer-Encoding"],
      ("Connection" == name) = false := by decide
  have hkey := hlower name hname
  have hmiddle : (o.visit (trafficHeaders c b).entries).filter
      (fun e => NetHTTP.lower (bytes e.1) == NetHTTP.lower (bytes name)) =
      ((trafficHeaders c b).lookup name).toList.map fun v => ⟨name, v⟩ := by
    rw [← filter_range o]
    refine List.filter_congr fun e he => hkey e.1 (List.mem_append_left _ ?_)
    exact (lookup_headers_cases ((mem_range_iff o _).1 he)).1
  simp only [NetHTTP.values, NetHTTP.delivered, requestFields, Option.toList_some, List.map_cons, List.map_nil,
    List.nil_append, List.filter_map, List.map_map, Function.comp_def,
    List.cons_append, List.filter_cons, List.filter_append, List.filter_nil, hkey "Host" (by decide),
    hkey "Content-Length" (by decide), hkey "Connection" (by decide), hconn name hname, hmiddle, beq_iff_eq,
    Bool.false_eq_true, if_false]
  split_ifs <;> simp

theorem not_blank_of_host {x : UInt8} (h : NetHTTP.isHostByte x = true) :
    NetHTTP.isBlank x = false ∧ NetHTTP.isValueByte x = true ∧ x ≠ 10 := by
  have hne : ∀ y, NetHTTP.isHostByte y = false → x ≠ y := fun y hy he => by
    rw [he, hy] at h
    cases h
  have hlow : 32 ≤ x.toNat ∧ x.toNat ≠ 127 := by
    have hrange : ∀ k < 32, NetHTTP.isHostByte (UInt8.ofNat k) = false := by decide
    refine ⟨?_, fun h127 => hne 127 (by decide) (UInt8.toNat_inj.1 h127)⟩
    by_contra hlt
    have hfalse := hrange x.toNat (by omega)
    rw [UInt8.ofNat_toNat, h] at hfalse
    cases hfalse
  refine ⟨by simp [NetHTTP.isBlank, hne 32 (by decide), hne 9 (by decide)], ?_, hne 10 (by decide)⟩
  simp [NetHTTP.isValueByte, hlow]

theorem digit_of_mem_itoa {x : UInt8} (h : x ∈ bytes (itoa n)) : NetHTTP.isHostByte x = true := by
  have hitoa : itoa n = String.ofList (Nat.toDigits 10 n) := by
    rw [← toList_itoa_ofNat, String.ofList_toList]
  obtain ⟨d, ds, hbytes, hd, hds, -⟩ := Json.bytes_digits n
  rw [hitoa, hbytes] at h
  have hx : Json.isDigitByte x = true := by
    rcases List.mem_cons.1 h with rfl | h
    · exact hd
    · exact hds x h
  have hrange := of_decide_eq_true hx
  have halnum : NetHTTP.isAlnum x = true := decide_eq_true (.inl hrange)
  simp [NetHTTP.isHostByte, halnum]

theorem host_bytes (hu : PanelURL u) : ∀ x ∈ bytes (hostHeader u), NetHTTP.isHostByte x = true :=
  List.all_eq_true.1 hu.host

theorem oneLine_requestFields (hu : PanelURL u) (hl : LineFree c b) :
    ∀ f ∈ requestFields o u (trafficHeaders c b) (some n), NetHTTP.OneLine f := by
  have htoken : ∀ key ∈ headerNames ++ ["Host", "Content-Length", "Connection"],
      bytes key ≠ [] ∧ (bytes key).all NetHTTP.isTokenByte = true := by decide +kernel
  have hline : ∀ key ∈ headerNames ++ ["Host", "Content-Length", "Connection"], ∀ v : Bytes, 10 ∉ v →
      NetHTTP.OneLine (bytes key, v) := fun key hkey v hv =>
    ⟨(htoken key hkey).1, List.all_eq_true.1 (htoken key hkey).2, hv⟩
  intro f hf
  rcases mem_requestFields o n hf with rfl | ⟨key, v, hv, rfl⟩ | rfl | rfl
  · exact hline _ (by decide) _ fun h10 => (not_blank_of_host (host_bytes hu 10 h10)).2.2 rfl
  · obtain ⟨hkey, hcases⟩ := lookup_headers_cases hv
    refine hline _ (List.mem_append_left _ hkey) _ ?_
    rcases hcases with rfl | rfl | rfl | rfl
    · exact hl.agentID
    · rw [bytes_append, List.mem_append, not_or]
      exact ⟨by decide, hl.token⟩
    · exact hl.batchID
    · decide
  · exact hline _ (by decide) _ fun h10 => (not_blank_of_host (digit_of_mem_itoa n h10)).2.2 rfl
  · exact hline _ (by decide) _ (by decide)

theorem valuesOk_requestFields (hu : PanelURL u) :
    NetHTTP.ValuesOk (requestFields o u (trafficHeaders c b) (some n)) ↔
      b.batchID.all NetHTTP.isValueByte = true ∧ (bytes c.token).all NetHTTP.isValueByte = true ∧
        (bytes c.agentID).all NetHTTP.isValueByte = true := by
  have hbearer : (bytes ("Bearer " ++ c.token)).all NetHTTP.isValueByte = (bytes c.token).all NetHTTP.isValueByte := by
    rw [bytes_append, List.all_append, show (bytes "Bearer ").all NetHTTP.isValueByte = true by decide, Bool.true_and]
  constructor
  · intro hok
    have hfield : ∀ key v, (trafficHeaders c b).lookup key = some v → v.all NetHTTP.isValueByte = true :=
      fun key v hv => hok _ (mem_requestFields_of_lookup o n hv)
    refine ⟨hfield "Idempotency-Key" _ (by simp [lookup_trafficHeaders]), ?_, ?_⟩
    · by_cases htoken : c.token = ""
      · rw [htoken]
        decide
      · rw [← hbearer]
        exact hfield "Authorization" _ (by simp [lookup_trafficHeaders, htoken])
    · by_cases hagent : c.agentID = ""
      · rw [hagent]
        decide
      · exact hfield "X-Agent-ID" _ (by simp [lookup_trafficHeaders, hagent])
  · rintro ⟨hid, htoken, hagent⟩ f hf
    rcases mem_requestFields o n hf with rfl | ⟨key, v, hv, rfl⟩ | rfl | rfl
    · exact List.all_eq_true.2 fun x hx => (not_blank_of_host (host_bytes hu x hx)).2.1
    · rcases (lookup_headers_cases hv).2 with rfl | rfl | rfl | rfl
      · exact hagent
      · rw [hbearer]
        exact htoken
      · exact hid
      · exact show (bytes "application/json").all NetHTTP.isValueByte = true by decide
    · exact List.all_eq_true.2 fun x hx => (not_blank_of_host (digit_of_mem_itoa n hx)).2.1
    · decide

theorem hostOk_requestFields (hu : PanelURL u) :
    NetHTTP.hostOk (NetHTTP.delivered (requestFields o u (trafficHeaders c b) (some n))) = true := by
  have hhost : NetHTTP.trimBlank (bytes (hostHeader u)) = bytes (hostHeader u) :=
    NetHTTP.trimBlank_of_not_blank fun x hx => (not_blank_of_host (host_bytes hu x hx)).1
  have hvalues := values_requestFields o n (u := u) (c := c) (b := b) (show "Host" ∈ _ by decide)
  simp only [lookup_trafficHeaders, hhost] at hvalues
  unfold NetHTTP.hostOk
  rw [hvalues]
  exact hu.host

theorem contentLength_requestFields :
    NetHTTP.contentLength (NetHTTP.delivered (requestFields o u (trafficHeaders c b) (some n))) =
      if (n : ℤ) ≤ maxInt64 then some n else none := by
  have hlen : NetHTTP.trimBlank (bytes (itoa n)) = bytes (itoa n) :=
    NetHTTP.trimBlank_of_not_blank fun x hx => (not_blank_of_host (digit_of_mem_itoa n hx)).1
  have hvalues : NetHTTP.values (NetHTTP.delivered (requestFields o u (trafficHeaders c b) (some n))) "Content-Length" =
      [bytes (itoa n)] := by
    rw [values_requestFields o n (by decide), hlen, lookup_trafficHeaders]
    simp
  unfold NetHTTP.contentLength
  simp only [hvalues, List.all_nil, text_bytes, toList_itoa_ofNat, digitsValue_toDigits, Option.bind_some,
    Bool.true_eq_false, if_false]

end Head

/-- **What the server reads of a batch that is sent.** -/
theorem readRequest_traffic (o : RangeOrder ((_ : String) × Bytes)) {u : ParsedURL} {c : ControlPlaneClient}
    {b : TrafficBatch} (hu : PanelURL u) (hl : LineFree c b) (maxHead : ℕ) {r : NetHTTP.Request} :
    NetHTTP.readRequest maxHead (requestHead o "POST" u (trafficHeaders c b) (batchText b) ++ batchText b) = some r ↔
      (requestHead (.stored _) "POST" u (trafficHeaders c b) (batchText b)).length ≤ maxHead ∧
      (b.batchID.all NetHTTP.isValueByte = true ∧ (bytes c.token).all NetHTTP.isValueByte = true ∧
        (bytes c.agentID).all NetHTTP.isValueByte = true) ∧
      ((batchText b).length : ℤ) ≤ maxInt64 ∧
      r = ⟨NetHTTP.delivered (requestFields o u (trafficHeaders c b) (some (batchText b).length)), batchText b⟩ := by
  have hbody : batchText b ≠ [] := by
    intro hnil
    cases hnil
  have hfirst : bytes ("POST" ++ " " ++ u.requestURI ++ " HTTP/1.1") ≠ [] ∧
      10 ∉ bytes ("POST" ++ " " ++ u.requestURI ++ " HTTP/1.1") := by
    have hpost : bytes "POST " = [80, 79, 83, 84, 32] := by decide
    have hversion : (10 : UInt8) ∉ bytes " HTTP/1.1" := by decide
    simp [hpost, hversion, hu.line]
  have hte : NetHTTP.values (NetHTTP.delivered (requestFields o u (trafficHeaders c b) (some (batchText b).length)))
      "Transfer-Encoding" = [] := by
    rw [values_requestFields o _ (by decide), lookup_trafficHeaders]
    simp
  rw [← length_requestHead o, requestHead_eq o _ u _ _, if_neg hbody,
    NetHTTP.readRequest_sent (oneLine_requestFields o _ hu hl) hfirst, valuesOk_requestFields o _ hu,
    contentLength_requestFields]
  simp only [hostOk_requestFields o _ hu, hte, true_and]
  by_cases hmax : ((batchText b).length : ℤ) ≤ maxInt64
  · simp [hmax]
  · simp [hmax]

/-! ### Agreement -/

/-- The panel takes the request for one of `a`, decodes the batch as it is, and applies it or knows it already. -/
def Agreed (maxHead : ℕ) (o : RangeOrder ((_ : String) × Agent)) (s : Store) (now : ℤ) (a : Agent) (b : TrafficBatch)
    (stream : Bytes) : Prop :=
  ∃ r payload applied, NetHTTP.readRequest maxHead stream = some r ∧
    requireAgent o s (NetHTTP.get r.header "Authorization") = .ok a ∧
    decodeBody r.body = some payload ∧ bytes payload.batchID = b.batchID ∧ payload.items = b.items ∧
    agentTraffic o s now r = ((s.applyTraffic now a.id payload).1, .applied 202 applied) ∧
    (s.applyTraffic now a.id payload).2 = .ok applied

/-- `net/http` hands over a request of `a` with the batch for its body, and no key or the id for its key. -/
def ReadBack (maxHead : ℕ) (o : RangeOrder ((_ : String) × Agent)) (s : Store) (a : Agent) (b : TrafficBatch)
    (stream : Bytes) : Prop :=
  ∃ r, NetHTTP.readRequest maxHead stream = some r ∧
    requireAgent o s (NetHTTP.get r.header "Authorization") = .ok a ∧
    decodeBody r.body = some ⟨text b.batchID, b.items⟩ ∧ bytes (text b.batchID) = b.batchID ∧
    (NetHTTP.get r.header "Idempotency-Key" = [] ∨ NetHTTP.get r.header "Idempotency-Key" = b.batchID)

/-- What a batch, the agent that sends it and the request have to be like. -/
structure Deliverable (maxHead : ℕ) (s : Store) (a : Agent) (c : ControlPlaneClient) (u : ParsedURL)
    (b : TrafficBatch) : Prop where
  /-- the id is UTF-8 -/
  utf8 : bytes (text b.batchID) = b.batchID
  /-- no blank around the id -/
  trimmed : NetHTTP.trimBlank b.batchID = b.batchID
  /-- no control character in a header -/
  batchID : b.batchID.all NetHTTP.isValueByte = true
  token : (bytes c.token).all NetHTTP.isValueByte = true
  agentID : (bytes c.agentID).all NetHTTP.isValueByte = true
  /-- the secret tells the agent from all others -/
  secret : trimSpace a.secret = a.secret
  unique : ∀ id' a', s.agents.lookup id' = some a' → a'.secret = a.secret → id' = a.id
  /-- the limits of the panel -/
  size : (batchText b).length ≤ maxTrafficBody
  head : (requestHead (.stored _) "POST" u (trafficHeaders c b) (batchText b)).length ≤ maxHead

theorem maxTrafficBody_le : (maxTrafficBody : ℤ) ≤ maxInt64 := by
  norm_num [maxTrafficBody, maxInt64]

theorem lf_not_mem {xs : Bytes} (h : xs.all NetHTTP.isValueByte = true) : 10 ∉ xs := by
  intro hmem
  have := List.all_eq_true.1 h 10 hmem
  revert this
  decide

section Handler

variable {o : RangeOrder ((_ : String) × Agent)} {s : Store} {now : ℤ} {r : NetHTTP.Request} {a : Agent}
  {payload : TrafficPushRequest} {applied : Bool}

/-- When the handler gets as far as the store, and what it answers then. -/
theorem agentTraffic_applied_iff (hauth : requireAgent o s (NetHTTP.get r.header "Authorization") = .ok a)
    (hpayload : decodeBody r.body = some payload) (hid : payload.batchID ≠ "")
    (happly : (s.applyTraffic now a.id payload).2 = .ok applied) :
    agentTraffic o s now r = ((s.applyTraffic now a.id payload).1, .applied 202 applied) ↔
      NetHTTP.get r.header "Idempotency-Key" = [] ∨
        NetHTTP.get r.header "Idempotency-Key" = bytes payload.batchID := by
  unfold agentTraffic
  simp only [hauth, hpayload]
  rcases hres : s.applyTraffic now a.id payload with ⟨s', res⟩
  rw [hres] at happly
  obtain rfl : res = .ok applied := happly
  by_cases hkey : NetHTTP.get r.header "Idempotency-Key" = [] ∨
      NetHTTP.get r.header "Idempotency-Key" = bytes payload.batchID
  · rw [if_neg (by tauto)]
    simp [hkey]
  · push Not at hkey
    rw [if_pos ⟨hkey.1, hid, hkey.2⟩]
    simp [hkey.1, hkey.2]

end Handler

/-- A batch that the store accepts is agreed on exactly when it is read back. -/
theorem agreed_iff_readBack {maxHead : ℕ} {o : RangeOrder ((_ : String) × Agent)} {s : Store} {now : ℤ} {a : Agent}
    {b : TrafficBatch} {stream : Bytes} (hid : text b.batchID ≠ "")
    (haccept : ∃ applied, (s.applyTraffic now a.id ⟨text b.batchID, b.items⟩).2 = .ok applied) :
    Agreed maxHead o s now a b stream ↔ ReadBack maxHead o s a b stream := by
  constructor
  · rintro ⟨r, ⟨batchID, items⟩, applied, hr, hauth, hpayload, hbatch, hitems, hreply, happly⟩
    have htext : batchID = text b.batchID := by rw [← hbatch, text_bytes]
    obtain rfl : items = b.items := hitems
    subst htext
    refine ⟨r, hr, hauth, hpayload, hbatch, ?_⟩
    have hkey := (agentTraffic_applied_iff hauth hpayload hid happly).1 hreply
    rwa [hbatch] at hkey
  · rintro ⟨r, hr, hauth, hpayload, hbatch, hkey⟩
    obtain ⟨applied, happly⟩ := haccept
    refine ⟨r, _, applied, hr, hauth, hpayload, hbatch, rfl, ?_, happly⟩
    refine (agentTraffic_applied_iff hauth hpayload hid happly).2 ?_
    rwa [hbatch]

theorem trimSpace_bearer {secret : String} (hne : secret ≠ "") (h : trimSpace secret = secret) :
    trimSpace ("Bearer " ++ secret) = "Bearer " ++ secret := by
  obtain ⟨-, hlast⟩ := drop_of_trimRunes_eq h
  have hlist : secret.toList ≠ [] := by simpa using hne
  have hfirst : ("Bearer " ++ secret).toList.dropWhile isSpace = ("Bearer " ++ secret).toList := by
    rw [String.toList_append]
    exact List.dropWhile_cons_of_neg (by decide)
  have hend : ("Bearer " ++ secret).toList.rdropWhile isSpace = ("Bearer " ++ secret).toList := by
    refine List.rdropWhile_eq_self_iff.2 fun hl => ?_
    simp only [String.toList_append, List.getLast_append_of_ne_nil _ hlist]
    exact List.rdropWhile_eq_self_iff.1 hlast hlist
  unfold trimSpace trimRunes
  rw [hfirst, hend, String.ofList_toList]

section Agreement

variable {maxHead : ℕ} {ops : List Op} {now : ℤ} {c : ControlPlaneClient} {u : ParsedURL} {a : Agent}
  {b : TrafficBatch}

/-- The header that the agent is known by, as it arrives. -/
theorem get_authorization (o : RangeOrder ((_ : String) × Bytes)) (n : ℕ) (h : c.token ≠ "") :
    NetHTTP.get (NetHTTP.delivered (requestFields o u (trafficHeaders c b) (some n))) "Authorization" =
      NetHTTP.trimBlank (bytes ("Bearer " ++ c.token)) := by
  unfold NetHTTP.get
  rw [values_requestFields o n (by decide), lookup_trafficHeaders]
  simp [h]

theorem get_idempotencyKey (o : RangeOrder ((_ : String) × Bytes)) (n : ℕ) :
    NetHTTP.get (NetHTTP.delivered (requestFields o u (trafficHeaders c b) (some n))) "Idempotency-Key" =
      NetHTTP.trimBlank b.batchID := by
  unfold NetHTTP.get
  rw [values_requestFields o n (by decide), lookup_trafficHeaders]
  simp

/-- A batch that can be delivered is read back. -/
theorem readBack_of_deliverable (ha : (run ops).store.agents.lookup a.id = some a) (htoken : c.token = a.secret)
    (hu : PanelURL u) (hrange : ∀ item ∈ b.items, InRange item) (h : Deliverable maxHead (run ops).store a c u b)
    (o : RangeOrder ((_ : String) × Bytes)) (oa : RangeOrder ((_ : String) × Agent)) :
    ReadBack maxHead oa (run ops).store a b
      (requestHead o "POST" u (trafficHeaders c b) (batchText b) ++ batchText b) := by
  have hsecret : a.secret ≠ "" := (agents_run ops a.id a ha).2
  have hl : LineFree c b := ⟨lf_not_mem h.batchID, lf_not_mem h.token, lf_not_mem h.agentID⟩
  have hsize : ((batchText b).length : ℤ) ≤ maxInt64 := (Int.ofNat_le.2 h.size).trans maxTrafficBody_le
  obtain ⟨r, hr⟩ : ∃ r : NetHTTP.Request, r =
      ⟨NetHTTP.delivered (requestFields o u (trafficHeaders c b) (some (batchText b).length)), batchText b⟩ := ⟨_, rfl⟩
  have hread := (readRequest_traffic o hu hl maxHead).2 ⟨h.head, ⟨h.batchID, h.token, h.agentID⟩, hsize, hr⟩
  refine ⟨r, hread, ?_, ?_, h.utf8, .inr ?_⟩
  · rw [hr, get_authorization o _ (by rw [htoken]; exact hsecret), htoken,
      NetHTTP.trimBlank_bytes (trimSpace_bearer hsecret h.secret), requireAgent_eq_ok, bearer_header, h.secret]
    exact (agentBySecret_iff (agents_run ops) ha).2 ⟨rfl, h.unique⟩ oa
  · rw [hr, decodeBody_batch hrange, if_pos h.size]
  · rw [hr, get_idempotencyKey, h.trimmed]

/-- A batch that is read back in every order can be delivered, unless a header goes on on a further line. -/
theorem deliverable_of_readBack (ha : (run ops).store.agents.lookup a.id = some a) (htoken : c.token = a.secret)
    (hu : PanelURL u) (hrange : ∀ item ∈ b.items, InRange item) (hid : trimSpace (text b.batchID) ≠ "")
    (hl : LineFree c b)
    (h : ∀ o oa, ReadBack maxHead oa (run ops).store a b
      (requestHead o "POST" u (trafficHeaders c b) (batchText b) ++ batchText b)) :
    Deliverable maxHead (run ops).store a c u b := by
  have hsecret : a.secret ≠ "" := (agents_run ops a.id a ha).2
  -- one order of the headers tells all but who is asking
  obtain ⟨r, hr, -, hpayload, hutf8, hkey⟩ := h (.stored _) (.stored _)
  obtain ⟨hhead, ⟨hvid, hvtoken, hvagent⟩, -, rfl⟩ := (readRequest_traffic _ hu hl maxHead).1 hr
  rw [get_idempotencyKey] at hkey
  have htrim : NetHTTP.trimBlank b.batchID = b.batchID := by
    rcases hkey with hnil | hkey
    · exact absurd (NetHTTP.trimSpace_text_of_blank (NetHTTP.blank_of_trimBlank_eq_nil hnil)) hid
    · exact hkey
  have hsize : (batchText b).length ≤ maxTrafficBody := by
    by_contra hlong
    rw [decodeBody_batch hrange, if_neg hlong] at hpayload
    cases hpayload
  have hfound : ∀ oa, (run ops).store.agentBySecret oa
      (bearer (NetHTTP.trimBlank (bytes ("Bearer " ++ c.token)))) = some a := by
    intro oa
    obtain ⟨r', hr', hauth, -⟩ := h (.stored _) oa
    obtain rfl := Option.some.inj (hr.symm.trans hr')
    rw [get_authorization _ _ (by rw [htoken]; exact hsecret)] at hauth
    exact requireAgent_eq_ok.1 hauth
  obtain ⟨hbearer, huniq⟩ := (agentBySecret_iff (agents_run ops) ha).1 hfound
  -- a token is trimmed before it is looked up
  have hsec : trimSpace a.secret = a.secret := by
    rw [NetHTTP.trimBlank_text] at hbearer
    obtain ⟨rest, hrest⟩ := bearer_text (trimRunes NetHTTP.isBlankRune ("Bearer " ++ c.token))
    rw [← bytes_injective (hrest.symm.trans hbearer)]
    exact trimRunes_trimRunes isSpace rest
  exact ⟨hutf8, htrim, hvid, hvtoken, hvagent, hsec, huniq, hsize, hhead⟩

end Agreement

/-- **Which batches client and panel agree on.** Take any batch that passes the checks of the client, is sent with the
secret of a registered agent, and that the store would accept from this agent.

* The panel applies it as it is, or knows it already, in whatever order the headers are written and the agents are
  walked, exactly when it is deliverable; a line feed in a header starts a line of its own, and then it depends on what
  the further lines say.
* An id with a line feed gets through at most where no key arrives with it. -/
theorem traffic_agreed_iff (maxHead : ℕ) (ops : List Op) (now : ℤ) {c : ControlPlaneClient} {b : TrafficBatch}
    {headers : GoMap String Bytes} {body : Bytes} {u : ParsedURL} {a : Agent}
    (hsend : c.trafficRequest b = .ok (some (headers, body)))
    (ha : (run ops).store.agents.lookup a.id = some a) (htoken : c.token = a.secret)
    (hu : PanelURL u) (hrange : ∀ item ∈ b.items, InRange item)
    (haccept : ∃ applied, ((run ops).store.applyTraffic now a.id ⟨text b.batchID, b.items⟩).2 = .ok applied) :
    ((∀ o oa, Agreed maxHead oa (run ops).store now a b (requestHead o "POST" u headers body ++ body)) ↔
      Deliverable maxHead (run ops).store a c u b ∨
        ¬ LineFree c b ∧
          ∀ o oa, ReadBack maxHead oa (run ops).store a b (requestHead o "POST" u headers body ++ body)) ∧
    (10 ∈ b.batchID → ∀ o oa r, NetHTTP.readRequest maxHead (requestHead o "POST" u headers body ++ body) = some r →
      Agreed maxHead oa (run ops).store now a b (requestHead o "POST" u headers body ++ body) →
      NetHTTP.get r.header "Idempotency-Key" = []) := by
  obtain ⟨hid, -, -, -, rfl, rfl⟩ := trafficRequest_sent_iff.1 hsend
  have hne : text b.batchID ≠ "" := by
    intro hempty
    rw [hempty] at hid
    exact hid (by decide)
  simp only [agreed_iff_readBack hne haccept]
  refine ⟨⟨fun h => ?_, ?_⟩, ?_⟩
  · by_cases hl : LineFree c b
    · exact .inl (deliverable_of_readBack ha htoken hu hrange hid hl h)
    · exact .inr ⟨hl, h⟩
  · rintro (hdel | ⟨-, h⟩)
    · exact readBack_of_deliverable ha htoken hu hrange hdel
    · exact h
  · rintro hlf o oa r hr ⟨r', hr', -, -, -, hkey⟩
    obtain rfl := Option.some.inj (hr.symm.trans hr')
    rcases hkey with hnil | hkey
    · exact hnil
    · have hok := NetHTTP.get_ok hr "Idempotency-Key"
      rw [hkey] at hok
      exact absurd hlf (lf_not_mem hok)

/-- An agent with one node. -/
def edgeAgent : Agent := ⟨"edge", "", "s3cret", some 0, none⟩

def edgeHistory : List Op :=
  [.putAgent 0 edgeAgent,
   .putTopology 0 "r1" "e1" "edge" ⟨[⟨"21", "vless", "", ⟨"direct", "", 0, "", "", "", ""⟩⟩]⟩]

def edgeClient : ControlPlaneClient := ⟨"http://panel", "s3cret", "edge"⟩

def edgeURL : ParsedURL := ⟨"http", "panel", "panel", "", "/api/v2/agent/traffic"⟩

def edgeBatch (batchID : String) : TrafficBatch := ⟨bytes batchID, [⟨"21", "vless", 1, 5, 7⟩]⟩

/-- The checks of the client look at the id only to see whether it is blank. -/
theorem edge_sent {batchID : String} (h : trimSpace batchID ≠ "") :
    edgeClient.trafficRequest (edgeBatch batchID) =
      .ok (some (trafficHeaders edgeClient (edgeBatch batchID), batchText (edgeBatch batchID))) := by
  refine trafficRequest_sent_iff.2 ⟨?_, List.cons_ne_nil _ _, ?_, by decide, rfl, rfl⟩
  · rw [edgeBatch, text_bytes]
    exact h
  · intro item hitem
    obtain rfl := List.mem_singleton.1 hitem
    decide +kernel

theorem edge_deliverable : Deliverable 4096 (run edgeHistory).store edgeAgent edgeClient edgeURL (edgeBatch "b1") where
  utf8 := by decide +kernel
  trimmed := by decide +kernel
  batchID := by decide +kernel
  token := by decide +kernel
  agentID := by decide +kernel
  secret := by decide +kernel
  unique id' a' h _ := by
    have hagents : (run edgeHistory).store.agents = AList.insert "edge" edgeAgent ∅ := AList.ext (by decide +kernel)
    rw [hagents, lookup_insert_of] at h
    split at h
    · assumption
    · cases h
  size := by decide +kernel
  head := by decide +kernel

theorem traffic_agreed_edge :
    let b := edgeBatch "b1"
    edgeClient.trafficRequest b = .ok (some (trafficHeaders edgeClient b, batchText b)) ∧
      ∀ o oa, Agreed 4096 oa (run edgeHistory).store 1 edgeAgent b
        (requestHead o "POST" edgeURL (trafficHeaders edgeClient b) (batchText b) ++ batchText b) := by
  have hsend := edge_sent (show trimSpace "b1" ≠ "" by decide +kernel)
  refine ⟨hsend, (traffic_agreed_iff 4096 edgeHistory 1 hsend (by decide +kernel) rfl ⟨by decide, by decide⟩ ?_
    ⟨true, by decide +kernel⟩).1.2 (.inl edge_deliverable)⟩
  intro item hitem
  obtain rfl := List.mem_singleton.1 hitem
  exact ⟨by decide, by decide, by decide⟩

/-- **A batch id with a space in front.** The client sends the batch and the store would apply it, but the key arrives
without the space, and the panel refuses the batch. -/
theorem padded_id_refused :
    let b := edgeBatch " b1"
    edgeClient.trafficRequest b = .ok (some (trafficHeaders edgeClient b, batchText b)) ∧
      ((run edgeHistory).store.applyTraffic 1 "edge" ⟨" b1", b.items⟩).2 = .ok true ∧
      (NetHTTP.readRequest 4096 (requestHead (.stored _) "POST" edgeURL (trafficHeaders edgeClient b) (batchText b) ++
        batchText b)).map (fun r => (agentTraffic (.stored _) (run edgeHistory).store 1 r).2) =
          some (.error 400 "idempotency key does not match batch_id") := by
  refine ⟨edge_sent (by decide +kernel), ?_⟩
  decide +kernel

end MiniSbAgent.Panelserver
