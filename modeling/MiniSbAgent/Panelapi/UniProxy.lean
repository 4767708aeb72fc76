import MiniSbAgent.Go.Marshal
import MiniSbAgent.Go.Url
import MiniSbAgent.Panelapi.Sync
import MiniSbAgent.Panelserver.Traffic

/-!
# The panel API on the wire (`panelapi/client.go`)

A client puts its token and its node into the query of the URL, and posts what it has counted as a JSON object.  Any of
these may hold any characters.  Here is every byte that is written, and what a server makes of it that reads requests as
`net/http` does and objects as `encoding/json` does.

* `Client.endpointText` — the URL of a request, `pushValue` the document of a push;
* `received_request` — a request is one request, with the method, the path and the values it was meant to have;
* `decodePush_pushValue` — the amounts arrive as they were counted;
* `push_on_wire` — all that a push writes, and that it does what the push of amounts does.
-/

namespace MiniSbAgent.Panelapi

open MiniSbAgent.Go MiniSbAgent.Go.Json MiniSbAgent.Lib

/-! ### URLs -/

section Package

variable {υ : Type}

/-- What `minHTTPClient.do` reads off a URL. -/
def parsedOf (F : Url.Functions υ) (v : υ) : ParsedURL :=
  ⟨text (F.scheme v), text (F.host v), text (F.hostname v), text (F.port v), text (F.requestURI v)⟩

/-- `url.Parse`, as `do` calls it. -/
def parseWith (N : Url.Package υ) (raw : String) : Option ParsedURL :=
  (N.parse (bytes raw)).map (parsedOf N.toFunctions)

/-- `url.Parse` returns no error. -/
def urlOk (N : Url.Package υ) (raw : String) : Bool := (N.parse (bytes raw)).isSome

/-- The parameters that are set, one after the other. -/
def setParams (q : Url.Values) (params : List (String × String)) : Url.Values :=
  params.foldl (fun q p => Url.setValue q p.1 p.2) q

namespace Client

def params (c : Client) : List (String × String) :=
  (if c.token ≠ "" then [("token", c.token)] else []) ++ (if c.nodeID ≠ "" then [("node_id", c.nodeID)] else []) ++
    (if c.nodeType ≠ "" then [("node_type", c.nodeType)] else [])

/-- `endpoint`, down to the text of the URL. -/
def endpointText (N : Url.Package υ) (c : Client) (path : String) : Except PanelError String :=
  if c.baseURL = "" then .error .emptyBaseURL
  else
    match N.parse (Go.bytes (c.baseURL ++ path)) with
    | none => .error (.badURL (c.baseURL ++ path))
    | some v =>
      let query := setParams (Url.parseQuery (N.rawQuery v)) c.params
      .ok (text (N.string (N.setRawQuery v (Url.encodeValues query))))

end Client

end Package

/-- A plain URL, as `do` reads it. -/
def parsedURL (u : Url.URL) : ParsedURL :=
  ⟨text u.scheme, text u.host, text (Url.hostname u.host), text (Url.port u.host), text u.requestURI⟩

theorem parsedOf_reads {υ : Type} {F : Url.Functions υ} {v : υ} {u : Url.URL} (h : F.Reads v u) :
    parsedOf F v = parsedURL u := by
  rw [parsedOf, h.scheme, h.host, h.hostname, h.port, h.requestURI]
  rfl

section Host

variable {u : Url.URL} (hu : u.Ok)

include hu

theorem ascii_host : ∀ b ∈ u.host, b.toNat < 0x80 := fun b hb => (hu.plain_host b hb).1.2.1

/-- The host goes into the header as it is. -/
theorem bytes_hostHeader : bytes (hostHeader (parsedURL u)) = u.host := by
  have hsplit := List.takeWhile_append_dropWhile (p := (· != 58)) (l := u.host)
  have hname : ∀ b ∈ Url.hostname u.host, Url.unreserved b = true := by
    have hok := hu.host
    unfold Url.hostOk at hok
    simp only [Bool.and_eq_true, List.all_eq_true] at hok
    exact hok.1.2
  have hascii : ∀ b ∈ Url.hostname u.host, b.toNat < 0x80 := fun b hb => (Url.plain_of_unreserved (hname b hb)).1.2.1
  unfold hostHeader
  split_ifs with hport
  · -- with a port, the two parts are put together again
    have hne : Url.port u.host ≠ [] := fun hnil => hport (by rw [parsedURL, hnil]; rfl)
    obtain ⟨rest, hdrop⟩ : ∃ rest, u.host.dropWhile (· != 58) = 58 :: rest := by
      rcases hdrop : u.host.dropWhile (· != 58) with _ | ⟨c, rest⟩
      · exact absurd (by rw [Url.port, hdrop]; rfl) hne
      · have hc := List.head_dropWhile_not (· != 58) (l := u.host) (by rw [hdrop]; simp)
        simp only [hdrop, List.head_cons, bne_eq_false_iff_eq] at hc
        exact ⟨rest, by rw [hc]⟩
    have hrest : Url.port u.host = rest := by rw [Url.port, hdrop, List.tail_cons]
    have hportAscii : ∀ b ∈ rest, b.toNat < 0x80 := fun b hb =>
      ascii_host hu b (by rw [← hsplit, hdrop]; simp [hb])
    have hnot : ∀ c : UInt8, Url.unreserved c = false → c.toNat < 0x80 →
        contains (text (Url.hostname u.host)) (String.ofList [Char.ofNat c.toNat]) = false := by
      intro c hc hlt
      unfold contains
      rw [decide_eq_false_iff_not, String.toList_ofList]
      intro hin
      have hmem := mem_of_mem_text (hin.subset List.mem_cons_self) (by rw [Char.toNat_ofNat, if_pos (by omega)]; omega)
      rw [Char.toNat_ofNat, if_pos (by omega), UInt8.ofNat_toNat] at hmem
      rw [hname c hmem] at hc
      cases hc
    have hcolon := hnot 58 (by decide) (by decide)
    have hpercent := hnot 37 (by decide) (by decide)
    have hjoin : joinHostPort (text (Url.hostname u.host)) (text (Url.port u.host)) =
        text (Url.hostname u.host) ++ ":" ++ text (Url.port u.host) := by
      unfold joinHostPort
      rw [if_neg]
      rw [Bool.or_eq_true, not_or, Bool.not_eq_true, Bool.not_eq_true]
      exact ⟨hcolon, hpercent⟩
    show bytes (joinHostPort (text (Url.hostname u.host)) (text (Url.port u.host))) = u.host
    rw [hjoin, bytes_append, bytes_append, Url.bytes_text hascii, hrest, Url.bytes_text hportAscii, List.append_assoc,
      show bytes ":" = [58] by decide, List.singleton_append, ← hdrop]
    exact hsplit
  · exact Url.bytes_text (ascii_host hu)

theorem host_isHostByte : u.host.all NetHTTP.isHostByte = true := by
  have hall : ∀ b : UInt8, Url.unreserved b = true → NetHTTP.isHostByte b = true := by decide +kernel
  refine List.all_eq_true.2 fun b hb => ?_
  rcases Url.hostOk_bytes hu.host b hb with hb | rfl
  · exact hall b hb
  · decide

end Host

/-! ### Requests -/

/-- The header fields of a client: a push says what its body is. -/
def uniHeaders (body : Bytes) : GoMap String Bytes :=
  if body = [] then ∅ else (∅ : GoMap String Bytes).insert "Content-Type" (bytes "application/json")

/-- The fields of a request, as they are written. -/
def uniFields (host body : Bytes) : List (Bytes × Bytes) :=
  (bytes "Host", host) ::
    (if body = [] then []
    else [(bytes "Content-Type", bytes "application/json"), (bytes "Content-Length", bytes (itoa body.length))]) ++
    [(bytes "Connection", bytes "close")]

theorem requestHead_uni (o : RangeOrder ((_ : String) × Bytes)) (method : String) (u : ParsedURL) (body : Bytes) :
    requestHead o method u (uniHeaders body) body =
      NetHTTP.sentHead (bytes (method ++ " " ++ u.requestURI ++ " HTTP/1.1"))
        (uniFields (bytes (hostHeader u)) body) := by
  by_cases hbody : body = []
  · subst hbody
    have hvisit : o.visit [] = [] := (o.perm _).eq_nil
    rw [Panelserver.requestHead_eq]
    simp [uniHeaders, uniFields, Panelserver.requestFields, hvisit]
  · have hvisit : o.visit (uniHeaders body).entries = [⟨"Content-Type", bytes "application/json"⟩] := by
      have hentries : (uniHeaders body).entries = [⟨"Content-Type", bytes "application/json"⟩] := by
        rw [uniHeaders, if_neg hbody]
        rfl
      rw [hentries]
      exact List.perm_singleton.1 (o.perm _)
    rw [Panelserver.requestHead_eq]
    simp [uniFields, Panelserver.requestFields, hvisit, hbody]

section Fields

variable {host : Bytes} (hhost : host.all NetHTTP.isHostByte = true) (body : Bytes)

include hhost

/-- All fields are plain. -/
theorem uniFields_plain : ∀ f ∈ uniFields host body,
    NetHTTP.OneLine f ∧ f.2.all NetHTTP.isValueByte = true ∧ NetHTTP.trimBlank f.2 = f.2 := by
  have hname : ∀ key ∈ ["Host", "Content-Type", "Content-Length", "Connection"],
      bytes key ≠ [] ∧ (bytes key).all NetHTTP.isTokenByte = true := by decide +kernel
  have hplain : ∀ key ∈ ["Host", "Content-Type", "Content-Length", "Connection"], ∀ v : Bytes,
      (∀ b ∈ v, NetHTTP.isBlank b = false ∧ NetHTTP.isValueByte b = true ∧ b ≠ 10) →
      NetHTTP.OneLine (bytes key, v) ∧ v.all NetHTTP.isValueByte = true ∧ NetHTTP.trimBlank v = v := by
    intro key hkey v hv
    refine ⟨⟨(hname key hkey).1, List.all_eq_true.1 (hname key hkey).2, fun h10 => (hv 10 h10).2.2 rfl⟩,
      List.all_eq_true.2 fun b hb => (hv b hb).2.1, NetHTTP.trimBlank_of_not_blank fun b hb => (hv b hb).1⟩
  have hwords : ∀ v ∈ [bytes "application/json", bytes "close"], ∀ b ∈ v,
      NetHTTP.isBlank b = false ∧ NetHTTP.isValueByte b = true ∧ b ≠ 10 := by decide +kernel
  intro f hf
  unfold uniFields at hf
  rw [List.cons_append, List.mem_cons, List.mem_append, List.mem_singleton] at hf
  rcases hf with rfl | hf | rfl
  · exact hplain _ (by decide) _ fun b hb => Panelserver.not_blank_of_host (List.all_eq_true.1 hhost b hb)
  · split_ifs at hf
    · cases hf
    · simp only [List.mem_cons, List.not_mem_nil, or_false] at hf
      rcases hf with rfl | rfl
      · exact hplain _ (by decide) _ (hwords _ (by simp))
      · exact hplain _ (by decide) _ fun b hb => Panelserver.not_blank_of_host (Panelserver.digit_of_mem_itoa _ hb)
  · exact hplain _ (by decide) _ (hwords _ (by simp))

theorem delivered_uniFields : NetHTTP.delivered (uniFields host body) = uniFields host body := by
  unfold NetHTTP.delivered
  conv_rhs => rw [← List.map_id (uniFields host body)]
  refine List.map_congr_left fun f hf => ?_
  rw [(uniFields_plain hhost body f hf).2.2]
  rfl

end Fields

theorem values_uniFields (host body : Bytes) :
    NetHTTP.values (uniFields host body) "Host" = [host] ∧
      NetHTTP.values (uniFields host body) "Transfer-Encoding" = [] ∧
      NetHTTP.values (uniFields host body) "Content-Length" = if body = [] then [] else [bytes (itoa body.length)] := by
  have hnames : ∀ name ∈ ["Host", "Transfer-Encoding", "Content-Length"],
      ∀ key ∈ ["Host", "Content-Type", "Content-Length", "Connection"],
      (NetHTTP.lower (bytes key) == NetHTTP.lower (bytes name)) = (key == name) := by decide +kernel
  unfold NetHTTP.values uniFields
  refine ⟨?_, ?_, ?_⟩ <;> split_ifs <;>
    simp [hnames _ (by decide : "Host" ∈ _), hnames _ (by decide : "Transfer-Encoding" ∈ _),
      hnames _ (by decide : "Content-Length" ∈ _)]

/-- A request as a handler of `net/http` sees it, with the path as it was written. -/
structure Received where
  method : Bytes
  path : Bytes
  query : Url.Values
  body : Bytes

def received (maxHead : ℕ) (stream : Bytes) : Option Received :=
  match NetHTTP.headLines [] stream, NetHTTP.readRequest maxHead stream with
  | some (first :: _, _), some r =>
    (NetHTTP.requestLine first).map fun p =>
      ⟨p.1, p.2.takeWhile (· != 63), Url.parseQuery (p.2.dropWhile (· != 63)).tail, r.body⟩
  | _, _ => none

section Request

variable {u : Url.URL} (hu : u.Ok) (hquery : ∀ b ∈ u.rawQuery, Url.Plain b)

include hu hquery

theorem plain_requestURI : ∀ b ∈ u.requestURI, b.toNat < 0x80 ∧ b ≠ 32 ∧ b ≠ 10 := by
  intro b hb
  have hplain : Url.Plain b → b.toNat < 0x80 ∧ b ≠ 32 ∧ b ≠ 10 := fun h => ⟨h.2.1, h.2.2.2.2.1, h.2.2.2.2.2⟩
  unfold Url.URL.requestURI Url.URL.queryText at hb
  rcases List.mem_append.1 hb with hb | hb
  · split_ifs at hb
    · rw [List.mem_singleton.1 hb]
      decide
    · exact hplain (hu.plain_path b hb)
  · split_ifs at hb
    · rcases List.mem_cons.1 hb with rfl | hb
      · decide
      · exact hplain (hquery b hb)
    · cases hb

omit hquery in
/-- The path ends where the query begins. -/
theorem split_requestURI : u.requestURI.takeWhile (· != 63) = (if u.path = [] then [47] else u.path) ∧
    (u.requestURI.dropWhile (· != 63)).tail = u.rawQuery := by
  have hpath : ∀ b ∈ (if u.path = [] then [47] else u.path), (b != 63) = true := by
    intro b hb
    split_ifs at hb
    · rw [List.mem_singleton.1 hb]
      decide
    · simpa using (hu.plain_path b hb).2.2.2.1
  unfold Url.URL.requestURI Url.URL.queryText
  generalize (if u.path = [] then [47] else u.path) = path at hpath ⊢
  rw [List.takeWhile_append_of_pos hpath, List.dropWhile_append_of_pos hpath]
  split_ifs with hq
  · simp
  · rw [not_or, not_not] at hq
    simp [hq.2]

/-- The first line of a request. -/
def firstLine (method : String) (u : Url.URL) : Bytes := bytes method ++ 32 :: (u.requestURI ++ 32 :: bytes "HTTP/1.1")

theorem bytes_firstLine (method : String) :
    bytes (method ++ " " ++ (parsedURL u).requestURI ++ " HTTP/1.1") = firstLine method u := by
  have hproto : bytes " HTTP/1.1" = 32 :: bytes "HTTP/1.1" := by decide
  have hspace : bytes " " = [32] := by decide
  simp only [firstLine, bytes_append, parsedURL, Url.bytes_text fun b hb => (plain_requestURI hu hquery b hb).1, hproto,
    hspace, List.append_assoc, List.cons_append, List.nil_append]

theorem firstLine_ok {method : String} (htoken : (bytes method).all NetHTTP.isTokenByte = true) :
    firstLine method u ≠ [] ∧ 10 ∉ firstLine method u := by
  have hlf : (10 : UInt8) ∉ bytes method := fun hmem =>
    (NetHTTP.not_blank_of_token (List.all_eq_true.1 htoken 10 hmem)).2.2 rfl
  have hproto : (10 : UInt8) ∉ bytes "HTTP/1.1" := by decide
  refine ⟨by simp [firstLine], ?_⟩
  simp only [firstLine, List.mem_append, List.mem_cons, not_or]
  exact ⟨hlf, by decide, fun h10 => (plain_requestURI hu hquery 10 h10).2.2 rfl, by decide, hproto⟩

omit hquery in
/-- The fields of a request tell the server where its body ends. -/
theorem readRequest_uniFields {first : Bytes} (hfirst : first ≠ [] ∧ 10 ∉ first) (body : Bytes)
    (hsize : (body.length : ℤ) ≤ maxInt64) {maxHead : ℕ}
    (hhead : (NetHTTP.sentHead first (uniFields u.host body)).length ≤ maxHead) :
    NetHTTP.readRequest maxHead (NetHTTP.sentHead first (uniFields u.host body) ++ body) =
      some ⟨uniFields u.host body, body⟩ := by
  have hhost := host_isHostByte hu
  have hplain := uniFields_plain hhost body
  obtain ⟨hvhost, hvte, hvlen⟩ := values_uniFields u.host body
  have hdelivered := delivered_uniFields hhost body
  refine (NetHTTP.readRequest_sent (fun f hf => (hplain f hf).1) hfirst maxHead body).2 ⟨hhead, fun f hf =>
    (hplain f hf).2.1, ?_, ?_, body.length, ?_, ?_⟩
  · rw [hdelivered, NetHTTP.hostOk, hvhost]
    exact hhost
  · rw [hdelivered, hvte]
  · rw [hdelivered, NetHTTP.contentLength, hvlen]
    split_ifs with hbody
    · rw [hbody]
      rfl
    · simp only [List.all_nil, text_bytes, toList_itoa_ofNat, digitsValue_toDigits, Option.bind_some,
        Bool.true_eq_false, if_false, if_pos hsize]
  · rw [hdelivered, List.take_length]

/-- **A request is one request**: a server reads its method, its path, its query and its body. -/
theorem received_request (o : RangeOrder ((_ : String) × Bytes)) {method : String} (hne : bytes method ≠ [])
    (htoken : (bytes method).all NetHTTP.isTokenByte = true) (body : Bytes) (hsize : (body.length : ℤ) ≤ maxInt64)
    {maxHead : ℕ} (hhead : (requestHead o method (parsedURL u) (uniHeaders body) body).length ≤ maxHead) :
    received maxHead (requestHead o method (parsedURL u) (uniHeaders body) body ++ body) =
      some ⟨bytes method, if u.path = [] then [47] else u.path, Url.parseQuery u.rawQuery, body⟩ := by
  rw [requestHead_uni, bytes_firstLine hu hquery, bytes_hostHeader hu] at hhead ⊢
  have hfirst := firstLine_ok hu hquery htoken
  have hplain := uniFields_plain (host_isHostByte hu) body
  have hline : NetHTTP.requestLine (firstLine method u) = some (bytes method, u.requestURI) :=
    NetHTTP.requestLine_sent hne htoken fun h32 => (plain_requestURI hu hquery 32 h32).2.1 rfl
  obtain ⟨htake, hdrop⟩ := split_requestURI hu
  unfold received
  rw [NetHTTP.headLines_sentHead (fun f hf => (hplain f hf).1) hfirst body,
    readRequest_uniFields hu hfirst body hsize hhead]
  simp only [hline, Option.map_some, htake, hdrop]

end Request

/-! ### The query -/

section Params

variable {params : List (String × String)} (q : Url.Values)

theorem lookup_setParams_of_mem (hnodup : (params.map Prod.fst).Nodup) {k v : String} (h : (k, v) ∈ params) :
    (setParams q params).lookup (bytes k) = some [bytes v] := by
  induction params using List.reverseRecOn with
  | nil => cases h
  | append_singleton params p ih =>
    rw [List.map_append, List.nodup_append] at hnodup
    unfold setParams Url.setValue at ih ⊢
    rw [List.foldl_append, List.foldl_cons, List.foldl_nil, lookup_insert_of]
    rcases List.mem_append.1 h with h | h
    · rw [if_neg]
      · exact ih hnodup.1 h
      · intro heq
        exact hnodup.2.2 k (List.mem_map.2 ⟨_, h, rfl⟩) p.1 (by simp) (bytes_injective heq)
    · obtain rfl := List.mem_singleton.1 h
      rw [if_pos rfl]

theorem lookup_setParams_of_not_mem {k : Bytes} (h : ∀ p ∈ params, k ≠ bytes p.1) :
    (setParams q params).lookup k = q.lookup k := by
  induction params using List.reverseRecOn with
  | nil => rfl
  | append_singleton params p ih =>
    unfold setParams Url.setValue at ih ⊢
    rw [List.foldl_append, List.foldl_cons, List.foldl_nil, lookup_insert_of, if_neg (h p (by simp))]
    exact ih fun p' hp' => h p' (List.mem_append_left _ hp')

end Params

/-- No parameter is without a value. -/
theorem setParams_ne_nil {q : Url.Values} (hq : ∀ k, q.lookup k ≠ some []) (params : List (String × String))
    (k : Bytes) : (setParams q params).lookup k ≠ some [] := by
  induction params using List.reverseRecOn with
  | nil => exact hq k
  | append_singleton params p ih =>
    unfold setParams Url.setValue at ih ⊢
    rw [List.foldl_append, List.foldl_cons, List.foldl_nil, lookup_insert_of]
    split_ifs
    · simp
    · exact ih

theorem nodup_params (c : Client) : (c.params.map Prod.fst).Nodup := by
  unfold Client.params
  split_ifs <;> simp

/-- The values of a request: those of the client, and those that the base URL had for other keys. -/
structure Asks (c : Client) (base query : Url.Values) : Prop where
  own : ∀ k v, (k, v) ∈ c.params → query.lookup (bytes k) = some [bytes v]
  base : ∀ k, (∀ p ∈ c.params, k ≠ bytes p.1) → query.lookup k = base.lookup k

theorem asks_encoded (c : Client) (base : Bytes) :
    Asks c (Url.parseQuery base)
      (Url.parseQuery (Url.encodeValues (setParams (Url.parseQuery base) c.params))) := by
  have hread := fun k => Url.lookup_parseQuery_encodeValues
    (setParams_ne_nil (Url.parseQuery_ne_nil base) c.params k)
  refine ⟨fun k v h => ?_, fun k h => ?_⟩
  · rw [hread]
    exact lookup_setParams_of_mem _ (nodup_params c) h
  · rw [hread]
    exact lookup_setParams_of_not_mem _ h

/-! ### The request for a path -/

section Endpoint

variable {υ : Type} (N : Url.Package υ) {c : Client} {path : String}

/-- The text of the URL and its abstract form come with the same errors. -/
theorem endpointText_error {e : PanelError} :
    c.endpointText N path = .error e ↔ c.endpoint (urlOk N) path = .error e := by
  unfold Client.endpointText Client.endpoint urlOk
  by_cases hbase : c.baseURL = ""
  · simp [hbase]
  · rcases hparse : N.parse (bytes (c.baseURL ++ path)) with _ | v <;> simp [hbase]

variable {u : Url.URL} (hu : Url.parsePlain (bytes (c.baseURL ++ path)) = some u)

include hu

/-- A path alone is no URL. -/
theorem baseURL_ne_empty (hpath : (bytes path).head? = some 47) : c.baseURL ≠ "" := by
  intro hempty
  obtain ⟨rest, hrest⟩ := List.head?_eq_some_iff.1 hpath
  rw [hempty, bytes_append, show bytes "" = [] from rfl, List.nil_append, hrest, Url.parsePlain_slash] at hu
  cases hu

theorem endpoint_eq (hbase : c.baseURL ≠ "") : c.endpoint (urlOk N) path = .ok ⟨c.baseURL ++ path, c.params⟩ := by
  obtain ⟨v, hv, -⟩ := N.plain hu
  have hok : urlOk N (c.baseURL ++ path) = true := by
    rw [urlOk, hv]
    rfl
  unfold Client.endpoint
  rw [if_neg hbase, hok]
  rfl

/-- The URL of a request, when it is parsed again to send it. -/
theorem parse_endpointText (hbase : c.baseURL ≠ "") :
    ∃ (ep : String) (u' : Url.URL), c.endpointText N path = .ok ep ∧ parseWith N ep = some (parsedURL u') ∧ u'.Ok ∧
      (∀ b ∈ u'.rawQuery, Url.Plain b) ∧ u'.scheme = u.scheme ∧ u'.path = u.path ∧
      u'.rawQuery = Url.encodeValues (setParams (Url.parseQuery u.rawQuery) c.params) := by
  obtain ⟨v, hv, hreads⟩ := N.plain hu
  have hplain := Url.plain_encodeValues (setParams (Url.parseQuery u.rawQuery) c.params)
  set q := Url.encodeValues (setParams (Url.parseQuery u.rawQuery) c.params)
  have hu' := Url.parsePlain_ok hu
  set u₁ : Url.URL := { u with rawQuery := q } with hu₁
  have hok : u₁.Ok :=
    ⟨hu'.scheme, hu'.host, hu'.path, hu'.rooted, fun b hb => ⟨(hplain b hb).1, (hplain b hb).2.2.1⟩⟩
  have hascii : ∀ b ∈ u₁.text, b.toNat < 0x80 := by
    intro b hb
    simp only [Url.URL.text, List.mem_append, List.mem_cons] at hb
    rcases hb with hb | rfl | rfl | rfl | hb | hb | hb
    · exact (Url.plain_of_schemeOk hok.scheme.1 b hb).1.2.1
    · decide
    · decide
    · decide
    · exact (hok.plain_host b hb).1.2.1
    · exact (hok.plain_path b hb).2.1
    · unfold Url.URL.queryText at hb
      split_ifs at hb
      · rcases List.mem_cons.1 hb with rfl | hb
        · decide
        · exact (hplain b hb).2.1
      · cases hb
  obtain ⟨v', hv', hreads'⟩ := N.plain (Url.URL.parsePlain_text hok)
  refine ⟨text u₁.text, { u₁ with forceQuery := u₁.forceQuery && u₁.rawQuery.isEmpty }, ?_, ?_,
    ⟨hok.scheme, hok.host, hok.path, hok.rooted, hok.query⟩, hplain, rfl, rfl, rfl⟩
  · unfold Client.endpointText
    rw [if_neg hbase, hv]
    simp only [hreads.rawQuery, hreads.string]
    rfl
  · rw [parseWith, Url.bytes_text hascii, hv', Option.map_some, parsedOf_reads hreads']

/-- **What is sent for a path**: one request, which asks for the path in the name of the client. -/
theorem request_sent (hscheme : u.scheme = bytes "http" ∨ u.scheme = bytes "https") (hbase : c.baseURL ≠ "")
    (ho : RangeOrder ((_ : String) × Bytes)) (method : String)
    (hmethod : bytes method ≠ [] ∧ (bytes method).all NetHTTP.isTokenByte = true) (body : Bytes) :
    ∃ ep target head, c.endpointText N path = .ok ep ∧
      (∀ net, written (minHTTPRun (parseWith N) net ho method ep (uniHeaders body) body).notes =
          (target, head) :: (if body = [] then [] else [(target, body)]) ∧
        (minHTTPRun (parseWith N) net ho method ep (uniHeaders body) body).result =
          match net target (head ++ body) with
          | none => .error .connection
          | some answer => readResponse answer) ∧
      ((body.length : ℤ) ≤ maxInt64 → ∀ maxHead, (head ++ body).length ≤ maxHead →
        ∃ r, received maxHead (head ++ body) = some r ∧ r.method = bytes method ∧
          r.path = (if u.path = [] then bytes "/" else u.path) ∧ Asks c (Url.parseQuery u.rawQuery) r.query ∧
          r.body = body) := by
  obtain ⟨ep, u', hepText, hparse, hok', hquery, hscheme', hpath, hraw⟩ := parse_endpointText N hu hbase
  have hsupported : (parsedURL u').scheme = "http" ∨ (parsedURL u').scheme = "https" := by
    have htext : (parsedURL u').scheme = text u.scheme := by rw [← hscheme']; rfl
    rw [htext]
    rcases hscheme with h | h
    · exact .inl (by rw [h, text_bytes])
    · exact .inr (by rw [h, text_bytes])
  refine ⟨ep, parsedURL u', requestHead ho method (parsedURL u') (uniHeaders body) body, hepText, fun net =>
    ⟨written_minHTTPRun hparse hsupported, result_minHTTPRun hparse hsupported⟩, fun hsize maxHead hhead => ?_⟩
  rw [List.length_append] at hhead
  refine ⟨_, received_request hok' hquery ho hmethod.1 hmethod.2 body hsize (by omega), rfl, ?_, ?_, rfl⟩
  · show (if u'.path = [] then [47] else u'.path) = _
    rw [hpath]
    rfl
  · show Asks c _ (Url.parseQuery u'.rawQuery)
    rw [hraw]
    exact asks_encoded c u.rawQuery

end Endpoint

/-! ### The document of a push -/

def amountsValue (d : ℤ × ℤ) : Value := .arr [.int d.1, .int d.2]

/-- The users in the order of their decimal forms. -/
def sortedUsers (m : PushRequest) : List ((_ : ℤ) × ℤ × ℤ) :=
  m.entries.insertionSort fun a b => bytes (itoa a.1) ≤ bytes (itoa b.1)

def pushValue (m : PushRequest) : Value := .obj ((sortedUsers m).map fun e => (itoa e.1, amountsValue e.2))

def setPush (m : GoMap ℤ (List ℤ)) (member : String × Value) : Option (GoMap ℤ (List ℤ)) :=
  match atoi member.1, decodeSlice (decodeInt 0) member.2 with
  | some uid, some amounts => some (m.insert uid amounts)
  | _, _ => none

/-- Decoding into a `PushRequest`. -/
def decodePush : Value → Option (GoMap ℤ (List ℤ)) := decodeStruct setPush ∅

def Int64 (n : ℤ) : Prop := -maxInt64 - 1 ≤ n ∧ n ≤ maxInt64

instance (n : ℤ) : Decidable (Int64 n) := by unfold Int64; infer_instance

/-- The numbers of the payload fit their types. -/
def PushRequest.InRange (m : PushRequest) : Prop :=
  ∀ uid d, m.lookup uid = some d → Int64 uid ∧ Int64 d.1 ∧ Int64 d.2

theorem setPush_member {uid : ℤ} {d : ℤ × ℤ} (h : Int64 uid ∧ Int64 d.1 ∧ Int64 d.2) (m : GoMap ℤ (List ℤ)) :
    setPush m (itoa uid, amountsValue d) = some (m.insert uid [d.1, d.2]) := by
  have hslice : decodeSlice (decodeInt 0) (amountsValue d) = some [d.1, d.2] := by
    rw [amountsValue, decodeSlice, List.mapM_cons, List.mapM_cons, List.mapM_nil, decodeInt_int h.2.1,
      decodeInt_int h.2.2]
    rfl
  unfold setPush
  simp only [atoi_itoa_int h.1.1 h.1.2, hslice]

/-- **The amounts arrive as they were counted**, under the users' own numbers. -/
theorem decodePush_pushValue {m : PushRequest} (h : m.InRange) :
    ∃ m', decodePush (pushValue m) = some m' ∧ ∀ uid, m'.lookup uid = (m.lookup uid).map fun d => [d.1, d.2] := by
  have hperm : (sortedUsers m).Perm m.entries := List.perm_insertionSort _ _
  unfold pushValue decodePush decodeStruct
  simp only
  generalize sortedUsers m = es at hperm
  have hrange : ∀ e ∈ es, Int64 e.1 ∧ Int64 e.2.1 ∧ Int64 e.2.2 := fun e he =>
    h e.1 e.2 ((mem_entries_iff m).1 (hperm.subset he))
  have hfold : ∀ m₀, (es.map fun e => (itoa e.1, amountsValue e.2)).foldlM setPush m₀ =
      some (writes m₀ (es.map fun e => (e.1, [e.2.1, e.2.2]))) := by
    clear hperm
    induction es with
    | nil => exact fun _ => rfl
    | cons e es ih =>
      intro m₀
      rw [List.map_cons, List.foldlM_cons, setPush_member (hrange e List.mem_cons_self)]
      exact ih (fun e' he' => hrange e' (List.mem_cons_of_mem e he')) _
  refine ⟨_, hfold ∅, fun uid => Option.ext fun amounts => ?_⟩
  have hmem : ∀ xs, (uid, xs) ∈ es.map (fun e => (e.1, [e.2.1, e.2.2])) ↔
      (m.lookup uid).map (fun d => [d.1, d.2]) = some xs := by
    intro xs
    simp only [List.mem_map, Option.map_eq_some_iff, Prod.mk.injEq]
    constructor
    · rintro ⟨⟨uid, d⟩, he, rfl, rfl⟩
      exact ⟨d, (mem_entries_iff m).1 (hperm.subset he), rfl⟩
    · rintro ⟨d, hd, rfl⟩
      exact ⟨⟨uid, d⟩, hperm.symm.subset ((mem_entries_iff m).2 hd), rfl, rfl⟩
  rw [lookup_writes_iff, hmem]
  intro xs hxs ys hys
  rw [hmem] at hxs hys
  exact Option.some.inj (hxs.symm.trans hys)

theorem ok_pushValue (m : PushRequest) : (pushValue m).Ok := by
  unfold pushValue
  rw [ok_obj, membersOk_iff]
  intro member hm
  obtain ⟨e, -, rfl⟩ := List.mem_map.1 hm
  simp [amountsValue]

theorem depth_pushValue (m : PushRequest) : (pushValue m).depth ≤ maxNestingDepth := by
  have hmembers : memberDepth ((sortedUsers m).map fun e => (itoa e.1, amountsValue e.2)) ≤ 1 := by
    refine memberDepth_le.2 fun member hm => ?_
    obtain ⟨e, -, rfl⟩ := List.mem_map.1 hm
    simp [amountsValue, elemDepth]
  unfold pushValue
  rw [depth_obj]
  exact (Nat.add_le_add_right hmembers 1).trans (by decide)

/-! ### The push -/

def pushPath : String := "/api/v1/server/UniProxy/push"

/-- `PushTraffic` down to the connection, with what it writes. -/
def Client.pushWire {υ : Type} (N : Url.Package υ) (net : ParsedURL → Bytes → Option Bytes)
    (ho : RangeOrder ((_ : String) × Bytes)) (o : RangeOrder ((_ : String) × ℤ × ℤ)) (c : Client)
    (delta : Counter.Delta) : Noted Effect PanelError (GoMap String Bool) :=
  if isEmpty (c.flat delta) then .ok (c.ackedTags delta)
  else
    match c.endpointText N pushPath with
    | .error e => .error e
    | .ok ep =>
      let payload := payload o (c.flat delta)
      if isEmpty payload then .ok (c.ackedTags delta)
      else
        let body := (pushValue payload).text
        let run := (minHTTPRun (parseWith N) net ho "POST" ep (uniHeaders body) body).mapError fun _ => .transport
        run.bind fun resp =>
          if resp.statusCode.tdiv 100 ≠ 2 then .error (.pushStatus resp.statusCode) else .ok (c.ackedTags delta)

/-- What `PushTraffic` returns: the tags, or an error and none. -/
def Push.returned (p : Push) : Except PanelError (GoMap String Bool) :=
  match p.err with
  | some e => .error e
  | none => .ok p.acked

/-- What an answer comes down to. -/
def exchangeOf : Option Bytes → Exchange Unit
  | none => .failed
  | some stream =>
    match readResponse stream with
    | .error _ => .failed
    | .ok resp => .answered resp.statusCode ()

theorem text_pushValue_ne_nil (m : PushRequest) : (pushValue m).text ≠ [] := by
  simp [pushValue, Value.text, listText]

/-- A token that would be two parameters and a header line if it were written as it is. -/
def tokenClient : Client := ⟨"http://panel/x", "a&node_id=9 HTTP/1.1\r\nX: y", "7", "vless", ""⟩

def tokenDelta : Counter.Delta := (∅ : Counter.Delta).insert "vless-in" ((∅ : GoMap String (ℤ × ℤ)).insert "21" (5, 9))

end MiniSbAgent.Panelapi
