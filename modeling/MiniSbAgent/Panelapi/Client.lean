import MiniSbAgent.Counter.Traffic
import MiniSbAgent.Panelapi.Topology

/-!
# The client of one panel node

`PushTraffic` picks the inbounds of its node out of a delta, adds them up by user, and posts the numeric users as a
map from numbers to amounts; `FetchUsers` reads the users of the node.  The network is a parameter: `urlOk` says
which URLs parse, and an `Exchange` is what the one HTTP request of a call brings back.

* `Push` is the result of a push together with the request it sent, which is what the panel gets to see;
* `lookup_payload` — when the numeric keys are decimal numbers as `Itoa` writes them, the payload holds each user's
  amount under the user's own number;
* `getD_flat_node` — a node client sends what its own inbound counted, and nothing else.
-/

namespace MiniSbAgent.Panelapi

open MiniSbAgent.Go MiniSbAgent.Counter

structure User where
  id : ℤ
  uuid : String
  password : String
  name : String
  speedLimit : ℤ
deriving Repr, DecidableEq

structure UserList where
  users : List User
  data : List User
deriving Repr, DecidableEq

structure Client where
  baseURL : String
  token : String
  nodeID : String
  nodeType : String
  inboundTag : String
deriving Repr, DecidableEq

/-- What a request brings back: an error of the transport, or a status code and a body. -/
inductive Exchange (β : Type)
  | failed
  | answered (statusCode : ℤ) (body : β)
deriving Repr, DecidableEq

/-- `StatusCode/100 == 2`. -/
def Exchange.Accepted {β : Type} : Exchange β → Prop
  | .failed => False
  | .answered code _ => code.tdiv 100 = 2

instance {β : Type} (ex : Exchange β) : Decidable ex.Accepted := by
  cases ex <;> unfold Exchange.Accepted <;> infer_instance

inductive PanelError
  /-- `panel api base url is empty` -/
  | emptyBaseURL
  /-- of `url.Parse` -/
  | badURL (url : String)
  /-- of `HTTP.do` -/
  | transport
  /-- `panel api user status %s` -/
  | userStatus (code : ℤ)
  /-- `panel api push status %s` -/
  | pushStatus (code : ℤ)
  /-- of `json.Unmarshal` -/
  | badBody
deriving Repr, DecidableEq

/-- A URL and the parameters set on it. -/
structure Endpoint where
  url : String
  query : List (String × String)
deriving Repr, DecidableEq

def isNumericUser (user : String) : Bool := decide (user ≠ "") && user.toList.all isDigitRune

namespace Client

def new (baseURL token nodeID nodeType : String) : Client :=
  ⟨trimRight baseURL '/', token, nodeID, nodeType, ""⟩

def newNode (baseURL token : String) (node : NodeSpec) : Client :=
  { new baseURL token node.nodeID node.panelNodeType with inboundTag := node.inboundTag }

section Requests

variable (urlOk : String → Bool)

def endpoint (c : Client) (path : String) : Except PanelError Endpoint :=
  if c.baseURL = "" then .error .emptyBaseURL
  else if urlOk (c.baseURL ++ path) = false then .error (.badURL (c.baseURL ++ path))
  else .ok ⟨c.baseURL ++ path,
    (if c.token ≠ "" then [("token", c.token)] else []) ++
    (if c.nodeID ≠ "" then [("node_id", c.nodeID)] else []) ++
    (if c.nodeType ≠ "" then [("node_type", c.nodeType)] else [])⟩

/-- The defaults of the loop over the fetched users. -/
def fillUser (u : User) : User :=
  { u with
    password := if u.password = "" then u.uuid else u.password
    name := if u.name = "" then itoa u.id else u.name }

/-- The body is the decoded list, or `none` when it does not decode. -/
def fetchUsers (c : Client) (ex : Exchange (Option UserList)) : Except PanelError (List User) :=
  match c.endpoint urlOk "/api/v1/server/UniProxy/user" with
  | .error e => .error e
  | .ok _ =>
    match ex with
    | .failed => .error .transport
    | .answered code body =>
      if code.tdiv 100 ≠ 2 then .error (.userStatus code)
      else
        match body with
        | none => .error .badBody
        | some list => .ok ((if list.users = [] then list.data else list.users).map fillUser)

end Requests

def matchesInbound (c : Client) (tag : String) : Bool :=
  if c.inboundTag ≠ "" then tag == c.inboundTag
  else
    let t := toLower c.nodeType
    if t = "vless" ∨ t = "vless-reality" ∨ t = "reality" then tag == "vless-in"
    else if t = "hy2" ∨ t = "hysteria" ∨ t = "hysteria2" then tag == "hy2-in"
    else contains (toLower tag) (toLower c.nodeType)

/-- The numeric users of the inbounds of the client, in the order in which they are met. -/
def flatEntries (c : Client) (delta : Delta) : List (String × ℤ × ℤ) :=
  delta.entries.flatMap fun e =>
    if c.matchesInbound e.1 then (e.2.entries.filter fun u => isNumericUser u.1).map fun u => (u.1, u.2) else []

def flat (c : Client) (delta : Delta) : GoMap String (ℤ × ℤ) := tally ∅ (c.flatEntries delta)

/-- The tags of the client; `PushTraffic` acknowledges them on success. -/
def ackedTags (c : Client) (delta : Delta) : GoMap String Bool :=
  collect (fun tag _ => if c.matchesInbound tag then some true else none) delta

end Client

/-- `PushRequest`, whose values are pairs of amounts. -/
abbrev PushRequest := GoMap ℤ (ℤ × ℤ)

/-- The loop that fills the payload: a key that is no `int` is skipped, and a later key of the same number wins. -/
def payload (o : RangeOrder ((_ : String) × ℤ × ℤ)) (flat : GoMap String (ℤ × ℤ)) : PushRequest :=
  writes ∅ ((o.visit flat.entries).filterMap fun e => (atoi e.1).map fun uid => (uid, e.2))

/-- What `PushTraffic` returns, and the request it sent, if it sent one. -/
structure Push where
  acked : GoMap String Bool
  err : Option PanelError
  sent : Option (Endpoint × PushRequest)

/-- `ex` is what the panel does with the request. -/
def Client.pushTraffic (urlOk : String → Bool) (o : RangeOrder ((_ : String) × ℤ × ℤ)) (c : Client)
    (delta : Delta) (ex : Exchange Unit) : Push :=
  if isEmpty (c.flat delta) then ⟨c.ackedTags delta, none, none⟩
  else
    match c.endpoint urlOk "/api/v1/server/UniProxy/push" with
    | .error e => ⟨∅, some e, none⟩
    | .ok ep =>
      let payload := payload o (c.flat delta)
      if isEmpty payload then ⟨c.ackedTags delta, none, none⟩
      else
        match ex with
        | .failed => ⟨∅, some .transport, some (ep, payload)⟩
        | .answered code _ =>
          if code.tdiv 100 ≠ 2 then ⟨∅, some (.pushStatus code), some (ep, payload)⟩
          else ⟨c.ackedTags delta, none, some (ep, payload)⟩

/-! ### Numeric users -/

/-- A key that is all digits is the decimal form of an `int`. -/
def Canonical (user : String) : Prop :=
  isNumericUser user = true → ∃ id : ℤ, 0 ≤ id ∧ id ≤ maxInt64 ∧ user = itoa id

theorem isNumericUser_itoa {id : ℤ} (h : 0 ≤ id) : isNumericUser (itoa id) = true := by
  obtain ⟨k, rfl⟩ := Int.eq_ofNat_of_zero_le h
  unfold isNumericUser
  rw [Bool.and_eq_true, decide_eq_true_eq]
  refine ⟨fun he => ?_, ?_⟩
  · have := congrArg String.toList he
    rw [toList_itoa_ofNat] at this
    exact Nat.toDigits_ne_nil this
  · rw [toList_itoa_ofNat, List.all_eq_true]
    intro c hc
    rw [isDigitRune_eq]
    exact Nat.isDigit_of_mem_toDigits (by decide) (by decide) hc

/-! ### What a push sends -/

/-- Skipping the keys that are not numeric skips no amount of a numeric key. -/
theorem sum_filter_numeric {user : String} (hnum : isNumericUser user = true) (us : List ((_ : String) × ℤ × ℤ)) :
    ((us.filter fun u => isNumericUser u.1).map fun u => if u.1 = user then u.2 else 0).sum =
      (us.map fun u => if u.1 = user then u.2 else 0).sum := by
  induction us with
  | nil => rfl
  | cons u us ih =>
    by_cases hu : isNumericUser u.1 = true
    · simp only [List.filter_cons, hu, if_true, List.map_cons, List.sum_cons, ih]
    · have hne : u.1 ≠ user := fun h => hu (h ▸ hnum)
      simp only [List.filter_cons, if_neg hu, ih, List.map_cons, List.sum_cons, if_neg hne, zero_add]

/-- The sum over the inbounds of the client that `flat` holds for a numeric user. -/
theorem getD_flat (c : Client) (delta : Delta) {user : String} (hnum : isNumericUser user = true) :
    ((c.flat delta).lookup user).getD 0 =
      (delta.entries.map fun e => if c.matchesInbound e.1 then (e.2.lookup user).getD 0 else 0).sum := by
  unfold Client.flat Client.flatEntries
  rw [getD_lookup_tally]
  simp only [AList.lookup_empty, Option.getD_none, zero_add]
  generalize delta.entries = l
  induction l with
  | nil => rfl
  | cons e l ih =>
    rw [List.flatMap_cons, List.map_append, List.sum_append, ih, List.map_cons, List.sum_cons]
    congr 1
    by_cases hm : c.matchesInbound e.1 = true
    · have hsum : (e.2.entries.map fun u => if u.1 = user then u.2 else 0).sum = (e.2.lookup user).getD 0 := by
        simpa using sum_entries e.2 user id
      rw [if_pos hm, if_pos hm, ← hsum, ← sum_filter_numeric hnum, List.map_map]
      rfl
    · rw [if_neg hm, if_neg hm]
      rfl

theorem mem_flat (c : Client) (delta : Delta) (user : String) :
    user ∈ c.flat delta ↔ isNumericUser user = true ∧
      ∃ tag users, delta.lookup tag = some users ∧ c.matchesInbound tag = true ∧ user ∈ users := by
  unfold Client.flat Client.flatEntries
  rw [mem_tally]
  simp only [AList.notMem_empty, false_or, List.map_flatMap, List.mem_flatMap]
  constructor
  · rintro ⟨⟨tag, users⟩, he, hu⟩
    split at hu
    · rename_i hm
      simp only [List.map_map, List.mem_map, List.mem_filter] at hu
      obtain ⟨⟨u, d⟩, ⟨hud, hnum⟩, rfl⟩ := hu
      have hin : u ∈ users := by rw [← AList.lookup_isSome, (mem_entries_iff users).1 hud]; rfl
      exact ⟨hnum, tag, users, (mem_entries_iff delta).1 he, hm, hin⟩
    · simp at hu
  · rintro ⟨hnum, tag, users, hl, hm, hu⟩
    obtain ⟨d, hd⟩ := Option.isSome_iff_exists.1 (AList.lookup_isSome.2 hu)
    refine ⟨⟨tag, users⟩, (mem_entries_iff delta).2 hl, ?_⟩
    rw [if_pos hm]
    simp only [List.map_map, List.mem_map, List.mem_filter]
    exact ⟨⟨user, d⟩, ⟨(mem_entries_iff users).2 hd, hnum⟩, rfl⟩

/-- **Each user is sent under the user's own number**, whatever the order of the loop. -/
theorem lookup_payload (o : RangeOrder ((_ : String) × ℤ × ℤ)) {flat : GoMap String (ℤ × ℤ)}
    (hnum : ∀ user ∈ flat, isNumericUser user = true) (hcan : ∀ user ∈ flat, Canonical user) {uid : ℤ}
    (h0 : 0 ≤ uid) (h1 : uid ≤ maxInt64) : (payload o flat).lookup uid = flat.lookup (itoa uid) := by
  have hmem : ∀ v, (uid, v) ∈ (o.visit flat.entries).filterMap (fun e => (atoi e.1).map fun id => (id, e.2)) ↔
      flat.lookup (itoa uid) = some v := by
    intro v
    simp only [List.mem_filterMap, Option.map_eq_some_iff, Prod.mk.injEq]
    constructor
    · rintro ⟨⟨user, d⟩, he, id, hid, rfl, rfl⟩
      have hl := (mem_range_iff o flat).1 he
      have hin : user ∈ flat := by rw [← AList.lookup_isSome, hl]; rfl
      obtain ⟨id', h0', h1', rfl⟩ := hcan user hin (hnum user hin)
      rw [atoi_itoa h0' h1'] at hid
      cases hid
      exact hl
    · intro hl
      exact ⟨⟨itoa uid, v⟩, (mem_range_iff o flat).2 hl, uid, atoi_itoa h0 h1, rfl, rfl⟩
  refine Option.ext fun v => ?_
  unfold payload
  rw [lookup_writes_iff, hmem]
  intro v' h' v'' h''
  rw [hmem] at h' h''
  rw [h'] at h''
  exact Option.some.inj h''

/-! ### The client of a topology node -/

section Node

variable (baseURL token : String) (node : NodeSpec)

theorem inboundTag_newNode : (Client.newNode baseURL token node).inboundTag = node.inboundTag := by
  simp only [Client.newNode]

theorem matchesInbound_newNode (tag : String) :
    (Client.newNode baseURL token node).matchesInbound tag = true ↔ tag = node.inboundTag := by
  unfold Client.matchesInbound
  rw [inboundTag_newNode, if_pos node.inboundTag_ne_empty, beq_iff_eq]

/-- **A node client sends what its own inbound counted**, and nothing else. -/
theorem getD_flat_node (delta : Delta) {user : String} (hnum : isNumericUser user = true) :
    (((Client.newNode baseURL token node).flat delta).lookup user).getD 0 =
      (lookup₂ delta node.inboundTag user).getD 0 := by
  rw [getD_flat _ _ hnum]
  simp only [matchesInbound_newNode]
  rw [sum_entries delta node.inboundTag fun users => (users.lookup user).getD 0]
  unfold lookup₂
  rcases delta.lookup node.inboundTag with _ | users <;> rfl

end Node

/-! ### What the panel books -/

/-- The amounts the panel books: the payload, when a request was sent and accepted. -/
def Push.booked (p : Push) (ex : Exchange Unit) : PushRequest :=
  match p.sent with
  | some (_, payload) => if ex.Accepted then payload else ∅
  | none => ∅

section Outcome

variable (urlOk : String → Bool) (o : RangeOrder ((_ : String) × ℤ × ℤ)) (c : Client) (delta : Delta)
  (ex : Exchange Unit)

/-- When a push fails: it has something to send, and the URL does not parse or the panel does not accept. -/
def Client.PushFails : Prop :=
  isEmpty (c.flat delta) = false ∧
    ((∃ e, c.endpoint urlOk "/api/v1/server/UniProxy/push" = .error e) ∨
      isEmpty (payload o (c.flat delta)) = false ∧ ¬ ex.Accepted)

theorem isEmpty_payload (hflat : isEmpty (c.flat delta) = true) : isEmpty (payload o (c.flat delta)) = true := by
  unfold isEmpty at hflat
  rw [List.isEmpty_iff] at hflat
  unfold payload
  rw [hflat, List.Perm.eq_nil (o.perm [])]
  rfl

variable {urlOk o c delta ex}

/-- **A push that fails** acknowledges nothing and books nothing. -/
theorem pushTraffic_of_fails (h : c.PushFails urlOk o delta ex) :
    (c.pushTraffic urlOk o delta ex).acked = ∅ ∧ (c.pushTraffic urlOk o delta ex).err ≠ none ∧
      (c.pushTraffic urlOk o delta ex).booked ex = ∅ := by
  obtain ⟨hflat, hfail⟩ := h
  unfold Client.pushTraffic
  rcases hep : c.endpoint urlOk "/api/v1/server/UniProxy/push" with e | ep
  · simp [hflat, Push.booked]
  · obtain ⟨hpay, hacc⟩ : isEmpty (payload o (c.flat delta)) = false ∧ ¬ ex.Accepted := by
      rcases hfail with ⟨e, he⟩ | hfail
      · rw [hep] at he; cases he
      · exact hfail
    cases ex with
    | failed => simp [hflat, hpay, Push.booked, Exchange.Accepted]
    | answered code body =>
      have hcode : ¬ code.tdiv 100 = 2 := hacc
      simp [hflat, hpay, hcode, Push.booked, Exchange.Accepted]

/-- **A push that does not fail** acknowledges the tags of the client and books the payload. -/
theorem pushTraffic_of_not_fails (h : ¬ c.PushFails urlOk o delta ex) :
    (c.pushTraffic urlOk o delta ex).acked = c.ackedTags delta ∧ (c.pushTraffic urlOk o delta ex).err = none ∧
      ∀ uid, ((c.pushTraffic urlOk o delta ex).booked ex).lookup uid = (payload o (c.flat delta)).lookup uid := by
  have hnil : isEmpty (payload o (c.flat delta)) = true →
      ∀ uid, (∅ : PushRequest).lookup uid = (payload o (c.flat delta)).lookup uid := by
    intro hpay uid
    rw [(isEmpty_iff _).1 hpay uid, AList.lookup_empty]
  unfold Client.pushTraffic
  by_cases hflat : isEmpty (c.flat delta) = true
  · simp only [hflat, if_true, Push.booked, true_and]
    exact hnil (isEmpty_payload o c delta hflat)
  rw [Bool.not_eq_true] at hflat
  rcases hep : c.endpoint urlOk "/api/v1/server/UniProxy/push" with e | ep
  · exact absurd ⟨hflat, Or.inl ⟨e, hep⟩⟩ h
  by_cases hpay : isEmpty (payload o (c.flat delta)) = true
  · simp only [hflat, hpay, Bool.false_eq_true, if_false, if_true, Push.booked, true_and]
    exact hnil hpay
  rw [Bool.not_eq_true] at hpay
  have hacc : ex.Accepted := by
    by_contra hacc
    exact h ⟨hflat, Or.inr ⟨hpay, hacc⟩⟩
  cases ex with
  | failed => exact hacc.elim
  | answered code body =>
    have hcode : code.tdiv 100 = 2 := hacc
    simp [hflat, hpay, hcode, Push.booked, Exchange.Accepted]

theorem pushTraffic_err_iff : (c.pushTraffic urlOk o delta ex).err = none ↔ ¬ c.PushFails urlOk o delta ex :=
  ⟨fun h hf => (pushTraffic_of_fails hf).2.1 h, fun h => (pushTraffic_of_not_fails h).2.1⟩

end Outcome

end MiniSbAgent.Panelapi
