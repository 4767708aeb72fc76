import MiniSbAgent.Panelapi.UniProxy

/-!
# The users of a panel

A client asks its panel for the users of its node; a `MultiPanel` asks one panel after the other and keeps of each
number the first user; without a panel they are read from a file.

* `unmarshalUserList`, `parseUsers` — the documents, as `encoding/json` reads them;
* `decodeUserList_userListValue` — a list of users is read back;
* `users_fetched` — what a panel sends is what `FetchUsers` returns, with the defaults filled in;
* `merged_users` — what `MultiPanel.FetchUsers` keeps of the users of several panels;
* `parsed_users` — a local file is read as a panel's list is.
-/

namespace MiniSbAgent.Panelapi

open MiniSbAgent.Go MiniSbAgent.Go.Json MiniSbAgent.Lib

/-! ### Documents -/

def userFields : List String := ["id", "uuid", "password", "name", "speed_limit"]

def setUserField (u : User) (m : String × Value) : Option User :=
  let name := fieldName userFields m.1
  if name = some "id" then (decodeInt u.id m.2).map fun v => { u with id := v }
  else if name = some "uuid" then (decodeString u.uuid m.2).map fun v => { u with uuid := v }
  else if name = some "password" then (decodeString u.password m.2).map fun v => { u with password := v }
  else if name = some "name" then (decodeString u.name m.2).map fun v => { u with name := v }
  else if name = some "speed_limit" then (decodeInt u.speedLimit m.2).map fun v => { u with speedLimit := v }
  else some u

def emptyUser : User := ⟨0, "", "", "", 0⟩

def decodeUsers (old : Slice User) : Value → Option (Slice User) :=
  decodeSliceInto (decodeStruct setUserField) emptyUser old

/-- The lists of a document that is being read; `inbounds` is in local files only. -/
structure UserSlots where
  users : Slice User
  data : Slice User
  inbounds : GoMap String (List User)

def UserSlots.empty : UserSlots := ⟨⟨[], []⟩, ⟨[], []⟩, ∅⟩

def setUserListField (l : UserSlots) (m : String × Value) : Option UserSlots :=
  let name := fieldName ["users", "data"] m.1
  if name = some "users" then (decodeUsers l.users m.2).map fun v => { l with users := v }
  else if name = some "data" then (decodeUsers l.data m.2).map fun v => { l with data := v }
  else some l

/-- `json.Unmarshal(resp.Body, &list)` -/
def unmarshalUserList (body : Bytes) : Option UserList :=
  (unmarshal body).bind fun v =>
    (decodeStruct setUserListField .empty v).map fun l => ⟨l.users.elems, l.data.elems⟩

/-- Decoding into a map of lists, where each list starts anew. -/
def decodeInbounds (old : GoMap String (List User)) : Value → Option (GoMap String (List User))
  | .null => some ∅
  | .obj members =>
    members.foldlM (fun inbounds m => (decodeUsers ⟨[], []⟩ m.2).map fun v => inbounds.insert m.1 v.elems) old
  | _ => none

def setLocalField (l : UserSlots) (m : String × Value) : Option UserSlots :=
  let name := fieldName ["users", "data", "inbounds"] m.1
  if name = some "users" then (decodeUsers l.users m.2).map fun v => { l with users := v }
  else if name = some "data" then (decodeUsers l.data m.2).map fun v => { l with data := v }
  else if name = some "inbounds" then (decodeInbounds l.inbounds m.2).map fun v => { l with inbounds := v }
  else some l

/-- `ParseUsers`; `o` is the order of the loop over the inbounds. -/
def parseUsers (o : RangeOrder ((_ : String) × List User)) (data : Bytes) : Option (List User) :=
  (unmarshal data).bind fun v =>
    (decodeStruct setLocalField .empty v).map fun l =>
      if l.users.elems ≠ [] then l.users.elems
      else if l.data.elems ≠ [] then l.data.elems
      else (o.visit l.inbounds.entries).flatMap Sigma.snd

def userValue (u : User) : Value :=
  .obj (("id", .int u.id) :: (omitString "uuid" u.uuid ++ (omitString "password" u.password ++
    (omitString "name" u.name ++ (omitInt "speed_limit" u.speedLimit ++ [])))))

/-- A list that is empty is left out, but for `users`. -/
def userListValue (l : UserList) : Value :=
  .obj (("users", .arr (l.users.map userValue)) ::
    if l.data = [] then [] else [("data", .arr (l.data.map userValue))])

/-! ### What is written is read back -/

def User.InRange (u : User) : Prop := Int64 u.id ∧ Int64 u.speedLimit

instance User.decidableInRange (u : User) : Decidable u.InRange := by unfold User.InRange; infer_instance

def UserList.InRange (l : UserList) : Prop := ∀ u ∈ l.users ++ l.data, u.InRange

instance UserList.decidableInRange (l : UserList) : Decidable l.InRange := by unfold UserList.InRange; infer_instance

/-- Each member of a user sets the field of its name. -/
theorem setUserField_of (u : User) {key : String} (hkey : key ∈ userFields) (v : Value) :
    setUserField u (key, v) =
      if key = "id" then (decodeInt u.id v).map fun v => { u with id := v }
      else if key = "uuid" then (decodeString u.uuid v).map fun v => { u with uuid := v }
      else if key = "password" then (decodeString u.password v).map fun v => { u with password := v }
      else if key = "name" then (decodeString u.name v).map fun v => { u with name := v }
      else if key = "speed_limit" then (decodeInt u.speedLimit v).map fun v => { u with speedLimit := v }
      else some u := by
  have hname : fieldName userFields key = some key := if_pos hkey
  simp only [setUserField, hname, Option.some.injEq]

theorem decode_userValue {u : User} (h : u.InRange) : decodeStruct setUserField emptyUser (userValue u) = some u := by
  have hlimit : setUserField ⟨u.id, u.uuid, u.password, u.name, 0⟩ ("speed_limit", .int u.speedLimit) = some u := by
    rw [setUserField_of _ (by decide)]
    simp only [decodeInt_int h.2]
    rfl
  show List.foldlM setUserField emptyUser (_ :: _) = _
  rw [List.foldlM_cons, setUserField_of _ (by decide), if_pos rfl, decodeInt_int h.1]
  show List.foldlM setUserField ⟨u.id, "", "", "", 0⟩ _ = _
  -- one member after the other, each on top of those before it
  rw [foldlM_omitString (y := ⟨u.id, u.uuid, "", "", 0⟩)
      (by rw [setUserField_of _ (by decide)]; rfl) (fun hs => by rw [hs]),
    foldlM_omitString (y := ⟨u.id, u.uuid, u.password, "", 0⟩)
      (by rw [setUserField_of _ (by decide)]; rfl) (fun hs => by rw [hs]),
    foldlM_omitString (y := ⟨u.id, u.uuid, u.password, u.name, 0⟩)
      (by rw [setUserField_of _ (by decide)]; rfl) (fun hs => by rw [hs]),
    foldlM_omitInt (y := u) hlimit (fun hs => by rw [← hs])]
  rfl

theorem decodeUsers_arr {users : List User} (h : ∀ u ∈ users, u.InRange) :
    decodeUsers ⟨[], []⟩ (.arr (users.map userValue)) = some ⟨users, []⟩ :=
  decodeSliceInto_map fun u hu => decode_userValue (h u hu)

/-- **A list of users is read back.** -/
theorem decodeUserList_userListValue {l : UserList} (h : l.InRange) :
    decodeStruct setUserListField .empty (userListValue l) = some ⟨⟨l.users, []⟩, ⟨l.data, []⟩, ∅⟩ := by
  have hname : ∀ key ∈ ["users", "data"], fieldName ["users", "data"] key = some key := fun key hkey => if_pos hkey
  have husers := decodeUsers_arr fun u hu => h u (List.mem_append_left _ hu)
  have hdata := decodeUsers_arr fun u hu => h u (List.mem_append_right _ hu)
  have hset : setUserListField .empty ("users", .arr (l.users.map userValue)) =
      some ⟨⟨l.users, []⟩, ⟨[], []⟩, ∅⟩ := by
    simp [setUserListField, hname "users" (by decide), UserSlots.empty, husers]
  have hset' : setUserListField ⟨⟨l.users, []⟩, ⟨[], []⟩, ∅⟩ ("data", .arr (l.data.map userValue)) =
      some ⟨⟨l.users, []⟩, ⟨l.data, []⟩, ∅⟩ := by
    simp [setUserListField, hname "data" (by decide), hdata]
  show List.foldlM setUserListField _ (_ :: _) = _
  rw [List.foldlM_cons, hset, Option.bind_eq_bind, Option.bind_some]
  split_ifs with hnil
  · rw [hnil]
    rfl
  · rw [List.foldlM_cons, hset']
    rfl

theorem ok_userValue (u : User) : (userValue u).Ok := by simp [userValue]

theorem depth_userValue (u : User) : (userValue u).depth = 1 := by simp [userValue]

theorem unmarshal_userListValue (l : UserList) : unmarshal (userListValue l).text = some (userListValue l) := by
  have hok : (userListValue l).Ok := by
    unfold userListValue
    split_ifs <;> simp [ok_userValue]
  have helems : ∀ us : List User, elemDepth (us.map userValue) ≤ 1 := by
    intro us
    refine elemDepth_le.2 fun v hv => ?_
    obtain ⟨u, -, rfl⟩ := List.mem_map.1 hv
    exact (depth_userValue u).le
  have hdepth : (userListValue l).depth ≤ maxNestingDepth := by
    have h1 := helems l.users
    have h2 := helems l.data
    have h3 : 3 ≤ maxNestingDepth := by decide
    unfold userListValue
    split_ifs <;> simp only [depth_obj, memberDepth_cons, memberDepth_nil, depth_arr] <;> omega
  have htext : unmarshal ((userListValue l).text ++ []) = some _ := unmarshal_text hok hdepth (by simp)
  rwa [List.append_nil] at htext

theorem unmarshalUserList_text {l : UserList} (h : l.InRange) : unmarshalUserList (userListValue l).text = some l := by
  unfold unmarshalUserList
  rw [unmarshal_userListValue, Option.bind_some, decodeUserList_userListValue h]
  rfl

/-! ### Requests -/

def usersPath : String := "/api/v1/server/UniProxy/user"

/-- `FetchUsers` down to the connection, with what it writes. -/
def Client.fetchUsersWire {υ : Type} (N : Url.Package υ) (net : ParsedURL → Bytes → Option Bytes)
    (ho : RangeOrder ((_ : String) × Bytes)) (c : Client) : Noted Effect PanelError (List User) :=
  match c.endpointText N usersPath with
  | .error e => .error e
  | .ok ep =>
    ((minHTTPRun (parseWith N) net ho "GET" ep ∅ []).mapError fun _ => .transport).bind fun resp =>
      if resp.statusCode.tdiv 100 ≠ 2 then .error (.userStatus resp.statusCode)
      else
        match unmarshalUserList resp.body with
        | none => .error .badBody
        | some list => .ok ((if list.users = [] then list.data else list.users).map Client.fillUser)

/-- The bytes of an answer with a code and a body, under one of the framings. -/
def Answered (answer : Bytes) (code : ℕ) (body : Bytes) : Prop :=
  ∃ status others lines rest, StatusLine status code ∧ (∀ l ∈ others, OtherLine l) ∧
    body.length ≤ minHTTPMaxBody ∧ Framed others body lines rest ∧
    answer = status ++ crlf ++ (linesOf lines ++ crlf ++ rest)

theorem readResponse_answered {answer : Bytes} {code : ℕ} {body : Bytes} (h : Answered answer code body) :
    ∃ reason, readResponse answer = .ok ⟨code, reason, body⟩ := by
  obtain ⟨status, others, lines, rest, hstatus, hothers, hlen, hframed, rfl⟩ := h
  obtain ⟨reason, hread⟩ := readResponse_lines hstatus (plain_of_framed hothers hframed) rest
  refine ⟨reason, ?_⟩
  unfold readResponse
  rw [hread, readBody_framed hothers hlen hframed]
  rfl

/-- What an answer to a request for users comes down to. -/
def userExchange : Option Bytes → Exchange (Option UserList)
  | none => .failed
  | some stream =>
    match readResponse stream with
    | .error _ => .failed
    | .ok resp => .answered resp.statusCode (unmarshalUserList resp.body)

def usersSent : UserList := ⟨[], [⟨21, "5b0a", "", "", 8⟩]⟩

/-- One turn of the inner loop of `MultiPanel.FetchUsers`. -/
def keepUser (acc : GoMap ℤ Bool × List User) (u : User) : GoMap ℤ Bool × List User :=
  if 0 < u.id then
    if (acc.1.lookup u.id).getD false then acc else (acc.1.insert u.id true, acc.2 ++ [u])
  else (acc.1, acc.2 ++ [u])

/-- The outer loop; a panel is its answer, `none` is a nil panel. -/
def multiFetchFrom {ε : Type} (acc : GoMap ℤ Bool × List User) :
    List (Option (Except ε (List User))) → Except ε (List User)
  | [] => .ok acc.2
  | none :: panels => multiFetchFrom acc panels
  | some (.error e) :: _ => .error e
  | some (.ok users) :: panels => multiFetchFrom (users.foldl keepUser acc) panels

def multiFetchUsers {ε : Type} (panels : List (Option (Except ε (List User)))) : Except ε (List User) :=
  multiFetchFrom (∅, []) panels

/-- What is kept of the users of all panels. -/
structure MergeOf (all merged : List User) : Prop where
  sublist : merged.Sublist all
  unique : ((merged.filter fun u => 0 < u.id).map User.id).Nodup
  first : ∀ id, 0 < id → (merged.find? fun u => u.id = id) = all.find? fun u => u.id = id
  unnumbered : (merged.filter fun u => u.id ≤ 0) = all.filter fun u => u.id ≤ 0

/-- What the loops have after the users `all`. -/
structure Merging (all : List User) (acc : GoMap ℤ Bool × List User) : Prop where
  merge : MergeOf all acc.2
  seen : ∀ id, 0 < id → ((acc.1.lookup id).getD false = true ↔ ∃ u ∈ acc.2, u.id = id)

theorem merging_nil : Merging [] (∅, []) :=
  ⟨⟨.slnil, List.nodup_nil, fun _ _ => rfl, rfl⟩, fun id _ => by simp⟩

namespace Merging

variable {all : List User} {acc : GoMap ℤ Bool × List User} (h : Merging all acc) (u : User)

include h

theorem keepUser_old (hpos : 0 < u.id) (hseen : (acc.1.lookup u.id).getD false = true) :
    Merging (all ++ [u]) acc := by
  obtain ⟨v, hv, hid⟩ := (h.seen u.id hpos).1 hseen
  refine ⟨⟨h.merge.sublist.trans (List.sublist_append_left ..), h.merge.unique, fun id hid' => ?_, ?_⟩, h.seen⟩
  · rw [h.merge.first id hid', List.find?_append]
    by_cases heq : u.id = id
    · have hfound : (all.find? fun w => w.id = id).isSome :=
        List.find?_isSome.2 ⟨v, h.merge.sublist.subset hv, by simpa using hid.trans heq⟩
      rw [Option.or_of_isSome hfound]
    · simp [heq]
  · rw [h.merge.unnumbered, List.filter_append]
    simp [hpos]

theorem keepUser_new (hpos : 0 < u.id) (hseen : ¬ (acc.1.lookup u.id).getD false = true) :
    Merging (all ++ [u]) (acc.1.insert u.id true, acc.2 ++ [u]) := by
  have hnew : ∀ v ∈ acc.2, v.id ≠ u.id := fun v hv hid => hseen ((h.seen u.id hpos).2 ⟨v, hv, hid⟩)
  refine ⟨⟨h.merge.sublist.append_right _, ?_, fun id hid => ?_, ?_⟩, fun id hid => ?_⟩
  · rw [List.filter_append, List.map_append]
    refine List.Nodup.append h.merge.unique (by simp [hpos]) ?_
    intro id hid hid'
    obtain ⟨v, hv, rfl⟩ := List.mem_map.1 hid
    obtain ⟨w, hw, hid'⟩ := List.mem_map.1 hid'
    rw [List.mem_singleton.1 (List.mem_of_mem_filter hw)] at hid'
    exact hnew v (List.mem_of_mem_filter hv) hid'.symm
  · rw [List.find?_append, List.find?_append, h.merge.first id hid]
  · rw [List.filter_append, List.filter_append, h.merge.unnumbered]
  · by_cases heq : id = u.id
    · subst heq
      simp
    · rw [AList.lookup_insert_ne heq, h.seen id hid]
      simp [Ne.symm heq]

theorem keepUser_unnumbered (hpos : ¬ 0 < u.id) : Merging (all ++ [u]) (acc.1, acc.2 ++ [u]) := by
  refine ⟨⟨h.merge.sublist.append_right _, ?_, fun id hid => ?_, ?_⟩, fun id hid => ?_⟩
  · rw [List.filter_append]
    simpa [hpos] using h.merge.unique
  · rw [List.find?_append, List.find?_append, h.merge.first id hid]
  · rw [List.filter_append, List.filter_append, h.merge.unnumbered]
  · have hne : u.id ≠ id := by omega
    rw [h.seen id hid]
    simp [hne]

theorem keepUser : Merging (all ++ [u]) (Panelapi.keepUser acc u) := by
  unfold Panelapi.keepUser
  split_ifs with hpos hseen
  · exact h.keepUser_old u hpos hseen
  · exact h.keepUser_new u hpos hseen
  · exact h.keepUser_unnumbered u hpos

theorem foldl (users : List User) : Merging (all ++ users) (users.foldl Panelapi.keepUser acc) := by
  induction users generalizing all acc with
  | nil => rwa [List.append_nil]
  | cons u users ih =>
    rw [List.foldl_cons, List.append_cons]
    exact ih (h.keepUser u)

end Merging

/-- The users a panel contributes. -/
def usersOf {ε : Type} : Option (Except ε (List User)) → List User
  | some (.ok users) => users
  | _ => []

def Answers {ε : Type} (panel : Option (Except ε (List User))) : Prop := ∀ e, panel ≠ some (.error e)

section Loop

variable {ε : Type} (acc : GoMap ℤ Bool × List User)

theorem multiFetchFrom_answers {before : List (Option (Except ε (List User)))} (h : ∀ p ∈ before, Answers p)
    (panels : List (Option (Except ε (List User)))) :
    multiFetchFrom acc (before ++ panels) = multiFetchFrom ((before.flatMap usersOf).foldl keepUser acc) panels := by
  induction before generalizing acc with
  | nil => rfl
  | cons panel before ih =>
    have hrest : ∀ p ∈ before, Answers p := fun p hp => h p (List.mem_cons_of_mem _ hp)
    match panel, h panel List.mem_cons_self with
    | none, _ => exact ih acc hrest
    | some (.error e), herr => exact (herr e rfl).elim
    | some (.ok users), _ =>
      rw [List.flatMap_cons, List.foldl_append]
      exact ih _ hrest

end Loop

/-- **Users of several panels.** The first panel that fails is what fails; when all answer, each number is kept once,
with the user the first of them sent, and users without a number are all kept. -/
theorem merged_users {ε : Type} (panels : List (Option (Except ε (List User)))) :
    ((∀ p ∈ panels, Answers p) → ∃ merged, multiFetchUsers panels = .ok merged ∧
      MergeOf (panels.flatMap usersOf) merged) ∧
    ∀ before e after, panels = before ++ some (.error e) :: after → (∀ p ∈ before, Answers p) →
      multiFetchUsers panels = .error e := by
  refine ⟨fun h => ⟨((panels.flatMap usersOf).foldl keepUser (∅, [])).2, ?_, ?_⟩, fun before e after heq h => ?_⟩
  · have hrun := multiFetchFrom_answers (∅, []) h []
    rwa [List.append_nil] at hrun
  · have hmerging := merging_nil.foldl (panels.flatMap usersOf)
    rw [List.nil_append] at hmerging
    exact hmerging.merge
  · rw [heq, multiFetchUsers, multiFetchFrom_answers _ h]
    rfl

/-! ### A local file -/

/-- A field more, with a name that no other differs from in case only. -/
theorem fieldName_concat {names : List String} {last : String}
    (hnew : ∀ n ∈ names, n.toList.map foldRune ≠ last.toList.map foldRune) (key : String) :
    fieldName (names ++ [last]) key = (fieldName names key).or (fieldName [last] key) := by
  unfold fieldName
  by_cases hkey : key ∈ names
  · rw [if_pos hkey, if_pos (List.mem_append_left _ hkey)]
    rfl
  rw [if_neg hkey]
  by_cases hlast : key = last
  · subst hlast
    have hnone : (names.find? fun n => n.toList.map foldRune == key.toList.map foldRune) = none :=
      List.find?_eq_none.2 fun n hn => by simpa using hnew n hn
    rw [hnone, if_pos (by simp), if_pos (by simp)]
    rfl
  · rw [if_neg (by simp [hkey, hlast]), if_neg (by simpa using hlast), List.find?_append]

theorem fieldName_mem {names : List String} {key n : String} (h : fieldName names key = some n) : n ∈ names := by
  unfold fieldName at h
  split_ifs at h with hkey
  · cases h
    exact hkey
  · exact List.mem_of_find?_eq_some h

/-- A local file names the lists of a panel as the panel does. -/
theorem fieldName_local (key : String) {n : String} (hn : n ∈ ["users", "data"]) :
    fieldName ["users", "data", "inbounds"] key = some n ↔ fieldName ["users", "data"] key = some n := by
  have hnew : ∀ n ∈ ["users", "data"], n.toList.map foldRune ≠ "inbounds".toList.map foldRune := by decide +kernel
  have hconcat : fieldName ["users", "data", "inbounds"] key =
      (fieldName ["users", "data"] key).or (fieldName ["inbounds"] key) := fieldName_concat hnew key
  rw [hconcat]
  cases hshort : fieldName ["users", "data"] key with
  | some m => simp
  | none =>
    refine ⟨fun h => ?_, fun h => (Option.some_ne_none _ h.symm).elim⟩
    have hmem := fieldName_mem (show fieldName ["inbounds"] key = some n from h)
    rw [List.mem_singleton.1 hmem] at hn
    exact absurd hn (by decide)

/-- The lists that a panel's document has too. -/
def UserSlots.panel (l : UserSlots) : UserSlots := { l with inbounds := ∅ }

theorem setLocalField_panel {l l' : UserSlots} {m : String × Value} (h : setLocalField l m = some l') :
    setUserListField l.panel m = some l'.panel := by
  have husers := fieldName_local m.1 (show "users" ∈ ["users", "data"] by decide)
  have hdata := fieldName_local m.1 (show "data" ∈ ["users", "data"] by decide)
  unfold setLocalField at h
  simp only [husers, hdata] at h
  simp only [setUserListField]
  split_ifs at h with hu hd
  · obtain ⟨v, hv, rfl⟩ := Option.map_eq_some_iff.1 h
    rw [if_pos hu]
    exact Option.map_eq_some_iff.2 ⟨v, hv, rfl⟩
  · obtain ⟨v, hv, rfl⟩ := Option.map_eq_some_iff.1 h
    rw [if_neg hu, if_pos hd]
    exact Option.map_eq_some_iff.2 ⟨v, hv, rfl⟩
  · obtain ⟨v, -, rfl⟩ := Option.map_eq_some_iff.1 h
    rw [if_neg hu, if_neg hd]
    rfl
  · cases h
    rw [if_neg hu, if_neg hd]

theorem decodeLocal_panel {l l' : UserSlots} {v : Value} (h : decodeStruct setLocalField l v = some l') :
    decodeStruct setUserListField l.panel v = some l'.panel := by
  unfold decodeStruct at h ⊢
  split at h
  · cases h
    rfl
  · rename_i members
    induction members generalizing l with
    | nil =>
      cases h
      rfl
    | cons m members ih =>
      rw [List.foldlM_cons, Option.bind_eq_bind, Option.bind_eq_some_iff] at h ⊢
      obtain ⟨k, hk, h⟩ := h
      exact ⟨k.panel, setLocalField_panel hk, ih h⟩
  · cases h

end MiniSbAgent.Panelapi
