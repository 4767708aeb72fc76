import MiniSbAgent.Go.Maps
import MiniSbAgent.Lib.Roster

/-!
# The user tables of the inbounds

The fork of sing-box lets users be added to and removed from a live inbound.  A VLESS inbound keeps one list of users;
a Hysteria2 inbound keeps a list of passwords and two maps between passwords and user ids.  After every change the
whole table is handed to the authentication service with `UpdateUsers`, and what the service knows is what it was
handed last.  `AddUsers` and `DelUsers` never fail.  The field `calls` of an inbound is not one of the fork: both
methods note there what they were passed.

The services themselves are other libraries, so `AuthService` is a parameter: which user a service names for what a
connection presents is open, up to the field `handed`.

* `Vless.Follows`, `Hysteria2.Follows` — the inbound holds exactly the roster `T` (user id to credential);
* `Hysteria2.Sane` — the part of it that does not need distinct passwords: a password the service accepts leads back
  to itself through the two maps;
* `Vless.Follows.delUsers`, `.addUsers` and their Hysteria2 counterparts — both operations bring the tables from one
  roster to the next.
-/

namespace MiniSbAgent.Fork

open MiniSbAgent.Go MiniSbAgent.Lib MiniSbAgent.Lib.Roster

/-- The open connections of an inbound by number, with the user they were stored under, and those closed so far. -/
structure Conns where
  userconns : GoMap ℕ String
  closed : List ℕ

/-- The `Range` that closes the connections stored under a name. -/
def Conns.close (c : Conns) (name : String) : Conns :=
  ⟨collect (fun _ user => if user = name then none else some user) c.userconns,
    c.closed ++ (c.userconns.entries.filter fun e => e.2 = name).map Sigma.fst⟩

/-- A call of `AddUsers` or `DelUsers`, with its arguments. -/
inductive UserCall (α : Type) where
  | addUsers (users : List α)
  | delUsers (names : List String)
deriving Repr, DecidableEq

/-! ### Authentication services -/

/-- **An authentication service.**  From the credentials and users it was handed last and from what a connection
presents, it names a user.  A presented value can stand for several credentials: a VLESS request has the bytes of a
UUID, which different texts may share. -/
structure AuthService (π υ : Type) where
  standsFor : π → String → Prop
  userFor : List (String × υ) → π → Option υ
  /-- the user was handed over with a credential that the presented value stands for -/
  handed : ∀ table presented user, userFor table presented = some user →
    ∃ credential, (credential, user) ∈ table ∧ standsFor presented credential

/-- The service that compares texts; a later user of a credential replaces an earlier one. -/
def AuthService.byText (υ : Type) : AuthService String υ where
  standsFor presented credential := presented = credential
  userFor table presented := (writes ∅ table).lookup presented
  handed table presented user h := by
    rcases mem_or_of_lookup_writes h with h | h
    · simp at h
    · exact ⟨presented, h, rfl⟩

/-! ### VLESS -/

namespace Vless

structure User where
  name : String
  uuid : String
  flow : String
deriving Repr, DecidableEq

/-- The arguments of `service.UpdateUsers`. -/
structure Service where
  users : List ℕ
  uuids : List String
  flows : List String
deriving Repr, DecidableEq

structure Inbound where
  users : List User
  service : Service
  conns : Conns
  /-- the calls received so far -/
  calls : List (UserCall User)

def serviceFor (users : List User) : Service :=
  ⟨List.range users.length, users.map User.uuid, users.map User.flow⟩

namespace Inbound

def new (users : List User) : Inbound := ⟨users, serviceFor users, ⟨∅, []⟩, []⟩

def addUsers (h : Inbound) (users : List User) : Inbound :=
  { h with
    users := h.users ++ users
    service := serviceFor (h.users ++ users)
    calls := h.calls ++ [.addUsers users] }

def delUsers (h : Inbound) (names : List String) : Inbound :=
  let remaining := h.users.filter fun u => u.name ∉ names
  ⟨remaining, serviceFor remaining, names.foldl Conns.close h.conns, h.calls ++ [.delUsers names]⟩

/-- The user name that `newConnectionEx` and `newPacketConnectionEx` give a connection of the service's user. -/
def userName (h : Inbound) (userIndex : ℕ) : Option String := h.users[userIndex]?.map User.name

/-- The user name of a connection, when the service accepts what it presents. -/
def accept {π : Type} (auth : AuthService π ℕ) (h : Inbound) (presented : π) : Option String :=
  (auth.userFor (h.service.uuids.zip h.service.users) presented).bind h.userName

end Inbound

/-- The service is up to date, and every user is named by its UUID. -/
structure Sane (h : Inbound) : Prop where
  service : h.service = serviceFor h.users
  named : ∀ u ∈ h.users, u.name = u.uuid

/-- **The inbound holds the roster**: one user for each member, named by its UUID. -/
structure Follows (h : Inbound) (T : ℤ → Option String) : Prop extends Sane h where
  lists : Lists (h.users.map User.uuid) T

theorem sane_new : Sane (Inbound.new []) := ⟨rfl, fun _ hu => (nomatch hu)⟩

theorem Sane.delUsers {h : Inbound} (hs : Sane h) (names : List String) : Sane (h.delUsers names) :=
  ⟨rfl, fun u hu => hs.named u (List.mem_of_mem_filter hu)⟩

theorem Sane.addUsers {h : Inbound} (hs : Sane h) {users : List User} (hu : ∀ u ∈ users, u.name = u.uuid) :
    Sane (h.addUsers users) := by
  refine ⟨rfl, fun u hmem => ?_⟩
  rcases List.mem_append.1 hmem with hmem | hmem
  · exact hs.named u hmem
  · exact hu u hmem

/-- A connection that is accepted has for its user name a credential of the service that it presented. -/
theorem Sane.accept {π : Type} {auth : AuthService π ℕ} {h : Inbound} (hs : Sane h) {presented : π} {name : String}
    (ha : h.accept auth presented = some name) : name ∈ h.service.uuids ∧ auth.standsFor presented name := by
  obtain ⟨i, hi, hname⟩ := Option.bind_eq_some_iff.1 ha
  obtain ⟨credential, hmem, hstands⟩ := auth.handed _ _ _ hi
  obtain ⟨u, hu, rfl⟩ := Option.map_eq_some_iff.1 hname
  have huuids : h.service.uuids = h.users.map User.uuid := by rw [hs.service]; rfl
  have husers : h.service.users = List.range h.users.length := by rw [hs.service]; rfl
  rw [huuids, husers] at hmem
  -- the pair at the index of the service's user
  obtain ⟨k, hk, hzip⟩ := List.mem_iff_getElem.1 hmem
  simp only [List.getElem_zip, List.getElem_map, List.getElem_range, Prod.mk.injEq] at hzip
  obtain ⟨hcred, rfl⟩ := hzip
  obtain ⟨hlt, hget⟩ := List.getElem?_eq_some_iff.1 hu
  have hu' : u ∈ h.users := List.mem_of_getElem? hu
  have hcred : credential = u.name := by rw [hs.named u hu', ← hcred, hget]
  refine ⟨?_, hcred ▸ hstands⟩
  rw [huuids, hs.named u hu']
  exact List.mem_map_of_mem hu'

/-! #### Calls with nothing to do

The agent leaves out a call without arguments; on tables that are in order the call would be noted and no more. -/

theorem Sane.withCalls {h : Inbound} (hs : Sane h) (calls : List (UserCall User)) : Sane { h with calls := calls } :=
  ⟨hs.service, hs.named⟩

theorem Follows.withCalls {h : Inbound} {T : ℤ → Option String} (hf : Follows h T) (calls : List (UserCall User)) :
    Follows { h with calls := calls } T := ⟨hf.toSane.withCalls calls, hf.lists⟩

theorem Sane.delUsers_nil {h : Inbound} (hs : Sane h) : { h.delUsers [] with calls := h.calls } = h := by
  obtain ⟨users, service, conns, calls⟩ := h
  have hservice : service = serviceFor users := hs.service
  simp [Inbound.delUsers, hservice]

theorem Sane.addUsers_nil {h : Inbound} (hs : Sane h) : { h.addUsers [] with calls := h.calls } = h := by
  obtain ⟨users, service, conns, calls⟩ := h
  have hservice : service = serviceFor users := hs.service
  simp [Inbound.addUsers, hservice]

/-! #### Following a roster -/

variable {h : Inbound} {T T' : ℤ → Option String}

theorem Follows.delUsers (hf : Follows h T) {names : List String} (hr : Removes T T' names) (hd : Distinct T) :
    Follows (h.delUsers names) T' := by
  refine ⟨hf.toSane.delUsers names, ?_⟩
  have hmap : (h.delUsers names).users.map User.uuid = (h.users.map User.uuid).filter fun x => x ∉ names := by
    show (h.users.filter fun u => u.name ∉ names).map User.uuid = _
    rw [List.filter_map]
    refine congrArg (List.map User.uuid) (List.filter_congr fun u hu => ?_)
    simp only [Function.comp_apply, hf.named u hu]
  rw [hmap]
  exact hf.lists.remove hr hd

theorem Follows.addUsers (hf : Follows h T) {pairs : List (String × ℤ)} (ha : Adds T T' pairs) (hd : Distinct T')
    {users : List User} (hu : ∀ u ∈ users, u.name = u.uuid) (hp : users.map User.uuid = pairs.map Prod.fst) :
    Follows (h.addUsers users) T' := by
  refine ⟨hf.toSane.addUsers hu, ?_⟩
  show Lists ((h.users ++ users).map User.uuid) T'
  rw [List.map_append, hp]
  exact hf.lists.add ha hd

end Vless

/-! ### Hysteria2 -/

namespace Hysteria2

structure User where
  name : String
  password : String
deriving Repr, DecidableEq

structure Inbound where
  userNameList : List String
  uidToUuid : GoMap ℤ String
  uuidToUid : GoMap String ℤ
  /-- the ids and the passwords of the last `service.UpdateUsers` -/
  service : List ℤ × List String
  conns : Conns
  /-- the calls received so far -/
  calls : List (UserCall (User × ℤ))

/-- The loop that looks up the id of each password. -/
def serviceFor (list : List String) (uuidToUid : GoMap String ℤ) : List ℤ × List String :=
  (list.map fun uuid => (uuidToUid.lookup uuid).getD 0, list)

/-- Both maps without a password and its id. -/
def forget (tables : GoMap ℤ String × GoMap String ℤ) (name : String) : GoMap ℤ String × GoMap String ℤ :=
  (tables.1.erase ((tables.2.lookup name).getD 0), tables.2.erase name)

namespace Inbound

/-- An inbound that was configured without users. -/
def new : Inbound := ⟨[], ∅, ∅, ([], []), ⟨∅, []⟩, []⟩

/-- The users come with their ids. -/
def addUsers (h : Inbound) (users : List (User × ℤ)) : Inbound :=
  let list := h.userNameList ++ users.map fun u => u.1.password
  let uuidToUid := writes h.uuidToUid (users.map fun u => (u.1.password, u.2))
  { h with
    userNameList := list
    uuidToUid := uuidToUid
    uidToUuid := writes h.uidToUuid (users.map fun u => (u.2, u.1.password))
    service := serviceFor list uuidToUid
    calls := h.calls ++ [.addUsers users] }

def delUsers (h : Inbound) (names : List String) : Inbound :=
  let calls := h.calls ++ [.delUsers names]
  if names = [] then { h with calls := calls }
  else
    let tables := names.foldl forget (h.uidToUuid, h.uuidToUid)
    let remaining := h.userNameList.filter fun user => user ∉ names
    ⟨remaining, tables.1, tables.2, serviceFor remaining tables.2, names.foldl Conns.close h.conns, calls⟩

/-- The user name that `NewConnectionEx` and `NewPacketConnectionEx` give a connection of the service's user; one whose
id has no name is closed. -/
def userName (h : Inbound) (userID : ℤ) : Option String := h.uidToUuid.lookup userID

/-- The user name of a connection, when the service accepts what it presents. -/
def accept {π : Type} (auth : AuthService π ℤ) (h : Inbound) (presented : π) : Option String :=
  (auth.userFor (h.service.2.zip h.service.1) presented).bind h.userName

end Inbound

/-! #### Forgetting passwords -/

theorem lookup_forget_uuid (names : List String) (F : GoMap ℤ String) (G : GoMap String ℤ) (x : String) :
    (names.foldl forget (F, G)).2.lookup x = if x ∈ names then none else G.lookup x := by
  induction names generalizing F G with
  | nil => rfl
  | cons name names ih =>
    show (names.foldl forget (F.erase _, G.erase name)).2.lookup x = _
    rw [ih, lookup_erase_of]
    by_cases hx : x = name
    · simp [hx]
    · simp [hx]

theorem lookup_forget_uid (names : List String) (F : GoMap ℤ String) (G : GoMap String ℤ) {i : ℤ} (hi : i ≠ 0) :
    (names.foldl forget (F, G)).1.lookup i = if ∃ n ∈ names, G.lookup n = some i then none else F.lookup i := by
  induction names generalizing F G with
  | nil => simp
  | cons name names ih =>
    show (names.foldl forget (F.erase _, G.erase name)).1.lookup i = _
    rw [ih, lookup_erase_of]
    have hne : ∀ n, (G.erase name).lookup n = some i ↔ n ≠ name ∧ G.lookup n = some i := by
      intro n
      rw [lookup_erase_of]
      by_cases hn : n = name
      · simp [hn]
      · simp [hn]
    by_cases hname : G.lookup name = some i
    · -- the id of `name` goes now
      simp [hname]
    · have hzero : i ≠ (G.lookup name).getD 0 := by
        rcases hg : G.lookup name with _ | j
        · simpa using hi
        · rw [hg] at hname
          simpa [eq_comm] using hname
      simp only [hne, List.exists_mem_cons_iff, hname, false_or, if_neg hzero]
      refine if_congr ⟨?_, ?_⟩ rfl rfl
      · rintro ⟨n, hn, -, hg⟩
        exact ⟨n, hn, hg⟩
      · rintro ⟨n, hn, hg⟩
        exact ⟨n, hn, fun h => hname (h ▸ hg), hg⟩

/-- Nothing appears. -/
theorem lookup_of_forget_uid {names : List String} {F : GoMap ℤ String} {G : GoMap String ℤ} {i : ℤ} {x : String}
    (h : (names.foldl forget (F, G)).1.lookup i = some x) : F.lookup i = some x := by
  induction names generalizing F G with
  | nil => exact h
  | cons name names ih =>
    have := ih (F := F.erase _) (G := G.erase name) h
    rw [lookup_erase_of] at this
    split at this
    · cases this
    · exact this

/-! #### Following a roster -/

/-- The service is up to date, every password it has leads to an id, and the id back to the password. -/
structure Sane (h : Inbound) (T : ℤ → Option String) : Prop where
  service : h.service = serviceFor h.userNameList h.uuidToUid
  listed : ∀ x ∈ h.userNameList, x ∈ h.uuidToUid
  back : ∀ x i, h.uuidToUid.lookup x = some i → T i = some x ∧ h.uidToUuid.lookup i = some x

/-- **The inbound holds the roster**: its passwords in the list, and both maps between passwords and ids. -/
structure Follows (h : Inbound) (T : ℤ → Option String) : Prop extends Sane h T where
  lists : Lists h.userNameList T
  uuid : ∀ i x, T i = some x → h.uuidToUid.lookup x = some i
  uid : ∀ i x, h.uidToUuid.lookup i = some x → T i = some x

variable {h : Inbound} {T T' : ℤ → Option String}

theorem sane_new (T : ℤ → Option String) : Sane Inbound.new T :=
  ⟨rfl, fun _ hx => (nomatch hx), fun _ _ hx => (nomatch hx)⟩

/-- A connection that is accepted has for its user name a password of the service that it presented. -/
theorem Sane.accept {π : Type} {auth : AuthService π ℤ} (hs : Sane h T) {presented : π} {name : String}
    (ha : h.accept auth presented = some name) : name ∈ h.service.2 ∧ auth.standsFor presented name := by
  obtain ⟨uid, huid, hname⟩ := Option.bind_eq_some_iff.1 ha
  obtain ⟨password, hmem, hstands⟩ := auth.handed _ _ _ huid
  have hlist : h.service.2 = h.userNameList := by rw [hs.service]; rfl
  have hids : h.service.1 = h.userNameList.map fun uuid => (h.uuidToUid.lookup uuid).getD 0 := by
    rw [hs.service]
    rfl
  rw [hlist, hids] at hmem
  obtain ⟨k, hk, hzip⟩ := List.mem_iff_getElem.1 hmem
  simp only [List.getElem_zip, List.getElem_map, Prod.mk.injEq] at hzip
  obtain ⟨hcred, hid⟩ := hzip
  have hlisted : password ∈ h.userNameList := hcred ▸ List.getElem_mem _
  -- the id of the password leads back to it
  obtain ⟨i, hi⟩ := Option.isSome_iff_exists.1 (AList.lookup_isSome.2 (hs.listed password hlisted))
  rw [hcred, hi, Option.getD_some] at hid
  subst hid
  unfold Inbound.userName at hname
  rw [(hs.back password i hi).2] at hname
  cases hname
  exact ⟨hlist ▸ hlisted, hstands⟩

theorem Sane.withCalls (hs : Sane h T) (calls : List (UserCall (User × ℤ))) : Sane { h with calls := calls } T :=
  ⟨hs.service, hs.listed, hs.back⟩

theorem Follows.withCalls (hf : Follows h T) (calls : List (UserCall (User × ℤ))) :
    Follows { h with calls := calls } T :=
  { hf.toSane.withCalls calls with lists := hf.lists, uuid := hf.uuid, uid := hf.uid }

theorem delUsers_nil (h : Inbound) : { h.delUsers [] with calls := h.calls } = h := rfl

theorem calls_delUsers (h : Inbound) (names : List String) :
    (h.delUsers names).calls = h.calls ++ [.delUsers names] := by
  unfold Inbound.delUsers
  split <;> rfl

theorem Sane.addUsers_nil (hs : Sane h T) : { h.addUsers [] with calls := h.calls } = h := by
  obtain ⟨list, uid, uuid, service, conns, calls⟩ := h
  have hservice : service = serviceFor list uuid := hs.service
  simp [Inbound.addUsers, hservice]

theorem Sane.delUsers (hs : Sane h T) {names : List String} (hr : Removes T T' names)
    (hpos : ∀ i x, T i = some x → 0 < i) : Sane (h.delUsers names) T' := by
  by_cases hnil : names = []
  · subst hnil
    refine ⟨hs.service, hs.listed, fun x i hi => ?_⟩
    obtain ⟨h1, h2⟩ := hs.back x i hi
    exact ⟨hr.rest i x h1 List.not_mem_nil, h2⟩
  unfold Inbound.delUsers
  rw [if_neg hnil]
  refine ⟨rfl, fun x hx => ?_, fun x i hi => ?_⟩
  · obtain ⟨hx, hnot⟩ := List.mem_filter.1 hx
    have hnot : x ∉ names := by simpa using hnot
    show x ∈ (names.foldl forget (h.uidToUuid, h.uuidToUid)).2
    rw [← AList.lookup_isSome, lookup_forget_uuid, if_neg hnot, AList.lookup_isSome]
    exact hs.listed x hx
  · change (names.foldl forget (h.uidToUuid, h.uuidToUid)).2.lookup x = some i at hi
    rw [lookup_forget_uuid] at hi
    split at hi
    · cases hi
    · rename_i hnot
      obtain ⟨h1, h2⟩ := hs.back x i hi
      refine ⟨hr.rest i x h1 hnot, ?_⟩
      show (names.foldl forget (h.uidToUuid, h.uuidToUid)).1.lookup i = some x
      rw [lookup_forget_uid _ _ _ (hpos i x h1).ne', if_neg, h2]
      -- the id of another password is another id
      rintro ⟨n, hn, hg⟩
      have := (hs.back n i hg).1
      rw [h1] at this
      exact hnot (Option.some.inj this ▸ hn)

theorem Sane.addUsers (hs : Sane h T) {users : List (User × ℤ)}
    (ha : Adds T T' (users.map fun u => (u.1.password, u.2))) : Sane (h.addUsers users) T' := by
  have hmem : ∀ x i, (i, x) ∈ users.map (fun u => (u.2, u.1.password)) →
      (x, i) ∈ users.map (fun u => (u.1.password, u.2)) := by
    intro x i hi
    obtain ⟨u, hu, heq⟩ := List.mem_map.1 hi
    cases heq
    exact List.mem_map.2 ⟨u, hu, rfl⟩
  refine ⟨rfl, fun x hx => ?_, fun x i hi => ?_⟩
  · show x ∈ writes h.uuidToUid _
    rcases List.mem_append.1 hx with hx | hx
    · exact mem_writes_of_mem (hs.listed x hx)
    · obtain ⟨u, hu, rfl⟩ := List.mem_map.1 hx
      obtain ⟨i, hi, -⟩ := exists_lookup_writes (m := h.uuidToUid)
        (List.mem_map.2 ⟨u, hu, rfl⟩ : (u.1.password, u.2) ∈ users.map fun u => (u.1.password, u.2))
      rw [← AList.lookup_isSome, hi]
      rfl
  · show _ ∧ (writes h.uidToUuid (users.map fun u => (u.2, u.1.password))).lookup i = some x
    rcases mem_or_of_lookup_writes hi with hold | hnew
    · -- an old password: its id is not among the new ones
      obtain ⟨h1, h2⟩ := hs.back x i hold
      refine ⟨ha.sub i x h1, ?_⟩
      rw [lookup_writes_of_not_mem, h2]
      intro hkey
      obtain ⟨⟨i', x'⟩, hp, rfl⟩ := List.mem_map.1 hkey
      rw [(ha.new x' i' (hmem x' i' hp)).2] at h1
      cases h1
    · have h1 := (ha.new x i hnew).1
      refine ⟨h1, ?_⟩
      obtain ⟨u, hu, heq⟩ := List.mem_map.1 hnew
      cases heq
      refine lookup_writes_of_unique (List.mem_map.2 ⟨u, hu, rfl⟩) fun x' hx' => ?_
      have := (ha.new x' u.2 (hmem x' u.2 hx')).1
      rw [h1] at this
      exact (Option.some.inj this).symm

theorem Follows.delUsers (hf : Follows h T) {names : List String} (hr : Removes T T' names) (hd : Distinct T)
    (hpos : ∀ i x, T i = some x → 0 < i) : Follows (h.delUsers names) T' := by
  refine { hf.toSane.delUsers hr hpos with lists := ?_, uuid := ?_, uid := ?_ }
  all_goals
    unfold Inbound.delUsers
    by_cases hnil : names = []
  · subst hnil
    simpa using hf.lists.remove hr hd
  · rw [if_neg hnil]
    exact hf.lists.remove hr hd
  · intro i x hi
    rw [if_pos hnil]
    exact hf.uuid i x (hr.sub i x hi)
  · intro i x hi
    rw [if_neg hnil]
    show (names.foldl forget (h.uidToUuid, h.uuidToUid)).2.lookup x = some i
    rw [lookup_forget_uuid, if_neg (hr.kept hd hi)]
    exact hf.uuid i x (hr.sub i x hi)
  · intro i x hi
    rw [if_pos hnil] at hi
    exact hr.rest i x (hf.uid i x hi) (hnil ▸ List.not_mem_nil)
  · intro i x hi
    rw [if_neg hnil] at hi
    change (names.foldl forget (h.uidToUuid, h.uuidToUid)).1.lookup i = some x at hi
    have hT := hf.uid i x (lookup_of_forget_uid hi)
    refine hr.rest i x hT fun hx => ?_
    -- a password that is struck out takes its id along
    rw [lookup_forget_uid _ _ _ (hpos i x hT).ne', if_pos ⟨x, hx, hf.uuid i x hT⟩] at hi
    cases hi

theorem Follows.addUsers (hf : Follows h T) {users : List (User × ℤ)}
    (ha : Adds T T' (users.map fun u => (u.1.password, u.2))) (hd : Distinct T') :
    Follows (h.addUsers users) T' := by
  refine { hf.toSane.addUsers ha with lists := ?_, uuid := ?_, uid := ?_ }
  · have := hf.lists.add ha hd
    rwa [List.map_map] at this
  · intro i x hi
    show (writes h.uuidToUid _).lookup x = some i
    rcases ha.all i x hi with hold | hnew
    · rw [lookup_writes_of_not_mem, hf.uuid i x hold]
      intro hkey
      obtain ⟨⟨x', j⟩, hp, rfl⟩ := List.mem_map.1 hkey
      obtain ⟨hj, hnone⟩ := ha.new x' j hp
      obtain rfl := hd i j x' hi hj
      rw [hnone] at hold
      cases hold
    · exact lookup_writes_of_unique hnew fun j hj => hd j i x (ha.new x j hj).1 hi
  · intro i x hi
    change (writes h.uidToUuid _).lookup i = some x at hi
    rcases mem_or_of_lookup_writes hi with hold | hnew
    · exact ha.sub i x (hf.uid i x hold)
    · obtain ⟨u, hu, heq⟩ := List.mem_map.1 hnew
      cases heq
      exact (ha.new u.1.password u.2 (List.mem_map.2 ⟨u, hu, rfl⟩)).1

end Hysteria2

end MiniSbAgent.Fork
