import MiniSbAgent.Agent.UserManager

/-!
# The authentication tables follow the panel

The tables of a live inbound are never rebuilt: each call of `ApplyBoxByInbound` deletes and adds the difference
between the snapshot the manager has stored for the inbound and the list it is given.  This module follows one inbound
through any sequence of calls.

* `Inbound.Follows raw T` — the tables of the inbound hold exactly the roster `T`, whatever its protocol;
* `Inbound.Follows.delete`, `.add` — the two edits of a call, by way of the users that stay;
* `run_follows` — after any calls the inbound holds the roster of the last list;
* `hysteria2_tables_follow`, `vless_users_follow` — what that says about the fields of either protocol.
-/

namespace MiniSbAgent.Agent

open MiniSbAgent.Go MiniSbAgent.Lib.Roster MiniSbAgent.Panelapi MiniSbAgent.Fork

/-! ### Both protocols at once -/

inductive Protocol where
  | vless
  | hysteria2
  | other
deriving Repr, DecidableEq

/-- The field by which a protocol authenticates. -/
def Protocol.cred : Protocol → User → String
  | .hysteria2 => User.password
  | _ => User.uuid

theorem Protocol.cred_eq (p : Protocol) (u v : User) (h : SameAuth u v) : p.cred u = p.cred v := by
  cases p with
  | vless => exact h.1
  | hysteria2 => exact h.2.1
  | other => exact h.1

/-- The authentication services of the two protocols. -/
structure Services (π : Type) where
  vless : AuthService π ℕ
  hysteria2 : AuthService π ℤ

/-- What a connection presents stands for a credential of the protocol. -/
def Services.standsFor {π : Type} (auth : Services π) : Protocol → π → String → Prop
  | .vless => auth.vless.standsFor
  | .hysteria2 => auth.hysteria2.standsFor
  | .other => fun _ _ => False

/-- Both services compare texts. -/
def Services.byText : Services String := ⟨.byText ℕ, .byText ℤ⟩

namespace Inbound

def protocol : Inbound → Protocol
  | .vless _ => .vless
  | .hysteria2 _ => .hysteria2
  | .other => .other

/-- The user name of a connection, when the inbound accepts what it presents. -/
def accept {π : Type} (auth : Services π) : Inbound → π → Option String
  | .vless h, presented => h.accept auth.vless presented
  | .hysteria2 h, presented => h.accept auth.hysteria2 presented
  | .other, _ => none

/-- The credentials that the service of the inbound was handed last. -/
def handed : Inbound → List String
  | .vless h => h.service.uuids
  | .hysteria2 h => h.service.2
  | .other => []

/-- The inbound names its connections by credentials that its service was handed. -/
def Sane (T : ℤ → Option String) : Inbound → Prop
  | .vless h => Vless.Sane h
  | .hysteria2 h => Hysteria2.Sane h T
  | .other => True

/-- **The tables of the inbound hold the roster.** -/
def Follows (T : ℤ → Option String) : Inbound → Prop
  | .vless h => Vless.Follows h T
  | .hysteria2 h => Hysteria2.Follows h T
  | .other => True

variable {raw : Inbound} {T : ℤ → Option String}

theorem Follows.sane (hf : raw.Follows T) : raw.Sane T := by
  cases raw with
  | vless h => exact Vless.Follows.toSane hf
  | hysteria2 h => exact Hysteria2.Follows.toSane hf
  | other => trivial

theorem Sane.accept_handed {π : Type} {auth : Services π} (hs : raw.Sane T) {presented : π} {name : String}
    (ha : raw.accept auth presented = some name) :
    name ∈ raw.handed ∧ auth.standsFor raw.protocol presented name := by
  cases raw with
  | vless h => exact Vless.Sane.accept hs ha
  | hysteria2 h => exact Hysteria2.Sane.accept hs ha
  | other => cases ha

@[simp] theorem protocol_delete (raw : Inbound) (removed : List User) :
    (raw.delete removed).protocol = raw.protocol := by
  cases raw <;> simp only [delete] <;> split <;> rfl

@[simp] theorem protocol_add (raw : Inbound) (added : List User) : (raw.add added).protocol = raw.protocol := by
  cases raw <;> simp only [add] <;> split <;> rfl

/-! #### What the tables are after the calls

A call that is left out for want of arguments would only be noted by the inbound. -/

theorem delete_vless {h : Vless.Inbound} (hs : Vless.Sane h) (removed : List User) :
    ∃ calls, (Inbound.vless h).delete removed =
      .vless { h.delUsers (credentials User.uuid removed) with calls := calls } := by
  simp only [delete]
  split
  · rename_i hnil
    rw [hnil]
    exact ⟨h.calls, congrArg Inbound.vless hs.delUsers_nil.symm⟩
  · exact ⟨_, rfl⟩

theorem delete_hysteria2 (h : Hysteria2.Inbound) (removed : List User) :
    ∃ calls, (Inbound.hysteria2 h).delete removed =
      .hysteria2 { h.delUsers (credentials User.password removed) with calls := calls } := by
  simp only [delete]
  split
  · rename_i hnil
    rw [hnil]
    exact ⟨h.calls, congrArg Inbound.hysteria2 (Hysteria2.delUsers_nil h).symm⟩
  · exact ⟨_, rfl⟩

theorem add_vless {h : Vless.Inbound} (hs : Vless.Sane h) (added : List User) :
    ∃ calls, (Inbound.vless h).add added = .vless { h.addUsers (vlessDesired added) with calls := calls } := by
  simp only [add]
  split
  · rename_i hnil
    rw [hnil]
    exact ⟨h.calls, congrArg Inbound.vless hs.addUsers_nil.symm⟩
  · exact ⟨_, rfl⟩

theorem add_hysteria2 {h : Hysteria2.Inbound} (hs : Hysteria2.Sane h T) (added : List User) :
    ∃ calls, (Inbound.hysteria2 h).add added =
      .hysteria2 { h.addUsers (hysteria2Desired added) with calls := calls } := by
  simp only [add]
  split
  · rename_i hnil
    rw [hnil]
    exact ⟨h.calls, congrArg Inbound.hysteria2 hs.addUsers_nil.symm⟩
  · exact ⟨_, rfl⟩

/-! #### One call -/

theorem vlessDesired_named (added : List User) : ∀ u ∈ vlessDesired added, u.name = u.uuid := by
  intro u hu
  obtain ⟨v, -, rfl⟩ := List.mem_map.1 hu
  rfl

theorem vlessDesired_uuids (added : List User) :
    (vlessDesired added).map Vless.User.uuid = (credentialPairs User.uuid added).map Prod.fst := by
  unfold vlessDesired credentialPairs
  rw [List.map_map, List.map_map]
  rfl

theorem hysteria2Desired_pairs (added : List User) :
    (hysteria2Desired added).map (fun u => (u.1.password, u.2)) = credentialPairs User.password added := by
  unfold hysteria2Desired credentialPairs
  rw [List.map_map]
  rfl

section OneCall

variable (o : RangeOrder ((_ : ℤ) × User)) {old next : GoMap ℤ User}

theorem Sane.delete (hs : raw.Sane (roster raw.protocol.cred old)) (hk : Keyed old) (next : GoMap ℤ User) :
    (raw.delete (removedUsers o old next)).Sane (keptRoster raw.protocol.cred old next) := by
  cases raw with
  | vless h =>
    obtain ⟨calls, heq⟩ := delete_vless hs (removedUsers o old next)
    rw [heq]
    exact (Vless.Sane.delUsers hs _).withCalls calls
  | hysteria2 h =>
    obtain ⟨calls, heq⟩ := delete_hysteria2 h (removedUsers o old next)
    rw [heq]
    exact (Hysteria2.Sane.delUsers hs (removes_removedUsers o old next) (pos_of_roster hk)).withCalls calls
  | other => trivial

theorem Sane.add (hs : raw.Sane (keptRoster raw.protocol.cred old next)) (hk : Keyed next) :
    (raw.add (addedUsers o old next)).Sane (roster raw.protocol.cred next) := by
  have ha : Adds (keptRoster raw.protocol.cred old next) (roster raw.protocol.cred next) _ :=
    adds_addedUsers o hk raw.protocol.cred_eq
  cases raw with
  | vless h =>
    obtain ⟨calls, heq⟩ := add_vless hs (addedUsers o old next)
    rw [heq]
    exact (Vless.Sane.addUsers hs (vlessDesired_named _)).withCalls calls
  | hysteria2 h =>
    obtain ⟨calls, heq⟩ := add_hysteria2 hs (addedUsers o old next)
    rw [heq]
    exact (Hysteria2.Sane.addUsers hs (by rw [hysteria2Desired_pairs]; exact ha)).withCalls calls
  | other => trivial

theorem Follows.delete (hf : raw.Follows (roster raw.protocol.cred old)) (hk : Keyed old)
    (hd : Distinct (roster raw.protocol.cred old)) (next : GoMap ℤ User) :
    (raw.delete (removedUsers o old next)).Follows (keptRoster raw.protocol.cred old next) := by
  have hr : Removes (roster raw.protocol.cred old) (keptRoster raw.protocol.cred old next) _ :=
    removes_removedUsers o old next
  cases raw with
  | vless h =>
    obtain ⟨calls, heq⟩ := delete_vless hf.sane (removedUsers o old next)
    rw [heq]
    exact (Vless.Follows.delUsers hf hr hd).withCalls calls
  | hysteria2 h =>
    obtain ⟨calls, heq⟩ := delete_hysteria2 h (removedUsers o old next)
    rw [heq]
    exact (Hysteria2.Follows.delUsers hf hr hd (pos_of_roster hk)).withCalls calls
  | other => trivial

theorem Follows.add (hf : raw.Follows (keptRoster raw.protocol.cred old next)) (hk : Keyed next)
    (hd : Distinct (roster raw.protocol.cred next)) :
    (raw.add (addedUsers o old next)).Follows (roster raw.protocol.cred next) := by
  have ha : Adds (keptRoster raw.protocol.cred old next) (roster raw.protocol.cred next) _ :=
    adds_addedUsers o hk raw.protocol.cred_eq
  cases raw with
  | vless h =>
    obtain ⟨calls, heq⟩ := add_vless hf.sane (addedUsers o old next)
    rw [heq]
    exact (Vless.Follows.addUsers hf ha hd (vlessDesired_named _) (vlessDesired_uuids _)).withCalls calls
  | hysteria2 h =>
    obtain ⟨calls, heq⟩ := add_hysteria2 hf.sane (addedUsers o old next)
    rw [heq]
    exact (Hysteria2.Follows.addUsers hf (by rw [hysteria2Desired_pairs]; exact ha) hd).withCalls calls
  | other => trivial

end OneCall

@[simp] theorem protocol_applyUsers (o : Orders) (tag : String) (raw : Inbound) (users : List User)
    (old : GoMap ℤ User) : (applyUsers o tag raw users old).protocol = raw.protocol := by
  unfold applyUsers addAdded deleteRemoved
  rw [protocol_add, protocol_delete]

/-- **One call takes the tables from the old snapshot to the new one.** -/
theorem Follows.applyUsers (o : Orders) (tag : String) {users : List User} {old : GoMap ℤ User}
    (hf : raw.Follows (roster raw.protocol.cred old)) (hk : Keyed old) (hd : Distinct (roster raw.protocol.cred old))
    (hd' : Distinct (roster raw.protocol.cred (usersByID users))) :
    (applyUsers o tag raw users old).Follows (roster raw.protocol.cred (usersByID users)) := by
  have hdel := hf.delete (o.removed tag) hk hd (usersByID users)
  rw [← protocol_delete raw (removedUsers (o.removed tag) old (usersByID users))] at hdel hd'
  have hadd := hdel.add (o.added tag) (keyed_usersByID users) hd'
  rw [protocol_delete] at hadd
  exact hadd

/-! #### What the calls pass -/

section Calls

variable (o : Orders) (tag : String) (users : List User) (old : GoMap ℤ User)

/-- The calls that an inbound receives pass the credentials of removed users and the entries of added ones. -/
theorem calls_vless (h : Vless.Inbound) :
    ∃ h' made, applyUsers o tag (.vless h) users old = .vless h' ∧ h'.calls = h.calls ++ made ∧ ∀ call ∈ made,
      call = .delUsers (credentials User.uuid (removedUsers (o.removed tag) old (usersByID users))) ∨
      call = .addUsers (vlessDesired (addedUsers (o.added tag) old (usersByID users))) := by
  unfold applyUsers addAdded deleteRemoved userChanges
  simp only [delete]
  split <;> simp only [add] <;> split
  · exact ⟨h, [], rfl, by simp, by simp⟩
  · exact ⟨_, [.addUsers _], rfl, rfl, by simp⟩
  · exact ⟨_, [.delUsers _], rfl, rfl, by simp⟩
  · exact ⟨_, [.delUsers _, .addUsers _], rfl, List.append_assoc .., by simp⟩

theorem calls_hysteria2 (h : Hysteria2.Inbound) :
    ∃ h' made, applyUsers o tag (.hysteria2 h) users old = .hysteria2 h' ∧ h'.calls = h.calls ++ made ∧ ∀ call ∈ made,
      call = .delUsers (credentials User.password (removedUsers (o.removed tag) old (usersByID users))) ∨
      call = .addUsers (hysteria2Desired (addedUsers (o.added tag) old (usersByID users))) := by
  unfold applyUsers addAdded deleteRemoved userChanges
  simp only [delete]
  split <;> simp only [add] <;> split
  · exact ⟨h, [], rfl, by simp, by simp⟩
  · exact ⟨_, [.addUsers _], rfl, rfl, by simp⟩
  · exact ⟨_, [.delUsers _], rfl, Hysteria2.calls_delUsers h _, by simp⟩
  · have hdel := Hysteria2.calls_delUsers h (credentials User.password (removedUsers (o.removed tag) old
      (usersByID users)))
    exact ⟨_, [.delUsers _, .addUsers _], rfl, (congrArg (· ++ [_]) hdel).trans (List.append_assoc ..), by simp⟩

end Calls

end Inbound

/-! ### Runs of calls -/

/-- The arguments of a call of `ApplyBoxByInbound`, and the orders and times of its run. -/
structure Call where
  orders : Orders
  clock : Clock
  usersByInbound : GoMap String (List User)

/-- The list a call has for an inbound. -/
def Call.list (c : Call) (tag : String) : List User := (c.usersByInbound.lookup tag).getD []

structure Box where
  manager : UserManager
  inbounds : GoMap String Inbound

namespace Box

variable (build : Bool)

def call (s : Box) (c : Call) : Box :=
  let r := s.manager.applyBoxByInbound build c.orders c.clock s.inbounds c.usersByInbound
  ⟨r.1, r.2⟩

def run (s : Box) (calls : List Call) : Box := calls.foldl (call build) s

/-- The list of the last call, empty before the first one. -/
def lastList (calls : List Call) (tag : String) : List User := (calls.getLast?.map (·.list tag)).getD []

@[simp] theorem lastList_concat (calls : List Call) (c : Call) (tag : String) :
    lastList (calls ++ [c]) tag = c.list tag := by
  simp [lastList]

theorem run_concat (s : Box) (calls : List Call) (c : Call) :
    run build s (calls ++ [c]) = call build (run build s calls) c := List.foldl_concat ..

theorem lookup_inbounds_call (s : Box) (c : Call) (tag : String) :
    (call build s c).inbounds.lookup tag =
      (s.inbounds.lookup tag).map fun raw => applyUsers c.orders tag raw (c.list tag) (s.manager.snapshot tag) := by
  show (collect _ s.inbounds).lookup tag = _
  rw [lookup_collect]
  cases s.inbounds.lookup tag <;> rfl

/-- The manager's snapshot is that of the last list. -/
theorem snapshot_run (now : Direction → ℚ) (nodeMbps : ℤ) (inbounds : GoMap String Inbound) (calls : List Call)
    (tag : String) :
    (run build ⟨.new now nodeMbps, inbounds⟩ calls).manager.snapshot tag = usersByID (lastList calls tag) := by
  induction calls using List.reverseRecOn with
  | nil => rfl
  | append_singleton calls c _ =>
    rw [run_concat, lastList_concat]
    exact UserManager.snapshot_commit ..

/-- **After any calls the inbound holds the roster of the last list.** -/
theorem run_follows (now : Direction → ℚ) (nodeMbps : ℤ) {inbounds : GoMap String Inbound} {tag : String}
    {raw : Inbound} (hin : inbounds.lookup tag = some raw) (hf : raw.Follows (roster raw.protocol.cred ∅))
    (calls : List Call) (hd : ∀ c ∈ calls, Distinct (roster raw.protocol.cred (usersByID (c.list tag)))) :
    ∃ raw', (run build ⟨.new now nodeMbps, inbounds⟩ calls).inbounds.lookup tag = some raw' ∧
      raw'.protocol = raw.protocol ∧ Distinct (roster raw.protocol.cred (usersByID (lastList calls tag))) ∧
      raw'.Follows (roster raw.protocol.cred (usersByID (lastList calls tag))) := by
  -- induction on the number of calls; the distinctness of the last list is needed by the next deletion
  induction calls using List.reverseRecOn with
  | nil => exact ⟨raw, hin, rfl, fun _ _ _ h => (nomatch h), hf⟩
  | append_singleton calls c ih =>
    obtain ⟨raw', hl, hp, hdist, hf'⟩ := ih fun d hd' => hd d (List.mem_append_left _ hd')
    have hc := hd c (List.mem_append_right _ (List.mem_singleton_self c))
    rw [← hp] at hdist hf' hc ⊢
    refine ⟨_, by rw [run_concat, lookup_inbounds_call, hl]; rfl, Inbound.protocol_applyUsers .., ?_, ?_⟩
    · rw [lastList_concat]
      exact hc
    · rw [lastList_concat, snapshot_run]
      exact hf'.applyUsers c.orders tag (keyed_usersByID _) hdist hc

/-- The list has the user `id` with the non-empty credential `x`. -/
def InList (cred : User → String) (users : List User) (x : String) (id : ℤ) : Prop :=
  x ≠ "" ∧ ∃ u, (usersByID users).lookup id = some u ∧ cred u = x

theorem roster_usersByID {cred : User → String} {users : List User} {x : String} {id : ℤ} :
    roster cred (usersByID users) id = some x ↔ InList cred users x id := by
  rw [roster_eq_some]
  constructor
  · rintro ⟨u, hu, hx, hne⟩
    exact ⟨hne, u, hu, hx⟩
  · rintro ⟨hne, u, hu, hx⟩
    exact ⟨u, hu, hx, hne⟩

/-- The calls that an inbound receives when users are applied are those of the last list against the new one. -/
theorem lookup_run_concat (now : Direction → ℚ) (nodeMbps : ℤ) {inbounds : GoMap String Inbound} (calls : List Call)
    (c : Call) (tag : String) :
    (run build ⟨.new now nodeMbps, inbounds⟩ (calls ++ [c])).inbounds.lookup tag =
      ((run build ⟨.new now nodeMbps, inbounds⟩ calls).inbounds.lookup tag).map fun raw =>
        applyUsers c.orders tag raw (c.list tag) (usersByID (lastList calls tag)) := by
  rw [run_concat, lookup_inbounds_call, snapshot_run]

/-! ### The fields of both protocols -/

theorem follows_new_vless : (Inbound.vless (.new [])).Follows (roster User.uuid ∅) :=
  ⟨Vless.sane_new, List.nodup_nil, fun _ => ⟨fun h => (nomatch h), fun h => (nomatch h.choose_spec)⟩⟩

theorem follows_new_hysteria2 : (Inbound.hysteria2 .new).Follows (roster User.password ∅) :=
  { Hysteria2.sane_new _ with
    lists := ⟨List.nodup_nil, fun _ => ⟨fun h => (nomatch h), fun h => (nomatch h.choose_spec)⟩⟩
    uuid := fun _ _ h => (nomatch h)
    uid := fun _ _ h => (nomatch h) }

/-- The pairs of the service are those of the list with the ids of the map. -/
theorem mem_service {h : Hysteria2.Inbound} {T : ℤ → Option String} (hf : Hysteria2.Follows h T) (i : ℤ) (x : String) :
    (i, x) ∈ h.service.1.zip h.service.2 ↔ T i = some x := by
  have hzip : h.service.1.zip h.service.2 =
      h.userNameList.map fun y => ((h.uuidToUid.lookup y).getD 0, y) := by
    have hmap : (h.userNameList.map fun y => (h.uuidToUid.lookup y).getD 0).zip (h.userNameList.map id) =
        h.userNameList.map fun y => ((h.uuidToUid.lookup y).getD 0, y) := List.zip_map'
    rw [List.map_id] at hmap
    rw [hf.service]
    exact hmap
  rw [hzip, List.mem_map]
  constructor
  · rintro ⟨y, hy, heq⟩
    obtain ⟨j, hj⟩ := (hf.lists.mem_iff y).1 hy
    rw [hf.uuid j y hj] at heq
    cases heq
    exact hj
  · intro hi
    exact ⟨x, (hf.lists.mem_iff x).2 ⟨i, hi⟩, by rw [hf.uuid i x hi]; rfl⟩

/-- **The tables of a Hysteria2 inbound follow the panel.**  After every call the two maps are inverse to each other,
the name list has the passwords of the last list once each, the service was given their ids, and users that are the
same in two consecutive lists were not touched. -/
theorem hysteria2_tables_follow (build : Bool) (now : Direction → ℚ) (nodeMbps : ℤ) (inbounds : GoMap String Inbound)
    (tag : String) (hin : inbounds.lookup tag = some (.hysteria2 .new)) (calls : List Call) (c : Call)
    (hd : ∀ d ∈ calls ++ [c], Distinct (roster User.password (usersByID (d.list tag)))) :
    ∃ h, (run build ⟨.new now nodeMbps, inbounds⟩ (calls ++ [c])).inbounds.lookup tag = some (.hysteria2 h) ∧
      (∀ i x, h.uidToUuid.lookup i = some x ↔ h.uuidToUid.lookup x = some i) ∧
      h.userNameList.Nodup ∧
      (∀ x, x ∈ h.userNameList ↔ ∃ i, InList User.password (c.list tag) x i) ∧
      h.service.1.length = h.service.2.length ∧
      (∀ i x, (i, x) ∈ h.service.1.zip h.service.2 ↔ InList User.password (c.list tag) x i) ∧
      ∃ before made,
        (run build ⟨.new now nodeMbps, inbounds⟩ calls).inbounds.lookup tag = some (.hysteria2 before) ∧
        h.calls = before.calls ++ made ∧
        ∀ id u v, (usersByID (lastList calls tag)).lookup id = some u → (usersByID (c.list tag)).lookup id = some v →
          SameAuth u v →
          (∀ names, .delUsers names ∈ made → u.password ∉ names) ∧
          ∀ users, .addUsers users ∈ made → ∀ d ∈ users, d.1.password ≠ u.password ∧ d.2 ≠ id := by
  obtain ⟨raw, hl, hp, hdist, hf⟩ := run_follows build now nodeMbps hin follows_new_hysteria2 _ hd
  obtain ⟨raw₀, hl₀, hp₀, hprev, -⟩ := run_follows build now nodeMbps hin follows_new_hysteria2 calls
    fun d hd' => hd d (List.mem_append_left _ hd')
  rw [lastList_concat] at hf hdist
  rcases raw₀ with _ | before | _ <;> cases hp₀
  -- the inbound is what the call makes of it
  obtain ⟨h, made, heq, hcalls, hmade⟩ := Inbound.calls_hysteria2 c.orders tag (c.list tag)
    (usersByID (lastList calls tag)) before
  have hraw : raw = .hysteria2 h := by
    rw [lookup_run_concat, hl₀, Option.map_some, heq] at hl
    exact (Option.some.inj hl).symm
  subst hraw
  have hf : Hysteria2.Follows h (roster User.password (usersByID (c.list tag))) := hf
  refine ⟨h, hl, fun i x => ⟨fun hi => hf.uuid i x (hf.uid i x hi), fun hx => (hf.back x i hx).2⟩, hf.lists.nodup,
    fun x => ?_, ?_, fun i x => ?_, before, made, hl₀, hcalls, fun id u v hu hv hsame => ?_⟩
  · rw [hf.lists.mem_iff]
    exact exists_congr fun i => roster_usersByID
  · rw [hf.service]
    exact List.length_map _
  · rw [mem_service hf, roster_usersByID]
  · obtain ⟨hdel, hadd⟩ := untouched_of_stays (c.orders.removed tag) (c.orders.added tag) (keyed_usersByID _)
      (fun _ _ h => h.2.1) hprev hdist hu hv hsame
    constructor
    · intro names hnames
      rcases hmade _ hnames with heq | heq
      · cases heq
        exact hdel
      · cases heq
    · intro users husers d hd'
      rcases hmade _ husers with heq | heq
      · cases heq
      · cases heq
        refine hadd (d.1.password, d.2) ?_
        rw [← Inbound.hysteria2Desired_pairs]
        exact List.mem_map.2 ⟨d, hd', rfl⟩

/-- A call with one list, walked in the order of the stored maps. -/
def oneList (tag : String) (users : List User) : Call :=
  ⟨.stored, fun _ _ => 0, (∅ : GoMap String (List User)).insert tag users⟩

/-- Two users that swap their passwords. -/
def swap : List User × List User :=
  ([⟨1, "u1", "a", "", 0⟩, ⟨2, "u2", "b", "", 0⟩], [⟨1, "u1", "b", "", 0⟩, ⟨2, "u2", "a", "", 0⟩])

theorem hysteria2_tables_follow_swap :
    ∃ h, (run true ⟨.new (fun _ => 0) 0, (∅ : GoMap String Inbound).insert "hy2-in" (.hysteria2 .new)⟩
        ([oneList "hy2-in" swap.1] ++ [oneList "hy2-in" swap.2])).inbounds.lookup "hy2-in" = some (.hysteria2 h) ∧
      (∀ i x, h.uidToUuid.lookup i = some x ↔ h.uuidToUid.lookup x = some i) ∧ h.userNameList.Nodup := by
  obtain ⟨h, hl, hinv, hnodup, -⟩ := hysteria2_tables_follow true (fun _ => 0) 0
    ((∅ : GoMap String Inbound).insert "hy2-in" (.hysteria2 .new)) "hy2-in" (AList.lookup_insert _)
    [oneList "hy2-in" swap.1] (oneList "hy2-in" swap.2) (by
      intro d hd
      simp only [List.singleton_append, List.mem_cons, List.not_mem_nil, or_false] at hd
      rcases hd with rfl | rfl
      · exact distinct_roster (by decide +kernel)
      · exact distinct_roster (by decide +kernel))
  exact ⟨h, hl, hinv, hnodup⟩

/-- **The users of a VLESS inbound follow the panel.**  After every call the inbound has one entry for each user of the
last list with a UUID, named by it, and users that are the same in two consecutive lists were not touched. -/
theorem vless_users_follow (build : Bool) (now : Direction → ℚ) (nodeMbps : ℤ) (inbounds : GoMap String Inbound)
    (tag : String) (hin : inbounds.lookup tag = some (.vless (.new []))) (calls : List Call) (c : Call)
    (hd : ∀ d ∈ calls ++ [c], Distinct (roster User.uuid (usersByID (d.list tag)))) :
    ∃ h, (run build ⟨.new now nodeMbps, inbounds⟩ (calls ++ [c])).inbounds.lookup tag = some (.vless h) ∧
      (h.users.map Vless.User.uuid).Nodup ∧ (∀ u ∈ h.users, u.name = u.uuid) ∧
      (∀ x, (∃ u ∈ h.users, u.uuid = x) ↔ ∃ i, InList User.uuid (c.list tag) x i) ∧
      ∃ before made,
        (run build ⟨.new now nodeMbps, inbounds⟩ calls).inbounds.lookup tag = some (.vless before) ∧
        h.calls = before.calls ++ made ∧
        ∀ id u v, (usersByID (lastList calls tag)).lookup id = some u → (usersByID (c.list tag)).lookup id = some v →
          SameAuth u v →
          (∀ names, .delUsers names ∈ made → u.uuid ∉ names) ∧
          ∀ users, .addUsers users ∈ made → ∀ d ∈ users, d.uuid ≠ u.uuid ∧ d.name ≠ u.uuid := by
  obtain ⟨raw, hl, hp, hdist, hf⟩ := run_follows build now nodeMbps hin follows_new_vless _ hd
  obtain ⟨raw₀, hl₀, hp₀, hprev, -⟩ := run_follows build now nodeMbps hin follows_new_vless calls
    fun d hd' => hd d (List.mem_append_left _ hd')
  rw [lastList_concat] at hf hdist
  rcases raw₀ with before | _ | _ <;> cases hp₀
  obtain ⟨h, made, heq, hcalls, hmade⟩ := Inbound.calls_vless c.orders tag (c.list tag)
    (usersByID (lastList calls tag)) before
  have hraw : raw = .vless h := by
    rw [lookup_run_concat, hl₀, Option.map_some, heq] at hl
    exact (Option.some.inj hl).symm
  subst hraw
  have hf : Vless.Follows h (roster User.uuid (usersByID (c.list tag))) := hf
  refine ⟨h, hl, hf.lists.nodup, hf.named, fun x => ?_, before, made, hl₀, hcalls, fun id u v hu hv hsame => ?_⟩
  · rw [← List.mem_map, hf.lists.mem_iff]
    exact exists_congr fun i => roster_usersByID
  · obtain ⟨hdel, hadd⟩ := untouched_of_stays (c.orders.removed tag) (c.orders.added tag) (keyed_usersByID _)
      (fun _ _ h => h.1) hprev hdist hu hv hsame
    constructor
    · intro names hnames
      rcases hmade _ hnames with heq | heq
      · cases heq
        exact hdel
      · cases heq
    · intro users husers d hd'
      rcases hmade _ husers with heq | heq
      · cases heq
      · cases heq
        obtain ⟨w, hw, rfl⟩ := List.mem_map.1 hd'
        have hne := (hadd (w.uuid, w.id) (List.mem_map.2 ⟨w, hw, rfl⟩)).1
        exact ⟨hne, hne⟩

theorem vless_users_follow_rotation :
    ∃ h, (run true ⟨.new (fun _ => 0) 0, (∅ : GoMap String Inbound).insert "vless-in" (.vless (.new []))⟩
        ([oneList "vless-in" [⟨1, "a", "", "", 0⟩]] ++
          [oneList "vless-in" [⟨1, "b", "", "", 5⟩, ⟨2, "a", "", "", 0⟩]])).inbounds.lookup "vless-in" =
        some (.vless h) ∧
      (h.users.map Vless.User.uuid).Nodup ∧ ∀ u ∈ h.users, u.name = u.uuid := by
  obtain ⟨h, hl, hnodup, hnamed, -⟩ := vless_users_follow true (fun _ => 0) 0
    ((∅ : GoMap String Inbound).insert "vless-in" (.vless (.new []))) "vless-in" (AList.lookup_insert _)
    [oneList "vless-in" [⟨1, "a", "", "", 0⟩]] (oneList "vless-in" [⟨1, "b", "", "", 5⟩, ⟨2, "a", "", "", 0⟩]) (by
      intro d hd
      simp only [List.singleton_append, List.mem_cons, List.not_mem_nil, or_false] at hd
      rcases hd with rfl | rfl
      · exact distinct_roster (by decide +kernel)
      · exact distinct_roster (by decide +kernel))
  exact ⟨h, hl, hnodup, hnamed⟩

end Box

end MiniSbAgent.Agent
