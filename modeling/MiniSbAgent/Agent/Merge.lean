import MiniSbAgent.Agent.Isolation
import MiniSbAgent.Agent.Lifecycle

/-!
# Merging the lists of the nodes

`mergeUsersByNode` walks the lists of all nodes, in whatever order, and keeps the first entry it meets of each id; it
fails at an entry that differs from the one it has kept.  `ApplyBoxByInbound` then walks the same lists once more and
keeps the last entry.  The panel is meant to say the same thing about a user wherever it says something, and then
neither order can be told from the result.

* `Consistent` — any two entries of one id agree, but for the name;
* `mergeNodes_of_ok`, `mergeNodes_of_error` — the loop keeps the first entries, and fails at a real conflict;
* `merge_order_independent` — the merge succeeds exactly on consistent lists, and what is committed after it does not
  depend on any order.
-/

namespace MiniSbAgent.Agent

open MiniSbAgent.Go MiniSbAgent.Counter MiniSbAgent.Panelapi

/-- The fields that the merge compares. -/
def SameDefinition (u v : User) : Prop :=
  u.uuid = v.uuid ∧ u.password = v.password ∧ u.speedLimit = v.speedLimit

theorem SameDefinition.symm {u v : User} (h : SameDefinition u v) : SameDefinition v u :=
  ⟨h.1.symm, h.2.1.symm, h.2.2.symm⟩

theorem SameDefinition.trans {u v w : User} (h : SameDefinition u v) (h' : SameDefinition v w) :
    SameDefinition u w :=
  ⟨h.1.trans h'.1, h.2.1.trans h'.2.1, h.2.2.trans h'.2.2⟩

/-- A user but for its name. -/
def unnamed (u : User) : User := { u with name := "" }

theorem unnamed_eq_iff {u v : User} : unnamed u = unnamed v ↔ u.id = v.id ∧ SameDefinition u v := by
  simp only [unnamed, SameDefinition, User.mk.injEq, true_and]

/-- The entry occurs in the list of some node. -/
def Entry (usersByNode : GoMap String (List User)) (u : User) : Prop :=
  ∃ nodeKey users, usersByNode.lookup nodeKey = some users ∧ u ∈ users

/-- **The lists agree on every user.** -/
def Consistent (usersByNode : GoMap String (List User)) : Prop :=
  ∀ u v, Entry usersByNode u → Entry usersByNode v → u.id = v.id → SameDefinition u v

/-! ### The loops -/

/-- The first entry of an id. -/
def firstOf (l : List User) (id : ℤ) : Option User := l.find? fun u => u.id == id

theorem firstOf_append (l l' : List User) (id : ℤ) : firstOf (l ++ l') id = (firstOf l id).or (firstOf l' id) :=
  List.find?_append

theorem firstOf_cons (u : User) (l : List User) (id : ℤ) :
    firstOf (u :: l) id = if u.id = id then some u else firstOf l id := by
  unfold firstOf
  rw [List.find?_cons]
  by_cases h : u.id = id
  · rw [if_pos h, beq_iff_eq.2 h]
  · rw [if_neg h, beq_eq_false_iff_ne.2 h]

theorem firstOf_eq_some {l : List User} {id : ℤ} {u : User} (h : firstOf l id = some u) : u ∈ l ∧ u.id = id := by
  have hid := List.find?_some h
  exact ⟨List.mem_of_find?_eq_some h, beq_iff_eq.1 hid⟩

/-- The map holds the first entry of each id of the list. -/
def Firsts (l : List User) (merged : GoMap ℤ User) : Prop := ∀ id, merged.lookup id = firstOf l id

theorem Firsts.insert {l : List User} {merged : GoMap ℤ User} (h : Firsts l merged) {u : User}
    (hnew : merged.lookup u.id = none) : Firsts (l ++ [u]) (merged.insert u.id u) := by
  intro id
  rw [lookup_insert_of, firstOf_append, ← h id, firstOf_cons]
  by_cases hid : id = u.id
  · rw [if_pos hid, if_pos hid.symm, hid, hnew]
    rfl
  · rw [if_neg hid, if_neg (Ne.symm hid)]
    cases merged.lookup id <;> rfl

theorem Firsts.known {l : List User} {merged : GoMap ℤ User} (h : Firsts l merged) {u w : User}
    (hold : merged.lookup u.id = some w) : Firsts (l ++ [u]) merged := by
  intro id
  rw [firstOf_append, ← h id, firstOf_cons]
  by_cases hid : u.id = id
  · rw [← hid, hold]
    rfl
  · rw [if_neg hid]
    cases merged.lookup id <;> rfl

/-- Every entry of the second list agrees with the first one of its id. -/
def Agrees (l users : List User) : Prop :=
  ∀ u ∈ users, ∃ w, firstOf (l ++ users) u.id = some w ∧ SameDefinition w u

/-- Two entries of the list do not go together. -/
def Conflict (l : List User) : Prop := ∃ u ∈ l, ∃ w ∈ l, w.id = u.id ∧ ¬ SameDefinition w u

theorem mergeUsers_of_ok {nodeKey : String} (users : List User) {l : List User} {merged merged' : GoMap ℤ User}
    (hm : Firsts l merged) (h : mergeUsers nodeKey merged users = .ok merged') :
    Firsts (l ++ users) merged' ∧ Agrees l users := by
  induction users generalizing l merged with
  | nil =>
    cases h
    refine ⟨?_, fun u hu => (nomatch hu)⟩
    rw [List.append_nil]
    exact hm
  | cons u users ih =>
    -- either way the loop goes on with `u` counted in, and `u` agrees with the first entry of its id
    have hnext : ∀ {next : GoMap ℤ User} {w : User}, Firsts (l ++ [u]) next → next.lookup u.id = some w →
        SameDefinition w u → mergeUsers nodeKey next users = .ok merged' →
        Firsts (l ++ u :: users) merged' ∧ Agrees l (u :: users) := by
      intro next w hf hw hsame hgo
      obtain ⟨hf', hagree⟩ := ih hf hgo
      rw [List.append_assoc] at hf'
      refine ⟨hf', fun v hv => ?_⟩
      rcases List.mem_cons.1 hv with rfl | hv
      · refine ⟨w, ?_, hsame⟩
        rw [show l ++ v :: users = (l ++ [v]) ++ users by simp, firstOf_append, ← hf v.id, hw]
        rfl
      · obtain ⟨w', hw', hsame'⟩ := hagree v hv
        exact ⟨w', by rw [← hw']; simp, hsame'⟩
    unfold mergeUsers at h
    rcases hold : merged.lookup u.id with _ | w
    · rw [hold] at h
      exact hnext (hm.insert hold) (AList.lookup_insert _) ⟨rfl, rfl, rfl⟩ h
    · rw [hold] at h
      simp only at h
      split at h
      · cases h
      · rename_i hsame
        push Not at hsame
        exact hnext (hm.known hold) hold hsame h

theorem mergeUsers_of_error {nodeKey : String} (users : List User) {l : List User} {merged : GoMap ℤ User}
    {e : FetchError} (hm : Firsts l merged) (h : mergeUsers nodeKey merged users = .error e) :
    Conflict (l ++ users) := by
  induction users generalizing l merged with
  | nil => cases h
  | cons u users ih =>
    have happ : l ++ u :: users = (l ++ [u]) ++ users := by simp
    unfold mergeUsers at h
    rcases hold : merged.lookup u.id with _ | w
    · rw [hold] at h
      rw [happ]
      exact ih (hm.insert hold) h
    · rw [hold] at h
      simp only at h
      split at h
      · rename_i hdiff
        obtain ⟨hw, hid⟩ := firstOf_eq_some ((hm u.id).symm.trans hold)
        refine ⟨u, by simp, w, List.mem_append_left _ hw, hid, fun hsame => ?_⟩
        rcases hdiff with h' | h' | h'
        · exact h' hsame.1
        · exact h' hsame.2.1
        · exact h' hsame.2.2
      · rw [happ]
        exact ih (hm.known hold) h

/-- All users of some lists, in order. -/
def allUsers (es : List ((_ : String) × List User)) : List User := es.flatMap Sigma.snd

theorem Agrees.append {l users users' : List User} (h : Agrees l users) (h' : Agrees (l ++ users) users') :
    Agrees l (users ++ users') := by
  intro u hu
  rw [← List.append_assoc]
  rcases List.mem_append.1 hu with hu | hu
  · obtain ⟨w, hw, hsame⟩ := h u hu
    refine ⟨w, ?_, hsame⟩
    rw [firstOf_append, hw]
    rfl
  · exact h' u hu

/-- **A merge that succeeds** has the first entry of each id, and all others agree with it. -/
theorem mergeNodes_of_ok (es : List ((_ : String) × List User)) {l : List User} {merged merged' : GoMap ℤ User}
    (hm : Firsts l merged) (h : mergeNodes merged es = .ok merged') :
    Firsts (l ++ allUsers es) merged' ∧ Agrees l (allUsers es) := by
  induction es generalizing l merged with
  | nil =>
    cases h
    refine ⟨?_, fun u hu => (nomatch hu)⟩
    rw [show allUsers [] = [] from rfl, List.append_nil]
    exact hm
  | cons e es ih =>
    unfold mergeNodes at h
    rcases hu : mergeUsers e.1 merged e.2 with err | next
    · rw [hu] at h
      cases h
    · rw [hu] at h
      obtain ⟨hf, hagree⟩ := mergeUsers_of_ok e.2 hm hu
      obtain ⟨hf', hagree'⟩ := ih hf h
      rw [List.append_assoc] at hf'
      exact ⟨hf', hagree.append hagree'⟩

/-- **A merge that fails** has met a conflict. -/
theorem mergeNodes_of_error (es : List ((_ : String) × List User)) {l : List User} {merged : GoMap ℤ User}
    {err : FetchError} (hm : Firsts l merged) (h : mergeNodes merged es = .error err) :
    Conflict (l ++ allUsers es) := by
  induction es generalizing l merged with
  | nil => cases h
  | cons e es ih =>
    have happ : l ++ allUsers (e :: es) = (l ++ e.2) ++ allUsers es := by
      simp [allUsers]
    rw [happ]
    unfold mergeNodes at h
    rcases hu : mergeUsers e.1 merged e.2 with err' | next
    · obtain ⟨u, hul, w, hwl, hid, hdiff⟩ := mergeUsers_of_error e.2 hm hu
      exact ⟨u, List.mem_append_left _ hul, w, List.mem_append_left _ hwl, hid, hdiff⟩
    · rw [hu] at h
      exact ih (mergeUsers_of_ok e.2 hm hu).1 h

/-! ### The merge -/

section Merge

variable (o : MergeOrders) (usersByNode : GoMap String (List User))

theorem mem_allUsers {u : User} : u ∈ allUsers (o.nodes.visit usersByNode.entries) ↔ Entry usersByNode u := by
  unfold allUsers Entry
  rw [List.mem_flatMap]
  constructor
  · rintro ⟨⟨nodeKey, users⟩, he, hu⟩
    exact ⟨nodeKey, users, (mem_range_iff o.nodes usersByNode).1 he, hu⟩
  · rintro ⟨nodeKey, users, hl, hu⟩
    exact ⟨⟨nodeKey, users⟩, (mem_range_iff o.nodes usersByNode).2 hl, hu⟩

theorem firsts_empty : Firsts [] ∅ := fun _ => rfl

/-- The merge succeeds exactly when the lists are consistent. -/
theorem merge_isOk_iff : (mergeUsersByNode o usersByNode).isOk = true ↔ Consistent usersByNode := by
  unfold mergeUsersByNode
  rcases h : mergeNodes ∅ (o.nodes.visit usersByNode.entries) with err | merged
  · refine ⟨fun hok => (nomatch hok), fun hcons => ?_⟩
    obtain ⟨u, hu, w, hw, hid, hdiff⟩ := mergeNodes_of_error _ firsts_empty h
    rw [List.nil_append, mem_allUsers] at hu hw
    exact absurd (hcons w u hw hu hid) hdiff
  · refine ⟨fun _ u v hu hv hid => ?_, fun _ => rfl⟩
    obtain ⟨-, hagree⟩ := mergeNodes_of_ok _ firsts_empty h
    obtain ⟨w, hw, hsame⟩ := hagree u ((mem_allUsers o usersByNode).2 hu)
    obtain ⟨w', hw', hsame'⟩ := hagree v ((mem_allUsers o usersByNode).2 hv)
    rw [hid, hw'] at hw
    cases hw
    exact hsame.symm.trans hsame'

variable {usersByNode}

/-- What a merge returns: one entry for each id that occurs, the same as all of its entries but for the name. -/
theorem merge_exact {out : List User} (h : mergeUsersByNode o usersByNode = .ok out) :
    (out.map User.id).Nodup ∧ (∀ id, id ∈ out.map User.id ↔ ∃ u, Entry usersByNode u ∧ u.id = id) ∧
      ∀ w ∈ out, ∀ u, Entry usersByNode u → u.id = w.id → unnamed w = unnamed u := by
  have hcons := (merge_isOk_iff o usersByNode).1 (by rw [h]; rfl)
  unfold mergeUsersByNode at h
  rcases hm : mergeNodes ∅ (o.nodes.visit usersByNode.entries) with err | merged
  · rw [hm] at h
    cases h
  rw [hm] at h
  cases h
  obtain ⟨hf, hagree⟩ := mergeNodes_of_ok _ firsts_empty hm
  -- a user of the merged map is an entry, under its own id
  have hentry : ∀ id w, merged.lookup id = some w → Entry usersByNode w ∧ w.id = id := by
    intro id w hw
    obtain ⟨hmem, hid⟩ := firstOf_eq_some ((hf id).symm.trans hw)
    exact ⟨(mem_allUsers o usersByNode).1 hmem, hid⟩
  have hids : ((o.out.visit merged.entries).map Sigma.snd).map User.id =
      (o.out.visit merged.entries).map Sigma.fst := by
    rw [List.map_map]
    refine List.map_congr_left fun e he => ?_
    exact (hentry e.1 e.2 ((mem_range_iff o.out merged).1 he)).2
  refine ⟨?_, fun id => ?_, fun w hw u hu hid => ?_⟩
  · rw [hids]
    exact nodup_range_keys o.out merged
  · rw [hids]
    constructor
    · intro hmem
      obtain ⟨e, he, rfl⟩ := List.mem_map.1 hmem
      have := hentry e.1 e.2 ((mem_range_iff o.out merged).1 he)
      exact ⟨e.2, this⟩
    · rintro ⟨u, hu, rfl⟩
      obtain ⟨w, hw, -⟩ := hagree u ((mem_allUsers o usersByNode).2 hu)
      exact mem_range_keys o.out ((hf u.id).trans hw)
  · obtain ⟨e, he, rfl⟩ := List.mem_map.1 hw
    obtain ⟨hwe, -⟩ := hentry e.1 e.2 ((mem_range_iff o.out merged).1 he)
    exact unnamed_eq_iff.2 ⟨hid.symm, hcons e.2 u hwe hu hid.symm⟩

end Merge

/-! ### What is committed after it -/

section Commit

variable {usersByNode : GoMap String (List User)} (nodes : List NodeSpec)

/-- The lists of the inbounds have no entries but those of the nodes. -/
theorem entry_of_groupNodeUsers {inbounds : GoMap String Inbound} {users : List User}
    (hg : (ApplyArgs.byInbound inbounds (groupNodeUsers nodes usersByNode)).Gives users) {u : User} (hu : u ∈ users) :
    Entry usersByNode u := by
  obtain ⟨tag, hl⟩ := hg
  unfold groupNodeUsers at hl
  rcases mem_or_of_lookup_writes hl with hl | hl
  · cases hl
  · obtain ⟨node, -, heq⟩ := List.mem_map.1 hl
    cases heq
    rcases hnode : usersByNode.lookup node.key with _ | list
    · rw [hnode] at hu
      cases hu
    · rw [hnode] at hu
      exact ⟨node.key, list, hnode, hu⟩

/-- The users that a call commits are the same in any two orders, but for the names. -/
theorem union_order_independent (hcons : Consistent usersByNode) (inbounds : GoMap String Inbound) (o o' : Orders)
    (id : ℤ) :
    (((ApplyArgs.byInbound inbounds (groupNodeUsers nodes usersByNode)).union o).lookup id).map unnamed =
      (((ApplyArgs.byInbound inbounds (groupNodeUsers nodes usersByNode)).union o').lookup id).map unnamed := by
  generalize hargs : ApplyArgs.byInbound inbounds (groupNodeUsers nodes usersByNode) = args
  rcases hu : (args.union o).lookup id with _ | u
  · rcases hv : (args.union o').lookup id with _ | v
    · rfl
    · -- a user that one order commits is in some list, so the other one commits it too
      obtain ⟨users, hg, hv⟩ := ApplyArgs.lookup_union o' hv
      obtain ⟨u, hu'⟩ := ApplyArgs.exists_lookup_union o hg hv
      rw [hu] at hu'
      cases hu'
  · obtain ⟨users, hg, hul⟩ := ApplyArgs.lookup_union o hu
    obtain ⟨v, hv⟩ := ApplyArgs.exists_lookup_union o' hg hul
    obtain ⟨users', hg', hvl⟩ := ApplyArgs.lookup_union o' hv
    obtain ⟨humem, huid, -⟩ := mem_of_lookup_usersByID hul
    obtain ⟨hvmem, hvid, -⟩ := mem_of_lookup_usersByID hvl
    rw [hv, Option.map_some, Option.map_some, Option.some.injEq, unnamed_eq_iff]
    have hid : u.id = v.id := huid.trans hvid.symm
    refine ⟨hid, hcons u v ?_ ?_ hid⟩
    · rw [← hargs] at hg
      exact entry_of_groupNodeUsers nodes hg humem
    · rw [← hargs] at hg'
      exact entry_of_groupNodeUsers nodes hg' hvmem

end Commit

/-- The rate of a user's limiter in one direction, if the user has a pair. -/
def UserManager.rateOf (m : UserManager) (id : ℤ) (d : Direction) : Option ℤ :=
  (m.limiters.lookup id).bind fun a => (m.limiter ⟨a, d⟩).map RateLimiter.rate

/-- The limiters run at the rates of the users. -/
theorem UserManager.LimiterInv.rateOf {m : UserManager} (hm : LimiterInv m) (id : ℤ) (d : Direction) :
    m.rateOf id d = (m.users.lookup id).map fun u => mbpsToBytes u.speedLimit := by
  unfold UserManager.rateOf
  rcases hl : m.limiters.lookup id with _ | a
  · rcases hu : m.users.lookup id with _ | u
    · rfl
    · have hmem : id ∈ m.limiters := (hm.keys id).2 (AList.lookup_isSome.1 (by rw [hu]; rfl))
      exact absurd hmem (AList.lookup_eq_none.1 hl)
  · have hmem : id ∈ m.users := (hm.keys id).1 (AList.lookup_isSome.1 (by rw [hl]; rfl))
    obtain ⟨u, hu⟩ := Option.isSome_iff_exists.1 (AList.lookup_isSome.2 hmem)
    obtain ⟨p, hp⟩ := m.exists_pair hl
    rw [hu, Option.bind_some, UserManager.limiter, hp]
    exact congrArg some (hm.rate id u a p hu hl hp d)

/-- **Merging the lists of the nodes is exact, and no order matters.** For any lists:

* the merge succeeds exactly when any two entries of one id agree on everything but the name, in whatever order the
  lists are walked;
* it then returns one entry for each id that occurs, the same as all entries of that id but for the name;
* and after that a call with the lists of the nodes commits, to any manager and in any build, the same snapshots and
  the same users but for their names in any two orders, and, where there are limiters, the same rates, whatever the
  manager has been through. -/
theorem merge_order_independent (usersByNode : GoMap String (List User)) :
    (∀ o, (mergeUsersByNode o usersByNode).isOk = true ↔ Consistent usersByNode) ∧
    (∀ o out, mergeUsersByNode o usersByNode = .ok out →
      (out.map User.id).Nodup ∧ (∀ id, id ∈ out.map User.id ↔ ∃ u, Entry usersByNode u ∧ u.id = id) ∧
        ∀ w ∈ out, ∀ u, Entry usersByNode u → u.id = w.id → unnamed w = unnamed u) ∧
    (∀ o, (mergeUsersByNode o usersByNode).isOk = true → ∀ (nodes : List NodeSpec) (inbounds : GoMap String Inbound)
      (o₁ o₂ : Orders) (clock₁ clock₂ : Clock),
      let args := ApplyArgs.byInbound inbounds (groupNodeUsers nodes usersByNode)
      (∀ (build : Bool) (m : UserManager),
        let m₁ := m.call build ⟨o₁, clock₁, args⟩
        let m₂ := m.call build ⟨o₂, clock₂, args⟩
        (∀ tag, m₁.byInbound.lookup tag = m₂.byInbound.lookup tag) ∧
        ∀ id, (m₁.users.lookup id).map unnamed = (m₂.users.lookup id).map unnamed) ∧
      ∀ (now : Direction → ℚ) (nodeMbps : ℤ) (before : List LimiterEvent),
        let m := (UserManager.new now nodeMbps).events before
        ∀ id d, (m.call true ⟨o₁, clock₁, args⟩).rateOf id d = (m.call true ⟨o₂, clock₂, args⟩).rateOf id d) := by
  refine ⟨fun o => merge_isOk_iff o usersByNode, fun o out h => merge_exact o h,
    fun o hok nodes inbounds o₁ o₂ clock₁ clock₂ => ?_⟩
  intro args
  have hunion := union_order_independent nodes ((merge_isOk_iff o usersByNode).1 hok) inbounds o₁ o₂
  have husers : ∀ (build : Bool) (m : UserManager) id,
      ((m.call build ⟨o₁, clock₁, args⟩).users.lookup id).map unnamed =
        ((m.call build ⟨o₂, clock₂, args⟩).users.lookup id).map unnamed := by
    intro build m id
    rw [(m.call_spec build ⟨o₁, clock₁, args⟩).1, (m.call_spec build ⟨o₂, clock₂, args⟩).1]
    exact hunion id
  refine ⟨fun build m => ⟨fun tag => ?_, husers build m⟩, fun now nodeMbps before => ?_⟩
  · exact (UserManager.lookup_byInbound_commit build o₁ clock₁ m _ tag).trans
      (UserManager.lookup_byInbound_commit build o₂ clock₂ m _ tag).symm
  · intro m id d
    -- the rate is a function of what the orders leave alone
    have hm : m.LimiterInv := (UserManager.limiterInv_new now nodeMbps).events before
    have hspeed : ∀ x : Option User, (x.map fun u => mbpsToBytes u.speedLimit) =
        (x.map unnamed).map fun u => mbpsToBytes u.speedLimit := by
      intro x
      cases x <;> rfl
    rw [(hm.call ⟨o₁, clock₁, args⟩).rateOf id d, (hm.call ⟨o₂, clock₂, args⟩).rateOf id d, hspeed, husers true m id,
      ← hspeed]

end MiniSbAgent.Agent
