import MiniSbAgent.Lib.Roster
import MiniSbAgent.Panelapi.Client

/-!
# The difference of two user lists

An inbound is brought from one list of users to the next by the users that go and the users that come; a user whose
credentials are the same in both is in neither.  `userChanges` finds both in one pass over each list, in whatever
order the maps are walked.

* `roster cred users` — the credential `cred` of each user of a snapshot, by id, as far as it is not empty;
* `removes_removedUsers`, `adds_addedUsers` — the two halves of the difference take the roster of the old snapshot to
  that of the new one, by way of the users that stay.
-/

namespace MiniSbAgent.Agent

open MiniSbAgent.Go MiniSbAgent.Lib.Roster MiniSbAgent.Panelapi

/-- The users with a positive id, the last one of each id. -/
def usersByID (users : List User) : GoMap ℤ User :=
  writes ∅ ((users.filter fun u => 0 < u.id).map fun u => (u.id, u))

/-- The three fields that authenticate a user are the same. -/
def SameAuth (a b : User) : Prop := a.uuid = b.uuid ∧ a.password = b.password ∧ a.name = b.name

instance (a b : User) : Decidable (SameAuth a b) := by unfold SameAuth; infer_instance

/-- The condition of both loops: the other list does not have the user, or has it with other credentials. -/
def changed (other : Option User) (u : User) : Bool :=
  match other with
  | none => true
  | some v => !decide (SameAuth v u)

def removedUsers (o : RangeOrder ((_ : ℤ) × User)) (old next : GoMap ℤ User) : List User :=
  ((o.visit old.entries).filter fun e => changed (next.lookup e.1) e.2).map Sigma.snd

def addedUsers (o : RangeOrder ((_ : ℤ) × User)) (old next : GoMap ℤ User) : List User :=
  ((o.visit next.entries).filter fun e => changed (old.lookup e.2.id) e.2).map Sigma.snd

def userChanges (oOld oNext : RangeOrder ((_ : ℤ) × User)) (old : GoMap ℤ User) (next : List User) :
    List User × List User :=
  (removedUsers oOld old (usersByID next), addedUsers oNext old (usersByID next))

/-! ### Snapshots -/

/-- A snapshot has each user under its own, positive id. -/
def Keyed (users : GoMap ℤ User) : Prop := ∀ id u, users.lookup id = some u → u.id = id ∧ 0 < id

theorem mem_of_lookup_usersByID {users : List User} {id : ℤ} {u : User}
    (h : (usersByID users).lookup id = some u) : u ∈ users ∧ u.id = id ∧ 0 < id := by
  unfold usersByID at h
  rcases mem_or_of_lookup_writes h with h | h
  · simp at h
  · obtain ⟨v, hv, heq⟩ := List.mem_map.1 h
    cases heq
    obtain ⟨hv, hpos⟩ := List.mem_filter.1 hv
    exact ⟨hv, rfl, by simpa using hpos⟩

theorem keyed_usersByID (users : List User) : Keyed (usersByID users) :=
  fun _ _ h => (mem_of_lookup_usersByID h).2

theorem mem_usersByID {users : List User} {id : ℤ} : id ∈ usersByID users ↔ 0 < id ∧ ∃ u ∈ users, u.id = id := by
  constructor
  · intro h
    obtain ⟨u, hu⟩ := Option.isSome_iff_exists.1 (AList.lookup_isSome.2 h)
    obtain ⟨hmem, hid, hpos⟩ := mem_of_lookup_usersByID hu
    exact ⟨hpos, u, hmem, hid⟩
  · rintro ⟨hpos, u, hmem, rfl⟩
    have hw : (u.id, u) ∈ (users.filter fun u => 0 < u.id).map fun u => (u.id, u) :=
      List.mem_map.2 ⟨u, List.mem_filter.2 ⟨hmem, by simpa using hpos⟩, rfl⟩
    obtain ⟨v, hv, -⟩ := exists_lookup_writes (m := ∅) hw
    exact AList.lookup_isSome.1 (Option.isSome_iff_exists.2 ⟨v, hv⟩)

theorem keyed_empty : Keyed ∅ := fun _ _ h => (nomatch h)

/-! ### Rosters of credentials -/

section Rosters

variable (cred : User → String)

/-- The non-empty credentials of a snapshot, by user id. -/
def roster (users : GoMap ℤ User) (id : ℤ) : Option String :=
  (users.lookup id).bind fun u => if cred u = "" then none else some (cred u)

/-- The user of this id is in both snapshots, with the same credentials. -/
def Stays (old next : GoMap ℤ User) (id : ℤ) : Prop :=
  ∃ u v, old.lookup id = some u ∧ next.lookup id = some v ∧ SameAuth u v

open Classical in
/-- The credentials of the users that stay. -/
noncomputable def keptRoster (old next : GoMap ℤ User) (id : ℤ) : Option String :=
  if Stays old next id then roster cred old id else none

/-- The non-empty credentials of some users. -/
def credentials (users : List User) : List String := (users.map cred).filter fun x => x ≠ ""

/-- The same with the ids. -/
def credentialPairs (users : List User) : List (String × ℤ) :=
  (users.filter fun u => cred u ≠ "").map fun u => (cred u, u.id)

variable {cred}

theorem roster_eq_some {users : GoMap ℤ User} {id : ℤ} {x : String} :
    roster cred users id = some x ↔ ∃ u, users.lookup id = some u ∧ cred u = x ∧ x ≠ "" := by
  unfold roster
  rw [Option.bind_eq_some_iff]
  refine exists_congr fun u => and_congr_right fun _ => ?_
  by_cases h : cred u = ""
  · simp only [h, if_true, reduceCtorEq, false_iff]
    rintro ⟨rfl, hne⟩
    exact hne rfl
  · rw [if_neg h, Option.some.injEq]
    exact ⟨fun he => ⟨he, he ▸ h⟩, fun he => he.1⟩

theorem pos_of_roster {users : GoMap ℤ User} (hk : Keyed users) (id : ℤ) (x : String)
    (h : roster cred users id = some x) : 0 < id := by
  obtain ⟨u, hu, -⟩ := roster_eq_some.1 h
  exact (hk id u hu).2

theorem keptRoster_eq_some {old next : GoMap ℤ User} {id : ℤ} {x : String} :
    keptRoster cred old next id = some x ↔ Stays old next id ∧ roster cred old id = some x := by
  unfold keptRoster
  split
  · rename_i h; simp [h]
  · rename_i h; simp [h]

theorem keptRoster_eq_none {old next : GoMap ℤ User} {id : ℤ} (h : ¬ Stays old next id) :
    keptRoster cred old next id = none := if_neg h

theorem changed_eq_true {other : Option User} {u : User} :
    changed other u = true ↔ ∀ v, other = some v → ¬ SameAuth v u := by
  cases other with
  | none => simp [changed]
  | some v => simp [changed]

theorem SameAuth.symm {a b : User} (h : SameAuth a b) : SameAuth b a := ⟨h.1.symm, h.2.1.symm, h.2.2.symm⟩

theorem mem_removedUsers (o : RangeOrder ((_ : ℤ) × User)) {old next : GoMap ℤ User} {u : User} :
    u ∈ removedUsers o old next ↔ ∃ id, old.lookup id = some u ∧ ¬ Stays old next id := by
  unfold removedUsers
  simp only [List.mem_map, List.mem_filter]
  constructor
  · rintro ⟨⟨id, u'⟩, ⟨he, hc⟩, rfl⟩
    have hl := (mem_range_iff o old).1 he
    refine ⟨id, hl, ?_⟩
    rintro ⟨w, v, hw, hv, hsame⟩
    rw [hl] at hw
    cases hw
    exact changed_eq_true.1 hc v hv hsame.symm
  · rintro ⟨id, hl, hnot⟩
    refine ⟨⟨id, u⟩, ⟨(mem_range_iff o old).2 hl, changed_eq_true.2 fun v hv hsame => ?_⟩, rfl⟩
    exact hnot ⟨u, v, hl, hv, hsame.symm⟩

theorem mem_addedUsers (o : RangeOrder ((_ : ℤ) × User)) {old next : GoMap ℤ User} (hk : Keyed next) {u : User} :
    u ∈ addedUsers o old next ↔ next.lookup u.id = some u ∧ ¬ Stays old next u.id := by
  unfold addedUsers
  simp only [List.mem_map, List.mem_filter]
  constructor
  · rintro ⟨⟨id, u'⟩, ⟨he, hc⟩, rfl⟩
    have hl := (mem_range_iff o next).1 he
    obtain ⟨rfl, -⟩ := hk id u' hl
    refine ⟨hl, ?_⟩
    rintro ⟨w, v, hw, hv, hsame⟩
    rw [hl] at hv
    cases hv
    exact changed_eq_true.1 hc w hw hsame
  · rintro ⟨hl, hnot⟩
    refine ⟨⟨u.id, u⟩, ⟨(mem_range_iff o next).2 hl, changed_eq_true.2 fun v hv hsame => ?_⟩, rfl⟩
    exact hnot ⟨v, u, hv, hl, hsame⟩

theorem nodup_addedUsers (o : RangeOrder ((_ : ℤ) × User)) {old next : GoMap ℤ User} (hk : Keyed next) :
    (addedUsers o old next).Nodup := by
  unfold addedUsers
  have hnodup : (o.visit next.entries).Nodup := (o.perm _).nodup_iff.2 (List.NodupKeys.nodup next.nodupKeys)
  refine (hnodup.filter _).map_on fun e he e' he' heq => ?_
  obtain ⟨id, u⟩ := e
  obtain ⟨id', u'⟩ := e'
  obtain rfl : u = u' := heq
  have h := (hk id u ((mem_range_iff o next).1 (List.mem_of_mem_filter he))).1
  have h' := (hk id' u ((mem_range_iff o next).1 (List.mem_of_mem_filter he'))).1
  rw [← h, ← h']

/-- **The users that go take the roster to the users that stay.** -/
theorem removes_removedUsers (o : RangeOrder ((_ : ℤ) × User)) (old next : GoMap ℤ User) :
    Removes (roster cred old) (keptRoster cred old next) (credentials cred (removedUsers o old next)) := by
  refine ⟨fun id x h => (keptRoster_eq_some.1 h).2, fun id x h hx => ?_, fun x hx => ?_⟩
  · refine keptRoster_eq_some.2 ⟨?_, h⟩
    by_contra hnot
    obtain ⟨u, hu, hcred, hne⟩ := roster_eq_some.1 h
    refine hx (List.mem_filter.2 ⟨List.mem_map.2 ⟨u, (mem_removedUsers o).2 ⟨id, hu, hnot⟩, hcred⟩, ?_⟩)
    simpa using hne
  · obtain ⟨hx, hne⟩ := List.mem_filter.1 hx
    obtain ⟨u, hu, rfl⟩ := List.mem_map.1 hx
    obtain ⟨id, hl, hnot⟩ := (mem_removedUsers o).1 hu
    exact ⟨id, roster_eq_some.2 ⟨u, hl, rfl, by simpa using hne⟩, keptRoster_eq_none hnot⟩

/-- **The users that come take the users that stay to the new roster.** -/
theorem adds_addedUsers (o : RangeOrder ((_ : ℤ) × User)) {old next : GoMap ℤ User} (hk : Keyed next)
    (hcred : ∀ u v, SameAuth u v → cred u = cred v) :
    Adds (keptRoster cred old next) (roster cred next) (credentialPairs cred (addedUsers o old next)) := by
  refine ⟨fun id x h => ?_, fun x id h => ?_, fun id x h => ?_, ?_⟩
  · obtain ⟨⟨u, v, hu, hv, hsame⟩, hr⟩ := keptRoster_eq_some.1 h
    obtain ⟨u', hu', hx, hne⟩ := roster_eq_some.1 hr
    rw [hu] at hu'
    cases hu'
    exact roster_eq_some.2 ⟨v, hv, (hcred u v hsame) ▸ hx, hne⟩
  · obtain ⟨u, hu, heq⟩ := List.mem_map.1 h
    cases heq
    obtain ⟨hu, hne⟩ := List.mem_filter.1 hu
    obtain ⟨hl, hnot⟩ := (mem_addedUsers o hk).1 hu
    exact ⟨roster_eq_some.2 ⟨u, hl, rfl, by simpa using hne⟩, keptRoster_eq_none hnot⟩
  · obtain ⟨v, hv, hx, hne⟩ := roster_eq_some.1 h
    by_cases hs : Stays old next id
    · left
      refine keptRoster_eq_some.2 ⟨hs, ?_⟩
      obtain ⟨u, v', hu, hv', hsame⟩ := hs
      rw [hv] at hv'
      cases hv'
      exact roster_eq_some.2 ⟨u, hu, (hcred u v hsame).trans hx, hne⟩
    · right
      obtain ⟨rfl, -⟩ := hk id v hv
      refine List.mem_map.2 ⟨v, List.mem_filter.2 ⟨(mem_addedUsers o hk).2 ⟨hv, hs⟩, ?_⟩, by rw [hx]⟩
      rw [hx]
      simpa using hne
  · refine ((nodup_addedUsers o hk).filter _).map_on fun u hu v hv heq => ?_
    have hu := ((mem_addedUsers o hk).1 (List.mem_of_mem_filter hu)).1
    have hv := ((mem_addedUsers o hk).1 (List.mem_of_mem_filter hv)).1
    rw [(Prod.mk.inj heq).2, hv] at hu
    exact (Option.some.inj hu).symm

/-- **A user that stays is in neither half**: its credential is not deleted, and neither its id nor its credential is
added. -/
theorem untouched_of_stays (oOld oNext : RangeOrder ((_ : ℤ) × User)) {old next : GoMap ℤ User} (hk : Keyed next)
    (hcred : ∀ u v, SameAuth u v → cred u = cred v) (hd : Distinct (roster cred old))
    (hd' : Distinct (roster cred next)) {id : ℤ} {u v : User} (hu : old.lookup id = some u)
    (hv : next.lookup id = some v) (hsame : SameAuth u v) :
    cred u ∉ credentials cred (removedUsers oOld old next) ∧
      ∀ p ∈ credentialPairs cred (addedUsers oNext old next), p.1 ≠ cred u ∧ p.2 ≠ id := by
  have hstays : Stays old next id := ⟨u, v, hu, hv, hsame⟩
  have hroster : ∀ x, x ≠ "" → x = cred u → roster cred next id = some x :=
    fun x hne hx => roster_eq_some.2 ⟨v, hv, by rw [hx, hcred u v hsame], hne⟩
  constructor
  · intro hmem
    have hne : cred u ≠ "" := by simpa using (List.mem_filter.1 hmem).2
    have hkept : keptRoster cred old next id = some (cred u) :=
      keptRoster_eq_some.2 ⟨hstays, roster_eq_some.2 ⟨u, hu, rfl, hne⟩⟩
    exact (removes_removedUsers oOld old next).kept hd hkept hmem
  · rintro ⟨x, i⟩ hp
    have hnew := (adds_addedUsers oNext hk hcred).new x i hp
    obtain ⟨w, hw, heq⟩ := List.mem_map.1 hp
    cases heq
    have hid : w.id ≠ id :=
      fun h => ((mem_addedUsers oNext hk).1 (List.mem_of_mem_filter hw)).2 (h.symm ▸ hstays)
    refine ⟨fun hx => hid ?_, hid⟩
    have hne : cred w ≠ "" := by simpa using (List.mem_filter.1 hw).2
    exact hd' w.id id _ hnew.1 (hroster _ hne hx)

/-- A snapshot without a repeated credential. -/
theorem distinct_roster {users : GoMap ℤ User}
    (h : ((users.entries.map fun e => cred e.2).filter fun x => x ≠ "").Nodup) : Distinct (roster cred users) := by
  intro i j x hi hj
  obtain ⟨u, hu, rfl, hne⟩ := roster_eq_some.1 hi
  obtain ⟨v, hv, hx, -⟩ := roster_eq_some.1 hj
  rw [List.filter_map] at h
  have heq := List.inj_on_of_nodup_map h (x := ⟨i, u⟩) (y := ⟨j, v⟩)
    (List.mem_filter.2 ⟨(mem_entries_iff users).2 hu, by simpa using hne⟩)
    (List.mem_filter.2 ⟨(mem_entries_iff users).2 hv, by simpa [hx] using hne⟩) hx.symm
  exact congrArg Sigma.fst heq

end Rosters

end MiniSbAgent.Agent
