import MiniSbAgent.Agent.UserManager

/-!
# Whose credential it is

The manager finds the user of a connection by its credential, in one alias map that `secretsFrom` fills with the UUID,
the password and the display name of every user, in whatever order it meets them.  A later write wins.

* `Separate`, `Agree` — what the lists of a call must respect for a credential to have an owner at all;
* `NamesApart` — no user's name is the credential of another user;
* `owned_iff` — given the first two, the third is exactly what it takes for every credential to lead to its owner in
  every order.
-/

namespace MiniSbAgent.Agent

open MiniSbAgent.Go MiniSbAgent.Panelapi

/-- The UUID and the password of a user, as far as they are not empty. -/
def ownSecrets (u : User) : List String := [u.uuid, u.password].filter fun x => x ≠ ""

theorem mem_ownSecrets {u : User} {x : String} : x ∈ ownSecrets u ↔ (x = u.uuid ∨ x = u.password) ∧ x ≠ "" := by
  simp [ownSecrets]

theorem mem_aliases {u : User} {x : String} : x ∈ aliases u ↔ x ∈ ownSecrets u ∨ x = u.name ∧ x ≠ "" := by
  simp only [aliases, ownSecrets, List.mem_filter, List.mem_cons, List.not_mem_nil, or_false, decide_eq_true_eq]
  constructor
  · rintro ⟨h | h | h, hne⟩
    · exact Or.inl ⟨Or.inl h, hne⟩
    · exact Or.inl ⟨Or.inr h, hne⟩
    · exact Or.inr ⟨h, hne⟩
  · rintro (⟨h | h, hne⟩ | ⟨h, hne⟩)
    · exact ⟨Or.inl h, hne⟩
    · exact ⟨Or.inr (Or.inl h), hne⟩
    · exact ⟨Or.inr (Or.inr h), hne⟩

namespace ApplyArgs

variable (args : ApplyArgs)

/-- No credential belongs to two ids. -/
def Separate : Prop :=
  ∀ users users', args.Gives users → args.Gives users' → ∀ u ∈ users, ∀ v ∈ users', u.id ≠ v.id →
    ∀ x ∈ ownSecrets u, x ∉ ownSecrets v

/-- The entries of one id have the same credentials. -/
def Agree : Prop :=
  ∀ users users', args.Gives users → args.Gives users' → ∀ u ∈ users, ∀ v ∈ users', u.id = v.id →
    u.uuid = v.uuid ∧ u.password = v.password

/-- No user is named by the credential of another one.  Of several entries with one id, the last of each list
counts. -/
def NamesApart : Prop :=
  ∀ users users', args.Gives users → args.Gives users' → ∀ id id' u v, (usersByID users).lookup id = some u →
    (usersByID users').lookup id' = some v → id ≠ id' → v.name ∉ ownSecrets u

end ApplyArgs

/-- **Every credential leads to its owner**: to the id of its user, and in the user-limit build to the user's pair. -/
def UserManager.Owned (build : Bool) (m : UserManager) : Prop :=
  ∀ id u, m.users.lookup id = some u → ∀ x ∈ ownSecrets u,
    m.resolve x = itoa id ∧
    (build = true → ∃ a, m.limiters.lookup id = some a ∧
      (m.directionalLimiters build x).userRead = some ⟨a, .rx⟩ ∧
      (m.directionalLimiters build x).userWrite = some ⟨a, .tx⟩)

/-! ### Orders that let an entry win -/

/-- The user that is met last has all its aliases. -/
theorem lookup_secretsFrom_last {users : GoMap ℤ User} {id : ℤ} {u : User} (hu : users.lookup id = some u)
    {x : String} (hx : x ∈ aliases u) : (secretsFrom (.last fun e => e.1 == id) users).lookup x = some id := by
  unfold secretsFrom
  refine lookup_writes_last (fun e : (_ : ℤ) × User => e.1 == id) _ ((mem_entries_iff users).2 hu) (beq_self_eq_true id)
    (List.mem_map.2 ⟨x, hx, rfl⟩) fun e _ he id' hid' => ?_
  obtain ⟨y, -, heq⟩ := List.mem_map.1 hid'
  cases heq
  exact beq_iff_eq.1 he

/-- The list that is met last has its users in the union. -/
theorem lookup_unionOf_last (o : Orders) {lists : GoMap String (List User)} {tag : String} {users : List User}
    (hl : lists.lookup tag = some users) {id : ℤ} {u : User} (hu : (usersByID users).lookup id = some u) :
    (UserManager.unionOf { o with lists := .last fun e => e.1 == tag } lists).lookup id = some u := by
  unfold UserManager.unionOf
  refine lookup_writes_last (fun e : (_ : String) × List User => e.1 == tag) _ ((mem_entries_iff lists).2 hl)
    (beq_self_eq_true tag) (List.mem_map.2 ⟨⟨id, u⟩, (mem_range_iff _ _).2 hu, rfl⟩) fun e he htag v hv => ?_
  obtain ⟨⟨id', v'⟩, hv', heq⟩ := List.mem_map.1 hv
  cases heq
  have he' : lists.lookup e.1 = some e.2 := (mem_entries_iff lists).1 he
  rw [beq_iff_eq.1 htag, hl] at he'
  rw [← Option.some.inj he', mem_range_iff, hu] at hv'
  exact (Option.some.inj hv').symm

/-- Any entry that a call is given can be the one it commits. -/
theorem ApplyArgs.exists_order {args : ApplyArgs} {users : List User} (hg : args.Gives users) {id : ℤ} {u : User}
    (hu : (usersByID users).lookup id = some u) :
    ∃ o : Orders, ∀ s, (args.union { o with secrets := s }).lookup id = some u := by
  cases args with
  | box inbounds users =>
    cases hg
    by_cases hempty : isEmpty inbounds = true
    · refine ⟨Orders.stored, fun s => ?_⟩
      simp only [union, hempty, if_true]
      exact hu
    · obtain ⟨tag, ht⟩ := exists_mem_of_not_isEmpty hempty
      refine ⟨{ Orders.stored with lists := .last fun e => e.1 == tag }, fun s => ?_⟩
      simp only [union, hempty, Bool.false_eq_true, if_false]
      exact lookup_unionOf_last { Orders.stored with secrets := s } (lookup_collect_const.2 ⟨ht, rfl⟩) hu
  | byInbound inbounds lists =>
    obtain ⟨tag, hl⟩ := hg
    exact ⟨{ Orders.stored with lists := .last fun e => e.1 == tag },
      fun s => lookup_unionOf_last { Orders.stored with secrets := s } hl hu⟩

/-! ### Owners -/

section Owners

variable (build : Bool) (m : UserManager) {args : ApplyArgs}

theorem resolve_call_of_lookup {o : Orders} {clock : Clock} {x : String} {id : ℤ} (hne : x ≠ "")
    (h : (secretsFrom o.secrets (args.union o)).lookup x = some id) :
    (m.call build ⟨o, clock, args⟩).resolve x = itoa id := by
  unfold UserManager.resolve
  rw [if_neg hne, (m.call_spec build ⟨o, clock, args⟩).2.1, h]

/-- Names that keep apart leave every credential to its owner. -/
theorem owned_of_namesApart (hsep : args.Separate) (hnames : args.NamesApart) (o : Orders) (clock : Clock) :
    (m.call build ⟨o, clock, args⟩).Owned build := by
  obtain ⟨husers, hsecret, htable⟩ := m.call_spec build ⟨o, clock, args⟩
  intro id u hu x hx
  rw [husers] at hu
  obtain ⟨users, hg, hul⟩ := ApplyArgs.lookup_union o hu
  obtain ⟨humem, huid, -⟩ := mem_of_lookup_usersByID hul
  have hlookup : (secretsFrom o.secrets (args.union o)).lookup x = some id := by
    refine lookup_secretsFrom_of_unique o.secrets hu (mem_aliases.2 (Or.inl hx)) fun id' v hv hxv => ?_
    obtain ⟨users', hg', hvl⟩ := ApplyArgs.lookup_union o hv
    obtain ⟨hvmem, hvid, -⟩ := mem_of_lookup_usersByID hvl
    by_contra hne
    rcases mem_aliases.1 hxv with hxv | ⟨hname, -⟩
    · refine hsep users users' hg hg' u humem v hvmem ?_ x hx hxv
      rw [huid, hvid]
      exact Ne.symm hne
    · exact hnames users users' hg hg' id id' u v hul hvl (Ne.symm hne) (hname ▸ hx)
  refine ⟨resolve_call_of_lookup build m (mem_ownSecrets.1 hx).2 hlookup, fun hbuild => ?_⟩
  subst hbuild
  have hmem : id ∈ (m.call true ⟨o, clock, args⟩).limiters := by
    rw [htable, LimiterTable.mem_limiters_refresh _ _ _ _ (args.keyed_union o)]
    exact AList.lookup_isSome.1 (by rw [hu]; rfl)
  obtain ⟨a, ha⟩ := Option.isSome_iff_exists.1 (AList.lookup_isSome.2 hmem)
  refine ⟨a, ha, ?_, ?_⟩
  all_goals
    simp only [UserManager.directionalLimiters, if_true, hsecret, hlookup, Option.bind_some, ha, Option.map_some]

/-- **A credential resolves to its owner in every order exactly when no user is named by it.** -/
theorem owned_iff (hsep : args.Separate) (hagree : args.Agree) :
    (∀ o clock, (m.call build ⟨o, clock, args⟩).Owned build) ↔ args.NamesApart := by
  refine ⟨fun howned users users' hg hg' id id' u v hu hv hne hname => ?_,
    fun hnames o clock => owned_of_namesApart build m hsep hnames o clock⟩
  -- the entry with the name is committed, and its aliases are written last
  obtain ⟨o, ho⟩ := ApplyArgs.exists_order hg' hv
  let o' : Orders := { o with secrets := .last fun e => e.1 == id' }
  have hv' : (args.union o').lookup id' = some v := ho _
  have hne' : v.name ≠ "" := (mem_ownSecrets.1 hname).2
  have hredirect : (m.call build ⟨o', fun _ _ => 0, args⟩).resolve v.name = itoa id' :=
    resolve_call_of_lookup build m hne' (lookup_secretsFrom_last hv' (mem_aliases.2 (Or.inr ⟨rfl, hne'⟩)))
  -- and the owner is committed with the same credentials, if not with this entry
  obtain ⟨w, hw⟩ := ApplyArgs.exists_lookup_union o' hg hu
  obtain ⟨users'', hg'', hwl⟩ := ApplyArgs.lookup_union o' hw
  obtain ⟨humem, huid, -⟩ := mem_of_lookup_usersByID hu
  obtain ⟨hwmem, hwid, -⟩ := mem_of_lookup_usersByID hwl
  obtain ⟨huuid, hpassword⟩ := hagree users users'' hg hg'' u humem w hwmem (huid.trans hwid.symm)
  have hown : v.name ∈ ownSecrets w := by
    rw [mem_ownSecrets, ← huuid, ← hpassword]
    exact mem_ownSecrets.1 hname
  have husers := (m.call_spec build ⟨o', fun _ _ => 0, args⟩).1
  have hresolve := (howned o' (fun _ _ => 0) id w (husers ▸ hw) v.name hown).1
  exact hne (itoa_injective (hresolve.symm.trans hredirect))

end Owners

/-- Two users of one list, the second one under a given name. -/
def twoUsers (name : String) : List User :=
  [⟨1, "uuid-1", "pw-1", "1", 10⟩, ⟨2, "uuid-2", "pw-2", name, 20⟩]

/-- The two users are all that the inbound `vless-in` is given. -/
def twoUsersArgs (name : String) : ApplyArgs := .byInbound ∅ (AList.singleton "vless-in" (twoUsers name))

theorem gives_twoUsersArgs {name : String} {users : List User} (h : (twoUsersArgs name).Gives users) :
    users = twoUsers name := by
  obtain ⟨tag, hl⟩ := h
  have hmem := (mem_entries_iff _).2 hl
  cases List.mem_singleton.1 hmem
  rfl

theorem separate_twoUsersArgs (name : String) : (twoUsersArgs name).Separate := by
  intro users users' hg hg'
  rw [gives_twoUsersArgs hg, gives_twoUsersArgs hg']
  simp [twoUsers, ownSecrets]

theorem agree_twoUsersArgs (name : String) : (twoUsersArgs name).Agree := by
  intro users users' hg hg'
  rw [gives_twoUsersArgs hg, gives_twoUsersArgs hg']
  simp [twoUsers]

theorem namesApart_twoUsersArgs : (twoUsersArgs "2").NamesApart := by
  intro users users' hg hg' id id' u v hu hv hne
  rw [gives_twoUsersArgs hg] at hu
  rw [gives_twoUsersArgs hg'] at hv
  obtain ⟨humem, rfl, -⟩ := mem_of_lookup_usersByID hu
  obtain ⟨hvmem, rfl, -⟩ := mem_of_lookup_usersByID hv
  have hall : ∀ u ∈ twoUsers "2", ∀ v ∈ twoUsers "2", u.id ≠ v.id → v.name ∉ ownSecrets u := by decide
  exact hall u humem v hvmem hne

theorem owned_twoUsers : (twoUsersArgs "2").NamesApart ∧
    ∀ o clock, ((UserManager.new (fun _ => 0) 0).call true ⟨o, clock, twoUsersArgs "2"⟩).Owned true :=
  ⟨namesApart_twoUsersArgs,
    (owned_iff true _ (separate_twoUsersArgs "2") (agree_twoUsersArgs "2")).2 namesApart_twoUsersArgs⟩

/-- **A name can take a credential from its owner.** User 2 calls itself `uuid-1`: when it is met after user 1, what
user 1 sends is booked for user 2, and goes through the limiters of user 2. -/
theorem name_redirects_credential :
    (twoUsersArgs "uuid-1").Separate ∧ (twoUsersArgs "uuid-1").Agree ∧
    let m := (UserManager.new (fun _ => 0) 0).call true
      ⟨{ Orders.stored with secrets := .last fun e => e.1 == 2 }, fun _ _ => 0, twoUsersArgs "uuid-1"⟩
    m.users.lookup 1 = some ⟨1, "uuid-1", "pw-1", "1", 10⟩ ∧ m.resolve "uuid-1" = "2" ∧
      (m.directionalLimiters true "uuid-1").userRead = (m.limiters.lookup 2).map (⟨·, .rx⟩) :=
  ⟨separate_twoUsersArgs _, agree_twoUsersArgs _, by decide +kernel⟩

end MiniSbAgent.Agent
