import MiniSbAgent.Panelapi.Sync

/-!
# What is pushed and what is committed

After a push that succeeds, the syncer commits the numeric users of the acknowledged inbounds, and they are never
pushed again.  The push itself sends them by number: a key that is too long for an `int` has none, and two keys such as
`7` and `007` have the same one.

* `total`, `overwritten` — the sum over a map, and what the assignments of a loop take away from it;
* `lost_payload` — the payload and what it lost make up what the client counted;
* `pushed_iff` — exactly when the payload holds what is committed, whatever the order of its loop.
-/

namespace MiniSbAgent.Panelapi

open MiniSbAgent.Go MiniSbAgent.Counter

/-! ### Sums over maps -/

section Total

variable {K V W M : Type} [DecidableEq K] [AddCommMonoid M]

omit [DecidableEq K] in
/-- The sum of `g` over the values of a map. -/
def total (g : V → M) (m : GoMap K V) : M := (m.entries.map fun e => g e.2).sum

theorem sum_kerase (g : V → M) (k : K) (l : List ((_ : K) × V)) :
    ((l.kerase k).map fun e => g e.2).sum + ((l.dlookup k).map g).getD 0 = (l.map fun e => g e.2).sum := by
  induction l with
  | nil => exact add_zero _
  | cons e l ih =>
    by_cases h : k = e.1
    · have hk : (e :: l).kerase k = l := List.kerase_cons_eq h
      have hl : (e :: l).dlookup k = some e.2 := by
        subst h
        exact List.dlookup_cons_eq l e.1 e.2
      rw [hk, hl, List.map_cons, List.sum_cons, add_comm]
      rfl
    · have hk : (e :: l).kerase k = e :: l.kerase k := List.kerase_cons_ne h
      have hl : (e :: l).dlookup k = l.dlookup k := List.dlookup_cons_ne l e h
      rw [hk, hl, List.map_cons, List.sum_cons, List.map_cons, List.sum_cons, add_assoc, ih]

/-- An assignment adds the new value and takes the old one away. -/
theorem total_insert (g : V → M) (m : GoMap K V) (k : K) (v : V) :
    total g (m.insert k v) + ((m.lookup k).map g).getD 0 = total g m + g v := by
  show ((m.entries.kinsert k v).map fun e => g e.2).sum + ((m.entries.dlookup k).map g).getD 0 = _
  rw [List.kinsert_def, List.map_cons, List.sum_cons, add_assoc, sum_kerase, add_comm]
  rfl

/-- What the assignments of a loop overwrite. -/
def overwritten (g : V → M) (m : GoMap K V) : List (K × V) → M
  | [] => 0
  | w :: ws => ((m.lookup w.1).map g).getD 0 + overwritten g (m.insert w.1 w.2) ws

theorem total_writes (g : V → M) (m : GoMap K V) (ws : List (K × V)) :
    total g (writes m ws) + overwritten g m ws = total g m + (ws.map fun w => g w.2).sum := by
  induction ws generalizing m with
  | nil => rfl
  | cons w ws ih =>
    rw [writes_cons, overwritten, List.map_cons, List.sum_cons, add_left_comm, ih, ← add_assoc, ← add_assoc,
      ← total_insert, add_comm (total g _)]

theorem overwritten_append (g : V → M) (m : GoMap K V) (ws ws' : List (K × V)) :
    overwritten g m (ws ++ ws') = overwritten g m ws + overwritten g (writes m ws) ws' := by
  induction ws generalizing m with
  | nil => exact (zero_add _).symm
  | cons w ws ih => rw [List.cons_append, overwritten, overwritten, ih, writes_cons, add_assoc]

/-- Nothing is lost when only zeros are overwritten. -/
theorem overwritten_eq_zero (g : V → M) {m : GoMap K V} {ws : List (K × V)}
    (hm : ∀ k v, m.lookup k = some v → k ∈ ws.map Prod.fst → g v = 0)
    (hws : ws.Pairwise fun w w' => w.1 = w'.1 → g w.2 = 0) : overwritten g m ws = 0 := by
  induction ws generalizing m with
  | nil => rfl
  | cons w ws ih =>
    obtain ⟨hw, hws⟩ := List.pairwise_cons.1 hws
    have hfirst : ((m.lookup w.1).map g).getD 0 = 0 := by
      rcases h : m.lookup w.1 with _ | v
      · rfl
      · exact hm w.1 v h List.mem_cons_self
    rw [overwritten, hfirst, zero_add]
    refine ih (fun k v hv hk => ?_) hws
    rw [lookup_insert_of] at hv
    split at hv
    · rename_i hkw
      cases hv
      obtain ⟨w', hw', rfl⟩ := List.mem_map.1 hk
      exact hw w' hw' hkw.symm
    · exact hm k v hv (List.mem_cons_of_mem _ hk)

theorem overwritten_empty_eq_zero (g : V → M) {ws : List (K × V)}
    (hws : ws.Pairwise fun w w' => w.1 = w'.1 → g w.2 = 0) : overwritten g ∅ ws = 0 := by
  refine overwritten_eq_zero g (fun k v hv => ?_) hws
  rw [AList.lookup_empty] at hv
  cases hv

/-- The sum over a copied map. -/
theorem total_collect (g : W → M) (f : K → V → Option W) (m : GoMap K V) :
    total g (collect f m) = (m.entries.map fun e => ((f e.1 e.2).map g).getD 0).sum := by
  have hnodup : ((m.entries.filterMap fun e => (f e.1 e.2).map fun w => (e.1, w)).Pairwise
      fun w w' => w.1 = w'.1 → g w.2 = 0) := by
    have hkeys : m.entries.Pairwise fun e e' => e.1 ≠ e'.1 := List.pairwise_map.1 m.nodupKeys
    refine List.Pairwise.filterMap _ ?_ hkeys
    intro e e' hne w hw w' hw' heq
    obtain ⟨_, -, rfl⟩ := Option.map_eq_some_iff.1 hw
    obtain ⟨_, -, rfl⟩ := Option.map_eq_some_iff.1 hw'
    exact absurd heq hne
  have hsum := total_writes g ∅ (m.entries.filterMap fun e => (f e.1 e.2).map fun w => (e.1, w))
  rw [overwritten_empty_eq_zero g hnodup, add_zero] at hsum
  rw [collect, hsum]
  show 0 + _ = _
  rw [zero_add]
  generalize m.entries = l
  induction l with
  | nil => rfl
  | cons e l ih =>
    rw [List.filterMap_cons, List.map_cons, List.sum_cons, ← ih]
    rcases f e.1 e.2 with _ | w
    · exact (zero_add _).symm
    · rfl

end Total

section Ordered

variable {K M : Type} [DecidableEq K] [AddCommGroup M]

theorem total_tally (m : GoMap K M) (ws : List (K × M)) :
    total id (tally m ws) = total id m + (ws.map Prod.snd).sum := by
  induction ws generalizing m with
  | nil => exact (add_zero _).symm
  | cons w ws ih =>
    have hone : total id (m.insert w.1 ((m.lookup w.1).getD 0 + w.2)) = total id m + w.2 := by
      have hins := total_insert id m w.1 ((m.lookup w.1).getD 0 + w.2)
      rw [Option.map_id, id_eq, id_eq] at hins
      refine add_right_cancel (hins.trans ?_)
      abel
    show total id (tally (m.insert w.1 ((m.lookup w.1).getD 0 + w.2)) ws) = _
    rw [ih, hone, List.map_cons, List.sum_cons, add_assoc]

variable [PartialOrder M] [IsOrderedAddMonoid M]

theorem overwritten_nonneg {m : GoMap K M} {ws : List (K × M)} (hm : ∀ k v, m.lookup k = some v → 0 ≤ v)
    (hws : ∀ w ∈ ws, 0 ≤ w.2) : 0 ≤ overwritten id m ws := by
  induction ws generalizing m with
  | nil => exact le_rfl
  | cons w ws ih =>
    rw [overwritten, Option.map_id, id_eq]
    refine add_nonneg ?_ (ih (fun k v hv => ?_) fun w' hw' => hws w' (List.mem_cons_of_mem _ hw'))
    · rcases h : m.lookup w.1 with _ | v
      · exact le_rfl
      · exact hm w.1 v h
    · rw [lookup_insert_of] at hv
      split at hv
      · cases hv
        exact hws w List.mem_cons_self
      · exact hm k v hv

/-- A value that is overwritten is lost. -/
theorem le_overwritten {m : GoMap K M} {ws : List (K × M)} (hm : ∀ k v, m.lookup k = some v → 0 ≤ v)
    (hws : ∀ w ∈ ws, 0 ≤ w.2) {k : K} {v : M} (hv : m.lookup k = some v) (hk : k ∈ ws.map Prod.fst) :
    v ≤ overwritten id m ws := by
  induction ws generalizing m with
  | nil => cases hk
  | cons w ws ih =>
    have hws' : ∀ w' ∈ ws, 0 ≤ w'.2 := fun w' hw' => hws w' (List.mem_cons_of_mem _ hw')
    have hm' : ∀ k v, (m.insert w.1 w.2).lookup k = some v → 0 ≤ v := by
      intro k' v' hv'
      rw [lookup_insert_of] at hv'
      split at hv'
      · cases hv'
        exact hws w List.mem_cons_self
      · exact hm k' v' hv'
    rw [overwritten, Option.map_id, id_eq]
    by_cases hkw : k = w.1
    · rw [← hkw, hv]
      exact le_add_of_nonneg_right (overwritten_nonneg (hkw ▸ hm') hws')
    · have hk' : k ∈ ws.map Prod.fst := (List.mem_cons.1 hk).resolve_left hkw
      have hv' : (m.insert w.1 w.2).lookup k = some v := by
        rw [lookup_insert_of, if_neg hkw, hv]
      refine (ih hm' hws' hv' hk').trans (le_add_of_nonneg_left ?_)
      rcases h : m.lookup w.1 with _ | u
      · exact le_rfl
      · exact hm w.1 u h

/-- A value is lost when its key is written again later. -/
theorem le_overwritten_of_later {s t : List (K × M)} {k : K} {v : M} (hws : ∀ w ∈ s ++ (k, v) :: t, 0 ≤ w.2)
    (hk : k ∈ t.map Prod.fst) : v ≤ overwritten id ∅ (s ++ (k, v) :: t) := by
  have hs : ∀ w ∈ s ++ [(k, v)], 0 ≤ w.2 := by
    intro w hw
    refine hws w ?_
    rcases List.mem_append.1 hw with hw | hw
    · exact List.mem_append_left _ hw
    · rw [List.mem_singleton.1 hw]
      exact List.mem_append_right _ List.mem_cons_self
  have ht : ∀ w ∈ t, 0 ≤ w.2 := fun w hw => hws w (List.mem_append_right _ (List.mem_cons_of_mem _ hw))
  have hempty : ∀ (k : K) (v : M), (∅ : GoMap K M).lookup k = some v → 0 ≤ v := by
    intro k v hv
    rw [AList.lookup_empty] at hv
    cases hv
  have hmap : ∀ k' v', (writes ∅ (s ++ [(k, v)])).lookup k' = some v' → 0 ≤ v' := by
    intro k' v' hv'
    rcases mem_or_of_lookup_writes hv' with h | h
    · exact hempty k' v' h
    · exact hs _ h
  have hlast : (writes ∅ (s ++ [(k, v)])).lookup k = some v := by
    unfold writes
    rw [List.foldl_append]
    exact AList.lookup_insert _
  have hsplit : s ++ (k, v) :: t = (s ++ [(k, v)]) ++ t := by simp
  rw [hsplit, overwritten_append]
  exact (le_overwritten hmap ht hlast hk).trans (le_add_of_nonneg_left (overwritten_nonneg hempty hs))

end Ordered

/-! ### What is committed -/

/-- What a commit bills a user over all inbounds. -/
def billed (commit : Delta) (user : String) : ℤ × ℤ := total (fun users => (users.lookup user).getD 0) commit

/-- The bytes of a user on the inbounds of a client. -/
def Client.bytes (c : Client) (delta : Delta) (user : String) : ℤ × ℤ :=
  (delta.entries.map fun e => if c.matchesInbound e.1 then (e.2.lookup user).getD 0 else 0).sum

/-- The key is numeric and occurs on an inbound of the client. -/
def Client.Counts (c : Client) (delta : Delta) (user : String) : Prop :=
  isNumericUser user = true ∧
    ∃ tag users, delta.lookup tag = some users ∧ c.matchesInbound tag = true ∧ user ∈ users

/-- **The numbers tell the users apart**: a key with bytes has a number, and no other key has the same. -/
def Client.KeysApart (c : Client) (delta : Delta) : Prop :=
  ∀ user, c.Counts delta user → c.bytes delta user ≠ 0 →
    atoi user ≠ none ∧ ∀ user', c.Counts delta user' → user' ≠ user → atoi user' ≠ atoi user

section Committed

variable (c : Client) (delta : Delta)

theorem lookup_ackedTags {tag : String} {users : GoMap String (ℤ × ℤ)} (h : delta.lookup tag = some users) :
    ((c.ackedTags delta).lookup tag).getD false = c.matchesInbound tag := by
  unfold Client.ackedTags
  rw [lookup_collect, h, Option.bind_some]
  split
  · rename_i hm
    exact hm.symm
  · rename_i hm
    exact (Bool.not_eq_true _ ▸ hm).symm

/-- A sum over the inbounds of a commit, inbound by inbound. -/
theorem total_commitDelta {G : GoMap String (ℤ × ℤ) → ℤ × ℤ} (hG : ∀ users, isEmpty users = true → G users = 0) :
    total G (commitDelta delta (some (c.ackedTags delta))) = (delta.entries.map fun e =>
      if c.matchesInbound e.1 then G (collect (fun user d => if isNumericUser user then some d else none) e.2)
      else 0).sum := by
  unfold commitDelta collect₂
  rw [total_collect]
  refine congrArg List.sum (List.map_congr_left fun e he => ?_)
  have htag := lookup_ackedTags c delta ((mem_entries_iff delta).1 he)
  simp only [Option.all_some, htag]
  by_cases hm : c.matchesInbound e.1 = true
  · simp only [hm, Bool.true_and, if_true]
    split
    · rename_i hempty
      exact (hG _ hempty).symm
    · rfl
  · simp only [hm, Bool.false_and, Bool.false_eq_true, if_false]
    split
    · rfl
    · rename_i hempty
      refine absurd ((isEmpty_iff _).2 fun user => ?_) hempty
      rw [lookup_collect]
      cases e.2.lookup user <;> rfl

/-- What a commit bills a numeric user is what the inbounds of the client have for it. -/
theorem billed_commitDelta (user : String) :
    billed (commitDelta delta (some (c.ackedTags delta))) user =
      if isNumericUser user then c.bytes delta user else 0 := by
  unfold billed Client.bytes
  rw [total_commitDelta]
  · split
    · rename_i hnum
      refine congrArg List.sum (List.map_congr_left fun e _ => ?_)
      rw [lookup_collect]
      cases e.2.lookup user <;> simp [hnum]
    · rename_i hnum
      refine List.sum_eq_zero fun x hx => ?_
      obtain ⟨e, -, rfl⟩ := List.mem_map.1 hx
      rw [lookup_collect]
      cases e.2.lookup user <;> simp [hnum]
  · intro users hempty
    rw [(isEmpty_iff users).1 hempty]
    rfl

/-- All that a commit bills is all that the client counts. -/
theorem total_flat :
    total (total id) (commitDelta delta (some (c.ackedTags delta))) = total id (c.flat delta) := by
  unfold Client.flat Client.flatEntries
  rw [total_tally, total_commitDelta]
  · show _ = (0 : ℤ × ℤ) + _
    rw [zero_add]
    generalize delta.entries = l
    induction l with
    | nil => rfl
    | cons e l ih =>
      rw [List.flatMap_cons, List.map_append, List.sum_append, ← ih, List.map_cons, List.sum_cons]
      congr 1
      split
      · rw [total_collect, List.map_map]
        generalize e.2.entries = us
        induction us with
        | nil => rfl
        | cons u us ih =>
          rw [List.map_cons, List.sum_cons, ih, List.filter_cons]
          split
          · rfl
          · exact zero_add _
      · rfl
  · intro users hempty
    unfold isEmpty at hempty
    rw [List.isEmpty_iff] at hempty
    unfold total
    rw [hempty]
    rfl

end Committed

/-! ### What is sent -/

/-- The request that was sent, or the empty one. -/
def Push.payload (p : Push) : PushRequest := (p.sent.map Prod.snd).getD ∅

/-- **What is pushed is what is committed**: in total, and for every user that is billed anything. -/
structure Push.Exact (p : Push) (delta : Delta) : Prop where
  totals : total id p.payload = total (total id) (commitDelta delta (some p.acked))
  users : ∀ user, billed (commitDelta delta (some p.acked)) user ≠ 0 →
    ∃ uid, atoi user = some uid ∧ p.payload.lookup uid = some (billed (commitDelta delta (some p.acked)) user)

section Sent

variable (o : RangeOrder ((_ : String) × ℤ × ℤ)) (flat : GoMap String (ℤ × ℤ))

/-- The assignments of the loop that fills the payload. -/
def numbered (l : List ((_ : String) × ℤ × ℤ)) : List (ℤ × ℤ × ℤ) :=
  l.filterMap fun e => (atoi e.1).map fun uid => (uid, e.2)

theorem mem_numbered {l : List ((_ : String) × ℤ × ℤ)} {uid : ℤ} {d : ℤ × ℤ} :
    (uid, d) ∈ numbered l ↔ ∃ user, (⟨user, d⟩ : (_ : String) × ℤ × ℤ) ∈ l ∧ atoi user = some uid := by
  unfold numbered
  simp only [List.mem_filterMap, Option.map_eq_some_iff, Prod.mk.injEq]
  constructor
  · rintro ⟨⟨user, d'⟩, he, uid', hid, rfl, rfl⟩
    exact ⟨user, he, hid⟩
  · rintro ⟨user, he, hid⟩
    exact ⟨⟨user, d⟩, he, uid, hid, rfl, rfl⟩

/-- The bytes of the keys without a number. -/
def unnumbered (l : List ((_ : String) × ℤ × ℤ)) : ℤ × ℤ :=
  (l.map fun e => if atoi e.1 = none then e.2 else 0).sum

theorem sum_numbered (l : List ((_ : String) × ℤ × ℤ)) :
    ((numbered l).map fun w => id w.2).sum + unnumbered l = (l.map fun e => id e.2).sum := by
  unfold unnumbered numbered
  induction l with
  | nil => rfl
  | cons e l ih =>
    rw [List.filterMap_cons, List.map_cons, List.sum_cons, List.map_cons, List.sum_cons, ← ih]
    rcases atoi e.1 with _ | uid
    · simp only [Option.map_none, if_true, id_eq]
      abel
    · simp only [Option.map_some, reduceCtorEq, if_false, List.map_cons, List.sum_cons, id_eq]
      abel

/-- **The payload and what it lost make up what was counted.** -/
theorem lost_payload : total id (payload o flat) + overwritten id ∅ (numbered (o.visit flat.entries)) +
    unnumbered flat.entries = total id flat := by
  have hperm : ∀ f : ((_ : String) × ℤ × ℤ) → ℤ × ℤ,
      ((o.visit flat.entries).map f).sum = (flat.entries.map f).sum := fun f => ((o.perm _).map f).sum_eq
  have hwrites := total_writes id ∅ (numbered (o.visit flat.entries))
  have hsum := sum_numbered (o.visit flat.entries)
  have hun : unnumbered (o.visit flat.entries) = unnumbered flat.entries := hperm _
  have hempty : total id (∅ : GoMap ℤ (ℤ × ℤ)) = 0 := rfl
  rw [hempty, zero_add] at hwrites
  show total id (writes ∅ (numbered (o.visit flat.entries))) + _ + _ = _
  rw [hwrites, ← hun, hsum]
  exact hperm _

variable {flat}

theorem numbered_append (l l' : List ((_ : String) × ℤ × ℤ)) : numbered (l ++ l') = numbered l ++ numbered l' :=
  List.filterMap_append

section Losses

variable (hnn : ∀ user d, flat.lookup user = some d → 0 ≤ d)
include hnn

theorem numbered_nonneg : ∀ w ∈ numbered (o.visit flat.entries), 0 ≤ w.2 := by
  intro w hw
  obtain ⟨user, he, -⟩ := mem_numbered.1 hw
  exact hnn user w.2 ((mem_range_iff o flat).1 he)

theorem unnumbered_terms_nonneg : ∀ x ∈ flat.entries.map fun e => if atoi e.1 = none then e.2 else 0, 0 ≤ x := by
  intro x hx
  obtain ⟨e, he, rfl⟩ := List.mem_map.1 hx
  split
  · exact hnn e.1 e.2 ((mem_entries_iff flat).1 he)
  · exact le_rfl

/-- The bytes of a key without a number are lost. -/
theorem le_unnumbered {user : String} {d : ℤ × ℤ} (hl : flat.lookup user = some d) (hnone : atoi user = none) :
    d ≤ unnumbered flat.entries := by
  refine List.single_le_sum (unnumbered_terms_nonneg hnn) d ?_
  refine List.mem_map.2 ⟨⟨user, d⟩, (mem_entries_iff flat).2 hl, ?_⟩
  rw [if_pos hnone]

/-- When another key of the same number comes last, the bytes of a key are lost. -/
theorem le_overwritten_of_last {user user' : String} {d : ℤ × ℤ} {uid : ℤ} (hl : flat.lookup user = some d)
    (hid : atoi user = some uid) (hmem : user' ∈ flat) (hid' : atoi user' = some uid) (hne : user' ≠ user) :
    d ≤ overwritten id ∅ (numbered ((RangeOrder.last fun e => e.1 == user').visit flat.entries)) := by
  have hpos := numbered_nonneg (RangeOrder.last fun e => e.1 == user') hnn
  have hvisit : (RangeOrder.last fun e : (_ : String) × ℤ × ℤ => e.1 == user').visit flat.entries =
      (flat.entries.filter fun e => !(e.1 == user')) ++ flat.entries.filter fun e => e.1 == user' := rfl
  rw [hvisit, numbered_append] at hpos ⊢
  have hfirst : (uid, d) ∈ numbered (flat.entries.filter fun e => !(e.1 == user')) := by
    refine mem_numbered.2 ⟨user, List.mem_filter.2 ⟨(mem_entries_iff flat).2 hl, ?_⟩, hid⟩
    rw [Bool.not_eq_true', beq_eq_false_iff_ne]
    exact Ne.symm hne
  obtain ⟨d', hl'⟩ := Option.isSome_iff_exists.1 (AList.lookup_isSome.2 hmem)
  have hlast : (uid, d') ∈ numbered (flat.entries.filter fun e => e.1 == user') :=
    mem_numbered.2 ⟨user', List.mem_filter.2 ⟨(mem_entries_iff flat).2 hl', beq_self_eq_true user'⟩, hid'⟩
  obtain ⟨s, t, hst⟩ := List.append_of_mem hfirst
  rw [hst, List.append_assoc, List.cons_append] at hpos ⊢
  refine le_overwritten_of_later hpos ?_
  rw [List.map_append]
  exact List.mem_append_right _ (List.mem_map_of_mem (f := Prod.fst) hlast)

end Losses

/-- The numbers of a counted map tell its keys apart, as far as these have bytes. -/
def Apart (flat : GoMap String (ℤ × ℤ)) : Prop :=
  ∀ user d, flat.lookup user = some d → d ≠ 0 →
    atoi user ≠ none ∧ ∀ user' ∈ flat, user' ≠ user → atoi user' ≠ atoi user

/-- Keys that keep apart lose nothing. -/
theorem total_payload_of_apart (h : Apart flat) : total id (payload o flat) = total id flat := by
  have hun : unnumbered flat.entries = 0 := by
    refine List.sum_eq_zero fun x hx => ?_
    obtain ⟨e, he, rfl⟩ := List.mem_map.1 hx
    split
    · rename_i hnone
      by_contra hne
      exact (h e.1 e.2 ((mem_entries_iff flat).1 he) hne).1 hnone
    · rfl
  have hover : overwritten id ∅ (numbered (o.visit flat.entries)) = 0 := by
    refine overwritten_empty_eq_zero id ?_
    have hkeys : (o.visit flat.entries).Pairwise fun e e' => e.1 ≠ e'.1 :=
      List.pairwise_map.1 (nodup_range_keys o flat)
    refine List.Pairwise.filterMap _ (fun e e' hee w hw w' hw' heq => ?_) (List.Pairwise.and_mem.1 hkeys)
    obtain ⟨uid, hid, rfl⟩ := Option.map_eq_some_iff.1 hw
    obtain ⟨uid', hid', rfl⟩ := Option.map_eq_some_iff.1 hw'
    obtain ⟨he, he', hne⟩ := hee
    have hmem' : e'.1 ∈ flat := by
      rw [← AList.lookup_isSome, (mem_range_iff o flat).1 he']
      rfl
    by_contra hd
    refine (h e.1 e.2 ((mem_range_iff o flat).1 he) hd).2 e'.1 hmem' (Ne.symm hne) ?_
    rw [hid, hid']
    exact congrArg some heq.symm
  have hlost := lost_payload o flat
  rw [hun, hover, add_zero, add_zero] at hlost
  exact hlost

/-- Keys that keep apart are sent under their own numbers. -/
theorem lookup_payload_of_apart (h : Apart flat) {user : String} {d : ℤ × ℤ} (hl : flat.lookup user = some d)
    (hd : d ≠ 0) : ∃ uid, atoi user = some uid ∧ (payload o flat).lookup uid = some d := by
  obtain ⟨hsome, hother⟩ := h user d hl hd
  obtain ⟨uid, hid⟩ := Option.ne_none_iff_exists'.1 hsome
  refine ⟨uid, hid, lookup_writes_of_unique (mem_numbered.2 ⟨user, (mem_range_iff o flat).2 hl, hid⟩) ?_⟩
  intro d' hd'
  obtain ⟨user', he', hid'⟩ := mem_numbered.1 hd'
  have hl' := (mem_range_iff o flat).1 he'
  by_cases hu : user' = user
  · rw [hu, hl] at hl'
    exact (Option.some.inj hl').symm
  · have hmem' : user' ∈ flat := by
      rw [← AList.lookup_isSome, hl']
      rfl
    exact absurd (hid'.trans hid.symm) (hother user' hmem' hu)

/-- Keys that do not keep apart lose something in some order. -/
theorem apart_of_total_payload (hnn : ∀ user d, flat.lookup user = some d → 0 ≤ d)
    (h : ∀ o, total id (payload o flat) = total id flat) : Apart flat := by
  have hempty : ∀ (k : ℤ) (v : ℤ × ℤ), (∅ : PushRequest).lookup k = some v → 0 ≤ v := fun k v hv => nomatch hv
  -- the two losses are not negative, and they add up to nothing
  have hlost : ∀ o : RangeOrder ((_ : String) × ℤ × ℤ),
      overwritten id ∅ (numbered (o.visit flat.entries)) = 0 ∧ unnumbered flat.entries = 0 := by
    intro o
    have hsum := lost_payload o flat
    rw [h o, add_assoc] at hsum
    have hover := overwritten_nonneg hempty (numbered_nonneg o hnn)
    have hun : 0 ≤ unnumbered flat.entries := List.sum_nonneg (unnumbered_terms_nonneg hnn)
    exact (add_eq_zero_iff_of_nonneg hover hun).1 (add_eq_left.1 hsum)
  intro user d hl hd
  refine ⟨fun hnone => hd ?_, fun user' hmem hne heq => hd ?_⟩
  · have hle := le_unnumbered hnn hl hnone
    rw [(hlost (.stored _)).2] at hle
    exact le_antisymm hle (hnn user d hl)
  · rcases hid : atoi user with _ | uid
    · have hle := le_unnumbered hnn hl hid
      rw [(hlost (.stored _)).2] at hle
      exact le_antisymm hle (hnn user d hl)
    · have hle := le_overwritten_of_last hnn hl hid hmem (heq.trans hid) hne
      rw [(hlost _).1] at hle
      exact le_antisymm hle (hnn user d hl)

end Sent

/-! ### The push as a whole -/

section Whole

variable {urlOk : String → Bool} {o : RangeOrder ((_ : String) × ℤ × ℤ)} {c : Client} {delta : Delta}
  {ex : Exchange Unit}

/-- Whether there is anything to send does not depend on the order. -/
theorem isEmpty_payload_iff (o : RangeOrder ((_ : String) × ℤ × ℤ)) (flat : GoMap String (ℤ × ℤ)) :
    isEmpty (payload o flat) = true ↔ ∀ user ∈ flat, atoi user = none := by
  constructor
  · intro h user hmem
    obtain ⟨d, hl⟩ := Option.isSome_iff_exists.1 (AList.lookup_isSome.2 hmem)
    rcases hid : atoi user with _ | uid
    · rfl
    · obtain ⟨d', hd', -⟩ := exists_lookup_writes (m := (∅ : PushRequest))
        (mem_numbered.2 ⟨user, (mem_range_iff o flat).2 hl, hid⟩)
      have hnone := (isEmpty_iff (payload o flat)).1 h uid
      rw [show (payload o flat).lookup uid = some d' from hd'] at hnone
      cases hnone
  · intro h
    refine (isEmpty_iff _).2 fun uid => ?_
    rcases hl : (payload o flat).lookup uid with _ | d
    · rfl
    · rcases mem_or_of_lookup_writes hl with hl | hl
      · cases hl
      · obtain ⟨user, he, hid⟩ := mem_numbered.1 hl
        have hmem : user ∈ flat := by
          rw [← AList.lookup_isSome, (mem_range_iff o flat).1 he]
          rfl
        rw [h user hmem] at hid
        cases hid

theorem pushFails_order (o o' : RangeOrder ((_ : String) × ℤ × ℤ)) (h : c.PushFails urlOk o delta ex) :
    c.PushFails urlOk o' delta ex := by
  obtain ⟨hflat, hfail⟩ := h
  refine ⟨hflat, hfail.imp_right fun ⟨hpay, hacc⟩ => ⟨?_, hacc⟩⟩
  rw [← Bool.not_eq_true, isEmpty_payload_iff] at hpay ⊢
  exact hpay

theorem eq_empty_of_isEmpty {K V : Type} [DecidableEq K] {m : GoMap K V} (h : isEmpty m = true) : m = ∅ :=
  AList.ext (List.isEmpty_iff.1 h)

/-- A push that does not fail has sent the payload, or had none. -/
theorem payload_pushTraffic (h : ¬ c.PushFails urlOk o delta ex) :
    (c.pushTraffic urlOk o delta ex).payload = payload o (c.flat delta) := by
  unfold Client.pushTraffic Push.payload
  by_cases hflat : isEmpty (c.flat delta) = true
  · simp only [hflat, if_true]
    exact (eq_empty_of_isEmpty (isEmpty_payload o c delta hflat)).symm
  rw [Bool.not_eq_true] at hflat
  rcases hep : c.endpoint urlOk "/api/v1/server/UniProxy/push" with e | ep
  · exact absurd ⟨hflat, Or.inl ⟨e, hep⟩⟩ h
  by_cases hpay : isEmpty (payload o (c.flat delta)) = true
  · simp only [hflat, hpay, Bool.false_eq_true, if_false, if_true]
    exact (eq_empty_of_isEmpty hpay).symm
  · simp only [hflat, hpay, Bool.false_eq_true, if_false]
    cases ex with
    | failed => rfl
    | answered code body =>
      simp only
      split <;> rfl

theorem lookup_flat {user : String} {d : ℤ × ℤ} (h : (c.flat delta).lookup user = some d) :
    c.Counts delta user ∧ d = c.bytes delta user := by
  have hmem : user ∈ c.flat delta := by
    rw [← AList.lookup_isSome, h]
    rfl
  have hcounts := (mem_flat c delta user).1 hmem
  have hbytes := getD_flat c delta hcounts.1
  rw [h] at hbytes
  exact ⟨hcounts, hbytes⟩

/-- The condition in terms of what the client counts. -/
theorem apart_flat_iff : Apart (c.flat delta) ↔ c.KeysApart delta := by
  constructor
  · intro h user hcounts hbytes
    obtain ⟨d, hl⟩ := Option.isSome_iff_exists.1 (AList.lookup_isSome.2 ((mem_flat c delta user).2 hcounts))
    obtain ⟨hsome, hother⟩ := h user d hl ((lookup_flat hl).2 ▸ hbytes)
    exact ⟨hsome, fun user' hcounts' => hother user' ((mem_flat c delta user').2 hcounts')⟩
  · intro h user d hl hd
    obtain ⟨hcounts, hbytes⟩ := lookup_flat hl
    obtain ⟨hsome, hother⟩ := h user hcounts (hbytes ▸ hd)
    exact ⟨hsome, fun user' hmem' => hother user' ((mem_flat c delta user').1 hmem')⟩

theorem flat_nonneg (hnn : ∀ tag user d, lookup₂ delta tag user = some d → 0 ≤ d) :
    ∀ user d, (c.flat delta).lookup user = some d → 0 ≤ d := by
  intro user d hl
  rw [(lookup_flat hl).2]
  refine List.sum_nonneg fun x hx => ?_
  obtain ⟨e, he, rfl⟩ := List.mem_map.1 hx
  split
  · rcases hu : e.2.lookup user with _ | d'
    · exact le_rfl
    · refine hnn e.1 user d' ?_
      unfold lookup₂
      rw [(mem_entries_iff delta).1 he]
      exact hu
  · exact le_rfl

/-- **When what is pushed is what is committed.** For amounts that are not negative, and a push that succeeds: its
payload holds what is committed, in whatever order it was filled, exactly when every numeric key with bytes on the
inbounds of the client has a number of its own. -/
theorem pushed_iff (hnn : ∀ tag user d, lookup₂ delta tag user = some d → 0 ≤ d)
    (hok : (c.pushTraffic urlOk o delta ex).err = none) :
    (∀ o', (c.pushTraffic urlOk o' delta ex).err = none ∧ (c.pushTraffic urlOk o' delta ex).Exact delta) ↔
      c.KeysApart delta := by
  have hfails : ∀ o', ¬ c.PushFails urlOk o' delta ex :=
    fun o' hf => pushTraffic_err_iff.1 hok (pushFails_order o' o hf)
  rw [← apart_flat_iff]
  constructor
  · intro h
    refine apart_of_total_payload (flat_nonneg hnn) fun o' => ?_
    have htotals := (h o').2.totals
    rw [payload_pushTraffic (hfails o'), (pushTraffic_of_not_fails (hfails o')).1, total_flat] at htotals
    exact htotals
  · intro hapart o'
    refine ⟨pushTraffic_err_iff.2 (hfails o'), ?_, fun user hbilled => ?_⟩
    · rw [payload_pushTraffic (hfails o'), (pushTraffic_of_not_fails (hfails o')).1, total_flat]
      exact total_payload_of_apart o' hapart
    · rw [payload_pushTraffic (hfails o')]
      rw [(pushTraffic_of_not_fails (hfails o')).1, billed_commitDelta] at hbilled ⊢
      split at hbilled
      · rename_i hnum
        rw [if_pos hnum]
        have hbytes := getD_flat c delta hnum
        rcases hl : (c.flat delta).lookup user with _ | d
        · rw [hl] at hbytes
          exact absurd hbytes.symm hbilled
        · have hd : d = c.bytes delta user := (lookup_flat hl).2
          rw [← hd] at hbilled ⊢
          exact lookup_payload_of_apart o' hapart hl hbilled
      · exact absurd rfl hbilled

end Whole

/-- Two counters of one inbound, under two keys. -/
def twoKeys (a b : String) : Delta :=
  AList.singleton "vless-in" ((AList.singleton a (1, 2)).insert b (3, 4))

/-- The client of a VLESS node. -/
def vlessClient : Client := Client.new "https://panel" "token" "1" "vless"

theorem keysApart_twoKeys : vlessClient.KeysApart (twoKeys "7" "8") := by
  have hall : ∀ e ∈ (vlessClient.flat (twoKeys "7" "8")).entries, atoi e.1 ≠ none ∧
      ∀ e' ∈ (vlessClient.flat (twoKeys "7" "8")).entries, e'.1 ≠ e.1 → atoi e'.1 ≠ atoi e.1 := by
    decide +kernel
  refine apart_flat_iff.1 fun user d hl _ => ?_
  obtain ⟨hsome, hother⟩ := hall ⟨user, d⟩ ((mem_entries_iff _).2 hl)
  refine ⟨hsome, fun user' hmem' hne => ?_⟩
  obtain ⟨d', hl'⟩ := Option.isSome_iff_exists.1 (AList.lookup_isSome.2 hmem')
  exact hother ⟨user', d'⟩ ((mem_entries_iff _).2 hl') hne

theorem pushed_twoKeys :
    vlessClient.KeysApart (twoKeys "7" "8") ∧ ∀ o, (vlessClient.pushTraffic (fun _ => true) o (twoKeys "7" "8")
      (.answered 200 ())).Exact (twoKeys "7" "8") := by
  have hnn : ∀ e ∈ (twoKeys "7" "8").entries, ∀ u ∈ e.2.entries, 0 ≤ u.2 := by decide +kernel
  have hok : (vlessClient.pushTraffic (fun _ => true) (.stored _) (twoKeys "7" "8") (.answered 200 ())).err = none := by
    decide +kernel
  refine ⟨keysApart_twoKeys, fun o => ((pushed_iff (fun tag user d hd => ?_) hok).2 keysApart_twoKeys o).2⟩
  obtain ⟨users, hl, hu⟩ := Option.bind_eq_some_iff.1 hd
  exact hnn ⟨tag, users⟩ ((mem_entries_iff _).2 hl) ⟨user, d⟩ ((mem_entries_iff _).2 hu)

/-- **`7` and `007` are one user to the payload and two to the commit.** -/
theorem leading_zeros_overwritten :
    let p := vlessClient.pushTraffic (fun _ => true) (.stored _) (twoKeys "7" "007") (.answered 200 ())
    p.err = none ∧ p.payload.entries.length = 1 ∧
      total id p.payload ≠ total (total id) (commitDelta (twoKeys "7" "007") (some p.acked)) := by
  decide +kernel

end MiniSbAgent.Panelapi
