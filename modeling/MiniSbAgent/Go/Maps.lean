import Mathlib

/-!
# Go maps and the `range` loop

A Go map is an association list without repeated keys (`AList`).  The list order of the entries is *not* part of
the value of a map, and `range` visits the entries in an order the language leaves open:

* `RangeOrder α` — one such order, an arbitrary rearrangement of the list of entries;
* `writes m ws` — the map after the assignments `m[k] = v` of `ws`, in that order: what a loop that fills a map does;
* `lookup_writes_*` — an entry of the filled map is the last write to its key, so the order of the writes is
  invisible as soon as the writes to each key agree;
* `collect f m` — the loop that copies a map entry by entry, keeping what `f` gives;
* `tally m ws` — the loop that adds each amount of `ws` to the entry of its key;
* `lookup₂`, `insert₂` — maps of maps, with `m[k][l]` read as the zero value when either key is missing.
-/

namespace MiniSbAgent.Go

/-- `map[K]V`. -/
abbrev GoMap (K V : Type) := AList fun _ : K => V

/-- An order in which `range` visits the entries of a map. -/
structure RangeOrder (α : Type) where
  visit : List α → List α
  perm : ∀ l, (visit l).Perm l

namespace RangeOrder

/-- The stored order. -/
def stored (α : Type) : RangeOrder α := ⟨id, fun l => List.Perm.refl l⟩

/-- The stored order, but for the entries of `p`, which come last. -/
def last {α : Type} (p : α → Bool) : RangeOrder α :=
  ⟨fun l => l.filter (fun x => !p x) ++ l.filter p,
    fun l => List.perm_append_comm.trans (List.filter_append_perm p l)⟩

instance (α : Type) : Inhabited (RangeOrder α) := ⟨stored α⟩

theorem mem_visit {α : Type} (o : RangeOrder α) {l : List α} {x : α} : x ∈ o.visit l ↔ x ∈ l :=
  (o.perm l).mem_iff

end RangeOrder

section Maps

variable {K V W : Type} [DecidableEq K]

/-- `range` over a map meets exactly the pairs that a lookup finds. -/
theorem mem_range_iff (o : RangeOrder ((_ : K) × V)) (m : GoMap K V) {k : K} {v : V} :
    (⟨k, v⟩ : (_ : K) × V) ∈ o.visit m.entries ↔ m.lookup k = some v := by
  rw [o.mem_visit, ← AList.mem_lookup_iff, Option.mem_def]

omit [DecidableEq K] in
/-- A loop visits every key once. -/
theorem nodup_range_keys (o : RangeOrder ((_ : K) × V)) (m : GoMap K V) : ((o.visit m.entries).map Sigma.fst).Nodup :=
  ((o.perm _).map Sigma.fst).nodup_iff.2 m.nodupKeys

theorem mem_range_keys (o : RangeOrder ((_ : K) × V)) {m : GoMap K V} {k : K} {v : V} (h : m.lookup k = some v) :
    k ∈ (o.visit m.entries).map Sigma.fst :=
  List.mem_map.2 ⟨⟨k, v⟩, (mem_range_iff o m).2 h, rfl⟩

theorem mem_entries_iff (m : GoMap K V) {k : K} {v : V} :
    (⟨k, v⟩ : (_ : K) × V) ∈ m.entries ↔ m.lookup k = some v := by
  rw [← AList.mem_lookup_iff, Option.mem_def]

/-- A loop meets a key that is there exactly once. -/
theorem filter_range (o : RangeOrder ((_ : K) × V)) (m : GoMap K V) (k : K) :
    (o.visit m.entries).filter (fun e => e.1 == k) = (m.lookup k).toList.map fun v => ⟨k, v⟩ := by
  have hnodup : ((o.visit m.entries).filter fun e => e.1 == k).Nodup := (nodup_range_keys o m).of_map.filter _
  rcases hl : m.lookup k with _ | v
  · rw [Option.toList_none, List.map_nil, List.filter_eq_nil_iff]
    rintro ⟨k', v⟩ hmem hk
    obtain rfl : k' = k := by simpa using hk
    rw [mem_range_iff, hl] at hmem
    cases hmem
  · have hall : ∀ e ∈ (o.visit m.entries).filter fun e => e.1 == k, e = ⟨k, v⟩ := by
      rintro ⟨k', v'⟩ he
      obtain ⟨hmem, hk⟩ := List.mem_filter.1 he
      obtain rfl : k' = k := by simpa using hk
      rw [mem_range_iff, hl] at hmem
      cases hmem
      rfl
    have hmem : (⟨k, v⟩ : (_ : K) × V) ∈ (o.visit m.entries).filter fun e => e.1 == k :=
      List.mem_filter.2 ⟨(mem_range_iff o m).2 hl, by simp⟩
    have hrep := List.eq_replicate_of_mem hall
    rw [hrep] at hnodup
    have hle := List.nodup_replicate.1 hnodup
    have hpos := List.length_pos_of_mem hmem
    rw [hrep, show ((o.visit m.entries).filter fun e => e.1 == k).length = 1 by omega]
    rfl

theorem lookup_insert_of (m : GoMap K V) (k k' : K) (v : V) :
    (m.insert k' v).lookup k = if k = k' then some v else m.lookup k := by
  by_cases h : k = k'
  · subst h; simp
  · rw [AList.lookup_insert_ne h, if_neg h]

theorem lookup_erase_of (m : GoMap K V) (k k' : K) :
    (m.erase k').lookup k = if k = k' then none else m.lookup k := by
  by_cases h : k = k'
  · subst h; simp
  · rw [AList.lookup_erase_ne h, if_neg h]

/-! ### Filling a map -/

/-- The map after the assignments of `ws`, in order. -/
def writes (m : GoMap K V) (ws : List (K × V)) : GoMap K V :=
  ws.foldl (fun m w => m.insert w.1 w.2) m

@[simp] theorem writes_nil (m : GoMap K V) : writes m [] = m := rfl

@[simp] theorem writes_cons (m : GoMap K V) (w : K × V) (ws : List (K × V)) :
    writes m (w :: ws) = writes (m.insert w.1 w.2) ws := rfl

theorem lookup_writes_of_not_mem {m : GoMap K V} {ws : List (K × V)} {k : K} (h : k ∉ ws.map Prod.fst) :
    (writes m ws).lookup k = m.lookup k := by
  induction ws generalizing m with
  | nil => rfl
  | cons w ws ih =>
    simp only [List.map_cons, List.mem_cons, not_or] at h
    rw [writes_cons, ih h.2, AList.lookup_insert_ne h.1]

/-- An entry of a filled map was there before or was written. -/
theorem mem_or_of_lookup_writes {m : GoMap K V} {ws : List (K × V)} {k : K} {v : V}
    (h : (writes m ws).lookup k = some v) : m.lookup k = some v ∨ (k, v) ∈ ws := by
  induction ws generalizing m with
  | nil => exact Or.inl h
  | cons w ws ih =>
    rcases ih h with h | h
    · rw [lookup_insert_of] at h
      split at h
      · rename_i hk
        right
        obtain ⟨k', v'⟩ := w
        cases h
        cases hk
        exact List.mem_cons_self
      · exact Or.inl h
    · exact Or.inr (List.mem_cons_of_mem _ h)

/-- A key that is written is present afterwards. -/
theorem exists_lookup_writes {m : GoMap K V} {ws : List (K × V)} {k : K} {v : V} (h : (k, v) ∈ ws) :
    ∃ v', (writes m ws).lookup k = some v' ∧ (k, v') ∈ ws := by
  induction ws generalizing m v with
  | nil => simp at h
  | cons w ws ih =>
    by_cases hk : k ∈ ws.map Prod.fst
    · obtain ⟨⟨k', v'⟩, hmem, rfl⟩ := List.mem_map.1 hk
      obtain ⟨v'', h1, h2⟩ := ih (m := m.insert w.1 w.2) hmem
      exact ⟨v'', h1, List.mem_cons_of_mem _ h2⟩
    · have hw : (k, v) = w := by
        rcases List.mem_cons.1 h with h | h
        · exact h
        · exact absurd (List.mem_map_of_mem (f := Prod.fst) h) hk
      subst hw
      exact ⟨v, by rw [writes_cons, lookup_writes_of_not_mem hk, AList.lookup_insert], List.mem_cons_self⟩

/-- A key that was present stays present. -/
theorem mem_writes_of_mem {m : GoMap K V} {ws : List (K × V)} {k : K} (h : k ∈ m) : k ∈ writes m ws := by
  induction ws generalizing m with
  | nil => exact h
  | cons w ws ih => exact ih ((AList.mem_insert m).2 (Or.inr h))

/-- When the writes to `k` agree, their order does not matter. -/
theorem lookup_writes_of_unique {m : GoMap K V} {ws : List (K × V)} {k : K} {v : V} (h : (k, v) ∈ ws)
    (hu : ∀ v', (k, v') ∈ ws → v' = v) : (writes m ws).lookup k = some v := by
  obtain ⟨v', h1, h2⟩ := exists_lookup_writes (m := m) h
  rw [h1, hu v' h2]

/-- The entries of a map filled from nothing, when the writes to each key agree. -/
theorem lookup_writes_iff {ws : List (K × V)} {k : K} {v : V}
    (hu : ∀ v', (k, v') ∈ ws → ∀ v'', (k, v'') ∈ ws → v' = v'') :
    (writes ∅ ws).lookup k = some v ↔ (k, v) ∈ ws := by
  constructor
  · intro h
    rcases mem_or_of_lookup_writes h with h | h
    · simp at h
    · exact h
  · intro h
    exact lookup_writes_of_unique h fun v' h' => hu v' h' v h

/-- In a loop that comes to the entries of `p` last, what they write stays. -/
theorem lookup_writes_last {α : Type} (p : α → Bool) {l : List α} (ws : α → List (K × V)) {m : GoMap K V} {k : K}
    {v : V} {x : α} (hx : x ∈ l) (hp : p x = true) (hv : (k, v) ∈ ws x)
    (hu : ∀ y ∈ l, p y = true → ∀ v', (k, v') ∈ ws y → v' = v) :
    (writes m (((RangeOrder.last p).visit l).flatMap ws)).lookup k = some v := by
  have hsplit : writes m (((RangeOrder.last p).visit l).flatMap ws) =
      writes (writes m ((l.filter fun x => !p x).flatMap ws)) ((l.filter p).flatMap ws) := by
    show writes m ((l.filter (fun x => !p x) ++ l.filter p).flatMap ws) = _
    unfold writes
    rw [List.flatMap_append, List.foldl_append]
  rw [hsplit]
  refine lookup_writes_of_unique (List.mem_flatMap.2 ⟨x, List.mem_filter.2 ⟨hx, hp⟩, hv⟩) fun v' hv' => ?_
  obtain ⟨y, hy, hv'⟩ := List.mem_flatMap.1 hv'
  obtain ⟨hy, hpy⟩ := List.mem_filter.1 hy
  exact hu y hy hpy v' hv'

/-! ### Copying a map -/

/-- The loop `for k, v := range m { if .. { out[k] = .. } }`. -/
def collect (f : K → V → Option W) (m : GoMap K V) : GoMap K W :=
  writes ∅ (m.entries.filterMap fun e => (f e.1 e.2).map fun w => (e.1, w))

theorem lookup_collect (f : K → V → Option W) (m : GoMap K V) (k : K) :
    (collect f m).lookup k = (m.lookup k).bind (f k) := by
  have hmem : ∀ w, (k, w) ∈ m.entries.filterMap (fun e => (f e.1 e.2).map fun w => (e.1, w)) ↔
      (m.lookup k).bind (f k) = some w := by
    intro w
    simp only [List.mem_filterMap, Option.map_eq_some_iff, Option.bind_eq_some_iff, Prod.mk.injEq]
    constructor
    · rintro ⟨⟨k', v⟩, he, w', hf, rfl, rfl⟩
      exact ⟨v, (mem_entries_iff m).1 he, hf⟩
    · rintro ⟨v, hv, hf⟩
      exact ⟨⟨k, v⟩, (mem_entries_iff m).2 hv, w, hf, rfl, rfl⟩
  have hiff : ∀ w, (collect f m).lookup k = some w ↔ (m.lookup k).bind (f k) = some w := by
    intro w
    unfold collect
    rw [lookup_writes_iff, hmem]
    intro v' h' v'' h''
    rw [hmem] at h' h''
    simpa [h'] using h''
  exact Option.ext hiff

theorem mem_collect (f : K → V → Option W) (m : GoMap K V) (k : K) :
    k ∈ collect f m ↔ ∃ v w, m.lookup k = some v ∧ f k v = some w := by
  rw [← AList.lookup_isSome, lookup_collect, Option.isSome_iff_exists]
  simp only [Option.bind_eq_some_iff]
  constructor
  · rintro ⟨w, v, h1, h2⟩; exact ⟨v, w, h1, h2⟩
  · rintro ⟨v, w, h1, h2⟩; exact ⟨w, v, h1, h2⟩

/-- `len(m) == 0`. -/
def isEmpty (m : GoMap K V) : Bool := m.entries.isEmpty

theorem isEmpty_iff (m : GoMap K V) : isEmpty m = true ↔ ∀ k, m.lookup k = none := by
  unfold isEmpty
  rw [List.isEmpty_iff]
  constructor
  · intro h k
    rw [AList.lookup_eq_none, AList.mem_keys, AList.keys, h]
    simp
  · intro h
    rw [List.eq_nil_iff_forall_not_mem]
    rintro ⟨k, v⟩ hkv
    rw [mem_entries_iff, h k] at hkv
    simp at hkv

/-! ### Sums over a map -/

section Sums

variable {M : Type} [AddCommMonoid M]

/-- Only one entry has the key `k`. -/
theorem sum_entries (m : GoMap K V) (k : K) (f : V → M) :
    (m.entries.map fun e => if e.1 = k then f e.2 else 0).sum = ((m.lookup k).map f).getD 0 := by
  obtain ⟨l, hl⟩ := m
  show (l.map fun e => if e.1 = k then f e.2 else 0).sum = ((l.dlookup k).map f).getD 0
  induction l with
  | nil => rfl
  | cons e l ih =>
    obtain ⟨k', v⟩ := e
    obtain ⟨hnot, hl⟩ := List.nodupKeys_cons.1 hl
    rw [List.map_cons, List.sum_cons, ih hl]
    by_cases h : k' = k
    · subst h
      rw [List.dlookup_eq_none.2 hnot, List.dlookup_cons_eq]
      simp
    · rw [List.dlookup_cons_ne _ _ (Ne.symm h)]
      simp [h]

/-- The map after `m[k] += v` for each pair of `ws`, in order. -/
def tally (m : GoMap K M) (ws : List (K × M)) : GoMap K M :=
  ws.foldl (fun m w => m.insert w.1 ((m.lookup w.1).getD 0 + w.2)) m

theorem getD_lookup_tally (m : GoMap K M) (ws : List (K × M)) (k : K) :
    ((tally m ws).lookup k).getD 0 =
      (m.lookup k).getD 0 + (ws.map fun w => if w.1 = k then w.2 else 0).sum := by
  induction ws generalizing m with
  | nil => simp [tally]
  | cons w ws ih =>
    show ((tally (m.insert w.1 _) ws).lookup k).getD 0 = _
    rw [ih, lookup_insert_of, List.map_cons, List.sum_cons]
    by_cases h : k = w.1
    · subst h
      simp [add_assoc]
    · simp [h, Ne.symm h]

theorem mem_tally (m : GoMap K M) (ws : List (K × M)) (k : K) :
    k ∈ tally m ws ↔ k ∈ m ∨ k ∈ ws.map Prod.fst := by
  induction ws generalizing m with
  | nil => simp [tally]
  | cons w ws ih =>
    show k ∈ tally (m.insert w.1 _) ws ↔ _
    rw [ih, AList.mem_insert, List.map_cons, List.mem_cons]
    tauto

end Sums

/-! ### Maps of maps -/

section Nested

variable {L : Type} [DecidableEq L]

def lookup₂ (m : GoMap K (GoMap L V)) (k : K) (l : L) : Option V := (m.lookup k).bind (·.lookup l)

/-- `m[k][l] = v`, where a missing inner map is made first. -/
def insert₂ (m : GoMap K (GoMap L V)) (k : K) (l : L) (v : V) : GoMap K (GoMap L V) :=
  m.insert k (((m.lookup k).getD ∅).insert l v)

theorem lookup₂_insert₂ (m : GoMap K (GoMap L V)) (k k' : K) (l l' : L) (v : V) :
    lookup₂ (insert₂ m k' l' v) k l = if k = k' ∧ l = l' then some v else lookup₂ m k l := by
  unfold lookup₂ insert₂
  rw [lookup_insert_of]
  by_cases hk : k = k'
  · subst hk
    rw [if_pos rfl, Option.bind_some, lookup_insert_of]
    by_cases hl : l = l'
    · simp [hl]
    · cases m.lookup k <;> simp [hl]
  · simp [hk]

/-- The loop over a map of maps that keeps the inner entries `f` accepts, and no empty inner map. -/
def collect₂ (f : K → L → V → Option W) (m : GoMap K (GoMap L V)) : GoMap K (GoMap L W) :=
  collect (fun k inner => if isEmpty (collect (f k) inner) then none else some (collect (f k) inner)) m

theorem lookup₂_collect₂ (f : K → L → V → Option W) (m : GoMap K (GoMap L V)) (k : K) (l : L) :
    lookup₂ (collect₂ f m) k l = (lookup₂ m k l).bind (f k l) := by
  unfold lookup₂ collect₂
  rw [lookup_collect]
  rcases m.lookup k with _ | inner
  · rfl
  · simp only [Option.bind_some]
    split
    · rename_i h
      have hl := (isEmpty_iff _).1 h l
      rw [lookup_collect] at hl
      simp [hl]
    · simp [lookup_collect]

/-- The loop over a map of maps that deletes the inner entries `f` refuses; the inner maps stay. -/
def prune₂ (f : K → L → V → Bool) (m : GoMap K (GoMap L V)) : GoMap K (GoMap L V) :=
  collect (fun k inner => some (collect (fun l v => if f k l v then some v else none) inner)) m

theorem lookup₂_prune₂ (f : K → L → V → Bool) (m : GoMap K (GoMap L V)) (k : K) (l : L) :
    lookup₂ (prune₂ f m) k l = (lookup₂ m k l).bind fun v => if f k l v then some v else none := by
  unfold lookup₂ prune₂
  rw [lookup_collect]
  rcases m.lookup k with _ | inner
  · rfl
  · simp [lookup_collect]

theorem lookup₂_of_prune₂ {f : K → L → V → Bool} {m : GoMap K (GoMap L V)} {k : K} {l : L} {v : V}
    (h : lookup₂ (prune₂ f m) k l = some v) : lookup₂ m k l = some v ∧ f k l v = true := by
  rw [lookup₂_prune₂, Option.bind_eq_some_iff] at h
  obtain ⟨v', hv, h⟩ := h
  split at h
  · rename_i hf
    cases h
    exact ⟨hv, hf⟩
  · cases h

/-- The sum of one inner key over one outer key is the entry itself. -/
theorem sum_entries₂ {M : Type} [AddCommMonoid M] (m : GoMap K (GoMap L M)) (k : K) (l : L) :
    (m.entries.map fun e => if e.1 = k then (e.2.entries.map fun e' => if e'.1 = l then e'.2 else 0).sum
      else 0).sum = (lookup₂ m k l).getD 0 := by
  rw [sum_entries m k fun inner => (inner.entries.map fun e' => if e'.1 = l then e'.2 else 0).sum]
  unfold lookup₂
  rcases m.lookup k with _ | inner
  · rfl
  · simpa using sum_entries inner l id

end Nested

end Maps

end MiniSbAgent.Go
