import Mathlib

/-!
# Rosters kept by removing and adding

A roster gives some members a key.  A table that lists the keys of a roster is brought up to date without being
rebuilt: first the keys of the members that go are struck out, then the keys of the members that come are appended.

* `Removes T T' names` — `T'` is `T` without some members, whose keys are `names`;
* `Adds T T' pairs` — `T'` is `T` with the members of `pairs`;
* `Lists l T` — the list holds every key of the roster once; `Lists.remove` and `Lists.add` keep it so, provided that
  no two members of a roster share a key.
-/

namespace MiniSbAgent.Lib.Roster

variable {ι κ : Type} {T T' : ι → Option κ} {names : List κ} {pairs : List (κ × ι)}

/-- No two members share a key. -/
def Distinct (T : ι → Option κ) : Prop := ∀ i j x, T i = some x → T j = some x → i = j

structure Removes (T T' : ι → Option κ) (names : List κ) : Prop where
  sub : ∀ i x, T' i = some x → T i = some x
  /-- a member whose key is not struck out stays -/
  rest : ∀ i x, T i = some x → x ∉ names → T' i = some x
  /-- what is struck out is the key of a member that goes -/
  gone : ∀ x ∈ names, ∃ i, T i = some x ∧ T' i = none

structure Adds (T T' : ι → Option κ) (pairs : List (κ × ι)) : Prop where
  sub : ∀ i x, T i = some x → T' i = some x
  /-- what is appended belongs to a member that was not there -/
  new : ∀ x i, (x, i) ∈ pairs → T' i = some x ∧ T i = none
  all : ∀ i x, T' i = some x → T i = some x ∨ (x, i) ∈ pairs
  nodup : pairs.Nodup

/-- The list holds every key of the roster, once. -/
structure Lists (l : List κ) (T : ι → Option κ) : Prop where
  nodup : l.Nodup
  mem_iff : ∀ x, x ∈ l ↔ ∃ i, T i = some x

/-- The key of a member that stays is not struck out. -/
theorem Removes.kept (h : Removes T T' names) (hd : Distinct T) {i : ι} {x : κ} (hi : T' i = some x) :
    x ∉ names := by
  intro hx
  obtain ⟨j, hj, hj'⟩ := h.gone x hx
  obtain rfl := hd j i x hj (h.sub i x hi)
  rw [hj'] at hi
  cases hi

theorem Lists.remove [DecidableEq κ] {l : List κ} (hl : Lists l T) (h : Removes T T' names) (hd : Distinct T) :
    Lists (l.filter fun x => x ∉ names) T' := by
  refine ⟨hl.nodup.filter _, fun x => ?_⟩
  rw [List.mem_filter, hl.mem_iff, decide_eq_true_eq]
  constructor
  · rintro ⟨⟨i, hi⟩, hx⟩
    exact ⟨i, h.rest i x hi hx⟩
  · rintro ⟨i, hi⟩
    exact ⟨⟨i, h.sub i x hi⟩, h.kept hd hi⟩

/-- The appended keys do not repeat. -/
theorem Adds.nodup_keys (h : Adds T T' pairs) (hd : Distinct T') : (pairs.map Prod.fst).Nodup := by
  refine h.nodup.map_on fun p hp q hq heq => ?_
  obtain ⟨x, i⟩ := p
  obtain ⟨y, j⟩ := q
  obtain rfl : x = y := heq
  obtain rfl := hd i j x (h.new x i hp).1 (h.new x j hq).1
  rfl

theorem Lists.add {l : List κ} (hl : Lists l T) (h : Adds T T' pairs) (hd : Distinct T') :
    Lists (l ++ pairs.map Prod.fst) T' := by
  refine ⟨List.nodup_append.2 ⟨hl.nodup, h.nodup_keys hd, ?_⟩, fun x => ?_⟩
  · -- a key of an old member is not the key of a new one
    rintro x hx _ hy rfl
    obtain ⟨i, hi⟩ := (hl.mem_iff x).1 hx
    obtain ⟨⟨x', j⟩, hp, rfl⟩ := List.mem_map.1 hy
    obtain ⟨hj, hnone⟩ := h.new x' j hp
    obtain rfl := hd i j x' (h.sub i x' hi) hj
    rw [hnone] at hi
    cases hi
  · rw [List.mem_append, hl.mem_iff]
    constructor
    · rintro (⟨i, hi⟩ | hx)
      · exact ⟨i, h.sub i x hi⟩
      · obtain ⟨⟨x', i⟩, hp, rfl⟩ := List.mem_map.1 hx
        exact ⟨i, (h.new x' i hp).1⟩
    · rintro ⟨i, hi⟩
      rcases h.all i x hi with hold | hnew
      · exact Or.inl ⟨i, hold⟩
      · exact Or.inr (List.mem_map.2 ⟨(x, i), hnew, rfl⟩)

end MiniSbAgent.Lib.Roster
