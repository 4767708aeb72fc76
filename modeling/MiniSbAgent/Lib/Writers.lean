import Mathlib

/-!
# Writers that may stop early

A writer is given a list of items and returns how many of them it took, with an error when it did not take them all.
What it does is seen through the stream its receiver has got, and through *gauges*: numbers read off the state that
are meant to follow the items taken, but may run ahead by some slack when a write fails.

* `Delivers` — a write did what its result says;
* `Delivers.append`, `Delivers.extend` — one write after another, and a write that failed on the way;
* `writeLoop`, `bufferLoop` — writing a list in chunks, with the number of items taken or without it;
* `writeLoop_delivers`, `bufferLoop_deliversAll` — the loops do what their steps do.
-/

namespace MiniSbAgent.Lib.Writers

variable {α τ ε : Type*}

/-- The state after a write, the number of items taken and the error, if there is one. -/
structure Written (τ ε : Type*) where
  state : τ
  n : ℕ
  err : Option ε

structure Gauge (τ : Type*) where
  read : τ → ℤ
  slack : ℤ

/-- **A write of `b` did what its result says.** -/
structure Delivers (received : τ → List α) (G : Set (Gauge τ)) (b : List α) (s : τ) (r : Written τ ε) : Prop where
  le : r.n ≤ b.length
  prefix_received : received r.state = received s ++ b.take r.n
  whole : r.err = none → r.n = b.length
  follows : ∀ g ∈ G, g.read s + r.n ≤ g.read r.state ∧ g.read r.state ≤ g.read s + r.n + g.slack
  exact_of_ok : r.err = none → ∀ g ∈ G, g.read r.state = g.read s + r.n

/-- All of `b` was written, and every gauge is exact. -/
structure DeliversAll (received : τ → List α) (G : Set (Gauge τ)) (b : List α) (s : τ) (r : τ × Option ε) : Prop where
  ok : r.2 = none
  all_received : received r.1 = received s ++ b
  exact_all : ∀ g ∈ G, g.read r.1 = g.read s + b.length

section Compose

variable {received : τ → List α} {G : Set (Gauge τ)} {b c : List α} {s : τ}

/-- A write that failed on the first part of a list is a write of the list that failed. -/
theorem Delivers.extend {r : Written τ ε} (h : Delivers received G b s r) (hfail : r.err ≠ none) (c : List α) :
    Delivers received G (b ++ c) s r := by
  refine ⟨?_, ?_, fun h0 => absurd h0 hfail, h.follows, h.exact_of_ok⟩
  · rw [List.length_append]
    exact h.le.trans (Nat.le_add_right _ _)
  · rw [List.take_append_of_le_length h.le]
    exact h.prefix_received

/-- A write after one that took everything. -/
theorem Delivers.append {r r' : Written τ ε} (h : Delivers received G b s r) (hok : r.err = none)
    (h' : Delivers received G c r.state r') : Delivers received G (b ++ c) s ⟨r'.state, r.n + r'.n, r'.err⟩ := by
  have hn := h.whole hok
  have hlen : (b ++ c).length = b.length + c.length := List.length_append
  have hle := h'.le
  refine ⟨by simp only; omega, ?_, fun h0 => ?_, fun g hg => ?_, fun h0 g hg => ?_⟩
  · show received r'.state = _
    rw [h'.prefix_received, h.prefix_received, hn, List.take_length, List.take_length_add_append,
      List.append_assoc]
  · have := h'.whole h0
    simp only
    omega
  · have h1 := h.exact_of_ok hok g hg
    have h2 := h'.follows g hg
    push_cast
    omega
  · have h1 := h.exact_of_ok hok g hg
    have h2 := h'.exact_of_ok h0 g hg
    push_cast
    omega

/-- Nothing is written of nothing. -/
theorem Delivers.nil (received : τ → List α) (G : Set (Gauge τ)) (hG : ∀ g ∈ G, 0 ≤ g.slack) (s : τ) :
    Delivers received G [] s (⟨s, 0, none⟩ : Written τ ε) := by
  refine ⟨le_rfl, by simp, fun _ => rfl, fun g hg => ?_, fun _ g _ => by simp⟩
  have := hG g hg
  simp only [Nat.cast_zero]
  omega

theorem Delivers.all {r : Written τ ε} (h : Delivers received G b s r) (hok : r.err = none) :
    DeliversAll received G b s (r.state, r.err) := by
  have hn := h.whole hok
  refine ⟨hok, ?_, fun g hg => ?_⟩
  · rw [h.prefix_received, hn, List.take_length]
  · rw [h.exact_of_ok hok g hg, hn]

theorem DeliversAll.append {s' : τ} {r : τ × Option ε} (h : DeliversAll received G b s (s', (none : Option ε)))
    (h' : DeliversAll received G c s' r) : DeliversAll received G (b ++ c) s r := by
  refine ⟨h'.ok, ?_, fun g hg => ?_⟩
  · rw [h'.all_received, h.all_received, List.append_assoc]
  · have h1 := h.exact_all g hg
    have h2 := h'.exact_all g hg
    rw [List.length_append]
    push_cast
    simp only at h1
    omega

end Compose

/-! ### Writing in chunks -/

section Loops

theorem length_chunk_pos (k : ℕ) [NeZero k] {b : List α} {total : ℕ} (h : total < b.length) :
    0 < ((b.drop total).take k).length := by
  have hk := NeZero.pos k
  rw [List.length_take, List.length_drop]
  omega

/-- The rest of `b` from `total` on, in chunks of at most `k` items; a step that takes too few without an error is
stopped with `short`. -/
def writeLoop (k : ℕ) [NeZero k] (short : ε) (step : List α → τ → Written τ ε) (b : List α) (total : ℕ) (s : τ) :
    Written τ ε :=
  if total < b.length then
    let chunk := (b.drop total).take k
    let r := step chunk s
    match r.err with
    | some e => ⟨r.state, total + r.n, some e⟩
    | none =>
      if r.n ≠ chunk.length then ⟨r.state, total + r.n, some short⟩
      else writeLoop k short step b (total + r.n) r.state
  else ⟨s, total, none⟩
termination_by b.length - total
decreasing_by
  rename_i h hn
  have hpos := length_chunk_pos k h
  have hn' : (step ((b.drop total).take k) s).n = ((b.drop total).take k).length := not_not.1 hn
  omega

/-- The same for a buffer: its last chunk goes to `last`. -/
def bufferLoop (k : ℕ) [NeZero k] (step : List α → τ → Written τ ε) (last : List α → τ → τ × Option ε) (b : List α)
    (s : τ) : τ × Option ε :=
  if k < b.length then
    let r := step (b.take k) s
    match r.err with
    | some e => (r.state, some e)
    | none => bufferLoop k step last (b.drop k) r.state
  else if 0 < b.length then last b s
  else (s, none)
termination_by b.length
decreasing_by
  have hk := NeZero.pos k
  rw [List.length_drop]
  omega

variable {k : ℕ} [NeZero k] {short : ε} {step : List α → τ → Written τ ε} {last : List α → τ → τ × Option ε}
  {received : τ → List α} {G : Set (Gauge τ)}

/-- What the loop does from `total` on, given what a step does to a chunk. -/
theorem writeLoop_from (short : ε) (hG : ∀ g ∈ G, 0 ≤ g.slack)
    (hstep : ∀ b s, 0 < b.length → b.length ≤ k → Delivers received G b s (step b s)) (b : List α) (total : ℕ) (s : τ)
    (htotal : total ≤ b.length) :
    ∃ r, Delivers received G (b.drop total) s r ∧
      writeLoop k short step b total s = ⟨r.state, total + r.n, r.err⟩ := by
  induction hm : b.length - total using Nat.strong_induction_on generalizing total s with
  | _ m ih =>
    rw [writeLoop]
    by_cases h : total < b.length
    · have hpos := length_chunk_pos k h
      have hchunk : (b.drop total).take k ++ b.drop (total + k) = b.drop total := by
        rw [← List.drop_drop, List.take_append_drop]
      have hd := hstep ((b.drop total).take k) s hpos (by rw [List.length_take]; omega)
      simp only [h, if_true]
      rcases he : (step ((b.drop total).take k) s).err with _ | e
      · have hn := hd.whole he
        have hlen : ((b.drop total).take k).length = min k (b.length - total) := by
          rw [List.length_take, List.length_drop]
        simp only [hn, ne_eq, not_true, if_false]
        obtain ⟨r, hr, heq⟩ := ih (b.length - (total + ((b.drop total).take k).length)) (by omega)
          (total + ((b.drop total).take k).length) (step ((b.drop total).take k) s).state (by omega) rfl
        refine ⟨⟨r.state, ((b.drop total).take k).length + r.n, r.err⟩, ?_, ?_⟩
        · have hrest : (b.drop total).take k ++ b.drop (total + ((b.drop total).take k).length) = b.drop total := by
            rw [hlen]
            rcases le_total k (b.length - total) with hle | hle
            · rw [min_eq_left hle, hchunk]
            · rw [min_eq_right hle, Nat.add_sub_cancel' htotal, List.drop_length, List.append_nil,
                List.take_of_length_le (by rw [List.length_drop]; exact hle)]
          have happ := hd.append he hr
          rw [hrest, hn] at happ
          exact happ
        · rw [heq, Nat.add_assoc]
      · refine ⟨step ((b.drop total).take k) s, ?_, by rw [he]⟩
        have := hd.extend (by rw [he]; exact Option.some_ne_none e) (b.drop (total + k))
        rwa [hchunk] at this
    · have hend : total = b.length := by omega
      rw [if_neg h]
      refine ⟨⟨s, 0, none⟩, ?_, rfl⟩
      rw [hend, List.drop_length]
      exact Delivers.nil received G hG s

/-- **The loop.**  When each chunk is delivered as its result says, so is the list. -/
theorem writeLoop_delivers (hG : ∀ g ∈ G, 0 ≤ g.slack)
    (hstep : ∀ b s, 0 < b.length → b.length ≤ k → Delivers received G b s (step b s)) (b : List α) (s : τ) :
    Delivers received G b s (writeLoop k short step b 0 s) := by
  obtain ⟨r, hr, heq⟩ := writeLoop_from short hG hstep b 0 s (Nat.zero_le _)
  rw [heq, Nat.zero_add]
  exact hr

/-- What the steps leave alone, the loop leaves alone. -/
theorem writeLoop_keeps {β : Type*} {f : τ → β} (hstep : ∀ b s, f (step b s).state = f s) (b : List α) (total : ℕ)
    (s : τ) : f (writeLoop k short step b total s).state = f s := by
  fun_induction writeLoop k short step b total s with
  | case1 total s h chunk r e he => exact hstep chunk s
  | case2 total s h chunk r he hn => exact hstep chunk s
  | case3 total s h chunk r he hn ih => exact ih.trans (hstep chunk s)
  | case4 total s h => rfl

theorem bufferLoop_keeps {β : Type*} {f : τ → β} (hstep : ∀ b s, f (step b s).state = f s)
    (hlast : ∀ b s, f (last b s).1 = f s) (b : List α) (s : τ) : f (bufferLoop k step last b s).1 = f s := by
  fun_induction bufferLoop k step last b s with
  | case1 b s h r e he => exact hstep _ s
  | case2 b s h r he ih => exact ih.trans (hstep _ s)
  | case3 b s h h0 => exact hlast b s
  | case4 b s h h0 => rfl

/-- Steps that never fail make a loop that never fails. -/
theorem writeLoop_ok (hstep : ∀ b s, (step b s).err = none ∧ (step b s).n = b.length) (b : List α) (total : ℕ) (s : τ) :
    (writeLoop k short step b total s).err = none := by
  fun_induction writeLoop k short step b total s with
  | case1 total s h chunk r e he => exact absurd ((hstep chunk s).1.symm.trans he) (Option.some_ne_none e).symm
  | case2 total s h chunk r he hn => exact absurd (hstep chunk s).2 hn
  | case3 total s h chunk r he hn ih => exact ih
  | case4 total s h => rfl

/-- **The buffer loop.**  When no step fails, all of the buffer is delivered. -/
theorem bufferLoop_deliversAll
    (hstep : ∀ b s, 0 < b.length → b.length ≤ k →
      (step b s).err = none ∧ DeliversAll received G b s ((step b s).state, (step b s).err))
    (hlast : ∀ b s, 0 < b.length → b.length ≤ k → DeliversAll received G b s (last b s)) {b : List α} (s : τ)
    (hb : 0 < b.length) : DeliversAll received G b s (bufferLoop k step last b s) := by
  have hk := NeZero.pos k
  fun_induction bufferLoop k step last b s with
  | case1 b s h r e he =>
    obtain ⟨hok, -⟩ := hstep (b.take k) s (by rw [List.length_take]; omega) (by rw [List.length_take]; omega)
    exact absurd (hok.symm.trans he) (Option.some_ne_none e).symm
  | case2 b s h r he ih =>
    obtain ⟨hok, hd⟩ := hstep (b.take k) s (by rw [List.length_take]; omega) (by rw [List.length_take]; omega)
    rw [hok] at hd
    have happ := hd.append (ih (by rw [List.length_drop]; omega))
    rwa [List.take_append_drop] at happ
  | case3 b s h h0 => exact hlast b s h0 (not_lt.1 h)
  | case4 b s h h0 => exact absurd hb h0

end Loops

end MiniSbAgent.Lib.Writers
