import Mathlib

/-!
# Programs that share an object

An object offers calls, and each call runs alone, under the lock of the object.  A program makes calls and goes on with
what they return.  A pool runs any number of programs, one call of one program at a time, in whatever order; `ε` is what
a call takes from outside, such as the clock.

* `Prog` — a program: it is done, or it makes a call and goes on with the result;
* `run` — arrivals and turns as a schedule has them, with a log of the calls;
* `logged_run` — the object is what the logged calls made of it, and each of them returned what it did then;
* `explained_run` — what the log has of one program is what this program makes of the results;
* `Prog.Spec`, `spec_run` — what holds of the calls and the answer of a program alone holds of it in every run;
* `Prog.Under`, `under_run` — the same when the program relies on something about the results of its calls;
* `Prog.Rel`, `answers_eq` — programs that cannot be told apart by their answers, when their calls are related.
-/

namespace MiniSbAgent.Lib

/-- A program over the calls `κ`, whose results are in `ρ`, that ends with an answer. -/
inductive Prog (κ : Type) (ρ : κ → Type) (α : Type)
  | done (a : α)
  | call (c : κ) (next : ρ c → Prog κ ρ α)

/-- A call that was made: by which program, with what from outside, and what it returned. -/
structure Entry (ε κ : Type) (ρ : κ → Type) where
  thread : ℕ
  env : ε
  call : κ
  result : ρ call

structure Pool (σ ε κ : Type) (ρ : κ → Type) (α : Type) where
  state : σ
  progs : List (Prog κ ρ α)
  log : List (Entry ε κ ρ)

inductive Turn (ε κ : Type) (ρ : κ → Type) (α : Type)
  | arrive (p : Prog κ ρ α)
  | step (i : ℕ) (e : ε)

section Runs

variable {σ ε κ α : Type} {ρ : κ → Type} (exec : ε → σ → (c : κ) → σ × ρ c)

/-- One turn of a pool; a turn of a program that is not there, or done, does nothing. -/
def Pool.turn (P : Pool σ ε κ ρ α) : Turn ε κ ρ α → Pool σ ε κ ρ α
  | .arrive p => { P with progs := P.progs ++ [p] }
  | .step i e =>
    match P.progs[i]? with
    | some (.call c next) =>
      let r := exec e P.state c
      ⟨r.1, P.progs.set i (next r.2), P.log ++ [⟨i, e, c, r.2⟩]⟩
    | _ => P

/-- A pool that has no program yet. -/
def Pool.new (s : σ) : Pool σ ε κ ρ α := ⟨s, [], []⟩

def run (s : σ) (ts : List (Turn ε κ ρ α)) : Pool σ ε κ ρ α := ts.foldl (Pool.turn exec) (.new s)

/-- The programs in the order of their arrival. -/
def arrivals (ts : List (Turn ε κ ρ α)) : List (Prog κ ρ α) :=
  ts.filterMap fun
    | .arrive p => some p
    | .step _ _ => none

/-- The object after the calls of a log. -/
def replay (s : σ) (log : List (Entry ε κ ρ)) : σ := log.foldl (fun s x => (exec x.env s x.call).1) s

/-- Each call of the log returned what it returns after the calls before it. -/
def Logged (s : σ) (log : List (Entry ε κ ρ)) : Prop :=
  ∀ before x after, log = before ++ x :: after → x.result = (exec x.env (replay exec s before) x.call).2

/-- A program that has the object for itself. -/
def Prog.alone (e : ε) : Prog κ ρ α → σ → σ × α
  | .done a, s => (s, a)
  | .call c next, s => (next (exec e s c).2).alone e (exec e s c).1

/-- The answers, of those programs that are done. -/
def Prog.answer : Prog κ ρ α → Option α
  | .done a => some a
  | .call _ _ => none

theorem Prog.answer_eq_some {p : Prog κ ρ α} {a : α} : p.answer = some a ↔ p = .done a := by
  cases p <;> simp [Prog.answer]

/-- What a turn can do. -/
theorem Pool.turn_cases (P : Pool σ ε κ ρ α) (t : Turn ε κ ρ α) :
    (∃ p, t = .arrive p ∧ P.turn exec t = { P with progs := P.progs ++ [p] }) ∨
      (∃ i e, t = .step i e ∧ P.turn exec t = P) ∨
      ∃ i e c next, t = .step i e ∧ P.progs[i]? = some (.call c next) ∧
        P.turn exec t = ⟨(exec e P.state c).1, P.progs.set i (next (exec e P.state c).2),
          P.log ++ [⟨i, e, c, (exec e P.state c).2⟩]⟩ := by
  cases t with
  | arrive p => exact .inl ⟨p, rfl, rfl⟩
  | step i e =>
    right
    rcases hi : P.progs[i]? with _ | (a | ⟨c, next⟩)
    · exact .inl ⟨i, e, rfl, by simp only [turn, hi]⟩
    · exact .inl ⟨i, e, rfl, by simp only [turn, hi]⟩
    · exact .inr ⟨i, e, c, next, rfl, hi, by simp only [turn, hi]⟩

theorem run_concat (s : σ) (ts : List (Turn ε κ ρ α)) (t : Turn ε κ ρ α) :
    run exec s (ts ++ [t]) = (run exec s ts).turn exec t := by
  unfold run
  rw [List.foldl_append]
  rfl

theorem replay_concat (s : σ) (log : List (Entry ε κ ρ)) (x : Entry ε κ ρ) :
    replay exec s (log ++ [x]) = (exec x.env (replay exec s log) x.call).1 := by
  unfold replay
  rw [List.foldl_append]
  rfl

/-- **The log explains the object.** -/
theorem logged_run (s : σ) (ts : List (Turn ε κ ρ α)) :
    (run exec s ts).state = replay exec s (run exec s ts).log ∧ Logged exec s (run exec s ts).log := by
  induction ts using List.reverseRecOn with
  | nil =>
    refine ⟨rfl, fun before x after h => ?_⟩
    simp [run, Pool.new] at h
  | append_singleton ts t ih =>
    rw [run_concat]
    rcases (run exec s ts).turn_cases exec t with ⟨p, -, heq⟩ | ⟨i, e, -, heq⟩ | ⟨i, e, c, next, -, -, heq⟩
    · rw [heq]
      exact ih
    · rw [heq]
      exact ih
    · obtain ⟨hstate, hlog⟩ := ih
      rw [heq]
      refine ⟨by rw [replay_concat, ← hstate], fun before x after h => ?_⟩
      -- the new entry is the last one, and the others are as they were
      rcases List.eq_nil_or_concat after with rfl | ⟨after, y, rfl⟩
      · obtain ⟨hbefore, hx⟩ := List.append_inj' h rfl
        obtain rfl := (List.cons.inj hx).1
        rw [← hbefore, ← hstate]
      · rw [List.concat_eq_append, ← List.cons_append, ← List.append_assoc] at h
        exact hlog before x after (List.append_inj' h rfl).1

/-- An invariant of the calls is one of the object. -/
theorem replay_invariant {s : σ} {I : σ → Prop} (h0 : I s) (hstep : ∀ e s c, I s → I (exec e s c).1)
    (log : List (Entry ε κ ρ)) : I (replay exec s log) :=
  List.foldlRecOn (motive := I) log _ h0 fun s hs x _ => hstep x.env s x.call hs

/-- What a call takes from outside comes from a turn. -/
theorem env_run (s : σ) (ts : List (Turn ε κ ρ α)) : ∀ x ∈ (run exec s ts).log, .step x.thread x.env ∈ ts := by
  induction ts using List.reverseRecOn with
  | nil =>
    intro x hx
    simp [run, Pool.new] at hx
  | append_singleton ts t ih =>
    have hold : ∀ x ∈ (run exec s ts).log, .step x.thread x.env ∈ ts ++ [t] := fun x hx =>
      List.mem_append_left _ (ih x hx)
    rw [run_concat]
    rcases (run exec s ts).turn_cases exec t with ⟨p, -, heq⟩ | ⟨i, e, -, heq⟩ | ⟨i, e, c, next, rfl, -, heq⟩
    · rw [heq]
      exact hold
    · rw [heq]
      exact hold
    · rw [heq]
      intro x hx
      rcases List.mem_append.1 hx with hx | hx
      · exact hold x hx
      · obtain rfl := List.mem_singleton.1 hx
        exact List.mem_append_right _ (List.mem_singleton_self _)

/-- A log is explained up to each of its calls. -/
theorem Logged.left {s : σ} {log log' : List (Entry ε κ ρ)} (h : Logged exec s (log ++ log')) : Logged exec s log := by
  intro before x after heq
  refine h before x (after ++ log') ?_
  rw [heq, List.append_assoc, List.cons_append]

/-- `q` is what `p` has become after the calls of the log. -/
inductive Follows : Prog κ ρ α → List (Entry ε κ ρ) → Prog κ ρ α → Prop
  | refl (p : Prog κ ρ α) : Follows p [] p
  | call {c : κ} {next : ρ c → Prog κ ρ α} {i : ℕ} {e : ε} {r : ρ c} {log : List (Entry ε κ ρ)} {q : Prog κ ρ α} :
      Follows (next r) log q → Follows (.call c next) (⟨i, e, c, r⟩ :: log) q

theorem Follows.concat {p : Prog κ ρ α} {log : List (Entry ε κ ρ)} {c : κ} {next : ρ c → Prog κ ρ α}
    (h : Follows p log (.call c next)) (i : ℕ) (e : ε) (r : ρ c) : Follows p (log ++ [⟨i, e, c, r⟩]) (next r) := by
  generalize hq : Prog.call c next = q at h
  induction h with
  | refl p =>
    subst hq
    exact .call (.refl _)
  | call _ ih => exact .call (ih hq)

/-- The calls of one program. -/
def callsOf (i : ℕ) (log : List (Entry ε κ ρ)) : List (Entry ε κ ρ) := log.filter fun x => x.thread == i

theorem callsOf_concat (i : ℕ) (log : List (Entry ε κ ρ)) (x : Entry ε κ ρ) :
    callsOf i (log ++ [x]) = if x.thread = i then callsOf i log ++ [x] else callsOf i log := by
  unfold callsOf
  rw [List.filter_append]
  split_ifs with h
  · rw [List.filter_cons_of_pos (by simpa using h), List.filter_nil]
  · rw [List.filter_cons_of_neg (by simpa using h), List.filter_nil, List.append_nil]

theorem arrivals_concat (ts : List (Turn ε κ ρ α)) (t : Turn ε κ ρ α) :
    arrivals (ts ++ [t]) = arrivals ts ++ arrivals [t] := List.filterMap_append

/-- The programs of a pool, told from those that have arrived. -/
structure Explained (ps : List (Prog κ ρ α)) (P : Pool σ ε κ ρ α) : Prop where
  length : P.progs.length = ps.length
  thread : ∀ x ∈ P.log, x.thread < ps.length
  follows : ∀ i p q, ps[i]? = some p → P.progs[i]? = some q → Follows p (callsOf i P.log) q

theorem callsOf_eq_nil {ps : List (Prog κ ρ α)} {P : Pool σ ε κ ρ α} (h : Explained ps P) :
    callsOf ps.length P.log = [] := by
  unfold callsOf
  refine List.filter_eq_nil_iff.2 fun x hx hi => ?_
  have := h.thread x hx
  simp only [beq_iff_eq] at hi
  omega

theorem Explained.arrive {ps : List (Prog κ ρ α)} {P : Pool σ ε κ ρ α} (h : Explained ps P) (p : Prog κ ρ α) :
    Explained (ps ++ [p]) { P with progs := P.progs ++ [p] } where
  length := by simp [h.length]
  thread x hx := by
    have := h.thread x hx
    rw [List.length_append]
    omega
  follows i p' q hp hq := by
    rcases lt_trichotomy i ps.length with hi | hi | hi
    · rw [List.getElem?_append_left hi] at hp
      rw [List.getElem?_append_left (by rw [h.length]; exact hi)] at hq
      exact h.follows i p' q hp hq
    · -- the new program has made no call yet
      subst hi
      rw [List.getElem?_concat_length] at hp
      rw [← h.length, List.getElem?_concat_length] at hq
      cases hp
      cases hq
      rw [callsOf_eq_nil h]
      exact .refl _
    · rw [List.getElem?_eq_none (by rw [List.length_append, List.length_singleton]; omega)] at hp
      cases hp

theorem Explained.step {ps : List (Prog κ ρ α)} {P : Pool σ ε κ ρ α} (h : Explained ps P) {i : ℕ} {c : κ}
    {next : ρ c → Prog κ ρ α} (hi : P.progs[i]? = some (.call c next)) (e : ε) (s : σ) (r : ρ c) :
    Explained ps ⟨s, P.progs.set i (next r), P.log ++ [⟨i, e, c, r⟩]⟩ where
  length := by simp [h.length]
  thread x hx := by
    rcases List.mem_append.1 hx with hx | hx
    · exact h.thread x hx
    · rw [List.mem_singleton.1 hx]
      have hlt := (List.getElem?_eq_some_iff.1 hi).1
      rwa [h.length] at hlt
  follows j p q hp hq := by
    rw [callsOf_concat]
    by_cases hj : i = j
    · subst hj
      rw [if_pos rfl]
      have hlt := (List.getElem?_eq_some_iff.1 hi).1
      rw [List.getElem?_set_self hlt] at hq
      cases hq
      exact (h.follows i p _ hp hi).concat i e r
    · rw [if_neg hj]
      rw [List.getElem?_set_ne hj] at hq
      exact h.follows j p q hp hq

/-- **Each program for itself.** In any run, a program is what its own calls have made of it. -/
theorem explained_run (s : σ) (ts : List (Turn ε κ ρ α)) : Explained (arrivals ts) (run exec s ts) := by
  induction ts using List.reverseRecOn with
  | nil => exact ⟨rfl, fun x hx => by simp [run, Pool.new] at hx, fun i p q hp => by simp [arrivals] at hp⟩
  | append_singleton ts t ih =>
    rw [run_concat, arrivals_concat]
    rcases (run exec s ts).turn_cases exec t with ⟨p, rfl, heq⟩ | ⟨i, e, rfl, heq⟩ | ⟨i, e, c, next, rfl, hi, heq⟩
    · rw [heq]
      exact ih.arrive p
    · rw [heq, show arrivals [(.step i e : Turn ε κ ρ α)] = [] from rfl, List.append_nil]
      exact ih
    · rw [heq, show arrivals [(.step i e : Turn ε κ ρ α)] = [] from rfl, List.append_nil]
      exact ih.step hi e _ _

/-! ### What a program does -/

section Rules

variable (A : List (Entry ε κ ρ) → (c : κ) → ρ c → Prop) (J : List (Entry ε κ ρ) → κ → Prop)
  (Q : List (Entry ε κ ρ) → α → Prop)

/-- As long as its calls return what `A` has them return, given the calls before, `p` makes them as `J` has it and
answers as `Q` has it. -/
def Prog.Under : List (Entry ε κ ρ) → Prog κ ρ α → Prop
  | past, .done a => Q past a
  | past, .call c next => J past c ∧ ∀ i e r, A past c r → (next r).Under (past ++ [⟨i, e, c, r⟩])

/-- The same, whatever the calls return. -/
def Prog.Spec : List (Entry ε κ ρ) → Prog κ ρ α → Prop
  | past, .done a => Q past a
  | past, .call c next => J past c ∧ ∀ i e r, (next r).Spec (past ++ [⟨i, e, c, r⟩])

variable {A J Q}

theorem Prog.Spec.under {past : List (Entry ε κ ρ)} {p : Prog κ ρ α} (h : p.Spec J Q past) : p.Under A J Q past := by
  induction p generalizing past with
  | done a => exact h
  | call c next ih => exact ⟨h.1, fun i e r _ => ih r (h.2 i e r)⟩

theorem Prog.Under.follows {past log : List (Entry ε κ ρ)} {p q : Prog κ ρ α} (hp : p.Under A J Q past)
    (h : Follows p log q)
    (hA : ∀ before x after, log = before ++ x :: after → A (past ++ before) x.call x.result) :
    q.Under A J Q (past ++ log) ∧ ∀ before x after, log = before ++ x :: after → J (past ++ before) x.call := by
  induction h generalizing past with
  | refl p =>
    rw [List.append_nil]
    exact ⟨hp, fun before x after he => by simp at he⟩
  | @call c next i e r log q _ ih =>
    obtain ⟨hc, hnext⟩ := hp
    have hr : A past c r := by
      have hfirst := hA [] _ log rfl
      rwa [List.append_nil] at hfirst
    obtain ⟨hq, hcalls⟩ := ih (hnext i e r hr) fun before x after he => by
      have hx := hA (_ :: before) x after (by rw [he, List.cons_append])
      rwa [← List.singleton_append, ← List.append_assoc] at hx
    rw [List.append_assoc, List.singleton_append] at hq
    refine ⟨hq, fun before x after he => ?_⟩
    rcases before with _ | ⟨y, before⟩
    · rw [List.nil_append] at he
      cases he
      rwa [List.append_nil]
    · rw [List.cons_append] at he
      cases he
      have hx := hcalls before x after rfl
      rwa [List.append_assoc, List.singleton_append] at hx

end Rules

theorem callsOf_append (i : ℕ) (log log' : List (Entry ε κ ρ)) :
    callsOf i (log ++ log') = callsOf i log ++ callsOf i log' := List.filter_append _ _

theorem callsOf_cons_self (x : Entry ε κ ρ) (log : List (Entry ε κ ρ)) :
    callsOf x.thread (x :: log) = x :: callsOf x.thread log := List.filter_cons_of_pos (by simp)

section Rules

variable {A : List (Entry ε κ ρ) → (c : κ) → ρ c → Prop} {J : List (Entry ε κ ρ) → κ → Prop}
  {Q : List (Entry ε κ ρ) → α → Prop} (s : σ) {ts : List (Turn ε κ ρ α)} {i : ℕ} {p : Prog κ ρ α}

/-- A split of the calls of one program is one of the log. -/
theorem split_callsOf {log before after : List (Entry ε κ ρ)} {x : Entry ε κ ρ}
    (h : callsOf i log = before ++ x :: after) :
    ∃ before' after', log = before' ++ x :: after' ∧ callsOf i before' = before ∧ x.thread = i := by
  obtain ⟨l₁, l₂, rfl, h₁, h₂⟩ := List.filter_eq_append_iff.1 h
  obtain ⟨m₁, m₂, rfl, hm, hx, -⟩ := List.filter_eq_cons_iff.1 h₂
  refine ⟨l₁ ++ m₁, m₂, by rw [List.append_assoc], ?_, by simpa using hx⟩
  rw [callsOf_append]
  unfold callsOf
  rw [h₁, List.filter_eq_nil_iff.2 hm, List.append_nil]

/-- **What a program does under a condition it does in every run that meets it.** -/
theorem under_run (hp : (arrivals ts)[i]? = some p) (hunder : p.Under A J Q [])
    (hA : ∀ before x after, (run exec s ts).log = before ++ x :: after → x.thread = i →
      A (callsOf i before) x.call x.result) :
    (∀ before x after, (run exec s ts).log = before ++ x :: after → x.thread = i → J (callsOf i before) x.call) ∧
      ∃ q, (run exec s ts).progs[i]? = some q ∧ q.Under A J Q (callsOf i (run exec s ts).log) := by
  have hexpl := explained_run exec s ts
  obtain ⟨q, hq⟩ : ∃ q, (run exec s ts).progs[i]? = some q := by
    have hlt := (List.getElem?_eq_some_iff.1 hp).1
    exact ⟨_, List.getElem?_eq_getElem (by rw [hexpl.length]; exact hlt)⟩
  obtain ⟨hend, hcalls⟩ := hunder.follows (hexpl.follows i p q hp hq) fun before x after h => by
    obtain ⟨before', after', hlog, rfl, hx⟩ := split_callsOf h
    exact hA before' x after' hlog hx
  refine ⟨fun before x after hlog hx => hcalls (callsOf i before) x (callsOf i after) ?_, q, hq, hend⟩
  rw [hlog, callsOf_append, ← hx, callsOf_cons_self]

/-- **What a program does alone it does in a run.** -/
theorem spec_run (hp : (arrivals ts)[i]? = some p) (hspec : p.Spec J Q []) :
    (∀ before x after, (run exec s ts).log = before ++ x :: after → x.thread = i → J (callsOf i before) x.call) ∧
      ∀ a, (run exec s ts).progs[i]? = some (.done a) → Q (callsOf i (run exec s ts).log) a := by
  obtain ⟨hcalls, q, hq, hend⟩ := under_run (A := fun _ _ _ => True) exec s hp hspec.under fun _ _ _ _ _ => trivial
  refine ⟨hcalls, fun a ha => ?_⟩
  rw [hq] at ha
  cases ha
  exact hend

end Rules

end Runs

/-! ### Two runs -/

section Related

variable {σ σ' ε ε' κ κ' α : Type} {ρ : κ → Type} {ρ' : κ' → Type}

/-- Programs whose calls are related, whose answers are the same, and that stay related when the results are. -/
inductive Prog.Rel (C : κ → κ' → Prop) (R : (c : κ) → (c' : κ') → ρ c → ρ' c' → Prop) :
    Prog κ ρ α → Prog κ' ρ' α → Prop
  | done (a : α) : Rel C R (.done a) (.done a)
  | call {c : κ} {c' : κ'} {next : ρ c → Prog κ ρ α} {next' : ρ' c' → Prog κ' ρ' α} :
      C c c' → (∀ r r', R c c' r r' → Rel C R (next r) (next' r')) → Rel C R (.call c next) (.call c' next')

/-- Turns that are related. -/
inductive Turn.Rel (E : ε → ε' → Prop) (C : κ → κ' → Prop) (R : (c : κ) → (c' : κ') → ρ c → ρ' c' → Prop) :
    Turn ε κ ρ α → Turn ε' κ' ρ' α → Prop
  | arrive {p : Prog κ ρ α} {p' : Prog κ' ρ' α} : p.Rel C R p' → Rel E C R (.arrive p) (.arrive p')
  | step (i : ℕ) {e : ε} {e' : ε'} : E e e' → Rel E C R (.step i e) (.step i e')

variable {exec : ε → σ → (c : κ) → σ × ρ c} {exec' : ε' → σ' → (c : κ') → σ' × ρ' c} {S : σ → σ' → Prop}
  {E : ε → ε' → Prop} {C : κ → κ' → Prop} {R : (c : κ) → (c' : κ') → ρ c → ρ' c' → Prop}

/-- Objects and programs of two pools are related. -/
structure Pool.Rel (S : σ → σ' → Prop) (C : κ → κ' → Prop) (R : (c : κ) → (c' : κ') → ρ c → ρ' c' → Prop)
    (P : Pool σ ε κ ρ α) (P' : Pool σ' ε' κ' ρ' α) : Prop where
  state : S P.state P'.state
  progs : List.Forall₂ (Prog.Rel C R) P.progs P'.progs

theorem forall₂_getElem? {β γ : Type} {r : β → γ → Prop} {l : List β} {l' : List γ} (h : List.Forall₂ r l l') (i : ℕ) :
    (l[i]? = none ∧ l'[i]? = none) ∨ ∃ x y, l[i]? = some x ∧ l'[i]? = some y ∧ r x y := by
  induction h generalizing i with
  | nil => exact .inl ⟨rfl, rfl⟩
  | cons hxy _ ih =>
    cases i with
    | zero => exact .inr ⟨_, _, rfl, rfl, hxy⟩
    | succ i => exact ih i

theorem forall₂_set {β γ : Type} {r : β → γ → Prop} {l : List β} {l' : List γ} (h : List.Forall₂ r l l') (i : ℕ)
    {x : β} {y : γ} (hxy : r x y) : List.Forall₂ r (l.set i x) (l'.set i y) := by
  induction h generalizing i with
  | nil => exact .nil
  | cons h1 h2 ih =>
    cases i with
    | zero => exact .cons hxy h2
    | succ i => exact .cons h1 (ih i)

theorem Pool.Rel.turn {P : Pool σ ε κ ρ α} {P' : Pool σ' ε' κ' ρ' α} (h : P.Rel S C R P')
    (hexec : ∀ e e' s s' c c', E e e' → S s s' → C c c' →
      S (exec e s c).1 (exec' e' s' c').1 ∧ R c c' (exec e s c).2 (exec' e' s' c').2)
    {t : Turn ε κ ρ α} {t' : Turn ε' κ' ρ' α} (ht : t.Rel E C R t') : (P.turn exec t).Rel S C R (P'.turn exec' t') := by
  cases ht with
  | arrive hp => exact ⟨h.state, List.rel_append h.progs (.cons hp .nil)⟩
  | @step i e e' he =>
    unfold Pool.turn
    rcases forall₂_getElem? h.progs i with ⟨hi, hi'⟩ | ⟨p, p', hi, hi', hp⟩
    · simp only [hi, hi']
      exact h
    · cases hp with
      | done a =>
        simp only [hi, hi']
        exact h
      | @call c c' next next' hc hnext =>
        simp only [hi, hi']
        obtain ⟨hstate, hresult⟩ := hexec e e' P.state P'.state c c' he h.state hc
        exact ⟨hstate, forall₂_set h.progs i (hnext _ _ hresult)⟩

theorem map_answer_eq {ps : List (Prog κ ρ α)} {ps' : List (Prog κ' ρ' α)} (h : List.Forall₂ (Prog.Rel C R) ps ps') :
    ps.map Prog.answer = ps'.map Prog.answer := by
  induction h with
  | nil => rfl
  | cons hp _ ih =>
    rw [List.map_cons, List.map_cons, ih]
    cases hp <;> rfl

/-- **Two runs that cannot be told apart.** When related calls on related objects give related results, related
schedules give the same answers. -/
theorem answers_eq {s : σ} {s' : σ'} (hs : S s s')
    (hexec : ∀ e e' s s' c c', E e e' → S s s' → C c c' →
      S (exec e s c).1 (exec' e' s' c').1 ∧ R c c' (exec e s c).2 (exec' e' s' c').2)
    {ts : List (Turn ε κ ρ α)} {ts' : List (Turn ε' κ' ρ' α)} (ht : List.Forall₂ (Turn.Rel E C R) ts ts') :
    (run exec s ts).progs.map Prog.answer = (run exec' s' ts').progs.map Prog.answer := by
  have hpools : ∀ P P', P.Rel S C R P' →
      (ts.foldl (Pool.turn exec) P).Rel S C R (ts'.foldl (Pool.turn exec') P') := by
    induction ht with
    | nil => exact fun P P' h => h
    | cons ht _ ih => exact fun P P' h => ih _ _ (h.turn hexec ht)
  exact map_answer_eq (hpools (.new s) (.new s') ⟨hs, .nil⟩).progs

end Related

end MiniSbAgent.Lib
