import MiniSbAgent.Agent.Interleaving

/-!
# No byte twice, in every interleaving

While a flush takes its snapshot and commits it, connections go on counting, new keys appear, and requests for
statistics read the same counters.  What the syncer may rely on all the same is little: pointers stay, nobody else
commits, and what is counted only grows.  It is enough for its books.

* `Relies` — what the calls of the syncer return, told from its own calls before;
* `Ledger` — what has been settled is what has been committed and what is still to be, and was counted;
* `snapshotTags_under`, `commitTags_under` — how the two halves of a flush keep the books;
* `relies_run` — the other goroutines leave the syncer what it relies on;
* `interleaved_billing` — whatever the order of the operations, no byte is settled that was not counted, and none is
  pushed that was settled before.
-/

namespace MiniSbAgent.Agent.Interleaving

open MiniSbAgent.Go MiniSbAgent.Lib MiniSbAgent.Counter MiniSbAgent.Panelapi Memory

/-! ### Settled, and loaded -/

def amountIn (delta : Delta) (tag user : String) (d : Direction) : ℤ := ((lookup₂ delta tag user).map d.of).getD 0

/-- The panel has taken the inbound: there was no error, or it is among those that were acknowledged. -/
def Takes (reply : PanelPush) (tag : String) : Prop := reply.errs = [] ∨ (reply.acked.lookup tag).getD false = true

instance Takes.decidable (reply : PanelPush) (tag : String) : Decidable (Takes reply tag) :=
  inferInstanceAs (Decidable (_ ∨ _))

/-- What the panel has taken of a report: the amounts of the numeric users of an inbound that it has taken. -/
def taken (delta : Delta) (reply : PanelPush) (tag user : String) (d : Direction) : ℤ :=
  if isNumericUser user = true ∧ Takes reply tag then amountIn delta tag user d else 0

/-- What a push settles for a key, by the answer of the panel. -/
def settles (tag user : String) (d : Direction) : (c : Call) → c.Result → ℤ
  | .push delta, reply => taken delta reply tag user d
  | _, _ => 0

/-- What the panel has taken is what the code commits. -/
theorem taken_eq (delta : Delta) (reply : PanelPush) (tag user : String) (d : Direction) :
    taken delta reply tag user d =
      (((toCommit delta reply).bind fun commit => lookup₂ commit tag user).map d.of).getD 0 := by
  unfold taken toCommit Takes amountIn
  by_cases herrs : reply.errs = []
  · rw [if_neg (not_not.2 herrs), Option.bind_some, lookup₂_commitDelta]
    by_cases hnum : isNumericUser user = true <;> simp [herrs, hnum]
  · rw [if_pos herrs]
    by_cases hempty : isEmpty reply.acked = true
    · have hacked := (isEmpty_iff _).1 hempty tag
      simp [herrs, hempty, hacked]
    · rw [if_neg hempty, Option.bind_some, lookup₂_commitDelta]
      by_cases hnum : isNumericUser user = true <;> by_cases hacked : (reply.acked.lookup tag).getD false = true <;>
        simp [herrs, hnum, hacked]

def settled (tag user : String) (d : Direction) (log : List LogEntry) : ℤ :=
  (log.map fun x => settles tag user d x.call x.result).sum

theorem settled_concat (tag user : String) (d : Direction) (log : List LogEntry) (x : LogEntry) :
    settled tag user d (log ++ [x]) = settled tag user d log + settles tag user d x.call x.result := by
  simp [settled]

def LoadsCounter (p : ℕ) (d : Direction) (v : ℤ) : (c : Call) → c.Result → Prop
  | .load p' (.counter d'), r => (p' = p ∧ d' = d) ∧ r = v
  | _, _ => False

/-- The value has been read from the counter. -/
def Loaded (past : List LogEntry) (p : ℕ) (d : Direction) (v : ℤ) : Prop :=
  ∃ x ∈ past, LoadsCounter p d v x.call x.result

theorem Loaded.mono {past past' : List LogEntry} {p : ℕ} {d : Direction} {v : ℤ} (h : Loaded past p d v)
    (hsub : past ⊆ past') : Loaded past' p d v := by
  obtain ⟨x, hx, hload⟩ := h
  exact ⟨x, hsub hx, hload⟩

/-- No less than what was read before. -/
def Grown (past : List LogEntry) (p : ℕ) (d : Direction) (r : ℤ) : Prop := 0 ≤ r ∧ ∀ v, Loaded past p d v → v ≤ r

/-- What a call returns, as far as the calls of the syncer before it tell. -/
def Remembers (past : List LogEntry) : (c : Call) → c.Result → Prop
  | .loadTag tag, r => ∀ ct, ToldTag past tag ct → r = some ct
  | .loadUser ct user, r => ∀ p, ToldUser past ct user p → r = some p
  | .load p (.counter d), r => Grown past p d r
  | .load p (.committed d), r => r = total p (.committed d) past
  | _, _ => True

/-- What the syncer relies on; `M` is the memory in the end. -/
structure Relies (M : Memory) (past : List LogEntry) (c : Call) (r : c.Result) : Prop where
  tag : ∀ {tag ct}, TellsTag tag ct c r → M.byInbound.lookup tag = some ct
  user : ∀ {ct user p}, TellsUser ct user p c r → (M.counters ct).lookup user = some p
  remembers : Remembers past c r

/-! ### The books of the syncer -/

/-- What the syncer has committed for a key. -/
def own (M : Memory) (past : List LogEntry) (tag user : String) (d : Direction) : ℤ :=
  ((M.ptr tag user).map fun p => total p (.committed d) past).getD 0

theorem own_of_ptr {M : Memory} {tag user : String} {p : ℕ} (hp : M.ptr tag user = some p) (past : List LogEntry)
    (d : Direction) : own M past tag user d = total p (.committed d) past := by
  unfold own
  rw [hp]
  rfl

/-- What is settled is committed, or in `rem`, and has been read from the counter. -/
structure Ledger (M : Memory) (past : List LogEntry) (rem : String → String → Direction → ℤ) : Prop where
  own_nonneg : ∀ tag user d, 0 ≤ own M past tag user d
  rem_nonneg : ∀ tag user d, 0 ≤ rem tag user d
  balance : ∀ tag user d, settled tag user d past = own M past tag user d + rem tag user d
  loaded : ∀ tag user d, settled tag user d past = 0 ∨
    ∃ p v, M.ptr tag user = some p ∧ Loaded past p d v ∧ settled tag user d past ≤ v

theorem ledger_nil (M : Memory) : Ledger M [] 0 := by
  have hown : ∀ tag user d, own M [] tag user d = 0 := by
    intro tag user d
    unfold own
    cases M.ptr tag user <;> rfl
  exact ⟨fun tag user d => (hown tag user d).ge, fun _ _ _ => le_rfl,
    fun tag user d => by rw [hown]; rfl, fun _ _ _ => .inl rfl⟩

section Reads

variable {M : Memory} {past : List LogEntry} (x : LogEntry) (hx : ReaderCall x.call)

include hx

theorem total_read (p : ℕ) (f : Field) : total p f (past ++ [x]) = total p f past := by
  obtain ⟨i, e, c, r⟩ := x
  rw [total_append, total_singleton]
  cases c with
  | add p' f' n => exact hx.elim
  | _ => exact add_zero _

theorem settled_read (tag user : String) (d : Direction) :
    settled tag user d (past ++ [x]) = settled tag user d past := by
  obtain ⟨i, e, c, r⟩ := x
  rw [settled_concat]
  cases c with
  | push delta => exact hx.elim
  | _ => exact add_zero _

theorem own_read (tag user : String) (d : Direction) : own M (past ++ [x]) tag user d = own M past tag user d := by
  unfold own
  simp only [total_read x hx]

theorem Ledger.read {rem : String → String → Direction → ℤ} (h : Ledger M past rem) : Ledger M (past ++ [x]) rem where
  own_nonneg tag user d := by
    rw [own_read x hx]
    exact h.own_nonneg tag user d
  rem_nonneg := h.rem_nonneg
  balance tag user d := by
    rw [settled_read x hx, own_read x hx]
    exact h.balance tag user d
  loaded tag user d := by
    rw [settled_read x hx]
    obtain hzero | ⟨p, v, hp, hv, hle⟩ := h.loaded tag user d
    · exact .inl hzero
    · exact .inr ⟨p, v, hp, hv.mono (List.subset_append_left _ _), hle⟩

end Reads

/-- The commit of an amount moves it from what is still to be committed. -/
theorem Ledger.commit {M : Memory} (hM : M.Ok) {past : List LogEntry} {rem rem' : String → String → Direction → ℤ}
    (h : Ledger M past rem) {tag user : String} {p : ℕ} (hp : M.ptr tag user = some p) {d : Direction} {n : ℤ}
    (hn : 0 ≤ n) (hrem' : ∀ tag' user' d', 0 ≤ rem' tag' user' d')
    (hrem : ∀ tag' user' d', rem tag' user' d' =
      rem' tag' user' d' + if tag' = tag ∧ user' = user ∧ d' = d then n else 0) (i : ℕ) (e : Env) (r : Unit) :
    Ledger M (past ++ [⟨i, e, .add p (.committed d) n, r⟩]) rem' := by
  have hsettled : ∀ tag' user' d', settled tag' user' d' (past ++ [⟨i, e, .add p (.committed d) n, r⟩]) =
      settled tag' user' d' past := fun tag' user' d' => by
    rw [settled_concat]
    exact add_zero _
  have hown : ∀ tag' user' d', own M (past ++ [⟨i, e, .add p (.committed d) n, r⟩]) tag' user' d' =
      own M past tag' user' d' + if tag' = tag ∧ user' = user ∧ d' = d then n else 0 := fun tag' user' d' => by
    rcases hq : M.ptr tag' user' with _ | q
    · rw [if_neg]
      · simp [own, hq]
      · rintro ⟨rfl, rfl, rfl⟩
        rw [hp] at hq
        cases hq
    · rw [own_of_ptr hq, own_of_ptr hq, total_append, total_singleton]
      show _ + (if p = q ∧ Field.committed d = .committed d' then n else 0) = _
      refine congrArg (total q (.committed d') past + ·) (if_congr ?_ rfl rfl)
      constructor
      · rintro ⟨rfl, hd⟩
        cases hd
        obtain ⟨rfl, rfl⟩ := hM.ptr_inj hq hp
        exact ⟨rfl, rfl, rfl⟩
      · rintro ⟨rfl, rfl, rfl⟩
        rw [hp] at hq
        cases hq
        exact ⟨rfl, rfl⟩
  refine ⟨fun tag' user' d' => ?_, hrem', fun tag' user' d' => ?_, fun tag' user' d' => ?_⟩
  · rw [hown]
    have := h.own_nonneg tag' user' d'
    split_ifs <;> omega
  · rw [hsettled, hown, h.balance, hrem]
    omega
  · rw [hsettled]
    obtain hzero | ⟨q, v, hq, hv, hle⟩ := h.loaded tag' user' d'
    · exact .inl hzero
    · exact .inr ⟨q, v, hq, hv.mono (List.subset_append_left _ _), hle⟩

/-! ### The snapshot -/

/-- With what has been committed, the amount makes up a value that was read. -/
def Amount (past : List LogEntry) (p : ℕ) (d : Direction) (n : ℤ) : Prop :=
  0 ≤ n ∧ ∃ v, Loaded past p d v ∧ total p (.committed d) past + n = v

/-- What the snapshot of a counter has for a user. -/
def Fresh (M : Memory) (past : List LogEntry) (ct : ℕ) (user : String) (x : ℤ × ℤ) : Prop :=
  ∃ p, (M.counters ct).lookup user = some p ∧ ToldUser past ct user p ∧ ∀ d : Direction, Amount past p d (d.of x)

def UsersOk (M : Memory) (past : List LogEntry) (ct : ℕ) (out : GoMap String (ℤ × ℤ)) : Prop :=
  ∀ user x, out.lookup user = some x → Fresh M past ct user x

def DeltaOk (M : Memory) (past : List LogEntry) (delta : Delta) : Prop :=
  ∀ tag users, delta.lookup tag = some users →
    ∃ ct, M.byInbound.lookup tag = some ct ∧ ToldTag past tag ct ∧ UsersOk M past ct users

section Reads

variable {M : Memory} {past : List LogEntry} (x : LogEntry) (hx : ReaderCall x.call)

include hx

theorem Amount.read {p : ℕ} {d : Direction} {n : ℤ} (h : Amount past p d n) : Amount (past ++ [x]) p d n := by
  obtain ⟨hn, v, hv, hsum⟩ := h
  refine ⟨hn, v, hv.mono (List.subset_append_left _ _), ?_⟩
  rw [total_read x hx]
  exact hsum

theorem UsersOk.read {ct : ℕ} {out : GoMap String (ℤ × ℤ)} (h : UsersOk M past ct out) :
    UsersOk M (past ++ [x]) ct out := by
  intro user y hy
  obtain ⟨p, hp, htold, hamount⟩ := h user y hy
  exact ⟨p, hp, htold.mono (List.subset_append_left _ _), fun d => (hamount d).read x hx⟩

theorem DeltaOk.read {delta : Delta} (h : DeltaOk M past delta) : DeltaOk M (past ++ [x]) delta := by
  intro tag users hl
  obtain ⟨ct, hct, htold, husers⟩ := h tag users hl
  exact ⟨ct, hct, htold.mono (List.subset_append_left _ _), husers.read x hx⟩

end Reads

/-- The difference of a counter and of what was committed, read one after the other. -/
theorem amount_of_loads {M : Memory} {past : List LogEntry} (hl : Ledger M past 0) {tag user : String} {p : ℕ}
    (hp : M.ptr tag user = some p) {d : Direction} {v w : ℤ} (i j : ℕ) (e e' : Env)
    (hv : Relies M past (.load p (.counter d)) v)
    (hw : Relies M (past ++ [⟨i, e, .load p (.counter d), v⟩]) (.load p (.committed d)) w) :
    Amount (past ++ [⟨i, e, .load p (.counter d), v⟩] ++ [⟨j, e', .load p (.committed d), w⟩]) p d (v - w) := by
  obtain ⟨hpos, hgrown⟩ : Grown past p d v := hv.remembers
  have hw : w = total p (.committed d) (past ++ [⟨i, e, .load p (.counter d), v⟩]) := hw.remembers
  have hread : ∀ (i : ℕ) (e : Env) (f : Field) (r : ℤ) (past : List LogEntry),
      total p (.committed d) (past ++ [⟨i, e, .load p f, r⟩]) = total p (.committed d) past :=
    fun i e f r past => total_read ⟨i, e, .load p f, r⟩ trivial p _
  rw [hread] at hw
  have hbalance := hl.balance tag user d
  rw [own_of_ptr hp, ← hw] at hbalance
  have hbalance : settled tag user d past = w + 0 := hbalance
  refine ⟨?_, v, ⟨⟨i, e, .load p (.counter d), v⟩, by simp, ⟨rfl, rfl⟩, rfl⟩, ?_⟩
  · -- what is committed was read from the counter, or is nothing
    obtain hzero | ⟨q, u, hq, hu, hle⟩ := hl.loaded tag user d
    · omega
    · rw [hp] at hq
      cases hq
      have := hgrown u hu
      omega
  · rw [hread, hread, ← hw]
    omega

/-- What holds at each call of the syncer: the books are in order, closed when a flush begins, and what is pushed has
been counted and not settled. -/
structure Accounted (M : Memory) (past : List LogEntry) (c : Call) : Prop where
  ledger : ∃ rem, Ledger M past rem ∧ (c = .nextTag [] → rem = 0)
  push : ∀ delta, c = .push delta → Ledger M past 0 ∧ DeltaOk M past delta

theorem Ledger.accounted {M : Memory} {past : List LogEntry} (h : Ledger M past 0) {c : Call} (hc : ReaderCall c) :
    Accounted M past c := by
  refine ⟨⟨0, h, fun _ => rfl⟩, fun delta heq => ?_⟩
  rw [heq] at hc
  exact hc.elim

/-- The syncer keeps its books from here on. -/
abbrev KeepsBooks (M : Memory) (past : List LogEntry) (t : Thread) : Prop :=
  t.Under (Relies M) (Accounted M) (fun past _ => Ledger M past 0) past

section Snapshot

variable {M : Memory}

theorem snapshotUsers_under {I : List LogEntry → Prop} (hI : ∀ past x, ReaderCall x.call → I past → I (past ++ [x]))
    (hledger : ∀ past, I past → Ledger M past 0) {tag : String} {ct : ℕ} (htag : M.byInbound.lookup tag = some ct)
    {k : GoMap String (ℤ × ℤ) → Thread}
    (hk : ∀ past out, I past → UsersOk M past ct out → KeepsBooks M past (k out)) (visits : ℕ) (seen : List String)
    {out : GoMap String (ℤ × ℤ)} {past : List LogEntry} (hpast : I past) (hout : UsersOk M past ct out) :
    KeepsBooks M past (snapshotUsers ct k visits seen out) := by
  induction visits generalizing seen out past with
  | zero => exact hk past out hpast hout
  | succ visits ih =>
    refine ⟨(hledger _ hpast).accounted trivial, fun i e r hr => ?_⟩
    have h0 := hI _ ⟨i, e, .nextUser ct seen, r⟩ trivial hpast
    have hout0 := hout.read ⟨i, e, .nextUser ct seen, r⟩ trivial
    match r, hr, h0, hout0 with
    | none, _, h0, hout0 => exact hk _ out h0 hout0
    | some (user, p), hr, h0, hout0 =>
      have hp : (M.counters ct).lookup user = some p := hr.user ⟨rfl, rfl⟩
      have hptr : M.ptr tag user = some p := ptr_eq_some.2 ⟨ct, htag, hp⟩
      have htold : ToldUser (past ++ [⟨i, e, .nextUser ct seen, some (user, p)⟩]) ct user p :=
        ⟨_, List.mem_append_right _ (List.mem_singleton_self _), rfl, rfl⟩
      refine ⟨(hledger _ h0).accounted trivial, fun i₁ e₁ up hup => ?_⟩
      have h1 := hI _ ⟨i₁, e₁, .load p (.counter .up), up⟩ trivial h0
      refine ⟨(hledger _ h1).accounted trivial, fun i₂ e₂ cup hcup => ?_⟩
      have h2 := hI _ ⟨i₂, e₂, .load p (.committed .up), cup⟩ trivial h1
      refine ⟨(hledger _ h2).accounted trivial, fun i₃ e₃ down hdown => ?_⟩
      have h3 := hI _ ⟨i₃, e₃, .load p (.counter .down), down⟩ trivial h2
      refine ⟨(hledger _ h3).accounted trivial, fun i₄ e₄ cdown hcdown => ?_⟩
      have h4 := hI _ ⟨i₄, e₄, .load p (.committed .down), cdown⟩ trivial h3
      have hamountUp := amount_of_loads (hledger _ h0) hptr i₁ i₂ e₁ e₂ hup hcup
      have hamountDown := amount_of_loads (hledger _ h2) hptr i₃ i₄ e₃ e₄ hdown hcdown
      have hout4 := (((hout0.read ⟨i₁, e₁, .load p (.counter .up), up⟩ trivial).read
        ⟨i₂, e₂, .load p (.committed .up), cup⟩ trivial).read ⟨i₃, e₃, .load p (.counter .down), down⟩ trivial).read
        ⟨i₄, e₄, .load p (.committed .down), cdown⟩ trivial
      refine ih _ h4 ?_
      split_ifs
      · intro user' y hy
        rw [lookup_insert_of] at hy
        split_ifs at hy with huser
        · subst huser
          cases hy
          refine ⟨p, hp, htold.mono fun a ha => ?_, fun d => ?_⟩
          · simp only [List.mem_append] at ha ⊢
            tauto
          cases d with
          | up =>
            exact (hamountUp.read ⟨i₃, e₃, .load p (.counter .down), down⟩ trivial).read
              ⟨i₄, e₄, .load p (.committed .down), cdown⟩ trivial
          | down => exact hamountDown
        · exact hout4 user' y hy
      · exact hout4

theorem snapshotTags_under {k : Delta → Thread} {users : ℕ}
    (hk : ∀ past delta, Ledger M past 0 → DeltaOk M past delta → KeepsBooks M past (k delta)) (visits : ℕ)
    (seen : List String) {out : Delta} {past : List LogEntry} (hpast : Ledger M past 0) (hout : DeltaOk M past out) :
    KeepsBooks M past (snapshotTags users k visits seen out) := by
  induction visits generalizing seen out past with
  | zero => exact hk past out hpast hout
  | succ visits ih =>
    refine ⟨hpast.accounted trivial, fun i e r hr => ?_⟩
    have h0 := hpast.read ⟨i, e, .nextTag seen, r⟩ trivial
    have hout0 := hout.read ⟨i, e, .nextTag seen, r⟩ trivial
    match r, hr, h0, hout0 with
    | none, _, h0, hout0 => exact hk _ out h0 hout0
    | some (tag, ct), hr, h0, hout0 =>
      have htag : M.byInbound.lookup tag = some ct := hr.tag rfl
      have htold : ToldTag (past ++ [⟨i, e, .nextTag seen, some (tag, ct)⟩]) tag ct :=
        ⟨_, List.mem_append_right _ (List.mem_singleton_self _), rfl⟩
      refine snapshotUsers_under (I := fun past => Ledger M past 0 ∧ ToldTag past tag ct ∧ DeltaOk M past out)
        ?_ (fun _ h => h.1) htag ?_ _ _ ⟨h0, htold, hout0⟩ ?_
      · rintro past x hx ⟨h, htold, hout⟩
        exact ⟨h.read x hx, htold.mono (List.subset_append_left _ _), hout.read x hx⟩
      · rintro past delta ⟨h, htold, hout⟩ hdelta
        refine ih _ h ?_
        split_ifs
        · exact hout
        · intro tag' users' hl
          rw [lookup_insert_of] at hl
          split_ifs at hl with htag'
          · subst htag'
            cases hl
            exact ⟨ct, htag, htold, hdelta⟩
          · exact hout tag' users' hl
      · intro user x hx
        simp at hx

end Snapshot

/-! ### The commit -/

section Commit

variable {M : Memory} (hM : M.Ok)

/-- The storages of the users are known. -/
def DueUsers (M : Memory) (past : List LogEntry) (ct : ℕ) (users : List ((_ : String) × ℤ × ℤ)) : Prop :=
  ∀ e ∈ users, ∃ p, (M.counters ct).lookup e.1 = some p ∧ ToldUser past ct e.1 p ∧ ∀ d : Direction, 0 ≤ d.of e.2

def DueTags (M : Memory) (past : List LogEntry) (tags : List ((_ : String) × GoMap String (ℤ × ℤ))) : Prop :=
  ∀ e ∈ tags, ∃ ct, M.byInbound.lookup e.1 = some ct ∧ ToldTag past e.1 ct ∧ DueUsers M past ct e.2.entries

theorem DueUsers.concat {past : List LogEntry} {ct : ℕ} {users : List ((_ : String) × ℤ × ℤ)}
    (h : DueUsers M past ct users) (x : LogEntry) : DueUsers M (past ++ [x]) ct users := by
  intro e he
  obtain ⟨p, hp, htold, hpos⟩ := h e he
  exact ⟨p, hp, htold.mono (List.subset_append_left _ _), hpos⟩

theorem DueTags.concat {past : List LogEntry} {tags : List ((_ : String) × GoMap String (ℤ × ℤ))}
    (h : DueTags M past tags) (x : LogEntry) : DueTags M (past ++ [x]) tags := by
  intro e he
  obtain ⟨ct, hct, htold, hdue⟩ := h e he
  exact ⟨ct, hct, htold.mono (List.subset_append_left _ _), hdue.concat x⟩

/-- What a list of users still has for one of them. -/
def remUsers (users : List ((_ : String) × ℤ × ℤ)) (user : String) (d : Direction) : ℤ :=
  (users.map fun e => if e.1 = user then d.of e.2 else 0).sum

/-- What a list of tags still has for a key. -/
def remTags (tags : List ((_ : String) × GoMap String (ℤ × ℤ))) (tag user : String) (d : Direction) : ℤ :=
  (tags.map fun e => if e.1 = tag then ((e.2.lookup user).map d.of).getD 0 else 0).sum

theorem remUsers_nonneg {past : List LogEntry} {ct : ℕ} {users : List ((_ : String) × ℤ × ℤ)}
    (h : DueUsers M past ct users) (user : String) (d : Direction) : 0 ≤ remUsers users user d := by
  refine List.sum_nonneg fun n hn => ?_
  obtain ⟨e, he, rfl⟩ := List.mem_map.1 hn
  obtain ⟨p, -, -, hpos⟩ := h e he
  have := hpos d
  split_ifs <;> omega

theorem remUsers_visit (o : RangeOrder ((_ : String) × ℤ × ℤ)) (users : GoMap String (ℤ × ℤ)) (user : String)
    (d : Direction) : remUsers (o.visit users.entries) user d = ((users.lookup user).map d.of).getD 0 := by
  rw [← sum_entries users user d.of]
  exact ((o.perm users.entries).map _).sum_eq

theorem remTags_visit (o : RangeOrder ((_ : String) × GoMap String (ℤ × ℤ))) (commit : Delta) (tag user : String)
    (d : Direction) : remTags (o.visit commit.entries) tag user d = ((lookup₂ commit tag user).map d.of).getD 0 := by
  have hsum := sum_entries commit tag fun users => ((users.lookup user).map d.of).getD 0
  have hperm : remTags (o.visit commit.entries) tag user d = _ := ((o.perm commit.entries).map _).sum_eq
  rw [hperm, hsum]
  unfold lookup₂
  cases commit.lookup tag <;> rfl

theorem remTags_nonneg {past : List LogEntry} {tags : List ((_ : String) × GoMap String (ℤ × ℤ))}
    (h : DueTags M past tags) (tag user : String) (d : Direction) : 0 ≤ remTags tags tag user d := by
  refine List.sum_nonneg fun n hn => ?_
  obtain ⟨e, he, rfl⟩ := List.mem_map.1 hn
  obtain ⟨ct, -, -, hdue⟩ := h e he
  have := remUsers_nonneg hdue user d
  rw [show e.2.entries = (RangeOrder.stored _).visit e.2.entries from rfl, remUsers_visit] at this
  split_ifs
  · exact this
  · exact le_rfl

theorem Ledger.accounted_commit {past : List LogEntry} {rem : String → String → Direction → ℤ} (h : Ledger M past rem)
    {c : Call} (hnext : ∀ seen, c ≠ .nextTag seen) (hpush : ∀ delta, c ≠ .push delta) : Accounted M past c :=
  ⟨⟨rem, h, fun heq => (hnext [] heq).elim⟩, fun delta heq => (hpush delta heq).elim⟩

include hM

theorem commitUsers_under {I : List LogEntry → Prop} (hI : ∀ past x, I past → I (past ++ [x])) {tag : String} {ct : ℕ}
    (htag : M.byInbound.lookup tag = some ct) {k : Thread} {rest : String → String → Direction → ℤ}
    (hrest : ∀ tag user d, 0 ≤ rest tag user d) (hk : ∀ past, I past → Ledger M past rest → KeepsBooks M past k)
    (users : List ((_ : String) × ℤ × ℤ)) {past : List LogEntry} (hpast : I past) (hdue : DueUsers M past ct users)
    (hledger : Ledger M past fun tag' user d => rest tag' user d + if tag' = tag then remUsers users user d else 0) :
    KeepsBooks M past (commitUsers ct k users) := by
  induction users generalizing past with
  | nil =>
    refine hk past hpast ?_
    have hzero : (fun tag' user d => rest tag' user d + if tag' = tag then remUsers [] user d else 0) = rest := by
      funext tag' user d
      simp [remUsers]
    rwa [hzero] at hledger
  | cons e users ih =>
    obtain ⟨user, x⟩ := e
    obtain ⟨p, hp, htold, hpos⟩ := hdue _ List.mem_cons_self
    have hdue' : DueUsers M past ct users := fun e he => hdue e (List.mem_cons_of_mem _ he)
    have hptr : M.ptr tag user = some p := ptr_eq_some.2 ⟨ct, htag, hp⟩
    refine ⟨hledger.accounted_commit (by simp) (by simp), fun i e r hr => ?_⟩
    -- the user was met in the snapshot, so the storage is still found
    have hfound : r = some p := hr.remembers p htold
    subst hfound
    have h0 := hI _ ⟨i, e, .loadUser ct user, some p⟩ hpast
    have hl0 := hledger.read ⟨i, e, .loadUser ct user, some p⟩ trivial
    have hdue0 := hdue'.concat ⟨i, e, .loadUser ct user, some p⟩
    refine ⟨hl0.accounted_commit (by simp) (by simp), fun i₁ e₁ r₁ _ => ?_⟩
    -- after the first of the two amounts, the second is still to be committed
    have hnonneg : ∀ tag' user' d', 0 ≤ rest tag' user' d' + if tag' = tag then remUsers users user' d' else 0 := by
      intro tag' user' d'
      have h1 := hrest tag' user' d'
      have h2 := remUsers_nonneg hdue' user' d'
      split_ifs <;> omega
    have hl1 : Ledger M (past ++ [⟨i, e, .loadUser ct user, some p⟩] ++ [⟨i₁, e₁, .add p (.committed .up) x.1, r₁⟩])
        fun tag' user' d' => (rest tag' user' d' + if tag' = tag then remUsers users user' d' else 0) +
          if tag' = tag ∧ user' = user ∧ d' = .down then x.2 else 0 := by
      refine hl0.commit hM hptr (d := .up) (hpos .up) ?_ ?_ i₁ e₁ r₁
      · intro tag' user' d'
        have h1 := hnonneg tag' user' d'
        have h2 : 0 ≤ x.2 := hpos .down
        split_ifs at h1 ⊢ <;> omega
      · intro tag' user' d'
        by_cases ht : tag' = tag
        · by_cases hu : user = user'
          · subst hu
            cases d' <;> simp [remUsers, ht, Direction.of] <;> omega
          · simp [remUsers, ht, hu, Ne.symm hu]
        · simp [ht]
    refine ⟨hl1.accounted_commit (by simp) (by simp), fun i₂ e₂ r₂ _ => ?_⟩
    refine ih (hI _ _ (hI _ _ h0)) ((hdue0.concat _).concat _) ?_
    exact hl1.commit hM hptr (d := .down) (hpos .down) hnonneg (fun _ _ _ => rfl) i₂ e₂ r₂

theorem commitTags_under {users : String → RangeOrder ((_ : String) × ℤ × ℤ)} {k : Thread}
    (hk : ∀ past, Ledger M past 0 → KeepsBooks M past k) (tags : List ((_ : String) × GoMap String (ℤ × ℤ)))
    {past : List LogEntry} (hdue : DueTags M past tags) (hledger : Ledger M past (remTags tags)) :
    KeepsBooks M past (commitTags users k tags) := by
  induction tags generalizing past with
  | nil => exact hk past hledger
  | cons e tags ih =>
    obtain ⟨tag, m⟩ := e
    obtain ⟨ct, hct, htold, husers⟩ := hdue _ List.mem_cons_self
    have hdue' : DueTags M past tags := fun e he => hdue e (List.mem_cons_of_mem _ he)
    refine ⟨hledger.accounted_commit (by simp) (by simp), fun i e r hr => ?_⟩
    have hfound : r = some ct := hr.remembers ct htold
    subst hfound
    refine commitUsers_under hM (I := fun past => DueTags M past tags) (fun _ x h => h.concat x) hct
      (remTags_nonneg hdue') (fun past h hl => ih h hl) _ (hdue'.concat _) ?_ ?_
    · intro e he
      exact husers.concat _ e ((users tag).mem_visit.1 he)
    · have hrem : remTags (⟨tag, m⟩ :: tags) = fun tag' user d =>
          remTags tags tag' user d + if tag' = tag then remUsers ((users tag).visit m.entries) user d else 0 := by
        funext tag' user d
        rw [remUsers_visit]
        simp only [remTags, List.map_cons, List.sum_cons, eq_comm (a := tag)]
        omega
      rw [← hrem]
      exact hledger.read ⟨i, e, .loadTag tag, some ct⟩ trivial

end Commit

/-! ### The syncer -/

theorem DeltaOk.key {M : Memory} {past : List LogEntry} {delta : Delta} (h : DeltaOk M past delta) {tag user : String}
    {x : ℤ × ℤ} (hx : lookup₂ delta tag user = some x) :
    ∃ p, M.ptr tag user = some p ∧ ∀ d : Direction, Amount past p d (d.of x) := by
  obtain ⟨users, htag, huser⟩ := Option.bind_eq_some_iff.1 hx
  obtain ⟨ct, hct, -, husers⟩ := h tag users htag
  obtain ⟨p, hp, -, hamount⟩ := husers user x huser
  exact ⟨p, ptr_eq_some.2 ⟨ct, hct, hp⟩, hamount⟩

theorem DeltaOk.settles {M : Memory} {past : List LogEntry} {delta : Delta} (h : DeltaOk M past delta)
    (tag user : String) (d : Direction) (reply : PanelPush) :
    settles tag user d (.push delta) reply = 0 ∨
      ∃ p, M.ptr tag user = some p ∧ Amount past p d (settles tag user d (.push delta) reply) := by
  rw [show Interleaving.settles tag user d (.push delta) reply = _ from taken_eq delta reply tag user d]
  rcases hcommit : toCommit delta reply with _ | commit
  · exact .inl rfl
  · rcases hx : lookup₂ commit tag user with _ | x
    · exact .inl (by simp [hx])
    · -- what is committed is what was pushed
      have hdelta := (lookup₂_toCommit hcommit tag user).resolve_left (by simp [hx])
      obtain ⟨p, hp, hamount⟩ := h.key (hdelta.symm.trans hx)
      exact .inr ⟨p, hp, by simpa [hx] using hamount d⟩

/-- A push leaves what it settles to be committed. -/
theorem Ledger.push {M : Memory} {past : List LogEntry} (h : Ledger M past 0) {delta : Delta}
    (hdelta : DeltaOk M past delta) (i : ℕ) (e : Env) (reply : PanelPush) :
    Ledger M (past ++ [⟨i, e, .push delta, reply⟩]) fun tag user d => settles tag user d (.push delta) reply := by
  have hown : ∀ tag user d, own M (past ++ [⟨i, e, .push delta, reply⟩]) tag user d = own M past tag user d := by
    intro tag user d
    unfold own
    simp only [total_append, total_singleton]
    exact congrArg (fun f => Option.getD (Option.map f (M.ptr tag user)) 0) (funext fun p => add_zero _)
  have hbalance : ∀ tag user d, settled tag user d past = own M past tag user d := fun tag user d =>
    (h.balance tag user d).trans (add_zero _)
  refine ⟨fun tag user d => ?_, fun tag user d => ?_, fun tag user d => ?_, fun tag user d => ?_⟩
  · rw [hown]
    exact h.own_nonneg tag user d
  · obtain hzero | ⟨p, -, hamount⟩ := hdelta.settles tag user d reply
    · exact hzero.ge
    · exact hamount.1
  · rw [settled_concat, hown, hbalance]
  · rw [settled_concat]
    obtain hzero | ⟨p, hp, -, v, hv, hsum⟩ := hdelta.settles tag user d reply
    · rw [hzero, add_zero]
      obtain hnone | ⟨p, v, hp, hv, hle⟩ := h.loaded tag user d
      · exact .inl hnone
      · exact .inr ⟨p, v, hp, hv.mono (List.subset_append_left _ _), hle⟩
    · refine .inr ⟨p, v, hp, hv.mono (List.subset_append_left _ _), ?_⟩
      rw [hbalance, own_of_ptr hp]
      exact hsum.le

theorem lookup_of_toCommit {delta commit : Delta} {reply : PanelPush} (h : toCommit delta reply = some commit)
    {tag : String} {users : GoMap String (ℤ × ℤ)} (hl : commit.lookup tag = some users) :
    ∃ users', delta.lookup tag = some users' := by
  have hcommit : ∃ only, commit = commitDelta delta only := by
    unfold toCommit at h
    split_ifs at h <;> exact ⟨_, (Option.some.inj h).symm⟩
  obtain ⟨only, rfl⟩ := hcommit
  unfold commitDelta collect₂ at hl
  rw [lookup_collect] at hl
  obtain ⟨users', hdelta, -⟩ := Option.bind_eq_some_iff.1 hl
  exact ⟨users', hdelta⟩

/-- The snapshot has met all that is committed after a push. -/
theorem DeltaOk.due {M : Memory} {past : List LogEntry} {delta commit : Delta} (h : DeltaOk M past delta)
    {reply : PanelPush} (hcommit : toCommit delta reply = some commit) : DueTags M past commit.entries := by
  rintro ⟨tag, users⟩ he
  have hl : commit.lookup tag = some users := (mem_entries_iff commit).1 he
  obtain ⟨users', hdelta⟩ := lookup_of_toCommit hcommit hl
  obtain ⟨ct, hct, htold, husers⟩ := h tag users' hdelta
  refine ⟨ct, hct, htold, ?_⟩
  rintro ⟨user, x⟩ hx
  have hx : users.lookup user = some x := (mem_entries_iff users).1 hx
  have hsame : lookup₂ commit tag user = lookup₂ delta tag user :=
    (lookup₂_toCommit hcommit tag user).resolve_left (by simp [lookup₂, hl, hx])
  simp only [lookup₂, hl, hdelta, Option.bind_some, hx] at hsame
  obtain ⟨p, hp, htolduser, hamount⟩ := husers user x hsame.symm
  exact ⟨p, hp, htolduser, fun d => (hamount d).1⟩

/-- **The syncer keeps its books** as long as the others leave it what it relies on. -/
theorem syncer_under {M : Memory} (hM : M.Ok) (rounds : List Round) {past : List LogEntry} (h : Ledger M past 0) :
    KeepsBooks M past (syncer rounds) := by
  induction rounds generalizing past with
  | nil => exact h
  | cons round rounds ih =>
    refine snapshotTags_under (fun past delta hl hdelta => ?_) _ _ h (fun tag users hl => by simp at hl)
    split_ifs
    · exact ih hl
    · refine ⟨⟨⟨0, hl, fun _ => rfl⟩, fun delta' heq => by cases heq; exact ⟨hl, hdelta⟩⟩, fun i e reply _ => ?_⟩
      have hpush := hl.push hdelta i e reply
      rcases hcommit : toCommit delta reply with _ | commit
      · have hzero : (fun tag user d => settles tag user d (.push delta) reply) = 0 := by
          funext tag user d
          exact (taken_eq delta reply tag user d).trans (by rw [hcommit]; rfl)
        rw [hzero] at hpush
        simpa [hcommit] using ih hpush
      · have hrem : (fun tag user d => settles tag user d (.push delta) reply) =
            remTags (round.tags.visit commit.entries) := by
          funext tag user d
          rw [remTags_visit]
          exact (taken_eq delta reply tag user d).trans (by rw [hcommit, Option.bind_some])
        rw [hrem] at hpush
        have hdue : DueTags M past (round.tags.visit commit.entries) := fun e he =>
          hdelta.due hcommit e (round.tags.mem_visit.1 he)
        have hbooks : KeepsBooks M _ (commitTags round.users _ _) :=
          commitTags_under hM (fun past hl => ih hl) _ (hdue.concat _) hpush
        simpa [hcommit] using hbooks

/-! ### Runs -/

section Run

variable (rounds : List Round) (events : List Event)

/-- What goroutine `0` does is what the syncer does, and what the others do is what the workers do. -/
def CallOf (ws : List Worker) (before : List LogEntry) (x : LogEntry) : Prop :=
  (x.thread = 0 ∧ SyncerCall x.call) ∨
    (∃ i tag user traffic, x.thread = i + 1 ∧ ws[i]? = some (.connection tag user traffic) ∧
      ConnectionCall tag user (callsOf x.thread before) x.call) ∨
    ∃ i v, x.thread = i + 1 ∧ ws[i]? = some (.stats v) ∧ ReaderCall x.call

variable {rounds events}

theorem callOf_run {before after : List LogEntry} {x : LogEntry}
    (h : (interleave rounds events).log = before ++ x :: after) : CallOf (workers events) before x := by
  have harrivals := arrivals_interleave rounds events
  rcases hi : x.thread with _ | i
  · have hp : (arrivals (.arrive (syncer rounds) :: events.map Event.turn))[0]? = some (syncer rounds) := by
      rw [harrivals]
      rfl
    exact .inl ⟨hi, (spec_run exec Memory.new hp (syncer_spec rounds [])).1 before x after h hi⟩
  · have hx : x ∈ (interleave rounds events).log := by
      rw [h]
      simp
    have hlt := (explained_run exec Memory.new (.arrive (syncer rounds) :: events.map Event.turn)).thread x hx
    rw [harrivals, hi, List.length_cons, List.length_map, Nat.succ_lt_succ_iff] at hlt
    have hw := List.getElem?_eq_getElem hlt
    have hp : (arrivals (.arrive (syncer rounds) :: events.map Event.turn))[i + 1]? =
        some ((workers events)[i]).thread := by
      rw [harrivals, List.getElem?_cons_succ, List.getElem?_map, hw]
      rfl
    generalize (workers events)[i] = w at hw hp
    cases w with
    | connection tag user traffic =>
      have hcall := (spec_run exec Memory.new hp (connection_spec tag user traffic)).1 before x after h hi
      rw [← hi] at hcall
      exact .inr (.inl ⟨i, tag, user, traffic, hi, hw, hcall⟩)
    | stats v =>
      exact .inr (.inr ⟨i, v, hi, hw, (spec_run exec Memory.new hp (stats_spec v)).1 before x after h hi⟩)

variable {x : LogEntry} (hx : x ∈ (interleave rounds events).log)

include hx

/-- Counters only grow. -/
theorem added_counter_nonneg (p : ℕ) (d : Direction) : 0 ≤ added p (.counter d) x := by
  obtain ⟨before, after, h⟩ := List.append_of_mem hx
  obtain ⟨i, e, c, r⟩ := x
  cases c with
  | add p' f n =>
    show 0 ≤ if p' = p ∧ f = .counter d then n else 0
    split_ifs with hf
    · obtain ⟨rfl, rfl⟩ := hf
      obtain ⟨-, hc⟩ | ⟨_, _, _, _, -, -, -, hn, -⟩ | ⟨_, _, -, -, hc⟩ := callOf_run h
      · exact hc.elim
      · exact hn
      · exact hc.elim
    · exact le_rfl
  | _ => exact le_rfl

/-- Nobody but the syncer commits. -/
theorem added_committed_eq_zero (hthread : x.thread ≠ 0) (p : ℕ) (d : Direction) : added p (.committed d) x = 0 := by
  obtain ⟨before, after, h⟩ := List.append_of_mem hx
  obtain ⟨i, e, c, r⟩ := x
  cases c with
  | add p' f n =>
    show (if p' = p ∧ f = .committed d then n else 0) = 0
    rw [if_neg]
    rintro ⟨rfl, rfl⟩
    obtain ⟨hi, -⟩ | ⟨_, _, _, _, -, -, ⟨d', hd⟩, -⟩ | ⟨_, _, -, -, hc⟩ := callOf_run h
    · exact hthread hi
    · cases hd
    · exact hc
  | _ => rfl

/-- Nobody but the syncer pushes. -/
theorem thread_eq_zero_of_push {delta : Delta} (hpush : x.call = .push delta) : x.thread = 0 := by
  obtain ⟨before, after, h⟩ := List.append_of_mem hx
  obtain ⟨hi, -⟩ | ⟨_, _, _, _, -, -, hc⟩ | ⟨_, _, -, -, hc⟩ := callOf_run h
  · exact hi
  · rw [hpush] at hc
    exact hc.elim
  · rw [hpush] at hc
    exact hc.elim

omit hx

theorem sum_callsOf (f : LogEntry → ℤ) {log : List LogEntry} (h : ∀ x ∈ log, x.thread ≠ 0 → f x = 0) :
    ((callsOf 0 log).map f).sum = (log.map f).sum := by
  induction log with
  | nil => rfl
  | cons x log ih =>
    have ih := ih fun y hy => h y (List.mem_cons_of_mem _ hy)
    unfold callsOf at ih ⊢
    by_cases hx : x.thread = 0
    · rw [List.filter_cons_of_pos (by simpa using hx), List.map_cons, List.map_cons, List.sum_cons, List.sum_cons, ih]
    · rw [List.filter_cons_of_neg (by simpa using hx), List.map_cons, List.sum_cons, ih, h x List.mem_cons_self hx,
        zero_add]

section Part

variable {log rest : List LogEntry} (hlog : (interleave rounds events).log = log ++ rest)

include hlog

theorem mem_of_mem_part {x : LogEntry} (hx : x ∈ log) : x ∈ (interleave rounds events).log := by
  rw [hlog]
  exact List.mem_append_left _ hx

theorem logged_part : Logged exec Memory.new log := by
  have hrun : Logged exec Memory.new (interleave rounds events).log := (logged_run exec Memory.new _).2
  rw [hlog] at hrun
  exact hrun.left

theorem total_committed_callsOf (p : ℕ) (d : Direction) :
    total p (.committed d) (callsOf 0 log) = total p (.committed d) log :=
  sum_callsOf _ fun _ hx hthread => added_committed_eq_zero (mem_of_mem_part hlog hx) hthread p d

theorem settled_callsOf (tag user : String) (d : Direction) :
    settled tag user d (callsOf 0 log) = settled tag user d log := by
  refine sum_callsOf _ fun x hx hthread => ?_
  have hpush : ∀ delta, x.call ≠ .push delta := fun _ heq =>
    hthread (thread_eq_zero_of_push (mem_of_mem_part hlog hx) heq)
  obtain ⟨i, e, c, r⟩ := x
  cases c with
  | push delta => exact (hpush delta rfl).elim
  | _ => rfl

theorem total_counter_nonneg (p : ℕ) (d : Direction) : 0 ≤ total p (.counter d) log := by
  refine List.sum_nonneg fun n hn => ?_
  obtain ⟨x, hx, rfl⟩ := List.mem_map.1 hn
  exact added_counter_nonneg (mem_of_mem_part hlog hx) p d

/-- What was read from a counter has been counted. -/
theorem Loaded.le_total {p : ℕ} {d : Direction} {v : ℤ} (h : Loaded log p d v) : v ≤ total p (.counter d) log := by
  obtain ⟨x, hx, hload⟩ := h
  obtain ⟨before, after, rfl⟩ := List.append_of_mem hx
  have hres := logged_part hlog before x after rfl
  obtain ⟨i, e, c, r⟩ := x
  match c, r, hload with
  | .load _ (.counter _), r, ⟨⟨rfl, rfl⟩, hr⟩ =>
    have hv : r = (memoryAfter before).storages p (.counter d) := hres
    rw [storages_memoryAfter] at hv
    have hafter : 0 ≤ total p (.counter d) after := by
      refine List.sum_nonneg fun n hn => ?_
      obtain ⟨y, hy, rfl⟩ := List.mem_map.1 hn
      exact added_counter_nonneg (mem_of_mem_part hlog (by simp [hy])) p d
    rw [total_append, ← List.singleton_append, total_append, total_singleton]
    have hzero : added p (.counter d) (⟨i, e, .load p (.counter d), r⟩ : LogEntry) = 0 := rfl
    rw [hzero, ← hv, ← show r = v from hr]
    omega

end Part

/-- **What the others leave the syncer.** -/
theorem relies_run (before : List LogEntry) (x : LogEntry) (after : List LogEntry)
    (h : (interleave rounds events).log = before ++ x :: after) :
    Relies (memoryAfter (interleave rounds events).log) (callsOf 0 before) x.call x.result := by
  have hlogged : Logged exec Memory.new (interleave rounds events).log := (logged_run exec Memory.new _).2
  have hres := hlogged before x after h
  have hx : x ∈ (interleave rounds events).log := by
    rw [h]
    simp
  have hsub : callsOf 0 before ⊆ before := List.filter_sublist.subset
  have hbefore := logged_part h
  refine ⟨fun htells => ?_, fun htells => ?_, ?_⟩
  · exact lookup_of_toldTag hlogged ⟨x, hx, htells⟩
  · exact lookup_of_toldUser hlogged ⟨x, hx, htells⟩
  · obtain ⟨i, e, c, r⟩ := x
    cases c with
    | loadTag tag =>
      intro ct htold
      exact hres.trans (lookup_of_toldTag hbefore (htold.mono hsub))
    | loadUser ct user =>
      intro p htold
      exact hres.trans (lookup_of_toldUser hbefore (htold.mono hsub))
    | load p f =>
      have hr : r = total p f before := hres.trans (storages_memoryAfter before p f)
      cases f with
      | counter d =>
        refine ⟨?_, fun v hv => ?_⟩
        · exact hr ▸ total_counter_nonneg h p d
        · exact hr ▸ (hv.mono hsub).le_total h
      | committed d => exact hr.trans (total_committed_callsOf h p d).symm
    | _ => trivial

/-! ### Counted -/

/-- The key a goroutine counts for. -/
def keyOf (ws : List Worker) : ℕ → Option (String × String)
  | 0 => none
  | i + 1 =>
    match ws[i]? with
    | some (.connection tag user _) => some (Hook.tcTag tag, user)
    | _ => none

/-- The bytes a call counts for a key, as the connection has them that makes it. -/
def counts (ws : List Worker) (tag user : String) (d : Direction) (x : LogEntry) : ℤ :=
  match x.call with
  | .add _ (.counter d') n => if keyOf ws x.thread = some (tag, user) ∧ d' = d then n else 0
  | _ => 0

def counted (ws : List Worker) (tag user : String) (d : Direction) (log : List LogEntry) : ℤ :=
  (log.map (counts ws tag user d)).sum

/-- The storage of a connection is that of its key, and stays it. -/
theorem ptr_of_count {x : LogEntry} (hx : x ∈ (interleave rounds events).log) {p : ℕ} {d : Direction} {n : ℤ}
    (hcall : x.call = .add p (.counter d) n) :
    ∃ tag user, keyOf (workers events) x.thread = some (tag, user) ∧
      (memoryAfter (interleave rounds events).log).ptr tag user = some p := by
  obtain ⟨before, after, h⟩ := List.append_of_mem hx
  have hlogged : Logged exec Memory.new (interleave rounds events).log := (logged_run exec Memory.new _).2
  have hsub : callsOf x.thread before ⊆ (interleave rounds events).log := by
    rw [h]
    exact List.Subset.trans List.filter_sublist.subset (List.subset_append_left _ _)
  obtain ⟨-, hc⟩ | ⟨i, tag, user, traffic, hi, hw, hc⟩ | ⟨_, _, -, -, hc⟩ := callOf_run h
  · rw [hcall] at hc
    exact hc.elim
  · rw [hcall] at hc
    obtain ⟨-, -, ct, htag, huser⟩ := hc
    refine ⟨Hook.tcTag tag, user, by simp [keyOf, hi, hw], ?_⟩
    exact ptr_eq_some.2 ⟨ct, lookup_of_toldTag hlogged (htag.mono hsub), lookup_of_toldUser hlogged (huser.mono hsub)⟩
  · rw [hcall] at hc
    exact hc.elim

theorem counts_of_ptr {tag user : String} {p : ℕ}
    (hp : (memoryAfter (interleave rounds events).log).ptr tag user = some p) (d : Direction) {x : LogEntry}
    (hx : x ∈ (interleave rounds events).log) : counts (workers events) tag user d x = added p (.counter d) x := by
  have hptr := fun q d n => ptr_of_count hx (p := q) (d := d) (n := n)
  obtain ⟨i, e, c, r⟩ := x
  cases c with
  | add q f n =>
    cases f with
    | committed d' => simp [counts, added]
    | counter d' =>
      obtain ⟨tag', user', hkey, hq⟩ := hptr q d' n rfl
      have hkey : keyOf (workers events) i = some (tag', user') := hkey
      have hiff : (tag' = tag ∧ user' = user) ↔ q = p := by
        constructor
        · rintro ⟨rfl, rfl⟩
          exact Option.some.inj (hq.symm.trans hp)
        · rintro rfl
          exact (ok_memoryAfter _).ptr_inj hq hp
      simp [counts, added, hkey, hiff]
  | _ => rfl

theorem counts_of_no_ptr {tag user : String} (hp : (memoryAfter (interleave rounds events).log).ptr tag user = none)
    (d : Direction) {x : LogEntry} (hx : x ∈ (interleave rounds events).log) :
    counts (workers events) tag user d x = 0 := by
  have hptr := fun q d n => ptr_of_count hx (p := q) (d := d) (n := n)
  obtain ⟨i, e, c, r⟩ := x
  cases c with
  | add q f n =>
    cases f with
    | committed d' => rfl
    | counter d' =>
      obtain ⟨tag', user', hkey, hq⟩ := hptr q d' n rfl
      refine if_neg ?_
      rintro ⟨hkey', -⟩
      cases hkey.symm.trans hkey'
      rw [hp] at hq
      cases hq
  | _ => rfl

theorem counted_of_ptr {tag user : String} {p : ℕ}
    (hp : (memoryAfter (interleave rounds events).log).ptr tag user = some p) (d : Direction)
    {log rest : List LogEntry} (hlog : (interleave rounds events).log = log ++ rest) :
    counted (workers events) tag user d log = total p (.counter d) log :=
  congrArg List.sum (List.map_congr_left fun _ hx => counts_of_ptr hp d (mem_of_mem_part hlog hx))

theorem value_counter (tag user : String) (d : Direction) :
    (memoryAfter (interleave rounds events).log).value tag user (.counter d) =
      counted (workers events) tag user d (interleave rounds events).log := by
  unfold Memory.value
  rcases hp : (memoryAfter (interleave rounds events).log).ptr tag user with _ | p
  · refine (List.sum_eq_zero fun n hn => ?_).symm
    obtain ⟨x, hx, rfl⟩ := List.mem_map.1 hn
    exact counts_of_no_ptr hp d hx
  · rw [counted_of_ptr hp d (List.append_nil _).symm]
    exact storages_memoryAfter _ _ _

theorem value_committed (tag user : String) (d : Direction) :
    (memoryAfter (interleave rounds events).log).value tag user (.committed d) =
      own (memoryAfter (interleave rounds events).log) (callsOf 0 (interleave rounds events).log) tag user d := by
  unfold Memory.value own
  simp only [storages_memoryAfter, total_committed_callsOf (List.append_nil _).symm]

/-- The syncer is done, or about to begin a flush. -/
def Idle : Thread → Prop
  | .done _ => True
  | .call (.nextTag []) _ => True
  | _ => False

theorem KeepsBooks.ledger {M : Memory} {past : List LogEntry} {q : Thread} (h : KeepsBooks M past q) :
    ∃ rem, Ledger M past rem ∧ (Idle q → rem = 0) := by
  cases q with
  | done a => exact ⟨0, h, fun _ => rfl⟩
  | call c next =>
    obtain ⟨rem, hl, hrem⟩ := h.1.ledger
    refine ⟨rem, hl, fun hidle => ?_⟩
    cases c with
    | nextTag seen =>
      cases seen with
      | nil => exact hrem rfl
      | cons tag seen => exact hidle.elim
    | _ => exact hidle.elim

/-- The syncer keeps its books in every run. -/
theorem books_run (rounds : List Round) (events : List Event) :
    (∀ before x after, (interleave rounds events).log = before ++ x :: after → x.thread = 0 →
      Accounted (memoryAfter (interleave rounds events).log) (callsOf 0 before) x.call) ∧
    ∃ q, (interleave rounds events).progs[0]? = some q ∧
      KeepsBooks (memoryAfter (interleave rounds events).log) (callsOf 0 (interleave rounds events).log) q := by
  have hp : (arrivals (.arrive (syncer rounds) :: events.map Event.turn))[0]? = some (syncer rounds) := by
    rw [arrivals_interleave]
    rfl
  exact under_run exec Memory.new hp (syncer_under (ok_memoryAfter _) rounds (ledger_nil _))
    fun before x after h _ => relies_run before x after h

section Books

variable {log rest : List LogEntry} (hlog : (interleave rounds events).log = log ++ rest) {tag user : String}
  {d : Direction}

include hlog

theorem Loaded.le_counted {p : ℕ} (hp : (memoryAfter (interleave rounds events).log).ptr tag user = some p) {v : ℤ}
    (h : Loaded (callsOf 0 log) p d v) : v ≤ counted (workers events) tag user d log := by
  rw [counted_of_ptr hp d hlog]
  exact (h.mono List.filter_sublist.subset).le_total hlog

theorem counted_nonneg : 0 ≤ counted (workers events) tag user d log := by
  refine List.sum_nonneg fun n hn => ?_
  obtain ⟨x, hx, rfl⟩ := List.mem_map.1 hn
  have hx := mem_of_mem_part hlog hx
  rcases hp : (memoryAfter (interleave rounds events).log).ptr tag user with _ | p
  · exact (counts_of_no_ptr hp d hx).ge
  · rw [counts_of_ptr hp d hx]
    exact added_counter_nonneg hx p d

theorem Ledger.settled_le {rem : String → String → Direction → ℤ}
    (h : Ledger (memoryAfter (interleave rounds events).log) (callsOf 0 log) rem) :
    settled tag user d log ≤ counted (workers events) tag user d log := by
  rw [← settled_callsOf hlog]
  obtain hzero | ⟨p, v, hp, hv, hle⟩ := h.loaded tag user d
  · rw [hzero]
    exact counted_nonneg hlog
  · exact hle.trans (hv.le_counted hlog hp)

end Books

/-- **No byte twice.** However the operations of the goroutines follow each other: the counters of a key hold what its
connections have counted; what is committed has been settled, what is settled has been counted, and between two
flushes all that is settled is committed; and what a push reports has been counted and was never settled before. -/
theorem interleaved_billing (rounds : List Round) (events : List Event) (tag user : String) (d : Direction) :
    let P := interleave rounds events
    P.state.value tag user (.counter d) = counted (workers events) tag user d P.log ∧
      0 ≤ P.state.value tag user (.committed d) ∧
      P.state.value tag user (.committed d) ≤ settled tag user d P.log ∧
      settled tag user d P.log ≤ counted (workers events) tag user d P.log ∧
      (∀ q, P.progs[0]? = some q → Idle q → P.state.value tag user (.committed d) = settled tag user d P.log) ∧
      ∀ before i e delta reply after amount, P.log = before ++ ⟨i, e, .push delta, reply⟩ :: after →
        lookup₂ delta tag user = some amount →
        0 ≤ d.of amount ∧ settled tag user d before + d.of amount ≤ counted (workers events) tag user d before := by
  intro P
  have hstate : P.state = memoryAfter P.log := (logged_run exec Memory.new _).1
  have hall : P.log = P.log ++ [] := (List.append_nil _).symm
  obtain ⟨hcalls, q, hq, hbooks⟩ := books_run rounds events
  obtain ⟨rem, hl, hidle⟩ := hbooks.ledger
  have hbalance := hl.balance tag user d
  rw [settled_callsOf hall, ← value_committed, ← hstate] at hbalance
  have hrem := hl.rem_nonneg tag user d
  refine ⟨?_, ?_, ?_, hl.settled_le hall, fun q' hq' hi => ?_, ?_⟩
  · rw [hstate]
    exact value_counter tag user d
  · rw [hstate, value_committed]
    exact hl.own_nonneg tag user d
  · omega
  · cases hq.symm.trans hq'
    rw [hidle hi] at hbalance
    exact (hbalance.trans (add_zero _)).symm
  · intro before i e delta reply after amount hlog hamount
    have hmem : ⟨i, e, .push delta, reply⟩ ∈ (interleave rounds events).log := by
      rw [show (interleave rounds events).log = _ from hlog]
      simp
    have hthread := thread_eq_zero_of_push hmem rfl
    obtain ⟨hl, hdelta⟩ := (hcalls before _ after hlog hthread).push delta rfl
    obtain ⟨p, hp, hpushed⟩ := hdelta.key hamount
    obtain ⟨hpos, v, hv, hsum⟩ := hpushed d
    refine ⟨hpos, ?_⟩
    have hsettled : settled tag user d before = total p (.committed d) (callsOf 0 before) := by
      rw [← settled_callsOf hlog, hl.balance, own_of_ptr hp]
      exact add_zero _
    rw [hsettled, hsum]
    exact hv.le_counted hlog hp

end Run

end MiniSbAgent.Agent.Interleaving
