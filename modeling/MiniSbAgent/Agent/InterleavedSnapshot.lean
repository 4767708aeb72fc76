import MiniSbAgent.Agent.InterleavedBilling

/-!
# No byte forgotten, in every interleaving

What a push reports has been counted and was never settled before.  It is also all there was to report: a snapshot
reads each counter once, and what it makes of the value is pushed as it is, however long the snapshot takes and
whatever is counted meanwhile.

* `ReadNow` — what the present flush has read;
* `Tallies` — the amounts make up what was read;
* `snapshotUsers_exact`, `snapshotTags_exact` — the loops of a snapshot keep the tally;
* `interleaved_exact` — what was settled before and what is pushed are together what had been counted when the counter
  was read.
-/

namespace MiniSbAgent.Agent.Interleaving

open MiniSbAgent.Go MiniSbAgent.Lib MiniSbAgent.Counter MiniSbAgent.Panelapi Memory

/-! ### What the present flush has read -/

/-- Only a flush begins with a loop over the tags that has met none. -/
def beginsFlush : Call → Bool
  | .nextTag [] => true
  | _ => false

/-- The calls of the present flush. -/
def sinceFlush (past : List LogEntry) : List LogEntry :=
  past.foldl (fun now x => if beginsFlush x.call then [] else now ++ [x]) []

theorem sinceFlush_concat (past : List LogEntry) (x : LogEntry) :
    sinceFlush (past ++ [x]) = if beginsFlush x.call then [] else sinceFlush past ++ [x] := by
  unfold sinceFlush
  rw [List.foldl_append]
  rfl

def ReadNow (past : List LogEntry) (p : ℕ) (d : Direction) (v : ℤ) : Prop := Loaded (sinceFlush past) p d v

section ReadNow

variable {past : List LogEntry} {p : ℕ} {d : Direction} {v : ℤ} {x : LogEntry}

theorem not_readNow_of_begins (h : beginsFlush x.call = true) : ¬ ReadNow (past ++ [x]) p d v := by
  rintro ⟨y, hy, -⟩
  rw [sinceFlush_concat, if_pos h] at hy
  cases hy

theorem readNow_concat (h : beginsFlush x.call = false) :
    ReadNow (past ++ [x]) p d v ↔ ReadNow past p d v ∨ LoadsCounter p d v x.call x.result := by
  unfold ReadNow Loaded
  rw [sinceFlush_concat, if_neg (by simp [h])]
  simp [or_and_right, exists_or]

theorem readNow_append {log : List LogEntry} (h : ReadNow past p d v) (hlog : ∀ x ∈ log, beginsFlush x.call = false) :
    ReadNow (past ++ log) p d v := by
  induction log using List.reverseRecOn with
  | nil => rwa [List.append_nil]
  | append_singleton log x ih =>
    rw [← List.append_assoc, readNow_concat (hlog x (by simp))]
    exact .inl (ih fun y hy => hlog y (List.mem_append_left _ hy))

end ReadNow

/-! ### Tallies -/

/-- A loop meets a key once. -/
def NewKey : (c : Call) → c.Result → Prop
  | .nextTag seen, r => ∀ tag ct, r = some (tag, ct) → tag ∉ seen
  | .nextUser _ seen, r => ∀ user p, r = some (user, p) → user ∉ seen
  | _, _ => True

/-- A counter holds what is committed, at least. -/
def Covers (M : Memory) (past : List LogEntry) : (c : Call) → c.Result → Prop
  | .load p (.counter d), r => ∀ tag user, M.ptr tag user = some p → total p (.committed d) past ≤ r
  | _, _ => True

/-- What the snapshot relies on. -/
structure Reads (M : Memory) (past : List LogEntry) (c : Call) (r : c.Result) : Prop where
  relies : Relies M past c r
  newKey : NewKey c r
  covers : Covers M past c r

/-- With what is committed, the amounts make up what the flush has read, and it has read only keys that were met. -/
def Tallies (M : Memory) (past : List LogEntry) (met : String → String → Prop)
    (amount : String → String → Direction → ℤ) : Prop :=
  ∀ tag user p, M.ptr tag user = some p → ∀ d v, ReadNow past p d v →
    met tag user ∧ total p (.committed d) past + amount tag user d = v

/-- What is pushed is the whole of what was read. -/
def PushExact (M : Memory) (past : List LogEntry) (c : Call) : Prop :=
  ∀ delta, c = .push delta → Tallies M past (fun _ _ => True) (amountIn delta)

abbrev KeepsExact (M : Memory) (past : List LogEntry) (t : Thread) : Prop :=
  t.Under (Reads M) (PushExact M) (fun _ _ => True) past

theorem pushExact_of_ne {M : Memory} {past : List LogEntry} {c : Call} (h : ∀ delta, c ≠ .push delta) :
    PushExact M past c := fun delta heq => (h delta heq).elim

theorem Tallies.read {M : Memory} {past : List LogEntry} {met : String → String → Prop}
    {amount : String → String → Direction → ℤ} (h : Tallies M past met amount) (x : LogEntry) (hx : ReaderCall x.call)
    (hbegins : beginsFlush x.call = false) (hload : ∀ p d v, ¬ LoadsCounter p d v x.call x.result) :
    Tallies M (past ++ [x]) met amount := by
  intro tag user p hp d v hv
  rw [readNow_concat hbegins, or_iff_left (hload p d v)] at hv
  rw [total_read x hx]
  exact h tag user p hp d v hv

/-! ### The snapshot -/

section Snapshot

variable {M : Memory}

/-- The amounts while the users of a tag are read. -/
def withUsers (outer : Delta) (tag : String) (out : GoMap String (ℤ × ℤ)) (tag' user : String) (d : Direction) : ℤ :=
  if tag' = tag then ((out.lookup user).map d.of).getD 0 else amountIn outer tag' user d

/-- The keys that have been met then. -/
def MetUsers (tags : List String) (tag : String) (seen : List String) (tag' user : String) : Prop :=
  tag' ∈ tags ∨ tag' = tag ∧ user ∈ seen

section Visit

variable {past : List LogEntry} {outer : Delta} {tag : String} {tags seen : List String} {out : GoMap String (ℤ × ℤ)}
  {ct : ℕ} {user : String} {p : ℕ} (up cup down cdown : ℤ)

/-- What the snapshot makes of the values it has read. -/
def visited (out : GoMap String (ℤ × ℤ)) (user : String) (up cup down cdown : ℤ) : GoMap String (ℤ × ℤ) :=
  if 0 < up - cup ∨ 0 < down - cdown then out.insert user (up - cup, down - cdown) else out

theorem lookup_visited_ne {user' : String} (hne : user' ≠ user) :
    (visited out user up cup down cdown).lookup user' = out.lookup user' := by
  unfold visited
  split_ifs
  · rw [lookup_insert_of, if_neg hne]
  · rfl

variable {up cup down cdown}

/-- An amount that is left out is zero. -/
theorem lookup_visited (hout : out.lookup user = none) (hup : cup ≤ up) (hdown : cdown ≤ down) (d : Direction) :
    (((visited out user up cup down cdown).lookup user).map d.of).getD 0 = d.of (up - cup, down - cdown) := by
  unfold visited
  split_ifs with hpos
  · rw [lookup_insert_of, if_pos rfl]
    rfl
  · rw [hout]
    cases d <;> simp only [Option.map_none, Option.getD_none, Direction.of] <;> omega

/-- One user is read. -/
theorem tallies_visit (hM : M.Ok) (htag : M.byInbound.lookup tag = some ct) (hnew : tag ∉ tags)
    (hp : (M.counters ct).lookup user = some p) (huser : user ∉ seen) (hout : out.lookup user = none)
    (h : Tallies M past (MetUsers tags tag seen) (withUsers outer tag out)) {i₁ i₂ i₃ i₄ : ℕ} {e₁ e₂ e₃ e₄ : Env}
    (hup : cup ≤ up) (hcup : cup = total p (.committed .up) past) (hdown : cdown ≤ down)
    (hcdown : cdown = total p (.committed .down) past) :
    Tallies M (past ++ [⟨i₁, e₁, .load p (.counter .up), up⟩] ++ [⟨i₂, e₂, .load p (.committed .up), cup⟩] ++
        [⟨i₃, e₃, .load p (.counter .down), down⟩] ++ [⟨i₄, e₄, .load p (.committed .down), cdown⟩])
      (MetUsers tags tag (user :: seen)) (withUsers outer tag (visited out user up cup down cdown)) := by
  have hptr : M.ptr tag user = some p := ptr_eq_some.2 ⟨ct, htag, hp⟩
  intro tag' user' q hq d v hv
  have htotal : ∀ (i : ℕ) (e : Env) (f : Field) (r : ℤ) (past : List LogEntry),
      total q (.committed d) (past ++ [⟨i, e, .load p f, r⟩]) = total q (.committed d) past :=
    fun i e f r past => total_read ⟨i, e, .load p f, r⟩ trivial q _
  have hreads : ∀ (i : ℕ) (e : Env) (f : Field) (r : ℤ) (past : List LogEntry),
      ReadNow (past ++ [⟨i, e, .load p f, r⟩]) q d v ↔ ReadNow past q d v ∨ LoadsCounter q d v (.load p f) r :=
    fun i e f r past => readNow_concat rfl
  simp only [htotal]
  simp only [hreads, LoadsCounter, or_false] at hv
  by_cases hkey : tag' = tag ∧ user' = user
  · obtain ⟨rfl, rfl⟩ := hkey
    obtain rfl : p = q := Option.some.inj (hptr.symm.trans hq)
    refine ⟨.inr ⟨rfl, List.mem_cons_self⟩, ?_⟩
    rw [withUsers, if_pos rfl, lookup_visited hout hup hdown]
    -- it has not been read before
    rcases hv with (hv | ⟨⟨-, rfl⟩, rfl⟩) | ⟨⟨-, rfl⟩, rfl⟩
    · rcases (h _ _ _ hptr d v hv).1 with hmem | ⟨-, hmem⟩
      · exact (hnew hmem).elim
      · exact (huser hmem).elim
    · show total p _ past + (up - cup) = up
      omega
    · show total p _ past + (down - cdown) = down
      omega
  · -- another key has another storage
    have hne : p ≠ q := by
      rintro rfl
      exact hkey (hM.ptr_inj hq hptr)
    rw [or_iff_left (fun h => hne h.1.1), or_iff_left (fun h => hne h.1.1)] at hv
    obtain ⟨hmet, hsum⟩ := h tag' user' q hq d v hv
    refine ⟨hmet.imp_right fun hmet => ⟨hmet.1, List.mem_cons_of_mem _ hmet.2⟩, ?_⟩
    rw [← hsum]
    unfold withUsers
    split_ifs with htag'
    · rw [lookup_visited_ne _ _ _ _ fun huser' => hkey ⟨htag', huser'⟩]
    · rfl

end Visit

/-- The amounts of a tag are entered. -/
theorem withUsers_eq {outer : Delta} {tag : String} (houter : outer.lookup tag = none) (delta : GoMap String (ℤ × ℤ)) :
    withUsers outer tag delta = amountIn (if isEmpty delta then outer else outer.insert tag delta) := by
  funext tag' user d
  unfold withUsers amountIn lookup₂
  by_cases htag : tag' = tag
  · subst htag
    rw [if_pos rfl]
    split_ifs with hempty
    · rw [houter]
      rw [(isEmpty_iff delta).1 hempty user]
      rfl
    · rw [lookup_insert_of, if_pos rfl]
      rfl
  · rw [if_neg htag]
    split_ifs
    · rfl
    · rw [lookup_insert_of, if_neg htag]

variable (hM : M.Ok)

include hM

theorem snapshotUsers_exact (outer : Delta) {tag : String} {tags : List String} {ct : ℕ}
    (htag : M.byInbound.lookup tag = some ct) (hnew : tag ∉ tags) {k : GoMap String (ℤ × ℤ) → Thread}
    (hk : ∀ past seen out, Tallies M past (MetUsers tags tag seen) (withUsers outer tag out) →
      KeepsExact M past (k out))
    (visits : ℕ) {seen : List String} {out : GoMap String (ℤ × ℤ)} {past : List LogEntry}
    (hout : ∀ user ∉ seen, out.lookup user = none)
    (h : Tallies M past (MetUsers tags tag seen) (withUsers outer tag out)) :
    KeepsExact M past (snapshotUsers ct k visits seen out) := by
  induction visits generalizing seen out past with
  | zero => exact hk past seen out h
  | succ visits ih =>
    refine ⟨pushExact_of_ne (by simp), fun i e r hr => ?_⟩
    have h0 := h.read ⟨i, e, .nextUser ct seen, r⟩ trivial rfl fun _ _ _ hl => hl
    match r, hr, h0 with
    | none, _, h0 => exact hk _ seen out h0
    | some (user, p), hr, h0 =>
      have hp : (M.counters ct).lookup user = some p := hr.relies.user ⟨rfl, rfl⟩
      have huser : user ∉ seen := hr.newKey user p rfl
      have hptr : M.ptr tag user = some p := ptr_eq_some.2 ⟨ct, htag, hp⟩
      generalize past ++ [⟨i, e, .nextUser ct seen, some (user, p)⟩] = past at h0 ⊢
      refine ⟨pushExact_of_ne (by simp), fun i₁ e₁ (up : ℤ) hup => ?_⟩
      refine ⟨pushExact_of_ne (by simp), fun i₂ e₂ (cup : ℤ) hcup => ?_⟩
      refine ⟨pushExact_of_ne (by simp), fun i₃ e₃ (down : ℤ) hdown => ?_⟩
      refine ⟨pushExact_of_ne (by simp), fun i₄ e₄ (cdown : ℤ) hcdown => ?_⟩
      -- what was committed did not change while the four values were read
      have htotal : ∀ (i : ℕ) (e : Env) (f : Field) (r : ℤ) (past : List LogEntry) (d : Direction),
          total p (.committed d) (past ++ [⟨i, e, .load p f, r⟩]) = total p (.committed d) past :=
        fun i e f r past d => total_read ⟨i, e, .load p f, r⟩ trivial p _
      have hup : total p (.committed .up) past ≤ up := hup.covers tag user hptr
      have hcup : cup = total p (.committed .up) _ := hcup.relies.remembers
      have hdown : total p (.committed .down) _ ≤ down := hdown.covers tag user hptr
      have hcdown : cdown = total p (.committed .down) _ := hcdown.relies.remembers
      rw [htotal] at hcup
      rw [htotal, htotal] at hdown
      rw [htotal, htotal, htotal] at hcdown
      refine ih (fun user' huser' => ?_) (tallies_visit hM htag hnew hp huser (hout user huser) h0 (hcup ▸ hup) hcup
        (hcdown ▸ hdown) hcdown)
      rw [List.mem_cons, not_or] at huser'
      exact (lookup_visited_ne up cup down cdown huser'.1).trans (hout user' huser'.2)

theorem snapshotTags_exact {k : Delta → Thread} {users : ℕ}
    (hk : ∀ past delta, Tallies M past (fun _ _ => True) (amountIn delta) ∨ delta = ∅ → KeepsExact M past (k delta))
    (visits : ℕ) {seen : List String} {out : Delta} {past : List LogEntry} (hout : ∀ tag ∉ seen, out.lookup tag = none)
    (h : seen ≠ [] → Tallies M past (fun tag _ => tag ∈ seen) (amountIn out)) (hempty : seen = [] → out = ∅) :
    KeepsExact M past (snapshotTags users k visits seen out) := by
  induction visits generalizing seen out past with
  | zero =>
    refine hk past out ?_
    by_cases hseen : seen = []
    · exact .inr (hempty hseen)
    · exact .inl fun tag user p hp d v hv => ⟨trivial, (h hseen tag user p hp d v hv).2⟩
  | succ visits ih =>
    refine ⟨pushExact_of_ne (by simp), fun i e r hr => ?_⟩
    -- the first call of the loop begins the flush, and nothing has been read yet
    have h0 : Tallies M (past ++ [⟨i, e, .nextTag seen, r⟩]) (fun tag _ => tag ∈ seen) (amountIn out) := by
      cases seen with
      | nil => exact fun tag user p _ d v hv => (not_readNow_of_begins rfl hv).elim
      | cons tag seen => exact (h (List.cons_ne_nil _ _)).read _ trivial rfl fun _ _ _ hl => hl
    match r, hr, h0 with
    | none, _, h0 => exact hk _ out (.inl fun tag user p hp d v hv => ⟨trivial, (h0 tag user p hp d v hv).2⟩)
    | some (tag, ct), hr, h0 =>
      have htag : M.byInbound.lookup tag = some ct := hr.relies.tag rfl
      have hnew : tag ∉ seen := hr.newKey tag ct rfl
      have hnone := hout tag hnew
      refine snapshotUsers_exact hM out htag hnew (fun past seen' delta h => ?_) _ (fun _ _ => rfl) ?_
      · refine ih (fun tag' htag' => ?_) (fun _ => ?_) (fun hnil => (List.cons_ne_nil _ _ hnil).elim)
        · rw [List.mem_cons, not_or] at htag'
          split_ifs
          · exact hout tag' htag'.2
          · rw [lookup_insert_of, if_neg htag'.1]
            exact hout tag' htag'.2
        · rw [← withUsers_eq hnone]
          intro tag' user p hp d v hv
          obtain ⟨hmet, hsum⟩ := h tag' user p hp d v hv
          refine ⟨?_, hsum⟩
          rcases hmet with hmet | ⟨rfl, -⟩
          · exact List.mem_cons_of_mem _ hmet
          · exact List.mem_cons_self
      · intro tag' user p hp d v hv
        obtain ⟨hmet, hsum⟩ := h0 tag' user p hp d v hv
        refine ⟨.inl hmet, ?_⟩
        have hne : tag' ≠ tag := fun heq => hnew (heq ▸ hmet)
        rw [withUsers, if_neg hne]
        exact hsum

end Snapshot

/-! ### The syncer -/

section Syncer

variable {M : Memory}

theorem commitUsers_exact {c : ℕ} {k : Thread} (hk : ∀ past, KeepsExact M past k)
    (users : List ((_ : String) × ℤ × ℤ)) (past : List LogEntry) : KeepsExact M past (commitUsers c k users) := by
  induction users generalizing past with
  | nil => exact hk past
  | cons e users ih =>
    refine ⟨pushExact_of_ne (by simp), fun _ _ r _ => ?_⟩
    cases r with
    | none => exact ih _
    | some p => exact ⟨pushExact_of_ne (by simp), fun _ _ _ _ => ⟨pushExact_of_ne (by simp), fun _ _ _ _ => ih _⟩⟩

theorem commitTags_exact {users : String → RangeOrder ((_ : String) × ℤ × ℤ)} {k : Thread}
    (hk : ∀ past, KeepsExact M past k) (tags : List ((_ : String) × GoMap String (ℤ × ℤ))) (past : List LogEntry) :
    KeepsExact M past (commitTags users k tags) := by
  induction tags generalizing past with
  | nil => exact hk past
  | cons e tags ih =>
    refine ⟨pushExact_of_ne (by simp), fun _ _ r _ => ?_⟩
    cases r with
    | none => exact ih _
    | some c => exact commitUsers_exact ih _ _

theorem syncer_exact (hM : M.Ok) (rounds : List Round) (past : List LogEntry) :
    KeepsExact M past (syncer rounds) := by
  induction rounds generalizing past with
  | nil => trivial
  | cons round rounds ih =>
    refine snapshotTags_exact hM (fun past delta hdelta => ?_) _ (fun _ _ => rfl) (fun h => (h rfl).elim) fun _ => rfl
    split_ifs with hskip
    · exact ih past
    · refine ⟨fun delta' heq => ?_, fun _ _ reply _ => ?_⟩
      · cases heq
        refine hdelta.resolve_right fun hempty => hskip (.inl ?_)
        rw [hempty]
        rfl
      · simp only
        split
        · exact ih _
        · exact commitTags_exact ih _ _

end Syncer

/-! ### Runs -/

theorem not_mem_of_visitNext {e : Env} {m : GoMap String ℕ} {seen : List String} {k : String} {v : ℕ}
    (h : visitNext e m seen = some (k, v)) : k ∉ seen := by
  obtain ⟨i, -, hi⟩ := Option.bind_eq_some_iff.1 h
  obtain ⟨⟨k', v'⟩, hmem, heq⟩ := List.mem_map.1 (List.mem_of_getElem? hi)
  cases heq
  exact of_decide_eq_true (List.mem_filter.1 hmem).2

section Run

variable {rounds : List Round} {events : List Event}

/-- **What the others leave the snapshot.** -/
theorem reads_run (before : List LogEntry) (x : LogEntry) (after : List LogEntry)
    (h : (interleave rounds events).log = before ++ x :: after) (hthread : x.thread = 0) :
    Reads (memoryAfter (interleave rounds events).log) (callsOf 0 before) x.call x.result := by
  have hres := (logged_run exec Memory.new _).2 before x after h
  have hrelies := relies_run before x after h
  obtain ⟨rem, hl, -⟩ := ((books_run rounds events).1 before x after h hthread).ledger
  refine ⟨hrelies, ?_, ?_⟩
  · obtain ⟨i, e, c, r⟩ := x
    cases c with
    | nextTag seen => exact fun tag ct hr => not_mem_of_visitNext (hres.symm.trans hr)
    | nextUser ct seen => exact fun user p hr => not_mem_of_visitNext (hres.symm.trans hr)
    | _ => trivial
  · obtain ⟨i, e, c, r⟩ := x
    cases c with
    | load p f =>
      cases f with
      | committed d => trivial
      | counter d =>
        intro tag user hp
        obtain ⟨hpos, hgrown⟩ : Grown (callsOf 0 before) p d r := hrelies.remembers
        have hbalance := hl.balance tag user d
        have hrem := hl.rem_nonneg tag user d
        rw [own_of_ptr hp] at hbalance
        -- what is committed has been settled, and what is settled was read
        obtain hzero | ⟨q, v, hq, hv, hle⟩ := hl.loaded tag user d
        · have : total p (.committed d) (callsOf 0 before) ≤ 0 := by omega
          exact this.trans hpos
        · cases hq.symm.trans hp
          have : total p (.committed d) (callsOf 0 before) ≤ v := by omega
          exact this.trans (hgrown v hv)
    | _ => trivial

/-- Every push is the whole of what its flush has read. -/
theorem exact_run {before after : List LogEntry} {x : LogEntry}
    (h : (interleave rounds events).log = before ++ x :: after) (hthread : x.thread = 0) :
    PushExact (memoryAfter (interleave rounds events).log) (callsOf 0 before) x.call := by
  have hp : (arrivals (.arrive (syncer rounds) :: events.map Event.turn))[0]? = some (syncer rounds) := by
    rw [arrivals_interleave]
    rfl
  exact (under_run exec Memory.new hp (syncer_exact (ok_memoryAfter _) rounds []) reads_run).1 before x after h hthread

theorem settles_of_takes {tag user : String} {reply : PanelPush} (h : Takes reply tag)
    (hnum : isNumericUser user = true) (delta : Delta) (d : Direction) :
    settles tag user d (.push delta) reply = amountIn delta tag user d := if_pos ⟨hnum, h⟩

end Run

/-- **No byte forgotten.** Take a flush that has read a counter and then pushes.  However many bytes are counted
meanwhile, what was settled before and what is pushed are together what had been counted when the counter was read;
and when the panel takes it, all of this is settled. -/
theorem interleaved_exact (rounds : List Round) (events : List Event) {start mid after : List LogEntry}
    {tag user : String} {d : Direction} {p j : ℕ} {v : ℤ} {e e' : Env} {delta : Delta} {reply : PanelPush}
    (hlog : (interleave rounds events).log =
      start ++ ⟨0, e, .load p (.counter d), v⟩ :: (mid ++ ⟨j, e', .push delta, reply⟩ :: after))
    (hmid : ∀ x ∈ mid, x.thread = 0 → beginsFlush x.call = false)
    (hp : (interleave rounds events).state.ptr tag user = some p) :
    settled tag user d (start ++ ⟨0, e, .load p (.counter d), v⟩ :: mid) + amountIn delta tag user d =
        counted (workers events) tag user d start ∧
      (isNumericUser user = true → Takes reply tag →
        settled tag user d (start ++ ⟨0, e, .load p (.counter d), v⟩ :: (mid ++ [⟨j, e', .push delta, reply⟩])) =
          counted (workers events) tag user d start) := by
  set read : LogEntry := ⟨0, e, .load p (.counter d), v⟩ with hread
  set push : LogEntry := ⟨j, e', .push delta, reply⟩ with hpush
  have hstate : (interleave rounds events).state = memoryAfter (interleave rounds events).log :=
    (logged_run exec Memory.new _).1
  rw [hstate] at hp
  have hlog' : (interleave rounds events).log = (start ++ read :: mid) ++ push :: after := by
    rw [hlog, List.append_assoc, List.cons_append]
  have hmem : push ∈ (interleave rounds events).log := by
    rw [hlog']
    simp
  have hthread : push.thread = 0 := thread_eq_zero_of_push hmem rfl
  -- the value that was read is what had been counted
  have hv : v = counted (workers events) tag user d start := by
    rw [counted_of_ptr hp d hlog, ← storages_memoryAfter]
    exact (logged_run exec Memory.new _).2 start read _ hlog
  have hnow : ReadNow (callsOf 0 (start ++ read :: mid)) p d v := by
    have hsplit : callsOf 0 (start ++ read :: mid) = callsOf 0 start ++ [read] ++ callsOf 0 mid := by
      rw [callsOf_append, show callsOf 0 (read :: mid) = read :: callsOf 0 mid from callsOf_cons_self read mid,
        List.append_assoc, List.singleton_append]
    rw [hsplit]
    refine readNow_append ((readNow_concat rfl).2 (.inr ⟨⟨rfl, rfl⟩, rfl⟩)) fun x hx => ?_
    obtain ⟨hx, hzero⟩ := List.mem_filter.1 hx
    exact hmid x hx (by simpa using hzero)
  have htally := (exact_run hlog' hthread delta rfl tag user p hp d v hnow).2
  obtain ⟨hl, -⟩ := ((books_run rounds events).1 _ push _ hlog' hthread).push delta rfl
  have hsettled : settled tag user d (start ++ read :: mid) =
      total p (.committed d) (callsOf 0 (start ++ read :: mid)) := by
    rw [← settled_callsOf hlog', hl.balance, own_of_ptr hp]
    exact add_zero _
  have hsum : settled tag user d (start ++ read :: mid) + amountIn delta tag user d =
      counted (workers events) tag user d start := by
    rw [hsettled, htally, hv]
  refine ⟨hsum, fun hnum htakes => ?_⟩
  rw [← List.cons_append, ← List.append_assoc, settled_concat, hpush, settles_of_takes htakes hnum, hsum]

def busyRound : Round := ⟨⟨2, 2⟩, .stored _, fun _ => .stored _⟩

/-- Five bytes are counted before the counter is read, and three more before the push. -/
def busyEvents : List Event :=
  let go : Env := ⟨some 0, ⟨∅, []⟩⟩
  let stop : Env := ⟨none, ⟨∅, []⟩⟩
  .start (.connection "vless-in" "7" [(.up, 5), (.up, 3)]) ::
    (List.replicate 5 (.step 1 go) ++ List.replicate 3 (.step 0 go) ++ [.step 1 go] ++
      List.replicate 3 (.step 0 go) ++ List.replicate 3 (.step 0 stop))

theorem interleaved_exact_busy :
    ∃ start e v mid j e' delta reply, (interleave [busyRound] busyEvents).log =
        start ++ ⟨0, e, .load 1 (.counter .up), v⟩ :: (mid ++ [⟨j, e', .push delta, reply⟩]) ∧
      counted (workers busyEvents) "vless-in" "7" .up (interleave [busyRound] busyEvents).log = 8 ∧
      settled "vless-in" "7" .up
        (start ++ ⟨0, e, .load 1 (.counter .up), v⟩ :: (mid ++ [⟨j, e', .push delta, reply⟩])) = 5 := by
  have hlog : (interleave [busyRound] busyEvents).log =
      (interleave [busyRound] busyEvents).log.take 7 ++
        ⟨0, ⟨some 0, ⟨∅, []⟩⟩, .load 1 (.counter .up), (5 : ℤ)⟩ ::
          (((interleave [busyRound] busyEvents).log.drop 8).take 6 ++
            [⟨0, ⟨none, ⟨∅, []⟩⟩, .push ((∅ : Delta).insert "vless-in" ((∅ : GoMap String (ℤ × ℤ)).insert "7" (5, 0))),
              (⟨∅, []⟩ : PanelPush)⟩]) := by
    rfl
  have hmid : ∀ x ∈ ((interleave [busyRound] busyEvents).log.drop 8).take 6,
      x.thread = 0 → beginsFlush x.call = false := by
    decide +kernel
  have hp : (interleave [busyRound] busyEvents).state.ptr "vless-in" "7" = some 1 := by decide +kernel
  have htaken := (interleaved_exact [busyRound] busyEvents hlog hmid hp).2 (by decide) (.inl rfl)
  refine ⟨_, _, _, _, _, _, _, _, hlog, by decide +kernel, htaken.trans ?_⟩
  decide +kernel

end MiniSbAgent.Agent.Interleaving
