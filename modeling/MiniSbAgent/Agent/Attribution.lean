import MiniSbAgent.Agent.AuthTables
import MiniSbAgent.Counter.Traffic

/-!
# Attribution while users are applied

`ApplyBoxByInbound` edits the inbounds one call at a time, and only at its end commits the users, their aliases and
their limiters under one lock.  Connections arrive in between: the inbound authenticates them by its own tables, and
the tracker wires them to a counter and to limiters by what the manager has committed.

The machine here interleaves both.  `begin` starts a call, `advance` is its next step (`DelUsers` or `AddUsers` of one
inbound, at last the commit) and `connect` is a connection that presents something to an inbound.  The authentication
services are the parameter `auth`: of them it is known only that they name a user they were handed, with a credential
that the presented value stands for.

* `inForce s tag` — the users that the inbound serves: the new list from its `AddUsers` on;
* `Inv`, `inv_run` — at every moment an inbound names its connections by credentials of its service;
* `attributed_of_known` — a connection is wired to the counter and the limiters of its user when the manager has
  committed the user with every credential of the inbound that it may stand for, and nobody else with one of them;
* `unattributed_before_commit` — a new user that connects before the commit is wired to neither.
-/

namespace MiniSbAgent.Agent.Attribution

open MiniSbAgent.Go MiniSbAgent.Lib.Roster MiniSbAgent.Panelapi MiniSbAgent.Counter

/-! ### The machine -/

/-- What a connection is wired to when it opens, for as long as it lasts. -/
structure Wiring where
  counter : ℕ
  limits : UserManager.Limits
deriving Repr, DecidableEq

/-- `RoutedConnection` and `RoutedPacketConnection`; a connection without a user is not tracked. -/
def routedConnection (build : Bool) (m : UserManager) (h : Hook) (tag user : String) : Option (Hook × Wiring) :=
  if user = "" then none
  else
    let counter := h.getCounter tag (m.resolve user)
    some (counter.1, ⟨counter.2, m.directionalLimiters build user⟩)

/-- A call under way: the inbounds that are still to be edited, and whether the first of them has had its
`DelUsers`. -/
structure Applying where
  call : Call
  todo : List String
  deleted : Bool

structure State where
  box : Box
  hook : Hook
  applying : Option Applying
  conns : List Wiring

/-- A new agent with the given inbounds. -/
def start (now : Direction → ℚ) (nodeMbps : ℤ) (inbounds : GoMap String Inbound) : State :=
  ⟨⟨.new now nodeMbps, inbounds⟩, .new, none, []⟩

/-- The inbounds with one of them edited. -/
def edit (inbounds : GoMap String Inbound) (tag : String) (f : Inbound → Inbound) : GoMap String Inbound :=
  collect (fun t raw => some (if t = tag then f raw else raw)) inbounds

inductive Event (π : Type) where
  | begin (call : Call) (order : RangeOrder ((_ : String) × Inbound))
  | advance
  | connect (tag : String) (presented : π)

section Machine

variable {π : Type} (auth : Services π) (build : Bool)

/-- The next step of the call under way. -/
def advance (s : State) : State :=
  match s.applying with
  | none => s
  | some a =>
    match a.todo, a.deleted with
    | [], _ =>
      { s with
        box := ⟨s.box.manager.commit build a.call.orders a.call.clock a.call.usersByInbound, s.box.inbounds⟩
        applying := none }
    | tag :: _, false =>
      { s with
        box := ⟨s.box.manager, edit s.box.inbounds tag fun raw =>
          deleteRemoved a.call.orders tag raw (a.call.list tag) (s.box.manager.snapshot tag)⟩
        applying := some { a with deleted := true } }
    | tag :: todo, true =>
      { s with
        box := ⟨s.box.manager, edit s.box.inbounds tag fun raw =>
          addAdded a.call.orders tag raw (a.call.list tag) (s.box.manager.snapshot tag)⟩
        applying := some ⟨a.call, todo, false⟩ }

/-- A connection that the inbound accepts is routed. -/
def connect (s : State) (tag : String) (presented : π) : State :=
  match (s.box.inbounds.lookup tag).bind fun raw => raw.accept auth presented with
  | none => s
  | some user =>
    match routedConnection build s.box.manager s.hook tag user with
    | none => s
    | some (hook, w) => { s with hook := hook, conns := s.conns ++ [w] }

def step (s : State) : Event π → State
  | .begin call order =>
    -- `applyMu` lets one call run at a time
    match s.applying with
    | some _ => s
    | none => { s with applying := some ⟨call, (order.visit s.box.inbounds.entries).map Sigma.fst, false⟩ }
  | .advance => advance build s
  | .connect tag presented => connect auth build s tag presented

def run (s : State) (events : List (Event π)) : State := events.foldl (step auth build) s

end Machine

section Steps

variable (build : Bool) (box : Box) (hook : Hook) (call : Call) (tag : String) (todo : List String)
  (conns : List Wiring)

theorem advance_delete :
    advance build ⟨box, hook, some ⟨call, tag :: todo, false⟩, conns⟩ =
      ⟨⟨box.manager, edit box.inbounds tag fun raw =>
          deleteRemoved call.orders tag raw (call.list tag) (box.manager.snapshot tag)⟩, hook,
        some ⟨call, tag :: todo, true⟩, conns⟩ := rfl

theorem advance_add :
    advance build ⟨box, hook, some ⟨call, tag :: todo, true⟩, conns⟩ =
      ⟨⟨box.manager, edit box.inbounds tag fun raw =>
          addAdded call.orders tag raw (call.list tag) (box.manager.snapshot tag)⟩, hook,
        some ⟨call, todo, false⟩, conns⟩ := rfl

end Steps

/-- **The users in force on an inbound.** -/
def inForce (s : State) (tag : String) : GoMap ℤ User :=
  match s.applying with
  | none => s.box.manager.snapshot tag
  | some a => if tag ∈ a.todo then s.box.manager.snapshot tag else usersByID (a.call.list tag)

/-- The roster that the tables of an inbound are at. -/
noncomputable def target (s : State) (tag : String) (cred : User → String) : ℤ → Option String :=
  match s.applying with
  | none => roster cred (s.box.manager.snapshot tag)
  | some a =>
    if a.deleted = true ∧ a.todo.head? = some tag then
      keptRoster cred (s.box.manager.snapshot tag) (usersByID (a.call.list tag))
    else if tag ∈ a.todo then roster cred (s.box.manager.snapshot tag)
    else roster cred (usersByID (a.call.list tag))

/-! ### The invariant -/

variable {π : Type} {auth : Services π} {build : Bool}

/-- The aliases are those of the committed users, and each of these has its limiters. -/
structure Committed (build : Bool) (m : UserManager) : Prop where
  keyed : ∀ tag, Keyed (m.snapshot tag)
  secrets : ∃ o, m.bySecret = secretsFrom o m.users
  limited : build = true → ∀ id, id ∈ m.users → id ∈ m.limiters

structure Inv (build : Bool) (s : State) : Prop where
  committed : Committed build s.box.manager
  nodup : ∀ a, s.applying = some a → a.todo.Nodup
  sane : ∀ tag raw, s.box.inbounds.lookup tag = some raw → raw.Sane (target s tag raw.protocol.cred)

theorem committed_new (now : Direction → ℚ) (nodeMbps : ℤ) : Committed build (.new now nodeMbps) :=
  ⟨fun _ => keyed_empty, ⟨.stored _, rfl⟩, fun _ _ h => (nomatch h)⟩

theorem committed_commit (o : Orders) (clock : Clock) (m : UserManager) (lists : GoMap String (List User)) :
    Committed build (m.commit build o clock lists) := by
  refine ⟨fun tag => ?_, ⟨o.secrets, rfl⟩, fun hb id hid => ?_⟩
  · rw [UserManager.snapshot_commit]
    exact keyed_usersByID _
  · subst hb
    exact (LimiterTable.mem_limiters_refresh clock o.limiters o.users m.toLimiterTable
      (UserManager.keyed_unionOf o lists) id).2 hid

theorem lookup_edit (inbounds : GoMap String Inbound) (tag t : String) (f : Inbound → Inbound) :
    (edit inbounds tag f).lookup t = (inbounds.lookup t).map fun raw => if t = tag then f raw else raw := by
  unfold edit
  rw [lookup_collect]
  cases inbounds.lookup t <;> rfl

/-- An edit of one inbound keeps the invariant when the others stay at their rosters. -/
theorem sane_edit {s s' : State} (tag : String) (f : Inbound → Inbound)
    (hs : ∀ t raw, s.box.inbounds.lookup t = some raw → raw.Sane (target s t raw.protocol.cred))
    (hbox : s'.box.inbounds = edit s.box.inbounds tag f)
    (hother : ∀ t cred, t ≠ tag → target s' t cred = target s t cred)
    (hf : ∀ raw, raw.Sane (target s tag raw.protocol.cred) →
      (f raw).Sane (target s' tag (f raw).protocol.cred)) :
    ∀ t raw, s'.box.inbounds.lookup t = some raw → raw.Sane (target s' t raw.protocol.cred) := by
  intro t raw' hl
  rw [hbox, lookup_edit] at hl
  obtain ⟨raw, hraw, rfl⟩ := Option.map_eq_some_iff.1 hl
  by_cases ht : t = tag
  · subst ht
    rw [if_pos rfl]
    exact hf raw (hs t raw hraw)
  · rw [if_neg ht, hother t _ ht]
    exact hs t raw hraw

theorem inv_advance {s : State} (hi : Inv build s) : Inv build (advance build s) := by
  obtain ⟨box, hook, applying, conns⟩ := s
  cases applying with
  | none => exact hi
  | some a =>
    obtain ⟨call, todo, deleted⟩ := a
    have hnodup := hi.nodup _ rfl
    cases todo with
    | nil =>
      -- the commit: every inbound is at its new list already
      refine ⟨committed_commit .., fun _ h => (nomatch h), fun tag raw hl => ?_⟩
      have hs := hi.sane tag raw hl
      have htarget : target (advance build ⟨box, hook, some ⟨call, [], deleted⟩, conns⟩) tag raw.protocol.cred =
          roster raw.protocol.cred (usersByID (call.list tag)) :=
        congrArg (roster raw.protocol.cred) (UserManager.snapshot_commit ..)
      have hbefore : target ⟨box, hook, some ⟨call, [], deleted⟩, conns⟩ tag raw.protocol.cred =
          roster raw.protocol.cred (usersByID (call.list tag)) := by
        simp [target]
      rw [hbefore] at hs
      rw [htarget]
      exact hs
    | cons tag todo =>
      obtain ⟨hnot, htodo⟩ := List.nodup_cons.1 hnodup
      cases deleted with
      | false =>
        rw [advance_delete]
        refine ⟨hi.committed, fun a ha => by cases ha; exact hnodup,
          sane_edit tag (fun raw => deleteRemoved call.orders tag raw (call.list tag) (box.manager.snapshot tag))
            hi.sane rfl ?_ ?_⟩
        · intro t cred ht
          simp [target, Ne.symm ht]
        · intro raw hs
          have hs : raw.Sane (roster raw.protocol.cred (box.manager.snapshot tag)) := by simpa [target] using hs
          rw [deleteRemoved, Inbound.protocol_delete]
          have hdel := hs.delete (call.orders.removed tag) (hi.committed.keyed tag) (usersByID (call.list tag))
          simpa [target, userChanges] using hdel
      | true =>
        rw [advance_add]
        refine ⟨hi.committed, fun a ha => by cases ha; exact htodo,
          sane_edit tag (fun raw => addAdded call.orders tag raw (call.list tag) (box.manager.snapshot tag)) hi.sane
            rfl ?_ ?_⟩
        · intro t cred ht
          simp [target, ht, Ne.symm ht]
        · intro raw hs
          have hs : raw.Sane (keptRoster raw.protocol.cred (box.manager.snapshot tag) (usersByID (call.list tag))) := by
            simpa [target] using hs
          rw [addAdded, Inbound.protocol_add]
          have hadd := hs.add (call.orders.added tag) (keyed_usersByID _)
          simpa [target, hnot, userChanges] using hadd

theorem inv_connect {s : State} (hi : Inv build s) (tag : String) (presented : π) :
    Inv build (connect auth build s tag presented) := by
  unfold connect
  split
  · exact hi
  · split
    · exact hi
    · exact ⟨hi.committed, hi.nodup, hi.sane⟩

theorem inv_step {s : State} (hi : Inv build s) (e : Event π) : Inv build (step auth build s e) := by
  cases e with
  | advance => exact inv_advance hi
  | connect tag presented => exact inv_connect hi tag presented
  | begin call order =>
    obtain ⟨box, hook, applying, conns⟩ := s
    cases applying with
    | some a => exact hi
    | none =>
      refine ⟨hi.committed, fun a ha => ?_, fun tag raw hl => ?_⟩
      · cases ha
        exact nodup_range_keys order box.inbounds
      · have hmem : tag ∈ (order.visit box.inbounds.entries).map Sigma.fst := mem_range_keys order hl
        have hs := hi.sane tag raw hl
        have htarget : target (step auth build ⟨box, hook, none, conns⟩ (.begin call order)) tag raw.protocol.cred =
            roster raw.protocol.cred (box.manager.snapshot tag) := by
          simp only [step, target, Bool.false_eq_true, false_and, if_false, if_pos hmem]
        rw [htarget]
        exact hs

/-- The inbounds start without users. -/
def Fresh (inbounds : GoMap String Inbound) : Prop :=
  ∀ tag raw, inbounds.lookup tag = some raw → raw = .vless (.new []) ∨ raw = .hysteria2 .new ∨ raw = .other

theorem inv_start (now : Direction → ℚ) (nodeMbps : ℤ) {inbounds : GoMap String Inbound} (hfresh : Fresh inbounds) :
    Inv build (start now nodeMbps inbounds) := by
  refine ⟨committed_new now nodeMbps, fun _ h => (nomatch h), fun tag raw hl => ?_⟩
  rcases hfresh tag raw hl with rfl | rfl | rfl
  · exact Fork.Vless.sane_new
  · exact Fork.Hysteria2.sane_new _
  · trivial

/-- **The invariant holds at every moment of every run.** -/
theorem inv_run {s : State} (hi : Inv build s) (events : List (Event π)) : Inv build (run auth build s events) :=
  List.foldlRecOn events _ hi fun _ h e _ => inv_step h e

/-! ### A call without interruptions -/

theorem run_append (s : State) (events events' : List (Event π)) :
    run auth build s (events ++ events') = run auth build (run auth build s events) events' := List.foldl_append ..

/-- The steps of a call on the inbounds that are to be edited. -/
theorem run_todo (auth : Services π) (build : Bool) (todo : List String) (s : State) {call : Call} (hnodup : todo.Nodup)
    (ha : s.applying = some ⟨call, todo, false⟩) :
    (run auth build s (List.replicate (2 * todo.length) .advance)).applying = some ⟨call, [], false⟩ ∧
      (run auth build s (List.replicate (2 * todo.length) .advance)).box.manager = s.box.manager ∧
      ∀ t, (run auth build s (List.replicate (2 * todo.length) .advance)).box.inbounds.lookup t =
        (s.box.inbounds.lookup t).map fun raw =>
          if t ∈ todo then applyUsers call.orders t raw (call.list t) (s.box.manager.snapshot t) else raw := by
  induction todo generalizing s with
  | nil => exact ⟨ha, rfl, fun t => by simp [run]⟩
  | cons tag todo ih =>
    obtain ⟨box, hook, applying, conns⟩ := s
    subst ha
    obtain ⟨hnot, htodo⟩ := List.nodup_cons.1 hnodup
    -- the two steps of the first inbound
    have htwo : ∃ s', run auth build ⟨box, hook, some ⟨call, tag :: todo, false⟩, conns⟩ [.advance, .advance] = s' ∧
        s'.applying = some ⟨call, todo, false⟩ ∧ s'.box.manager = box.manager ∧
        ∀ t, s'.box.inbounds.lookup t = (box.inbounds.lookup t).map fun raw =>
          if t = tag then applyUsers call.orders t raw (call.list t) (box.manager.snapshot t) else raw := by
      have hsteps : run auth build ⟨box, hook, some ⟨call, tag :: todo, false⟩, conns⟩ [.advance, .advance] =
          advance build (advance build ⟨box, hook, some ⟨call, tag :: todo, false⟩, conns⟩) := rfl
      rw [hsteps, advance_delete, advance_add]
      refine ⟨_, rfl, rfl, rfl, fun t => ?_⟩
      rw [lookup_edit, lookup_edit, Option.map_map]
      refine congrArg (fun f => (box.inbounds.lookup t).map f) (funext fun raw => ?_)
      by_cases ht : t = tag
      · subst ht
        simp only [Function.comp_apply, if_true]
        rfl
      · simp only [Function.comp_apply, if_neg ht]
    obtain ⟨s', hrun, happ, hman, hlook⟩ := htwo
    have hlen : List.replicate (2 * (tag :: todo).length) (Event.advance : Event π) =
        [.advance, .advance] ++ List.replicate (2 * todo.length) .advance := by
      rw [List.length_cons, show 2 * (todo.length + 1) = 2 * todo.length + 1 + 1 by omega, List.replicate_succ,
        List.replicate_succ]
      rfl
    rw [hlen, run_append, hrun]
    obtain ⟨h1, h2, h3⟩ := ih s' htodo happ
    refine ⟨h1, h2.trans hman, fun t => ?_⟩
    rw [h3, hlook, hman, Option.map_map]
    refine congrArg (fun f => (box.inbounds.lookup t).map f) (funext fun raw => ?_)
    by_cases ht : t = tag
    · subst ht
      simp [hnot]
    · simp [ht]

/-- **The steps of a call, one after the other, are `ApplyBoxByInbound`.** -/
theorem run_call (s : State) (hidle : s.applying = none) (call : Call) (order : RangeOrder ((_ : String) × Inbound)) :
    let events : List (Event π) := Event.begin call order ::
      (List.replicate (2 * s.box.inbounds.entries.length) .advance ++ [.advance])
    (run auth build s events).applying = none ∧
      (run auth build s events).box.manager = (s.box.call build call).manager ∧
      ∀ tag, (run auth build s events).box.inbounds.lookup tag = (s.box.call build call).inbounds.lookup tag := by
  intro events
  obtain ⟨box, hook, applying, conns⟩ := s
  subst hidle
  have hlen : ((order.visit box.inbounds.entries).map Sigma.fst).length = box.inbounds.entries.length := by
    rw [List.length_map, (order.perm _).length_eq]
  have hnodup := nodup_range_keys order box.inbounds
  obtain ⟨h1, h2, h3⟩ := run_todo auth build _
    ⟨box, hook, some ⟨call, (order.visit box.inbounds.entries).map Sigma.fst, false⟩, conns⟩ hnodup rfl
  rw [hlen] at h1 h2 h3
  have hrun : run auth build ⟨box, hook, none, conns⟩ events = advance build (run auth build
      ⟨box, hook, some ⟨call, (order.visit box.inbounds.entries).map Sigma.fst, false⟩, conns⟩
      (List.replicate (2 * box.inbounds.entries.length) .advance)) := by
    show run auth build _ (_ ++ [.advance]) = _
    rw [run_append]
    rfl
  rw [hrun]
  unfold advance
  simp only [h1]
  refine ⟨trivial, by rw [h2]; rfl, fun tag => ?_⟩
  rw [h3, Box.lookup_inbounds_call]
  cases hl : box.inbounds.lookup tag with
  | none => rfl
  | some raw =>
    simp only [Option.map_some, if_pos (mem_range_keys order hl)]

/-! ### Whose connection it is -/

/-- The inbound authenticates a connection by what stands for the credential of the user `id` in force there. -/
def Authenticated (auth : Services π) (s : State) (tag : String) (presented : π) (id : ℤ) : Prop :=
  ∃ raw u, s.box.inbounds.lookup tag = some raw ∧ (raw.accept auth presented).isSome ∧
    (inForce s tag).lookup id = some u ∧ raw.protocol.cred u ≠ "" ∧
    auth.standsFor raw.protocol presented (raw.protocol.cred u)

/-- The connection is wired to the counter of the id and, in the user-limit build, to the id's own limiters. -/
def Attributed (auth : Services π) (build : Bool) (s : State) (tag : String) (presented : π) (id : ℤ) : Prop :=
  ∃ w, (connect auth build s tag presented).conns = s.conns ++ [w] ∧
    (connect auth build s tag presented).hook.ptr (Hook.tcTag tag) (itoa id) = some w.counter ∧
    (build = true → ∃ a, s.box.manager.limiters.lookup id = some a ∧
      w.limits.userRead = some ⟨a, .rx⟩ ∧ w.limits.userWrite = some ⟨a, .tx⟩)

/-- A committed user has the credential. -/
def Carries (m : UserManager) (credential : String) (id : ℤ) : Prop :=
  ∃ u, m.users.lookup id = some u ∧ credential ∈ aliases u

/-- A credential of the inbound's service that the presented value stands for. -/
def Candidate (auth : Services π) (s : State) (tag : String) (presented : π) (credential : String) : Prop :=
  ∃ raw, s.box.inbounds.lookup tag = some raw ∧ credential ∈ raw.handed ∧
    auth.standsFor raw.protocol presented credential

/-- The committed user `id` has every credential of the inbound that the presented value stands for, and no other
committed user has one of them. -/
def Known (auth : Services π) (s : State) (tag : String) (presented : π) (id : ℤ) : Prop :=
  ∀ credential, Candidate auth s tag presented credential →
    Carries s.box.manager credential id ∧ ∀ id', Carries s.box.manager credential id' → id' = id

/-- A connection that is authenticated has the name of a credential, by which it is routed. -/
theorem exists_name {s : State} (hi : Inv build s) {tag : String} {presented : π} {id : ℤ}
    (ha : Authenticated auth s tag presented id) :
    ∃ name, Candidate auth s tag presented name ∧
      connect auth build s tag presented =
        if name = "" then s
        else { s with
          hook := (s.hook.getCounter tag (s.box.manager.resolve name)).1
          conns := s.conns ++ [⟨(s.hook.getCounter tag (s.box.manager.resolve name)).2,
            s.box.manager.directionalLimiters build name⟩] } := by
  obtain ⟨raw, u, hl, hacc, -⟩ := ha
  obtain ⟨name, hname⟩ := Option.isSome_iff_exists.1 hacc
  obtain ⟨hmem, hstands⟩ := (hi.sane tag raw hl).accept_handed hname
  refine ⟨name, ⟨raw, hl, hmem, hstands⟩, ?_⟩
  unfold connect routedConnection
  simp only [hl, Option.bind_some, hname]
  split
  · rename_i hnone
    split at hnone
    · rename_i hempty
      rw [if_pos hempty]
    · cases hnone
  · rename_i hsome
    split at hsome
    · cases hsome
    · rename_i hne
      cases hsome
      rw [if_neg hne]

theorem Carries.ne_empty {m : UserManager} {credential : String} {id : ℤ} (h : Carries m credential id) :
    credential ≠ "" := by
  obtain ⟨u, -, hmem⟩ := h
  simpa using (List.mem_filter.1 hmem).2

theorem resolve_of_lookup {m : UserManager} {credential : String} {id : ℤ} (hne : credential ≠ "")
    (h : m.bySecret.lookup credential = some id) : m.resolve credential = itoa id := by
  unfold UserManager.resolve
  rw [if_neg hne, h]

/-- **When a connection is attributed and limited.**  At every moment of every run, a connection authenticated by a
credential of a user in force is wired to the user's counter and limiters when the manager has committed that user with
every credential of the inbound that the connection may stand for, and no other user with one of them.  In the
user-limit build a connection is so wired only if the user is committed with such a credential. -/
theorem attributed_of_known (auth : Services π) (build : Bool) (now : Direction → ℚ) (nodeMbps : ℤ)
    (inbounds : GoMap String Inbound) (hfresh : Fresh inbounds) (events : List (Event π)) (tag : String) (presented : π)
    (id : ℤ) (ha : Authenticated auth (run auth build (start now nodeMbps inbounds) events) tag presented id) :
    (Known auth (run auth build (start now nodeMbps inbounds) events) tag presented id →
      Attributed auth build (run auth build (start now nodeMbps inbounds) events) tag presented id) ∧
    (build = true → Attributed auth build (run auth build (start now nodeMbps inbounds) events) tag presented id →
      ∃ credential, Candidate auth (run auth build (start now nodeMbps inbounds) events) tag presented credential ∧
        Carries (run auth build (start now nodeMbps inbounds) events).box.manager credential id) := by
  have hi : Inv build (run auth build (start now nodeMbps inbounds) events) :=
    inv_run (inv_start now nodeMbps hfresh) events
  generalize run auth build (start now nodeMbps inbounds) events = s at ha hi
  obtain ⟨name, hcand, hconn⟩ := exists_name hi ha
  obtain ⟨o, hsecrets⟩ := hi.committed.secrets
  constructor
  · intro hknown
    obtain ⟨hcarries, hsole⟩ := hknown name hcand
    have hne := hcarries.ne_empty
    obtain ⟨u, hu, hcred⟩ := hcarries
    have hlookup : s.box.manager.bySecret.lookup name = some id := by
      rw [hsecrets]
      exact lookup_secretsFrom_of_unique o hu hcred fun id' u' hu' hx => hsole id' ⟨u', hu', hx⟩
    unfold Attributed
    rw [hconn, if_neg hne, resolve_of_lookup hne hlookup]
    refine ⟨_, rfl, Hook.ptr_getCounter_self .., fun hb => ?_⟩
    have hmem : id ∈ s.box.manager.users := AList.lookup_isSome.1 (by rw [hu]; rfl)
    obtain ⟨a, hlim⟩ := Option.isSome_iff_exists.1 (AList.lookup_isSome.2 (hi.committed.limited hb id hmem))
    refine ⟨a, hlim, ?_, ?_⟩ <;> simp [UserManager.directionalLimiters, hb, hlookup, hlim]
  · rintro hb ⟨w, hw, -, hlimits⟩
    obtain ⟨a, hlim, hread, -⟩ := hlimits hb
    rw [hconn] at hw
    split at hw
    · -- a connection without a name is not tracked
      exact absurd (congrArg List.length hw) (by simp)
    obtain rfl := List.singleton_inj.1 (List.append_cancel_left hw)
    -- the pair that was found belongs to one user only
    have hown : (s.box.manager.bySecret.lookup name).bind (fun i => s.box.manager.limiters.lookup i) = some a := by
      unfold UserManager.directionalLimiters at hread
      obtain ⟨b, hfound, heq⟩ := Option.map_eq_some_iff.1 hread
      cases heq
      rwa [if_pos hb] at hfound
    obtain ⟨id', hid', hlim'⟩ := Option.bind_eq_some_iff.1 hown
    obtain rfl := s.box.manager.inj id' id a hlim' hlim
    rw [hsecrets] at hid'
    obtain ⟨u, hu, hcred⟩ := lookup_secretsFrom o hid'
    exact ⟨name, hcand, u, hu, hcred⟩

/-- One VLESS inbound, and a call that gives it one user. -/
def oneInbound : GoMap String Inbound := (∅ : GoMap String Inbound).insert "vless-in" (.vless (.new []))

def addOne : Event String := .begin (Box.oneList "vless-in" [⟨1, "a", "", "", 0⟩]) (.stored _)

/-- The agent after the user was given and `n` steps of the call. -/
def afterSteps (n : ℕ) : State :=
  run .byText true (start (fun _ => 0) 0 oneInbound) (addOne :: List.replicate n .advance)

theorem fresh_oneInbound : Fresh oneInbound := by
  intro tag raw hl
  unfold oneInbound at hl
  rw [lookup_insert_of] at hl
  split at hl
  · exact Or.inl (Option.some.inj hl).symm
  · cases hl

theorem authenticated_after (n : ℕ) (hn : n = 2 ∨ n = 3) :
    Authenticated .byText (afterSteps n) "vless-in" "a" 1 := by
  rcases hn with rfl | rfl
  · exact ⟨_, ⟨1, "a", "", "", 0⟩, rfl, by decide +kernel, by decide +kernel, by decide, rfl⟩
  · exact ⟨_, ⟨1, "a", "", "", 0⟩, rfl, by decide +kernel, by decide +kernel, by decide, rfl⟩

/-- After the commit the user is attributed. -/
theorem attributed_after_commit : Attributed .byText true (afterSteps 3) "vless-in" "a" 1 := by
  refine (attributed_of_known .byText true (fun _ => 0) 0 oneInbound fresh_oneInbound _ "vless-in" "a" 1
    (authenticated_after 3 (Or.inr rfl))).1 ?_
  rintro credential ⟨raw, hl, -, hstands⟩
  have hvless : raw.protocol = .vless := by
    cases hl
    rfl
  rw [hvless] at hstands
  obtain rfl : "a" = credential := hstands
  refine ⟨⟨⟨1, "a", "", "", 0⟩, by decide +kernel, by decide +kernel⟩, ?_⟩
  rintro id ⟨u, hu, -⟩
  have husers : (afterSteps 3).box.manager.users.entries = [⟨1, ⟨1, "a", "", "", 0⟩⟩] := by
    decide +kernel
  have hmem := (mem_entries_iff _).2 hu
  rw [show (run .byText true (start (fun _ => 0) 0 oneInbound)
    (addOne :: List.replicate 3 .advance)).box.manager.users.entries = _ from husers] at hmem
  cases List.mem_singleton.1 hmem
  rfl

/-- **A new user that connects between `AddUsers` and the commit** is counted under its credential, and has no
limiters. -/
theorem unattributed_before_commit :
    ∃ events, Authenticated .byText (run .byText true (start (fun _ => 0) 0 oneInbound) events) "vless-in" "a" 1 ∧
      (run .byText true (start (fun _ => 0) 0 oneInbound) events).box.manager.resolve "a" = "a" ∧
      (run .byText true (start (fun _ => 0) 0 oneInbound) events).box.manager.directionalLimiters true "a" =
        ⟨none, none, none, none⟩ ∧
      ¬ Attributed .byText true (run .byText true (start (fun _ => 0) 0 oneInbound) events) "vless-in" "a" 1 := by
  refine ⟨addOne :: List.replicate 2 .advance, authenticated_after 2 (Or.inl rfl), by decide +kernel,
    by decide +kernel, ?_⟩
  rintro ⟨w, -, -, hlimits⟩
  obtain ⟨a, hlim, -⟩ := hlimits rfl
  have hnone : (afterSteps 2).box.manager.limiters.lookup 1 = none := by
    decide +kernel
  rw [show (run .byText true (start (fun _ => 0) 0 oneInbound)
    (addOne :: List.replicate 2 .advance)).box.manager.limiters.lookup 1 = none from hnone] at hlim
  cases hlim

end MiniSbAgent.Agent.Attribution
