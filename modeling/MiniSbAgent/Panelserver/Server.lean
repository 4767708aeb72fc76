import MiniSbAgent.Go.Utf8
import MiniSbAgent.Panelserver.Store

/-!
# Who is asking

An agent shows its secret as a bearer token.  `requireAgent` takes the token out of the header, trims it, and looks for
an agent with that secret in whatever order the map of agents is walked; `PutAgent` asks only that the secret is not
empty.  A token is bytes, whether they are UTF-8 or not; the secrets come out of JSON and are text.

* `agents_run` — every agent on record is under its own id and has a secret;
* `authenticated_iff` — which agents are told apart by their secrets, and who is refused.
-/

namespace MiniSbAgent.Panelserver

open MiniSbAgent.Go MiniSbAgent.Panelapi

/-- `strings.TrimPrefix`. -/
def trimPrefix (xs pre : Bytes) : Bytes := if pre.isPrefixOf xs then xs.drop pre.length else xs

/-- `bearer`, given the value of the `Authorization` header. -/
def bearer (authorization : Bytes) : Bytes := trimBytes isSpace ( trimPrefix authorization (bytes "Bearer "))

/-- What a handler writes. -/
inductive Reply where
  /-- of `writeError` -/
  | error (status : ℕ) (message : String)
  /-- of `writeError` with the text of an error of the store -/
  | storeError (status : ℕ) (err : StoreError)
  | applied (status : ℕ) (applied : Bool)
deriving Repr, DecidableEq

def Store.agentBySecret (o : RangeOrder ((_ : String) × Agent)) (s : Store) (secret : Bytes) : Option Agent :=
  ((o.visit s.agents.entries).find? fun e => bytes e.2.secret == secret).map Sigma.snd

def requireAgent (o : RangeOrder ((_ : String) × Agent)) (s : Store) (authorization : Bytes) : Except Reply Agent :=
  match s.agentBySecret o (bearer authorization) with
  | none => .error (.error 401 "invalid agent token")
  | some a => .ok a

/-! ### The agents on record -/

/-- Every agent is under its own id, and has a secret. -/
def AgentsOk (agents : GoMap String Agent) : Prop :=
  ∀ id a, agents.lookup id = some a → a.id = id ∧ a.secret ≠ ""

theorem AgentsOk.insert {agents : GoMap String Agent} (h : AgentsOk agents) {a : Agent} {id : String}
    (hid : a.id = id) (hsecret : a.secret ≠ "") : AgentsOk (agents.insert id a) := by
  intro id' a' hl
  rw [lookup_insert_of] at hl
  split at hl
  · rename_i hid'
    cases hl
    exact ⟨hid.trans hid'.symm, hsecret⟩
  · exact h id' a' hl

theorem agentsOk_step {h : History} (ha : AgentsOk h.store.agents) (op : Op) :
    AgentsOk (h.step op).store.agents := by
  cases op with
  | putAgent now agent =>
    show AgentsOk (h.store.putAgent now agent).1.agents
    unfold Store.putAgent
    by_cases hbad : agent.id = "" ∨ agent.secret = ""
    · rw [if_pos hbad]
      exact ha
    · rw [if_neg hbad]
      push Not at hbad
      refine ha.insert rfl ?_
      split <;> exact hbad.2
  | putTopology now revision etag agentID topology =>
    unfold History.step
    rcases putTopology_cases (s := h.store) now revision etag agentID topology with ⟨e, heq⟩ | ⟨record, heq⟩
    · simp only [heq]
      exact ha
    · simp only [heq]
      exact ha
  | applyTraffic now agentID payload =>
    unfold History.step
    rcases applyTraffic_cases (s := h.store) now agentID payload with
      ⟨e, heq, -⟩ | ⟨-, heq⟩ | ⟨agent, -, hagent, -, heq⟩
    · simp only [heq]
      exact ha
    · simp only [heq]
      exact ha
    · simp only [heq]
      obtain ⟨hid, hsecret⟩ := ha agentID agent hagent
      exact ha.insert hid hsecret

theorem agents_run (ops : List Op) : AgentsOk (run ops).store.agents :=
  List.foldlRecOn (motive := fun h : History => AgentsOk h.store.agents) ops History.step (fun _ _ h => nomatch h)
    fun _ ha op _ => agentsOk_step ha op

/-! ### Finding an agent -/

/-- A text without its first word is text. -/
theorem trimPrefix_text (s : String) (pre : String) : ∃ rest, trimPrefix (bytes s) (bytes pre) = bytes rest := by
  unfold trimPrefix
  split_ifs with h
  · obtain ⟨ys, hys⟩ := List.isPrefixOf_iff_prefix.1 h
    have hs : s = pre ++ text ys := by
      rw [← String.toList_inj, String.toList_append, ← toList_text_bytes_append, hys, text_bytes]
    refine ⟨text ys, ?_⟩
    rw [hs, bytes_append, List.drop_left]
  · exact ⟨s, rfl⟩

theorem bearer_text (s : String) : ∃ rest, bearer (bytes s) = bytes (trimSpace rest) := by
  obtain ⟨rest, hrest⟩ := trimPrefix_text s "Bearer "
  refine ⟨rest, ?_⟩
  rw [bearer, hrest, trimBytes_bytes]
  rfl

theorem bearer_header (secret : String) : bearer (bytes ("Bearer " ++ secret)) = bytes (trimSpace secret) := by
  have htrim : trimPrefix (bytes ("Bearer " ++ secret)) (bytes "Bearer ") = bytes secret := by
    unfold trimPrefix
    rw [bytes_append, if_pos (List.isPrefixOf_iff_prefix.2 (List.prefix_append _ _)), List.drop_left]
  rw [bearer, htrim, trimBytes_bytes]
  rfl

section Search

variable (o : RangeOrder ((_ : String) × Agent)) {s : Store} {secret : Bytes}

/-- Who is found has the secret. -/
theorem agentBySecret_eq_some {a : Agent} (h : s.agentBySecret o secret = some a) :
    ∃ id, s.agents.lookup id = some a ∧ bytes a.secret = secret := by
  obtain ⟨e, he, rfl⟩ := Option.map_eq_some_iff.1 h
  have hsecret := List.find?_some he
  exact ⟨e.1, (mem_range_iff o s.agents).1 (List.mem_of_find?_eq_some he), beq_iff_eq.1 hsecret⟩

theorem agentBySecret_eq_none (h : s.agentBySecret o secret = none) :
    ∀ id a, s.agents.lookup id = some a → bytes a.secret ≠ secret := by
  intro id a hl
  have hnone := List.find?_eq_none.1 (Option.map_eq_none_iff.1 h) ⟨id, a⟩ ((mem_range_iff o s.agents).2 hl)
  simpa using hnone

/-- When an agent is met last, another one with the same secret is found. -/
theorem agentBySecret_last {id id' : String} {b : Agent} (hb : s.agents.lookup id' = some b)
    (hsecret : bytes b.secret = secret) (hne : id' ≠ id) :
    ∃ id'' c, s.agentBySecret (.last fun e => e.1 == id) secret = some c ∧ s.agents.lookup id'' = some c ∧
      id'' ≠ id := by
  have hvisit : (RangeOrder.last fun e : (_ : String) × Agent => e.1 == id).visit s.agents.entries =
      (s.agents.entries.filter fun e => !(e.1 == id)) ++ s.agents.entries.filter fun e => e.1 == id := rfl
  have hmem : (⟨id', b⟩ : (_ : String) × Agent) ∈ s.agents.entries.filter fun e => !(e.1 == id) := by
    refine List.mem_filter.2 ⟨(mem_entries_iff s.agents).2 hb, ?_⟩
    rw [Bool.not_eq_true', beq_eq_false_iff_ne]
    exact hne
  obtain ⟨e, he⟩ : ∃ e, (s.agents.entries.filter fun e => !(e.1 == id)).find?
      (fun e => bytes e.2.secret == secret) = some e := by
    rw [← Option.isSome_iff_exists, List.find?_isSome]
    exact ⟨_, hmem, by rw [beq_iff_eq]; exact hsecret⟩
  obtain ⟨hent, hid⟩ := List.mem_filter.1 (List.mem_of_find?_eq_some he)
  rw [Bool.not_eq_true', beq_eq_false_iff_ne] at hid
  refine ⟨e.1, e.2, ?_, (mem_entries_iff s.agents).1 hent, hid⟩
  unfold Store.agentBySecret
  rw [hvisit, List.find?_append, he]
  rfl

end Search

/-- An agent is found in every order exactly when the secret is its own and no other agent's. -/
theorem agentBySecret_iff {s : Store} (hok : AgentsOk s.agents) {id : String} {a : Agent}
    (ha : s.agents.lookup id = some a) {secret : Bytes} :
    (∀ o, s.agentBySecret o secret = some a) ↔
      secret = bytes a.secret ∧ ∀ id' b, s.agents.lookup id' = some b → b.secret = a.secret → id' = id := by
  constructor
  · intro hfound
    obtain ⟨-, -, hsecret⟩ := agentBySecret_eq_some _ (hfound (.stored _))
    refine ⟨hsecret.symm, fun id' b hb hb' => ?_⟩
    by_contra hne
    obtain ⟨id'', c, hc, hcl, hcid⟩ := agentBySecret_last hb ((congrArg bytes hb').trans hsecret) hne
    rw [hfound] at hc
    cases hc
    exact hcid ((hok id'' a hcl).1.symm.trans (hok id a ha).1)
  · rintro ⟨rfl, huniq⟩ o
    rcases hfound : s.agentBySecret o (bytes a.secret) with _ | b
    · exact absurd rfl (agentBySecret_eq_none o hfound id a ha)
    · obtain ⟨id', hb, hsecret⟩ := agentBySecret_eq_some o hfound
      rw [huniq id' b hb (bytes_injective hsecret), ha] at hb
      exact hb.symm

theorem requireAgent_eq_ok {o : RangeOrder ((_ : String) × Agent)} {s : Store} {authorization : Bytes} {a : Agent} :
    requireAgent o s authorization = .ok a ↔ s.agentBySecret o (bearer authorization) = some a := by
  unfold requireAgent
  rcases s.agentBySecret o (bearer authorization) with _ | b <;> simp

/-- **When authentication is unambiguous.** In every reachable store:

* a request with the secret of an agent as its token is taken for that agent, in whatever order the agents are
  walked, exactly when no white space surrounds the secret and no other agent has it;
* a request whose token is empty, or no agent's secret, is refused. -/
theorem authenticated_iff (ops : List Op) :
    (∀ id a, (run ops).store.agents.lookup id = some a →
      ((∀ o, requireAgent o (run ops).store (bytes ("Bearer " ++ a.secret)) = .ok a) ↔
        trimSpace a.secret = a.secret ∧
          ∀ id' b, (run ops).store.agents.lookup id' = some b → b.secret = a.secret → id' = id)) ∧
    (∀ o authorization,
      (bearer authorization = [] ∨
        ∀ id a, (run ops).store.agents.lookup id = some a → bytes a.secret ≠ bearer authorization) →
      requireAgent o (run ops).store authorization = .error (.error 401 "invalid agent token")) := by
  have hok := agents_run ops
  refine ⟨fun id a ha => ?_, fun o authorization hbad => ?_⟩
  · simp only [requireAgent_eq_ok, bearer_header]
    rw [agentBySecret_iff hok ha]
    exact and_congr_left' ⟨bytes_injective, congrArg bytes⟩
  · unfold requireAgent
    rcases hfound : (run ops).store.agentBySecret o (bearer authorization) with _ | b
    · rfl
    · obtain ⟨id', hb, hsecret⟩ := agentBySecret_eq_some o hfound
      rcases hbad with hempty | hnone
      · exact absurd (bytes_injective (t := "") (hsecret.trans hempty)) (hok id' b hb).2
      · exact absurd hsecret (hnone id' b hb)

/-- **Two agents with one secret.** Both registrations are accepted, and the token of the first agent can be taken for
the second; and an agent whose secret starts with a space is never let in. -/
theorem shared_secret_ambiguous :
    let a : Agent := ⟨"edge-a", "", "s3cret", some 0, none⟩
    let b : Agent := ⟨"edge-b", "", "s3cret", some 0, none⟩
    let c : Agent := ⟨"edge-c", "", " padded", some 0, none⟩
    let store := (run [.putAgent 0 a, .putAgent 0 b, .putAgent 0 c]).store
    store.agents.lookup "edge-a" = some a ∧
      requireAgent (.last fun e => e.1 == "edge-a") store (bytes ("Bearer " ++ a.secret)) = .ok b ∧
      requireAgent (.stored _) store (bytes ("Bearer " ++ c.secret)) = .error (.error 401 "invalid agent token") := by
  decide +kernel

end MiniSbAgent.Panelserver
