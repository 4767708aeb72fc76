import MiniSbAgent.Panelapi.Framing

/-!
# Requests to the stats server (`cmd/mini-sb-agent/main.go`)

`readHTTPRequest` reads lines from whoever connects, up to a blank one, and takes the target from the first.  What a
client sends need not end, so the input is not a list:

* `Input` — finitely many bytes, after which the connection is closed or stays silent, or bytes without end;
* `readSlice` — `bufio.Reader.ReadSlice` with a buffer of `size` bytes;
* `readRequestFrom_target_iff` — one induction for both directions of the grammar;
* `stats_request_grammar` — what is accepted, and how much is read before the reader decides.
-/

namespace MiniSbAgent.Agent.StatsServer

open MiniSbAgent.Go MiniSbAgent.Panelapi

/-! ### What a connection delivers -/

inductive Input
  | closed (bs : Bytes)
  /-- The connection stays open, and nothing comes after `bs`. -/
  | silent (bs : Bytes)
  | endless (f : ℕ → UInt8)

namespace Input

/-- The first `n` bytes, or all there will ever be. -/
def take (n : ℕ) : Input → Bytes
  | closed bs => bs.take n
  | silent bs => bs.take n
  | endless f => (List.range n).map f

def drop (n : ℕ) : Input → Input
  | closed bs => closed (bs.drop n)
  | silent bs => silent (bs.drop n)
  | endless f => endless fun i => f (n + i)

variable (inp : Input)

theorem length_take_le (n : ℕ) : (inp.take n).length ≤ n := by
  cases inp <;> simp [take]

theorem take_take {m n : ℕ} (h : n ≤ m) : (inp.take m).take n = inp.take n := by
  cases inp with
  | closed bs => simp [take, List.take_take, h]
  | silent bs => simp [take, List.take_take, h]
  | endless f => rw [take, take, ← List.map_take, List.take_range, min_eq_left h]

theorem take_add (m n : ℕ) : inp.take (m + n) = inp.take m ++ (inp.drop m).take n := by
  cases inp with
  | closed bs => exact List.take_add
  | silent bs => exact List.take_add
  | endless f => simp [take, drop, List.range_add]

/-- The input begins with `bs`. -/
def Begins (inp : Input) (bs : Bytes) : Prop := inp.take bs.length = bs

variable {inp}

theorem Begins.nil : inp.Begins [] := by
  cases inp <;> rfl

theorem begins_append {xs ys : Bytes} : inp.Begins (xs ++ ys) ↔ inp.Begins xs ∧ (inp.drop xs.length).Begins ys := by
  unfold Begins
  rw [List.length_append, take_add]
  constructor
  · intro h
    have hfirst : inp.take xs.length = xs := by
      have hlen : xs.length ≤ (inp.take xs.length).length := by
        have htotal := congrArg List.length h
        rw [List.length_append, List.length_append] at htotal
        have := length_take_le (inp.drop xs.length) ys.length
        omega
      exact (List.append_inj h (le_antisymm (length_take_le _ _) hlen)).1
    rw [hfirst] at h
    exact ⟨hfirst, List.append_cancel_left h⟩
  · rintro ⟨h1, h2⟩
    rw [h1, h2]

end Input

/-! ### The reader -/

/-- The buffer of the reader, which bounds a line. -/
def bufferSize : ℕ := 4096

/-- `16<<10` -/
def maxRequest : ℕ := 16 * 2 ^ 10

/-- What one `ReadSlice('\n')` gives. -/
inductive Slice
  | line (chunk : Bytes) (rest : Input)
  /-- `bufio.ErrBufferFull`: the buffer holds no line end and no more bytes. -/
  | full
  /-- The connection ends after `part`. -/
  | eof (part : Bytes)
  /-- Nothing comes after `part` until the deadline. -/
  | waits (part : Bytes)

def readSlice (size : ℕ) (inp : Input) : Slice :=
  match readString (inp.take size) with
  | some (chunk, _) => .line chunk (inp.drop chunk.length)
  | none =>
    if (inp.take size).length = size then .full
    else
      match inp with
      | .closed _ => .eof (inp.take size)
      | _ => .waits (inp.take size)

theorem readSlice_line_iff {size : ℕ} {inp rest : Input} {chunk : Bytes} :
    readSlice size inp = .line chunk rest ↔
      IsLine chunk ∧ chunk.length ≤ size ∧ inp.Begins chunk ∧ rest = inp.drop chunk.length := by
  constructor
  · intro h
    unfold readSlice at h
    split at h
    · rename_i chunk' more hread
      cases h
      obtain ⟨hline, htake⟩ := readString_eq_some_iff.1 hread
      have hle : chunk.length ≤ size := by
        have hlen := congrArg List.length htake
        have := Input.length_take_le inp size
        rw [List.length_append] at hlen
        omega
      refine ⟨hline, hle, ?_, rfl⟩
      unfold Input.Begins
      rw [← Input.take_take inp hle, htake, List.take_left]
    · split at h
      · cases h
      · split at h <;> cases h
  · rintro ⟨hline, hle, hbegins, rfl⟩
    have htake : inp.take size = chunk ++ (inp.take size).drop chunk.length := by
      conv_lhs => rw [← List.take_append_drop chunk.length (inp.take size), Input.take_take inp hle]
      rw [hbegins]
    unfold readSlice
    rw [htake, hline.readString]

inductive RequestError
  /-- `request line too long` -/
  | lineTooLong
  /-- of the connection -/
  | eof
  /-- `request too large` -/
  | tooLarge
  /-- `malformed request` -/
  | malformed
deriving Repr, DecidableEq

inductive Outcome
  | target (target : String)
  | error (e : RequestError)
  /-- The reader is waiting for input. -/
  | waits
deriving Repr, DecidableEq

/-- What the reader decides, and how many bytes it has taken from the buffer by then. -/
structure Decision where
  outcome : Outcome
  taken : ℕ
deriving Repr, DecidableEq

/-- What is done with the first line when a blank one has been read. -/
def requestTarget (line : Bytes) : Outcome :=
  match fields (trimSpace (text line)) with
  | _ :: target :: _ => .target target
  | _ => .error .malformed

/-- The loop: `line` is the first line, empty before it is read, and `total` the length of the lines so far. -/
def readRequestFrom (line : Bytes) (total : ℕ) (inp : Input) : Decision :=
  match _h : readSlice bufferSize inp with
  | .full => ⟨.error .lineTooLong, total + bufferSize⟩
  | .eof part => ⟨.error .eof, total + part.length⟩
  | .waits part => ⟨.waits, total + part.length⟩
  | .line chunk rest =>
    if maxRequest < total + chunk.length then ⟨.error .tooLarge, total + chunk.length⟩
    else
      let line := if line = [] then chunk else line
      if trimSpace (text chunk) = "" then ⟨requestTarget line, total + chunk.length⟩
      else readRequestFrom line (total + chunk.length) rest
termination_by maxRequest + 1 - total
decreasing_by
  have := (readSlice_line_iff.1 _h).1.length_pos
  omega

def readHTTPRequest (inp : Input) : Decision := readRequestFrom [] 0 inp

/-- One pass of the loop. -/
theorem readRequestFrom_eq (line : Bytes) (total : ℕ) (inp : Input) :
    readRequestFrom line total inp =
      match readSlice bufferSize inp with
      | .full => ⟨.error .lineTooLong, total + bufferSize⟩
      | .eof part => ⟨.error .eof, total + part.length⟩
      | .waits part => ⟨.waits, total + part.length⟩
      | .line chunk rest =>
        if maxRequest < total + chunk.length then ⟨.error .tooLarge, total + chunk.length⟩
        else if trimSpace (text chunk) = "" then
          ⟨requestTarget (if line = [] then chunk else line), total + chunk.length⟩
        else readRequestFrom (if line = [] then chunk else line) (total + chunk.length) rest := by
  rw [readRequestFrom]
  split
  all_goals
    rename_i h
    rw [h]

/-! ### The bound -/

/-- What is left over at the end of the input fits in the buffer. -/
theorem readSlice_part {size : ℕ} {inp : Input} {part : Bytes}
    (h : readSlice size inp = .eof part ∨ readSlice size inp = .waits part) : part.length ≤ size := by
  have hpart : part = inp.take size := by
    unfold readSlice at h
    rcases hread : readString (inp.take size) with _ | p
    · simp only [hread] at h
      by_cases hfull : (inp.take size).length = size
      · simp [hfull] at h
      · cases inp <;> simpa [hfull, eq_comm] using h
    · simp [hread] at h
  rw [hpart]
  exact Input.length_take_le inp size

theorem readRequestFrom_taken (line : Bytes) (total : ℕ) (inp : Input) (htotal : total ≤ maxRequest) :
    (readRequestFrom line total inp).taken ≤ maxRequest + bufferSize := by
  induction hn : maxRequest + 1 - total using Nat.strong_induction_on generalizing line total inp with
  | h n ih =>
    rw [readRequestFrom_eq]
    rcases hslice : readSlice bufferSize inp with ⟨chunk, rest⟩ | _ | part | part
    · obtain ⟨hline, hle, -⟩ := readSlice_line_iff.1 hslice
      have hpos := hline.length_pos
      simp only
      by_cases hbig : maxRequest < total + chunk.length
      · rw [if_pos hbig]
        simp only
        omega
      rw [if_neg hbig]
      by_cases hblank : trimSpace (text chunk) = ""
      · rw [if_pos hblank]
        simp only
        omega
      · rw [if_neg hblank]
        exact ih _ (by omega) _ _ _ (by omega) rfl
    · simp only
      omega
    · have := readSlice_part (.inl hslice)
      simp only
      omega
    · have := readSlice_part (.inr hslice)
      simp only
      omega

/-! ### The grammar -/

/-- A line made only of white space. -/
def White (l : Bytes) : Prop := ∀ c ∈ (text l).toList, isSpace c = true

/-- The lines of a request: the last is the first that is blank, each fits in the buffer and all of them in what is left
of the limit. -/
structure Lines (total : ℕ) (inp : Input) (lines : List Bytes) (blank : Bytes) : Prop where
  begins : inp.Begins (lines ++ [blank]).flatten
  line : ∀ l ∈ lines ++ [blank], IsLine l ∧ l.length ≤ bufferSize
  total : total + (lines ++ [blank]).flatten.length ≤ maxRequest
  text : ∀ l ∈ lines, ¬ White l
  blank : White blank

/-- The first line is `line` unless that is empty, and has `target` as its second field. -/
def Targets (line : Bytes) (lines : List Bytes) (blank : Bytes) (target : String) : Prop :=
  ∃ method rest, fields (text (if line = [] then (lines ++ [blank]).head (by simp) else line)) = method :: target :: rest

theorem requestTarget_iff {line : Bytes} {target : String} :
    requestTarget line = .target target ↔ ∃ method rest, fields (text line) = method :: target :: rest := by
  unfold requestTarget
  rw [fields_trimSpace]
  rcases fields (text line) with _ | ⟨a, _ | ⟨b, rest⟩⟩
  · simp
  · simp
  · simp

theorem requestTarget_ne_waits (line : Bytes) : requestTarget line ≠ .waits := by
  unfold requestTarget
  split
  · exact fun h => by cases h
  · exact fun h => by cases h

/-- The lines of a request, taken one at a time. -/
theorem lines_step {line : Bytes} {total : ℕ} {inp : Input} {target : String} :
    (∃ lines blank, Lines total inp lines blank ∧ Targets line lines blank target) ↔
      ∃ chunk, (IsLine chunk ∧ chunk.length ≤ bufferSize ∧ inp.Begins chunk) ∧ total + chunk.length ≤ maxRequest ∧
        (White chunk ∧ requestTarget (if line = [] then chunk else line) = .target target ∨
          ¬ White chunk ∧ ∃ lines blank, Lines (total + chunk.length) (inp.drop chunk.length) lines blank ∧
            Targets (if line = [] then chunk else line) lines blank target) := by
  constructor
  · rintro ⟨lines, blank, h, htarget⟩
    rcases lines with _ | ⟨l, lines⟩
    · -- the first line is the blank one
      obtain ⟨hline, hle⟩ := h.line blank (by simp)
      have hbegins := h.begins
      have htotal := h.total
      simp only [List.nil_append, List.flatten_cons, List.flatten_nil, List.append_nil] at hbegins htotal
      refine ⟨blank, ⟨hline, hle, hbegins⟩, htotal, Or.inl ⟨h.blank, ?_⟩⟩
      rw [requestTarget_iff]
      exact htarget
    · obtain ⟨hline, hle⟩ := h.line l (by simp)
      have hbegins := h.begins
      have htotal := h.total
      rw [List.cons_append, List.flatten_cons, Input.begins_append] at hbegins
      rw [List.cons_append, List.flatten_cons, List.length_append] at htotal
      have hne : l ≠ [] := List.length_pos_iff.1 hline.length_pos
      refine ⟨l, ⟨hline, hle, hbegins.1⟩, by omega, Or.inr ⟨h.text l List.mem_cons_self, lines, blank, ?_, ?_⟩⟩
      · exact ⟨hbegins.2, fun x hx => h.line x (List.mem_cons_of_mem _ hx), by omega,
          fun x hx => h.text x (List.mem_cons_of_mem _ hx), h.blank⟩
      · unfold Targets at htarget ⊢
        by_cases hl : line = []
        · simpa [hl, hne] using htarget
        · simpa [hl] using htarget
  · rintro ⟨chunk, ⟨hline, hle, hbegins⟩, htotal, ⟨hblank, htarget⟩ | ⟨htext, lines, blank, h, htarget⟩⟩
    · refine ⟨[], chunk, ⟨?_, ?_, ?_, List.forall_mem_nil _, hblank⟩, requestTarget_iff.1 htarget⟩
      · simpa using hbegins
      · simpa using ⟨hline, hle⟩
      · simpa using htotal
    · have hne : chunk ≠ [] := List.length_pos_iff.1 hline.length_pos
      refine ⟨chunk :: lines, blank, ⟨?_, ?_, ?_, ?_, h.blank⟩, ?_⟩
      · rw [List.cons_append, List.flatten_cons, Input.begins_append]
        exact ⟨hbegins, h.begins⟩
      · rw [List.cons_append, List.forall_mem_cons]
        exact ⟨⟨hline, hle⟩, h.line⟩
      · have := h.total
        rw [List.cons_append, List.flatten_cons, List.length_append]
        omega
      · rw [List.forall_mem_cons]
        exact ⟨htext, h.text⟩
      · unfold Targets at htarget ⊢
        by_cases hl : line = []
        · simpa [hl, hne] using htarget
        · simpa [hl] using htarget

/-- **The loop accepts its grammar and nothing else.** -/
theorem readRequestFrom_target_iff (line : Bytes) (total : ℕ) (inp : Input) (target : String) :
    (readRequestFrom line total inp).outcome = .target target ↔
      ∃ lines blank, Lines total inp lines blank ∧ Targets line lines blank target := by
  induction hn : maxRequest + 1 - total using Nat.strong_induction_on generalizing line total inp with
  | h n ih =>
    rw [readRequestFrom_eq, lines_step]
    rcases hslice : readSlice bufferSize inp with ⟨chunk, rest⟩ | _ | part | part
    · obtain ⟨hline, hle, hbegins, rfl⟩ := readSlice_line_iff.1 hslice
      have hpos := hline.length_pos
      -- the first line of the grammar is the one that was read
      have hfirst : ∀ l, IsLine l ∧ l.length ≤ bufferSize ∧ inp.Begins l → l = chunk := by
        rintro l ⟨h1, h2, h3⟩
        have := readSlice_line_iff.2 ⟨h1, h2, h3, rfl⟩
        rw [hslice] at this
        cases this
        rfl
      simp only
      by_cases hbig : maxRequest < total + chunk.length
      · rw [if_pos hbig]
        refine iff_of_false (by simp) ?_
        rintro ⟨l, hl, htotal, -⟩
        rw [hfirst l hl] at htotal
        omega
      have hfits : total + chunk.length ≤ maxRequest := by omega
      rw [if_neg hbig]
      by_cases hblank : trimSpace (text chunk) = ""
      · rw [if_pos hblank]
        have hwhite : White chunk := trimSpace_eq_empty_iff.1 hblank
        simp only
        constructor
        · exact fun h => ⟨chunk, ⟨hline, hle, hbegins⟩, hfits, Or.inl ⟨hwhite, h⟩⟩
        · rintro ⟨l, hl, -, h⟩
          rw [hfirst l hl] at h
          rcases h with ⟨-, h⟩ | ⟨h, -⟩
          · exact h
          · exact absurd hwhite h
      · have hwhite : ¬ White chunk := fun h => hblank (trimSpace_eq_empty_iff.2 h)
        rw [if_neg hblank, ih _ (by omega) _ _ _ rfl]
        constructor
        · exact fun h => ⟨chunk, ⟨hline, hle, hbegins⟩, hfits, Or.inr ⟨hwhite, h⟩⟩
        · rintro ⟨l, hl, -, h⟩
          rw [hfirst l hl] at h
          rcases h with ⟨h, -⟩ | ⟨-, h⟩
          · exact absurd h hwhite
          · exact h
    all_goals
      refine iff_of_false (by simp) ?_
      rintro ⟨l, ⟨h1, h2, h3⟩, -⟩
      rw [readSlice_line_iff.2 ⟨h1, h2, h3, rfl⟩] at hslice
      cases hslice

/-! ### The request -/

/-- A request for `target`: the input begins with lines that end in LF and fit in the buffer, 16384 bytes at most up to
the first one that is white, and the second field of the first line is the target. -/
def Requests (inp : Input) (target : String) : Prop :=
  ∃ (first : Bytes) (lines : List Bytes), inp.Begins (first :: lines).flatten ∧
    (∀ l ∈ first :: lines, IsLine l ∧ l.length ≤ 4096) ∧ (first :: lines).flatten.length ≤ 16384 ∧
    (∃ before blank, first :: lines = before ++ [blank] ∧ (∀ l ∈ before, ¬ White l) ∧ White blank) ∧
    ∃ method rest, fields (text first) = method :: target :: rest

theorem requests_iff {inp : Input} {target : String} :
    Requests inp target ↔ ∃ lines blank, Lines 0 inp lines blank ∧ Targets [] lines blank target := by
  constructor
  · rintro ⟨first, lines, hbegins, hline, htotal, ⟨before, blank, hall, htext, hblank⟩, htarget⟩
    rw [hall] at hbegins hline htotal
    refine ⟨before, blank, ⟨hbegins, hline, ?_, htext, hblank⟩, ?_⟩
    · unfold maxRequest
      omega
    · unfold Targets
      simpa [← hall] using htarget
  · rintro ⟨lines, blank, h, htarget⟩
    obtain ⟨first, rest, hall⟩ := List.exists_cons_of_ne_nil (l := lines ++ [blank]) (by simp)
    have hbegins := h.begins
    have hline := h.line
    have htotal := h.total
    unfold Targets at htarget
    simp only [hall, if_true, List.head_cons] at hbegins hline htotal htarget
    refine ⟨first, rest, hbegins, hline, ?_, ⟨lines, blank, hall.symm, h.text, h.blank⟩, htarget⟩
    unfold maxRequest at htotal
    omega

theorem readSlice_waits {size : ℕ} {inp : Input} {part : Bytes} (h : readSlice size inp = .waits part) :
    ∃ bs, inp = .silent bs := by
  cases inp with
  | closed bs =>
    unfold readSlice at h
    split at h
    · cases h
    · split at h <;> cases h
  | silent bs => exact ⟨bs, rfl⟩
  | endless f =>
    unfold readSlice at h
    split at h
    · cases h
    · rw [if_pos (by simp [Input.take])] at h
      cases h

/-- The reader waits only on a connection that is silent. -/
theorem readRequestFrom_waits (line : Bytes) (total : ℕ) (inp : Input)
    (h : (readRequestFrom line total inp).outcome = .waits) : ∃ bs, inp = .silent bs := by
  induction hn : maxRequest + 1 - total using Nat.strong_induction_on generalizing line total inp with
  | h n ih =>
    rw [readRequestFrom_eq] at h
    rcases hslice : readSlice bufferSize inp with ⟨chunk, rest⟩ | _ | part | part
    · obtain ⟨hline, -, -, rfl⟩ := readSlice_line_iff.1 hslice
      have hpos := hline.length_pos
      simp only [hslice] at h
      by_cases hbig : maxRequest < total + chunk.length
      · rw [if_pos hbig] at h
        cases h
      rw [if_neg hbig] at h
      by_cases hblank : trimSpace (text chunk) = ""
      · rw [if_pos hblank] at h
        simp only at h
        exact absurd h (requestTarget_ne_waits _)
      · rw [if_neg hblank] at h
        obtain ⟨bs, hrest⟩ := ih _ (by omega) _ _ _ h rfl
        cases inp with
        | closed bs' => cases hrest
        | silent bs' => exact ⟨bs', rfl⟩
        | endless f => cases hrest
    · rw [hslice] at h
      cases h
    · rw [hslice] at h
      cases h
    · exact readSlice_waits hslice

/-- **The stats request reader.**  On every input, with an end or without, it returns a target exactly when the input is a
request for it; it takes at most 16384 bytes of lines and one more buffer before it decides; and otherwise it returns an
error, or waits if the connection is silent. -/
theorem stats_request_grammar (inp : Input) :
    (∀ target, (readHTTPRequest inp).outcome = .target target ↔ Requests inp target) ∧
      (readHTTPRequest inp).taken ≤ 16384 + 4096 ∧
      ((∀ target, ¬ Requests inp target) →
        (∃ e, (readHTTPRequest inp).outcome = .error e) ∨
          (readHTTPRequest inp).outcome = .waits ∧ ∃ bs, inp = .silent bs) := by
  have hiff : ∀ target, (readHTTPRequest inp).outcome = .target target ↔ Requests inp target := fun target => by
    rw [requests_iff]
    exact readRequestFrom_target_iff [] 0 inp target
  have htaken : (readHTTPRequest inp).taken ≤ maxRequest + bufferSize := readRequestFrom_taken [] 0 inp (by omega)
  unfold maxRequest bufferSize at htaken
  refine ⟨hiff, by omega, fun hno => ?_⟩
  rcases hout : (readHTTPRequest inp).outcome with target | e | _
  · exact absurd ((hiff target).1 hout) (hno target)
  · exact Or.inl ⟨e, rfl⟩
  · exact Or.inr ⟨rfl, readRequestFrom_waits [] 0 inp hout⟩

end MiniSbAgent.Agent.StatsServer
