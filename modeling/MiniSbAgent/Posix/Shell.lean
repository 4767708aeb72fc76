import Mathlib

/-!
# Words of the POSIX shell

The value of an assignment is one word: plain characters, escaped ones, and parts in single or double quotes.  `step` reads
one character of it.  It stops where the word would end, and where the word has no value of its own: at a `$` or a
backquote outside single quotes, and at a tilde that begins a tilde-prefix.

* `wordValue` — what a text is as one complete word;
* `readAssignment` — the value after `NAME=` in a file, up to the end of its line, and the rest of the file;
* `readAssignment_eq_some_iff` — a text without line feed and without lost backslashes is read to the end of its line
  exactly when it is one complete word;
* `quote_notMem_of_wordValue` — a word from which no backslash and no double quote was removed has no single quote in its
  value.
-/

namespace MiniSbAgent.Posix.Shell

def quote : Char := '\x27'
def dquote : Char := '\x22'
def backslash : Char := '\x5c'

/-- Blanks, line feeds and operators end a word. -/
def isBreak (c : Char) : Bool := " \t\n;&|<>()".toList.contains c

/-- `$` and the backquote begin an expansion. -/
def isActive (c : Char) : Bool := c = '$' || c = '\x60'

inductive Mode where
  /-- `tilde`: a tilde-prefix may begin here -/
  | plain (tilde : Bool)
  | escaped (tilde : Bool)
  | single
  | double
  | doubleEscaped
deriving Repr, DecidableEq

def step : Mode × List Char → Char → Option (Mode × List Char)
  | (.plain tilde, out), c =>
    if c = quote then some (.single, out)
    else if c = dquote then some (.double, out)
    else if c = backslash then some (.escaped tilde, out)
    else if isBreak c || isActive c || (tilde && c = '~') then none
    else some (.plain (c = ':'), out ++ [c])
  | (.escaped tilde, out), c => some (if c = '\n' then (.plain tilde, out) else (.plain false, out ++ [c]))
  | (.single, out), c => some (if c = quote then (.plain false, out) else (.single, out ++ [c]))
  | (.double, out), c =>
    if c = dquote then some (.plain false, out)
    else if c = backslash then some (.doubleEscaped, out)
    else if isActive c then none
    else some (.double, out ++ [c])
  | (.doubleEscaped, out), c =>
    some (.double,
      if c = '\n' then out
      else if isActive c || c = dquote || c = backslash then out ++ [c]
      else out ++ [backslash, c])

/-- The state after a text from the beginning of a word. -/
def reads (text : List Char) : Option (Mode × List Char) := text.foldlM step (.plain true, [])

def Mode.isPlain : Mode → Bool
  | .plain _ => true
  | _ => false

def wordValue (text : List Char) : Option (List Char) :=
  (reads text).bind fun s => if s.1.isPlain then some s.2 else none

/-- The rest of a word in a file, up to a line feed or the end of the file. -/
def readFrom : List Char → Mode × List Char → Option (List Char × List Char)
  | [], s => if s.1.isPlain then some (s.2, []) else none
  | c :: cs, s => if s.1.isPlain ∧ c = '\n' then some (s.2, cs) else (step s c).bind (readFrom cs)

def readAssignment (file : List Char) : Option (List Char × List Char) := readFrom file (.plain true, [])

/-! ### What a word loses -/

/-- The backslashes and double quotes that were read and may still be put out or dropped. -/
def Mode.held (c : Char) : Mode → ℕ
  | .plain _ => 0
  | .escaped _ => if c = backslash then 1 else 0
  | .single => 0
  | .double => if c = dquote then 1 else 0
  | .doubleEscaped => if c = dquote ∨ c = backslash then 1 else 0

/-- The reader is not inside double quotes. -/
def Mode.Outside : Mode → Prop
  | .double => False
  | .doubleEscaped => False
  | _ => True

@[simp] theorem held_plain (c : Char) (tilde : Bool) : (Mode.plain tilde).held c = 0 := rfl
@[simp] theorem held_single (c : Char) : Mode.single.held c = 0 := rfl
@[simp] theorem backslash_escaped (tilde : Bool) : (Mode.escaped tilde).held backslash = 1 := rfl
@[simp] theorem dquote_escaped (tilde : Bool) : (Mode.escaped tilde).held dquote = 0 := rfl
@[simp] theorem backslash_double : Mode.double.held backslash = 0 := rfl
@[simp] theorem dquote_double : Mode.double.held dquote = 1 := rfl
@[simp] theorem backslash_doubleEscaped : Mode.doubleEscaped.held backslash = 1 := rfl
@[simp] theorem dquote_doubleEscaped : Mode.doubleEscaped.held dquote = 1 := rfl
@[simp] theorem count_dquote_backslash : [backslash].count dquote = 0 := rfl
@[simp] theorem count_backslash_dquote : [dquote].count backslash = 0 := rfl

/-- What the reader has of a character: put out, or held. -/
def has (c : Char) (s : Mode × List Char) : ℕ := s.2.count c + s.1.held c

/-- **One character.**  The reader gains no backslash and no double quote but the one it reads; and a step that loses
neither and ends outside double quotes began there and puts out no single quote. -/
structure Balance (s s' : Mode × List Char) (c : Char) : Prop where
  backslash_le : has backslash s' ≤ has backslash s + [c].count backslash
  dquote_le : has dquote s' ≤ has dquote s + [c].count dquote
  outside : s'.1.Outside → has backslash s' = has backslash s + [c].count backslash →
    has dquote s' = has dquote s + [c].count dquote → s.1.Outside ∧ (quote ∈ s'.2 → quote ∈ s.2)

section Modes

variable {tilde : Bool} {out : List Char} {s' : Mode × List Char} {c : Char}

theorem quote_mem_of_concat (hc : c ≠ quote) (h : quote ∈ out ++ [c]) : quote ∈ out := by
  rcases List.mem_append.1 h with h | h
  · exact h
  · exact absurd (List.mem_singleton.1 h).symm hc

theorem balance_plain (h : step (.plain tilde, out) c = some s') : Balance (.plain tilde, out) s' c := by
  simp only [step] at h
  split_ifs at h with h1 h2 h3 h4
  · cases h
    exact ⟨by simp [has], by simp [has], fun _ _ _ => ⟨trivial, id⟩⟩
  · cases h
    subst h2
    exact ⟨by simp [has], by simp [has], nofun⟩
  · cases h
    subst h3
    exact ⟨by simp [has], by simp [has], fun _ _ _ => ⟨trivial, id⟩⟩
  · cases h
    exact ⟨by simp [has], by simp [has], fun _ _ _ => ⟨trivial, quote_mem_of_concat h1⟩⟩

theorem balance_escaped (h : step (.escaped tilde, out) c = some s') : Balance (.escaped tilde, out) s' c := by
  simp only [step] at h
  cases h
  split_ifs with h1
  · refine ⟨by simp only [has, held_plain, backslash_escaped]; omega, by simp [has], fun _ hb _ => ?_⟩
    simp only [has, held_plain, backslash_escaped] at hb
    omega
  · refine ⟨?_, ?_, fun _ hb _ => ?_⟩
    · simp only [has, List.count_append, held_plain, backslash_escaped]
      omega
    · simp [has]
    · simp only [has, List.count_append, held_plain, backslash_escaped] at hb
      omega

theorem balance_single (h : step (.single, out) c = some s') : Balance (.single, out) s' c := by
  simp only [step] at h
  cases h
  split_ifs with h1
  · exact ⟨by simp [has], by simp [has], fun _ _ _ => ⟨trivial, id⟩⟩
  · exact ⟨by simp [has], by simp [has], fun _ _ _ => ⟨trivial, quote_mem_of_concat h1⟩⟩

theorem balance_double (h : step (.double, out) c = some s') : Balance (.double, out) s' c := by
  simp only [step] at h
  split_ifs at h with h1 h2 h3
  · cases h
    refine ⟨by simp [has], ?_, fun _ _ hd => ?_⟩
    · simp only [has, held_plain, dquote_double]
      omega
    · simp only [has, held_plain, dquote_double] at hd
      omega
  · cases h
    subst h2
    exact ⟨by simp [has], by simp [has], nofun⟩
  · cases h
    refine ⟨?_, ?_, nofun⟩
    · simp [has]
    · simp only [has, List.count_append]
      omega

theorem balance_doubleEscaped (h : step (.doubleEscaped, out) c = some s') : Balance (.doubleEscaped, out) s' c := by
  simp only [step] at h
  cases h
  split_ifs with h1 h2
  · refine ⟨?_, by simp [has], nofun⟩
    simp only [has, backslash_double, backslash_doubleEscaped]
    omega
  · refine ⟨?_, ?_, nofun⟩
    · simp only [has, List.count_append, backslash_double, backslash_doubleEscaped]
      omega
    · simp only [has, List.count_append, dquote_double, dquote_doubleEscaped]
      omega
  · have hcons : out ++ [backslash, c] = out ++ [backslash] ++ [c] := by simp
    rw [hcons]
    refine ⟨?_, ?_, nofun⟩
    · simp only [has, List.count_append, backslash_double, backslash_doubleEscaped, List.count_singleton_self]
      omega
    · simp only [has, List.count_append, dquote_double, dquote_doubleEscaped, count_dquote_backslash]
      omega

end Modes

theorem balance_step {s s' : Mode × List Char} {c : Char} (h : step s c = some s') : Balance s s' c := by
  obtain ⟨m, out⟩ := s
  cases m with
  | plain tilde => exact balance_plain h
  | escaped tilde => exact balance_escaped h
  | single => exact balance_single h
  | double => exact balance_double h
  | doubleEscaped => exact balance_doubleEscaped h

/-- **A text.**  By induction on it, what holds of one character. -/
theorem balance_reads {text : List Char} {s s' : Mode × List Char} (h : text.foldlM step s = some s') :
    has backslash s' ≤ has backslash s + text.count backslash ∧ has dquote s' ≤ has dquote s + text.count dquote ∧
      (s'.1.Outside → has backslash s' = has backslash s + text.count backslash →
        has dquote s' = has dquote s + text.count dquote → s.1.Outside ∧ (quote ∈ s'.2 → quote ∈ s.2)) := by
  induction text generalizing s with
  | nil =>
    cases h
    exact ⟨le_rfl, le_rfl, fun ho _ _ => ⟨ho, id⟩⟩
  | cons c text ih =>
    obtain ⟨s₁, hs₁, hrest⟩ := Option.bind_eq_some_iff.1 ((List.foldlM_cons ..).symm.trans h)
    obtain ⟨hb, hd, hq⟩ := balance_step hs₁
    obtain ⟨hb', hd', hq'⟩ := ih hrest
    have hcount : ∀ x, (c :: text).count x = [c].count x + text.count x := fun x => by
      rw [← List.count_append, List.singleton_append]
    rw [hcount, hcount]
    refine ⟨by omega, by omega, fun ho heb hed => ?_⟩
    obtain ⟨ho₁, hmem⟩ := hq' ho (by omega) (by omega)
    obtain ⟨ho₀, hmem₀⟩ := hq ho₁ (by omega) (by omega)
    exact ⟨ho₀, fun h => hmem₀ (hmem h)⟩

/-- A word that keeps its backslashes and double quotes has no single quote in its value. -/
theorem quote_notMem_of_wordValue {text out : List Char} (h : wordValue text = some out)
    (hb : out.count backslash = text.count backslash) (hd : out.count dquote = text.count dquote) : quote ∉ out := by
  obtain ⟨⟨m, out'⟩, hreads, h⟩ := Option.bind_eq_some_iff.1 h
  cases m with
  | plain tilde =>
    cases h
    obtain ⟨-, -, hq⟩ := balance_reads hreads
    intro hmem
    have hnil := (hq trivial (by simpa [has] using hb) (by simpa [has] using hd)).2 hmem
    exact List.not_mem_nil hnil
  | _ => cases h

/-- A text in single quotes stands for itself. -/
theorem wordValue_single {text : List Char} (h : quote ∉ text) : wordValue (quote :: text ++ [quote]) = some text := by
  have hbody : ∀ out, text.foldlM step (.single, out) = some (.single, out ++ text) := by
    induction text with
    | nil => simp
    | cons c text ih =>
      intro out
      obtain ⟨hc, h⟩ := not_or.1 fun h' => h (List.mem_cons.2 h')
      have hstep : step (.single, out) c = some (.single, out ++ [c]) := by
        simp only [step]
        rw [if_neg (Ne.symm hc)]
      rw [List.foldlM_cons, hstep]
      show text.foldlM step (.single, out ++ [c]) = _
      rw [ih h, List.append_assoc, List.singleton_append]
  unfold wordValue reads
  rw [List.cons_append, List.foldlM_cons]
  show ((text ++ [quote]).foldlM step (.single, [])).bind _ = _
  rw [List.foldlM_append, hbody]
  rfl

/-! ### A word in a file -/

theorem readFrom_append {t : List Char} (ht : '\n' ∉ t) (u : List Char) (s : Mode × List Char) :
    readFrom (t ++ u) s = (t.foldlM step s).bind (readFrom u) := by
  induction t generalizing s with
  | nil => rfl
  | cons c t ih =>
    obtain ⟨hc, ht⟩ := not_or.1 fun h => ht (List.mem_cons.2 h)
    rw [List.foldlM_cons, List.cons_append, readFrom, if_neg fun h => hc h.2.symm]
    show (step s c).bind _ = ((step s c).bind _).bind _
    rw [Option.bind_assoc]
    refine Option.bind_congr fun s' _ => ih ht s'

theorem length_of_readFrom {file v rest : List Char} {s : Mode × List Char} (h : readFrom file s = some (v, rest)) :
    rest.length ≤ file.length - 1 := by
  induction file generalizing s with
  | nil =>
    unfold readFrom at h
    split at h
    · cases h
      rfl
    · cases h
  | cons c file ih =>
    unfold readFrom at h
    split at h
    · cases h
      simp
    · obtain ⟨s', -, h⟩ := Option.bind_eq_some_iff.1 h
      have := ih h
      rw [List.length_cons]
      omega

/-- A line feed inside a word is not the end of its line, but for a backslash at the end of the file. -/
theorem escaped_of_readFrom {m : Mode} {out v rest : List Char} (hm : m.isPlain = false)
    (h : readFrom ('\n' :: rest) (m, out) = some (v, rest)) : ∃ tilde, m = .escaped tilde ∧ v = out := by
  rw [readFrom, if_neg (by simp [hm])] at h
  obtain ⟨s', hs', h⟩ := Option.bind_eq_some_iff.1 h
  have hlen := length_of_readFrom h
  have hrest : rest = [] := List.eq_nil_of_length_eq_zero (by omega)
  subst hrest
  rw [readFrom] at h
  split at h
  · rename_i hplain
    cases h
    cases m with
    | plain tilde => cases hm
    | escaped tilde =>
      refine ⟨tilde, rfl, ?_⟩
      cases hs'
      rfl
    | single =>
      cases hs'
      cases hplain
    | double =>
      cases hs'
      cases hplain
    | doubleEscaped =>
      cases hs'
      cases hplain
  · cases h

/-- **A line of a file.**  A text without line feed is read to the end of its line as `v`, a value with as many
backslashes, exactly when it is one complete word with this value. -/
theorem readAssignment_eq_some_iff {text v : List Char} (ht : '\n' ∉ text)
    (hv : v.count backslash = text.count backslash) (rest : List Char) :
    readAssignment (text ++ '\n' :: rest) = some (v, rest) ↔ wordValue text = some v := by
  unfold readAssignment wordValue
  rw [readFrom_append ht]
  show (reads text).bind _ = _ ↔ _
  rcases hr : reads text with _ | ⟨m, out⟩
  · simp
  · rw [Option.bind_some, Option.bind_some]
    rcases hm : m.isPlain with _ | _
    · refine iff_of_false (fun h => ?_) (by simp)
      obtain ⟨tilde, rfl, rfl⟩ := escaped_of_readFrom hm h
      obtain ⟨hb, -, -⟩ := balance_reads hr
      simp only [has, backslash_escaped, held_plain, List.count_nil] at hb
      omega
    · rw [readFrom, if_pos ⟨hm, rfl⟩]
      simp

end MiniSbAgent.Posix.Shell
