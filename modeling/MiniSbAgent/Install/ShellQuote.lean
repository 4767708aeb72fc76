import MiniSbAgent.Posix.Sed
import MiniSbAgent.Posix.Shell

/-!
# Quoting for the env file (`install.sh`)

`shell_quote` puts a value between single quotes by a `sed` script, which stands in the installer between double quotes;
`run.sh` and `generate-config.sh` source the file that the results are written to.  A text passes three readers: the shell
reads the script, `sed` reads its replacements, and the shell reads the file.

* `quoteCommands_eq` — the three substitutions that `sed` is left with: a single quote becomes three of them;
* `shellQuote_eq` — so a value without line feed goes between quotes, with its own quotes tripled;
* `shellQuote_read_iff` — it is read back exactly when it had none.
-/

namespace MiniSbAgent.Install

open Posix Posix.Shell Posix.Sed

/-- The argument of `sed`, as the installer has it. -/
def quoteScript : List Char := "\"s/'/'\\\\''/g; 1s/^/'/; \\$s/\\$/'/\"".toList

/-- What `sed` reads in it. -/
def quoteCommands : List Subst := ((wordValue quoteScript).bind script).getD []

def shellQuote (s : String) : List Char := sed quoteCommands s.toList

/-- `$(shell_quote ...)`: the shell removes line feeds at the end. -/
def envValue (s : String) : List Char := (shellQuote s).rdropWhile (· = '\n')

theorem quoteCommands_eq :
    quoteCommands = [⟨.every, .char quote, [quote, quote, quote], true⟩, ⟨.line 1, .start, [quote], false⟩,
      ⟨.last, .stop, [quote], false⟩] := by
  decide +kernel

/-- Every quote becomes three. -/
def tripled (s : List Char) : List Char := s.flatMap fun c => if c = quote then [quote, quote, quote] else [c]

theorem shellQuote_eq {s : String} (hs : '\n' ∉ s.toList) (hne : s.toList ≠ []) :
    shellQuote s = quote :: tripled s.toList ++ [quote] := by
  unfold shellQuote
  rw [sed_of_notMem _ hs hne, quoteCommands_eq]
  rfl

section Tripled

variable {s : List Char}

theorem count_tripled {c : Char} (hc : quote ≠ c) : (tripled s).count c = s.count c := by
  induction s with
  | nil => rfl
  | cons x s ih =>
    have hcons : tripled (x :: s) = (if x = quote then [quote, quote, quote] else [x]) ++ tripled s := rfl
    rw [hcons, List.count_append, ih]
    split
    · rename_i hx
      rw [hx, List.count_cons_of_ne hc]
      simp [hc]
    · rw [← List.count_append, List.singleton_append]

theorem mem_of_mem_tripled {c : Char} (h : c ∈ tripled s) : c ∈ s := by
  obtain ⟨x, hx, hc⟩ := List.mem_flatMap.1 h
  split at hc
  · rename_i hq
    simp only [List.mem_cons, List.not_mem_nil, or_false, or_self] at hc
    rw [hc, ← hq]
    exact hx
  · rw [List.mem_singleton.1 hc]
    exact hx

theorem tripled_of_notMem (h : quote ∉ s) : tripled s = s := by
  unfold tripled
  rw [List.flatMap_congr (g := fun c => [c])]
  · simp
  · intro c hc
    rw [if_neg]
    rintro rfl
    exact h hc

end Tripled

theorem envValue_eq {s : String} (hs : '\n' ∉ s.toList) (hne : s.toList ≠ []) :
    envValue s = quote :: tripled s.toList ++ [quote] := by
  unfold envValue
  rw [shellQuote_eq hs hne, List.rdropWhile_concat_neg _ _ _ (by decide)]

/-- **`shell_quote`.**  A value without line feed, written to the env file, is one complete word there, and the shell that
sources the file reads exactly the value, whatever follows, if and only if the value has no single quote. -/
theorem shellQuote_read_iff (s : String) (hs : '\n' ∉ s.toList) (rest : List Char) :
    readAssignment (envValue s ++ '\n' :: rest) = some (s.toList, rest) ↔ quote ∉ s.toList := by
  by_cases hne : s.toList = []
  · have hs' : s = "" := String.toList_eq_nil_iff.1 hne
    subst hs'
    exact iff_of_true rfl List.not_mem_nil
  · have hcount : ∀ c, quote ≠ c → s.toList.count c = (quote :: tripled s.toList ++ [quote]).count c := by
      intro c hc
      rw [List.cons_append, List.count_cons_of_ne hc, List.count_append, count_tripled hc]
      simp [hc]
    have hline : '\n' ∉ quote :: tripled s.toList ++ [quote] := by
      intro h
      simp only [List.cons_append, List.mem_cons, List.mem_append, List.not_mem_nil, or_false] at h
      rcases h with h | h | h
      · exact absurd h (by decide)
      · exact hs (mem_of_mem_tripled h)
      · exact absurd h (by decide)
    rw [envValue_eq hs hne, readAssignment_eq_some_iff hline (hcount _ (by decide))]
    constructor
    · intro h
      exact quote_notMem_of_wordValue h (hcount _ (by decide)) (hcount _ (by decide))
    · intro h
      rw [tripled_of_notMem h]
      exact wordValue_single h

/-- Blanks, dollars, semicolons, backslashes and double quotes come back. -/
theorem shellQuote_read_special :
    readAssignment (envValue "a $b;\\ \"c\"" ++ '\n' :: "X=1".toList) = some ("a $b;\\ \"c\"".toList, "X=1".toList) :=
  (shellQuote_read_iff _ (by decide +kernel) _).2 (by decide +kernel)

/-- A quote in the value leaves the word open, or ends it before a command. -/
theorem shellQuote_breaks :
    (envValue "it's" = "'it'''s'".toList ∧ readAssignment (envValue "it's" ++ ['\n']) = none) ∧
    envValue "';reboot;'" = "'''';reboot;''''".toList ∧ wordValue "''''".toList = some [] ∧
      readAssignment (envValue "';reboot;'" ++ ['\n']) = none := by
  decide +kernel

end MiniSbAgent.Install
