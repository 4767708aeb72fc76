import MiniSbAgent.Go.Utf8

/-!
# A part of `grep`

Extended regular expressions of plain texts, a character class with a star, and alternatives of plain texts in parentheses;
`readEre` reads their usual notation and nothing else.  `grep` asks for a line with a match in it.

* `Ere.lang` — the words of an expression, as a language;
* `Ere.rests` — what is left of a text after each match at its front, by which `grep` is computed;
* `mem_rests_iff`, `grep_iff` — so `grep` finds exactly the texts with a line that contains a word of the language.
-/

namespace MiniSbAgent.Posix.Grep

open MiniSbAgent.Go (Bytes bytes)

inductive CharClass where
  /-- `[:space:]`, in the C locale -/
  | space
deriving Repr, DecidableEq

def CharClass.has : CharClass → UInt8 → Bool
  | .space, b => b == 32 || decide (9 ≤ b.toNat ∧ b.toNat ≤ 13)

inductive Ere where
  | text (w : Bytes)
  /-- any number of characters of a class -/
  | many (c : CharClass)
  | oneOf (ws : List Bytes)
  | seq (r s : Ere)
deriving Repr, DecidableEq

/-! ### Reading an expression -/

def isPlain (c : Char) : Bool := !".[]()*+?\x7b\x7d|^$\\".toList.contains c

/-- Each round takes at least one character. -/
def readEreFrom : ℕ → List Char → Option Ere
  | 0, _ => none
  | _ + 1, [] => some (.text [])
  | fuel + 1, c :: cs =>
    if "[[:space:]]*".toList.isPrefixOf (c :: cs) then (readEreFrom fuel ((c :: cs).drop 12)).map (.seq (.many .space))
    else if c = '(' then
      let ws := (cs.takeWhile (· ≠ ')')).splitOn '|'
      if ws.all (·.all isPlain) then
        match cs.dropWhile (· ≠ ')') with
        | [] => none
        | _ :: cs => (readEreFrom fuel cs).map (.seq (.oneOf (ws.map fun w => bytes (String.ofList w))))
      else none
    else if isPlain c then
      (readEreFrom fuel (cs.dropWhile isPlain)).map (.seq (.text (bytes (String.ofList (c :: cs.takeWhile isPlain)))))
    else none

def readEre (pattern : String) : Option Ere := readEreFrom (pattern.toList.length + 1) pattern.toList

/-! ### Matching -/

/-- The words of an expression. -/
def Ere.lang : Ere → Language UInt8
  | .text w => {w}
  | .many c => {w | ∀ b ∈ w, c.has b = true}
  | .oneOf ws => {w | w ∈ ws}
  | .seq r s => r.lang * s.lang

section Membership

variable {e : Ere} {w : Bytes}

theorem mem_lang_text {v : Bytes} : w ∈ (Ere.text v).lang ↔ w = v := Iff.rfl

theorem mem_lang_seq {r s : Ere} : w ∈ (Ere.seq r s).lang ↔ ∃ a ∈ r.lang, ∃ b ∈ s.lang, a ++ b = w := Language.mem_mul

theorem mem_lang_text_seq {v : Bytes} : w ∈ (Ere.seq (.text v) e).lang ↔ ∃ b ∈ e.lang, v ++ b = w := by
  rw [mem_lang_seq]
  constructor
  · rintro ⟨_, rfl, h⟩
    exact h
  · exact fun h => ⟨v, rfl, h⟩

theorem mem_lang_many_seq {c : CharClass} :
    w ∈ (Ere.seq (.many c) e).lang ↔ ∃ a, (∀ b ∈ a, c.has b = true) ∧ ∃ b ∈ e.lang, a ++ b = w := mem_lang_seq

theorem mem_lang_oneOf_seq {ws : List Bytes} :
    w ∈ (Ere.seq (.oneOf ws) e).lang ↔ ∃ a ∈ ws, ∃ b ∈ e.lang, a ++ b = w := mem_lang_seq

end Membership

/-- What is left after a word. -/
def restOf (w xs : Bytes) : List Bytes := if w.isPrefixOf xs then [xs.drop w.length] else []

def restsOfMany (c : CharClass) : Bytes → List Bytes
  | [] => [[]]
  | x :: xs => (x :: xs) :: if c.has x then restsOfMany c xs else []

/-- What is left of a text after each match at its front. -/
def Ere.rests : Ere → Bytes → List Bytes
  | .text w, xs => restOf w xs
  | .many c, xs => restsOfMany c xs
  | .oneOf ws, xs => ws.flatMap fun w => restOf w xs
  | .seq r s, xs => (r.rests xs).flatMap s.rests

/-- The lines of a file; the last one need not end with a line feed. -/
def fileLines (file : Bytes) : List Bytes :=
  let ls := file.splitOn 10
  if ls.getLast? = some [] then ls.dropLast else ls

def grep (e : Ere) (file : Bytes) : Bool :=
  (fileLines file).any fun line => line.tails.any fun xs => !(e.rests xs).isEmpty

theorem mem_restOf_iff {w xs r : Bytes} : r ∈ restOf w xs ↔ w ++ r = xs := by
  unfold restOf
  split
  · rename_i h
    obtain ⟨r', rfl⟩ := List.isPrefixOf_iff_prefix.1 h
    rw [List.drop_left, List.mem_singleton, List.append_cancel_left_eq]
  · rename_i h
    exact iff_of_false List.not_mem_nil fun h' => h (List.isPrefixOf_iff_prefix.2 ⟨r, h'⟩)

theorem mem_restsOfMany_iff {c : CharClass} {xs r : Bytes} :
    r ∈ restsOfMany c xs ↔ ∃ w, (∀ b ∈ w, c.has b = true) ∧ w ++ r = xs := by
  induction xs with
  | nil =>
    rw [restsOfMany, List.mem_singleton]
    constructor
    · rintro rfl
      exact ⟨[], List.forall_mem_nil _, rfl⟩
    · rintro ⟨w, -, h⟩
      exact (List.append_eq_nil_iff.1 h).2
  | cons x xs ih =>
    have hcons : r ∈ restsOfMany c (x :: xs) ↔ r = x :: xs ∨ c.has x = true ∧ r ∈ restsOfMany c xs := by
      rw [restsOfMany, List.mem_cons]
      split
      · rename_i h
        simp [h]
      · rename_i h
        simp [h]
    rw [hcons, ih]
    constructor
    · rintro (rfl | ⟨hx, w, hw, h⟩)
      · exact ⟨[], List.forall_mem_nil _, rfl⟩
      · exact ⟨x :: w, List.forall_mem_cons.2 ⟨hx, hw⟩, by rw [List.cons_append, h]⟩
    · rintro ⟨_ | ⟨y, w⟩, hw, h⟩
      · exact Or.inl h
      · obtain ⟨rfl, hrest⟩ := List.cons.inj h
        obtain ⟨hy, hw⟩ := List.forall_mem_cons.1 hw
        exact Or.inr ⟨hy, w, hw, hrest⟩

/-- **Matches at the front.**  By induction on the expression. -/
theorem mem_rests_iff {e : Ere} {xs r : Bytes} : r ∈ e.rests xs ↔ ∃ w ∈ e.lang, w ++ r = xs := by
  induction e generalizing xs r with
  | text w =>
    show r ∈ restOf w xs ↔ _
    rw [mem_restOf_iff]
    constructor
    · exact fun h => ⟨w, rfl, h⟩
    · rintro ⟨_, rfl, h⟩
      exact h
  | many c => exact mem_restsOfMany_iff
  | oneOf ws =>
    show r ∈ ws.flatMap _ ↔ _
    rw [List.mem_flatMap]
    simp only [mem_restOf_iff]
    rfl
  | seq e f ihe ihf =>
    show r ∈ (e.rests xs).flatMap f.rests ↔ ∃ w ∈ e.lang * f.lang, _
    rw [List.mem_flatMap]
    constructor
    · rintro ⟨ys, hys, hr⟩
      obtain ⟨v, hv, rfl⟩ := ihe.1 hys
      obtain ⟨w, hw, rfl⟩ := ihf.1 hr
      exact ⟨v ++ w, Language.append_mem_mul hv hw, List.append_assoc v w r⟩
    · rintro ⟨_, hvw, rfl⟩
      obtain ⟨v, hv, w, hw, rfl⟩ := mem_lang_seq.1 hvw
      exact ⟨w ++ r, ihe.2 ⟨v, hv, (List.append_assoc v w r).symm⟩, ihf.2 ⟨w, hw, rfl⟩⟩

/-- **`grep`** finds a line that contains a word of the expression. -/
theorem grep_iff {e : Ere} {file : Bytes} :
    grep e file = true ↔ ∃ line ∈ fileLines file, ∃ w ∈ e.lang, w <:+: line := by
  unfold grep
  rw [List.any_eq_true]
  refine exists_congr fun line => and_congr_right fun _ => ?_
  rw [List.any_eq_true]
  constructor
  · rintro ⟨xs, hxs, h⟩
    obtain ⟨a, rfl⟩ := (List.mem_tails _ _).1 hxs
    obtain ⟨r, hr⟩ := List.exists_mem_of_ne_nil (e.rests xs) (by simpa using h)
    obtain ⟨w, hw, rfl⟩ := mem_rests_iff.1 hr
    exact ⟨w, hw, a, r, List.append_assoc a w r⟩
  · rintro ⟨w, hw, a, r, rfl⟩
    refine ⟨w ++ r, (List.mem_tails _ _).2 ⟨a, (List.append_assoc a w r).symm⟩, ?_⟩
    have hr : r ∈ e.rests (w ++ r) := mem_rests_iff.2 ⟨w, hw, rfl⟩
    simpa using List.ne_nil_of_mem hr

end MiniSbAgent.Posix.Grep
