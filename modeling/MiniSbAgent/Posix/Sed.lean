import Mathlib

/-!
# A part of `sed`

Scripts of substitutions, separated by semicolons.  A substitution may be restricted to one line or to the last one; its
pattern is one ordinary character or an anchor, and a replacement has no backreference.  Everything else is not read
(`none`).  In a replacement a backslash before a quote, a backslash, the delimiter or an ampersand stands for this
character, as GNU and BusyBox have it.
-/

namespace MiniSbAgent.Posix.Sed

inductive Address where
  | every
  | line (n : ℕ)
  | last
deriving Repr, DecidableEq

inductive Pattern where
  | char (c : Char)
  /-- `^` -/
  | start
  /-- `$` -/
  | stop
deriving Repr, DecidableEq

structure Subst where
  address : Address
  pattern : Pattern
  replacement : List Char
  /-- the flag `g` -/
  all : Bool
deriving Repr, DecidableEq

/-! ### Reading a script -/

/-- The text up to the next delimiter, in which backslashes keep what follows them. -/
def part (delimiter : Char) : List Char → Option (List Char × List Char)
  | [] => none
  | c :: cs =>
    if c = delimiter then some ([], cs)
    else if c = '\x5c' then
      match cs with
      | [] => none
      | d :: cs => (part delimiter cs).map fun r => (c :: d :: r.1, r.2)
    else (part delimiter cs).map fun r => (c :: r.1, r.2)

def readPattern : List Char → Option Pattern
  | ['^'] => some .start
  | ['$'] => some .stop
  | [c] => if ".[]*\\".toList.contains c then none else some (.char c)
  | _ => none

def readReplacement (delimiter : Char) : List Char → Option (List Char)
  | [] => some []
  | c :: cs =>
    if c = '\x5c' then
      match cs with
      | [] => none
      | d :: cs =>
        if d = delimiter ∨ "'\"&\\".toList.contains d then (readReplacement delimiter cs).map (d :: ·) else none
    else if c = '&' then none
    else (readReplacement delimiter cs).map (c :: ·)

def readAddress (cs : List Char) : Address × List Char :=
  match cs with
  | '$' :: cs => (.last, cs)
  | cs =>
    match cs.takeWhile Char.isDigit with
    | [] => (.every, cs)
    | ds => (.line (ds.foldl (fun n d => 10 * n + (d.toNat - 48)) 0), cs.dropWhile Char.isDigit)

def readSubst (cs : List Char) : Option (Subst × List Char) :=
  match readAddress (cs.dropWhile (· = ' ')) with
  | (address, 's' :: delimiter :: cs) => do
    let (pattern, cs) ← part delimiter cs
    let (replacement, cs) ← part delimiter cs
    let pattern ← readPattern pattern
    let replacement ← readReplacement delimiter replacement
    match cs with
    | 'g' :: cs => some (⟨address, pattern, replacement, true⟩, cs)
    | cs => some (⟨address, pattern, replacement, false⟩, cs)
  | _ => none

/-- A script; every command takes at least one character. -/
def readScript : ℕ → List Char → Option (List Subst)
  | 0, _ => none
  | fuel + 1, cs => do
    let (cmd, cs) ← readSubst cs
    match cs with
    | [] => some [cmd]
    | ';' :: cs => (readScript fuel cs).map (cmd :: ·)
    | _ => none

def script (text : List Char) : Option (List Subst) := readScript text.length text

/-! ### Running it -/

/-- The lines of an input, and whether each ends with a line feed. -/
def lines : List Char → List (List Char × Bool)
  | [] => []
  | c :: cs =>
    if c = '\n' then ([], true) :: lines cs
    else match lines cs with
      | [] => [([c], false)]
      | (l, ends) :: ls => (c :: l, ends) :: ls

def replaceFirst (c : Char) (replacement : List Char) : List Char → List Char
  | [] => []
  | x :: xs => if x = c then replacement ++ xs else x :: replaceFirst c replacement xs

def Subst.on (cmd : Subst) (line : List Char) : List Char :=
  match cmd.pattern with
  | .char c =>
    if cmd.all then line.flatMap fun x => if x = c then cmd.replacement else [x]
    else replaceFirst c cmd.replacement line
  | .start => cmd.replacement ++ line
  | .stop => line ++ cmd.replacement

/-- The command meets line `i` of `count`. -/
def Subst.run (i count : ℕ) (line : List Char) (cmd : Subst) : List Char :=
  match cmd.address with
  | .every => cmd.on line
  | .line n => if i = n then cmd.on line else line
  | .last => if i = count then cmd.on line else line

def sed (cmds : List Subst) (input : List Char) : List Char :=
  let ls := lines input
  (ls.zipIdx 1).flatMap fun l => cmds.foldl (Subst.run l.2 ls.length) l.1.1 ++ if l.1.2 then ['\n'] else []

/-- An input without line feed is one line. -/
theorem lines_of_notMem {input : List Char} (h : '\n' ∉ input) (hne : input ≠ []) : lines input = [(input, false)] := by
  induction input with
  | nil => exact absurd rfl hne
  | cons c cs ih =>
    obtain ⟨hc, hcs⟩ := not_or.1 fun h' => h (List.mem_cons.2 h')
    rw [lines, if_neg (Ne.symm hc)]
    rcases cs with _ | ⟨d, cs⟩
    · rfl
    · rw [ih hcs (List.cons_ne_nil _ _)]

theorem sed_of_notMem (cmds : List Subst) {input : List Char} (h : '\n' ∉ input) (hne : input ≠ []) :
    sed cmds input = cmds.foldl (Subst.run 1 1) input := by
  unfold sed
  rw [lines_of_notMem h hne]
  simp

end MiniSbAgent.Posix.Sed
