import Mathlib

/-!
# Go strings, runes and 64-bit integers

A string is a sequence of runes.  What the standard library does on it is written rune by rune:

* `toLower`, `trimSpace`, `trim`, `contains` — the functions of package `strings`, over all of Unicode;
* `fields`, `cut`, `startsWith` — the ones that take a line apart;
* `replaceRuns` — `ReplaceAllString` for a pattern that is one character class repeated;
* `itoa`, `atoi`, `parseHex` — `strconv.Itoa` (and `fmt.Sprint` of an `int`), `strconv.Atoi` and `ParseInt` with
  base 16;
* `wrap64` — the `int64` that an integer result is stored as.
-/

namespace MiniSbAgent.Go

/-! ### 64-bit integers -/

/-- The largest `int64`, which is also the largest `int`. -/
def maxInt64 : ℤ := 2 ^ 63 - 1

/-- The `int64` with the same last 64 bits. -/
def wrap64 (x : ℤ) : ℤ := Int.bmod x (2 ^ 64)

theorem wrap64_wrap64_add (x y : ℤ) : wrap64 (wrap64 x + y) = wrap64 (x + y) := by
  unfold wrap64
  exact Int.bmod_add_bmod

theorem wrap64_of_le {x : ℤ} (h0 : 0 ≤ x) (h1 : x ≤ maxInt64) : wrap64 x = x := by
  unfold maxInt64 at h1
  unfold wrap64
  exact Int.bmod_eq_of_le (by omega) (by omega)

/-! ### Case and white space -/

/-- The runes outside ASCII that have a lower case: first, last, stride and distance of each range. -/
def lowerRanges : List (ℕ × ℕ × ℕ × ℤ) :=
  [(192, 214, 1, 32), (216, 222, 1, 32), (256, 302, 2, 1), (304, 304, 1, -199), (306, 310, 2, 1),
   (313, 327, 2, 1), (330, 374, 2, 1), (376, 376, 1, -121), (377, 381, 2, 1), (385, 385, 1, 210),
   (386, 388, 2, 1), (390, 390, 1, 206), (391, 391, 1, 1), (393, 394, 1, 205), (395, 395, 1, 1),
   (398, 398, 1, 79), (399, 399, 1, 202), (400, 400, 1, 203), (401, 401, 1, 1), (403, 403, 1, 205),
   (404, 404, 1, 207), (406, 406, 1, 211), (407, 407, 1, 209), (408, 408, 1, 1), (412, 412, 1, 211),
   (413, 413, 1, 213), (415, 415, 1, 214), (416, 420, 2, 1), (422, 422, 1, 218), (423, 423, 1, 1),
   (425, 425, 1, 218), (428, 428, 1, 1), (430, 430, 1, 218), (431, 431, 1, 1), (433, 434, 1, 217),
   (435, 437, 2, 1), (439, 439, 1, 219), (440, 440, 1, 1), (444, 444, 1, 1), (452, 452, 1, 2), (453, 453, 1, 1),
   (455, 455, 1, 2), (456, 456, 1, 1), (458, 458, 1, 2), (459, 475, 2, 1), (478, 494, 2, 1), (497, 497, 1, 2),
   (498, 500, 2, 1), (502, 502, 1, -97), (503, 503, 1, -56), (504, 542, 2, 1), (544, 544, 1, -130),
   (546, 562, 2, 1), (570, 570, 1, 10795), (571, 571, 1, 1), (573, 573, 1, -163), (574, 574, 1, 10792),
   (577, 577, 1, 1), (579, 579, 1, -195), (580, 580, 1, 69), (581, 581, 1, 71), (582, 590, 2, 1),
   (880, 882, 2, 1), (886, 886, 1, 1), (895, 895, 1, 116), (902, 902, 1, 38), (904, 906, 1, 37),
   (908, 908, 1, 64), (910, 911, 1, 63), (913, 929, 1, 32), (931, 939, 1, 32), (975, 975, 1, 8),
   (984, 1006, 2, 1), (1012, 1012, 1, -60), (1015, 1015, 1, 1), (1017, 1017, 1, -7), (1018, 1018, 1, 1),
   (1021, 1023, 1, -130), (1024, 1039, 1, 80), (1040, 1071, 1, 32), (1120, 1152, 2, 1), (1162, 1214, 2, 1),
   (1216, 1216, 1, 15), (1217, 1229, 2, 1), (1232, 1326, 2, 1), (1329, 1366, 1, 48), (4256, 4293, 1, 7264),
   (4295, 4295, 1, 7264), (4301, 4301, 1, 7264), (5024, 5103, 1, 38864), (5104, 5109, 1, 8),
   (7312, 7354, 1, -3008), (7357, 7359, 1, -3008), (7680, 7828, 2, 1), (7838, 7838, 1, -7615),
   (7840, 7934, 2, 1), (7944, 7951, 1, -8), (7960, 7965, 1, -8), (7976, 7983, 1, -8), (7992, 7999, 1, -8),
   (8008, 8013, 1, -8), (8025, 8031, 2, -8), (8040, 8047, 1, -8), (8072, 8079, 1, -8), (8088, 8095, 1, -8),
   (8104, 8111, 1, -8), (8120, 8121, 1, -8), (8122, 8123, 1, -74), (8124, 8124, 1, -9), (8136, 8139, 1, -86),
   (8140, 8140, 1, -9), (8152, 8153, 1, -8), (8154, 8155, 1, -100), (8168, 8169, 1, -8), (8170, 8171, 1, -112),
   (8172, 8172, 1, -7), (8184, 8185, 1, -128), (8186, 8187, 1, -126), (8188, 8188, 1, -9),
   (8486, 8486, 1, -7517), (8490, 8490, 1, -8383), (8491, 8491, 1, -8262), (8498, 8498, 1, 28),
   (8544, 8559, 1, 16), (8579, 8579, 1, 1), (9398, 9423, 1, 26), (11264, 11311, 1, 48), (11360, 11360, 1, 1),
   (11362, 11362, 1, -10743), (11363, 11363, 1, -3814), (11364, 11364, 1, -10727), (11367, 11371, 2, 1),
   (11373, 11373, 1, -10780), (11374, 11374, 1, -10749), (11375, 11375, 1, -10783), (11376, 11376, 1, -10782),
   (11378, 11378, 1, 1), (11381, 11381, 1, 1), (11390, 11391, 1, -10815), (11392, 11490, 2, 1),
   (11499, 11501, 2, 1), (11506, 11506, 1, 1), (42560, 42604, 2, 1), (42624, 42650, 2, 1), (42786, 42798, 2, 1),
   (42802, 42862, 2, 1), (42873, 42875, 2, 1), (42877, 42877, 1, -35332), (42878, 42886, 2, 1),
   (42891, 42891, 1, 1), (42893, 42893, 1, -42280), (42896, 42898, 2, 1), (42902, 42920, 2, 1),
   (42922, 42922, 1, -42308), (42923, 42923, 1, -42319), (42924, 42924, 1, -42315), (42925, 42925, 1, -42305),
   (42926, 42926, 1, -42308), (42928, 42928, 1, -42258), (42929, 42929, 1, -42282), (42930, 42930, 1, -42261),
   (42931, 42931, 1, 928), (42932, 42946, 2, 1), (42948, 42948, 1, -48), (42949, 42949, 1, -42307),
   (42950, 42950, 1, -35384), (42951, 42953, 2, 1), (42960, 42960, 1, 1), (42966, 42968, 2, 1),
   (42997, 42997, 1, 1), (65313, 65338, 1, 32), (66560, 66599, 1, 40), (66736, 66771, 1, 40),
   (66928, 66938, 1, 39), (66940, 66954, 1, 39), (66956, 66962, 1, 39), (66964, 66965, 1, 39),
   (68736, 68786, 1, 64), (71840, 71871, 1, 32), (93760, 93791, 1, 32), (125184, 125217, 1, 34)]

/-- `unicode.ToLower`. -/
def toLowerRune (c : Char) : Char :=
  if c.toNat < 128 then c.toLower
  else
    match lowerRanges.find? fun r => decide (r.1 ≤ c.toNat ∧ c.toNat ≤ r.2.1 ∧ (c.toNat - r.1) % r.2.2.1 = 0) with
    | some r => Char.ofNat ((c.toNat : ℤ) + r.2.2.2).toNat
    | none => c

/-- `strings.ToLower`. -/
def toLower (s : String) : String := String.ofList (s.toList.map toLowerRune)

/-- `unicode.IsSpace`. -/
def isSpace (c : Char) : Bool :=
  let n := c.toNat
  decide (9 ≤ n ∧ n ≤ 13) || n == 32 || n == 0x85 || n == 0xA0 || n == 0x1680 ||
    decide (0x2000 ≤ n ∧ n ≤ 0x200A) || n == 0x2028 || n == 0x2029 || n == 0x202F || n == 0x205F || n == 0x3000

/-- The runes between the first and the last one that `p` does not drop. -/
def trimRunes (p : Char → Bool) (s : String) : String := String.ofList ((s.toList.dropWhile p).rdropWhile p)

/-- `strings.TrimSpace`. -/
def trimSpace (s : String) : String := trimRunes isSpace s

/-- `strings.Trim` with a cutset of one rune. -/
def trim (s : String) (cut : Char) : String := trimRunes (· == cut) s

/-- `strings.TrimRight` with a cutset of one rune. -/
def trimRight (s : String) (cut : Char) : String := String.ofList (s.toList.rdropWhile (· == cut))

/-- `strings.Contains`. -/
def contains (s sub : String) : Bool := decide (sub.toList <:+: s.toList)

theorem isSpace_eq_false {c : Char} (h : 33 ≤ c.toNat) (h' : c.toNat ≤ 0x84) : isSpace c = false := by
  unfold isSpace
  simp only [Bool.or_eq_false_iff, decide_eq_false_iff_not, beq_eq_false_iff_ne]
  omega

/-- No white space has another lower case. -/
theorem toLowerRune_of_isSpace {c : Char} (h : isSpace c = true) : toLowerRune c = c := by
  have hspaces : ∀ n ∈ [9, 10, 11, 12, 13, 32, 0x85, 0xA0, 0x1680, 0x2000, 0x2001, 0x2002, 0x2003, 0x2004, 0x2005,
      0x2006, 0x2007, 0x2008, 0x2009, 0x200A, 0x2028, 0x2029, 0x202F, 0x205F, 0x3000],
      toLowerRune (Char.ofNat n) = Char.ofNat n := by decide +kernel
  have hc := hspaces c.toNat (by
    simp only [isSpace, Bool.or_eq_true, decide_eq_true_eq, beq_iff_eq] at h
    simp only [List.mem_cons, List.not_mem_nil, or_false]
    omega)
  rwa [Char.ofNat_toNat] at hc

/-- Two runes outside ASCII have a lower case in it: the capital I with a dot and the Kelvin sign. -/
theorem toLowerRune_ascii {c : Char} (hc : 128 ≤ c.toNat) (h : (toLowerRune c).toNat < 128) :
    c.toNat = 304 ∨ c.toNat = 8490 := by
  have hranges : ∀ r ∈ lowerRanges, r.1 = 304 ∧ r.2.1 = 304 ∨ r.1 = 8490 ∧ r.2.1 = 8490 ∨
      128 ≤ (r.1 : ℤ) + r.2.2.2 ∧ ((r.2.1 : ℤ) + r.2.2.2 < 0xd800 ∨ 0xdfff < (r.1 : ℤ) + r.2.2.2) ∧
        (r.2.1 : ℤ) + r.2.2.2 < 0x110000 := by decide +kernel
  unfold toLowerRune at h
  rw [if_neg (by omega)] at h
  split at h
  · rename_i r hr
    have hin := List.find?_some hr
    simp only [decide_eq_true_eq] at hin
    rcases hranges r (List.mem_of_find?_eq_some hr) with h1 | h1 | ⟨h1, h2, h3⟩
    · left
      omega
    · right
      omega
    · -- every other range ends up outside ASCII
      have hvalid : (((c.toNat : ℤ) + r.2.2.2).toNat).isValidChar := by
        rcases h2 with h2 | h2
        · exact Or.inl (by omega)
        · exact Or.inr ⟨by omega, by omega⟩
      rw [Char.toNat_ofNat, if_pos hvalid] at h
      omega
  · omega

theorem trimRunes_of_all {p : Char → Bool} {s : String} (h : ∀ c ∈ s.toList, p c = false) : trimRunes p s = s := by
  unfold trimRunes
  have hdrop : s.toList.dropWhile p = s.toList := List.dropWhile_eq_self_iff.2 fun hl => by
    simp [h _ (List.getElem_mem hl)]
  have hrdrop : s.toList.rdropWhile p = s.toList := List.rdropWhile_eq_self_iff.2 fun hl => by
    simp [h _ (List.getLast_mem hl)]
  rw [hdrop, hrdrop, String.ofList_toList]

theorem trimRunes_trimRunes (p : Char → Bool) (s : String) : trimRunes p (trimRunes p s) = trimRunes p s := by
  unfold trimRunes
  rw [String.toList_ofList]
  have hdrop : ((s.toList.dropWhile p).rdropWhile p).dropWhile p = (s.toList.dropWhile p).rdropWhile p := by
    refine List.dropWhile_eq_self_iff.2 fun hl => ?_
    have hpre := List.rdropWhile_prefix p (s.toList.dropWhile p)
    rw [hpre.getElem hl]
    exact List.dropWhile_get_zero_not p s.toList (lt_of_lt_of_le hl hpre.length_le)
  rw [hdrop, List.rdropWhile_idempotent]

/-- Trimming keeps every rune that is not in the cutset. -/
theorem mem_trimRunes {p : Char → Bool} {s : String} {c : Char} (hc : c ∈ s.toList) (hp : p c = false) :
    c ∈ (trimRunes p s).toList := by
  have hkeep : ∀ l : List Char, c ∈ l → c ∈ l.dropWhile p := by
    intro l hl
    rw [← List.takeWhile_append_dropWhile (p := p) (l := l)] at hl
    rcases List.mem_append.1 hl with hl | hl
    · have := List.mem_takeWhile_imp hl
      rw [hp] at this
      cases this
    · exact hl
  unfold trimRunes
  rw [String.toList_ofList, List.rdropWhile, List.mem_reverse]
  exact hkeep _ (List.mem_reverse.2 (hkeep _ hc))

/-- What trimming leaves alone has nothing to drop at either end. -/
theorem drop_of_trimRunes_eq {p : Char → Bool} {s : String} (h : trimRunes p s = s) :
    s.toList.dropWhile p = s.toList ∧ s.toList.rdropWhile p = s.toList := by
  have hlist : (s.toList.dropWhile p).rdropWhile p = s.toList := by
    have := congrArg String.toList h
    rwa [trimRunes, String.toList_ofList] at this
  have hlen := congrArg List.length hlist
  have hle := (List.rdropWhile_prefix p (s.toList.dropWhile p)).length_le
  have hle' := (List.dropWhile_suffix (l := s.toList) p).length_le
  have hdrop : s.toList.dropWhile p = s.toList := (List.dropWhile_suffix _).eq_of_length (by omega)
  rw [hdrop] at hlist
  exact ⟨hdrop, hlist⟩

/-- A string whose lower case has no white space is its own `TrimSpace`. -/
theorem trimSpace_of_toLower {s : String} (h : ∀ c ∈ (toLower s).toList, isSpace c = false) : trimSpace s = s := by
  refine trimRunes_of_all fun c hc => ?_
  by_contra hspace
  have hspace : isSpace c = true := by simpa using hspace
  have hlow := h (toLowerRune c) (by simpa [toLower] using ⟨c, hc, rfl⟩)
  rw [toLowerRune_of_isSpace hspace, hspace] at hlow
  cases hlow

theorem rdropWhile_append {α : Type} {p : α → Bool} {xs : List α} (hne : xs ≠ []) (hlast : p (xs.getLast hne) = false)
    (ys : List α) : (xs ++ ys).rdropWhile p = xs ++ ys.rdropWhile p := by
  induction ys using List.reverseRecOn with
  | nil =>
    rw [List.append_nil, List.rdropWhile_nil, List.append_nil]
    exact List.rdropWhile_eq_self_iff.2 fun _ => by simp [hlast]
  | append_singleton ys y ih =>
    rw [← List.append_assoc]
    by_cases hy : p y = true
    · rw [List.rdropWhile_concat_pos _ _ _ hy, List.rdropWhile_concat_pos _ _ _ hy, ih]
    · rw [List.rdropWhile_concat_neg _ _ _ hy, List.rdropWhile_concat_neg _ _ _ hy, List.append_assoc]

/-- A text that starts with a word keeps it when it is trimmed. -/
theorem trimSpace_append {xs : List Char} (hne : xs ≠ []) (hhead : isSpace (xs.head hne) = false)
    (hlast : isSpace (xs.getLast hne) = false) (ys : List Char) :
    (trimSpace (String.ofList (xs ++ ys))).toList = xs ++ ys.rdropWhile isSpace := by
  obtain ⟨x, xs, rfl⟩ := List.exists_cons_of_ne_nil hne
  have hx : ¬ isSpace x = true := by simpa using hhead
  unfold trimSpace trimRunes
  rw [String.toList_ofList, String.toList_ofList, List.cons_append, List.dropWhile_cons_of_neg hx,
    ← List.cons_append, rdropWhile_append hne hlast]

/-! ### Taking a line apart -/

/-- `strings.TrimRight`. -/
def trimRightSet (s cutset : String) : String :=
  String.ofList (s.toList.rdropWhile fun c => cutset.toList.contains c)

/-- `strings.HasPrefix`; the name of the source ends in a word that Lean keeps for itself. -/
def startsWith (s pre : String) : Bool := pre.toList.isPrefixOf s.toList

/-- `strings.Fields`. -/
def fields (s : String) : List String :=
  ((s.toList.splitOnP isSpace).filter fun w => !w.isEmpty).map String.ofList

/-- The runes before and after the first `sep`. -/
def cutRunes (sep : Char) : List Char → Option (List Char × List Char)
  | [] => none
  | c :: cs => if c = sep then some ([], cs) else (cutRunes sep cs).map fun p => (c :: p.1, p.2)

/-- `strings.Cut`, or slicing at what `IndexByte` finds. -/
def cut (s : String) (sep : Char) : Option (String × String) :=
  (cutRunes sep s.toList).map fun p => (String.ofList p.1, String.ofList p.2)

theorem cutRunes_eq_none {sep : Char} {cs : List Char} (h : sep ∉ cs) : cutRunes sep cs = none := by
  induction cs with
  | nil => rfl
  | cons c cs ih =>
    rw [List.mem_cons, not_or] at h
    rw [cutRunes, if_neg (Ne.symm h.1), ih h.2, Option.map_none]

theorem cutRunes_append {sep : Char} {xs : List Char} (h : sep ∉ xs) (ys : List Char) :
    cutRunes sep (xs ++ sep :: ys) = some (xs, ys) := by
  induction xs with
  | nil => rw [List.nil_append, cutRunes, if_pos rfl]
  | cons x xs ih =>
    rw [List.mem_cons, not_or] at h
    rw [List.cons_append, cutRunes, if_neg (Ne.symm h.1), ih h.2, Option.map_some]

/-- White space at the ends makes no field. -/
theorem fields_trimSpace (s : String) : fields (trimSpace s) = fields s := by
  have hdrop : ∀ cs : List Char, ((cs.dropWhile isSpace).splitOnP isSpace).filter (fun w => !w.isEmpty) =
      (cs.splitOnP isSpace).filter fun w => !w.isEmpty := by
    intro cs
    induction cs with
    | nil => rfl
    | cons c cs ih =>
      by_cases hc : isSpace c = true
      · rw [List.dropWhile_cons_of_pos hc, ih, ← List.nil_append (c :: cs), List.splitOnP_append_cons [] cs hc]
        simp
      · rw [List.dropWhile_cons_of_neg hc]
  have hrdrop : ∀ cs : List Char, ((cs.rdropWhile isSpace).splitOnP isSpace).filter (fun w => !w.isEmpty) =
      (cs.splitOnP isSpace).filter fun w => !w.isEmpty := by
    intro cs
    induction cs using List.reverseRecOn with
    | nil => rfl
    | append_singleton cs c ih =>
      by_cases hc : isSpace c = true
      · rw [List.rdropWhile_concat_pos _ _ _ hc, ih, List.splitOnP_append_cons cs [] hc]
        simp
      · rw [List.rdropWhile_concat_neg _ _ _ hc]
  unfold fields trimSpace trimRunes
  rw [String.toList_ofList, hrdrop, hdrop]

theorem trimSpace_eq_empty_iff {s : String} : trimSpace s = "" ↔ ∀ c ∈ s.toList, isSpace c = true := by
  unfold trimSpace trimRunes
  rw [← String.toList_inj, String.toList_ofList, String.toList_empty, List.rdropWhile_eq_nil_iff]
  constructor
  · intro h c hc
    rw [← List.takeWhile_append_dropWhile (p := isSpace) (l := s.toList)] at hc
    rcases List.mem_append.1 hc with hc | hc
    · exact List.mem_takeWhile_imp hc
    · exact h c hc
  · exact fun h c hc => h c ((List.dropWhile_suffix _).subset hc)

theorem fields_word {w : List Char} (hne : w ≠ []) (hw : ∀ c ∈ w, isSpace c = false) (zs : List Char)
    (hz : zs = [] ∨ ∃ c cs, zs = c :: cs ∧ isSpace c = true) :
    ∃ rest, fields (String.ofList (w ++ zs)) = String.ofList w :: rest ∧
      ∀ c cs, zs = c :: cs → rest = fields (String.ofList cs) := by
  unfold fields
  simp only [String.toList_ofList]
  rcases hz with rfl | ⟨c, cs, rfl, hc⟩
  · refine ⟨[], ?_, fun _ _ h => by cases h⟩
    rw [List.append_nil, List.splitOnP_eq_singleton hw]
    simp [hne]
  · refine ⟨_, ?_, fun _ _ h => by cases h; rfl⟩
    rw [List.splitOnP_append_cons_of_forall_mem hw _ hc]
    simp [hne]

/-- Every longest run of runes that satisfy `p` becomes one `r`; `inRun` says that the rune before belonged to a
run. -/
def replaceRunsFrom (p : Char → Bool) (r : Char) (inRun : Bool) : List Char → List Char
  | [] => []
  | c :: cs =>
    if p c then if inRun then replaceRunsFrom p r true cs else r :: replaceRunsFrom p r true cs
    else c :: replaceRunsFrom p r false cs

/-- `ReplaceAllString(s, r)` for the pattern `[p]+`. -/
def replaceRuns (p : Char → Bool) (r : Char) (s : String) : String :=
  String.ofList (replaceRunsFrom p r false s.toList)

/-! ### Decimal numbers -/

/-- `strconv.Itoa`, and `fmt.Sprint` of an `int`. -/
def itoa (n : ℤ) : String := toString n

/-- `r < '0' || r > '9'` does not hold. -/
def isDigitRune (c : Char) : Bool := decide ('0' ≤ c ∧ c ≤ '9')

/-- The value of a non-empty string of digits. -/
def digitsValue (ds : List Char) : Option ℕ :=
  if ds ≠ [] ∧ ds.all isDigitRune = true then some (Nat.ofDigitChars 10 ds 0) else none

/-- `strconv.Atoi`, `none` for its two errors (syntax and range). -/
def atoi (s : String) : Option ℤ :=
  match s.toList with
  | '-' :: ds => (digitsValue ds).bind fun n => if (n : ℤ) ≤ maxInt64 + 1 then some (-n) else none
  | '+' :: ds => (digitsValue ds).bind fun n => if (n : ℤ) ≤ maxInt64 then some n else none
  | ds => (digitsValue ds).bind fun n => if (n : ℤ) ≤ maxInt64 then some n else none

theorem isDigitRune_eq (c : Char) : isDigitRune c = c.isDigit := by
  unfold isDigitRune Char.isDigit
  simp only [Char.le_def, Bool.decide_and]

theorem itoa_injective {a b : ℤ} (h : itoa a = itoa b) : a = b := Int.repr_inj.1 h

theorem toList_itoa_ofNat (n : ℕ) : (itoa n).toList = Nat.toDigits 10 n := by
  show (Nat.repr n).toList = _
  exact Nat.toList_repr

theorem digitsValue_toDigits (n : ℕ) : digitsValue (Nat.toDigits 10 n) = some n := by
  have hd : (Nat.toDigits 10 n).all isDigitRune = true := by
    rw [List.all_eq_true]
    intro c hc
    rw [isDigitRune_eq]
    exact Nat.isDigit_of_mem_toDigits (by decide) (by decide) hc
  unfold digitsValue
  rw [if_pos ⟨Nat.toDigits_ne_nil, hd⟩, Nat.ofDigitChars_ten_toDigits]

theorem atoi_of_value {s : String} {n : ℕ} (h : digitsValue s.toList = some n) (hn : (n : ℤ) ≤ maxInt64) :
    atoi s = some (n : ℤ) := by
  have hdigits : ∀ c ∈ s.toList, isDigitRune c = true := by
    unfold digitsValue at h
    split_ifs at h with hds
    exact List.all_eq_true.1 hds.2
  unfold atoi
  -- no string of digits starts with a sign
  split
  · rename_i ds hs
    exact absurd (hdigits '-' (by rw [hs]; exact List.mem_cons_self)) (by decide)
  · rename_i ds hs
    exact absurd (hdigits '+' (by rw [hs]; exact List.mem_cons_self)) (by decide)
  · rw [h]
    simp [hn]

/-- A non-negative `int` is read back from its decimal form. -/
theorem atoi_itoa {n : ℤ} (h0 : 0 ≤ n) (h1 : n ≤ maxInt64) : atoi (itoa n) = some n := by
  obtain ⟨k, rfl⟩ := Int.eq_ofNat_of_zero_le h0
  exact atoi_of_value (by rw [toList_itoa_ofNat, digitsValue_toDigits]) h1

theorem toList_itoa_negSucc (n : ℕ) : (itoa (Int.negSucc n)).toList = '-' :: Nat.toDigits 10 (n + 1) := by
  show ("-" ++ Nat.repr (n + 1)).toList = _
  rw [String.toList_append, Nat.toList_repr]
  rfl

theorem atoi_of_negative {s : String} {ds : List Char} {n : ℕ} (hs : s.toList = '-' :: ds)
    (h : digitsValue ds = some n) (hn : (n : ℤ) ≤ maxInt64 + 1) : atoi s = some (-n : ℤ) := by
  unfold atoi
  split
  · rename_i ds' hs'
    obtain rfl : ds' = ds := by
      rw [hs] at hs'
      exact (List.cons.inj hs').2.symm
    rw [h, Option.bind_some, if_pos hn]
  · rename_i ds' hs'
    rw [hs] at hs'
    exact absurd (List.cons.inj hs').1 (by decide)
  · rename_i hminus _
    exact absurd hs (hminus ds)

/-- An `int` is read back from its decimal form. -/
theorem atoi_itoa_int {n : ℤ} (h0 : -maxInt64 - 1 ≤ n) (h1 : n ≤ maxInt64) : atoi (itoa n) = some n := by
  by_cases hnonneg : 0 ≤ n
  · exact atoi_itoa hnonneg h1
  · obtain ⟨k, rfl⟩ := Int.eq_negSucc_of_lt_zero (not_le.1 hnonneg)
    have hneg : -((k + 1 : ℕ) : ℤ) = Int.negSucc k := by rw [Int.negSucc_eq, Nat.cast_succ]
    have hk : ((k + 1 : ℕ) : ℤ) ≤ maxInt64 + 1 := by
      rw [← hneg] at h0
      linarith
    rw [atoi_of_negative (toList_itoa_negSucc k) (digitsValue_toDigits (k + 1)) hk, hneg]

/-- A decimal form has no leading zero. -/
theorem head_toDigits_ne_zero {n : ℕ} (h : n ≠ 0) : (Nat.toDigits 10 n).head? ≠ some '0' := by
  induction n using Nat.strong_induction_on with
  | h n ih =>
    by_cases hn : n < 10
    · have hall : ∀ n < 10, n ≠ 0 → n.digitChar ≠ '0' := by decide
      rw [Nat.toDigits_of_lt_base hn]
      simpa using hall n hn h
    · rw [Nat.toDigits_of_base_le (by decide) (by omega), List.head?_append_of_ne_nil _ Nat.toDigits_ne_nil]
      exact ih (n / 10) (by omega) (by omega)

/-! ### Hexadecimal numbers -/

def hexDigit (c : Char) : Option ℕ :=
  if '0' ≤ c ∧ c ≤ '9' then some (c.toNat - 48)
  else if 'a' ≤ c ∧ c ≤ 'f' then some (c.toNat - 87)
  else if 'A' ≤ c ∧ c ≤ 'F' then some (c.toNat - 55)
  else none

def hexFrom (acc : ℕ) : List Char → Option ℕ
  | [] => some acc
  | c :: cs => (hexDigit c).bind fun d => hexFrom (16 * acc + d) cs

/-- The value of a non-empty string of hexadecimal digits. -/
def hexValue (ds : List Char) : Option ℕ := if ds = [] then none else hexFrom 0 ds

/-- `strconv.ParseInt(s, 16, 64)`, `none` for its two errors. -/
def parseHex (s : String) : Option ℤ :=
  match s.toList with
  | '-' :: ds => (hexValue ds).bind fun n => if (n : ℤ) ≤ maxInt64 + 1 then some (-n) else none
  | '+' :: ds => (hexValue ds).bind fun n => if (n : ℤ) ≤ maxInt64 then some n else none
  | ds => (hexValue ds).bind fun n => if (n : ℤ) ≤ maxInt64 then some n else none

theorem hexDigit_range {c : Char} (h : hexDigit c ≠ none) :
    48 ≤ c.toNat ∧ c.toNat ≤ 57 ∨ 65 ≤ c.toNat ∧ c.toNat ≤ 70 ∨ 97 ≤ c.toNat ∧ c.toNat ≤ 102 := by
  unfold hexDigit at h
  split_ifs at h with h1 h2 h3
  · exact .inl h1
  · exact .inr (.inr h2)
  · exact .inr (.inl h3)
  · exact absurd rfl h

theorem hexDigit_of_hexFrom {acc n : ℕ} {ds : List Char} (h : hexFrom acc ds = some n) {c : Char} (hc : c ∈ ds) :
    hexDigit c ≠ none := by
  induction ds generalizing acc with
  | nil => cases hc
  | cons d ds ih =>
    rw [hexFrom] at h
    obtain ⟨v, hv, h⟩ := Option.bind_eq_some_iff.1 h
    rcases List.mem_cons.1 hc with rfl | hc
    · simp [hv]
    · exact ih h hc

theorem hexValue_spec {ds : List Char} {n : ℕ} (h : hexValue ds = some n) :
    ds ≠ [] ∧ ∀ c ∈ ds, hexDigit c ≠ none := by
  unfold hexValue at h
  split_ifs at h with hne
  exact ⟨hne, fun c hc => hexDigit_of_hexFrom h hc⟩

theorem parseHex_of_value {s : String} {n : ℕ} (h : hexValue s.toList = some n) (hn : (n : ℤ) ≤ maxInt64) :
    parseHex s = some (n : ℤ) := by
  obtain ⟨-, hdigits⟩ := hexValue_spec h
  unfold parseHex
  -- a sign is not a digit
  split
  · rename_i ds hs
    exact absurd (by decide) (hdigits '-' (by rw [hs]; exact List.mem_cons_self))
  · rename_i ds hs
    exact absurd (by decide) (hdigits '+' (by rw [hs]; exact List.mem_cons_self))
  · rw [h]
    simp [hn]

end MiniSbAgent.Go
