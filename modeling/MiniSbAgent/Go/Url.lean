import MiniSbAgent.Go.Json
import MiniSbAgent.Go.Maps
import MiniSbAgent.Go.NetHTTP

/-!
# Queries and paths of a URL (`net/url`)

A query is a list of keys and values, escaped and joined by `=` and `&`; a path is a list of escaped parts.

* `queryEscape`, `unescape` — one component, and `unescape_queryEscape`: it is read back;
* `encodeValues`, `parseQuery` — a whole query, and `lookup_parseQuery_encodeValues`: the reader finds every value under
  its key, whatever bytes they are made of;
* `requestPath` — the parts of the path of a request, as the router of `net/http` tells them apart;
* `parsePlain`, `URL.text` — whole URLs of the plain form, and `parsePlain_text`: such a URL is read back;
* `Package` — the package as a parameter, of which nothing is known but what it does with plain URLs.
-/

namespace MiniSbAgent.Go.Url

/-! ### Components -/

def hexByte (n : ℕ) : UInt8 := UInt8.ofNat (if n < 10 then 48 + n else 55 + n)

/-- Letters, digits and `-_.~` stand for themselves. -/
def unreserved (b : UInt8) : Bool :=
  decide (48 ≤ b.toNat ∧ b.toNat ≤ 57 ∨ 65 ≤ b.toNat ∧ b.toNat ≤ 90 ∨ 97 ≤ b.toNat ∧ b.toNat ≤ 122) ||
    [45, 46, 95, 126].contains b

def escapeByte (b : UInt8) : Bytes :=
  if b = 32 then [43]
  else if unreserved b then [b]
  else [37, hexByte (b.toNat / 16), hexByte (b.toNat % 16)]

/-- `url.QueryEscape`. -/
def queryEscape (xs : Bytes) : Bytes := xs.flatMap escapeByte

/-- The byte that the two digits behind a percent sign stand for. -/
def hexPair : Bytes → Option UInt8
  | h :: l :: _ =>
    match Json.hexOf h, Json.hexOf l with
    | some h, some l => some (UInt8.ofNat (h * 16 + l))
    | _, _ => none
  | _ => none

/-- `unescape`; a plus sign is a space in a query.  The first `skip` bytes belong to the escape before. -/
def unescapeFrom (query : Bool) : ℕ → Bytes → Option Bytes
  | _, [] => some []
  | skip + 1, _ :: rest => unescapeFrom query skip rest
  | 0, b :: rest =>
    if b = 37 then
      match hexPair rest with
      | none => none
      | some c => (unescapeFrom query 2 rest).map (c :: ·)
    else (unescapeFrom query 0 rest).map ((if query = true ∧ b = 43 then 32 else b) :: ·)

def unescape (query : Bool) (xs : Bytes) : Option Bytes := unescapeFrom query 0 xs

theorem hexPair_hexByte (b : UInt8) (rest : Bytes) :
    hexPair (hexByte (b.toNat / 16) :: hexByte (b.toNat % 16) :: rest) = some b := by
  have hdigit : ∀ n < 16, Json.hexOf (hexByte n) = some n := by decide
  have hb : b.toNat < 256 := b.toNat_lt
  rw [hexPair, hdigit _ (by omega), hdigit _ (by omega)]
  simp only [Nat.div_add_mod', UInt8.ofNat_toNat]

theorem unescapeFrom_escapeByte (b : UInt8) (rest : Bytes) :
    unescapeFrom true 0 (escapeByte b ++ rest) = (unescapeFrom true 0 rest).map (b :: ·) := by
  unfold escapeByte
  split_ifs with h32 hplain
  · rw [List.cons_append, List.nil_append, unescapeFrom, if_neg (by decide), if_pos (by decide), h32]
  · -- a byte that stands for itself is neither a plus nor a percent sign
    have hne : ∀ c, unreserved c = false → b ≠ c := fun c hc he => by
      rw [he, hc] at hplain
      cases hplain
    rw [List.cons_append, List.nil_append, unescapeFrom, if_neg (hne 37 (by decide)),
      if_neg fun h => hne 43 (by decide) h.2]
  · simp only [List.cons_append, List.nil_append]
    rw [unescapeFrom, if_pos rfl, hexPair_hexByte]
    rfl

/-- **A component is read back.** -/
theorem unescape_queryEscape (xs : Bytes) : unescape true (queryEscape xs) = some xs := by
  unfold unescape queryEscape
  induction xs with
  | nil => rfl
  | cons b xs ih => rw [List.flatMap_cons, unescapeFrom_escapeByte, ih, Option.map_some]

/-- The separators of a query. -/
def IsSeparator (c : UInt8) : Prop := c = 38 ∨ c = 59 ∨ c = 61

/-- No separator stands in a component. -/
theorem separator_not_mem (xs : Bytes) {c : UInt8} (hc : IsSeparator c) : c ∉ queryEscape xs := by
  have hhex : ∀ n < 16, hexByte n ≠ c := by
    rcases hc with rfl | rfl | rfl <;> decide
  have hplain : unreserved c = false ∧ c ≠ 43 ∧ c ≠ 37 := by
    rcases hc with rfl | rfl | rfl <;> decide
  unfold queryEscape
  rw [List.mem_flatMap]
  rintro ⟨b, -, hb⟩
  have hlt : b.toNat < 256 := b.toNat_lt
  unfold escapeByte at hb
  split_ifs at hb with h32 h
  · exact hplain.2.1 (List.mem_singleton.1 hb)
  · rw [List.mem_singleton.1 hb, h] at hplain
    exact absurd hplain.1 (by decide)
  · simp only [List.mem_cons, List.not_mem_nil, or_false] at hb
    rcases hb with hb | hb | hb
    · exact hplain.2.2 hb
    · exact hhex _ (by omega) hb.symm
    · exact hhex _ (by omega) hb.symm

/-! ### Queries -/

/-- `url.Values`. -/
abbrev Values := GoMap Bytes (List Bytes)

/-- `Values.Set`. -/
def setValue (v : Values) (key value : String) : Values := v.insert (bytes key) [bytes value]

def pairText (p : Bytes × Bytes) : Bytes := queryEscape p.1 ++ 61 :: queryEscape p.2

/-- The pairs in the order of the keys. -/
def sortedPairs (v : Values) : List (Bytes × Bytes) :=
  (v.keys.insertionSort (· ≤ ·)).flatMap fun k => ((v.lookup k).getD []).map fun x => (k, x)

/-- `Values.Encode`. -/
def encodeValues (v : Values) : Bytes := [38].intercalate ((sortedPairs v).map pairText)

/-- `strings.Cut` at an equal sign. -/
def cutEqual : Bytes → Bytes × Bytes
  | [] => ([], [])
  | b :: rest => if b = 61 then ([], rest) else (b :: (cutEqual rest).1, (cutEqual rest).2)

/-- One piece of a query; those with a semicolon and those that cannot be read are passed over. -/
def parsePair (piece : Bytes) : Option (Bytes × Bytes) :=
  if 59 ∈ piece ∨ piece = [] then none
  else
    match unescape true (cutEqual piece).1, unescape true (cutEqual piece).2 with
    | some k, some x => some (k, x)
    | _, _ => none

def addValue (v : Values) (p : Bytes × Bytes) : Values := v.insert p.1 ((v.lookup p.1).getD [] ++ [p.2])

/-- `ParseQuery`, whose error `URL.Query` drops. -/
def parseQuery (query : Bytes) : Values := ((query.splitOn 38).filterMap parsePair).foldl addValue ∅

theorem cutEqual_append {xs : Bytes} (h : 61 ∉ xs) (ys : Bytes) : cutEqual (xs ++ 61 :: ys) = (xs, ys) := by
  induction xs with
  | nil => rw [List.nil_append, cutEqual, if_pos rfl]
  | cons b xs ih =>
    rw [List.mem_cons, not_or] at h
    rw [List.cons_append, cutEqual, if_neg (Ne.symm h.1), ih h.2]

theorem not_mem_pairText (p : Bytes × Bytes) {c : UInt8} (hc : IsSeparator c) (hne : c ≠ 61) : c ∉ pairText p := by
  simp [pairText, separator_not_mem _ hc, hne]

theorem parsePair_pairText (p : Bytes × Bytes) : parsePair (pairText p) = some p := by
  have hsemi : ¬ (59 ∈ pairText p ∨ pairText p = []) := by
    rintro (h | h)
    · exact not_mem_pairText p (.inr (.inl rfl)) (by decide) h
    · simp [pairText] at h
  unfold parsePair
  rw [if_neg hsemi, pairText, cutEqual_append (separator_not_mem p.1 (.inr (.inr rfl))), unescape_queryEscape,
    unescape_queryEscape]

/-- The pairs of a query are its pieces. -/
theorem filterMap_splitOn (ps : List (Bytes × Bytes)) :
    (([38].intercalate (ps.map pairText)).splitOn 38).filterMap parsePair = ps := by
  rcases ps with _ | ⟨p, ps⟩
  · rfl
  · rw [List.splitOn_intercalate]
    · rw [List.filterMap_map]
      simp only [Function.comp_def, parsePair_pairText]
      exact List.filterMap_some
    · intro l hl
      obtain ⟨q, -, rfl⟩ := List.mem_map.1 hl
      exact not_mem_pairText q (.inl rfl) (by decide)
    · simp

/-- The values of a key, in the order of the pairs. -/
def valuesOf (ps : List (Bytes × Bytes)) (k : Bytes) : List Bytes := (ps.filter fun p => p.1 == k).map Prod.snd

theorem lookup_foldl_addValue (ps : List (Bytes × Bytes)) (v : Values) (k : Bytes) :
    (ps.foldl addValue v).lookup k =
      if valuesOf ps k = [] then v.lookup k else some ((v.lookup k).getD [] ++ valuesOf ps k) := by
  induction ps generalizing v with
  | nil => rfl
  | cons p ps ih =>
    rw [List.foldl_cons, ih]
    unfold addValue
    rw [lookup_insert_of]
    by_cases hk : k = p.1
    · have hvalues : valuesOf (p :: ps) k = p.2 :: valuesOf ps k := by simp [valuesOf, hk]
      rw [hvalues, if_neg (List.cons_ne_nil _ _), if_pos hk, hk]
      split_ifs with hnil
      · rw [hnil]
      · rw [Option.getD_some, List.append_assoc, List.singleton_append]
    · have hvalues : valuesOf (p :: ps) k = valuesOf ps k := by simp [valuesOf, Ne.symm hk]
      rw [hvalues, if_neg hk]

theorem flatMap_ite_of_nodup {α β : Type} [DecidableEq α] {ks : List α} (h : ks.Nodup) (k : α) (xs : List β) :
    (ks.flatMap fun k' => if k' = k then xs else []) = if k ∈ ks then xs else [] := by
  induction ks with
  | nil => rfl
  | cons k' ks ih =>
    obtain ⟨hnot, hnodup⟩ := List.nodup_cons.1 h
    rw [List.flatMap_cons, ih hnodup]
    by_cases hk : k' = k
    · subst hk
      simp [hnot]
    · simp [hk, Ne.symm hk]

theorem valuesOf_sortedPairs (v : Values) (k : Bytes) : valuesOf (sortedPairs v) k = (v.lookup k).getD [] := by
  have hperm := List.perm_insertionSort (· ≤ ·) v.keys
  have hvalues : valuesOf (sortedPairs v) k =
      (v.keys.insertionSort (· ≤ ·)).flatMap fun k' => if k' = k then (v.lookup k).getD [] else [] := by
    unfold valuesOf sortedPairs
    rw [List.filter_flatMap, List.map_flatMap]
    congr 1
    funext k'
    rw [List.filter_map, List.map_map]
    by_cases hk : k' = k
    · subst hk
      simp [Function.comp_def]
    · simp [hk, Function.comp_def]
  rw [hvalues, flatMap_ite_of_nodup (hperm.nodup_iff.2 v.nodupKeys)]
  split_ifs with hmem
  · rfl
  · rw [AList.lookup_eq_none.2 fun h => hmem (hperm.mem_iff.2 (AList.mem_keys.1 h))]
    rfl

/-- A query that is parsed has no key without a value. -/
theorem parseQuery_ne_nil (query k : Bytes) : (parseQuery query).lookup k ≠ some [] := by
  unfold parseQuery
  rw [lookup_foldl_addValue]
  split_ifs with h
  · simp
  · intro he
    exact h (List.append_eq_nil_iff.1 (Option.some.inj he)).2

/-- **A query is read back**: every key has its values, in their order. -/
theorem lookup_parseQuery_encodeValues {v : Values} {k : Bytes} (h : v.lookup k ≠ some []) :
    (parseQuery (encodeValues v)).lookup k = v.lookup k := by
  unfold parseQuery encodeValues
  rw [filterMap_splitOn, lookup_foldl_addValue, valuesOf_sortedPairs]
  rcases hl : v.lookup k with _ | xs
  · simp
  · rw [hl] at h
    have hxs : xs ≠ [] := fun he => h (by rw [he])
    simp [hxs]

/-! ### Paths -/

/-- The parts of the path of a request, unescaped.  `none` is a target that `net/http` answers on its own: one that has
no path, cannot be unescaped, or has to be cleaned first. -/
def requestPath (target : Bytes) : Option (List String) :=
  match (target.takeWhile (· != 63)).splitOn 47 with
  | [] :: parts =>
    if parts.dropLast.contains [] ∨ parts.contains (bytes ".") ∨ parts.contains (bytes "..") then none
    else (parts.mapM (unescape false)).map (·.map text)
  | _ => none

/-! ### URLs -/

/-- A URL `scheme://host/path?query`: without a user or a fragment, and with no escape in front of the query. -/
structure URL where
  scheme : Bytes
  host : Bytes
  path : Bytes
  forceQuery : Bool
  rawQuery : Bytes
deriving Repr, DecidableEq

def isControl (b : UInt8) : Bool := decide (b.toNat < 32 ∨ b.toNat = 127)

def isLetter (b : UInt8) : Bool := decide (65 ≤ b.toNat ∧ b.toNat ≤ 90 ∨ 97 ≤ b.toNat ∧ b.toNat ≤ 122)

def isDigit (b : UInt8) : Bool := decide (48 ≤ b.toNat ∧ b.toNat ≤ 57)

/-- What `getScheme` takes for a scheme. -/
def schemeOk : Bytes → Bool
  | [] => false
  | b :: rest => isLetter b && rest.all fun c => isLetter c || isDigit c || [43, 45, 46].contains c

/-- `URL.Hostname`. -/
def hostname (host : Bytes) : Bytes := host.takeWhile (· != 58)

/-- `URL.Port`. -/
def port (host : Bytes) : Bytes := (host.dropWhile (· != 58)).tail

def hostOk (host : Bytes) : Bool :=
  !(hostname host).isEmpty && (hostname host).all unreserved && (port host).all isDigit

/-- The bytes that stand for themselves in a path. -/
def isPathByte (b : UInt8) : Bool := unreserved b || [36, 38, 43, 44, 47, 58, 59, 61, 64].contains b

/-- `strings.Cut` at a byte. -/
def cutByte (c : UInt8) : Bytes → Option (Bytes × Bytes)
  | [] => none
  | b :: rest => if b = c then some ([], rest) else (cutByte c rest).map fun p => (b :: p.1, p.2)

/-- The part behind the scheme. -/
def parseRest (scheme : Bytes) (forceQuery : Bool) (rawQuery : Bytes) : Bytes → Option URL
  | 47 :: 47 :: authority =>
    let host := authority.takeWhile (· != 47)
    let path := authority.dropWhile (· != 47)
    if hostOk host = true ∧ path.all isPathByte = true then
      some ⟨NetHTTP.lower scheme, host, path, forceQuery, rawQuery⟩
    else none
  | _ => none

/-- What `url.Parse` makes of a URL of that form; `none` says that it is of another one. -/
def parsePlain (raw : Bytes) : Option URL :=
  if raw.any isControl = true ∨ 35 ∈ raw then none
  else
    match cutByte 58 raw with
    | none => none
    | some (scheme, rest) =>
      if schemeOk scheme = false then none
      else
        match cutByte 63 rest with
        | none => parseRest scheme false [] rest
        | some (rest, query) => parseRest scheme query.isEmpty query rest

namespace URL

def queryText (u : URL) : Bytes := if u.forceQuery = true ∨ u.rawQuery ≠ [] then 63 :: u.rawQuery else []

/-- `URL.String`. -/
def text (u : URL) : Bytes := u.scheme ++ 58 :: 47 :: 47 :: (u.host ++ (u.path ++ u.queryText))

def requestURI (u : URL) : Bytes := (if u.path = [] then [47] else u.path) ++ u.queryText

/-- What `parsePlain` accepts. -/
structure Ok (u : URL) : Prop where
  scheme : schemeOk u.scheme = true ∧ NetHTTP.lower u.scheme = u.scheme
  host : hostOk u.host = true
  path : u.path.all isPathByte = true
  rooted : u.path = [] ∨ u.path.head? = some 47
  query : ∀ b ∈ u.rawQuery, isControl b = false ∧ b ≠ 35

end URL

theorem cutByte_append {c : UInt8} {xs : Bytes} (h : c ∉ xs) (ys : Bytes) :
    cutByte c (xs ++ c :: ys) = some (xs, ys) := by
  induction xs with
  | nil => rw [List.nil_append, cutByte, if_pos rfl]
  | cons b xs ih =>
    rw [List.mem_cons, not_or] at h
    rw [List.cons_append, cutByte, if_neg (Ne.symm h.1), ih h.2, Option.map_some]

theorem cutByte_eq_some {c : UInt8} {xs ys zs : Bytes} (h : cutByte c xs = some (ys, zs)) : xs = ys ++ c :: zs := by
  induction xs generalizing ys with
  | nil => cases h
  | cons b xs ih =>
    rw [cutByte] at h
    split_ifs at h with hb
    · cases h
      rw [hb, List.nil_append]
    · obtain ⟨⟨ys', zs'⟩, hcut, heq⟩ := Option.map_eq_some_iff.1 h
      cases heq
      rw [ih hcut, List.cons_append]

theorem cutByte_eq_none {c : UInt8} {xs : Bytes} (h : c ∉ xs) : cutByte c xs = none := by
  induction xs with
  | nil => rfl
  | cons b xs ih =>
    rw [List.mem_cons, not_or] at h
    rw [cutByte, if_neg (Ne.symm h.1), ih h.2, Option.map_none]

/-- A path is no URL: there is no scheme in front of a slash. -/
theorem parsePlain_slash (rest : Bytes) : parsePlain (47 :: rest) = none := by
  unfold parsePlain
  split_ifs
  · rfl
  · rw [cutByte, if_neg (by decide)]
    rcases cutByte 58 rest with _ | ⟨scheme, more⟩
    · rfl
    · have hscheme : schemeOk (47 :: scheme) = false := by
        rw [schemeOk, show isLetter 47 = false by decide, Bool.false_and]
      simp only [Option.map_some, hscheme, if_true]

/-- The bytes of a host are letters, digits, a colon and `-_.~`. -/
theorem hostOk_bytes {host : Bytes} (h : hostOk host = true) : ∀ b ∈ host, unreserved b = true ∨ b = 58 := by
  unfold hostOk at h
  simp only [Bool.and_eq_true, List.all_eq_true] at h
  intro b hb
  rw [← List.takeWhile_append_dropWhile (p := (· != 58)) (l := host), List.mem_append] at hb
  rcases hb with hb | hb
  · exact .inl (h.1.2 b hb)
  · rcases hdrop : host.dropWhile (· != 58) with _ | ⟨c, rest⟩
    · rw [hdrop] at hb
      cases hb
    · have hc : c = 58 := by
        have hhead := List.head_dropWhile_not (· != 58) (l := host) (by rw [hdrop]; simp)
        simpa [hdrop] using hhead
      rw [hdrop, List.mem_cons] at hb
      rcases hb with rfl | hb
      · exact .inr hc
      · have hdigit := h.2 b (by rw [port, hdrop]; exact hb)
        refine .inl ?_
        unfold isDigit at hdigit
        unfold unreserved
        rw [Bool.or_eq_true, decide_eq_true_eq]
        exact .inl (.inl (of_decide_eq_true hdigit))

/-- The bytes in front of a query. -/
def Plain (b : UInt8) : Prop := isControl b = false ∧ b.toNat < 0x80 ∧ b ≠ 35 ∧ b ≠ 63 ∧ b ≠ 32 ∧ b ≠ 10

theorem plain_of_unreserved {b : UInt8} (h : unreserved b = true) : Plain b ∧ b ≠ 47 ∧ b ≠ 58 := by
  have hall : ∀ b : UInt8, unreserved b = true → Plain b ∧ b ≠ 47 ∧ b ≠ 58 := by
    unfold Plain
    decide +kernel
  exact hall b h

theorem plain_of_pathByte {b : UInt8} (h : isPathByte b = true) : Plain b := by
  have hall : ∀ b : UInt8, isPathByte b = true → Plain b := by
    unfold Plain
    decide +kernel
  exact hall b h

theorem plain_of_schemeOk {scheme : Bytes} (h : schemeOk scheme = true) : ∀ b ∈ scheme, Plain b ∧ b ≠ 58 := by
  have hall : ∀ b : UInt8, (isLetter b || isDigit b || [43, 45, 46].contains b) = true → Plain b ∧ b ≠ 58 := by
    unfold Plain
    decide +kernel
  rcases scheme with _ | ⟨c, rest⟩
  · simp
  · rw [schemeOk, Bool.and_eq_true, List.all_eq_true] at h
    intro b hb
    rcases List.mem_cons.1 hb with rfl | hb
    · exact hall b (by rw [h.1]; rfl)
    · exact hall b (h.2 b hb)

namespace URL

variable {u : URL}

theorem Ok.plain_host (h : u.Ok) : ∀ b ∈ u.host, Plain b ∧ b ≠ 47 := by
  intro b hb
  rcases hostOk_bytes h.host b hb with hb | rfl
  · obtain ⟨hplain, h47, -⟩ := plain_of_unreserved hb
    exact ⟨hplain, h47⟩
  · unfold Plain
    decide

theorem Ok.plain_path (h : u.Ok) : ∀ b ∈ u.path, Plain b := fun b hb =>
  plain_of_pathByte (List.all_eq_true.1 h.path b hb)

/-- The host ends where the path begins. -/
theorem Ok.split_host (h : u.Ok) :
    (u.host ++ u.path).takeWhile (· != 47) = u.host ∧ (u.host ++ u.path).dropWhile (· != 47) = u.path := by
  have hhost : ∀ b ∈ u.host, (b != 47) = true := fun b hb => by simpa using (h.plain_host b hb).2
  rw [List.takeWhile_append_of_pos hhost, List.dropWhile_append_of_pos hhost]
  rcases h.rooted with hnil | hslash
  · rw [hnil]
    simp
  · obtain ⟨rest, hrest⟩ := List.head?_eq_some_iff.1 hslash
    rw [hrest]
    simp

theorem Ok.parseRest (h : u.Ok) (force : Bool) (query : Bytes) :
    Url.parseRest u.scheme force query (47 :: 47 :: (u.host ++ u.path)) =
      some { u with forceQuery := force, rawQuery := query } := by
  obtain ⟨htake, hdrop⟩ := h.split_host
  unfold Url.parseRest
  simp only [htake, hdrop, h.host, h.path, h.scheme.2, and_self, if_true]

theorem Ok.clean (h : u.Ok) : ∀ b ∈ u.text, isControl b = false ∧ b ≠ 35 := by
  intro b hb
  have hquery : b ∈ u.queryText → isControl b = false ∧ b ≠ 35 := by
    intro hb
    unfold queryText at hb
    split_ifs at hb
    · rcases List.mem_cons.1 hb with rfl | hb
      · decide
      · exact h.query b hb
    · cases hb
  have hplain : Plain b → isControl b = false ∧ b ≠ 35 := fun hb => ⟨hb.1, hb.2.2.1⟩
  simp only [text, List.mem_append, List.mem_cons] at hb
  rcases hb with hb | rfl | rfl | rfl | hb | hb | hb
  · exact hplain (plain_of_schemeOk h.scheme.1 b hb).1
  · decide
  · decide
  · decide
  · exact hplain (h.plain_host b hb).1
  · exact hplain (h.plain_path b hb)
  · exact hquery hb

/-- **A URL is read back**; the mark for an empty query is gone when there is one. -/
theorem parsePlain_text (h : u.Ok) :
    parsePlain u.text = some { u with forceQuery := u.forceQuery && u.rawQuery.isEmpty } := by
  have hclean : ¬ (u.text.any isControl = true ∨ 35 ∈ u.text) := by
    rintro (hctl | hhash)
    · obtain ⟨b, hb, hc⟩ := List.any_eq_true.1 hctl
      rw [(h.clean b hb).1] at hc
      cases hc
    · exact (h.clean 35 hhash).2 rfl
  have hcolon : (58 : UInt8) ∉ u.scheme := fun hb => (plain_of_schemeOk h.scheme.1 58 hb).2 rfl
  have hmark : (63 : UInt8) ∉ 47 :: 47 :: (u.host ++ u.path) := by
    intro hb
    simp only [List.mem_cons, List.mem_append] at hb
    rcases hb with hb | hb | hb | hb
    · cases hb
    · cases hb
    · exact (h.plain_host 63 hb).1.2.2.2.1 rfl
    · exact (h.plain_path 63 hb).2.2.2.1 rfl
  unfold parsePlain
  rw [if_neg hclean, text, cutByte_append hcolon]
  simp only [h.scheme.1, Bool.true_eq_false, if_false]
  have hrest : 47 :: 47 :: (u.host ++ (u.path ++ u.queryText)) = (47 :: 47 :: (u.host ++ u.path)) ++ u.queryText := by
    simp
  rw [hrest]
  unfold queryText
  split_ifs with hq
  · rw [cutByte_append hmark]
    simp only [h.parseRest]
    rcases hq with hforce | hne
    · rw [hforce, Bool.true_and]
    · have hempty : u.rawQuery.isEmpty = false := by simpa using hne
      simp [hempty]
  · rw [not_or, not_not] at hq
    rw [List.append_nil, cutByte_eq_none hmark]
    simp only [h.parseRest, hq.2]
    simp [hq.1]

end URL

theorem lower_lower (xs : Bytes) : NetHTTP.lower (NetHTTP.lower xs) = NetHTTP.lower xs := by
  have hall : ∀ b : UInt8, NetHTTP.lower (NetHTTP.lower [b]) = NetHTTP.lower [b] := by decide +kernel
  induction xs with
  | nil => rfl
  | cons b xs ih =>
    have hcons : ∀ (b : UInt8) (xs : Bytes), NetHTTP.lower (b :: xs) = NetHTTP.lower [b] ++ NetHTTP.lower xs :=
      fun _ _ => rfl
    have happ : ∀ xs ys : Bytes, NetHTTP.lower (xs ++ ys) = NetHTTP.lower xs ++ NetHTTP.lower ys := fun _ _ =>
      List.map_append
    rw [hcons, happ, hall, ih]

theorem schemeOk_lower {scheme : Bytes} (h : schemeOk scheme = true) : schemeOk (NetHTTP.lower scheme) = true := by
  have hfirst : ∀ b : UInt8, isLetter b = true → (NetHTTP.lower [b]).all isLetter = true := by decide +kernel
  have hrest : ∀ b : UInt8, (isLetter b || isDigit b || [43, 45, 46].contains b) = true →
      (NetHTTP.lower [b]).all (fun c => isLetter c || isDigit c || [43, 45, 46].contains c) = true := by decide +kernel
  rcases scheme with _ | ⟨b, rest⟩
  · cases h
  · rw [schemeOk, Bool.and_eq_true, List.all_eq_true] at h
    have hb := hfirst b h.1
    simp only [NetHTTP.lower, List.map_cons, List.map_nil, List.all_cons, List.all_nil, Bool.and_true] at hb
    rw [NetHTTP.lower, List.map_cons, schemeOk, hb, Bool.true_and, List.all_map, List.all_eq_true]
    intro c hc
    have hcr := hrest c (h.2 c hc)
    simpa only [NetHTTP.lower, List.map_cons, List.map_nil, List.all_cons, List.all_nil, Bool.and_true,
      Function.comp_apply] using hcr

/-- What is parsed can be written again. -/
theorem parsePlain_ok {raw : Bytes} {u : URL} (h : parsePlain raw = some u) : u.Ok := by
  unfold parsePlain at h
  split_ifs at h with hclean
  rw [not_or] at hclean
  have hctl : ∀ b ∈ raw, isControl b = false ∧ b ≠ 35 := fun b hb =>
    ⟨by simpa using fun hc => hclean.1 (List.any_eq_true.2 ⟨b, hb, hc⟩), fun he => hclean.2 (he ▸ hb)⟩
  have hrest : ∀ {scheme : Bytes} {force : Bool} {query rest : Bytes}, schemeOk scheme = true →
      (∀ b ∈ query, isControl b = false ∧ b ≠ 35) → parseRest scheme force query rest = some u → u.Ok := by
    intro scheme force query rest hscheme hquery hu
    unfold parseRest at hu
    split at hu
    · rename_i authority
      simp only at hu
      split_ifs at hu with hok
      cases hu
      refine ⟨⟨schemeOk_lower hscheme, lower_lower _⟩, hok.1, hok.2, ?_, hquery⟩
      rcases hdrop : authority.dropWhile (· != 47) with _ | ⟨c, more⟩
      · exact .inl rfl
      · have hc := List.head_dropWhile_not (· != 47) (l := authority) (by rw [hdrop]; simp)
        simp only [hdrop, List.head_cons, bne_eq_false_iff_eq] at hc
        exact .inr (by rw [hc, List.head?_cons])
    · cases hu
  split at h
  · cases h
  · rename_i scheme rest hcut
    split_ifs at h with hscheme
    have hscheme : schemeOk scheme = true := by simpa using hscheme
    have hraw := cutByte_eq_some hcut
    split at h
    · exact hrest hscheme (by simp) h
    · rename_i rest' query hquery
      refine hrest hscheme (fun b hb => hctl b ?_) h
      rw [hraw, cutByte_eq_some hquery]
      simp [hb]

/-! ### The package -/

/-- What the client uses of `net/url`, over the type of its URLs. -/
structure Functions (υ : Type) where
  /-- `url.Parse` -/
  parse : Bytes → Option υ
  rawQuery : υ → Bytes
  /-- the assignment to the field -/
  setRawQuery : υ → Bytes → υ
  /-- `URL.String` -/
  string : υ → Bytes
  scheme : υ → Bytes
  host : υ → Bytes
  hostname : υ → Bytes
  port : υ → Bytes
  requestURI : υ → Bytes

/-- The URL `v` of the package is the plain URL `u`. -/
structure Functions.Reads {υ : Type} (F : Functions υ) (v : υ) (u : URL) : Prop where
  rawQuery : F.rawQuery v = u.rawQuery
  string : ∀ query, F.string (F.setRawQuery v query) = { u with rawQuery := query }.text
  scheme : F.scheme v = u.scheme
  host : F.host v = u.host
  hostname : F.hostname v = Url.hostname u.host
  port : F.port v = Url.port u.host
  requestURI : F.requestURI v = u.requestURI

/-- **Package `net/url`**: it takes plain URLs for what they are.  What it does with users, fragments, escapes and
addresses in brackets is left to it. -/
structure Package (υ : Type) extends Functions υ where
  plain : ∀ {raw : Bytes} {u : URL}, parsePlain raw = some u → ∃ v, parse raw = some v ∧ toFunctions.Reads v u

/-- The package that knows plain URLs only. -/
def Package.onlyPlain : Package URL where
  parse := parsePlain
  rawQuery := URL.rawQuery
  setRawQuery u query := { u with rawQuery := query }
  string := URL.text
  scheme := URL.scheme
  host := URL.host
  hostname u := Url.hostname u.host
  port u := Url.port u.host
  requestURI := URL.requestURI
  plain h := ⟨_, h, rfl, fun _ => rfl, rfl, rfl, rfl, rfl, rfl⟩

/-! ### Bytes of a query -/

theorem plain_escapeByte (c : UInt8) : ∀ b ∈ escapeByte c, Plain b := by
  have hhex : ∀ n < 16, Plain (hexByte n) := by
    unfold Plain
    decide
  have hlt : c.toNat < 256 := c.toNat_lt
  intro b hb
  unfold escapeByte at hb
  split_ifs at hb with h32 hplain
  · rw [List.mem_singleton.1 hb]
    unfold Plain
    decide
  · rw [List.mem_singleton.1 hb]
    exact (plain_of_unreserved hplain).1
  · simp only [List.mem_cons, List.not_mem_nil, or_false] at hb
    rcases hb with rfl | rfl | rfl
    · unfold Plain
      decide
    · exact hhex _ (by omega)
    · exact hhex _ (by omega)

/-- The bytes of a query that was encoded. -/
theorem plain_encodeValues (v : Values) : ∀ b ∈ encodeValues v, Plain b := by
  have hcomponent : ∀ xs : Bytes, ∀ b ∈ queryEscape xs, Plain b := by
    intro xs b hb
    obtain ⟨c, -, hc⟩ := List.mem_flatMap.1 hb
    exact plain_escapeByte c b hc
  have hseparator : Plain 61 ∧ Plain 38 := by
    unfold Plain
    decide
  have hpair : ∀ p : Bytes × Bytes, ∀ b ∈ pairText p, Plain b := by
    intro p b hb
    rcases List.mem_append.1 hb with hb | hb
    · exact hcomponent _ b hb
    · rcases List.mem_cons.1 hb with rfl | hb
      · exact hseparator.1
      · exact hcomponent _ b hb
  intro b hb
  unfold encodeValues at hb
  generalize sortedPairs v = ps at hb
  induction ps with
  | nil => cases hb
  | cons p ps ih =>
    rcases ps with _ | ⟨p', ps⟩
    · rw [List.map_cons, List.map_nil, List.intercalate_singleton] at hb
      exact hpair p b hb
    · rw [List.map_cons, List.map_cons, List.intercalate_cons_cons] at hb
      rcases List.mem_append.1 hb with hb | hb
      · rcases List.mem_append.1 hb with hb | hb
        · exact hpair p b hb
        · rw [List.mem_singleton.1 hb]
          exact hseparator.2
      · exact ih hb

/-- ASCII is its own text. -/
theorem bytes_text {xs : Bytes} (h : ∀ b ∈ xs, b.toNat < 0x80) : bytes (Go.text xs) = xs := by
  induction xs with
  | nil => rfl
  | cons b xs ih =>
    have hb := h b List.mem_cons_self
    have htext := text_append [] hb xs
    rw [List.nil_append, text_nil] at htext
    have hencode : String.utf8EncodeChar (Char.ofNat b.toNat) = [b] := by
      have hall : ∀ b : UInt8, b.toNat < 0x80 → String.utf8EncodeChar (Char.ofNat b.toNat) = [b] := by decide +kernel
      exact hall b hb
    have ih := ih fun c hc => h c (List.mem_cons_of_mem b hc)
    unfold bytes at ih ⊢
    rw [htext]
    simp only [String.toList_empty, List.nil_append, List.flatMap_cons, hencode, ih, List.cons_append]

end MiniSbAgent.Go.Url
