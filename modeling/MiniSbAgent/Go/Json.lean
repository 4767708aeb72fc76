import MiniSbAgent.Go.Strings
import MiniSbAgent.Go.Utf8

/-!
# JSON

What package `encoding/json` writes and what its decoder accepts, on bytes.

* `stringText`, `listText` — the text of a string and of a list of texts between brackets, as `Marshal` writes them;
* `parseValue` — one JSON value at the front of the input, with the nesting limit of the decoder as its depth;
* `ReadsAs` — a text that a parser reads back whatever follows, with one rule for each form: `readsAs_string`,
  `readsAs_int`, `readsAs_list`, `readsAs_record`;
* `parseValue_cut` — an object is read from its own bytes alone, so no part of it that lacks its end is accepted.
-/

namespace MiniSbAgent.Go.Json

/-- A value; a number keeps its literal. -/
inductive Value
  | null
  | bool (b : Bool)
  | num (literal : Bytes)
  | str (s : String)
  | arr (elems : List Value)
  | obj (members : List (String × Value))

/-! ### Writing -/

def hexByte (n : ℕ) : UInt8 := UInt8.ofNat (if n < 10 then 48 + n else 87 + n)

/-- `\uXXXX`. -/
def unitEscape (n : ℕ) : Bytes :=
  [92, 117, hexByte (n / 4096 % 16), hexByte (n / 256 % 16), hexByte (n / 16 % 16), hexByte (n % 16)]

/-- The runes that are written with a backslash and one letter. -/
def shortEscape (c : Char) : Option UInt8 :=
  if c = '"' then some 34
  else if c = '\\' then some 92
  else if c.toNat = 8 then some 98
  else if c.toNat = 12 then some 102
  else if c.toNat = 10 then some 110
  else if c.toNat = 13 then some 114
  else if c.toNat = 9 then some 116
  else none

/-- The other runes that are not written as they are: control characters, and what HTML or JavaScript would take for
its own. -/
def Unsafe (c : Char) : Prop :=
  c.toNat < 32 ∨ c = '<' ∨ c = '>' ∨ c = '&' ∨ c.toNat = 0x2028 ∨ c.toNat = 0x2029

instance (c : Char) : Decidable (Unsafe c) := by unfold Unsafe; infer_instance

/-- A byte that is not UTF-8 becomes the escape of the replacement rune. -/
def escapeRune : Option Char → Bytes
  | none => unitEscape 0xFFFD
  | some c =>
    match shortEscape c with
    | some e => [92, e]
    | none => if Unsafe c then unitEscape c.toNat else String.utf8EncodeChar c

def stringText (xs : Bytes) : Bytes := 34 :: ((runes xs).flatMap escapeRune ++ [34])

/-- Texts between brackets. -/
def listText (start close : UInt8) (texts : List Bytes) : Bytes := start :: ([44].intercalate texts ++ [close])

def memberText (key : String) (value : Bytes) : Bytes := stringText (bytes key) ++ 58 :: value

/-! ### Reading strings -/

/-- A byte of a string, or the code unit of a `\uXXXX`. -/
inductive Token
  | byte (b : UInt8)
  | unit (n : ℕ)
deriving Repr, DecidableEq

def shortUnescape (e : UInt8) : Option UInt8 :=
  if e = 34 ∨ e = 92 ∨ e = 47 then some e
  else if e = 98 then some 8
  else if e = 102 then some 12
  else if e = 110 then some 10
  else if e = 114 then some 13
  else if e = 116 then some 9
  else none

def hexOf (b : UInt8) : Option ℕ := hexDigit (Char.ofNat b.toNat)

def hex4 (a b c d : UInt8) : Option ℕ :=
  match hexOf a, hexOf b, hexOf c, hexOf d with
  | some a, some b, some c, some d => some (((a * 16 + b) * 16 + c) * 16 + d)
  | _, _, _, _ => none

/-- What a backslash in front of the bytes makes of them, and how many it takes. -/
def escapeAt : Bytes → Option (Token × ℕ)
  | [] => none
  | e :: rest =>
    if e = 117 then
      match rest with
      | a :: b :: c :: d :: _ => (hex4 a b c d).map fun n => (.unit n, 5)
      | _ => none
    else (shortUnescape e).map fun b => (.byte b, 1)

/-- The tokens up to the closing quote; the first `skip` bytes belong to the escape before. -/
def parseStr : ℕ → Bytes → Option (List Token × Bytes)
  | _, [] => none
  | skip + 1, _ :: rest => parseStr skip rest
  | 0, b :: rest =>
    if b = 34 then some ([], rest)
    else if b = 92 then
      match escapeAt rest with
      | none => none
      | some (t, k) => (parseStr k rest).map fun p => (t :: p.1, p.2)
    else if b.toNat < 32 then none
    else (parseStr 0 rest).map fun p => (.byte b :: p.1, p.2)

/-- The bytes that the tokens stand for: a pair of surrogates is one rune, a lone one the replacement rune. -/
def joinTokens : List Token → Bytes
  | [] => []
  | .byte b :: ts => b :: joinTokens ts
  | .unit n :: .unit m :: ts =>
    if 0xD800 ≤ n ∧ n < 0xDC00 ∧ 0xDC00 ≤ m ∧ m < 0xE000 then
      String.utf8EncodeChar (Char.ofNat (0x10000 + (n - 0xD800) * 0x400 + (m - 0xDC00))) ++ joinTokens ts
    else
      String.utf8EncodeChar (if 0xD800 ≤ n ∧ n < 0xE000 then runeError else Char.ofNat n) ++
        joinTokens (.unit m :: ts)
  | .unit n :: ts =>
    String.utf8EncodeChar (if 0xD800 ≤ n ∧ n < 0xE000 then runeError else Char.ofNat n) ++ joinTokens ts

/-! ### Reading values -/

def isBlank (b : UInt8) : Bool := b == 32 || b == 9 || b == 10 || b == 13

def skipSpace (cs : Bytes) : Bytes := cs.dropWhile isBlank

def isDigitByte (b : UInt8) : Bool := decide (48 ≤ b.toNat ∧ b.toNat ≤ 57)

/-- A byte that may stand in a number: no two values follow each other without another byte between them. -/
def isNumByte (b : UInt8) : Bool := isDigitByte b || b == 43 || b == 45 || b == 46 || b == 69 || b == 101

def validExp : Bytes → Bool
  | [] => true
  | e :: rest =>
    let digits := if rest.head? = some 43 ∨ rest.head? = some 45 then rest.tail else rest
    (e == 69 || e == 101) && !digits.isEmpty && digits.all isDigitByte

def validFrac (cs : Bytes) : Bool :=
  if cs.head? = some 46 then
    !(cs.tail.takeWhile isDigitByte).isEmpty && validExp (cs.tail.dropWhile isDigitByte)
  else validExp cs

def validInt : Bytes → Bool
  | [] => false
  | d :: rest => if d = 48 then validFrac rest else isDigitByte d && validFrac (rest.dropWhile isDigitByte)

/-- The grammar of a number: no leading zero, digits around a point, an exponent. -/
def validNumber (cs : Bytes) : Bool := if cs.head? = some 45 then validInt cs.tail else validInt cs

def parseNum (cs : Bytes) : Option (Value × Bytes) :=
  let literal := cs.takeWhile isNumByte
  if validNumber literal then some (.num literal, cs.dropWhile isNumByte) else none

def parseWord (word : Bytes) (v : Value) (cs : Bytes) : Option (Value × Bytes) :=
  if cs.take word.length = word then some (v, cs.drop word.length) else none

def parseScalar : Bytes → Option (Value × Bytes)
  | [] => none
  | b :: cs =>
    if b = 34 then (parseStr 0 cs).map fun p => (.str (text (joinTokens p.1)), p.2)
    else if b = 116 then parseWord (bytes "true") (.bool true) (b :: cs)
    else if b = 102 then parseWord (bytes "false") (.bool false) (b :: cs)
    else if b = 110 then parseWord (bytes "null") .null (b :: cs)
    else parseNum (b :: cs)

section Lists

variable {α : Type}

/-- Items with commas between them, up to the closing bracket; `n` bounds the number of items. -/
def parseItems (close : UInt8) (item : Bytes → Option (α × Bytes)) : ℕ → Bytes → Option (List α × Bytes)
  | 0, _ => none
  | n + 1, cs =>
    match item cs with
    | none => none
    | some (v, cs) =>
      match skipSpace cs with
      | [] => none
      | b :: cs =>
        if b = close then some ([v], cs)
        else if b = 44 then (parseItems close item n (skipSpace cs)).map fun p => (v :: p.1, p.2)
        else none

/-- What follows the opening bracket. -/
def parseList (close : UInt8) (item : Bytes → Option (α × Bytes)) (cs : Bytes) : Option (List α × Bytes) :=
  match skipSpace cs with
  | [] => none
  | b :: rest => if b = close then some ([], rest) else parseItems close item (b :: rest).length (b :: rest)

end Lists

def parseMember (value : Bytes → Option (Value × Bytes)) : Bytes → Option ((String × Value) × Bytes)
  | [] => none
  | b :: cs =>
    if b = 34 then
      match parseStr 0 cs with
      | none => none
      | some (ts, cs) =>
        match skipSpace cs with
        | [] => none
        | b :: cs =>
          if b = 58 then (value (skipSpace cs)).map fun p => ((text (joinTokens ts), p.1), p.2) else none
    else none

/-- One value at the front of the input, with at most `depth` brackets open at once. -/
def parseValue : ℕ → Bytes → Option (Value × Bytes)
  | 0, cs => parseScalar cs
  | _ + 1, [] => none
  | depth + 1, b :: cs =>
    if b = 91 then (parseList 93 (parseValue depth) cs).map fun p => (.arr p.1, p.2)
    else if b = 123 then (parseList 125 (parseMember (parseValue depth)) cs).map fun p => (.obj p.1, p.2)
    else parseScalar (b :: cs)

/-- `maxNestingDepth` of the decoder. -/
def maxNestingDepth : ℕ := 10000

/-- `Decoder.Decode` up to the value: the first value of the input. -/
def parse (cs : Bytes) : Option Value := (parseValue maxNestingDepth (skipSpace cs)).map Prod.fst

/-- `Unmarshal` up to the value: one value is all of the input. -/
def unmarshal (cs : Bytes) : Option Value :=
  match parseValue maxNestingDepth (skipSpace cs) with
  | some (v, rest) => if skipSpace rest = [] then some v else none
  | none => none

/-! ### Decoding into a struct -/

/-- `foldRune` of the decoder: two runes outside ASCII count as letters of it. -/
def foldRune (c : Char) : Char :=
  if c.toNat = 0x17F then 'S' else if c.toNat = 0x212A then 'K' else c.toUpper

/-- The field that a key names: the one of that name, or the first that differs from it in case only. -/
def fieldName (names : List String) (key : String) : Option String :=
  if key ∈ names then some key else names.find? fun n => n.toList.map foldRune == key.toList.map foldRune

/-- Decoding into a string that holds `old`; `null` leaves it as it is. -/
def decodeString (old : String) : Value → Option String
  | .null => some old
  | .str s => some s
  | _ => none

/-- Decoding into an `int` or an `int64`. -/
def decodeInt (old : ℤ) : Value → Option ℤ
  | .null => some old
  | .num literal => atoi (text literal)
  | _ => none

def decodeSlice {α : Type} (item : Value → Option α) : Value → Option (List α)
  | .null => some []
  | .arr values => values.mapM item
  | _ => none

/-- Decoding into a struct, `set` one member after the other. -/
def decodeStruct {α : Type} (set : α → String × Value → Option α) (zero : α) : Value → Option α
  | .null => some zero
  | .obj members => members.foldlM set zero
  | _ => none

/-- A slice that may be decoded into again: its elements, and what its array still holds behind them. -/
structure Slice (α : Type) where
  elems : List α
  behind : List α
deriving Repr, DecidableEq

/-- The elements of an array, each decoded into what stands in its place. -/
def decodeElems {α : Type} (item : α → Value → Option α) (zero : α) : List α → List Value → Option (List α)
  | _, [] => some []
  | olds, v :: vs =>
    match item (olds.headD zero) v, decodeElems item zero olds.tail vs with
    | some x, some xs => some (x :: xs)
    | _, _ => none

/-- Decoding into a slice of structs: the array is used again, and nothing in it is cleared. -/
def decodeSliceInto {α : Type} (item : α → Value → Option α) (zero : α) (old : Slice α) : Value → Option (Slice α)
  | .null => some ⟨[], []⟩
  | .arr [] => some ⟨[], []⟩
  | .arr values =>
    let olds := old.elems ++ old.behind
    (decodeElems item zero olds values).map fun xs => ⟨xs, olds.drop values.length⟩
  | _ => none

theorem decodeElems_map {α : Type} {item : α → Value → Option α} {zero : α} {value : α → Value} {xs : List α}
    (h : ∀ x ∈ xs, item zero (value x) = some x) : decodeElems item zero [] (xs.map value) = some xs := by
  induction xs with
  | nil => rfl
  | cons x xs ih =>
    rw [List.map_cons, decodeElems, List.headD_nil, h x List.mem_cons_self, List.tail_nil,
      ih fun y hy => h y (List.mem_cons_of_mem x hy)]

/-- A slice is read back when its elements are. -/
theorem decodeSliceInto_map {α : Type} {item : α → Value → Option α} {zero : α} {value : α → Value} {xs : List α}
    (h : ∀ x ∈ xs, item zero (value x) = some x) :
    decodeSliceInto item zero ⟨[], []⟩ (.arr (xs.map value)) = some ⟨xs, []⟩ := by
  have helems := decodeElems_map h
  cases xs with
  | nil => rfl
  | cons x xs =>
    rw [List.map_cons] at helems ⊢
    simp only [decodeSliceInto, List.append_nil, helems, Option.map_some, List.drop_nil]

/-! ### A string is read back -/

/-- The tokens of a rune as it is written. -/
def runeTokens : Option Char → List Token
  | none => [.unit 0xFFFD]
  | some c =>
    match shortEscape c with
    | some _ => [.byte (UInt8.ofNat c.toNat)]
    | none => if Unsafe c then [.unit c.toNat] else (String.utf8EncodeChar c).map .byte

theorem hexOf_hexByte {n : ℕ} (h : n < 16) : hexOf (hexByte n) = some n := by
  have hall : ∀ n < 16, hexOf (hexByte n) = some n := by decide
  exact hall n h

theorem parseStr_unitEscape {n : ℕ} (h : n < 65536) (rest : Bytes) :
    parseStr 0 (unitEscape n ++ rest) = (parseStr 0 rest).map fun p => (.unit n :: p.1, p.2) := by
  have hn : ((n / 4096 % 16 * 16 + n / 256 % 16) * 16 + n / 16 % 16) * 16 + n % 16 = n := by omega
  have hat : escapeAt (117 :: hexByte (n / 4096 % 16) :: hexByte (n / 256 % 16) :: hexByte (n / 16 % 16) ::
      hexByte (n % 16) :: rest) = some (.unit n, 5) := by
    simp only [escapeAt, if_true, hex4, hexOf_hexByte (Nat.mod_lt _ (by decide : 0 < 16)), hn, Option.map_some]
  simp only [unitEscape, List.cons_append, List.nil_append]
  rw [parseStr, if_neg (by decide), if_pos rfl, hat]
  rfl

theorem parseStr_raw {bs : Bytes} (h : ∀ b ∈ bs, b ≠ 34 ∧ b ≠ 92 ∧ 32 ≤ b.toNat) (rest : Bytes) :
    parseStr 0 (bs ++ rest) = (parseStr 0 rest).map fun p => (bs.map .byte ++ p.1, p.2) := by
  induction bs with
  | nil => simp
  | cons b bs ih =>
    obtain ⟨h34, h92, h32⟩ := h b List.mem_cons_self
    rw [List.cons_append, parseStr, if_neg h34, if_neg h92, if_neg (by omega),
      ih fun b' hb' => h b' (List.mem_cons_of_mem b hb'), Option.map_map]
    rfl

/-- A rune that needs no escape is written in bytes that mean themselves. -/
theorem raw_of_safe {c : Char} (hshort : shortEscape c = none) (hsafe : ¬ Unsafe c) :
    ∀ b ∈ String.utf8EncodeChar c, b ≠ 34 ∧ b ≠ 92 ∧ 32 ≤ b.toNat := by
  intro b hb
  have hne : ∀ n, b.toNat ≠ n → n < 256 → b ≠ UInt8.ofNat n := fun n hbn hn he => by
    rw [he, toNat_ofNat_byte hn] at hbn
    exact hbn rfl
  by_cases hascii : b.toNat < 0x80
  · -- an ASCII byte is the rune itself
    have hc : Char.ofNat b.toNat = c := by
      have hmem := mem_of_mem_bytes (s := String.ofList [c]) (b := b) (by simpa [bytes] using hb) hascii
      simpa using hmem
    have hquote : c ≠ '"' := fun he => by simp [shortEscape, he] at hshort
    have hback : c ≠ '\\' := fun he => by simp [shortEscape, he] at hshort
    have hctrl : 32 ≤ c.toNat := by
      unfold Unsafe at hsafe
      omega
    refine ⟨fun he => hquote ?_, fun he => hback ?_, ?_⟩
    · rw [← hc, he]
      rfl
    · rw [← hc, he]
      rfl
    · rw [← hc, Char.toNat_ofNat, if_pos (.inl (by omega))] at hctrl
      exact hctrl
  · exact ⟨hne 34 (by omega) (by decide), hne 92 (by omega) (by decide), by omega⟩

theorem shortUnescape_of {c : Char} {e : UInt8} (h : shortEscape c = some e) :
    e ≠ 117 ∧ shortUnescape e = some (UInt8.ofNat c.toNat) := by
  unfold shortEscape at h
  split_ifs at h with h1 h2 h3 h4 h5 h6 h7
  · cases h
    subst h1
    decide
  · cases h
    subst h2
    decide
  all_goals
    cases h
    simp only [*]
    decide

theorem parseStr_escapeRune (r : Option Char) (rest : Bytes) :
    parseStr 0 (escapeRune r ++ rest) = (parseStr 0 rest).map fun p => (runeTokens r ++ p.1, p.2) := by
  rcases r with _ | c
  · exact parseStr_unitEscape (by decide) rest
  rcases hshort : shortEscape c with _ | e
  · by_cases hsafe : Unsafe c
    · have hc : c.toNat < 65536 := by
        unfold Unsafe at hsafe
        rcases hsafe with h | rfl | rfl | rfl | h | h
        · omega
        · decide
        · decide
        · decide
        · omega
        · omega
      simp only [escapeRune, runeTokens, hshort, if_pos hsafe]
      exact parseStr_unitEscape hc rest
    · simp only [escapeRune, runeTokens, hshort, if_neg hsafe]
      exact parseStr_raw (raw_of_safe hshort hsafe) rest
  · obtain ⟨hunit, hback⟩ := shortUnescape_of hshort
    have hat : escapeAt (e :: rest) = some (.byte (UInt8.ofNat c.toNat), 1) := by
      simp only [escapeAt, hunit, if_false, hback, Option.map_some]
    simp only [escapeRune, runeTokens, hshort, List.cons_append, List.nil_append]
    rw [parseStr, if_neg (by decide), if_pos rfl, hat]
    rfl

theorem joinTokens_unit {n : ℕ} (h : ¬ (0xD800 ≤ n ∧ n < 0xE000)) (ts : List Token) :
    joinTokens (.unit n :: ts) = String.utf8EncodeChar (Char.ofNat n) ++ joinTokens ts := by
  rcases ts with _ | ⟨b | m, ts⟩
  · simp only [joinTokens, if_neg h]
  · simp only [joinTokens, if_neg h]
  · rw [joinTokens, if_neg (by omega), if_neg h]

theorem joinTokens_bytes (bs : Bytes) (ts : List Token) :
    joinTokens (bs.map .byte ++ ts) = bs ++ joinTokens ts := by
  induction bs with
  | nil => rfl
  | cons b bs ih => simp only [List.map_cons, List.cons_append, joinTokens, ih]

theorem joinTokens_rune (r : Option Char) (ts : List Token) :
    joinTokens (runeTokens r ++ ts) = String.utf8EncodeChar (r.getD runeError) ++ joinTokens ts := by
  rcases r with _ | c
  · exact joinTokens_unit (by decide) ts
  rcases hshort : shortEscape c with _ | e
  · by_cases hsafe : Unsafe c
    · have hc : ¬ (0xD800 ≤ c.toNat ∧ c.toNat < 0xE000) := by
        have := c.valid
        have hval : c.toNat < 0xD800 ∨ 0xDFFF < c.toNat ∧ c.toNat < 0x110000 := this
        omega
      simp only [runeTokens, hshort, if_pos hsafe, List.cons_append, List.nil_append, joinTokens_unit hc,
        Char.ofNat_toNat, Option.getD_some]
    · simp only [runeTokens, hshort, if_neg hsafe, joinTokens_bytes, Option.getD_some]
  · have hc : c.toNat ≤ 127 := by
      unfold shortEscape at hshort
      split_ifs at hshort with h1 h2 h3 h4 h5 h6 h7
      · subst h1
        decide
      · subst h2
        decide
      all_goals omega
    have henc : String.utf8EncodeChar c = [UInt8.ofNat c.toNat] := by
      unfold String.utf8EncodeChar
      exact if_pos hc
    simp only [runeTokens, hshort, List.cons_append, List.nil_append, joinTokens, Option.getD_some, henc]

theorem parseStr_runes (rs : List (Option Char)) (rest : Bytes) :
    parseStr 0 (rs.flatMap escapeRune ++ 34 :: rest) = some (rs.flatMap runeTokens, rest) := by
  induction rs with
  | nil => rfl
  | cons r rs ih =>
    rw [List.flatMap_cons, List.append_assoc, parseStr_escapeRune, ih, Option.map_some, List.flatMap_cons]

theorem joinTokens_runes (xs : Bytes) : joinTokens ((runes xs).flatMap runeTokens) = bytes (text xs) := by
  unfold text bytes
  rw [String.toList_ofList]
  induction runes xs with
  | nil => rfl
  | cons r rs ih => rw [List.flatMap_cons, joinTokens_rune, ih, List.map_cons, List.flatMap_cons]

/-- **A string is read back as its text.** -/
theorem parseStr_stringText (xs rest : Bytes) :
    ∃ ts, parseStr 0 ((runes xs).flatMap escapeRune ++ 34 :: rest) = some (ts, rest) ∧
      text (joinTokens ts) = text xs :=
  ⟨_, parseStr_runes _ rest, by rw [joinTokens_runes, text_bytes]⟩

/-! ### Texts that are read back whatever follows -/

/-- What may follow a value: no byte that would go on with a number. -/
def Ends (rest : Bytes) : Prop := ∀ b r, rest = b :: r → isNumByte b = false

theorem ends_nil : Ends [] := by
  intro b r h
  cases h

theorem ends_cons {b : UInt8} (h : isNumByte b = false) (r : Bytes) : Ends (b :: r) := by
  intro b' r' he
  cases he
  exact h

/-- A text starts a value: not with space, and not with a closing bracket. -/
def Starts (t : Bytes) : Prop := ∃ b r, t = b :: r ∧ isBlank b = false ∧ b ≠ 93 ∧ b ≠ 125

/-- `item` reads `t` as `v`. -/
structure ReadsAs {α : Type} (item : Bytes → Option (α × Bytes)) (t : Bytes) (v : α) : Prop where
  starts : Starts t
  reads : ∀ rest, Ends rest → item (t ++ rest) = some (v, rest)

theorem Starts.skipSpace {t : Bytes} (h : Starts t) (rest : Bytes) : skipSpace (t ++ rest) = t ++ rest := by
  obtain ⟨b, r, rfl, hb, -⟩ := h
  unfold Json.skipSpace
  rw [List.cons_append, List.dropWhile_cons_of_neg (by simp [hb])]

theorem parseValue_scalar {b : UInt8} {cs : Bytes} (h91 : b ≠ 91) (h123 : b ≠ 123) (depth : ℕ) :
    parseValue depth (b :: cs) = parseScalar (b :: cs) := by
  cases depth with
  | zero => rfl
  | succ depth => rw [parseValue, if_neg h91, if_neg h123]

theorem readsAs_string (depth : ℕ) (xs : Bytes) : ReadsAs (parseValue depth) (stringText xs) (.str (text xs)) where
  starts := ⟨34, _, rfl, by decide, by decide, by decide⟩
  reads rest _ := by
    obtain ⟨ts, hts, htext⟩ := parseStr_stringText xs rest
    have hstream : stringText xs ++ rest = 34 :: ((runes xs).flatMap escapeRune ++ 34 :: rest) := by
      simp [stringText]
    rw [hstream, parseValue_scalar (by decide) (by decide), parseScalar, if_pos rfl, hts, Option.map_some, htext]

section Lists

variable {α β : Type} {item : Bytes → Option (α × Bytes)} {close : UInt8}

theorem skipSpace_cons {b : UInt8} (h : isBlank b = false) (cs : Bytes) : skipSpace (b :: cs) = b :: cs := by
  unfold skipSpace
  rw [List.dropWhile_cons_of_neg (by simp [h])]

theorem intercalate_eq (t : Bytes) (ts : List Bytes) : ∃ more, [44].intercalate (t :: ts) = t ++ more := by
  rcases ts with _ | ⟨t', ts⟩
  · exact ⟨[], by simp⟩
  · exact ⟨[44] ++ [44].intercalate (t' :: ts), by rw [List.intercalate_cons_cons, List.append_assoc]⟩

theorem length_le_intercalate {ts : List Bytes} (h : ∀ t ∈ ts, t ≠ []) : ts.length ≤ ([44].intercalate ts).length := by
  induction ts with
  | nil => simp
  | cons t ts ih =>
    have ht : 0 < t.length := List.length_pos_iff.2 (h t List.mem_cons_self)
    have hts := ih fun t' ht' => h t' (List.mem_cons_of_mem t ht')
    rcases ts with _ | ⟨t', ts⟩
    · rw [List.intercalate_singleton, List.length_singleton]
      omega
    · rw [List.intercalate_cons_cons]
      simp only [List.length_append, List.length_cons, List.length_nil] at hts ⊢
      omega

theorem parseItems_intercalate (hblank : isBlank close = false) (hclose : isNumByte close = false) (hcomma : close ≠ 44)
    {pairs : List (Bytes × α)} (hne : pairs ≠ []) (h : ∀ p ∈ pairs, ReadsAs item p.1 p.2) (rest : Bytes) (n : ℕ)
    (hn : pairs.length ≤ n) :
    parseItems close item n ([44].intercalate (pairs.map Prod.fst) ++ close :: rest) =
      some (pairs.map Prod.snd, rest) := by
  induction pairs generalizing n with
  | nil => exact absurd rfl hne
  | cons p pairs ih =>
    obtain ⟨n, rfl⟩ : ∃ k, n = k + 1 := ⟨n - 1, by simp at hn; omega⟩
    have hp := h p List.mem_cons_self
    rcases pairs with _ | ⟨q, pairs⟩
    · simp only [List.map_cons, List.map_nil, List.intercalate_singleton, parseItems,
        hp.reads _ (ends_cons hclose rest), skipSpace_cons hblank, if_true]
    · have hq := h q (by simp)
      have hrest := ih (by simp) (fun p' hp' => h p' (List.mem_cons_of_mem p hp')) n (by simpa using hn)
      -- the text of the next item is not eaten as space
      have hskip : skipSpace ([44].intercalate ((q :: pairs).map Prod.fst) ++ close :: rest) =
          [44].intercalate ((q :: pairs).map Prod.fst) ++ close :: rest := by
        obtain ⟨more, hmore⟩ := intercalate_eq q.1 (pairs.map Prod.fst)
        rw [List.map_cons, hmore, List.append_assoc]
        exact hq.starts.skipSpace _
      have hstream : [44].intercalate ((p :: q :: pairs).map Prod.fst) ++ close :: rest =
          p.1 ++ 44 :: ([44].intercalate ((q :: pairs).map Prod.fst) ++ close :: rest) := by
        simp only [List.map_cons, List.intercalate_cons_cons, List.append_assoc, List.cons_append, List.nil_append]
      rw [hstream]
      simp only [parseItems, hp.reads _ (ends_cons (b := 44) (by decide) _), skipSpace_cons (b := 44) (by decide),
        Ne.symm hcomma, if_false, if_true]
      rw [hskip, hrest]
      rfl

/-- What `listText` writes after the opening bracket. -/
theorem parseList_intercalate (hbracket : close = 93 ∨ close = 125) {pairs : List (Bytes × α)}
    (h : ∀ p ∈ pairs, ReadsAs item p.1 p.2)
    (rest : Bytes) :
    parseList close item ([44].intercalate (pairs.map Prod.fst) ++ close :: rest) =
      some (pairs.map Prod.snd, rest) := by
  have hblank : isBlank close = false := by rcases hbracket with rfl | rfl <;> decide
  have hclose : isNumByte close = false := by rcases hbracket with rfl | rfl <;> decide
  have hcomma : close ≠ 44 := by rcases hbracket with rfl | rfl <;> decide
  rcases pairs with _ | ⟨p, pairs⟩
  · simp only [List.map_nil, List.intercalate_nil, List.nil_append, parseList, skipSpace_cons hblank, if_true]
  · have hp := h p List.mem_cons_self
    obtain ⟨more, hmore⟩ := intercalate_eq p.1 (pairs.map Prod.fst)
    obtain ⟨b, r, hb, hbblank, hb93, hb125⟩ := hp.starts
    have hitems := parseItems_intercalate hblank hclose hcomma (by simp) h rest
    have hstream : [44].intercalate ((p :: pairs).map Prod.fst) ++ close :: rest =
        b :: (r ++ more ++ close :: rest) := by
      rw [List.map_cons, hmore, hb]
      simp
    have hlen : (p :: pairs).length ≤ (b :: (r ++ more ++ close :: rest)).length := by
      have hne : ∀ t ∈ (p :: pairs).map Prod.fst, t ≠ [] := by
        intro t ht
        obtain ⟨q, hq, rfl⟩ := List.mem_map.1 ht
        obtain ⟨b', r', hb', -⟩ := (h q hq).starts
        simp [hb']
      have := length_le_intercalate hne
      rw [List.length_map] at this
      rw [← hstream, List.length_append]
      omega
    have hne : b ≠ close := by rcases hbracket with rfl | rfl <;> assumption
    specialize hitems _ hlen
    rw [hstream] at hitems ⊢
    unfold parseList
    rw [skipSpace_cons hbblank]
    simp only [hne, if_false]
    exact hitems

end Lists

theorem readsAs_arr {depth : ℕ} {pairs : List (Bytes × Value)} (h : ∀ p ∈ pairs, ReadsAs (parseValue depth) p.1 p.2) :
    ReadsAs (parseValue (depth + 1)) (listText 91 93 (pairs.map Prod.fst)) (.arr (pairs.map Prod.snd)) where
  starts := ⟨91, _, rfl, by decide, by decide, by decide⟩
  reads rest _ := by
    have hstream : listText 91 93 (pairs.map Prod.fst) ++ rest =
        91 :: ([44].intercalate (pairs.map Prod.fst) ++ 93 :: rest) := by simp [listText]
    rw [hstream, parseValue, if_pos rfl, parseList_intercalate (.inl rfl) h, Option.map_some]

theorem readsAs_obj {depth : ℕ} {pairs : List (Bytes × (String × Value))}
    (h : ∀ p ∈ pairs, ReadsAs (parseMember (parseValue depth)) p.1 p.2) :
    ReadsAs (parseValue (depth + 1)) (listText 123 125 (pairs.map Prod.fst)) (.obj (pairs.map Prod.snd)) where
  starts := ⟨123, _, rfl, by decide, by decide, by decide⟩
  reads rest _ := by
    have hstream : listText 123 125 (pairs.map Prod.fst) ++ rest =
        123 :: ([44].intercalate (pairs.map Prod.fst) ++ 125 :: rest) := by simp [listText]
    rw [hstream, parseValue, if_neg (by decide), if_pos rfl, parseList_intercalate (.inr rfl) h, Option.map_some]

theorem readsAs_member {value : Bytes → Option (Value × Bytes)} {t : Bytes} {v : Value} (h : ReadsAs value t v)
    (key : String) : ReadsAs (parseMember value) (memberText key t) (key, v) where
  starts := ⟨34, _, rfl, by decide, by decide, by decide⟩
  reads rest hrest := by
    obtain ⟨ts, hts, htext⟩ := parseStr_stringText (bytes key) (58 :: (t ++ rest))
    have hstream : memberText key t ++ rest =
        34 :: ((runes (bytes key)).flatMap escapeRune ++ 34 :: 58 :: (t ++ rest)) := by
      simp [memberText, stringText]
    rw [hstream, parseMember, if_pos rfl, hts]
    simp only [skipSpace_cons (b := 58) (by decide), if_true, h.starts.skipSpace, h.reads rest hrest, Option.map_some,
      htext, text_bytes]

theorem readsAs_record {depth : ℕ} (fields : List (String × Bytes × Value))
    (h : ∀ f ∈ fields, ReadsAs (parseValue depth) f.2.1 f.2.2) :
    ReadsAs (parseValue (depth + 1)) (listText 123 125 (fields.map fun f => memberText f.1 f.2.1))
      (.obj (fields.map fun f => (f.1, f.2.2))) := by
  have hobj := @readsAs_obj depth (fields.map fun f => (memberText f.1 f.2.1, f.1, f.2.2)) (by
    intro p hp
    obtain ⟨f, hf, rfl⟩ := List.mem_map.1 hp
    exact readsAs_member (h f hf) f.1)
  simpa only [List.map_map, Function.comp_def] using hobj

theorem readsAs_list {α : Type} {depth : ℕ} {write : α → Bytes} {value : α → Value} (xs : List α)
    (h : ∀ x ∈ xs, ReadsAs (parseValue depth) (write x) (value x)) :
    ReadsAs (parseValue (depth + 1)) (listText 91 93 (xs.map write)) (.arr (xs.map value)) := by
  have harr := @readsAs_arr depth (xs.map fun x => (write x, value x)) (by
    intro p hp
    obtain ⟨x, hx, rfl⟩ := List.mem_map.1 hp
    exact h x hx)
  simpa only [List.map_map, Function.comp_def] using harr

/-! ### Integers -/

theorem bytes_ascii {cs : List Char} (h : ∀ c ∈ cs, c.toNat ≤ 127) :
    bytes (String.ofList cs) = cs.map fun c => UInt8.ofNat c.toNat := by
  unfold bytes
  rw [String.toList_ofList]
  induction cs with
  | nil => rfl
  | cons c cs ih =>
    have henc : String.utf8EncodeChar c = [UInt8.ofNat c.toNat] := by
      unfold String.utf8EncodeChar
      exact if_pos (h c List.mem_cons_self)
    rw [List.flatMap_cons, henc, ih fun c' hc' => h c' (List.mem_cons_of_mem c hc')]
    rfl

theorem digit_toNat {n : ℕ} {c : Char} (h : c ∈ Nat.toDigits 10 n) : 48 ≤ c.toNat ∧ c.toNat ≤ 57 := by
  have hd := Nat.isDigit_of_mem_toDigits (by decide) (by decide) h
  rw [← isDigitRune_eq] at hd
  exact of_decide_eq_true hd

/-- The decimal form of `n` in bytes: digits without a leading zero. -/
theorem bytes_digits (n : ℕ) : ∃ d ds, bytes (String.ofList (Nat.toDigits 10 n)) = d :: ds ∧ isDigitByte d = true ∧
    (∀ b ∈ ds, isDigitByte b = true) ∧ (d = 48 → ds = []) := by
  have hbytes := @bytes_ascii (Nat.toDigits 10 n) fun c hc => by
    have := digit_toNat hc
    omega
  have hdigit : ∀ c ∈ Nat.toDigits 10 n, isDigitByte (UInt8.ofNat c.toNat) = true := fun c hc => by
    have := digit_toNat hc
    unfold isDigitByte
    rw [toNat_ofNat_byte (by omega)]
    exact decide_eq_true this
  obtain ⟨c, cs, hcs⟩ := List.exists_cons_of_ne_nil (Nat.toDigits_ne_nil (n := n) (b := 10))
  rw [hcs] at hbytes hdigit
  refine ⟨UInt8.ofNat c.toNat, cs.map fun c => UInt8.ofNat c.toNat, by rw [hcs]; exact hbytes,
    hdigit c List.mem_cons_self, ?_, ?_⟩
  · intro b hb
    obtain ⟨c', hc', rfl⟩ := List.mem_map.1 hb
    exact hdigit c' (List.mem_cons_of_mem c hc')
  · intro hzero
    have hrange := digit_toNat (n := n) (c := c) (by rw [hcs]; exact List.mem_cons_self)
    have hc : c = '0' := by
      have hnat := congrArg UInt8.toNat hzero
      rw [toNat_ofNat_byte (by omega)] at hnat
      rw [← Char.ofNat_toNat c, hnat]
      rfl
    by_cases hn : n = 0
    · subst hn
      have : cs = [] := by
        have hz : Nat.toDigits 10 0 = ['0'] := by decide
        rw [hz] at hcs
        exact (List.cons.inj hcs).2.symm
      rw [this, List.map_nil]
    · exact absurd (by rw [hcs, hc]; rfl) (head_toDigits_ne_zero hn)

theorem validInt_digits {d : UInt8} {ds : Bytes} (hd : isDigitByte d = true) (hds : ∀ b ∈ ds, isDigitByte b = true)
    (hzero : d = 48 → ds = []) : validInt (d :: ds) = true := by
  have hdrop : ds.dropWhile isDigitByte = [] := List.dropWhile_eq_nil_iff.2 hds
  rw [validInt]
  split_ifs with h
  · rw [hzero h]
    rfl
  · rw [hd, hdrop]
    rfl

theorem readsAs_number (depth : ℕ) {b : UInt8} {cs : Bytes} (hvalid : validNumber (b :: cs) = true)
    (hnum : ∀ b' ∈ b :: cs, isNumByte b' = true) : ReadsAs (parseValue depth) (b :: cs) (.num (b :: cs)) := by
  have hb : isNumByte b = true := hnum b List.mem_cons_self
  have hne : ∀ c : UInt8, isNumByte c = false → b ≠ c := fun c hc he => by
    rw [he, hc] at hb
    cases hb
  refine ⟨⟨b, cs, rfl, ?_, hne 93 (by decide), hne 125 (by decide)⟩, fun rest hrest => ?_⟩
  · unfold isBlank
    simp [hne 32 (by decide), hne 9 (by decide), hne 10 (by decide), hne 13 (by decide)]
  · have htake : ((b :: cs) ++ rest).takeWhile isNumByte = b :: cs ∧
        ((b :: cs) ++ rest).dropWhile isNumByte = rest := by
      have hstop : rest.takeWhile isNumByte = [] ∧ rest.dropWhile isNumByte = rest := by
        rcases rest with _ | ⟨b', r⟩
        · exact ⟨rfl, rfl⟩
        · have := hrest b' r rfl
          simp [this]
      rw [List.takeWhile_append_of_pos hnum, List.dropWhile_append_of_pos hnum, hstop.1, hstop.2, List.append_nil]
      exact ⟨rfl, rfl⟩
    rw [List.cons_append, parseValue_scalar (hne 91 (by decide)) (hne 123 (by decide)), parseScalar,
      if_neg (hne 34 (by decide)), if_neg (hne 116 (by decide)), if_neg (hne 102 (by decide)),
      if_neg (hne 110 (by decide)), ← List.cons_append]
    unfold parseNum
    simp only [htake.1, htake.2, hvalid, if_true]

theorem isNumByte_of_digit {b : UInt8} (h : isDigitByte b = true) : isNumByte b = true := by
  unfold isNumByte
  simp [h]

/-- **An integer is read back as its literal.** -/
theorem readsAs_int (depth : ℕ) (k : ℤ) : ReadsAs (parseValue depth) (bytes (itoa k)) (.num (bytes (itoa k))) := by
  by_cases hk : 0 ≤ k
  · obtain ⟨n, rfl⟩ := Int.eq_ofNat_of_zero_le hk
    obtain ⟨d, ds, hbytes, hd, hds, hzero⟩ := bytes_digits n
    rw [← toList_itoa_ofNat, String.ofList_toList] at hbytes
    rw [hbytes]
    refine readsAs_number depth ?_ ?_
    · have h45 : d ≠ 45 := fun he => by
        rw [he] at hd
        exact absurd hd (by decide)
      unfold validNumber
      rw [if_neg (by simpa using h45)]
      exact validInt_digits hd hds hzero
    · intro b hb
      rcases List.mem_cons.1 hb with rfl | hb
      · exact isNumByte_of_digit hd
      · exact isNumByte_of_digit (hds b hb)
  · obtain ⟨n, rfl⟩ := Int.eq_negSucc_of_lt_zero (not_le.1 hk)
    obtain ⟨d, ds, hbytes, hd, hds, hzero⟩ := bytes_digits (n + 1)
    have hneg : bytes (itoa (Int.negSucc n)) = 45 :: d :: ds := by
      rw [← String.ofList_toList (s := itoa (Int.negSucc n)), toList_itoa_negSucc, ← hbytes]
      simp only [bytes, String.toList_ofList, List.flatMap_cons]
      rfl
    rw [hneg]
    refine readsAs_number depth ?_ ?_
    · unfold validNumber
      rw [if_pos List.head?_cons]
      exact validInt_digits hd hds hzero
    · intro b hb
      rcases List.mem_cons.1 hb with rfl | hb
      · decide
      rcases List.mem_cons.1 hb with rfl | hb
      · exact isNumByte_of_digit hd
      · exact isNumByte_of_digit (hds b hb)

/-! ### What is read does not depend on what follows -/

/-- A parser that stops before the end of the input reads the same from a longer input. -/
structure Local {α : Type} (item : Bytes → Option (α × Bytes)) : Prop where
  nil : item [] = none
  append : ∀ {cs v r}, item cs = some (v, r) → r ≠ [] → ∀ ys, item (cs ++ ys) = some (v, r ++ ys)

theorem escapeAt_append {cs : Bytes} {x : Token × ℕ} (h : escapeAt cs = some x) (ys : Bytes) :
    escapeAt (cs ++ ys) = some x := by
  rcases cs with _ | ⟨e, rest⟩
  · cases h
  · by_cases he : e = 117
    · subst he
      rcases rest with _ | ⟨a, _ | ⟨b, _ | ⟨c, _ | ⟨d, rest⟩⟩⟩⟩
      · cases h
      · cases h
      · cases h
      · cases h
      · exact h
    · simp only [escapeAt, List.cons_append, he, if_false] at h ⊢
      exact h

theorem parseStr_append {skip : ℕ} {cs r : Bytes} {ts : List Token} (h : parseStr skip cs = some (ts, r)) (ys : Bytes) :
    parseStr skip (cs ++ ys) = some (ts, r ++ ys) := by
  induction cs generalizing skip ts with
  | nil => cases skip <;> cases h
  | cons b rest ih =>
    cases skip with
    | succ skip => exact ih h
    | zero =>
      rw [List.cons_append]
      rw [parseStr] at h ⊢
      split_ifs at h ⊢ with h34 h92 h32
      · cases h
        rfl
      · rcases hat : escapeAt rest with _ | ⟨t, k⟩
        · rw [hat] at h
          cases h
        · simp only [hat, Option.map_eq_some_iff, Prod.mk.injEq] at h
          obtain ⟨⟨ts', r'⟩, hts', hcons, hr⟩ := h
          subst hcons hr
          simp only [escapeAt_append hat ys, ih hts', Option.map_some]
      · simp only [Option.map_eq_some_iff, Prod.mk.injEq] at h
        obtain ⟨⟨ts', r'⟩, hts', hcons, hr⟩ := h
        subst hcons hr
        rw [ih hts', Option.map_some]

theorem dropWhile_append_of_ne {p : UInt8 → Bool} {cs : Bytes} (h : cs.dropWhile p ≠ []) (ys : Bytes) :
    (cs ++ ys).takeWhile p = cs.takeWhile p ∧ (cs ++ ys).dropWhile p = cs.dropWhile p ++ ys := by
  induction cs with
  | nil => exact absurd rfl h
  | cons b rest ih =>
    by_cases hb : p b = true
    · rw [List.dropWhile_cons_of_pos hb] at h
      obtain ⟨htake, hdrop⟩ := ih h
      simp only [List.cons_append, List.takeWhile_cons_of_pos hb, List.dropWhile_cons_of_pos hb, htake, hdrop, and_self]
    · simp only [List.cons_append, List.takeWhile_cons_of_neg hb, List.dropWhile_cons_of_neg hb, and_self]

theorem skipSpace_append {cs : Bytes} {b : UInt8} {r : Bytes} (h : skipSpace cs = b :: r) (ys : Bytes) :
    skipSpace (cs ++ ys) = b :: (r ++ ys) := by
  unfold skipSpace at h ⊢
  rw [(dropWhile_append_of_ne (by rw [h]; simp) ys).2, h, List.cons_append]

theorem parseWord_append {word : Bytes} {v w : Value} {cs r : Bytes} (h : parseWord word w cs = some (v, r))
    (ys : Bytes) : parseWord word w (cs ++ ys) = some (v, r ++ ys) := by
  unfold parseWord at h ⊢
  split_ifs at h with htake
  have hlen : word.length ≤ cs.length := by
    rw [← htake, List.length_take]
    exact Nat.min_le_right _ _
  cases h
  rw [List.take_append_of_le_length hlen, if_pos htake, List.drop_append_of_le_length hlen]

theorem local_scalar : Local parseScalar := by
  refine ⟨rfl, ?_⟩
  intro cs v r h hr ys
  rcases cs with _ | ⟨b, cs⟩
  · cases h
  rw [List.cons_append]
  rw [parseScalar] at h ⊢
  split_ifs at h ⊢ with h34 h116 h102 h110
  · simp only [Option.map_eq_some_iff, Prod.mk.injEq] at h
    obtain ⟨⟨ts, r'⟩, hts, hv, hr'⟩ := h
    subst hv hr'
    rw [parseStr_append hts, Option.map_some]
  · exact parseWord_append h ys
  · exact parseWord_append h ys
  · exact parseWord_append h ys
  · unfold parseNum at h ⊢
    simp only at h ⊢
    split_ifs at h with hvalid
    obtain ⟨hv, hr'⟩ := Prod.mk.inj (Option.some.inj h)
    rw [← hr'] at hr
    obtain ⟨htake, hdrop⟩ := dropWhile_append_of_ne hr ys
    rw [← List.cons_append, htake, hdrop, if_pos hvalid, hv, hr']

theorem parseItems_append {α : Type} {close : UInt8} {item : Bytes → Option (α × Bytes)} (hitem : Local item)
    {n m : ℕ} (hnm : n ≤ m) {cs r : Bytes} {vs : List α} (h : parseItems close item n cs = some (vs, r)) (ys : Bytes) :
    parseItems close item m (cs ++ ys) = some (vs, r ++ ys) := by
  induction n generalizing m cs vs with
  | zero => cases h
  | succ n ih =>
    obtain ⟨m, rfl⟩ : ∃ k, m = k + 1 := ⟨m - 1, by omega⟩
    rw [parseItems] at h ⊢
    rcases hv : item cs with _ | ⟨v, cs'⟩
    · rw [hv] at h
      cases h
    rcases hskip : skipSpace cs' with _ | ⟨b, cs''⟩
    · simp only [hv, hskip] at h
      cases h
    -- the bracket or the comma comes after the item, so the item ends before the input does
    have hne : cs' ≠ [] := by
      rintro rfl
      cases hskip
    simp only [hv, hskip] at h
    simp only [hitem.append hv hne, skipSpace_append hskip ys]
    split_ifs at h ⊢ with hclose hcomma
    · cases h
      rfl
    · simp only [Option.map_eq_some_iff, Prod.mk.injEq] at h
      obtain ⟨⟨vs', r'⟩, hvs', hcons, hr⟩ := h
      subst hcons hr
      rcases hskip' : skipSpace cs'' with _ | ⟨b', cs₃⟩
      · rw [hskip'] at hvs'
        rcases n with _ | n
        · cases hvs'
        · rw [parseItems, hitem.nil] at hvs'
          cases hvs'
      · rw [skipSpace_append hskip' ys, ← List.cons_append]
        rw [hskip'] at hvs'
        rw [ih (by omega) hvs', Option.map_some]

theorem parseList_append {α : Type} {close : UInt8} {item : Bytes → Option (α × Bytes)} (hitem : Local item)
    {cs r : Bytes} {vs : List α} (h : parseList close item cs = some (vs, r)) (ys : Bytes) :
    parseList close item (cs ++ ys) = some (vs, r ++ ys) := by
  unfold parseList at h ⊢
  rcases hskip : skipSpace cs with _ | ⟨b, rest⟩
  · simp only [hskip] at h
    cases h
  · simp only [hskip] at h
    simp only [skipSpace_append hskip ys]
    split_ifs at h ⊢ with hclose
    · cases h
      rfl
    · rw [← List.cons_append]
      exact parseItems_append hitem (by simp) h ys

theorem local_member {value : Bytes → Option (Value × Bytes)} (hvalue : Local value) : Local (parseMember value) := by
  refine ⟨rfl, ?_⟩
  intro cs v r h hr ys
  rcases cs with _ | ⟨b, cs⟩
  · cases h
  rw [List.cons_append]
  rw [parseMember] at h ⊢
  split_ifs at h ⊢ with h34
  rcases hts : parseStr 0 cs with _ | ⟨ts, cs'⟩
  · simp only [hts] at h
    cases h
  rcases hskip : skipSpace cs' with _ | ⟨b', cs''⟩
  · simp only [hts, hskip] at h
    cases h
  simp only [hts, hskip] at h
  simp only [parseStr_append hts ys, skipSpace_append hskip ys]
  split_ifs at h ⊢ with h58
  simp only [Option.map_eq_some_iff, Prod.mk.injEq] at h
  obtain ⟨⟨w, r'⟩, hw, hv, hr'⟩ := h
  subst hv hr'
  rcases hskip' : skipSpace cs'' with _ | ⟨b₃, cs₃⟩
  · rw [hskip', hvalue.nil] at hw
    cases hw
  · rw [skipSpace_append hskip' ys, ← List.cons_append]
    rw [hskip'] at hw
    rw [hvalue.append hw hr, Option.map_some]

theorem local_value (depth : ℕ) : Local (parseValue depth) := by
  induction depth with
  | zero => exact ⟨rfl, local_scalar.append⟩
  | succ depth ih =>
    refine ⟨rfl, ?_⟩
    intro cs v r h hr ys
    rcases cs with _ | ⟨b, cs⟩
    · cases h
    rw [List.cons_append]
    rw [parseValue] at h ⊢
    split_ifs at h ⊢ with h91 h123
    · simp only [Option.map_eq_some_iff, Prod.mk.injEq] at h
      obtain ⟨⟨vs, r'⟩, hvs, hv, hr'⟩ := h
      subst hv hr'
      rw [parseList_append ih hvs, Option.map_some]
    · simp only [Option.map_eq_some_iff, Prod.mk.injEq] at h
      obtain ⟨⟨vs, r'⟩, hvs, hv, hr'⟩ := h
      subst hv hr'
      rw [parseList_append (local_member ih) hvs, Option.map_some]
    · exact local_scalar.append h hr ys

/-- **An object is read from its own bytes alone**: nothing that lacks its end is accepted. -/
theorem parseValue_cut {depth : ℕ} {cs ys r : Bytes} {v w : Value} (hb : cs.head? = some 123)
    (hwhole : parseValue (depth + 1) (cs ++ ys) = some (w, [])) (h : parseValue (depth + 1) cs = some (v, r)) :
    ys = [] := by
  rcases cs with _ | ⟨b, cs⟩
  · cases hb
  obtain rfl : b = 123 := by simpa using hb
  rw [parseValue, if_neg (by decide), if_pos rfl] at h
  simp only [Option.map_eq_some_iff, Prod.mk.injEq] at h
  obtain ⟨⟨vs, r'⟩, hvs, -, rfl⟩ := h
  rw [List.cons_append, parseValue, if_neg (by decide), if_pos rfl,
    parseList_append (local_member (local_value depth)) hvs, Option.map_some] at hwhole
  have hnil : r' ++ ys = [] := (Prod.mk.inj (Option.some.inj hwhole)).2
  exact (List.append_eq_nil_iff.1 hnil).2

end MiniSbAgent.Go.Json
