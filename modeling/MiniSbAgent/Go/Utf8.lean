import MiniSbAgent.Go.Strings

/-!
# Bytes and runes

A Go string is a sequence of bytes, and what reads it as text decodes UTF-8 on the way: a byte that starts no
well-formed sequence counts as one replacement rune.

* `runes` — the runes of a byte string, `none` for a byte that is not UTF-8, and `text` with the replacement rune;
* `trimBytes` — what trimming runes leaves of a byte string, UTF-8 or not;
* `runes_append` — an ASCII byte is a boundary of the decoding, so a text can be cut at one;
* `runes_bytes` — a string that was written as UTF-8 is read back;
* `trimBytes_bytes` — and trimmed as a string is.
-/

namespace MiniSbAgent.Go

abbrev Bytes := List UInt8

/-- The UTF-8 of a string. -/
def bytes (s : String) : Bytes := s.toList.flatMap String.utf8EncodeChar

def isTail (b : UInt8) : Bool := decide (0x80 ≤ b.toNat ∧ b.toNat ≤ 0xBF)

/-- `utf8.DecodeRune` of `b :: rest`: the rune, and how many bytes of `rest` belong to it. -/
def runeAt (b : UInt8) (rest : Bytes) : Option Char × ℕ :=
  let n := b.toNat
  if n < 0x80 then (some (Char.ofNat n), 0)
  else if 0xC2 ≤ n ∧ n ≤ 0xDF then
    match rest with
    | b₁ :: _ =>
      if isTail b₁ = true then (some (Char.ofNat (n % 32 * 64 + b₁.toNat % 64)), 1) else (none, 0)
    | _ => (none, 0)
  else if 0xE0 ≤ n ∧ n ≤ 0xEF then
    match rest with
    | b₁ :: b₂ :: _ =>
      -- no overlong form, and no surrogate
      if isTail b₁ = true ∧ isTail b₂ = true ∧ (n = 0xE0 → 0xA0 ≤ b₁.toNat) ∧ (n = 0xED → b₁.toNat ≤ 0x9F) then
        (some (Char.ofNat (n % 16 * 4096 + b₁.toNat % 64 * 64 + b₂.toNat % 64)), 2)
      else (none, 0)
    | _ => (none, 0)
  else if 0xF0 ≤ n ∧ n ≤ 0xF4 then
    match rest with
    | b₁ :: b₂ :: b₃ :: _ =>
      if isTail b₁ = true ∧ isTail b₂ = true ∧ isTail b₃ = true ∧ (n = 0xF0 → 0x90 ≤ b₁.toNat) ∧
          (n = 0xF4 → b₁.toNat ≤ 0x8F) then
        (some (Char.ofNat (n % 8 * 262144 + b₁.toNat % 64 * 4096 + b₂.toNat % 64 * 64 + b₃.toNat % 64)), 3)
      else (none, 0)
    | _ => (none, 0)
  else (none, 0)

/-- The runes of a byte string whose first `skip` bytes belong to the rune before. -/
def runesFrom : ℕ → Bytes → List (Option Char)
  | _, [] => []
  | skip + 1, _ :: rest => runesFrom skip rest
  | 0, b :: rest => (runeAt b rest).1 :: runesFrom (runeAt b rest).2 rest

def runes (xs : Bytes) : List (Option Char) := runesFrom 0 xs

/-- `utf8.RuneError`. -/
def runeError : Char := '�'

/-- What `range` reads. -/
def text (xs : Bytes) : String := String.ofList ((runes xs).map (·.getD runeError))

/-- The runes with their bytes. -/
def spansFrom : ℕ → Bytes → List (Option Char × Bytes)
  | _, [] => []
  | skip + 1, _ :: rest => spansFrom skip rest
  | 0, b :: rest => ((runeAt b rest).1, b :: rest.take (runeAt b rest).2) :: spansFrom (runeAt b rest).2 rest

def spans (xs : Bytes) : List (Option Char × Bytes) := spansFrom 0 xs

/-- `strings.TrimFunc`. -/
def trimBytes (p : Char → Bool) (xs : Bytes) : Bytes :=
  let drops := fun r : Option Char × Bytes => p (r.1.getD runeError)
  (((spans xs).dropWhile drops).rdropWhile drops).flatMap Prod.snd

/-! ### ASCII bytes are boundaries -/

theorem runeAt_ascii {b : UInt8} (hb : b.toNat < 0x80) (rest : Bytes) :
    runeAt b rest = (some (Char.ofNat b.toNat), 0) := by
  unfold runeAt
  rw [if_pos hb]

theorem isTail_ascii {c : UInt8} (hc : c.toNat < 0x80) : isTail c = false := by
  unfold isTail
  simp only [decide_eq_false_iff_not]
  omega

theorem runeAt_append (b : UInt8) (rest : Bytes) {c : UInt8} (hc : c.toNat < 0x80) (ys : Bytes) :
    runeAt b (rest ++ c :: ys) = runeAt b rest := by
  have htail := isTail_ascii hc
  unfold runeAt
  -- a sequence that `rest` leaves open would need `c` as a tail
  rcases rest with _ | ⟨b₁, _ | ⟨b₂, _ | ⟨b₃, rest⟩⟩⟩
  · rcases ys with _ | ⟨y₁, _ | ⟨y₂, ys⟩⟩ <;> simp [htail]
  · rcases ys with _ | ⟨y₁, ys⟩ <;> simp [htail]
  · simp [htail]
  · simp

theorem runeAt_le (b : UInt8) (rest : Bytes) : (runeAt b rest).2 ≤ rest.length := by
  unfold runeAt
  rcases rest with _ | ⟨b₁, _ | ⟨b₂, _ | ⟨b₃, rest⟩⟩⟩
  all_goals
    simp only
    split_ifs <;> simp

theorem runesFrom_append {c : UInt8} (hc : c.toNat < 0x80) (ys : Bytes) (xs : Bytes) (skip : ℕ)
    (h : skip ≤ xs.length) :
    runesFrom skip (xs ++ c :: ys) = runesFrom skip xs ++ some (Char.ofNat c.toNat) :: runes ys := by
  induction xs generalizing skip with
  | nil =>
    obtain rfl : skip = 0 := by simpa using h
    simp [runesFrom, runeAt_ascii hc, runes]
  | cons b rest ih =>
    cases skip with
    | zero =>
      simp only [List.cons_append, runesFrom, runeAt_append b rest hc]
      rw [ih _ (runeAt_le b rest)]
    | succ skip =>
      simp only [List.cons_append, runesFrom]
      exact ih skip (by simpa using h)

theorem runes_append (xs : Bytes) {c : UInt8} (hc : c.toNat < 0x80) (ys : Bytes) :
    runes (xs ++ c :: ys) = runes xs ++ some (Char.ofNat c.toNat) :: runes ys :=
  runesFrom_append hc ys xs 0 (Nat.zero_le _)

theorem toNat_ofNat_ge {n : ℕ} (h : 0x80 ≤ n) (hn : n < 0xD800 ∨ 0xDFFF < n ∧ n < 0x110000) :
    0x80 ≤ (Char.ofNat n).toNat := by
  rwa [Char.toNat_ofNat, if_pos hn]

/-- The rune of a multi-byte sequence is not ASCII. -/
theorem ascii_runeAt {b : UInt8} {rest : Bytes} {c : Char} (h : (runeAt b rest).1 = some c) (hc : c.toNat < 0x80) :
    b.toNat = c.toNat := by
  unfold runeAt at h
  simp only at h
  split_ifs at h with h1 h2 h3 h4
  · cases h
    rw [Char.toNat_ofNat, if_pos (.inl (by omega))]
  · rcases rest with _ | ⟨b₁, rest⟩
    · cases h
    · simp only [isTail, decide_eq_true_eq] at h
      split_ifs at h with htail
      cases h
      have := toNat_ofNat_ge (n := b.toNat % 32 * 64 + b₁.toNat % 64) (by omega) (by omega)
      omega
  · rcases rest with _ | ⟨b₁, _ | ⟨b₂, rest⟩⟩
    · cases h
    · cases h
    · simp only [isTail, decide_eq_true_eq] at h
      split_ifs at h with htail
      cases h
      have := toNat_ofNat_ge (n := b.toNat % 16 * 4096 + b₁.toNat % 64 * 64 + b₂.toNat % 64) (by omega) (by omega)
      omega
  · rcases rest with _ | ⟨b₁, _ | ⟨b₂, _ | ⟨b₃, rest⟩⟩⟩
    · cases h
    · cases h
    · cases h
    · simp only [isTail, decide_eq_true_eq] at h
      split_ifs at h with htail
      cases h
      have := toNat_ofNat_ge
        (n := b.toNat % 8 * 262144 + b₁.toNat % 64 * 4096 + b₂.toNat % 64 * 64 + b₃.toNat % 64) (by omega) (by omega)
      omega

theorem mem_of_mem_runesFrom {xs : Bytes} {skip : ℕ} {c : Char} (h : some c ∈ runesFrom skip xs)
    (hc : c.toNat < 0x80) : UInt8.ofNat c.toNat ∈ xs := by
  induction xs generalizing skip with
  | nil => cases skip <;> simp [runesFrom] at h
  | cons b rest ih =>
    cases skip with
    | succ skip => exact List.mem_cons_of_mem b (ih h)
    | zero =>
      rcases List.mem_cons.1 h with h | h
      · rw [← ascii_runeAt h.symm hc]
        simp
      · exact List.mem_cons_of_mem b (ih h)

/-- An ASCII rune of the text is one of the bytes. -/
theorem mem_of_mem_text {xs : Bytes} {c : Char} (h : c ∈ (text xs).toList) (hc : c.toNat < 0x80) :
    UInt8.ofNat c.toNat ∈ xs := by
  simp only [text, String.toList_ofList, List.mem_map] at h
  obtain ⟨r, hr, rfl⟩ := h
  rcases r with _ | c
  · exact absurd hc (by decide)
  · exact mem_of_mem_runesFrom hr hc

theorem text_append (xs : Bytes) {c : UInt8} (hc : c.toNat < 0x80) (ys : Bytes) :
    (text (xs ++ c :: ys)).toList = (text xs).toList ++ Char.ofNat c.toNat :: (text ys).toList := by
  simp [text, runes_append xs hc]

theorem mem_text_of_mem {xs : Bytes} {c : UInt8} (h : c ∈ xs) (hc : c.toNat < 0x80) :
    Char.ofNat c.toNat ∈ (text xs).toList := by
  obtain ⟨as, bs, rfl⟩ := List.append_of_mem h
  rw [text_append as hc bs]
  exact List.mem_append_right _ List.mem_cons_self

@[simp] theorem text_nil : text [] = "" := rfl

theorem text_ne_empty {xs : Bytes} (h : xs ≠ []) : text xs ≠ "" := by
  obtain ⟨b, rest, rfl⟩ := List.exists_cons_of_ne_nil h
  intro he
  have := congrArg String.toList he
  simp [text, runes, runesFrom] at this

/-! ### What was written is read back -/

theorem toNat_ofNat_byte {n : ℕ} (h : n < 256) : (UInt8.ofNat n).toNat = n := by
  rw [UInt8.toNat_ofNat']
  exact Nat.mod_eq_of_lt h

/-- The rune that a character is written as. -/
theorem runeAt_encode (c : Char) (ys : Bytes) : ∃ b rest, String.utf8EncodeChar c = b :: rest ∧
    runeAt b (rest ++ ys) = (some c, rest.length) := by
  have hvalid : c.toNat < 0xD800 ∨ 0xDFFF < c.toNat ∧ c.toNat < 0x110000 := c.valid
  have hofNat : ∀ n, n = c.toNat → Char.ofNat n = c := fun n hn => by rw [hn, Char.ofNat_toNat]
  have hv : c.val.toNat = c.toNat := rfl
  unfold String.utf8EncodeChar
  simp only [hv]
  split_ifs with h1 h2 h3
  · refine ⟨_, _, rfl, ?_⟩
    rw [runeAt_ascii (by rw [toNat_ofNat_byte] <;> omega), toNat_ofNat_byte (by omega), Char.ofNat_toNat]
    rfl
  · refine ⟨_, _, rfl, ?_⟩
    unfold runeAt isTail
    simp only [List.cons_append, toNat_ofNat_byte (show c.toNat / 64 % 32 + 192 < 256 by omega),
      toNat_ofNat_byte (show c.toNat % 64 + 128 < 256 by omega), decide_eq_true_eq]
    rw [if_neg (by omega), if_pos (by omega), if_pos (by omega), hofNat _ (by omega)]
    rfl
  · refine ⟨_, _, rfl, ?_⟩
    unfold runeAt isTail
    simp only [List.cons_append, toNat_ofNat_byte (show c.toNat / 4096 % 16 + 224 < 256 by omega),
      toNat_ofNat_byte (show c.toNat / 64 % 64 + 128 < 256 by omega),
      toNat_ofNat_byte (show c.toNat % 64 + 128 < 256 by omega), decide_eq_true_eq]
    rw [if_neg (by omega), if_neg (by omega), if_pos (by omega), if_pos (by omega), hofNat _ (by omega)]
    rfl
  · refine ⟨_, _, rfl, ?_⟩
    unfold runeAt isTail
    simp only [List.cons_append, toNat_ofNat_byte (show c.toNat / 262144 % 8 + 240 < 256 by omega),
      toNat_ofNat_byte (show c.toNat / 4096 % 64 + 128 < 256 by omega),
      toNat_ofNat_byte (show c.toNat / 64 % 64 + 128 < 256 by omega),
      toNat_ofNat_byte (show c.toNat % 64 + 128 < 256 by omega), decide_eq_true_eq]
    rw [if_neg (by omega), if_neg (by omega), if_neg (by omega), if_pos (by omega), if_pos (by omega),
      hofNat _ (by omega)]
    rfl

theorem runesFrom_length (xs ys : Bytes) : runesFrom xs.length (xs ++ ys) = runes ys := by
  induction xs with
  | nil => rfl
  | cons x xs ih => exact ih

theorem spansFrom_length (xs ys : Bytes) : spansFrom xs.length (xs ++ ys) = spans ys := by
  induction xs with
  | nil => rfl
  | cons x xs ih => exact ih

theorem runes_encode (c : Char) (ys : Bytes) : runes (String.utf8EncodeChar c ++ ys) = some c :: runes ys := by
  obtain ⟨b, rest, hc, hrune⟩ := runeAt_encode c ys
  rw [hc, List.cons_append, runes, runesFrom, hrune, runesFrom_length]

theorem spans_encode (c : Char) (ys : Bytes) :
    spans (String.utf8EncodeChar c ++ ys) = (some c, String.utf8EncodeChar c) :: spans ys := by
  obtain ⟨b, rest, hc, hrune⟩ := runeAt_encode c ys
  rw [hc, List.cons_append, spans, spansFrom, hrune, spansFrom_length, List.take_left]

theorem runes_bytes_append (s : String) (ys : Bytes) : runes (bytes s ++ ys) = s.toList.map some ++ runes ys := by
  unfold bytes
  induction s.toList with
  | nil => rfl
  | cons c rest ih => rw [List.flatMap_cons, List.append_assoc, runes_encode, ih, List.map_cons, List.cons_append]

theorem runes_bytes (s : String) : runes (bytes s) = s.toList.map some := by
  simpa [runes, runesFrom] using runes_bytes_append s []

theorem toList_text_bytes_append (s : String) (ys : Bytes) :
    (text (bytes s ++ ys)).toList = s.toList ++ (text ys).toList := by
  rw [text, runes_bytes_append]
  simp [text]

theorem text_bytes (s : String) : text (bytes s) = s := by
  rw [text, runes_bytes, List.map_map, Function.comp_def]
  simp

theorem mem_of_mem_bytes {s : String} {b : UInt8} (h : b ∈ bytes s) (hb : b.toNat < 0x80) :
    Char.ofNat b.toNat ∈ s.toList := by
  have := mem_text_of_mem h hb
  rwa [text_bytes] at this

theorem bytes_injective {s t : String} (h : bytes s = bytes t) : s = t := by
  rw [← text_bytes s, h, text_bytes]

theorem spans_bytes (s : String) : spans (bytes s) = s.toList.map fun c => (some c, String.utf8EncodeChar c) := by
  unfold bytes
  induction s.toList with
  | nil => rfl
  | cons c rest ih => rw [List.flatMap_cons, spans_encode, ih, List.map_cons]

/-- Text is trimmed as its runes are. -/
theorem trimBytes_bytes (p : Char → Bool) (s : String) : trimBytes p (bytes s) = bytes (trimRunes p s) := by
  unfold trimBytes trimRunes
  simp only [spans_bytes, List.rdropWhile, List.dropWhile_map, ← List.map_reverse, List.flatMap_map]
  rw [bytes, String.toList_ofList]
  rfl

@[simp] theorem bytes_append (s t : String) : bytes (s ++ t) = bytes s ++ bytes t := by
  simp [bytes]

end MiniSbAgent.Go
