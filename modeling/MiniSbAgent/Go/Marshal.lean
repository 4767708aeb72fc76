import MiniSbAgent.Go.Json

/-!
# Writing JSON

What `json.Marshal` writes for a document, and that the decoder reads it back.

* `Value.text` — the text of a value, without spaces, in the order of its members;
* `Value.Ok` — its numbers are numbers, `Value.depth` is how many brackets are open at once;
* `unmarshal_text` — the text is read back as the value, with white space behind it;
* `omitString`, `omitInt` — members under `omitempty`, and `foldlM_omitString`: to leave one out says the same as to write
  the zero value.
-/

namespace MiniSbAgent.Go.Json

/-- An integer. -/
def Value.int (n : ℤ) : Value := .num (bytes (itoa n))

mutual

def Value.text : Value → Bytes
  | .null => bytes "null"
  | .bool b => bytes (if b then "true" else "false")
  | .num literal => literal
  | .str s => stringText (bytes s)
  | .arr elems => listText 91 93 (elemTexts elems)
  | .obj members => listText 123 125 (memberTexts members)

def elemTexts : List Value → List Bytes
  | [] => []
  | v :: vs => v.text :: elemTexts vs

def memberTexts : List (String × Value) → List Bytes
  | [] => []
  | (key, v) :: ms => memberText key v.text :: memberTexts ms

end

mutual

/-- The brackets that are open at once. -/
def Value.depth : Value → ℕ
  | .arr elems => elemDepth elems + 1
  | .obj members => memberDepth members + 1
  | _ => 0

def elemDepth : List Value → ℕ
  | [] => 0
  | v :: vs => max v.depth (elemDepth vs)

def memberDepth : List (String × Value) → ℕ
  | [] => 0
  | (_, v) :: ms => max v.depth (memberDepth ms)

end

mutual

/-- Every number is one that the decoder knows. -/
def Value.Ok : Value → Prop
  | .num literal => ∀ depth, ReadsAs (parseValue depth) literal (.num literal)
  | .arr elems => ElemsOk elems
  | .obj members => MembersOk members
  | _ => True

def ElemsOk : List Value → Prop
  | [] => True
  | v :: vs => v.Ok ∧ ElemsOk vs

def MembersOk : List (String × Value) → Prop
  | [] => True
  | (_, v) :: ms => v.Ok ∧ MembersOk ms

end

theorem elemTexts_eq (vs : List Value) : elemTexts vs = vs.map Value.text := by
  induction vs with
  | nil => rfl
  | cons v vs ih => rw [elemTexts, ih, List.map_cons]

theorem memberTexts_eq (ms : List (String × Value)) : memberTexts ms = ms.map fun m => memberText m.1 m.2.text := by
  induction ms with
  | nil => rfl
  | cons m ms ih => rw [memberTexts, ih, List.map_cons]

theorem elemDepth_le {vs : List Value} {n : ℕ} : elemDepth vs ≤ n ↔ ∀ v ∈ vs, v.depth ≤ n := by
  induction vs with
  | nil => simp [elemDepth]
  | cons v vs ih => rw [elemDepth, max_le_iff, ih, List.forall_mem_cons]

theorem memberDepth_le {ms : List (String × Value)} {n : ℕ} : memberDepth ms ≤ n ↔ ∀ m ∈ ms, m.2.depth ≤ n := by
  induction ms with
  | nil => simp [memberDepth]
  | cons m ms ih => rw [memberDepth, max_le_iff, ih, List.forall_mem_cons]

theorem elemsOk_iff {vs : List Value} : ElemsOk vs ↔ ∀ v ∈ vs, v.Ok := by
  induction vs with
  | nil => simp [ElemsOk]
  | cons v vs ih => rw [ElemsOk, ih, List.forall_mem_cons]

theorem membersOk_iff {ms : List (String × Value)} : MembersOk ms ↔ ∀ m ∈ ms, m.2.Ok := by
  induction ms with
  | nil => simp [MembersOk]
  | cons m ms ih => rw [MembersOk, ih, List.forall_mem_cons]

theorem ok_int (n : ℤ) : (Value.int n).Ok := by
  unfold Value.int Value.Ok
  exact fun depth => readsAs_int depth n

theorem decodeInt_int {n : ℤ} (h : -maxInt64 - 1 ≤ n ∧ n ≤ maxInt64) (old : ℤ) : decodeInt old (.int n) = some n := by
  rw [Value.int, decodeInt, text_bytes]
  exact atoi_itoa_int h.1 h.2

/-! ### Reading it back -/

theorem readsAs_word (depth : ℕ) {word : Bytes} {v : Value} {b : UInt8} {r : Bytes} (hword : word = b :: r)
    (hstart : Starts word) (h91 : b ≠ 91) (h123 : b ≠ 123)
    (hscalar : ∀ cs, parseScalar (b :: cs) = parseWord word v (b :: cs)) : ReadsAs (parseValue depth) word v where
  starts := hstart
  reads rest _ := by
    have hstream : word ++ rest = b :: (r ++ rest) := by rw [hword, List.cons_append]
    rw [hstream, parseValue_scalar h91 h123, hscalar, ← hstream]
    unfold parseWord
    rw [List.take_left, if_pos rfl, List.drop_left]

theorem readsAs_scalar {v : Value} (hok : v.Ok) (h : v.depth = 0) (n : ℕ) : ReadsAs (parseValue n) v.text v := by
  cases v with
  | null =>
    rw [Value.text]
    exact readsAs_word n (b := 110) (r := [117, 108, 108]) (by decide) ⟨110, _, rfl, by decide, by decide, by decide⟩
      (by decide) (by decide) fun cs => rfl
  | bool b =>
    rw [Value.text]
    cases b with
    | true =>
      exact readsAs_word n (b := 116) (r := [114, 117, 101]) (by decide)
        ⟨116, _, rfl, by decide, by decide, by decide⟩ (by decide) (by decide) fun cs => rfl
    | false =>
      exact readsAs_word n (b := 102) (r := [97, 108, 115, 101]) (by decide)
        ⟨102, _, rfl, by decide, by decide, by decide⟩ (by decide) (by decide) fun cs => rfl
  | num literal =>
    rw [Value.Ok] at hok
    exact hok n
  | str s =>
    have hread := readsAs_string n (bytes s)
    rwa [text_bytes] at hread
  | arr elems => simp [Value.depth] at h
  | obj members => simp [Value.depth] at h

/-- **A document is read back**, whatever follows it. -/
theorem readsAs_value {n : ℕ} {v : Value} (hok : v.Ok) (h : v.depth ≤ n) : ReadsAs (parseValue n) v.text v := by
  induction n generalizing v with
  | zero => exact readsAs_scalar hok (Nat.le_zero.1 h) 0
  | succ n ih =>
    cases v with
    | arr elems =>
      rw [Value.Ok, elemsOk_iff] at hok
      rw [Value.depth, Nat.add_le_add_iff_right, elemDepth_le] at h
      rw [Value.text, elemTexts_eq]
      have hread : ReadsAs (parseValue (n + 1)) (listText 91 93 (elems.map Value.text)) (.arr (elems.map id)) :=
        readsAs_list elems fun v hv => ih (hok v hv) (h v hv)
      rwa [List.map_id] at hread
    | obj members =>
      rw [Value.Ok, membersOk_iff] at hok
      rw [Value.depth, Nat.add_le_add_iff_right, memberDepth_le] at h
      rw [Value.text, memberTexts_eq]
      have hread := readsAs_record (members.map fun m => (m.1, m.2.text, m.2)) (by
        intro f hf
        obtain ⟨m, hm, rfl⟩ := List.mem_map.1 hf
        exact ih (hok m hm) (h m hm))
      simpa only [List.map_map, Function.comp_def, Prod.mk.eta, List.map_id'] using hread
    | null => exact readsAs_scalar hok rfl _
    | bool b => exact readsAs_scalar hok rfl _
    | num literal => exact readsAs_scalar hok rfl _
    | str s => exact readsAs_scalar hok rfl _

theorem ends_of_blank {rest : Bytes} (h : ∀ b ∈ rest, isBlank b = true) : Ends rest := by
  intro b r hr
  have hb := h b (by rw [hr]; exact List.mem_cons_self)
  unfold isBlank at hb
  simp only [Bool.or_eq_true, beq_iff_eq] at hb
  rcases hb with ((rfl | rfl) | rfl) | rfl <;> decide

theorem parseValue_text {v : Value} (hok : v.Ok) (hdepth : v.depth ≤ maxNestingDepth) {rest : Bytes}
    (hrest : ∀ b ∈ rest, isBlank b = true) :
    parseValue maxNestingDepth (skipSpace (v.text ++ rest)) = some (v, rest) := by
  have hread := readsAs_value hok hdepth
  rw [hread.starts.skipSpace, hread.reads rest (ends_of_blank hrest)]

theorem unmarshal_text {v : Value} (hok : v.Ok) (hdepth : v.depth ≤ maxNestingDepth) {rest : Bytes}
    (hrest : ∀ b ∈ rest, isBlank b = true) : unmarshal (v.text ++ rest) = some v := by
  unfold unmarshal
  rw [parseValue_text hok hdepth hrest]
  exact if_pos (List.dropWhile_eq_nil_iff.2 hrest)

/-! ### Members that may be left out -/

/-- A string under `omitempty`. -/
def omitString (key s : String) : List (String × Value) := if s = "" then [] else [(key, .str s)]

/-- An integer under `omitempty`. -/
def omitInt (key : String) (n : ℤ) : List (String × Value) := if n = 0 then [] else [(key, .int n)]

section Omit

variable {α : Type} {set : α → String × Value → Option α} {key : String}

/-- To leave a string out is to set it to the empty string, which it was. -/
theorem foldlM_omitString {x y : α} {s : String} (hset : set x (key, .str s) = some y) (hzero : s = "" → y = x)
    (rest : List (String × Value)) : (omitString key s ++ rest).foldlM set x = rest.foldlM set y := by
  unfold omitString
  split_ifs with hs
  · rw [hzero hs, List.nil_append]
  · rw [List.cons_append, List.foldlM_cons, hset]
    rfl

theorem foldlM_omitInt {x y : α} {n : ℤ} (hset : set x (key, .int n) = some y) (hzero : n = 0 → y = x)
    (rest : List (String × Value)) : (omitInt key n ++ rest).foldlM set x = rest.foldlM set y := by
  unfold omitInt
  split_ifs with hn
  · rw [hzero hn, List.nil_append]
  · rw [List.cons_append, List.foldlM_cons, hset]
    rfl

end Omit

/-! ### Documents member by member -/

section Documents

variable (key s : String) (n : ℤ) (v : Value) (vs : List Value) (ms ms' : List (String × Value))

@[simp] theorem ok_str : (Value.str s).Ok ↔ True := by rw [Value.Ok] <;> simp

@[simp] theorem ok_bool (b : Bool) : (Value.bool b).Ok ↔ True := by rw [Value.Ok] <;> simp

@[simp] theorem ok_int_iff : (Value.int n).Ok ↔ True := iff_true_intro (ok_int n)

@[simp] theorem ok_arr : (Value.arr vs).Ok ↔ ∀ v ∈ vs, v.Ok := by rw [Value.Ok, elemsOk_iff]

@[simp] theorem ok_obj : (Value.obj ms).Ok ↔ MembersOk ms := by rw [Value.Ok]

@[simp] theorem membersOk_nil : MembersOk [] ↔ True := by rw [MembersOk]

@[simp] theorem membersOk_cons : MembersOk ((key, v) :: ms) ↔ v.Ok ∧ MembersOk ms := by rw [MembersOk]

@[simp] theorem membersOk_append : MembersOk (ms ++ ms') ↔ MembersOk ms ∧ MembersOk ms' := by
  simp only [membersOk_iff, List.forall_mem_append]

@[simp] theorem membersOk_omitString : MembersOk (omitString key s) ↔ True := by
  unfold omitString
  split_ifs <;> simp

@[simp] theorem membersOk_omitInt : MembersOk (omitInt key n) ↔ True := by
  unfold omitInt
  split_ifs <;> simp

@[simp] theorem depth_str : (Value.str s).depth = 0 := by rw [Value.depth] <;> simp

@[simp] theorem depth_bool (b : Bool) : (Value.bool b).depth = 0 := by rw [Value.depth] <;> simp

@[simp] theorem depth_int : (Value.int n).depth = 0 := by rw [Value.int, Value.depth] <;> simp

@[simp] theorem depth_arr : (Value.arr vs).depth = elemDepth vs + 1 := by rw [Value.depth]

@[simp] theorem depth_obj : (Value.obj ms).depth = memberDepth ms + 1 := by rw [Value.depth]

@[simp] theorem memberDepth_nil : memberDepth [] = 0 := by rw [memberDepth]

@[simp] theorem memberDepth_cons : memberDepth ((key, v) :: ms) = max v.depth (memberDepth ms) := by rw [memberDepth]

@[simp] theorem memberDepth_append : memberDepth (ms ++ ms') = max (memberDepth ms) (memberDepth ms') := by
  induction ms with
  | nil => simp
  | cons m ms ih => rw [List.cons_append, memberDepth_cons, memberDepth_cons, ih, max_assoc]

@[simp] theorem memberDepth_omitString : memberDepth (omitString key s) = 0 := by
  unfold omitString
  split_ifs <;> simp

@[simp] theorem memberDepth_omitInt : memberDepth (omitInt key n) = 0 := by
  unfold omitInt
  split_ifs <;> simp

end Documents

end MiniSbAgent.Go.Json
