import MiniSbAgent.Go.Strings
import MiniSbAgent.Go.Utf8

/-!
# How `net/http` reads a request

The part of a request between its first line and its body, as the server of `net/http` takes it apart: lines up to a
blank one, folded lines joined, names that must be tokens, values without control characters and with the blanks around
them dropped.  `readRequest` leaves the first line to the router, a request needs exactly one well-formed `Host`, and
only the framing by a content length is modelled: `readRequest` refuses any other.

* `requestLine` — the method and the target of the first line;
* `readRequest maxHead` — the fields and the body, or `none` when the server answers on its own, without a handler;
  `maxHead` is how many bytes it is willing to read before the body;
* `readRequest_sent` — what it makes of a head that was written field by field.
-/

namespace MiniSbAgent.Go.NetHTTP

/-- The fields in the order they came in, and the body. -/
structure Request where
  header : List (Bytes × Bytes)
  body : Bytes
deriving Repr, DecidableEq

/-! ### Bytes -/

def isBlank (b : UInt8) : Bool := b == 32 || b == 9

/-- `TrimString` of `textproto`: spaces and tabs. -/
def trimBlank (xs : Bytes) : Bytes := (xs.dropWhile isBlank).rdropWhile isBlank

def isAlnum (b : UInt8) : Bool :=
  decide (48 ≤ b.toNat ∧ b.toNat ≤ 57 ∨ 65 ≤ b.toNat ∧ b.toNat ≤ 90 ∨ 97 ≤ b.toNat ∧ b.toNat ≤ 122)

/-- A byte of a token, which is what a field name is made of. -/
def isTokenByte (b : UInt8) : Bool :=
  isAlnum b || [33, 35, 36, 37, 38, 39, 42, 43, 45, 46, 94, 95, 96, 124, 126].contains b

/-- A byte of a field value: no control character but the tab. -/
def isValueByte (b : UInt8) : Bool := b == 9 || decide (32 ≤ b.toNat ∧ b.toNat ≠ 127)

/-- A byte of a host: letters, digits and `!$%&'()*+,-.:;=[]_~`. -/
def isHostByte (b : UInt8) : Bool :=
  isAlnum b || [33, 36, 37, 38, 39, 40, 41, 42, 43, 44, 45, 46, 58, 59, 61, 91, 93, 95, 126].contains b

/-- Field names are compared in lower case. -/
def lower (name : Bytes) : Bytes :=
  name.map fun b => if 65 ≤ b.toNat ∧ b.toNat ≤ 90 then UInt8.ofNat (b.toNat + 32) else b

/-! ### Reading -/

def dropCR (line : Bytes) : Bytes := if line.getLast? = some 13 then line.dropLast else line

/-- The lines up to a blank one, without their ends, and what follows; `cur` is the line so far. -/
def headLines : Bytes → Bytes → Option (List Bytes × Bytes)
  | _, [] => none
  | cur, b :: rest =>
    if b = 10 then
      if dropCR cur = [] then some ([], rest) else (headLines [] rest).map fun p => (dropCR cur :: p.1, p.2)
    else headLines (cur ++ [b]) rest

/-- A line that starts with a blank goes on with the field before it; `done` are the fields so far, the last first. -/
def addLine (done : List Bytes) (line : Bytes) : Option (List Bytes) :=
  if (line.head?.map isBlank).getD false then
    match done with
    | [] => none
    | last :: before => some ((last ++ 32 :: trimBlank line) :: before)
  else some (trimBlank line :: done)

def unfoldLines (lines : List Bytes) : Option (List Bytes) := (lines.foldlM addLine []).map List.reverse

def cutColon : Bytes → Option (Bytes × Bytes)
  | [] => none
  | b :: rest => if b = 58 then some ([], rest) else (cutColon rest).map fun p => (b :: p.1, p.2)

def parseField (line : Bytes) : Option (Bytes × Bytes) :=
  match cutColon line with
  | none => none
  | some (name, value) =>
    if name ≠ [] ∧ name.all isTokenByte = true ∧ value.all isValueByte = true then some (name, trimBlank value)
    else none

def headerFields (lines : List Bytes) : Option (List (Bytes × Bytes)) := (unfoldLines lines).bind (·.mapM parseField)

/-- The values of a field. -/
def values (header : List (Bytes × Bytes)) (name : String) : List Bytes :=
  (header.filter fun f => lower f.1 == lower (bytes name)).map Prod.snd

/-- `Header.Get`. -/
def get (header : List (Bytes × Bytes)) (name : String) : Bytes := ((values header name).head?).getD []

def hostOk (header : List (Bytes × Bytes)) : Bool :=
  match values header "Host" with
  | [host] => host.all isHostByte
  | _ => false

/-- The length of the body; several fields have to agree. -/
def contentLength (header : List (Bytes × Bytes)) : Option ℕ :=
  match values header "Content-Length" with
  | [] => some 0
  | v :: more =>
    if more.all (· == v) = false then none
    else (digitsValue (text v).toList).bind fun n => if (n : ℤ) ≤ maxInt64 then some n else none

def readRequest (maxHead : ℕ) (stream : Bytes) : Option Request :=
  match headLines [] stream with
  | none => none
  | some (lines, rest) =>
    if maxHead < stream.length - rest.length then none
    else
      match headerFields lines.tail with
      | none => none
      | some header =>
        if hostOk header = false ∨ values header "Transfer-Encoding" ≠ [] then none
        else (contentLength header).map fun n => ⟨header, rest.take n⟩

/-- `strings.Cut` at a space. -/
def cutSpace : Bytes → Option (Bytes × Bytes)
  | [] => none
  | b :: rest => if b = 32 then some ([], rest) else (cutSpace rest).map fun p => (b :: p.1, p.2)

/-- The method and the target; the protocol has to be `HTTP/1.1`. -/
def requestLine (line : Bytes) : Option (Bytes × Bytes) :=
  match cutSpace line with
  | none => none
  | some (method, rest) =>
    match cutSpace rest with
    | none => none
    | some (target, proto) =>
      if method ≠ [] ∧ method.all isTokenByte = true ∧ proto = bytes "HTTP/1.1" then some (method, target) else none

theorem cutSpace_append {xs : Bytes} (h : 32 ∉ xs) (ys : Bytes) : cutSpace (xs ++ 32 :: ys) = some (xs, ys) := by
  induction xs with
  | nil => rw [List.nil_append, cutSpace, if_pos rfl]
  | cons b xs ih =>
    rw [List.mem_cons, not_or] at h
    rw [List.cons_append, cutSpace, if_neg (Ne.symm h.1), ih h.2, Option.map_some]

theorem requestLine_sent {method target : Bytes} (hne : method ≠ []) (htoken : method.all isTokenByte = true)
    (htarget : 32 ∉ target) :
    requestLine (method ++ 32 :: (target ++ 32 :: bytes "HTTP/1.1")) = some (method, target) := by
  have hmethod : (32 : UInt8) ∉ method := fun hmem => by
    have hspace := List.all_eq_true.1 htoken 32 hmem
    revert hspace
    decide
  unfold requestLine
  simp only [cutSpace_append hmethod, cutSpace_append htarget]
  rw [if_pos ⟨hne, htoken, trivial⟩]

/-! ### Trimming -/

theorem trimBlank_concat {xs : Bytes} {b : UInt8} (hb : isBlank b = true) : trimBlank (xs ++ [b]) = trimBlank xs := by
  unfold trimBlank
  rw [List.dropWhile_append]
  split_ifs with hnil
  · have hxs : xs.dropWhile isBlank = [] := by simpa using hnil
    rw [hxs, List.dropWhile_cons_of_pos hb, List.dropWhile_nil]
  · exact List.rdropWhile_concat_pos _ _ _ hb

theorem trimBlank_rdropWhile (xs : Bytes) : trimBlank (xs.rdropWhile isBlank) = trimBlank xs := by
  induction xs using List.reverseRecOn with
  | nil => rfl
  | append_singleton xs b ih =>
    by_cases hb : isBlank b = true
    · rw [List.rdropWhile_concat_pos _ _ _ hb, trimBlank_concat hb, ih]
    · rw [List.rdropWhile_concat_neg _ _ _ hb]

/-- A blank may stand in a value, and is white space in a text. -/
theorem blank_byte {b : UInt8} (h : isBlank b = true) :
    isValueByte b = true ∧ b.toNat < 0x80 ∧ isSpace (Char.ofNat b.toNat) = true := by
  unfold isBlank at h
  simp only [Bool.or_eq_true, beq_iff_eq] at h
  rcases h with rfl | rfl <;> decide

theorem all_rdropWhile (xs : Bytes) : (xs.rdropWhile isBlank).all isValueByte = xs.all isValueByte := by
  induction xs using List.reverseRecOn with
  | nil => rfl
  | append_singleton xs b ih =>
    by_cases hb : isBlank b = true
    · rw [List.rdropWhile_concat_pos _ _ _ hb, ih, List.all_append]
      simp [(blank_byte hb).1]
    · rw [List.rdropWhile_concat_neg _ _ _ hb]

theorem mem_of_mem_trimBlank {xs : Bytes} {b : UInt8} (h : b ∈ trimBlank xs) : b ∈ xs :=
  (List.dropWhile_suffix _).subset ((List.rdropWhile_prefix _ _).subset h)

theorem trimBlank_of_not_blank {xs : Bytes} (h : ∀ b ∈ xs, isBlank b = false) : trimBlank xs = xs := by
  have hdrop : xs.dropWhile isBlank = xs := List.dropWhile_eq_self_iff.2 fun hl => by
    simp [h _ (List.getElem_mem hl)]
  unfold trimBlank
  rw [hdrop]
  exact List.rdropWhile_eq_self_iff.2 fun hl => by simp [h _ (List.getLast_mem hl)]

theorem blank_of_trimBlank_eq_nil {xs : Bytes} (h : trimBlank xs = []) : ∀ b ∈ xs, isBlank b = true := by
  unfold trimBlank at h
  have hdrop : xs.dropWhile isBlank = [] := by
    by_contra hne
    obtain ⟨b, rest, hb⟩ := List.exists_cons_of_ne_nil hne
    have hall := List.rdropWhile_eq_nil_iff.1 h b (by rw [hb]; exact List.mem_cons_self)
    have hhead := List.head_dropWhile_not isBlank hne
    simp only [hb, List.head_cons, hall] at hhead
    cases hhead
  exact List.dropWhile_eq_nil_iff.1 hdrop

theorem encode_ne_nil (c : Char) : String.utf8EncodeChar c ≠ [] := by
  intro he
  have hlen := congrArg List.length he
  rw [String.length_utf8EncodeChar] at hlen
  exact c.utf8Size_pos.ne' hlen

def isBlankRune (c : Char) : Bool := c == ' ' || c == '\t'

theorem encode_blank {c : Char} (h : isBlankRune c = true) : ∃ b, String.utf8EncodeChar c = [b] ∧ isBlank b = true := by
  simp only [isBlankRune, Bool.or_eq_true, beq_iff_eq] at h
  rcases h with rfl | rfl
  · exact ⟨32, by decide, rfl⟩
  · exact ⟨9, by decide, rfl⟩

/-- A byte that is trimmed is a rune of its own. -/
theorem not_blank_encode {c : Char} (h : isBlankRune c = false) {b : UInt8} (hb : b ∈ String.utf8EncodeChar c) :
    ¬ isBlank b = true := by
  intro hblank
  have hmem : b ∈ bytes (String.ofList [c]) := by simpa [bytes] using hb
  have hc := mem_of_mem_bytes hmem (blank_byte hblank).2.1
  rw [String.toList_ofList, List.mem_singleton] at hc
  rw [← hc] at h
  simp only [isBlank, Bool.or_eq_true, beq_iff_eq] at hblank
  rcases hblank with rfl | rfl <;> exact absurd h (by decide)

theorem dropWhile_encode (cs : List Char) :
    (cs.flatMap String.utf8EncodeChar).dropWhile isBlank =
      (cs.dropWhile isBlankRune).flatMap String.utf8EncodeChar := by
  induction cs with
  | nil => rfl
  | cons c cs ih =>
    rw [List.flatMap_cons]
    by_cases hc : isBlankRune c = true
    · obtain ⟨b, he, hb⟩ := encode_blank hc
      rw [he, List.singleton_append, List.dropWhile_cons_of_pos hb, List.dropWhile_cons_of_pos hc, ih]
    · obtain ⟨b, bs, he⟩ := List.exists_cons_of_ne_nil (encode_ne_nil c)
      have hb : ¬ isBlank b = true := not_blank_encode (by simpa using hc) (by rw [he]; exact List.mem_cons_self)
      rw [List.dropWhile_cons_of_neg hc, List.flatMap_cons, he, List.cons_append, List.dropWhile_cons_of_neg hb]

theorem rdropWhile_encode (cs : List Char) :
    (cs.flatMap String.utf8EncodeChar).rdropWhile isBlank =
      (cs.rdropWhile isBlankRune).flatMap String.utf8EncodeChar := by
  induction cs using List.reverseRecOn with
  | nil => rfl
  | append_singleton cs c ih =>
    rw [List.flatMap_append, List.flatMap_singleton]
    by_cases hc : isBlankRune c = true
    · obtain ⟨b, he, hb⟩ := encode_blank hc
      rw [he, List.rdropWhile_concat_pos _ _ _ hb, List.rdropWhile_concat_pos _ _ _ hc, ih]
    · rw [List.rdropWhile_concat_neg _ _ _ hc, List.flatMap_append, List.flatMap_singleton]
      refine List.rdropWhile_eq_self_iff.2 fun hl => not_blank_encode (by simpa using hc) ?_
      rw [List.getLast_append_of_ne_nil _ (encode_ne_nil c)]
      exact List.getLast_mem (encode_ne_nil c)

/-- Text arrives without the blanks around it. -/
theorem trimBlank_text (s : String) : trimBlank (bytes s) = bytes (trimRunes isBlankRune s) := by
  unfold trimBlank bytes trimRunes
  rw [dropWhile_encode, rdropWhile_encode, String.toList_ofList]

/-- What `TrimSpace` leaves alone arrives as it was sent. -/
theorem trimBlank_bytes {s : String} (h : trimSpace s = s) : trimBlank (bytes s) = bytes s := by
  obtain ⟨hdrop, hrdrop⟩ := drop_of_trimRunes_eq h
  have hspace : ∀ c, isBlankRune c = true → isSpace c = true := by
    intro c hc
    simp only [isBlankRune, Bool.or_eq_true, beq_iff_eq] at hc
    rcases hc with rfl | rfl <;> rfl
  have hfirst : s.toList.dropWhile isBlankRune = s.toList := List.dropWhile_eq_self_iff.2 fun hl hc =>
    List.dropWhile_eq_self_iff.1 hdrop hl (hspace _ hc)
  have hlast : s.toList.rdropWhile isBlankRune = s.toList := List.rdropWhile_eq_self_iff.2 fun hl hc =>
    List.rdropWhile_eq_self_iff.1 hrdrop hl (hspace _ hc)
  rw [trimBlank_text, trimRunes, hfirst, hlast, String.ofList_toList]

theorem trimSpace_text_of_blank {xs : Bytes} (h : ∀ b ∈ xs, isBlank b = true) : trimSpace (text xs) = "" := by
  have hspace : ∀ c ∈ (text xs).toList, isSpace c = true := by
    induction xs with
    | nil => simp
    | cons b xs ih =>
      obtain ⟨-, hascii, hb⟩ := blank_byte (h b List.mem_cons_self)
      have htext := text_append [] hascii xs
      rw [List.nil_append, text_nil] at htext
      intro c hc
      rw [htext] at hc
      rcases List.mem_cons.1 hc with rfl | hc
      · exact hb
      · exact ih (fun b' hb' => h b' (List.mem_cons_of_mem b hb')) c hc
  unfold trimSpace trimRunes
  rw [List.dropWhile_eq_nil_iff.2 hspace]
  rfl

/-! ### What a header holds -/

theorem parseField_ok {line : Bytes} {f : Bytes × Bytes} (h : parseField line = some f) :
    f.2.all isValueByte = true := by
  unfold parseField at h
  split at h
  · cases h
  · split_ifs at h with hok
    cases h
    refine List.all_eq_true.2 fun b hb => ?_
    exact List.all_eq_true.1 hok.2.2 b (mem_of_mem_trimBlank hb)

theorem values_ok {lines : List Bytes} {header : List (Bytes × Bytes)} (h : headerFields lines = some header) :
    ∀ f ∈ header, f.2.all isValueByte = true := by
  obtain ⟨fields, -, hfields⟩ := Option.bind_eq_some_iff.1 h
  clear h
  induction fields generalizing header with
  | nil =>
    cases hfields
    simp
  | cons line fields ih =>
    simp only [List.mapM_cons, Option.bind_eq_bind, Option.bind_eq_some_iff] at hfields
    obtain ⟨f, hf, more, hmore, heq⟩ := hfields
    cases heq
    intro f' hf'
    rcases List.mem_cons.1 hf' with rfl | hf'
    · exact parseField_ok hf
    · exact ih hmore f' hf'

/-- No header of a request has a control character. -/
theorem get_ok {maxHead : ℕ} {stream : Bytes} {r : Request} (h : readRequest maxHead stream = some r) (name : String) :
    (get r.header name).all isValueByte = true := by
  have hall : ∀ f ∈ r.header, f.2.all isValueByte = true := by
    unfold readRequest at h
    split at h
    · cases h
    · split_ifs at h
      split at h
      · cases h
      · rename_i header hheader
        split_ifs at h
        obtain ⟨n, -, rfl⟩ := Option.map_eq_some_iff.1 h
        exact values_ok hheader
  unfold get values
  rcases hv : r.header.filter (fun f => lower f.1 == lower (bytes name)) with _ | ⟨f, fs⟩
  · rw [hv]
    rfl
  · have hf : f ∈ r.header := List.mem_of_mem_filter (by rw [hv]; exact List.mem_cons_self)
    rw [hv]
    exact hall f hf

/-! ### A head that was written field by field -/

/-- A name and its value as they are sent. -/
def fieldLine (f : Bytes × Bytes) : Bytes := f.1 ++ 58 :: 32 :: f.2

def sentLines (lines : List Bytes) : Bytes := lines.flatMap fun l => l ++ [13, 10]

/-- A field that stays on its line. -/
structure OneLine (f : Bytes × Bytes) : Prop where
  nonempty : f.1 ≠ []
  token : ∀ b ∈ f.1, isTokenByte b = true
  noLF : 10 ∉ f.2

theorem dropCR_concat (xs : Bytes) : dropCR (xs ++ [13]) = xs := by
  unfold dropCR
  rw [if_pos (by simp), List.dropLast_concat]

theorem headLines_line {l : Bytes} (h : 10 ∉ l) (cur rest : Bytes) :
    headLines cur (l ++ 13 :: 10 :: rest) =
      if cur ++ l = [] then some ([], rest) else (headLines [] rest).map fun p => ((cur ++ l) :: p.1, p.2) := by
  induction l generalizing cur with
  | nil =>
    rw [List.nil_append, headLines, if_neg (by decide), headLines, if_pos rfl, dropCR_concat, List.append_nil]
  | cons b l ih =>
    rw [List.mem_cons, not_or] at h
    rw [List.cons_append, headLines, if_neg (Ne.symm h.1), ih h.2, List.append_assoc, List.singleton_append]

theorem headLines_sent {lines : List Bytes} (h : ∀ l ∈ lines, l ≠ [] ∧ 10 ∉ l) (rest : Bytes) :
    headLines [] (sentLines lines ++ 13 :: 10 :: rest) = some (lines, rest) := by
  induction lines with
  | nil => exact headLines_line (l := []) (by simp) [] rest
  | cons l lines ih =>
    obtain ⟨hne, h10⟩ := h l List.mem_cons_self
    have hstream : sentLines (l :: lines) ++ 13 :: 10 :: rest =
        l ++ 13 :: 10 :: (sentLines lines ++ 13 :: 10 :: rest) := by simp [sentLines]
    rw [hstream, headLines_line h10, List.nil_append, if_neg hne,
      ih fun l' hl' => h l' (List.mem_cons_of_mem l hl'), Option.map_some]

theorem foldlM_addLine {lines : List Bytes} (h : ∀ l ∈ lines, ∃ b r, l = b :: r ∧ isBlank b = false)
    (done : List Bytes) : lines.foldlM addLine done = some ((lines.map trimBlank).reverse ++ done) := by
  induction lines generalizing done with
  | nil => rfl
  | cons l lines ih =>
    obtain ⟨b, r, rfl, hb⟩ := h l List.mem_cons_self
    have hadd : addLine done (b :: r) = some (trimBlank (b :: r) :: done) := by simp [addLine, hb]
    rw [List.foldlM_cons, hadd, Option.bind_eq_bind, Option.bind_some,
      ih fun l' hl' => h l' (List.mem_cons_of_mem _ hl')]
    simp

theorem not_blank_of_token {b : UInt8} (h : isTokenByte b = true) : isBlank b = false ∧ b ≠ 58 ∧ b ≠ 10 := by
  have hne : ∀ c, isTokenByte c = false → b ≠ c := fun c hc he => by
    rw [he, hc] at h
    cases h
  unfold isBlank
  simp [hne 32 (by decide), hne 9 (by decide), hne 58 (by decide), hne 10 (by decide)]

theorem cutColon_append {name : Bytes} (h : 58 ∉ name) (value : Bytes) :
    cutColon (name ++ 58 :: value) = some (name, value) := by
  induction name with
  | nil => rw [List.nil_append, cutColon, if_pos rfl]
  | cons b name ih =>
    rw [List.mem_cons, not_or] at h
    rw [List.cons_append, cutColon, if_neg (Ne.symm h.1), ih h.2, Option.map_some]

section Field

variable {f : Bytes × Bytes}

theorem OneLine.starts (h : OneLine f) : ∃ b r, fieldLine f = b :: r ∧ isBlank b = false := by
  obtain ⟨b, r, hb⟩ := List.exists_cons_of_ne_nil h.nonempty
  refine ⟨b, r ++ 58 :: 32 :: f.2, by rw [fieldLine, hb, List.cons_append], ?_⟩
  exact (not_blank_of_token (h.token b (by rw [hb]; exact List.mem_cons_self))).1

theorem OneLine.line (h : OneLine f) : fieldLine f ≠ [] ∧ 10 ∉ fieldLine f := by
  obtain ⟨b, r, hb, -⟩ := h.starts
  refine ⟨by rw [hb]; simp, ?_⟩
  have hname : (10 : UInt8) ∉ f.1 := fun hmem => (not_blank_of_token (h.token 10 hmem)).2.2 rfl
  simp [fieldLine, hname, h.noLF]

theorem parseField_sent (h : OneLine f) :
    parseField (trimBlank (fieldLine f)) = if f.2.all isValueByte = true then some (f.1, trimBlank f.2) else none := by
  have hcolon : (58 : UInt8) ∉ f.1 := fun hmem => (not_blank_of_token (h.token 58 hmem)).2.1 rfl
  -- only the end of the value is trimmed, the name starts the line
  have htrim : trimBlank (fieldLine f) = f.1 ++ 58 :: (32 :: f.2).rdropWhile isBlank := by
    obtain ⟨b, r, hb, hblank⟩ := h.starts
    have hsplit : fieldLine f = (f.1 ++ [58]) ++ 32 :: f.2 := by simp [fieldLine]
    unfold trimBlank
    rw [hb, List.dropWhile_cons_of_neg (by simp [hblank]), ← hb, hsplit,
      rdropWhile_append (by simp) (by simp [isBlank])]
    simp
  have hvalue : ((32 :: f.2).rdropWhile isBlank).all isValueByte = f.2.all isValueByte := by
    rw [all_rdropWhile, List.all_cons, show isValueByte 32 = true by decide, Bool.true_and]
  have hrest : trimBlank ((32 :: f.2).rdropWhile isBlank) = trimBlank f.2 := by
    rw [trimBlank_rdropWhile]
    unfold trimBlank
    rw [List.dropWhile_cons_of_pos (by decide)]
  unfold parseField
  rw [htrim, cutColon_append hcolon]
  simp only [hvalue, hrest, h.nonempty, List.all_eq_true.2 h.token, ne_eq, not_false_eq_true, true_and]

end Field

/-- The head of a request: its first line, the fields and a blank line. -/
def sentHead (first : Bytes) (fields : List (Bytes × Bytes)) : Bytes :=
  sentLines (first :: fields.map fieldLine) ++ [13, 10]

/-- The fields as they arrive. -/
def delivered (fields : List (Bytes × Bytes)) : List (Bytes × Bytes) := fields.map fun f => (f.1, trimBlank f.2)

/-- No value has a control character. -/
def ValuesOk (fields : List (Bytes × Bytes)) : Prop := ∀ f ∈ fields, f.2.all isValueByte = true

section Sent

variable {fields : List (Bytes × Bytes)}

theorem headerFields_sent (h : ∀ f ∈ fields, OneLine f) {header : List (Bytes × Bytes)} :
    headerFields (fields.map fieldLine) = some header ↔ ValuesOk fields ∧ header = delivered fields := by
  have hlines : unfoldLines (fields.map fieldLine) = some (fields.map fun f => trimBlank (fieldLine f)) := by
    unfold unfoldLines
    rw [foldlM_addLine (by
      intro l hl
      obtain ⟨f, hf, rfl⟩ := List.mem_map.1 hl
      exact (h f hf).starts)]
    simp
  unfold headerFields
  rw [hlines, Option.bind_some]
  clear hlines
  induction fields generalizing header with
  | nil =>
    rw [List.map_nil, List.mapM_nil]
    constructor
    · intro hheader
      exact ⟨by simp [ValuesOk], (Option.some.inj hheader).symm⟩
    · rintro ⟨-, rfl⟩
      rfl
  | cons f fields ih =>
    have ih := @ih fun f' hf' => h f' (List.mem_cons_of_mem f hf')
    have hcons : ValuesOk (f :: fields) ↔ f.2.all isValueByte = true ∧ ValuesOk fields := by simp [ValuesOk]
    rw [List.map_cons, List.mapM_cons, parseField_sent (h f List.mem_cons_self), hcons]
    by_cases hf : f.2.all isValueByte = true
    · rw [if_pos hf]
      simp only [Option.bind_eq_bind, Option.bind_some, Option.bind_eq_some_iff]
      constructor
      · rintro ⟨more, hmore, hheader⟩
        obtain ⟨hok, rfl⟩ := ih.1 hmore
        exact ⟨⟨hf, hok⟩, (Option.some.inj hheader).symm⟩
      · rintro ⟨⟨-, hok⟩, rfl⟩
        exact ⟨delivered fields, ih.2 ⟨hok, rfl⟩, rfl⟩
    · rw [if_neg hf]
      constructor
      · intro hnone
        cases hnone
      · rintro ⟨⟨hbad, -⟩, -⟩
        exact absurd hbad hf

/-- The lines of a head that was written field by field. -/
theorem headLines_sentHead (h : ∀ f ∈ fields, OneLine f) {first : Bytes} (hfirst : first ≠ [] ∧ 10 ∉ first)
    (body : Bytes) : headLines [] (sentHead first fields ++ body) = some (first :: fields.map fieldLine, body) := by
  have hstream : sentHead first fields ++ body =
      sentLines (first :: fields.map fieldLine) ++ 13 :: 10 :: body := by simp [sentHead]
  rw [hstream]
  refine headLines_sent (fun l hl => ?_) body
  rcases List.mem_cons.1 hl with rfl | hl
  · exact hfirst
  · obtain ⟨f, hf, rfl⟩ := List.mem_map.1 hl
    exact (h f hf).line

/-- **What the server makes of a request that was written field by field.** -/
theorem readRequest_sent (h : ∀ f ∈ fields, OneLine f) {first : Bytes} (hfirst : first ≠ [] ∧ 10 ∉ first)
    (maxHead : ℕ) (body : Bytes) {r : Request} :
    readRequest maxHead (sentHead first fields ++ body) = some r ↔
      (sentHead first fields).length ≤ maxHead ∧ ValuesOk fields ∧ hostOk (delivered fields) = true ∧
        values (delivered fields) "Transfer-Encoding" = [] ∧
        ∃ n, contentLength (delivered fields) = some n ∧ r = ⟨delivered fields, body.take n⟩ := by
  have hlines := headLines_sentHead h hfirst body
  have hlen : (sentHead first fields ++ body).length - body.length = (sentHead first fields).length := by
    rw [List.length_append]
    omega
  unfold readRequest
  simp only [hlines, hlen, List.tail_cons]
  by_cases hmax : (sentHead first fields).length ≤ maxHead
  swap
  · rw [if_pos (by omega)]
    simp [hmax]
  rw [if_neg (by omega)]
  rcases hheader : headerFields (fields.map fieldLine) with _ | header
  · have hbad : ¬ ValuesOk fields := fun hok => by
      rw [(headerFields_sent h).2 ⟨hok, rfl⟩] at hheader
      cases hheader
    simp [hbad]
  · obtain ⟨hok, rfl⟩ := (headerFields_sent h).1 hheader
    simp only [hmax, hok, true_and]
    by_cases hhost : hostOk (delivered fields) = true
    · by_cases hte : values (delivered fields) "Transfer-Encoding" = []
      · rw [if_neg (by simp [hhost, hte])]
        simp only [hhost, hte, true_and, Option.map_eq_some_iff]
        constructor
        · rintro ⟨n, hn, heq⟩
          exact ⟨n, hn, heq.symm⟩
        · rintro ⟨n, hn, heq⟩
          exact ⟨n, hn, heq.symm⟩
      · rw [if_pos (.inr hte)]
        simp [hte]
    · rw [if_pos (.inl (by simpa using hhost))]
      simp [hhost]

end Sent

end MiniSbAgent.Go.NetHTTP
