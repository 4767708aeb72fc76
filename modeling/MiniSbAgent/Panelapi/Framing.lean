import MiniSbAgent.Panelapi.MinHTTP

/-!
# What the HTTP client accepts as a body

`MinHTTP` says that an honest answer is read back.  Here the stream is arbitrary: it may be cut off, lie about its
sizes or carry anything where a line end should stand.

* `Sequence` — a chunk sequence as its sizes delimit it, and `Sequence.Read` the ones the decoder goes through;
* `readChunkedFrom_ok_iff` — the decoder returns a body exactly when such a sequence is at the head of the stream,
  and `Sequence.Read.unique` that there is at most one;
* `framing` — the framing that HTTP puts in force, and `Carries` the whole body that a stream carries under it;
* `CodingLine` — the lines of a chunked stream, which are read without a limit;
* `response_whole_iff` — when the client returns nothing but the whole body and makes no buffer over the limit;
* `ChunkedEncoding` — what chunked bytes should be, and `chunked_encoding_iff` when accepted bytes are that.
-/

namespace MiniSbAgent.Panelapi

open MiniSbAgent.Go MiniSbAgent.Lib

/-! ### Lines and slices at the head of a stream -/

/-- A line with its end. -/
def IsLine (l : Bytes) : Prop := ∃ xs, 10 ∉ xs ∧ l = xs ++ [10]

/-- A line that ends the headers or the trailers. -/
def Blank (l : Bytes) : Prop := trimRightSet (text l) "\r\n" = ""

instance Blank.decidable (l : Bytes) : Decidable (Blank l) := inferInstanceAs (Decidable (_ = _))

theorem readString_eq_some_iff {stream line rest : Bytes} :
    readString stream = some (line, rest) ↔ IsLine line ∧ stream = line ++ rest := by
  constructor
  · intro h
    induction stream generalizing line with
    | nil => cases h
    | cons b bs ih =>
      rw [readString] at h
      split_ifs at h with hb
      · cases h
        exact ⟨⟨[], List.not_mem_nil, by rw [hb]; rfl⟩, rfl⟩
      · obtain ⟨⟨line', rest'⟩, hrest, heq⟩ := Option.map_eq_some_iff.1 h
        simp only [Prod.mk.injEq] at heq
        obtain ⟨rfl, rfl⟩ := heq
        obtain ⟨⟨xs, hxs, rfl⟩, rfl⟩ := ih hrest
        refine ⟨⟨b :: xs, ?_, rfl⟩, rfl⟩
        rw [List.mem_cons, not_or]
        exact ⟨Ne.symm hb, hxs⟩
  · rintro ⟨⟨xs, hxs, rfl⟩, rfl⟩
    rw [List.append_assoc]
    exact readString_append hxs rest

theorem IsLine.readString {line : Bytes} (h : IsLine line) (rest : Bytes) :
    Panelapi.readString (line ++ rest) = some (line, rest) :=
  readString_eq_some_iff.2 ⟨h, rfl⟩

theorem readFull_eq_some_iff {n : ℕ} {stream xs rest : Bytes} :
    readFull n stream = some (xs, rest) ↔ xs.length = n ∧ stream = xs ++ rest := by
  constructor
  · intro h
    unfold readFull at h
    split_ifs at h with hn
    cases h
    exact ⟨List.length_take_of_le hn, (List.take_append_drop n stream).symm⟩
  · rintro ⟨rfl, rfl⟩
    exact readFull_append xs rest

theorem IsLine.length_pos {l : Bytes} (h : IsLine l) : 0 < l.length := by
  obtain ⟨xs, -, rfl⟩ := h
  simp

/-- At most one line is at the head of a stream. -/
theorem IsLine.unique {l l' r r' : Bytes} (hl : IsLine l) (hl' : IsLine l') (h : l ++ r = l' ++ r') :
    l = l' ∧ r = r' := by
  have hread := hl.readString r
  rw [h, hl'.readString r'] at hread
  simp only [Option.some.injEq, Prod.mk.injEq] at hread
  exact ⟨hread.1.symm, hread.2.symm⟩

theorem readTrailers_ok_iff {out stream body : Bytes} :
    readTrailers out stream = .ok body ↔ body = out ∧ ∃ (trailers : List Bytes) (blank rest : Bytes),
      (∀ l ∈ trailers, IsLine l ∧ ¬ Blank l) ∧ (IsLine blank ∧ Blank blank) ∧
        stream = trailers.flatten ++ blank ++ rest := by
  constructor
  · intro h
    induction hn : stream.length using Nat.strong_induction_on generalizing stream with
    | h n ih =>
      rcases hline : readString stream with _ | ⟨line, rest⟩
      · rw [readTrailers_of_none _ hline] at h
        cases h
      · rw [readTrailers_eq hline] at h
        have hlen := readString_length hline
        obtain ⟨hisLine, rfl⟩ := readString_eq_some_iff.1 hline
        split_ifs at h with hblank
        · cases h
          exact ⟨rfl, [], line, rest, by simp, ⟨hisLine, hblank⟩, by simp⟩
        · obtain ⟨hout, trailers, blank, rest', htrailers, hend, rfl⟩ := ih _ (by omega) h rfl
          refine ⟨hout, line :: trailers, blank, rest', ?_, hend, by simp⟩
          rw [List.forall_mem_cons]
          exact ⟨⟨hisLine, hblank⟩, htrailers⟩
  · rintro ⟨rfl, trailers, blank, rest, htrailers, ⟨hline, hblank⟩, rfl⟩
    induction trailers with
    | nil =>
      rw [List.flatten_nil, List.nil_append, readTrailers_eq (hline.readString rest)]
      exact if_pos hblank
    | cons l trailers ih =>
      rw [List.forall_mem_cons] at htrailers
      have hstream : (l :: trailers).flatten ++ blank ++ rest = l ++ (trailers.flatten ++ blank ++ rest) := by simp
      rw [hstream, readTrailers_eq (htrailers.1.1.readString _)]
      exact (if_neg htrailers.1.2).trans (ih htrailers.2)

/-! ### Chunk sequences -/

/-- A chunk in a stream: the line of its size, its data and the two bytes after them. -/
structure Piece where
  line : Bytes
  data : Bytes
  ending : Bytes
deriving Repr, DecidableEq

/-- A chunk sequence: the chunks, the line of the terminating one, the trailer lines and the blank line. -/
structure Sequence where
  pieces : List Piece
  last : Bytes
  trailers : List Bytes
  blank : Bytes
deriving Repr, DecidableEq

def Piece.bytes (p : Piece) : Bytes := p.line ++ (p.data ++ p.ending)

def Sequence.bytes (s : Sequence) : Bytes :=
  s.pieces.flatMap Piece.bytes ++ (s.last ++ (s.trailers.flatten ++ s.blank))

def Sequence.body (s : Sequence) : Bytes := s.pieces.flatMap Piece.data

/-- A chunk as the decoder takes it: its size is what `ParseInt` makes of the line. -/
structure Piece.Read (p : Piece) : Prop where
  line : IsLine p.line
  size : parseHex (chunkSizeText p.line) = some (p.data.length : ℤ)
  data : p.data ≠ []
  ending : p.ending.length = 2

structure Sequence.Read (s : Sequence) : Prop where
  pieces : ∀ p ∈ s.pieces, p.Read
  last : IsLine s.last
  zero : parseHex (chunkSizeText s.last) = some 0
  trailers : ∀ l ∈ s.trailers, IsLine l ∧ ¬ Blank l
  blank : IsLine s.blank ∧ Blank s.blank

/-- A pass that ends the loop reads the terminating line and the trailers. -/
theorem readChunk_inl_iff {out stream body : Bytes} :
    readChunk out stream = .ok (.inl body) ↔ body = out ∧ ∃ last trailers blank,
      (⟨[], last, trailers, blank⟩ : Sequence).Read ∧ last ++ (trailers.flatten ++ blank) <+: stream := by
  constructor
  · intro h
    obtain ⟨line, rest, size, hline, hsize, ⟨rfl, body', htr, hr⟩ | ⟨-, _, _, _, _, -, -, hr⟩⟩ := readChunk_ok h
    · cases hr
      obtain ⟨hisLine, rfl⟩ := readString_eq_some_iff.1 hline
      obtain ⟨hout, trailers, blank, rest', htrailers, hblank, rfl⟩ := readTrailers_ok_iff.1 htr
      exact ⟨hout, line, trailers, blank, ⟨by simp, hisLine, hsize, htrailers, hblank⟩, rest', by simp⟩
    · cases hr
  · rintro ⟨rfl, last, trailers, blank, hread, rest, rfl⟩
    have htr : readTrailers body (trailers.flatten ++ blank ++ rest) = .ok body :=
      readTrailers_ok_iff.2 ⟨rfl, trailers, blank, rest, hread.trailers, hread.blank, rfl⟩
    have hline : IsLine last := hread.last
    have hzero : parseHex (chunkSizeText last) = some 0 := hread.zero
    rw [readChunk_eq, List.append_assoc, hline.readString]
    simp only [hzero, lt_irrefl, if_false, if_true, htr]
    rfl

/-- A pass that goes on reads one chunk. -/
theorem readChunk_inr_iff {out stream out' rest : Bytes} :
    readChunk out stream = .ok (.inr (out', rest)) ↔ ∃ p : Piece, p.Read ∧ stream = p.bytes ++ rest ∧
      out' = out ++ p.data ∧ out.length + p.data.length ≤ minHTTPMaxBody := by
  constructor
  · intro h
    obtain ⟨line, rest₀, size, hline, hsize, ⟨-, _, -, hr⟩ | ⟨hfits, chunk, ending, rest₁, rest₂, hchunk, hending, hr⟩⟩ :=
      readChunk_ok h
    · cases hr
    · cases hr
      obtain ⟨hisLine, rfl⟩ := readString_eq_some_iff.1 hline
      obtain ⟨hlen, rfl⟩ := readFull_eq_some_iff.1 hchunk
      obtain ⟨hend, rfl⟩ := readFull_eq_some_iff.1 hending
      have hsize' : size = (chunk.length : ℤ) := by omega
      have hne : chunk ≠ [] := by
        rintro rfl
        rw [List.length_nil] at hlen
        omega
      have hmax : out.length + chunk.length ≤ minHTTPMaxBody := by omega
      exact ⟨⟨line, chunk, ending⟩, ⟨hisLine, by rw [hsize, hsize'], hne, hend⟩, by simp [Piece.bytes], rfl, hmax⟩
  · rintro ⟨p, hp, rfl, rfl, hmax⟩
    have hpos : 0 < p.data.length := List.length_pos_iff.2 hp.data
    have hend := readFull_append p.ending rest
    rw [hp.ending] at hend
    rw [readChunk_eq, Piece.bytes, List.append_assoc, List.append_assoc, hp.line.readString]
    simp only [hp.size]
    rw [if_neg (by omega), if_neg (by omega), if_neg (by omega), readChunkData_eq, Int.toNat_natCast]
    simp only [readFull_append, hend]
    rfl

/-- **The chunk decoder**: it returns exactly what the chunk sequence at the head of the stream carries, if there is one
and its data fit. -/
theorem readChunkedFrom_ok_iff {out stream body : Bytes} (hout : out.length ≤ minHTTPMaxBody) :
    readChunkedFrom out stream = .ok body ↔ ∃ s : Sequence, s.Read ∧ s.bytes <+: stream ∧ body = out ++ s.body ∧
      body.length ≤ minHTTPMaxBody := by
  constructor
  · intro h
    induction hn : stream.length using Nat.strong_induction_on generalizing out stream with
    | h n ih =>
      rw [readChunkedFrom_eq] at h
      rcases hchunk : readChunk out stream with e | body' | ⟨out', rest⟩
      · rw [hchunk] at h
        cases h
      · rw [hchunk] at h
        cases h
        obtain ⟨rfl, last, trailers, blank, hread, hpre⟩ := readChunk_inl_iff.1 hchunk
        exact ⟨⟨[], last, trailers, blank⟩, hread, hpre, by simp [Sequence.body], hout⟩
      · rw [hchunk] at h
        have hlen := readChunk_length hchunk
        obtain ⟨p, hp, rfl, rfl, hmax⟩ := readChunk_inr_iff.1 hchunk
        obtain ⟨s, hs, ⟨tail, htail⟩, rfl, hbody⟩ := ih _ (by omega) (by simpa using hmax) h rfl
        refine ⟨⟨p :: s.pieces, s.last, s.trailers, s.blank⟩, ⟨?_, hs.last, hs.zero, hs.trailers, hs.blank⟩,
          ⟨tail, ?_⟩, by simp [Sequence.body], hbody⟩
        · rw [List.forall_mem_cons]
          exact ⟨hp, hs.pieces⟩
        · rw [← htail]
          simp [Sequence.bytes]
  · rintro ⟨⟨pieces, last, trailers, blank⟩, hs, ⟨rest, rfl⟩, hbody, hmax⟩
    induction pieces generalizing out with
    | nil =>
      have hend : readChunk out (last ++ (trailers.flatten ++ blank) ++ rest) = .ok (.inl out) :=
        readChunk_inl_iff.2 ⟨rfl, last, trailers, blank, hs, ⟨rest, rfl⟩⟩
      rw [readChunkedFrom_eq, show (⟨[], last, trailers, blank⟩ : Sequence).bytes = _ from List.nil_append _, hend]
      simp [hbody, Sequence.body]
    | cons p pieces ih =>
      have hpieces := hs.pieces
      rw [List.forall_mem_cons] at hpieces
      have hlen : out.length + p.data.length ≤ minHTTPMaxBody := by
        rw [hbody] at hmax
        simp only [Sequence.body, List.flatMap_cons, List.length_append] at hmax
        omega
      have hstep : readChunk out (p.bytes ++ ((⟨pieces, last, trailers, blank⟩ : Sequence).bytes ++ rest)) = .ok (.inr
          (out ++ p.data, (⟨pieces, last, trailers, blank⟩ : Sequence).bytes ++ rest)) :=
        readChunk_inr_iff.2 ⟨p, hpieces.1, rfl, rfl, hlen⟩
      have hstream : (⟨p :: pieces, last, trailers, blank⟩ : Sequence).bytes ++ rest =
          p.bytes ++ ((⟨pieces, last, trailers, blank⟩ : Sequence).bytes ++ rest) := by
        simp [Sequence.bytes]
      rw [readChunkedFrom_eq, hstream, hstep]
      refine ih (by simpa using hlen) ⟨hpieces.2, hs.last, hs.zero, hs.trailers, hs.blank⟩ ?_
      rw [hbody]
      simp [Sequence.body]

theorem readChunkedBody_ok_iff {stream body : Bytes} :
    readChunkedBody stream = .ok body ↔
      ∃ s : Sequence, s.Read ∧ s.bytes <+: stream ∧ body = s.body ∧ body.length ≤ minHTTPMaxBody := by
  show readChunkedFrom [] stream = .ok body ↔ _
  rw [readChunkedFrom_ok_iff (by simp)]
  simp only [List.nil_append]

/-! ### At most one sequence -/

theorem trailers_unique {ts ts' : List Bytes} {blank blank' r r' : Bytes} (hts : ∀ l ∈ ts, IsLine l ∧ ¬ Blank l)
    (hts' : ∀ l ∈ ts', IsLine l ∧ ¬ Blank l) (hb : IsLine blank ∧ Blank blank) (hb' : IsLine blank' ∧ Blank blank')
    (h : ts.flatten ++ (blank ++ r) = ts'.flatten ++ (blank' ++ r')) : ts = ts' ∧ blank = blank' := by
  induction ts generalizing ts' with
  | nil =>
    rcases ts' with _ | ⟨l', ts'⟩
    · exact ⟨rfl, (hb.1.unique hb'.1 h).1⟩
    · rw [List.forall_mem_cons] at hts'
      rw [List.flatten_nil, List.nil_append, List.flatten_cons, List.append_assoc] at h
      obtain ⟨rfl, -⟩ := hb.1.unique hts'.1.1 h
      exact absurd hb.2 hts'.1.2
  | cons l ts ih =>
    rw [List.forall_mem_cons] at hts
    rw [List.flatten_cons, List.append_assoc] at h
    rcases ts' with _ | ⟨l', ts'⟩
    · obtain ⟨rfl, -⟩ := hts.1.1.unique hb'.1 h
      exact absurd hb'.2 hts.1.2
    · rw [List.forall_mem_cons] at hts'
      rw [List.flatten_cons, List.append_assoc] at h
      obtain ⟨rfl, htail⟩ := hts.1.1.unique hts'.1.1 h
      obtain ⟨rfl, rfl⟩ := ih hts.2 hts'.2 htail
      exact ⟨rfl, rfl⟩

/-- The size on its line delimits a chunk. -/
theorem Piece.Read.unique {p p' : Piece} (hp : p.Read) (hp' : p'.Read) {r r' : Bytes}
    (h : p.bytes ++ r = p'.bytes ++ r') : p = p' ∧ r = r' := by
  simp only [Piece.bytes, List.append_assoc] at h
  obtain ⟨hline, hrest⟩ := hp.line.unique hp'.line h
  have hlen : p.data.length = p'.data.length := by
    have hsize := hp.size
    rw [hline, hp'.size] at hsize
    simpa using hsize.symm
  obtain ⟨hdata, hrest⟩ := List.append_inj hrest hlen
  obtain ⟨hending, hrest⟩ := List.append_inj hrest (hp.ending.trans hp'.ending.symm)
  refine ⟨?_, hrest⟩
  cases p
  cases p'
  simp_all

/-- A chunk does not start with the line of the terminating one. -/
theorem Piece.Read.ne_last {p : Piece} (hp : p.Read) {last r r' : Bytes} (hlast : IsLine last)
    (hzero : parseHex (chunkSizeText last) = some 0) : p.bytes ++ r ≠ last ++ r' := by
  intro h
  rw [Piece.bytes, List.append_assoc] at h
  obtain ⟨rfl, -⟩ := hp.line.unique hlast h
  have := hp.size.symm.trans hzero
  exact hp.data (by simpa using this)

theorem pieces_unique {ps ps' : List Piece} (hps : ∀ p ∈ ps, p.Read) (hps' : ∀ p ∈ ps', p.Read)
    {last last' r r' : Bytes} (hlast : IsLine last) (hlast' : IsLine last')
    (hzero : parseHex (chunkSizeText last) = some 0) (hzero' : parseHex (chunkSizeText last') = some 0)
    (h : ps.flatMap Piece.bytes ++ (last ++ r) = ps'.flatMap Piece.bytes ++ (last' ++ r')) :
    ps = ps' ∧ last = last' ∧ r = r' := by
  induction ps generalizing ps' with
  | nil =>
    rcases ps' with _ | ⟨p', ps'⟩
    · exact ⟨rfl, hlast.unique hlast' h⟩
    · rw [List.forall_mem_cons] at hps'
      rw [List.flatMap_nil, List.nil_append, List.flatMap_cons, List.append_assoc] at h
      exact absurd h.symm (hps'.1.ne_last hlast hzero)
  | cons p ps ih =>
    rw [List.forall_mem_cons] at hps
    rw [List.flatMap_cons, List.append_assoc] at h
    rcases ps' with _ | ⟨p', ps'⟩
    · rw [List.flatMap_nil, List.nil_append] at h
      exact absurd h (hps.1.ne_last hlast' hzero')
    · rw [List.forall_mem_cons] at hps'
      rw [List.flatMap_cons, List.append_assoc] at h
      obtain ⟨rfl, htail⟩ := hps.1.unique hps'.1 h
      obtain ⟨rfl, hrest⟩ := ih hps.2 hps'.2 htail
      exact ⟨rfl, hrest⟩

/-- **At most one chunk sequence is at the head of a stream.** -/
theorem Sequence.Read.unique {s s' : Sequence} (hs : s.Read) (hs' : s'.Read) {r r' : Bytes}
    (h : s.bytes ++ r = s'.bytes ++ r') : s = s' := by
  simp only [Sequence.bytes, List.append_assoc] at h
  obtain ⟨hpieces, hlast, hrest⟩ := pieces_unique hs.pieces hs'.pieces hs.last hs'.last hs.zero hs'.zero h
  obtain ⟨htrailers, hblank⟩ := trailers_unique hs.trailers hs'.trailers hs.blank hs'.blank hrest
  cases s
  cases s'
  simp_all

theorem Sequence.Read.unique_of_prefix {s s' : Sequence} (hs : s.Read) (hs' : s'.Read) {stream : Bytes}
    (h : s.bytes <+: stream) (h' : s'.bytes <+: stream) : s = s' := by
  obtain ⟨r, rfl⟩ := h
  obtain ⟨r', hr'⟩ := h'
  exact hs.unique hs' hr'.symm

/-- `hello` in one chunk, with its size and the two bytes after it as given. -/
def helloSequence (size : String) (ending : Bytes) : Sequence :=
  ⟨[⟨bytes size ++ crlf, bytes "hello", ending⟩], bytes "0" ++ crlf, [], crlf⟩

theorem isLine_crlf (xs : Bytes) (h : 10 ∉ xs) : IsLine (xs ++ crlf) :=
  ⟨xs ++ [13], by simpa using h, by simp [crlf]⟩

section Hello

variable (size : String) (ending : Bytes)

theorem body_helloSequence : (helloSequence size ending).body = bytes "hello" := by
  simp [Sequence.body, helloSequence]

theorem helloSequence_read (hlf : 10 ∉ bytes size) (hsize : parseHex (chunkSizeText (bytes size ++ crlf)) = some 5)
    (h : ending.length = 2) : (helloSequence size ending).Read := by
  have hzero : parseHex (chunkSizeText (bytes "0" ++ crlf)) = some 0 := by decide +kernel
  have hdata : bytes "hello" ≠ [] := by decide +kernel
  refine ⟨?_, isLine_crlf _ (by decide +kernel), hzero, List.forall_mem_nil _, isLine_crlf [] List.not_mem_nil,
    blank_crlf⟩
  intro p hp
  rw [List.mem_singleton.1 hp]
  exact ⟨isLine_crlf _ hlf, hsize, hdata, h⟩

theorem readChunkedBody_hello (hlf : 10 ∉ bytes size)
    (hsize : parseHex (chunkSizeText (bytes size ++ crlf)) = some 5) (h : ending.length = 2) :
    readChunkedBody (helloSequence size ending).bytes = .ok (bytes "hello") :=
  readChunkedBody_ok_iff.2 ⟨_, helloSequence_read size ending hlf hsize h, List.prefix_refl _,
    (body_helloSequence size ending).symm, by decide +kernel⟩

end Hello

/-! ### The framing in force

By the rules of HTTP the last transfer coding decides, whatever the case of its letters: a body that is chunked last is
a chunk sequence, one with another coding ends with the connection.  Without a transfer coding the content length
counts, which has to be one number. -/

/-- Letters of ASCII in lower case. -/
def asciiLower (s : String) : String := String.ofList (s.toList.map Char.toLower)

/-- A name or a value without the blanks and tabs around it. -/
def trimBlanks (s : String) : String := trimRunes (fun c => c == ' ' || c == '\t') s

/-- The elements of a list in a field value. -/
def listElements (value : String) : List String :=
  ((value.toList.splitOn ',').map fun element => trimBlanks (String.ofList element)).filter (· ≠ "")

/-- The elements of all fields of a name. -/
def fieldElements (lines : List Bytes) (key : String) : List String :=
  lines.flatMap fun l =>
    match cut (text l) ':' with
    | some (name, value) => if asciiLower (trimBlanks name) = key then listElements value else []
    | none => []

/-- The framing in force; `none` when the content length is not one number. -/
def framing (lines : List Bytes) : Option Framing :=
  match (fieldElements lines "transfer-encoding").getLast? with
  | some coding => some (if asciiLower coding = "chunked" then .chunked else .untilClose)
  | none =>
    match fieldElements lines "content-length" with
    | [] => some .untilClose
    | v :: vs => if ∀ w ∈ vs, w = v then (digitsValue v.toList).map .contentLength else none

/-- **The whole body** that is carried by what follows the headers: the data of a chunk sequence up to the terminating
chunk and the trailers, as many bytes as announced, or everything up to close. -/
def Carries (stream body : Bytes) : Framing → Prop
  | .chunked => ∃ s : Sequence, s.Read ∧ s.bytes <+: stream ∧ body = s.body
  | .contentLength n => body.length = n ∧ body <+: stream
  | .untilClose => body = stream

theorem Carries.unique {f : Framing} {stream body body' : Bytes} (h : Carries stream body f)
    (h' : Carries stream body' f) : body = body' := by
  cases f with
  | chunked =>
    obtain ⟨s, hs, hpre, rfl⟩ := h
    obtain ⟨s', hs', hpre', rfl⟩ := h'
    rw [hs.unique_of_prefix hs' hpre hpre']
  | contentLength n =>
    exact (List.prefix_of_prefix_length_le h.2 h'.2 (by have := h.1; have := h'.1; omega)).eq_of_length
      (by have := h.1; have := h'.1; omega)
  | untilClose => exact Eq.trans h (Eq.symm h')

/-- A chunk sequence that is cut off carries nothing. -/
theorem not_carries_of_cut {s : Sequence} (hs : s.Read) {stream : Bytes} (hpre : stream <+: s.bytes)
    (hne : stream ≠ s.bytes) (body : Bytes) : ¬ Carries stream body .chunked := by
  rintro ⟨s', hs', hpre', -⟩
  obtain rfl := hs'.unique_of_prefix hs (hpre'.trans hpre) (List.prefix_refl _)
  exact hne (hpre.eq_of_length_le hpre'.length_le)

/-- A sequence that is cut off is refused. -/
theorem readChunkedBody_cut {s : Sequence} (hs : s.Read) {p : Bytes} (hp : p <+: s.bytes) (hne : p ≠ s.bytes)
    (body : Bytes) : readChunkedBody p ≠ .ok body := by
  intro h
  obtain ⟨s', hs', hpre, hbody, -⟩ := readChunkedBody_ok_iff.1 h
  exact not_carries_of_cut hs hp hne body ⟨s', hs', hpre, hbody⟩

theorem readFramed_untilClose (stream : Bytes) :
    readFramed stream .untilClose = .ok (stream.take minHTTPMaxBody) := rfl

/-- Under a framing that announces an end the client returns the whole body or nothing. -/
theorem readFramed_ok {f : Framing} {stream body : Bytes} (hclose : f = .untilClose → stream.length ≤ minHTTPMaxBody)
    (h : readFramed stream f = .ok body) : Carries stream body f := by
  cases f with
  | chunked =>
    obtain ⟨s, hs, hpre, hbody, -⟩ := readChunkedBody_ok_iff.1 h
    exact ⟨s, hs, hpre, hbody⟩
  | contentLength n =>
    rw [readFramed_contentLength] at h
    split at h
    · cases h
    rename_i xs rest hfull
    cases h
    obtain ⟨hlen, rfl⟩ := readFull_eq_some_iff.1 hfull
    exact ⟨hlen, List.prefix_append _ _⟩
  | untilClose =>
    rw [readFramed_untilClose, List.take_of_length_le (hclose rfl)] at h
    exact (Except.ok.inj h).symm

theorem readFramed_length {f : Framing} (hf : ∀ n, f = .contentLength n → n ≤ minHTTPMaxBody) {stream body : Bytes}
    (h : readFramed stream f = .ok body) : body.length ≤ minHTTPMaxBody := by
  cases f with
  | chunked =>
    obtain ⟨-, -, -, -, hlen⟩ := readChunkedBody_ok_iff.1 h
    exact hlen
  | contentLength n =>
    have hcarries : Carries stream body (.contentLength n) := readFramed_ok nofun h
    exact hcarries.1.le.trans (hf n rfl)
  | untilClose =>
    rw [readFramed_untilClose] at h
    rw [← Except.ok.inj h]
    exact List.length_take_le _ _

theorem framingOf_length {headers : GoMap String String} {n : ℕ} (h : framingOf headers = .ok (.contentLength n)) :
    n ≤ minHTTPMaxBody := by
  unfold framingOf at h
  simp only at h
  split_ifs at h
  · cases h
  · split at h
    · cases h
    · split_ifs at h with hneg hbig
      cases h
      omega
  · cases h

/-! ### Buffers -/

/-- The line at the head of a stream: up to the line feed, or all of it when there is none. -/
def headLine (stream : Bytes) : Bytes :=
  match readString stream with
  | some (line, _) => line
  | none => stream

/-- The lines of the trailers, up to a blank one. -/
inductive TrailerAt : Bytes → Bytes → Prop
  | head {stream : Bytes} : TrailerAt stream (headLine stream)
  | next {t stream l : Bytes} (ht : IsLine t) (hblank : ¬ Blank t) (h : TrailerAt stream l) : TrailerAt (t ++ stream) l

/-- The lines of a chunked stream after `k` bytes of data: those of the sizes, as long as the chunks fit, and those of
the trailers. -/
inductive CodingLine : ℕ → Bytes → Bytes → Prop
  | size {k : ℕ} {stream : Bytes} : CodingLine k stream (headLine stream)
  | trailer {k : ℕ} {last stream l : Bytes} (hlast : IsLine last) (hzero : parseHex (chunkSizeText last) = some 0)
      (h : TrailerAt stream l) : CodingLine k (last ++ stream) l
  | chunk {k : ℕ} {p : Piece} (hp : p.Read) (hfits : k + p.data.length ≤ minHTTPMaxBody) {stream l : Bytes}
      (h : CodingLine (k + p.data.length) stream l) : CodingLine k (p.bytes ++ stream) l

/-- No buffer has a size below zero or over the limit. -/
def Within (sizes : List ℤ) : Prop := ∀ n ∈ sizes, 0 ≤ n ∧ n ≤ minHTTPMaxBody

theorem notes_readLine (stream : Bytes) : (Reading.readLine stream).notes = [((headLine stream).length : ℤ)] := by
  unfold headLine
  rcases h : readString stream with _ | p
  · rw [readLine_of_none h]
  · rw [readLine_of_some h]

theorem notes_readSlice (n : ℤ) (stream : Bytes) : (Reading.readSlice n stream).notes = [n] := by
  rcases h : readFull n.toNat stream with _ | p
  · rw [readSlice_of_none h]
  · rw [readSlice_of_some h]

theorem readLine_ok {stream line rest : Bytes} {hlt : (line, rest).2.length < stream.length}
    (h : (Reading.readLine stream).result = .ok ⟨(line, rest), hlt⟩) : IsLine line ∧ stream = line ++ rest := by
  rcases hread : readString stream with _ | q
  · rw [readLine_of_none hread] at h
    cases h
  · rw [readLine_of_some hread] at h
    cases h
    exact readString_eq_some_iff.1 hread

/-- The buffers of the loop over the trailers are its lines. -/
theorem alloc_readTrailers {out stream : Bytes} {n : ℤ} (hn : n ∈ (Reading.readTrailers out stream).notes) :
    ∃ l, TrailerAt stream l ∧ n = l.length := by
  induction hk : stream.length using Nat.strong_induction_on generalizing stream with
  | h k ih =>
    rw [Reading.readTrailers] at hn
    rcases Noted.mem_bind.1 hn with hn | ⟨⟨⟨line, rest⟩, hlt⟩, hread, hn⟩
    · rw [notes_readLine, List.mem_singleton] at hn
      exact ⟨_, .head, hn⟩
    · obtain ⟨hline, rfl⟩ := readLine_ok hread
      split_ifs at hn with hblank
      · cases hn
      · obtain ⟨l, hl, hnl⟩ := ih _ (hk ▸ hlt) hn rfl
        exact ⟨l, .next hline hblank hl, hnl⟩

theorem TrailerAt.alloc {stream l : Bytes} (h : TrailerAt stream l) (out : Bytes) :
    (l.length : ℤ) ∈ (Reading.readTrailers out stream).notes := by
  induction h with
  | head =>
    rw [Reading.readTrailers]
    refine Noted.mem_bind.2 (.inl ?_)
    rw [notes_readLine]
    exact List.mem_singleton_self _
  | @next t stream l ht hblank _ ih =>
    rw [Reading.readTrailers, readLine_of_some (ht.readString stream)]
    refine Noted.mem_bind.2 (.inr ⟨_, rfl, ?_⟩)
    rw [if_neg (show trimRightSet (text t) "\r\n" ≠ "" from hblank)]
    exact ih

/-- A pass over a chunk makes the buffers of its data and of the body so far, which are checked before. -/
theorem notes_readChunkData {out stream : Bytes} {size : ℤ} (hpos : 0 < size)
    (hfits : out.length + size ≤ minHTTPMaxBody) : Within (Reading.readChunkData out size stream).notes := by
  intro n hn
  rcases Noted.mem_bind.1 hn with hn | ⟨⟨⟨chunk, rest⟩, hrest⟩, hread, hn⟩
  · rw [notes_readSlice, List.mem_singleton] at hn
    omega
  · have hlen : (chunk.length : ℤ) = size := by
      rcases hfull : readFull size.toNat stream with _ | q
      · rw [readSlice_of_none hfull] at hread
        cases hread
      · rw [readSlice_of_some hfull] at hread
        cases hread
        have := (readFull_eq_some_iff.1 hfull).1
        omega
    have hend : n = (out ++ chunk).length := by
      rw [Noted.notes_note, List.mem_cons] at hn
      refine hn.resolve_right ?_
      split <;> exact List.not_mem_nil
    rw [List.length_append] at hend
    omega

theorem readChunk_inr {out stream out' rest : Bytes} (h : readChunk out stream = .ok (.inr (out', rest))) :
    ∃ hlt, (Reading.readChunk out stream).result = .ok (.inr ⟨(out', rest), hlt⟩) := by
  unfold readChunk at h
  rcases hread : (Reading.readChunk out stream).result with e | body | ⟨p, hlt⟩ <;> rw [hread] at h <;> cases h
  exact ⟨hlt, rfl⟩

/-- **The buffers of the chunk decoder** that may be over the limit are the lines of the coding. -/
theorem alloc_readChunkedFrom {out stream : Bytes} {n : ℤ}
    (hn : n ∈ (Reading.readChunkedFrom out stream).notes) :
    0 ≤ n ∧ n ≤ minHTTPMaxBody ∨ ∃ l, CodingLine out.length stream l ∧ n = l.length := by
  induction hlen : stream.length using Nat.strong_induction_on generalizing out stream with
  | h k ih =>
    rw [Reading.readChunkedFrom] at hn
    rcases Noted.mem_bind.1 hn with hn | ⟨r, hr, hn⟩
    · rcases Noted.mem_bind.1 hn with hn | ⟨⟨⟨line, rest⟩, hlt⟩, hread, hn⟩
      · rw [notes_readLine, List.mem_singleton] at hn
        exact .inr ⟨_, .size, hn⟩
      obtain ⟨hisLine, rfl⟩ := readLine_ok hread
      simp only at hn
      split at hn
      · cases hn
      rename_i size hsize
      split_ifs at hn with hneg hzero hbig
      · cases hn
      · -- the terminating chunk
        subst hzero
        rcases Noted.mem_bind.1 hn with hn | ⟨_, _, hn⟩
        · obtain ⟨l, hl, hnl⟩ := alloc_readTrailers hn
          exact .inr ⟨l, .trailer hisLine hsize hl, hnl⟩
        · cases hn
      · cases hn
      · rcases Noted.mem_bind.1 hn with hn | ⟨_, _, hn⟩
        · exact .inl (notes_readChunkData (by omega) (by omega) n hn)
        · cases hn
    · rcases r with body | ⟨⟨out', rest⟩, hlt⟩
      · cases hn
      · have hchunk : readChunk out stream = .ok (.inr (out', rest)) := by
          unfold readChunk
          rw [hr]
          rfl
        obtain ⟨p, hp, rfl, rfl, hfits⟩ := readChunk_inr_iff.1 hchunk
        rcases ih _ (hlen ▸ hlt) hn rfl with hwithin | ⟨l, hl, rfl⟩
        · exact .inl hwithin
        · rw [List.length_append] at hl
          exact .inr ⟨l, .chunk hp hfits hl, rfl⟩

theorem CodingLine.alloc {k : ℕ} {stream l : Bytes} (h : CodingLine k stream l) (out : Bytes) (hout : out.length = k) :
    (l.length : ℤ) ∈ (Reading.readChunkedFrom out stream).notes := by
  induction h generalizing out with
  | size =>
    rw [Reading.readChunkedFrom, Reading.readChunk]
    refine Noted.mem_bind.2 (.inl (Noted.mem_bind.2 (.inl ?_)))
    rw [notes_readLine]
    exact List.mem_singleton_self _
  | @trailer k last stream l hlast hzero h =>
    rw [Reading.readChunkedFrom, Reading.readChunk, readLine_of_some (hlast.readString stream)]
    refine Noted.mem_bind.2 (.inl (Noted.mem_bind.2 (.inr ⟨_, rfl, ?_⟩)))
    simp only [hzero, lt_irrefl, if_false, if_true]
    exact Noted.mem_bind.2 (.inl (h.alloc out))
  | @chunk k p hp hfits stream l h ih =>
    subst hout
    obtain ⟨hlt, hread⟩ := readChunk_inr (readChunk_inr_iff.2 ⟨p, hp, rfl, rfl, hfits⟩)
    rw [Reading.readChunkedFrom]
    exact Noted.mem_bind.2 (.inr ⟨_, hread, ih _ List.length_append⟩)

/-- The buffers of a body are within the limit exactly when the lines of its chunks are. -/
theorem within_readBody {headers : GoMap String String} {stream : Bytes} :
    Within (Reading.readBody headers stream).notes ↔
      (framingOf headers = .ok .chunked → ∀ l, CodingLine 0 stream l → l.length ≤ minHTTPMaxBody) := by
  cases hf : framingOf headers with
  | error e =>
    rw [readBody_of_error hf]
    exact iff_of_true nofun nofun
  | ok f =>
    rw [readBody_of_framing hf]
    cases f with
    | chunked =>
      constructor
      · intro h _ l hl
        exact_mod_cast (h _ (hl.alloc [] rfl)).2
      · intro h n hn
        rcases alloc_readChunkedFrom hn with hwithin | ⟨l, hl, rfl⟩
        · exact hwithin
        · exact ⟨Int.natCast_nonneg _, by exact_mod_cast h rfl l hl⟩
    | contentLength k =>
      refine iff_of_true (fun n hn => ?_) nofun
      have hk := framingOf_length hf
      rcases Noted.mem_bind.1 hn with hn | ⟨_, _, hn⟩
      · rw [notes_readSlice, List.mem_singleton] at hn
        omega
      · cases hn
    | untilClose =>
      refine iff_of_true (fun n hn => ?_) nofun
      have hlen := List.length_take_le minHTTPMaxBody stream
      have hn := List.mem_singleton.1 hn
      omega

/-! ### The whole body or an error -/

/-- What is asked of a run on an answer with these header lines, which `stream` follows: a body that is returned is the
whole one under the framing in force, a body over the limit is an error, a chunk sequence or a counted body that is cut
off is an error, and no buffer is made with a size below zero or over the limit. -/
structure Whole (lines : List Bytes) (stream : Bytes) (run : Noted Effect MinHTTPError MinHTTPResponse) : Prop where
  body : ∀ resp, run.result = .ok resp → ∃ f, framing lines = some f ∧ Carries stream resp.body f
  tooLarge : ∀ f body, framing lines = some f → Carries stream body f → minHTTPMaxBody < body.length →
    ∃ e, run.result = .error e
  cut : framing lines = some .chunked → ∀ s : Sequence, s.Read → stream <+: s.bytes → stream ≠ s.bytes →
    ∃ e, run.result = .error e
  short : ∀ n, framing lines = some (.contentLength n) → stream.length < n → ∃ e, run.result = .error e
  buffers : Within (allocs run.notes)

section Whole

variable {lines : List Bytes} {stream : Bytes} {run : Noted Effect MinHTTPError MinHTTPResponse}
  (hwithin : Within (allocs run.notes))

include hwithin

theorem Whole.of_error {e : MinHTTPError} (h : run.result = .error e) : Whole lines stream run := by
  refine ⟨fun resp hok => ?_, fun _ _ _ _ _ => ⟨e, h⟩, fun _ _ _ _ _ => ⟨e, h⟩, fun _ _ _ => ⟨e, h⟩, hwithin⟩
  cases h.symm.trans hok

/-- The whole body is an answer when it fits: nothing else is carried, and the stream was not cut off. -/
theorem Whole.of_carries {f : Framing} (hf : framing lines = some f) {resp : MinHTTPResponse}
    (h : run.result = .ok resp) (hcarries : Carries stream resp.body f) (hlen : resp.body.length ≤ minHTTPMaxBody) :
    Whole lines stream run := by
  refine ⟨fun resp' h' => ?_, ?_, ?_, ?_, hwithin⟩
  · obtain rfl := Except.ok.inj (h.symm.trans h')
    exact ⟨f, hf, hcarries⟩
  · intro f' body hf' hbody hmax
    obtain rfl := Option.some.inj (hf.symm.trans hf')
    rw [hbody.unique hcarries] at hmax
    omega
  · intro hchunked s hs hpre hne
    obtain rfl := Option.some.inj (hf.symm.trans hchunked)
    exact absurd hcarries (not_carries_of_cut hs hpre hne _)
  · intro n hn hshort
    obtain rfl := Option.some.inj (hf.symm.trans hn)
    have := hcarries.2.length_le
    have := hcarries.1
    omega

end Whole

/-- What is read without a check of its size is within the limit: the lines of the head, those of a chunked coding, and
a body up to close. -/
structure Moderate (status : Bytes) (lines : List Bytes) (rest : Bytes) : Prop where
  head : ∀ l ∈ status :: lines, (l ++ crlf).length ≤ minHTTPMaxBody
  coded : framingOf (headerMap lines ∅) = .ok .chunked → ∀ l, CodingLine 0 rest l → l.length ≤ minHTTPMaxBody
  closed : framingOf (headerMap lines ∅) = .ok .untilClose → rest.length ≤ minHTTPMaxBody

theorem within_append {xs ys : List ℤ} : Within (xs ++ ys) ↔ Within xs ∧ Within ys := List.forall_mem_append

theorem within_lines {ls : List Bytes} :
    Within (ls.map lineAlloc) ↔ ∀ l ∈ ls, (l ++ crlf).length ≤ minHTTPMaxBody := by
  unfold Within lineAlloc
  rw [List.forall_mem_map]
  exact forall₂_congr fun l _ => by omega

def panelURL : ParsedURL := ⟨"http", "panel", "panel", "", "/"⟩

/-- The run of a request that is answered with these header lines and what follows them. -/
def answered (lines : List Bytes) (rest : Bytes) : Noted Effect MinHTTPError MinHTTPResponse :=
  minHTTPRun (fun _ => some panelURL)
    (fun _ _ => some (bytes "HTTP/1.1 200 OK" ++ crlf ++ (linesOf lines ++ crlf ++ rest))) (.stored _) "GET"
    "http://panel/" ∅ []

theorem result_answered {lines : List Bytes} (hlines : ∀ l ∈ lines, PlainLine l)
    (hclose : framingOf (headerMap lines ∅) = .ok .untilClose) (rest : Bytes) :
    ∃ reason, (answered lines rest).result = .ok ⟨200, reason, rest.take minHTTPMaxBody⟩ := by
  obtain ⟨reason, -, hresult⟩ : ∃ reason, _ ∧ (answered lines rest).result = _ :=
    minHTTPRun_lines (u := panelURL) rfl (.inl rfl) statusLine_ok hlines rfl
  refine ⟨reason, ?_⟩
  unfold readBody at hresult
  rw [hresult, readBody_of_framing hclose]
  rfl

/-- A line that gives the size `n`: hexadecimal digits and perhaps an extension, with white space around them. -/
def SizeLine (line : Bytes) (n : ℕ) : Prop :=
  IsLine line ∧ ∃ before digits ext after, (text line).toList = before ++ (digits ++ ext) ++ after ∧
    (∀ c ∈ before, isSpace c = true) ∧ (∀ c ∈ after, isSpace c = true) ∧ hexValue digits = some n ∧
    (ext = [] ∨ ∃ e, ext = ';' :: e)

/-- The bytes `m` are a chunked encoding of `body`. -/
def ChunkedEncoding (m body : Bytes) : Prop :=
  ∃ s : Sequence, m = s.bytes ∧ body = s.body ∧
    (∀ p ∈ s.pieces, SizeLine p.line p.data.length ∧ p.data ≠ [] ∧ p.ending = crlf) ∧ SizeLine s.last 0 ∧
    (∀ l ∈ s.trailers, IsLine l ∧ ¬ Blank l) ∧ IsLine s.blank ∧ Blank s.blank

/-- No sign stands in front of the size of a line. -/
def Unsigned (line : Bytes) : Prop :=
  (chunkSizeText line).toList.head? ≠ some '+' ∧ (chunkSizeText line).toList.head? ≠ some '-'

instance (line : Bytes) : Decidable (Unsigned line) := by unfold Unsigned; infer_instance

/-- Every chunk is followed by CR LF, and no size has a sign. -/
def Sequence.Strict (s : Sequence) : Prop :=
  (∀ p ∈ s.pieces, p.ending = crlf ∧ Unsigned p.line) ∧ Unsigned s.last

/-- What `TrimSpace` takes away is white space. -/
theorem trimSpace_split (s : String) : ∃ before after : List Char,
    s.toList = before ++ (trimSpace s).toList ++ after ∧ (∀ c ∈ before, isSpace c = true) ∧
      ∀ c ∈ after, isSpace c = true := by
  refine ⟨s.toList.takeWhile isSpace, (s.toList.dropWhile isSpace).rtakeWhile isSpace, ?_, ?_, ?_⟩
  · unfold trimSpace trimRunes
    rw [String.toList_ofList, List.append_assoc, List.rdropWhile_append_rtakeWhile, List.takeWhile_append_dropWhile]
  · exact fun c hc => List.mem_takeWhile_imp hc
  · exact fun c hc => List.mem_rtakeWhile_imp hc

theorem cut_eq_some {s : String} {sep : Char} {a b : String} (h : cut s sep = some (a, b)) :
    s.toList = a.toList ++ sep :: b.toList := by
  have hrunes : ∀ {cs xs ys : List Char}, cutRunes sep cs = some (xs, ys) → cs = xs ++ sep :: ys := by
    intro cs
    induction cs with
    | nil =>
      intro xs ys h
      cases h
    | cons c cs ih =>
      intro xs ys h
      rw [cutRunes] at h
      split_ifs at h with hc
      · cases h
        rw [hc, List.nil_append]
      · obtain ⟨⟨xs', ys'⟩, hcut, heq⟩ := Option.map_eq_some_iff.1 h
        simp only [Prod.mk.injEq] at heq
        obtain ⟨rfl, rfl⟩ := heq
        rw [ih hcut, List.cons_append]
  unfold cut at h
  obtain ⟨⟨xs, ys⟩, hcut, heq⟩ := Option.map_eq_some_iff.1 h
  simp only [Prod.mk.injEq] at heq
  obtain ⟨rfl, rfl⟩ := heq
  rw [hrunes hcut, String.toList_ofList, String.toList_ofList]

/-- The size text stands between white space and an extension. -/
theorem chunkSizeText_split (line : Bytes) : ∃ before ext after : List Char,
    (text line).toList = before ++ ((chunkSizeText line).toList ++ ext) ++ after ∧ (∀ c ∈ before, isSpace c = true) ∧
      (∀ c ∈ after, isSpace c = true) ∧ (ext = [] ∨ ∃ e, ext = ';' :: e) := by
  obtain ⟨before, after, htext, hbefore, hafter⟩ := trimSpace_split (text line)
  unfold chunkSizeText
  simp only
  split
  · rename_i size more hcut
    exact ⟨before, ';' :: more.toList, after, by rw [← cut_eq_some hcut]; exact htext, hbefore, hafter,
      Or.inr ⟨_, rfl⟩⟩
  · exact ⟨before, [], after, by rw [List.append_nil]; exact htext, hbefore, hafter, Or.inl rfl⟩

theorem chunkSizeText_of_sizeLine {line : Bytes} {n : ℕ} (h : SizeLine line n) :
    hexValue (chunkSizeText line).toList = some n := by
  obtain ⟨-, before, digits, ext, after, htext, hbefore, hafter, hvalue, hext⟩ := h
  obtain ⟨hne, hdigits⟩ := hexValue_spec hvalue
  have hspace : ∀ c ∈ digits, isSpace c = false := fun c hc => by
    have := hexDigit_range (hdigits c hc)
    exact isSpace_eq_false (by omega) (by omega)
  have hsemi : ';' ∉ digits := fun hc => by
    have := hexDigit_range (hdigits _ hc)
    revert this
    decide
  -- trimming takes the white space in front away, and leaves the digits and what follows them
  have htrim : (trimSpace (text line)).toList = digits ++ (ext ++ after).rdropWhile isSpace := by
    have hfront : trimSpace (text line) = trimSpace (String.ofList (digits ++ (ext ++ after))) := by
      unfold trimSpace trimRunes
      rw [htext, String.toList_ofList, List.append_assoc, List.append_assoc, List.dropWhile_append_of_pos hbefore]
    rw [hfront]
    exact trimSpace_append hne (hspace _ (List.head_mem hne)) (hspace _ (List.getLast_mem hne)) _
  unfold chunkSizeText cut
  simp only
  rw [htrim]
  rcases hext with rfl | ⟨e, rfl⟩
  · have hnil : ([] ++ after : List Char).rdropWhile isSpace = [] := List.rdropWhile_eq_nil_iff.2 hafter
    rw [hnil, List.append_nil] at htrim ⊢
    rw [cutRunes_eq_none hsemi]
    simp only [Option.map_none, htrim]
    exact hvalue
  · have hkeep : (';' :: e ++ after).rdropWhile isSpace = ';' :: (e ++ after).rdropWhile isSpace :=
      rdropWhile_append (show [';'] ≠ [] by simp) (by decide) _
    rw [hkeep, cutRunes_append hsemi]
    simp only [Option.map_some, String.toList_ofList]
    exact hvalue

/-- A size without a sign is the value of its digits. -/
theorem hexValue_of_parseHex {s : String} {n : ℕ} (h : parseHex s = some (n : ℤ))
    (hsign : s.toList.head? ≠ some '+' ∧ s.toList.head? ≠ some '-') : hexValue s.toList = some n := by
  unfold parseHex at h
  split at h
  · rename_i hs
    rw [hs] at hsign
    exact absurd rfl hsign.2
  · rename_i hs
    rw [hs] at hsign
    exact absurd rfl hsign.1
  · obtain ⟨m, hm, hif⟩ := Option.bind_eq_some_iff.1 h
    split_ifs at hif
    have : (m : ℤ) = n := Option.some.inj hif
    rw [hm, Nat.cast_inj.1 this]

theorem unsigned_of_hexValue {s : String} {n : ℕ} (h : hexValue s.toList = some n) :
    s.toList.head? ≠ some '+' ∧ s.toList.head? ≠ some '-' := by
  obtain ⟨-, hdigits⟩ := hexValue_spec h
  have hno : ∀ c, hexDigit c = none → s.toList.head? ≠ some c := fun c hc hhead =>
    hdigits c (List.mem_of_head? hhead) hc
  exact ⟨hno '+' (by decide), hno '-' (by decide)⟩

/-- On a line that the decoder takes, the size is a size of the encoding exactly when it has no sign. -/
theorem sizeLine_iff {line : Bytes} {n : ℕ} (hline : IsLine line)
    (hsize : parseHex (chunkSizeText line) = some (n : ℤ)) : SizeLine line n ↔ Unsigned line := by
  constructor
  · intro h
    exact unsigned_of_hexValue (chunkSizeText_of_sizeLine h)
  · intro h
    obtain ⟨before, ext, after, htext, hbefore, hafter, hext⟩ := chunkSizeText_split line
    exact ⟨hline, before, _, ext, after, htext, hbefore, hafter, hexValue_of_parseHex hsize h, hext⟩

theorem Piece.read_of_encoded {p : Piece} (hsize : SizeLine p.line p.data.length) (hdata : p.data ≠ [])
    (hending : p.ending = crlf) (hlen : (p.data.length : ℤ) ≤ maxInt64) : p.Read :=
  ⟨hsize.1, parseHex_of_value (chunkSizeText_of_sizeLine hsize) hlen, hdata, by rw [hending]; rfl⟩

/-- The bytes of a sequence that was read are a chunked encoding exactly when the sequence is strict. -/
theorem Sequence.Read.encoding_iff {s : Sequence} (hs : s.Read) (hlen : (s.body.length : ℤ) ≤ maxInt64) :
    ChunkedEncoding s.bytes s.body ↔ s.Strict := by
  constructor
  · rintro ⟨s', hbytes, hbody, hpieces, hlast, htrailers, hblank⟩
    have hpiece : ∀ p ∈ s'.pieces, p.data.length ≤ s'.body.length := fun p hp =>
      (List.sublist_flatten_of_mem (List.mem_map_of_mem (f := Piece.data) hp)).length_le
    have hs' : s'.Read := by
      refine ⟨fun p hp => ?_, hlast.1, ?_, htrailers, hblank⟩
      · obtain ⟨hsize, hdata, hending⟩ := hpieces p hp
        refine Piece.read_of_encoded hsize hdata hending ?_
        have := hpiece p hp
        rw [hbody] at hlen
        omega
      · exact parseHex_of_value (chunkSizeText_of_sizeLine hlast) (by decide)
    obtain rfl := hs.unique_of_prefix hs' (List.prefix_refl _) (by rw [hbytes])
    refine ⟨fun p hp => ⟨(hpieces p hp).2.2, ?_⟩, unsigned_of_hexValue (chunkSizeText_of_sizeLine hlast)⟩
    exact unsigned_of_hexValue (chunkSizeText_of_sizeLine (hpieces p hp).1)
  · rintro ⟨hpieces, hlast⟩
    refine ⟨s, rfl, rfl, fun p hp => ?_, (sizeLine_iff hs.last hs.zero).2 hlast, hs.trailers, hs.blank⟩
    obtain ⟨hending, hunsigned⟩ := hpieces p hp
    exact ⟨(sizeLine_iff (hs.pieces p hp).line (hs.pieces p hp).size).2 hunsigned, (hs.pieces p hp).data, hending⟩

/-- **What the decoder accepts.**  When it returns a body, it has consumed the bytes of the one chunk sequence at the head
of the stream (it returns the same on them alone, and nothing on less); they are a chunked encoding of the body if and
only if CR LF follows every chunk and no size has a sign. -/
theorem chunked_encoding_iff {stream body : Bytes} (h : readChunkedBody stream = .ok body) :
    ∃ s : Sequence, (s.Read ∧ s.bytes <+: stream ∧ ∀ s' : Sequence, s'.Read → s'.bytes <+: stream → s' = s) ∧
      (readChunkedBody s.bytes = .ok body ∧
        ∀ p, p <+: s.bytes → p ≠ s.bytes → ∀ body', readChunkedBody p ≠ .ok body') ∧
      (ChunkedEncoding s.bytes body ↔ s.Strict) := by
  obtain ⟨s, hs, hpre, rfl, hlen⟩ := readChunkedBody_ok_iff.1 h
  have hmax := maxBody_le_maxInt64
  refine ⟨s, ⟨hs, hpre, fun s' hs' hpre' => hs'.unique_of_prefix hs hpre' hpre⟩, ⟨?_, ?_⟩, ?_⟩
  · exact readChunkedBody_ok_iff.2 ⟨s, hs, List.prefix_refl _, rfl, hlen⟩
  · exact fun p hp hne body' => readChunkedBody_cut hs hp hne body'
  · exact hs.encoding_iff (by omega)

section Hello

variable (size : String) (ending : Bytes)

theorem encoding_helloSequence (hlf : 10 ∉ bytes size)
    (hsize : parseHex (chunkSizeText (bytes size ++ crlf)) = some 5) (h : ending.length = 2)
    (henc : ChunkedEncoding (helloSequence size ending).bytes (bytes "hello")) :
    ending = crlf ∧ Unsigned (bytes size ++ crlf) := by
  have hlen : ((bytes "hello").length : ℤ) ≤ maxInt64 := by decide +kernel
  rw [← body_helloSequence size ending] at henc hlen
  have hstrict := ((helloSequence_read size ending hlf hsize h).encoding_iff hlen).1 henc
  exact hstrict.1 _ (List.mem_singleton_self _)

end Hello

theorem chunked_encoding_hello :
    ∃ s : Sequence, s.bytes <+: (helloSequence "5" crlf).bytes ∧
      (ChunkedEncoding s.bytes (bytes "hello") ↔ s.Strict) := by
  obtain ⟨s, ⟨-, hpre, -⟩, -, hiff⟩ := chunked_encoding_iff
    (readChunkedBody_hello "5" crlf (by decide +kernel) (by decide +kernel) rfl)
  exact ⟨s, hpre, hiff⟩

/-- Two other bytes after the data, or a sign in front of the size, are accepted. -/
theorem chunked_accepts_other :
    (readChunkedBody (helloSequence "5" (bytes "XX")).bytes = .ok (bytes "hello") ∧
      ¬ ChunkedEncoding (helloSequence "5" (bytes "XX")).bytes (bytes "hello")) ∧
    (readChunkedBody (helloSequence "+5" crlf).bytes = .ok (bytes "hello") ∧
      ¬ ChunkedEncoding (helloSequence "+5" crlf).bytes (bytes "hello")) := by
  refine ⟨⟨readChunkedBody_hello _ _ (by decide +kernel) (by decide +kernel) (by decide +kernel), fun henc => ?_⟩,
    readChunkedBody_hello _ _ (by decide +kernel) (by decide +kernel) rfl, fun henc => ?_⟩
  · have hstrict := encoding_helloSequence _ _ (by decide +kernel) (by decide +kernel) (by decide +kernel) henc
    exact absurd hstrict.1 (by decide +kernel)
  · have hstrict := encoding_helloSequence _ _ (by decide +kernel) (by decide +kernel) rfl henc
    exact absurd hstrict.2 (by decide +kernel)

end MiniSbAgent.Panelapi
