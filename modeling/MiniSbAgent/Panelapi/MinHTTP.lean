import MiniSbAgent.Go.Maps
import MiniSbAgent.Go.Strings
import MiniSbAgent.Go.Utf8
import MiniSbAgent.Lib.Noted

/-!
# The HTTP client

A request is written as one run of bytes, and the answer is read from the bytes the server sends until it closes the
connection: a status line, header lines, and a body under one of three framings.  URL parsing and the network are
parameters; what is modelled is every byte that is written and how every byte that comes back is read.  `minHTTPRun`
notes what it writes and the buffers it reads into, `minHTTPDo` is its result; the functions of `Reading` are those of
the reader with their notes, the ones of the same names outside are their results.

* `requestHead` — what is written before the body;
* `readResponse` — how an answer is taken apart, `readChunkedBody` under the chunked framing;
* `Framed` — the three ways in which a server may send a body;
* `response_read_back` — under each of them the client returns the code and the body that were sent.
-/

namespace MiniSbAgent.Panelapi

open MiniSbAgent.Go MiniSbAgent.Lib

/-- 16 MiB. -/
def minHTTPMaxBody : ℕ := 16 * 2 ^ 20

structure MinHTTPResponse where
  statusCode : ℤ
  status : String
  body : Bytes
deriving Repr, DecidableEq

inductive MinHTTPError
  /-- of `url.Parse` -/
  | badURL
  /-- `unsupported panel url scheme %q` -/
  | scheme (scheme : String)
  /-- of dialling, of the deadline, of the handshake or of a write -/
  | connection
  /-- the stream ends inside a line or a body -/
  | eof
  /-- `malformed panel response status line %q` -/
  | statusLine (line : String)
  /-- `malformed panel response status code in %q` -/
  | statusCode (line : String)
  /-- of `ParseInt` of the content length -/
  | contentLength (text : String)
  /-- `negative content-length: %d` -/
  | negativeLength (n : ℤ)
  /-- `panel response too large: %d bytes` -/
  | tooLarge (n : ℤ)
  /-- `malformed chunk size %q` -/
  | chunkSize (text : String)
  /-- `negative chunk size %q` -/
  | negativeChunkSize (text : String)
  /-- `panel chunked response too large` -/
  | chunkedTooLarge
deriving Repr, DecidableEq

/-! ### Writing a request -/

/-- What the client reads off a parsed URL. -/
structure ParsedURL where
  scheme : String
  host : String
  hostname : String
  port : String
  requestURI : String
deriving Repr, DecidableEq

/-- `net.JoinHostPort`. -/
def joinHostPort (host port : String) : String :=
  if contains host ":" || contains host "%" then "[" ++ host ++ "]:" ++ port else host ++ ":" ++ port

def hostHeader (u : ParsedURL) : String := if u.port ≠ "" then joinHostPort u.hostname u.port else u.host

def headerLine (key : String) (value : Bytes) : Bytes := bytes key ++ bytes ": " ++ value ++ bytes "\r\n"

/-- Everything up to the body; `headers` are met in the order `o`. -/
def requestHead (o : RangeOrder ((_ : String) × Bytes)) (method : String) (u : ParsedURL) (headers : GoMap String Bytes)
    (body : Bytes) : Bytes :=
  bytes (method ++ " " ++ u.requestURI ++ " HTTP/1.1\r\n") ++ headerLine "Host" (bytes (hostHeader u)) ++
    (o.visit headers.entries).flatMap (fun e => headerLine e.1 e.2) ++
    (if body ≠ [] then headerLine "Content-Length" (bytes (itoa body.length)) else []) ++
    headerLine "Connection" (bytes "close") ++ bytes "\r\n"

/-! ### Reading an answer -/

/-- `ReadString('\n')`: the line with its end, and what follows; `none` at the end of the stream. -/
def readString : Bytes → Option (Bytes × Bytes)
  | [] => none
  | b :: rest => if b = 10 then some ([b], rest) else (readString rest).map fun p => (b :: p.1, p.2)

/-- `io.ReadFull` of a slice of `n` bytes. -/
def readFull (n : ℕ) (stream : Bytes) : Option (Bytes × Bytes) :=
  if n ≤ stream.length then some (stream.take n, stream.drop n) else none

theorem readString_length {stream line rest : Bytes} (h : readString stream = some (line, rest)) :
    rest.length < stream.length := by
  induction stream generalizing line with
  | nil => cases h
  | cons b bs ih =>
    rw [readString] at h
    split_ifs at h with hb
    · cases h
      simp
    · obtain ⟨⟨line', rest'⟩, hrest, heq⟩ := Option.map_eq_some_iff.1 h
      simp only [Prod.mk.injEq] at heq
      obtain ⟨rfl, rfl⟩ := heq
      have := ih hrest
      rw [List.length_cons]
      omega

theorem readFull_length {n : ℕ} {stream chunk rest : Bytes} (h : readFull n stream = some (chunk, rest)) :
    rest.length ≤ stream.length := by
  unfold readFull at h
  split_ifs at h
  cases h
  simp

/-- A step of the reader, with the sizes of the buffers that bytes of the answer are read into. -/
abbrev Reading := Noted ℤ MinHTTPError

/-- A header line without its end; a line without a name is passed over. -/
def addHeader (headers : GoMap String String) (line : String) : GoMap String String :=
  match cut line ':' with
  | some (name, value) =>
    if name ≠ "" then headers.insert (toLower (trimSpace name)) (trimSpace value) else headers
  | none => headers

/-- The text before the first `;`. -/
def chunkSizeText (line : Bytes) : String :=
  let sizeText := trimSpace (text line)
  match cut sizeText ';' with
  | some (size, _) => size
  | none => sizeText

/-- How the end of a body is told. -/
inductive Framing
  | chunked
  | contentLength (n : ℕ)
  | untilClose
deriving Repr, DecidableEq

/-- The framing that `do` reads off the headers, or the error it returns for a content length. -/
def framingOf (headers : GoMap String String) : Except MinHTTPError Framing :=
  if contains ((headers.lookup "transfer-encoding").getD "") "chunked" then .ok .chunked
  else
    let cl := (headers.lookup "content-length").getD ""
    if cl ≠ "" then
      match atoi cl with
      | none => .error (.contentLength cl)
      | some n =>
        if n < 0 then .error (.negativeLength n)
        else if (minHTTPMaxBody : ℤ) < n then .error (.tooLarge n)
        else .ok (.contentLength n.toNat)
    else .ok .untilClose

namespace Reading

/-- `reader.ReadString('\n')`: what was read becomes a string, also when the stream ends before the line does. -/
def readLine (stream : Bytes) : Reading {p : Bytes × Bytes // p.2.length < stream.length} :=
  match h : readString stream with
  | none => ⟨[stream.length], .error .eof⟩
  | some p => ⟨[p.1.length], .ok ⟨p, readString_length h⟩⟩

/-- `make([]byte, n)`, and `io.ReadFull` of it. -/
def readSlice (n : ℤ) (stream : Bytes) : Reading {p : Bytes × Bytes // p.2.length ≤ stream.length} :=
  match h : readFull n.toNat stream with
  | none => ⟨[n], .error .eof⟩
  | some p => ⟨[n], .ok ⟨p, readFull_length h⟩⟩

/-- The header loop. -/
def readHeaders (headers : GoMap String String) (stream : Bytes) : Reading (GoMap String String × Bytes) :=
  (readLine stream).bind fun p =>
    let line := trimRightSet (text p.1.1) "\r\n"
    if line = "" then .ok (headers, p.1.2) else readHeaders (addHeader headers line) p.1.2
termination_by stream.length
decreasing_by exact p.2

/-- The loop over the trailers, up to a blank line. -/
def readTrailers (out : Bytes) (stream : Bytes) : Reading Bytes :=
  (readLine stream).bind fun p =>
    if trimRightSet (text p.1.1) "\r\n" = "" then .ok out else readTrailers out p.1.2
termination_by stream.length
decreasing_by exact p.2

/-- The data of a chunk and the line end after it, which is read and not looked at. -/
def readChunkData (out : Bytes) (size : ℤ) (stream : Bytes) :
    Reading {p : Bytes × Bytes // p.2.length ≤ stream.length} :=
  (readSlice size stream).bind fun p =>
    .note (out ++ p.1.1).length
      (match h : readFull 2 p.1.2 with
      | none => .error .eof
      | some q => .ok ⟨(out ++ p.1.1, q.2), (readFull_length h).trans p.2⟩)

/-- One pass of the loop over the chunks: the whole body, or the body so far and what is left of the stream. -/
def readChunk (out : Bytes) (stream : Bytes) : Reading (Bytes ⊕ {p : Bytes × Bytes // p.2.length < stream.length}) :=
  (readLine stream).bind fun p =>
    let sizeText := chunkSizeText p.1.1
    match parseHex sizeText with
    | none => .error (.chunkSize sizeText)
    | some size =>
      if size < 0 then .error (.negativeChunkSize sizeText)
      else if size = 0 then (readTrailers out p.1.2).bind fun body => .ok (.inl body)
      else if (minHTTPMaxBody : ℤ) < size ∨ (minHTTPMaxBody : ℤ) < out.length + size then .error .chunkedTooLarge
      else (readChunkData out size p.1.2).bind fun q => .ok (.inr ⟨q.1, q.2.trans_lt p.2⟩)

def readChunkedFrom (out : Bytes) (stream : Bytes) : Reading Bytes :=
  (readChunk out stream).bind fun r =>
    match r with
    | .inl body => .ok body
    | .inr p => readChunkedFrom p.1.1 p.1.2
termination_by stream.length
decreasing_by exact p.2

def readChunkedBody (stream : Bytes) : Reading Bytes := readChunkedFrom [] stream

/-- The body under a framing; up to close it is `io.ReadAll(io.LimitReader(reader, minHTTPMaxBody))`. -/
def readFramed (stream : Bytes) : Framing → Reading Bytes
  | .chunked => readChunkedBody stream
  | .contentLength n => (readSlice n stream).bind fun p => .ok p.1.1
  | .untilClose => .note (stream.take minHTTPMaxBody).length (.ok (stream.take minHTTPMaxBody))

def readBody (headers : GoMap String String) (stream : Bytes) : Reading Bytes :=
  match framingOf headers with
  | .error e => .error e
  | .ok f => readFramed stream f

/-- The second half of `do`, on all that the server sends. -/
def readResponse (stream : Bytes) : Reading MinHTTPResponse :=
  (readLine stream).bind fun p =>
    let line := trimSpace (text p.1.1)
    match fields line with
    | proto :: code :: reason =>
      if startsWith proto "HTTP/" = false then .error (.statusLine line)
      else
        match atoi code with
        | none => .error (.statusCode line)
        | some statusCode =>
          (readHeaders ∅ p.1.2).bind fun h =>
            (readBody h.1 h.2).bind fun body => .ok ⟨statusCode, " ".intercalate (code :: reason), body⟩
    | _ => .error (.statusLine line)

end Reading

def readTrailers (out stream : Bytes) : Except MinHTTPError Bytes := (Reading.readTrailers out stream).result

def readChunkData (out : Bytes) (size : ℤ) (stream : Bytes) : Except MinHTTPError (Bytes × Bytes) :=
  (Reading.readChunkData out size stream).result.map Subtype.val

def readChunk (out stream : Bytes) : Except MinHTTPError (Bytes ⊕ Bytes × Bytes) :=
  (Reading.readChunk out stream).result.map (Sum.map id Subtype.val)

def readChunkedFrom (out stream : Bytes) : Except MinHTTPError Bytes := (Reading.readChunkedFrom out stream).result

def readChunkedBody (stream : Bytes) : Except MinHTTPError Bytes := (Reading.readChunkedBody stream).result

def readFramed (stream : Bytes) (f : Framing) : Except MinHTTPError Bytes := (Reading.readFramed stream f).result

def readBody (headers : GoMap String String) (stream : Bytes) : Except MinHTTPError Bytes :=
  (Reading.readBody headers stream).result

def readResponse (stream : Bytes) : Except MinHTTPError MinHTTPResponse := (Reading.readResponse stream).result

/-- What a request does to the outside. -/
inductive Effect
  /-- a write on the connection to the host of the URL -/
  | write (u : ParsedURL) (data : Bytes)
  /-- a buffer of that size -/
  | alloc (size : ℤ)
deriving Repr, DecidableEq

/-- What was written, and where to. -/
def written (notes : List Effect) : List (ParsedURL × Bytes) :=
  notes.filterMap fun
    | .write u data => some (u, data)
    | .alloc _ => none

def allocs (notes : List Effect) : List ℤ :=
  notes.filterMap fun
    | .write _ _ => none
    | .alloc size => some size

/-- The request is written, and the connection delivers what comes back until it is closed.  When it fails, that may
have been before the last write. -/
def exchange (net : ParsedURL → Bytes → Option Bytes) (u : ParsedURL) (head body : Bytes) :
    Noted Effect MinHTTPError Bytes :=
  ⟨.write u head :: (if body = [] then [] else [.write u body]),
    match net u (head ++ body) with
    | none => .error .connection
    | some stream => .ok stream⟩

/-- `minHTTPClient.do`, with what it writes and the buffers it makes: `parse` is `url.Parse`, and `net` is what comes
back for the bytes that are written, `none` when the connection fails. -/
def minHTTPRun (parse : String → Option ParsedURL) (net : ParsedURL → Bytes → Option Bytes)
    (o : RangeOrder ((_ : String) × Bytes)) (method rawURL : String) (headers : GoMap String Bytes) (body : Bytes) :
    Noted Effect MinHTTPError MinHTTPResponse :=
  match parse rawURL with
  | none => .error .badURL
  | some u =>
    if u.scheme ≠ "http" ∧ u.scheme ≠ "https" then .error (.scheme u.scheme)
    else
      (exchange net u (requestHead o method u headers body) body).bind fun stream =>
        (Reading.readResponse stream).mapNotes .alloc

def minHTTPDo (parse : String → Option ParsedURL) (net : ParsedURL → Bytes → Option Bytes)
    (o : RangeOrder ((_ : String) × Bytes)) (method rawURL : String) (headers : GoMap String Bytes) (body : Bytes) :
    Except MinHTTPError MinHTTPResponse := (minHTTPRun parse net o method rawURL headers body).result

/-! ### The results of the reader -/

section Results

variable {stream : Bytes}

theorem readLine_of_some {p : Bytes × Bytes} (h : readString stream = some p) :
    Reading.readLine stream = ⟨[p.1.length], .ok ⟨p, readString_length h⟩⟩ := by
  unfold Reading.readLine
  split
  · rename_i hnone
    rw [h] at hnone
    cases hnone
  · rename_i p' hsome
    obtain rfl := Option.some.inj (h.symm.trans hsome)
    rfl

theorem readLine_of_none (h : readString stream = none) :
    Reading.readLine stream = ⟨[stream.length], .error .eof⟩ := by
  unfold Reading.readLine
  split
  · rfl
  · rename_i p hsome
    rw [h] at hsome
    cases hsome

theorem readSlice_of_some {n : ℤ} {p : Bytes × Bytes} (h : readFull n.toNat stream = some p) :
    Reading.readSlice n stream = ⟨[n], .ok ⟨p, readFull_length h⟩⟩ := by
  unfold Reading.readSlice
  split
  · rename_i hnone
    rw [h] at hnone
    cases hnone
  · rename_i p' hsome
    obtain rfl := Option.some.inj (h.symm.trans hsome)
    rfl

theorem readSlice_of_none {n : ℤ} (h : readFull n.toNat stream = none) :
    Reading.readSlice n stream = ⟨[n], .error .eof⟩ := by
  unfold Reading.readSlice
  split
  · rfl
  · rename_i p hsome
    rw [h] at hsome
    cases hsome

/-- One pass of the header loop. -/
theorem readHeaders_eq {headers : GoMap String String} {line rest : Bytes} (h : readString stream = some (line, rest)) :
    Reading.readHeaders headers stream = .note line.length
      (if trimRightSet (text line) "\r\n" = "" then .ok (headers, rest)
      else Reading.readHeaders (addHeader headers (trimRightSet (text line) "\r\n")) rest) := by
  rw [Reading.readHeaders, readLine_of_some h]
  rfl

theorem readTrailers_eq {out line rest : Bytes} (h : readString stream = some (line, rest)) :
    readTrailers out stream =
      if trimRightSet (text line) "\r\n" = "" then .ok out else readTrailers out rest := by
  unfold readTrailers
  rw [Reading.readTrailers, Noted.result_bind, readLine_of_some h]
  simp only [Except.bind]
  split <;> rfl

theorem readTrailers_of_none (out : Bytes) (h : readString stream = none) : readTrailers out stream = .error .eof := by
  unfold readTrailers
  rw [Reading.readTrailers, Noted.result_bind, readLine_of_none h]
  rfl

theorem readChunkData_eq (out : Bytes) (size : ℤ) :
    readChunkData out size stream =
      match readFull size.toNat stream with
      | none => .error .eof
      | some (chunk, rest) =>
        match readFull 2 rest with
        | none => .error .eof
        | some (_, rest) => .ok (out ++ chunk, rest) := by
  unfold readChunkData Reading.readChunkData
  rw [Noted.result_bind]
  rcases hchunk : readFull size.toNat stream with _ | ⟨chunk, rest⟩
  · rw [readSlice_of_none hchunk]
    rfl
  · rw [readSlice_of_some hchunk]
    simp only [Except.bind, Noted.result_note]
    split
    · rename_i hend
      rw [hend]
      rfl
    · rename_i q hend
      simp only [hend]
      rfl

/-- One pass of the loop over the chunks. -/
theorem readChunk_eq (out : Bytes) :
    readChunk out stream =
      match readString stream with
      | none => .error .eof
      | some (line, rest) =>
        match parseHex (chunkSizeText line) with
        | none => .error (.chunkSize (chunkSizeText line))
        | some size =>
          if size < 0 then .error (.negativeChunkSize (chunkSizeText line))
          else if size = 0 then (readTrailers out rest).map .inl
          else if (minHTTPMaxBody : ℤ) < size ∨ (minHTTPMaxBody : ℤ) < out.length + size then .error .chunkedTooLarge
          else (readChunkData out size rest).map .inr := by
  unfold readChunk
  rw [Reading.readChunk, Noted.result_bind]
  rcases hline : readString stream with _ | ⟨line, rest⟩
  · rw [readLine_of_none hline]
    rfl
  rw [readLine_of_some hline]
  simp only [Except.bind]
  rcases parseHex (chunkSizeText line) with _ | size
  · rfl
  simp only
  split_ifs
  · rfl
  · rw [Noted.result_bind]
    unfold readTrailers
    cases (Reading.readTrailers out rest).result <;> rfl
  · rfl
  · rw [Noted.result_bind]
    unfold readChunkData
    cases (Reading.readChunkData out size rest).result <;> rfl

theorem readChunkedFrom_eq (out : Bytes) :
    readChunkedFrom out stream =
      match readChunk out stream with
      | .error e => .error e
      | .ok (.inl body) => .ok body
      | .ok (.inr (out', rest)) => readChunkedFrom out' rest := by
  unfold readChunkedFrom readChunk
  rw [Reading.readChunkedFrom, Noted.result_bind]
  rcases (Reading.readChunk out stream).result with e | body | p <;> rfl

theorem readFramed_contentLength (n : ℕ) :
    readFramed stream (.contentLength n) =
      match readFull n stream with
      | none => .error .eof
      | some (body, _) => .ok body := by
  unfold readFramed Reading.readFramed
  rw [Noted.result_bind]
  rcases hfull : readFull n stream with _ | p
  · rw [readSlice_of_none (by rw [Int.toNat_natCast]; exact hfull)]
    rfl
  · rw [readSlice_of_some (by rw [Int.toNat_natCast]; exact hfull)]
    rfl

theorem readBody_of_framing {headers : GoMap String String} {f : Framing} (h : framingOf headers = .ok f) :
    Reading.readBody headers stream = Reading.readFramed stream f := by
  unfold Reading.readBody
  rw [h]

theorem readBody_of_error {headers : GoMap String String} {e : MinHTTPError} (h : framingOf headers = .error e) :
    Reading.readBody headers stream = .error e := by
  unfold Reading.readBody
  rw [h]

end Results

/-- What one pass can do: read the trailers after the last chunk, or a chunk that fits. -/
theorem readChunk_ok {out stream : Bytes} {r : Bytes ⊕ Bytes × Bytes} (h : readChunk out stream = .ok r) :
    ∃ line rest size, readString stream = some (line, rest) ∧ parseHex (chunkSizeText line) = some size ∧
      (size = 0 ∧ (∃ body, readTrailers out rest = .ok body ∧ r = .inl body) ∨
        (0 < size ∧ out.length + size ≤ minHTTPMaxBody) ∧ ∃ chunk ending rest₁ rest₂,
          readFull size.toNat rest = some (chunk, rest₁) ∧ readFull 2 rest₁ = some (ending, rest₂) ∧
            r = .inr (out ++ chunk, rest₂)) := by
  rw [readChunk_eq] at h
  split at h
  · cases h
  rename_i line rest hline
  split at h
  · cases h
  rename_i size hsize
  refine ⟨line, rest, size, hline, hsize, ?_⟩
  split_ifs at h with hneg hzero hbig
  · refine Or.inl ⟨hzero, ?_⟩
    rcases htr : readTrailers out rest with e | body
    · rw [htr] at h
      cases h
    · rw [htr] at h
      cases h
      exact ⟨body, rfl, rfl⟩
  · refine Or.inr ⟨by omega, ?_⟩
    rw [readChunkData_eq] at h
    split at h
    · cases h
    rename_i chunk rest₁ hchunk
    split at h
    · cases h
    rename_i ending rest₂ hending
    cases h
    exact ⟨chunk, ending, rest₁, rest₂, hchunk, hending, rfl⟩

theorem readChunk_length {out stream out' rest : Bytes} (h : readChunk out stream = .ok (.inr (out', rest))) :
    rest.length < stream.length := by
  unfold readChunk at h
  rcases hread : (Reading.readChunk out stream).result with e | body | ⟨p, hlt⟩ <;> rw [hread] at h <;> cases h
  exact hlt

/-! ### Lines -/

def crlf : Bytes := [13, 10]

/-- Lines with their ends. -/
def linesOf (lines : List Bytes) : Bytes := lines.flatMap (· ++ crlf)

theorem readString_append {xs : Bytes} (h : 10 ∉ xs) (rest : Bytes) :
    readString (xs ++ 10 :: rest) = some (xs ++ [10], rest) := by
  induction xs with
  | nil => rw [List.nil_append, readString, if_pos rfl, List.nil_append]
  | cons x xs ih =>
    rw [List.mem_cons, not_or] at h
    rw [List.cons_append, readString, if_neg (Ne.symm h.1), ih h.2, Option.map_some, List.cons_append]

theorem readString_crlf {xs : Bytes} (h : 10 ∉ xs) (rest : Bytes) :
    readString (xs ++ crlf ++ rest) = some (xs ++ crlf, rest) := by
  have h' : (10 : UInt8) ∉ xs ++ [13] := by simpa using h
  have := readString_append h' rest
  simpa [crlf] using this

theorem text_crlf (xs : Bytes) : (text (xs ++ crlf)).toList = (text xs).toList ++ ['\r', '\n'] := by
  rw [crlf, text_append xs (by decide)]
  rfl

theorem not_mem_text {xs : Bytes} {c : Char} (hc : c.toNat < 0x80) (h : UInt8.ofNat c.toNat ∉ xs) :
    c ∉ (text xs).toList := fun hmem => h (mem_of_mem_text hmem hc)

theorem trimRightSet_crlf (xs : Bytes) :
    (trimRightSet (text (xs ++ crlf)) "\r\n").toList =
      (text xs).toList.rdropWhile fun c => "\r\n".toList.contains c := by
  unfold trimRightSet
  rw [String.toList_ofList, text_crlf, show ['\r', '\n'] = ['\r'] ++ ['\n'] from rfl, ← List.append_assoc,
    List.rdropWhile_concat_pos _ _ _ (by decide), List.rdropWhile_concat_pos _ _ _ (by decide)]

/-- A non-empty line without a line end in it is what remains of it. -/
theorem trimRightSet_line {l : Bytes} (h13 : 13 ∉ l) (h10 : 10 ∉ l) :
    trimRightSet (text (l ++ crlf)) "\r\n" = text l := by
  rw [← String.toList_inj, trimRightSet_crlf]
  refine List.rdropWhile_eq_self_iff.2 fun hne => ?_
  have hmem := List.getLast_mem hne
  have hcr : (text l).toList.getLast hne ≠ '\r' := fun hc =>
    not_mem_text (c := '\r') (by decide) h13 (hc ▸ hmem)
  have hlf : (text l).toList.getLast hne ≠ '\n' := fun hc =>
    not_mem_text (c := '\n') (by decide) h10 (hc ▸ hmem)
  simp [hcr, hlf]

theorem blank_crlf : trimRightSet (text ([] ++ crlf)) "\r\n" = "" := by decide +kernel

/-! ### The header lines of an answer -/

/-- A line that the loop takes for a header. -/
def PlainLine (l : Bytes) : Prop := l ≠ [] ∧ 13 ∉ l ∧ 10 ∉ l

/-- The line has the name `key`, case and surrounding space aside. -/
def Names (l : Bytes) (key : String) : Prop :=
  ∃ name value, l = name ++ 58 :: value ∧ 58 ∉ name ∧ toLower (trimSpace (text name)) = key

/-- The line gives `key` the value `v`. -/
def Gives (l : Bytes) (key v : String) : Prop :=
  ∃ name value, l = name ++ 58 :: value ∧ 58 ∉ name ∧ toLower (trimSpace (text name)) = key ∧
    trimSpace (text value) = v

/-- The map that the loop fills. -/
def headerMap (lines : List Bytes) (headers : GoMap String String) : GoMap String String :=
  lines.foldl (fun h l => addHeader h (text l)) headers

/-- A line with its end is read into a string. -/
def lineAlloc (l : Bytes) : ℤ := (l ++ crlf).length

theorem readHeaders_lines {lines : List Bytes} (h : ∀ l ∈ lines, PlainLine l) (headers : GoMap String String)
    (rest : Bytes) :
    Reading.readHeaders headers (linesOf lines ++ crlf ++ rest) =
      ⟨(lines ++ [[]]).map lineAlloc, .ok (headerMap lines headers, rest)⟩ := by
  induction lines generalizing headers with
  | nil =>
    rw [show linesOf [] = [] from rfl, readHeaders_eq (readString_crlf (by simp) rest), if_pos blank_crlf]
    rfl
  | cons l lines ih =>
    obtain ⟨hne, h13, h10⟩ := h l List.mem_cons_self
    have hstream : linesOf (l :: lines) ++ crlf ++ rest = l ++ crlf ++ (linesOf lines ++ crlf ++ rest) := by
      simp [linesOf]
    rw [hstream, readHeaders_eq (readString_crlf h10 _), trimRightSet_line h13 h10, if_neg (text_ne_empty hne),
      ih fun l' hl' => h l' (List.mem_cons_of_mem l hl')]
    rfl

theorem cut_text {name : Bytes} (h : 58 ∉ name) (value : Bytes) :
    cut (text (name ++ 58 :: value)) ':' = some (text name, text value) := by
  have hname : ':' ∉ (text name).toList := not_mem_text (by decide) h
  unfold cut
  rw [text_append name (by decide), show Char.ofNat (58 : UInt8).toNat = ':' from rfl, cutRunes_append hname]
  simp

theorem lookup_addHeader_of_not_names {l : Bytes} {key : String} (h : ¬ Names l key) (headers : GoMap String String) :
    (addHeader headers (text l)).lookup key = headers.lookup key := by
  by_cases hcolon : (58 : UInt8) ∈ l
  · obtain ⟨name, value, rfl, hname⟩ := List.eq_append_cons_of_mem hcolon
    have hkey : key ≠ toLower (trimSpace (text name)) := fun he => h ⟨name, value, rfl, hname, he.symm⟩
    simp only [addHeader, cut_text hname]
    split
    · rw [lookup_insert_of, if_neg hkey]
    · rfl
  · have hnone : cut (text l) ':' = none := by
      unfold cut
      rw [cutRunes_eq_none (not_mem_text (by decide) hcolon), Option.map_none]
    simp only [addHeader, hnone]

theorem lookup_addHeader_of_gives {l : Bytes} {key v : String} (h : Gives l key v) (hkey : key ≠ "")
    (headers : GoMap String String) : (addHeader headers (text l)).lookup key = some v := by
  obtain ⟨name, value, rfl, hname, rfl, rfl⟩ := h
  have hne : text name ≠ "" := by
    intro he
    rw [he] at hkey
    exact hkey (by decide)
  simp only [addHeader, cut_text hname, hne, ne_eq, not_false_eq_true, if_true]
  rw [lookup_insert_of, if_pos rfl]

theorem lookup_headerMap_of_not_names {lines : List Bytes} {key : String} (h : ∀ l ∈ lines, ¬ Names l key)
    (headers : GoMap String String) : (headerMap lines headers).lookup key = headers.lookup key := by
  induction lines generalizing headers with
  | nil => rfl
  | cons l lines ih =>
    show (headerMap lines (addHeader headers (text l))).lookup key = _
    rw [ih fun l' hl' => h l' (List.mem_cons_of_mem l hl'),
      lookup_addHeader_of_not_names (h l List.mem_cons_self)]

/-- The one line that names `key` decides. -/
theorem lookup_headerMap_of_gives (before : List Bytes) {after : List Bytes} {l : Bytes} {key v : String}
    (hl : Gives l key v)
    (hkey : key ≠ "") (h : ∀ l' ∈ after, ¬ Names l' key) (headers : GoMap String String) :
    (headerMap (before ++ l :: after) headers).lookup key = some v := by
  unfold headerMap
  rw [List.foldl_append, List.foldl_cons]
  exact (lookup_headerMap_of_not_names h _).trans (lookup_addHeader_of_gives hl hkey _)

/-! ### The chunked framing -/

/-- What may stand between a chunk size and the end of its line. -/
def Extension (ext : Bytes) : Prop := (ext = [] ∨ ∃ e, ext = 59 :: e) ∧ 10 ∉ ext

/-- The line of a chunk size, with its end. -/
def sizeLine (size : String) (ext : Bytes) : Bytes := bytes size ++ ext ++ crlf

/-- A chunk as it is sent: the digits of its size, the extension, and the data. -/
structure Chunk where
  size : String
  ext : Bytes
  data : Bytes
deriving Repr, DecidableEq

def Chunk.sent (c : Chunk) : Bytes := sizeLine c.size c.ext ++ c.data ++ crlf

structure Chunk.Ok (c : Chunk) : Prop where
  size : hexValue c.size.toList = some c.data.length
  ext : Extension c.ext
  data : c.data ≠ []

section SizeLine

variable {size : String} {ext : Bytes} {n : ℕ}

theorem readString_sizeLine (h : hexValue size.toList = some n) (hext : Extension ext) (rest : Bytes) :
    readString (sizeLine size ext ++ rest) = some (sizeLine size ext, rest) := by
  refine readString_crlf ?_ rest
  rw [List.mem_append, not_or]
  refine ⟨fun hmem => ?_, hext.2⟩
  have := hexDigit_range ((hexValue_spec h).2 _ (mem_of_mem_bytes hmem (by decide)))
  revert this
  decide

theorem chunkSizeText_sizeLine (h : hexValue size.toList = some n) (hext : Extension ext) :
    chunkSizeText (sizeLine size ext) = size := by
  obtain ⟨hne, hdigits⟩ := hexValue_spec h
  have hspace : ∀ c ∈ size.toList, isSpace c = false := fun c hc => by
    have := hexDigit_range (hdigits c hc)
    exact isSpace_eq_false (by omega) (by omega)
  have hsemi : ';' ∉ size.toList := fun hc => by
    have := hexDigit_range (hdigits _ hc)
    revert this
    decide
  -- after the digits the line goes on with its end or with the semicolon
  obtain ⟨c, ys, hc, hline, hys⟩ : ∃ (c : UInt8) (ys : Bytes), c.toNat < 0x80 ∧
      sizeLine size ext = bytes size ++ c :: ys ∧ (c = 13 ∧ ys = [10] ∨ c = 59) := by
    rcases hext.1 with rfl | ⟨e, rfl⟩
    · exact ⟨13, [10], by decide, by simp [sizeLine, crlf], .inl ⟨rfl, rfl⟩⟩
    · exact ⟨59, e ++ crlf, by decide, by simp [sizeLine], .inr rfl⟩
  have htrim : (trimSpace (text (sizeLine size ext))).toList =
      size.toList ++ (Char.ofNat c.toNat :: (text ys).toList).rdropWhile isSpace := by
    rw [hline, ← String.ofList_toList (s := text (bytes size ++ c :: ys)), text_append _ hc, text_bytes]
    exact trimSpace_append hne (hspace _ (List.head_mem hne)) (hspace _ (List.getLast_mem hne)) _
  have hcut : cut (trimSpace (text (sizeLine size ext))) ';' = none ∧
        trimSpace (text (sizeLine size ext)) = size ∨
      ∃ more, cut (trimSpace (text (sizeLine size ext))) ';' = some (size, more) := by
    unfold cut
    rw [htrim]
    rcases hys with ⟨rfl, rfl⟩ | rfl
    · left
      have hnil : (Char.ofNat (13 : UInt8).toNat :: (text [10]).toList).rdropWhile isSpace = [] := by decide +kernel
      rw [hnil, List.append_nil] at htrim ⊢
      rw [cutRunes_eq_none hsemi]
      exact ⟨rfl, String.toList_inj.1 htrim⟩
    · right
      have hkeep : (Char.ofNat (59 : UInt8).toNat :: (text ys).toList).rdropWhile isSpace =
          ';' :: (text ys).toList.rdropWhile isSpace :=
        rdropWhile_append (show [';'] ≠ [] by simp) (by decide) _
      rw [hkeep, cutRunes_append hsemi]
      simp
  unfold chunkSizeText
  rcases hcut with ⟨hnone, hsize⟩ | ⟨more, hsome⟩
  · simp only [hnone]
    exact hsize
  · simp only [hsome]

end SizeLine

theorem readFull_append (xs ys : Bytes) : readFull xs.length (xs ++ ys) = some (xs, ys) := by
  unfold readFull
  rw [if_pos (by simp), List.take_left, List.drop_left]

theorem maxBody_le_maxInt64 : (minHTTPMaxBody : ℤ) ≤ maxInt64 := by decide

theorem readChunk_sent {c : Chunk} (hc : c.Ok) (out : Bytes) (hlen : out.length + c.data.length ≤ minHTTPMaxBody)
    (rest : Bytes) : readChunk out (c.sent ++ rest) = .ok (.inr (out ++ c.data, rest)) := by
  have hpos : 0 < c.data.length := List.length_pos_iff.2 hc.data
  have hmax := maxBody_le_maxInt64
  have hstream : c.sent ++ rest = sizeLine c.size c.ext ++ (c.data ++ (crlf ++ rest)) := by simp [Chunk.sent]
  rw [hstream, readChunk_eq]
  simp only [readString_sizeLine hc.size hc.ext, chunkSizeText_sizeLine hc.size hc.ext,
    parseHex_of_value hc.size (by omega)]
  rw [if_neg (by omega), if_neg (by omega), if_neg (by omega), readChunkData_eq, Int.toNat_natCast]
  simp only [readFull_append]
  rw [show (2 : ℕ) = crlf.length from rfl]
  simp only [readFull_append]
  rfl

/-- A trailer line is not blank: it is not made of carriage returns alone. -/
def TrailerLine (l : Bytes) : Prop := 10 ∉ l ∧ ∃ c ∈ (text l).toList, c ≠ '\r'

theorem readTrailers_lines {trailers : List Bytes} (h : ∀ l ∈ trailers, TrailerLine l) (out rest : Bytes) :
    readTrailers out (linesOf trailers ++ crlf ++ rest) = .ok out := by
  induction trailers with
  | nil => rw [show linesOf [] = [] from rfl, readTrailers_eq (readString_crlf (by simp) rest), if_pos blank_crlf]
  | cons l trailers ih =>
    obtain ⟨h10, c, hc, hcr⟩ := h l List.mem_cons_self
    have hstream : linesOf (l :: trailers) ++ crlf ++ rest = l ++ crlf ++ (linesOf trailers ++ crlf ++ rest) := by
      simp [linesOf]
    have hlf : c ≠ '\n' := fun hlf => not_mem_text (c := '\n') (by decide) h10 (hlf ▸ hc)
    have hne : trimRightSet (text (l ++ crlf)) "\r\n" ≠ "" := by
      intro hblank
      have hall : (text l).toList.rdropWhile (fun c => "\r\n".toList.contains c) = [] := by
        rw [← trimRightSet_crlf, hblank]
        rfl
      have := List.rdropWhile_eq_nil_iff.1 hall c hc
      simp [hcr, hlf] at this
    rw [hstream, readTrailers_eq (readString_crlf h10 _), if_neg hne,
      ih fun l' hl' => h l' (List.mem_cons_of_mem l hl')]

/-- **The loop over the chunks**, whatever was read before. -/
theorem readChunkedFrom_sent {chunks : List Chunk} (hchunks : ∀ c ∈ chunks, c.Ok) {zero : String} {ext : Bytes}
    (hzero : hexValue zero.toList = some 0) (hext : Extension ext) {trailers : List Bytes}
    (htrailers : ∀ l ∈ trailers, TrailerLine l) (rest out : Bytes)
    (hlen : out.length + (chunks.flatMap Chunk.data).length ≤ minHTTPMaxBody) :
    readChunkedFrom out (chunks.flatMap Chunk.sent ++ (sizeLine zero ext ++ (linesOf trailers ++ crlf ++ rest))) =
      .ok (out ++ chunks.flatMap Chunk.data) := by
  induction chunks generalizing out with
  | nil =>
    have hlast : readChunk out (sizeLine zero ext ++ (linesOf trailers ++ crlf ++ rest)) = .ok (.inl out) := by
      rw [readChunk_eq]
      simp only [readString_sizeLine hzero hext, chunkSizeText_sizeLine hzero hext,
        parseHex_of_value hzero (by decide), readTrailers_lines htrailers]
      rfl
    rw [List.flatMap_nil, List.nil_append, readChunkedFrom_eq, hlast, List.flatMap_nil, List.append_nil]
  | cons c chunks ih =>
    simp only [List.flatMap_cons, List.length_append] at hlen
    have hstep := readChunk_sent (hchunks c List.mem_cons_self) out (by omega)
      (chunks.flatMap Chunk.sent ++ (sizeLine zero ext ++ (linesOf trailers ++ crlf ++ rest)))
    rw [List.flatMap_cons, List.append_assoc, readChunkedFrom_eq, hstep]
    have hrest := ih (fun c' hc' => hchunks c' (List.mem_cons_of_mem c hc')) (out ++ c.data)
      (by rw [List.length_append]; omega)
    rw [List.flatMap_cons, ← List.append_assoc out]
    exact hrest

/-! ### Status line -/

/-- `HTTP/x code reason` with a code in decimal digits; the reason may be empty or missing. -/
def StatusLine (line : Bytes) (code : ℕ) : Prop :=
  ∃ (version : Bytes) (digits : String) (reason : Bytes),
    line = bytes "HTTP/" ++ version ++ 32 :: (bytes digits ++ reason) ∧
    (∀ c ∈ (text version).toList, isSpace c = false) ∧ digitsValue digits.toList = some code ∧
    (code : ℤ) ≤ maxInt64 ∧ (reason = [] ∨ ∃ r, reason = 32 :: r) ∧ 10 ∉ reason

theorem digitsValue_spec {ds : List Char} {n : ℕ} (h : digitsValue ds = some n) :
    ds ≠ [] ∧ ∀ c ∈ ds, 48 ≤ c.toNat ∧ c.toNat ≤ 57 := by
  unfold digitsValue at h
  split_ifs at h with hds
  refine ⟨hds.1, fun c hc => ?_⟩
  have := List.all_eq_true.1 hds.2 c hc
  unfold isDigitRune at this
  exact of_decide_eq_true this

theorem startsWith_append (pre s : String) : startsWith (pre ++ s) pre = true := by
  unfold startsWith
  rw [String.toList_append]
  exact List.isPrefixOf_iff_prefix.2 (List.prefix_append _ _)

theorem lf_not_mem_bytes {s : String} (h : ∀ c ∈ s.toList, isSpace c = false) : 10 ∉ bytes s := fun hmem => by
  have := h _ (mem_of_mem_bytes hmem (by decide))
  revert this
  decide

/-- The first two fields of a status line are the protocol and the code. -/
theorem fields_statusLine {line : Bytes} {code : ℕ} (h : StatusLine line code) :
    10 ∉ line ∧ ∃ proto digits reason,
      fields (trimSpace (text (line ++ crlf))) = proto :: digits :: reason ∧ startsWith proto "HTTP/" = true ∧
        atoi digits = some (code : ℤ) := by
  obtain ⟨version, digits, reason, rfl, hversion, hcode, hmax, hreason, h10⟩ := h
  obtain ⟨hne, hdigits⟩ := digitsValue_spec hcode
  have hdspace : ∀ c ∈ digits.toList, isSpace c = false := fun c hc => by
    have := hdigits c hc
    exact isSpace_eq_false (by omega) (by omega)
  constructor
  · have hv : (10 : UInt8) ∉ version := fun hmem => by
      have := hversion _ (mem_text_of_mem hmem (by decide))
      revert this
      decide
    have hhttp : (10 : UInt8) ∉ bytes "HTTP/" := by decide +kernel
    have hd := lf_not_mem_bytes hdspace
    simp [hhttp, hv, hd, h10]
  -- the text of the line: two words, and white space where the second one ends
  obtain ⟨z, zs, hzspace, hz⟩ : ∃ z zs, isSpace z = true ∧ (text (reason ++ crlf)).toList = z :: zs := by
    rcases hreason with rfl | ⟨r, rfl⟩
    · exact ⟨'\r', ['\n'], by decide, by decide +kernel⟩
    · refine ⟨' ', (text (r ++ crlf)).toList, by decide, ?_⟩
      exact text_append [] (by decide) _
  set word := "HTTP/".toList ++ (text version).toList with hword
  have hwspace : ∀ c ∈ word, isSpace c = false := by
    intro c hc
    rcases List.mem_append.1 hc with hc | hc
    · have hhttp : ∀ c ∈ "HTTP/".toList, isSpace c = false := by simp [isSpace]
      exact hhttp c hc
    · exact hversion c hc
  have htext : text (bytes "HTTP/" ++ version ++ 32 :: (bytes digits ++ reason) ++ crlf) =
      String.ofList ((word ++ ' ' :: digits.toList) ++ z :: zs) := by
    rw [← String.toList_inj, String.toList_ofList, List.append_assoc, List.append_assoc, toList_text_bytes_append,
      List.cons_append, text_append version (by decide), List.append_assoc, toList_text_bytes_append, hz, hword]
    simp
  have hpre : word ++ ' ' :: digits.toList ≠ [] := by simp
  have htrim := trimSpace_append hpre (by simp [hword, isSpace]) (by
    rw [List.getLast_append_of_ne_nil _ (by simp), List.getLast_cons hne]
    exact hdspace _ (List.getLast_mem hne)) (z :: zs)
  have hend : (z :: zs).rdropWhile isSpace = [] ∨
      ∃ c cs, (z :: zs).rdropWhile isSpace = c :: cs ∧ isSpace c = true := by
    rcases hdrop : (z :: zs).rdropWhile isSpace with _ | ⟨c, cs⟩
    · exact .inl rfl
    · have hprefix := List.rdropWhile_prefix isSpace (z :: zs)
      rw [hdrop, List.cons_prefix_cons] at hprefix
      exact .inr ⟨c, cs, rfl, hprefix.1 ▸ hzspace⟩
  obtain ⟨more, hproto, hmore⟩ := fields_word (w := word) (by simp [hword]) hwspace
    (' ' :: (digits.toList ++ (z :: zs).rdropWhile isSpace)) (.inr ⟨' ', _, rfl, by decide⟩)
  obtain ⟨rest, hdigit, -⟩ := fields_word hne hdspace _ hend
  refine ⟨String.ofList word, digits, rest, ?_, ?_, atoi_of_value hcode hmax⟩
  · rw [htext, ← String.ofList_toList (s := trimSpace _), htrim, List.append_assoc, List.cons_append, hproto,
      hmore _ _ rfl, hdigit, String.ofList_toList]
  · have := startsWith_append "HTTP/" (text version)
    rwa [← String.ofList_toList (s := "HTTP/" ++ text version), String.toList_append, ← hword] at this

/-! ### The three framings -/

/-- A header line that says nothing about the framing. -/
def OtherLine (l : Bytes) : Prop :=
  PlainLine l ∧ ¬ Names l "transfer-encoding" ∧ ¬ Names l "content-length"

/-- **How a server may send a body**: the header lines, of which `others` are not about the framing, and all that
follows them. -/
inductive Framed (others : List Bytes) (body : Bytes) : List Bytes → Bytes → Prop
  | contentLength {before after : List Bytes} {line rest : Bytes} (hothers : others = before ++ after)
      (hplain : PlainLine line) (hline : Gives line "content-length" (itoa body.length)) :
      Framed others body (before ++ line :: after) (body ++ rest)
  | chunked {before after : List Bytes} {line rest : Bytes} (hothers : others = before ++ after)
      (hplain : PlainLine line) (hline : Gives line "transfer-encoding" "chunked")
      {chunks : List Chunk} (hchunks : ∀ c ∈ chunks, c.Ok) (hbody : body = chunks.flatMap Chunk.data)
      {zero : String} {ext : Bytes} (hzero : hexValue zero.toList = some 0) (hext : Extension ext)
      {trailers : List Bytes} (htrailers : ∀ l ∈ trailers, TrailerLine l) :
      Framed others body (before ++ line :: after)
        (chunks.flatMap Chunk.sent ++ (sizeLine zero ext ++ (linesOf trailers ++ crlf ++ rest)))
  | unframed : Framed others body others body

theorem not_names_of_gives {l : Bytes} {key v other : String} (h : Gives l key v) (hne : key ≠ other) :
    ¬ Names l other := by
  obtain ⟨name, value, rfl, hname, hkey, -⟩ := h
  rintro ⟨name', value', heq, hname', hother⟩
  have hcut := cut_text hname value
  rw [heq, cut_text hname' value'] at hcut
  have htext : text name' = text name := by
    simp only [Option.some.injEq, Prod.mk.injEq] at hcut
    exact hcut.1
  rw [htext, hkey] at hother
  exact hne hother

section Body

variable {before after others lines : List Bytes} {line body rest : Bytes}

/-- What holds of the framing line and of the others holds of all. -/
theorem forall_lines {P : Bytes → Prop} (hline : P line) (hothers : ∀ l ∈ before ++ after, P l) :
    ∀ l ∈ before ++ line :: after, P l := by
  intro l hl
  simp only [List.mem_append, List.mem_cons] at hl
  rcases hl with hl | rfl | hl
  · exact hothers l (List.mem_append_left _ hl)
  · exact hline
  · exact hothers l (List.mem_append_right _ hl)

theorem plain_of_framed (hothers : ∀ l ∈ others, OtherLine l) (h : Framed others body lines rest) :
    ∀ l ∈ lines, PlainLine l := by
  cases h with
  | unframed => exact fun l hl => (hothers l hl).1
  | contentLength heq hplain _ =>
    subst heq
    exact forall_lines hplain fun l hl => (hothers l hl).1
  | chunked heq hplain _ _ _ _ _ _ =>
    subst heq
    exact forall_lines hplain fun l hl => (hothers l hl).1

theorem itoa_ne_empty {n : ℕ} (h : (n : ℤ) ≤ maxInt64) : itoa n ≠ "" := by
  intro he
  have hread := atoi_itoa (Int.natCast_nonneg n) h
  rw [he] at hread
  revert hread
  simp [atoi, digitsValue]

theorem framingOf_framed (hothers : ∀ l ∈ others, OtherLine l) (hlen : body.length ≤ minHTTPMaxBody)
    (h : Framed others body lines rest) :
    ∃ f, framingOf (headerMap lines ∅) = .ok f ∧ readFramed rest f = .ok body := by
  have hmax := maxBody_le_maxInt64
  have hempty : contains "" "chunked" = false := by decide +kernel
  cases h with
  | unframed =>
    have hte := lookup_headerMap_of_not_names (fun l hl => (hothers l hl).2.1) ∅
    have hcl := lookup_headerMap_of_not_names (fun l hl => (hothers l hl).2.2) ∅
    refine ⟨.untilClose, ?_, congrArg Except.ok (List.take_of_length_le hlen)⟩
    unfold framingOf
    simp [hte, hcl, hempty]
  | @contentLength before after line rest heq hplain hline =>
    subst heq
    have hte : (headerMap (before ++ line :: after) ∅).lookup "transfer-encoding" = none :=
      lookup_headerMap_of_not_names
        (forall_lines (not_names_of_gives hline (by decide)) fun l hl => (hothers l hl).2.1) ∅
    have hcl := lookup_headerMap_of_gives before hline (by decide)
      (fun l hl => (hothers l (List.mem_append_right _ hl)).2.2) ∅
    have hread := atoi_itoa (Int.natCast_nonneg body.length) (by omega)
    refine ⟨.contentLength body.length, ?_, ?_⟩
    · unfold framingOf
      simp only [hte, hcl, Option.getD_none, Option.getD_some, hempty, Bool.false_eq_true, if_false, hread]
      rw [if_pos (itoa_ne_empty (by omega)), if_neg (by omega), if_neg (by omega), Int.toNat_natCast]
    · rw [readFramed_contentLength, readFull_append]
  | @chunked before after line rest heq hplain hline chunks hchunks hbody zero ext hzero hext trailers htrailers =>
    subst heq
    have hte := lookup_headerMap_of_gives before hline (by decide)
      (fun l hl => (hothers l (List.mem_append_right _ hl)).2.1) ∅
    have hchunked : contains "chunked" "chunked" = true := by decide +kernel
    refine ⟨.chunked, ?_, ?_⟩
    · unfold framingOf
      rw [hte, Option.getD_some, if_pos hchunked]
    · show readChunkedFrom [] _ = _
      rw [readChunkedFrom_sent hchunks hzero hext htrailers, List.nil_append, hbody]
      rw [List.length_nil, ← hbody]
      omega

theorem readBody_framed (hothers : ∀ l ∈ others, OtherLine l) (hlen : body.length ≤ minHTTPMaxBody)
    (h : Framed others body lines rest) : readBody (headerMap lines ∅) rest = .ok body := by
  obtain ⟨f, hf, hread⟩ := framingOf_framed hothers hlen h
  unfold readBody
  rw [readBody_of_framing hf]
  exact hread

end Body

/-- The status line and the header lines of an answer are read, and the rest is left to `readBody`. -/
theorem readResponse_lines {status : Bytes} {code : ℕ} (hstatus : StatusLine status code) {lines : List Bytes}
    (hlines : ∀ l ∈ lines, PlainLine l) (rest : Bytes) :
    ∃ reason, Reading.readResponse (status ++ crlf ++ (linesOf lines ++ crlf ++ rest)) =
      ⟨(status :: (lines ++ [[]])).map lineAlloc ++ (Reading.readBody (headerMap lines ∅) rest).notes,
        (readBody (headerMap lines ∅) rest).map fun body => ⟨code, reason, body⟩⟩ := by
  obtain ⟨hlf, proto, digits, reason, hfields, hproto, hcode⟩ := fields_statusLine hstatus
  refine ⟨" ".intercalate (digits :: reason), ?_⟩
  unfold Reading.readResponse
  rw [readLine_of_some (readString_crlf hlf _), Noted.bind_of_ok rfl]
  simp only [hfields, hproto, hcode, Bool.true_eq_false, if_false, readHeaders_lines hlines]
  rw [Noted.bind_of_ok rfl]
  unfold readBody
  rcases hbody : (Reading.readBody (headerMap lines ∅) rest).result with e | body
  · simp [Noted.bind, hbody, lineAlloc, Except.map]
  · simp [Noted.bind, hbody, lineAlloc, Except.map]

section Notes

variable (xs ys : List Effect) (sizes : List ℤ)

theorem written_append : written (xs ++ ys) = written xs ++ written ys := List.filterMap_append

theorem allocs_append : allocs (xs ++ ys) = allocs xs ++ allocs ys := List.filterMap_append

theorem written_alloc : written (sizes.map .alloc) = [] := by simp [written, List.filterMap_map]

theorem allocs_alloc : allocs (sizes.map .alloc) = sizes := by simp [allocs, List.filterMap_map]

end Notes

section Run

variable {parse : String → Option ParsedURL} {net : ParsedURL → Bytes → Option Bytes}
  {o : RangeOrder ((_ : String) × Bytes)} {method rawURL : String} {headers : GoMap String Bytes} {sent : Bytes}
  {u : ParsedURL} (hparse : parse rawURL = some u) (hscheme : u.scheme = "http" ∨ u.scheme = "https")

include hparse hscheme

theorem minHTTPRun_eq :
    minHTTPRun parse net o method rawURL headers sent =
      (exchange net u (requestHead o method u headers sent) sent).bind fun stream =>
        (Reading.readResponse stream).mapNotes .alloc := by
  have hsupported : ¬ (u.scheme ≠ "http" ∧ u.scheme ≠ "https") := by
    rcases hscheme with h | h <;> simp [h]
  unfold minHTTPRun
  rw [hparse]
  exact if_neg hsupported

/-- The head and the body of a request are written, and nothing else. -/
theorem written_minHTTPRun :
    written (minHTTPRun parse net o method rawURL headers sent).notes =
      (u, requestHead o method u headers sent) :: (if sent = [] then [] else [(u, sent)]) := by
  rw [minHTTPRun_eq hparse hscheme]
  generalize requestHead o method u headers sent = head
  have hwritten : written (exchange net u head sent).notes = (u, head) :: (if sent = [] then [] else [(u, sent)]) := by
    unfold exchange
    split_ifs <;> rfl
  rcases hresult : (exchange net u head sent).result with e | stream
  · rw [Noted.bind_of_error hresult]
    exact hwritten
  · rw [Noted.bind_of_ok hresult, written_append, hwritten, Noted.notes_mapNotes, written_alloc, List.append_nil]

theorem result_minHTTPRun :
    (minHTTPRun parse net o method rawURL headers sent).result =
      match net u (requestHead o method u headers sent ++ sent) with
      | none => .error .connection
      | some stream => readResponse stream := by
  rw [minHTTPRun_eq hparse hscheme, Noted.result_bind]
  unfold exchange
  rcases net u (requestHead o method u headers sent ++ sent) with _ | stream <;> rfl

theorem allocs_minHTTPRun {stream : Bytes} (hnet : net u (requestHead o method u headers sent ++ sent) = some stream) :
    allocs (minHTTPRun parse net o method rawURL headers sent).notes = (Reading.readResponse stream).notes := by
  rw [minHTTPRun_eq hparse hscheme]
  generalize requestHead o method u headers sent = head at hnet ⊢
  have hallocs : allocs (exchange net u head sent).notes = [] := by
    unfold exchange
    split_ifs <;> rfl
  have hresult : (exchange net u head sent).result = .ok stream := by
    unfold exchange
    rw [hnet]
  rw [Noted.bind_of_ok hresult, allocs_append, hallocs, Noted.notes_mapNotes, allocs_alloc, List.nil_append]

/-- The run on an answer that is well formed up to its body. -/
theorem minHTTPRun_lines {status : Bytes} {code : ℕ} (hstatus : StatusLine status code) {lines : List Bytes}
    (hlines : ∀ l ∈ lines, PlainLine l) {rest : Bytes}
    (hnet : net u (requestHead o method u headers sent ++ sent) =
      some (status ++ crlf ++ (linesOf lines ++ crlf ++ rest))) :
    ∃ reason,
      allocs (minHTTPRun parse net o method rawURL headers sent).notes =
        (status :: (lines ++ [[]])).map lineAlloc ++ (Reading.readBody (headerMap lines ∅) rest).notes ∧
      (minHTTPRun parse net o method rawURL headers sent).result =
        (readBody (headerMap lines ∅) rest).map fun body => ⟨code, reason, body⟩ := by
  obtain ⟨reason, hresponse⟩ := readResponse_lines hstatus hlines rest
  refine ⟨reason, ?_, ?_⟩
  · rw [allocs_minHTTPRun hparse hscheme hnet, hresponse]
  · rw [result_minHTTPRun hparse hscheme, hnet]
    exact congrArg Noted.result hresponse

end Run

/-- **Reading an answer undoes sending it**, under each of the three framings. -/
theorem response_read_back {parse : String → Option ParsedURL} {net : ParsedURL → Bytes → Option Bytes}
    {o : RangeOrder ((_ : String) × Bytes)} {method rawURL : String} {headers : GoMap String Bytes} {sent : Bytes}
    {u : ParsedURL} (hparse : parse rawURL = some u) (hscheme : u.scheme = "http" ∨ u.scheme = "https")
    {status : Bytes} {code : ℕ} (hstatus : StatusLine status code)
    {others lines : List Bytes} (hothers : ∀ l ∈ others, OtherLine l)
    {body rest : Bytes} (hlen : body.length ≤ minHTTPMaxBody) (hframed : Framed others body lines rest)
    (hnet : net u (requestHead o method u headers sent ++ sent) =
      some (status ++ crlf ++ (linesOf lines ++ crlf ++ rest))) :
    ∃ reason, minHTTPDo parse net o method rawURL headers sent = .ok ⟨code, reason, body⟩ := by
  obtain ⟨reason, -, hresult⟩ := minHTTPRun_lines hparse hscheme hstatus (plain_of_framed hothers hframed) hnet
  refine ⟨reason, ?_⟩
  unfold minHTTPDo
  rw [hresult, readBody_framed hothers hlen hframed]
  rfl

theorem statusLine_ok : StatusLine (bytes "HTTP/1.1 200 OK") 200 :=
  ⟨bytes "1.1", "200", bytes " OK", by decide +kernel, by rw [text_bytes]; simp [isSpace], by decide +kernel,
    by decide, .inr ⟨bytes "OK", by decide +kernel⟩, by decide +kernel⟩

theorem response_read_back_hello :
    let u : ParsedURL := ⟨"http", "panel", "panel", "", "/"⟩
    let lines := [bytes "Server: panel"] ++ bytes "Transfer-Encoding:  chunked" :: []
    let chunks : List Chunk := [⟨"05", [], bytes "hello"⟩, ⟨"3", bytes ";x=1", bytes " wo"⟩]
    let rest := chunks.flatMap Chunk.sent ++ (sizeLine "0" [] ++ (linesOf [bytes "Digest: 1"] ++ crlf ++ []))
    let answer := bytes "HTTP/1.1 200 OK" ++ crlf ++ (linesOf lines ++ crlf ++ rest)
    ∃ reason, minHTTPDo (fun _ => some u) (fun _ _ => some answer) (.stored _) "GET" "http://panel/" ∅ [] =
      .ok ⟨200, reason, bytes "hello wo"⟩ := by
  intro u lines chunks rest answer
  have hserver : Gives (bytes "Server: panel") "server" "panel" :=
    ⟨bytes "Server", bytes " panel", by decide +kernel, by decide +kernel, by decide +kernel, by decide +kernel⟩
  have hothers : ∀ l ∈ [bytes "Server: panel"], OtherLine l := by
    intro l hl
    obtain rfl := List.mem_singleton.1 hl
    exact ⟨⟨by decide +kernel, by decide +kernel, by decide +kernel⟩, not_names_of_gives hserver (by decide),
      not_names_of_gives hserver (by decide)⟩
  have hline : Gives (bytes "Transfer-Encoding:  chunked") "transfer-encoding" "chunked" :=
    ⟨bytes "Transfer-Encoding", bytes "  chunked", by decide +kernel, by decide +kernel, by decide +kernel,
      by decide +kernel⟩
  have hchunks : ∀ c ∈ chunks, c.Ok := by
    intro c hc
    simp only [chunks, List.mem_cons, List.not_mem_nil, or_false] at hc
    rcases hc with rfl | rfl
    · exact ⟨by decide +kernel, ⟨.inl rfl, by decide⟩, by decide +kernel⟩
    · exact ⟨by decide +kernel, ⟨.inr ⟨bytes "x=1", by decide +kernel⟩, by decide +kernel⟩, by decide +kernel⟩
  have htrailers : ∀ l ∈ [bytes "Digest: 1"], TrailerLine l := by
    intro l hl
    obtain rfl := List.mem_singleton.1 hl
    exact ⟨by decide +kernel, 'D', by rw [text_bytes]; decide, by decide⟩
  have hbody : bytes "hello wo" = chunks.flatMap Chunk.data := by decide +kernel
  have hzero : hexValue "0".toList = some 0 := by decide +kernel
  have hframed : Framed [bytes "Server: panel"] (bytes "hello wo") lines rest :=
    .chunked (List.append_nil [bytes "Server: panel"]).symm ⟨by decide +kernel, by decide +kernel, by decide +kernel⟩
      hline hchunks hbody hzero ⟨.inl rfl, by decide⟩ htrailers
  exact response_read_back (u := u) rfl (.inl rfl) statusLine_ok hothers (by decide +kernel) hframed rfl

end MiniSbAgent.Panelapi
