import JamScript.Backend.Requests

/-!
# Requests over HTTP

`read_http_request` collects what the connection gives it until it has seen a blank line, reads the
header in front of it, and collects until the body is complete. A connection is the list of the
reads that it answers, each with at least one byte, and ends after them; errors of the connection
are not among them.

`readHttpRequest_eq` says that the result is a function of all the bytes together, `frame`: how they
are divided into reads makes no difference. The loop over the header is followed through the bytes
that it has collected, in which there is no blank line yet.
-/

namespace JamScript

open Codec

/-- The longest request. -/
def maxHttpBytes : ℕ := 32 * 1024 * 1024
/-- The longest header. -/
def maxHttpHeaderBytes : ℕ := 64 * 1024

/-- The line break, twice. -/
def blankLine : Bytes := [13, 10, 13, 10]

/-- `find_bytes`, for a needle that is not empty. -/
def findBytes (needle : Bytes) : Bytes → Option ℕ
  | [] => none
  | byte :: rest =>
    if needle <+: byte :: rest then some 0 else (findBytes needle rest).map (· + 1)

/-! ## The header -/

/-- `char::is_whitespace`. -/
def isWhitespace (c : Char) : Bool :=
  (9 ≤ c.toNat && c.toNat ≤ 13) || (0x2000 ≤ c.toNat && c.toNat ≤ 0x200a) ||
    c.toNat ∈ [0x20, 0x85, 0xa0, 0x1680, 0x2028, 0x2029, 0x202f, 0x205f, 0x3000]

def trim (text : List Char) : List Char :=
  ((text.dropWhile isWhitespace).reverse.dropWhile isWhitespace).reverse

/-- `split("\r\n")`. -/
def splitLines : List Char → List (List Char)
  | '\r' :: '\n' :: rest => [] :: splitLines rest
  | c :: rest =>
    match splitLines rest with
    | line :: lines => (c :: line) :: lines
    | [] => [[c]]
  | [] => [[]]

/-- `str::parse::<usize>`. -/
def parseUsize (text : List Char) : Option ℕ :=
  let digits := if text.head? = some '+' then text.tail else text
  let value := digits.foldl (fun value c => value * 10 + (c.toNat - 48)) 0
  if digits ≠ [] ∧ digits.all Char.isDigit ∧ value < 2 ^ 64 then some value else none

/-- The headers that are kept. -/
structure HttpHeaders where
  contentLength : Option ℕ
  origin : Option (List Char)
  deriving DecidableEq

/-- One line of the header; lines that are not read are skipped. -/
def readHeaderLine (headers : HttpHeaders) (line : List Char) : Except BackendError HttpHeaders :=
  if line = [] then .ok headers
  else if ':' ∉ line then .error (.rpc "malformed HTTP header")
  else do
    let name := (line.takeWhile (· ≠ ':')).map Char.toLower
    let value := trim (line.dropWhile (· ≠ ':')).tail
    let headers ←
      if name = "content-length".toList then
        match parseUsize value with
        | none => .error (.rpc "invalid Content-Length")
        | some parsed =>
          if headers.contentLength.isSome then .error (.rpc "duplicate Content-Length")
          else pure { headers with contentLength := some parsed }
      else pure headers
    if name = "origin".toList then
      if headers.origin.isSome then .error (.rpc "duplicate Origin")
      else pure { headers with origin := some value }
    else pure headers

/-- What the header says: method, path, and the headers. The text of the error about UTF-8 is the
library's. -/
def readHeader (header : Bytes) : Except BackendError (List Char × List Char × HttpHeaders) :=
  match String.fromUTF8? ⟨header.toArray⟩ with
  | none => .error (.rpc "invalid utf-8 sequence")
  | some text =>
    match splitLines text.toList with
    | [] => .error (.rpc "missing HTTP request line")
    | requestLine :: lines => do
      match (requestLine.splitOnP isWhitespace).filter (· ≠ []) with
      | [] => .error (.rpc "missing HTTP method")
      | [_] => .error (.rpc "missing HTTP path")
      | method :: path :: _ => do
        let headers ← lines.foldlM readHeaderLine { contentLength := none, origin := none }
        pure (method, path, headers)

/-- What the server needs of a request. -/
structure HttpRequest where
  method : List Char
  path : List Char
  body : Bytes
  origin : Option (List Char)
  deriving DecidableEq

/-! ## The loops -/

/-- The first loop: where the header ends, what has been collected, and the reads that are left. -/
def readUntilBlankLine : Bytes → List Bytes → Except BackendError (ℕ × Bytes × List Bytes)
  | _, [] => .error (.rpc "truncated HTTP request")
  | bytes, read :: reads =>
    if read = [] then .error (.rpc "truncated HTTP request")
    else
      let bytes := bytes ++ read
      if bytes.length > maxHttpBytes then .error (.rpc "HTTP request too large")
      else
        match findBytes blankLine bytes with
        | some index =>
          if index + 4 > maxHttpHeaderBytes then .error (.rpc "HTTP headers too large")
          else .ok (index + 4, bytes, reads)
        | none => readUntilBlankLine bytes reads

/-- The second loop: what has been collected when there are `wanted` bytes. -/
def readBody (wanted : ℕ) : Bytes → List Bytes → Except BackendError Bytes
  | bytes, [] => if bytes.length < wanted then .error (.rpc "truncated HTTP body") else .ok bytes
  | bytes, read :: reads =>
    if bytes.length < wanted then
      if read = [] then .error (.rpc "truncated HTTP body") else readBody wanted
        (bytes ++ read) reads
    else .ok bytes

/-- `read_http_request`, on the reads that the stream answers with. -/
def readHttpRequest (reads : List Bytes) : Except BackendError HttpRequest := do
  let (headerEnd, bytes, reads) ← readUntilBlankLine [] reads
  let (method, path, headers) ← readHeader (bytes.take headerEnd)
  let length := headers.contentLength.getD 0
  ensure (length ≤ maxHttpBytes ∧ headerEnd + length < 2 ^ 64) (.rpc "HTTP request too large")
  let bytes ← readBody (headerEnd + length) bytes reads
  pure { method, path, body := (bytes.drop headerEnd).take length, origin := headers.origin }

/-! ## All the bytes together -/

/-- What a request is: a header up to the first blank line, and as many bytes behind it as it
says. -/
def frame (stream : Bytes) : Except BackendError HttpRequest :=
  match findBytes blankLine stream with
  | none => .error (.rpc "truncated HTTP request")
  | some index => do
    ensure (index + 4 ≤ maxHttpHeaderBytes) (.rpc "HTTP headers too large")
    let (method, path, headers) ← readHeader (stream.take (index + 4))
    let length := headers.contentLength.getD 0
    ensure (length ≤ maxHttpBytes ∧ index + 4 + length < 2 ^ 64) (.rpc "HTTP request too large")
    ensure (index + 4 + length ≤ stream.length) (.rpc "truncated HTTP body")
    pure { method, path, body := (stream.drop (index + 4)).take length, origin := headers.origin }

theorem findBytes_bound {needle bytes : Bytes} {index : ℕ}
    (h : findBytes needle bytes = some index) :
    index + needle.length ≤ bytes.length := by
  induction bytes generalizing index with
  | nil => cases h
  | cons byte bytes ih =>
    rw [findBytes] at h
    split at h
    next hfound =>
      cases h
      simpa using hfound.length_le
    next =>
      obtain ⟨index, hindex, rfl⟩ := Option.map_eq_some_iff.mp h
      have := ih hindex
      rw [List.length_cons]
      omega

theorem findBytes_append {needle bytes : Bytes} {index : ℕ}
    (h : findBytes needle bytes = some index) (more : Bytes) : findBytes needle (bytes ++ more) =
      some index := by
  induction bytes generalizing index with
  | nil => cases h
  | cons byte bytes ih =>
    rw [findBytes] at h
    rw [List.cons_append, findBytes, ← List.cons_append]
    split at h
    next hfound => rw [if_pos (hfound.trans (List.prefix_append _ more)), h]
    next hmissing =>
      obtain ⟨index, hindex, rfl⟩ := Option.map_eq_some_iff.mp h
      -- a needle that is found later is no longer than what is there
      have hlength : needle.length ≤ (byte :: bytes).length := by
        have := findBytes_bound hindex
        rw [List.length_cons]
        omega
      have hmissing' : ¬ needle <+: byte :: bytes ++ more := fun hfound => hmissing
        (List.prefix_of_prefix_length_le hfound (List.prefix_append _ more) hlength)
      rw [if_neg hmissing', ih hindex]
      rfl

variable {reads : List Bytes}

/-- With no blank line collected yet, the first loop ends at the first one of the stream. -/
theorem readUntilBlankLine_spec (bytes : Bytes) (hreads : ∀ read ∈ reads, read ≠ [])
    (hsize : (bytes ++ reads.flatten).length ≤ maxHttpBytes)
    (hnone : findBytes blankLine bytes = none) :
    match findBytes blankLine (bytes ++ reads.flatten) with
    | none => readUntilBlankLine bytes reads = .error (.rpc "truncated HTTP request")
    | some index =>
      if index + 4 ≤ maxHttpHeaderBytes then
        ∃ collected left, readUntilBlankLine bytes reads = .ok (index + 4, collected, left) ∧
          collected ++ left.flatten = bytes ++ reads.flatten ∧ index + 4 ≤ collected.length ∧
          ∀ read ∈ left, read ≠ []
      else readUntilBlankLine bytes reads = .error (.rpc "HTTP headers too large") := by
  induction reads generalizing bytes with
  | nil =>
    rw [List.flatten_nil, List.append_nil, hnone]
    rfl
  | cons read reads ih =>
    rw [List.flatten_cons, ← List.append_assoc] at hsize ⊢
    have hroom : ¬ (bytes ++ read).length > maxHttpBytes := by
      rw [List.length_append] at hsize
      omega
    have hrest : ∀ read ∈ reads, read ≠ [] := fun read hread => hreads read (.tail _ hread)
    simp only [readUntilBlankLine, if_neg (hreads read List.mem_cons_self), if_neg hroom]
    cases hfound : findBytes blankLine (bytes ++ read) with
    | none => exact ih _ hrest hsize hfound
    | some index =>
      rw [findBytes_append hfound]
      dsimp only
      split
      next hheader =>
        rw [if_neg (by omega)]
        exact ⟨_, reads, rfl, rfl, findBytes_bound hfound, hrest⟩
      next hheader => rw [if_pos (by omega)]

/-- The second loop collects enough of the stream, if there is enough. -/
theorem readBody_spec (wanted : ℕ) (bytes : Bytes) (hreads : ∀ read ∈ reads, read ≠ []) :
    if wanted ≤ (bytes ++ reads.flatten).length then
      ∃ collected left, readBody wanted bytes reads = .ok collected ∧
        collected ++ left = bytes ++ reads.flatten ∧ wanted ≤ collected.length
    else readBody wanted bytes reads = .error (.rpc "truncated HTTP body") := by
  induction reads generalizing bytes with
  | nil =>
    simp only [List.flatten_nil, List.append_nil, readBody]
    split
    next hwanted => exact ⟨bytes, [], if_neg (by omega), List.append_nil _, hwanted⟩
    next hwanted => rw [if_pos (by omega)]
  | cons read reads ih =>
    rw [readBody]
    by_cases henough : bytes.length < wanted
    · have hrest := ih (bytes ++ read) fun read hread => hreads read (.tail _ hread)
      rw [if_pos henough, if_neg (hreads read List.mem_cons_self),
        List.flatten_cons, ← List.append_assoc]
      exact hrest
    · rw [if_neg henough, if_pos (by rw [List.length_append]; omega)]
      exact ⟨bytes, _, rfl, rfl, by omega⟩

/-- The result depends on the bytes alone. -/
theorem readHttpRequest_eq (hreads : ∀ read ∈ reads, read ≠ [])
    (hsize : reads.flatten.length ≤ maxHttpBytes) :
    readHttpRequest reads = frame reads.flatten := by
  have hheader := readUntilBlankLine_spec [] hreads hsize rfl
  rw [List.nil_append] at hheader
  unfold readHttpRequest frame
  cases hfound : findBytes blankLine reads.flatten with
  | none =>
    rw [hfound] at hheader
    simp only [hheader]
    rfl
  | some index =>
    rw [hfound] at hheader
    dsimp only at hheader ⊢
    split at hheader
    next hfits =>
      obtain ⟨collected, left, hread, hstream, hcollected, hleft⟩ := hheader
      have htake : collected.take (index + 4) = reads.flatten.take (index + 4) := by
        rw [← hstream, List.take_append_of_le_length hcollected]
      rw [hread, ensure, if_pos hfits, ← htake]
      change (readHeader (collected.take (index + 4)) >>= _) =
        readHeader (collected.take (index + 4)) >>= _
      refine bind_congr fun header => bind_congr fun _ => ?_
      obtain ⟨method, path, headers⟩ := header
      have hbody := readBody_spec (index + 4 + headers.contentLength.getD 0) collected hleft
      rw [hstream] at hbody
      split at hbody
      next hwanted =>
        obtain ⟨bytes, unread, hbytes, hall, henough⟩ := hbody
        have hcut : (bytes.drop (index + 4)).take (headers.contentLength.getD 0) =
            (reads.flatten.drop (index + 4)).take (headers.contentLength.getD 0) := by
          rw [← hall, List.drop_append_of_le_length (by omega),
            List.take_append_of_le_length (by rw [List.length_drop]; omega)]
        rw [hbytes, ensure, if_pos hwanted, ← hcut]
        rfl
      next hwanted =>
        rw [hbody, ensure, if_neg hwanted]
        rfl
    next hlong =>
      rw [hheader, ensure, if_neg hlong]
      rfl

/-- However a stream within the limit is divided into reads, the result is the same; and a request
that is read has as its body the bytes behind the first blank line, as many as the header says. -/
theorem request_independent_of_reads {reads reads' : List Bytes}
    (hreads : ∀ read ∈ reads, read ≠ [] ∧ read.length ≤ 8192)
    (hreads' : ∀ read ∈ reads', read ≠ [] ∧ read.length ≤ 8192)
    (hstream : reads.flatten = reads'.flatten) (hsize : reads.flatten.length ≤ maxHttpBytes) :
    readHttpRequest reads = readHttpRequest reads' ∧
    ∀ request, readHttpRequest reads = .ok request → ∃ index headers,
      findBytes blankLine reads.flatten = some index ∧
      readHeader (reads.flatten.take (index + 4)) = .ok (request.method, request.path, headers) ∧
      request.origin = headers.origin ∧
      request.body = (reads.flatten.drop (index + 4)).take (headers.contentLength.getD 0) ∧
      request.body.length = headers.contentLength.getD 0 := by
  have heq := readHttpRequest_eq (fun read hread => (hreads read hread).1) hsize
  refine ⟨?_, fun request hrequest => ?_⟩
  · rw [heq, hstream, readHttpRequest_eq (fun read hread => (hreads' read hread).1)
      (by rwa [← hstream])]
  · rw [heq, frame] at hrequest
    cases hfound : findBytes blankLine reads.flatten with
    | none =>
      rw [hfound] at hrequest
      cases hrequest
    | some index =>
      simp only [hfound, bind_eq_ok, ensure_eq_ok, pure_eq_ok] at hrequest
      obtain ⟨_, _, ⟨method, path, headers⟩, hheader, _, _, _, hbody, rfl⟩ := hrequest
      refine ⟨index, headers, rfl, hheader, rfl, rfl, ?_⟩
      dsimp only at hbody ⊢
      rw [List.length_take, List.length_drop]
      omega

/-- A request with a body, in two reads that divide the blank line, and in one. -/
theorem request_independent_of_reads_split :
    readHttpRequest [(ascii "POST /rpc HTTP/1.1\r\nContent-Length: 2\r\n\r"), ascii "\nok"] =
      readHttpRequest [(ascii "POST /rpc HTTP/1.1\r\nContent-Length: 2\r\n\r\nok")] :=
  (request_independent_of_reads (by decide) (by decide) (by decide) (by decide)).1

end JamScript
