import ZaqorinCore.Server.DepthGuard
import ZaqorinCore.Server.Value
import ZaqorinCore.Text.Codec
import ZaqorinCore.Text.Decimal
import ZaqorinCore.Text.JsonDump

/-!
# The error envelope

`ErrorEnvelopeMiddleware` of `error_envelope.py`. An error response gets a new body, a JSON object
that repeats the old body's `detail`, but keeps all the headers of the old one, so the length and
the type that these state are those of a body that is gone: `well_formed_iff`.
-/

namespace ZaqorinCore.Server.ErrorEnvelope

open Text Base JsonText DepthGuard

/-! ## Responses -/

/-- Header names are in lower case, as ASGI has them. -/
abbrev Headers := List (Str × Str)

inductive Chunk
  | bytes (b : Bytes)
  | text (s : Str)

/-- A response has a `body_iterator` or a `body`. -/
inductive Body
  | iterator (chunks : List Chunk)
  | bytes (b : Bytes)

structure Response where
  status : Nat
  headers : Headers
  body : Body

def Chunk.encoded : Chunk → Bytes
  | .bytes b => b
  | .text s => utf8 s

/-- `_drain_body` -/
def drainBody (chunks : List Chunk) : Bytes := chunks.flatMap Chunk.encoded

def Response.bodyBytes (r : Response) : Bytes :=
  match r.body with
  | .iterator chunks => drainBody chunks
  | .bytes b => b

/-- `response.headers.get(name)` -/
def Response.header (r : Response) (name : String) : Option Str := r.headers.lookup name.toList

/-- `response.headers.get("content-type", "")` -/
def Response.contentType (r : Response) : Str := (r.header "content-type").getD []

/-- `dict(response.headers)`: of several headers with one name, the first. -/
def dictOf : Headers → Headers
  | [] => []
  | (name, value) :: rest => (name, value) :: (dictOf rest).filter fun header => header.1 ≠ name

theorem lookup_dictOf (headers : Headers) (name : Str) :
    (dictOf headers).lookup name = headers.lookup name := by
  induction headers with
  | nil => rfl
  | cons header rest ih =>
    obtain ⟨name', value⟩ := header
    rw [dictOf, List.lookup_cons, List.lookup_cons]
    cases hname : name == name' with
    | true => rfl
    | false =>
      have hkeeps : ∀ l : Headers,
          (l.filter fun header => decide (header.1 ≠ name')).lookup name = l.lookup name := by
        intro l
        induction l with
        | nil => rfl
        | cons header l ihl =>
          obtain ⟨other, value'⟩ := header
          by_cases hother : other = name'
          · rw [List.filter_cons_of_neg (by simpa using hother), ihl, List.lookup_cons, hother,
              hname]
          · rw [List.filter_cons_of_pos (by simpa using hother), List.lookup_cons,
              List.lookup_cons, ihl]
      exact (hkeeps _).trans ih

/-- What `Response` of Starlette makes of the headers it is given, beside the status, the body and
the media type. -/
structure InitHeaders where
  run : Nat → Bytes → Str → Headers → Headers
  /-- Headers that the caller gives are kept. -/
  keeps : ∀ {status content mediaType headers name value}, headers.lookup name = some value →
    (run status content mediaType headers).lookup name = some value
  /-- A length is added only where there was none. -/
  length : ∀ {status content mediaType headers value},
    headers.lookup "content-length".toList = none →
    (run status content mediaType headers).lookup "content-length".toList = some value →
    value = itoa (content.length : Int)
  /-- The type of JSON, to which no charset belongs, is added where there was none. -/
  type : ∀ {status content headers}, headers.lookup "content-type".toList = none →
    (run status content "application/json".toList headers).lookup "content-type".toList =
      some "application/json".toList

/-! ## The middleware -/

/-- What the middleware uses. `serialise` is `json.dumps` of a detail that is no string. -/
structure Env where
  /-- `ZAQORIN_ERROR_ENVELOPE` -/
  setting : Option Str
  /-- The `request_id` of the context variables. -/
  boundId : Option Str
  finalSigma : Str → Str → Bool
  refuses : Str → Bool
  serialise : Tree → Str
  initHeaders : InitHeaders

/-- `_EXCLUDED_PREFIXES` -/
def excludedPrefixes : List String := [
  "/healthz",
  "/readyz",
  "/api/v1/healthcheck",
  "/api/v1/ingest/cloudflare",
  "/api/v1/ingest/webhook",
  "/api/v1/security",
  "/api/v1/stats",
  "/api/v1/kanban",
  "/static"]

/-- `_is_excluded` -/
def isExcluded (path : Str) : Bool :=
  path == ['/'] || excludedPrefixes.any fun start => start.toList.isPrefixOf path

/-- `_STATUS_CODE_TO_ERROR_CODE` -/
def statusCodeToErrorCode : List (Nat × String) := [
  (400, "bad_request"),
  (401, "unauthorized"),
  (403, "forbidden"),
  (404, "not_found"),
  (405, "method_not_allowed"),
  (406, "not_acceptable"),
  (409, "conflict"),
  (413, "payload_too_large"),
  (415, "unsupported_media_type"),
  (422, "unprocessable_entity"),
  (429, "rate_limited"),
  (500, "internal_error"),
  (501, "not_implemented"),
  (502, "bad_gateway"),
  (503, "service_unavailable"),
  (504, "gateway_timeout")]

/-- `_HTTP_STATUS_TEXT` -/
def httpStatusText : List (Nat × String) := [
  (400, "Bad Request"),
  (401, "Unauthorized"),
  (403, "Forbidden"),
  (404, "Not Found"),
  (405, "Method Not Allowed"),
  (406, "Not Acceptable"),
  (409, "Conflict"),
  (413, "Payload Too Large"),
  (415, "Unsupported Media Type"),
  (422, "Unprocessable Entity"),
  (429, "Too Many Requests"),
  (500, "Internal Server Error"),
  (501, "Not Implemented"),
  (502, "Bad Gateway"),
  (503, "Service Unavailable"),
  (504, "Gateway Timeout")]

/-- `_error_code_for` -/
def errorCodeFor (status : Nat) : Str :=
  ((statusCodeToErrorCode.lookup status).getD "http_error").toList

def statusText (status : Nat) : Str :=
  match httpStatusText.lookup status with
  | some text => text.toList
  | none => "HTTP ".toList ++ itoa status

/-- `_is_envelope_enabled` -/
def isEnvelopeEnabled (env : Env) : Bool :=
  ["1", "true", "yes"].any fun value =>
    lower env.finalSigma (strip (env.setting.getD [])) == value.toList

/-- The code points of a text. -/
def points (s : Str) : List Nat := s.map Char.toNat

/-- `parsed.get(name)` of a parsed object: the last pair with the name. -/
def member (pairs : List (List Nat × Tree)) (name : String) : Option Tree :=
  pairs.reverse.lookup (points name.toList)

/-- `"json" in content_type.lower()` -/
def namesJson (env : Env) (contentType : Str) : Bool :=
  contains "json".toList (lower env.finalSigma contentType)

/-- `_extract_detail` -/
def extractDetail (env : Env) (body : Bytes) (contentType : Str) : List Nat :=
  if body = [] then []
  else if namesJson env contentType then
    match ((limitedDecode env.refuses (decodeReplace body)).exec 0).1 with
    | .ok (.obj pairs) =>
      match member pairs "detail" with
      | some (.str detail) => detail
      | some .null => points (decodeReplace body)
      | some detail => points (env.serialise detail)
      | none => points (decodeReplace body)
    | _ => points (decodeReplace body)
  else points (decodeReplace body)

/-- The detail of the envelope. -/
def detailOf (env : Env) (r : Response) : List Nat :=
  match extractDetail env r.bodyBytes r.contentType with
  | [] => points (statusText r.status)
  | detail => detail

def requestIdOf (env : Env) (r : Response) : Option Str :=
  match r.header "x-request-id" with
  | some [] => env.boundId
  | some id => some id
  | none => env.boundId

/-- `json.dumps` of a text or of `None`. -/
def dumpOptional : Option Str → Str
  | some s => dumpString (points s)
  | none => "null".toList

/-- `json.dumps(envelope)` -/
def envelopeText (code : Str) (detail : List Nat) (requestId : Option Str) : Str :=
  dumpObject [
    (points "error".toList, dumpObject [
      (points "code".toList, dumpString (points code)),
      (points "message".toList, dumpString detail),
      (points "request_id".toList, dumpOptional requestId)]),
    (points "detail".toList, dumpString detail)]

def wrapped (env : Env) (r : Response) : Response :=
  let content := utf8 (envelopeText (errorCodeFor r.status) (detailOf env r) (requestIdOf env r))
  {
    status := r.status
    headers := env.initHeaders.run r.status content "application/json".toList (dictOf r.headers)
    body := .bytes content
  }

/-- `ErrorEnvelopeMiddleware.dispatch`, for the response of `call_next`. -/
def dispatch (env : Env) (path : Str) (r : Response) : Response :=
  if !isEnvelopeEnabled env then r
  else if r.status < 400 then r
  else if isExcluded path then r
  else if r.bodyBytes = [] then r
  else wrapped env r

/-- The middleware wraps a response when it is on and the response is an error with a body, on a
path that is not excluded. -/
structure Wraps (env : Env) (path : Str) (r : Response) : Prop where
  enabled : isEnvelopeEnabled env = true
  error : 400 ≤ r.status
  included : isExcluded path = false
  body : r.bodyBytes ≠ []

theorem dispatch_of_wraps {env : Env} {path : Str} {r : Response} (h : Wraps env path r) :
    dispatch env path r = wrapped env r := by
  unfold dispatch
  rw [h.enabled, h.included, if_neg (by decide), if_neg (Nat.not_lt.mpr h.error),
    if_neg Bool.false_ne_true, if_neg h.body]

/-! ## What the envelope is read as -/

/-- A text has no surrogates. -/
theorem paired_points (s : Str) : Paired (points s) where
  valid := by
    unfold points
    rw [List.forall_mem_map]
    exact fun c _ => char_lt c
  joined := by
    induction s with
    | nil => exact .nil
    | cons c s ih =>
      refine List.isChain_cons.mpr ⟨?_, ih⟩
      rintro n - ⟨hhigh, -⟩
      unfold IsHigh at hhigh
      rcases c.valid with (h : c.toNat < 0xd800) | (h : 0xdfff < c.toNat ∧ _)
      · omega
      · omega

def treeOptional : Option Str → Tree
  | some s => .str (points s)
  | none => .null

/-- The pairs of the envelope. -/
def envelopePairs (code : Str) (detail : List Nat) (requestId : Option Str) :
    List (List Nat × Tree) := [
  (points "error".toList, .obj [
    (points "code".toList, .str (points code)),
    (points "message".toList, .str detail),
    (points "request_id".toList, treeOptional requestId)]),
  (points "detail".toList, .str detail)]

def optionalWidth : Option Str → Nat
  | some s => stringWidth (points s)
  | none => 4

theorem length_dumpOptional (requestId : Option Str) :
    (dumpOptional requestId).length = optionalWidth requestId := by
  cases requestId with
  | none => rfl
  | some s => exact length_dumpString _

theorem length_envelopeText (code : Str) (detail : List Nat) (requestId : Option Str) :
    (envelopeText code detail requestId).length =
      62 + stringWidth (points code) + 2 * stringWidth detail + optionalWidth requestId := by
  have herror : stringWidth (points "error".toList) = 7 := by decide
  have hcode : stringWidth (points "code".toList) = 6 := by decide
  have hmessage : stringWidth (points "message".toList) = 9 := by decide
  have hid : stringWidth (points "request_id".toList) = 12 := by decide
  have hdetail : stringWidth (points "detail".toList) = 8 := by decide
  unfold envelopeText
  simp only [length_dumpObject, List.map_cons, List.map_nil, length_joined_cons, joined_singleton,
    length_dumpMember, length_dumpString, length_dumpOptional, herror, hcode, hmessage, hid,
    hdetail]
  omega

theorem dumpOptional_ascii (requestId : Option Str) : Ascii (dumpOptional requestId) := by
  cases requestId with
  | none =>
    have hall : ("null".toList.all fun c => decide (c.toNat < 128)) = true := by decide
    exact fun c hc => of_decide_eq_true (List.all_eq_true.mp hall c hc)
  | some s => exact dumpString_ascii _

theorem envelopeText_ascii (code : Str) (detail : List Nat) (requestId : Option Str) :
    Ascii (envelopeText code detail requestId) := by
  have hinner : Ascii (dumpObject [
      (points "code".toList, dumpString (points code)),
      (points "message".toList, dumpString detail),
      (points "request_id".toList, dumpOptional requestId)]) := by
    apply dumpObject_ascii
    rintro entry hentry
    simp only [List.mem_cons, List.not_mem_nil, or_false] at hentry
    rcases hentry with rfl | rfl | rfl
    · exact dumpString_ascii _
    · exact dumpString_ascii _
    · exact dumpOptional_ascii _
  apply dumpObject_ascii
  rintro entry hentry
  simp only [List.mem_cons, List.not_mem_nil, or_false] at hentry
  rcases hentry with rfl | rfl
  · exact hinner
  · exact dumpString_ascii _

section

variable {refuses : Str → Bool} {code : Str} {detail : List Nat}

theorem written_points {scan : Str → Parse (Tree × Str)} {name : String} {text : Str} {tree : Tree}
    (h : ReadsBack scan text tree) :
    Written scan (points name.toList, text) (points name.toList, tree) :=
  ⟨rfl, paired_points _, h⟩

theorem dumpOptional_reads (n opened : Nat) (requestId : Option Str) :
    ReadsBack (scanOnce refuses (n + 1) opened) (dumpOptional requestId)
      (treeOptional requestId) := by
  cases requestId with
  | none => exact scanOnce_null
  | some s => exact scanOnce_dumpString (paired_points s)

theorem envelopeText_readsBack (hdetail : Paired detail) (requestId : Option Str) (n : Nat) :
    ReadsBack (scanOnce refuses (n + 3 + 1 + 1) 0) (envelopeText code detail requestId)
      (.obj (envelopePairs code detail requestId)) := by
  have hstring : ReadsBack (scanOnce refuses (n + 3 + 1) 1) (dumpString detail) (.str detail) :=
    scanOnce_dumpString hdetail
  refine scanOnce_dumpObject
    (.cons (written_points ?_) (.cons (written_points hstring) .nil)) (Nat.le_add_left 2 (n + 2))
  refine scanOnce_dumpObject (.cons (written_points ?_) (.cons (written_points ?_)
    (.cons (written_points ?_) .nil))) (Nat.le_add_left 3 n)
  · exact scanOnce_dumpString (paired_points code)
  · exact scanOnce_dumpString hdetail
  · exact dumpOptional_reads (n + 2) 2 requestId

/-- The new body is one JSON object, with the members that it was given. -/
theorem envelopeText_reads (hdetail : Paired detail) (requestId : Option Str) :
    ((jsonLoads refuses (envelopeText code detail requestId)).exec 0).1 =
      .ok (.obj (envelopePairs code detail requestId)) := by
  obtain ⟨n, hn⟩ : ∃ n, (envelopeText code detail requestId).length = n + 3 + 1 := by
    refine ⟨(envelopeText code detail requestId).length - 4, ?_⟩
    have hlength := length_envelopeText code detail requestId
    omega
  rw [jsonLoads_eq]
  refine decode_readsBack ?_ 0
  rw [hn]
  exact envelopeText_readsBack hdetail requestId n

end

/-! ## What the detail is -/

/-- The body of a response, read as JSON, is an object. -/
def ObjectBody (refuses : Str → Bool) (r : Response) (pairs : List (List Nat × Tree)) : Prop :=
  ((jsonLoads refuses (decodeReplace r.bodyBytes)).exec 0).1 = .ok (.obj pairs)

/-- The body of a response is a JSON object whose `detail` is a string. -/
def StringDetail (refuses : Str → Bool) (r : Response) (d : List Nat) : Prop :=
  ∃ pairs, ObjectBody refuses r pairs ∧ member pairs "detail" = some (.str d)

theorem mem_of_member {pairs : List (List Nat × Tree)} {name : String} {tree : Tree}
    (h : member pairs name = some tree) : (points name.toList, tree) ∈ pairs := by
  obtain ⟨l₁, l₂, hsplit, -⟩ := List.lookup_eq_some_iff.mp h
  rw [← List.mem_reverse, hsplit]
  simp

/-- A string detail is shorter than the body's text. -/
theorem StringDetail.spelled {refuses : Str → Bool} {r : Response} {d : List Nat}
    (h : StringDetail refuses r d) : Paired d ∧ d.length < (decodeReplace r.bodyBytes).length := by
  obtain ⟨pairs, hbody, hmember⟩ := h
  rw [ObjectBody, jsonLoads_eq] at hbody
  exact member_of_decode hbody (mem_of_member hmember)

section

variable {env : Env} {path : Str} {r : Response}

theorem detailOf_ne_nil (env : Env) (r : Response) : detailOf env r ≠ [] := by
  have htable : (httpStatusText.all fun entry => decide (entry.2.toList ≠ [])) = true := by
    decide
  have htext : statusText r.status ≠ [] := by
    unfold statusText
    cases hlookup : httpStatusText.lookup r.status with
    | none => exact List.append_ne_nil_of_left_ne_nil (by decide) _
    | some text =>
      obtain ⟨l₁, l₂, hsplit, -⟩ := List.lookup_eq_some_iff.mp hlookup
      have hmem : (r.status, text) ∈ httpStatusText := by
        rw [hsplit]
        simp
      exact of_decide_eq_true (List.all_eq_true.mp htable _ hmem)
  unfold detailOf
  split
  · unfold points
    rw [Ne, List.map_eq_nil_iff]
    exact htext
  · rename_i hne
    exact hne

theorem extractDetail_cases (env : Env) (r : Response) :
    (∃ s, extractDetail env r.bodyBytes r.contentType = points s) ∨
      StringDetail env.refuses r (extractDetail env r.bodyBytes r.contentType) := by
  unfold extractDetail
  split
  · exact Or.inl ⟨[], rfl⟩
  · split
    · split
      · rename_i pairs hread
        split
        · rename_i detail hmember
          refine Or.inr ⟨pairs, ?_, hmember⟩
          exact (depth_guard env.refuses _).same _ hread
        · exact Or.inl ⟨_, rfl⟩
        · exact Or.inl ⟨_, rfl⟩
        · exact Or.inl ⟨_, rfl⟩
      · exact Or.inl ⟨_, rfl⟩
    · exact Or.inl ⟨_, rfl⟩

theorem detailOf_paired (env : Env) (r : Response) : Paired (detailOf env r) := by
  unfold detailOf
  split
  · exact paired_points _
  · rcases extractDetail_cases env r with ⟨s, hs⟩ | hstring
    · have hpaired := paired_points s
      rw [← hs] at hpaired
      exact hpaired
    · exact hstring.spelled.1

/-- The detail of a body is found when the type names JSON and the body is not too deep. -/
theorem extractDetail_of_string {pairs : List (List Nat × Tree)} {d : List Nat}
    (hne : r.bodyBytes ≠ []) (hbody : ObjectBody env.refuses r pairs)
    (hmember : member pairs "detail" = some (.str d)) :
    extractDetail env r.bodyBytes r.contentType =
      if namesJson env r.contentType = true ∧ ((Tree.obj pairs).depth : Int) ≤ maxJsonDepth
      then d else points (decodeReplace r.bodyBytes) := by
  have hparse : ((parse env.refuses (decodeReplace r.bodyBytes)).exec 0).1 = .ok (.obj pairs) := by
    rw [← jsonLoads_eq]
    exact hbody
  have hpasses := passes_iff_of_reads hparse
  unfold extractDetail
  rw [if_neg hne]
  by_cases hjson : namesJson env r.contentType = true
  · rw [if_pos hjson]
    by_cases hdepth : ((Tree.obj pairs).depth : Int) ≤ maxJsonDepth
    · rw [if_pos ⟨hjson, hdepth⟩, limitedDecode_of_passes (hpasses.mpr hdepth), hparse]
      dsimp only
      rw [hmember]
    · have hrefused : checkDepth (decodeReplace r.bodyBytes) = none := by
        rw [← Option.not_isSome_iff_eq_none]
        exact fun h => hdepth (hpasses.mp h)
      rw [if_neg (fun h => hdepth h.2), limitedDecode_of_refused hrefused]
  · rw [if_neg hjson, if_neg (fun h => hjson h.1)]

/-- The envelope has the original's detail exactly when that is found. -/
theorem detailOf_eq_iff {pairs : List (List Nat × Tree)} {d : List Nat}
    (hne : r.bodyBytes ≠ []) (hbody : ObjectBody env.refuses r pairs)
    (hmember : member pairs "detail" = some (.str d)) (hd : d ≠ []) :
    detailOf env r = d ↔
      namesJson env r.contentType = true ∧ ((Tree.obj pairs).depth : Int) ≤ maxJsonDepth := by
  have hextract := extractDetail_of_string hne hbody hmember
  have hlen := (StringDetail.spelled ⟨pairs, hbody, hmember⟩).2
  have hkeep : ∀ {l : List Nat}, extractDetail env r.bodyBytes r.contentType = l → l ≠ [] →
      detailOf env r = l := by
    intro l hl hlne
    unfold detailOf
    split
    · rename_i hnil
      exact absurd (hl.symm.trans hnil) hlne
    · exact hl
  by_cases hfound : namesJson env r.contentType = true ∧
      ((Tree.obj pairs).depth : Int) ≤ maxJsonDepth
  · rw [if_pos hfound] at hextract
    exact iff_of_true (hkeep hextract hd) hfound
  · rw [if_neg hfound] at hextract
    have hlonger : d.length < (points (decodeReplace r.bodyBytes)).length := by
      unfold points
      rw [List.length_map]
      exact hlen
    refine iff_of_false (fun heq => ?_) hfound
    rw [hkeep hextract (List.ne_nil_of_length_pos (Nat.zero_lt_of_lt hlonger))] at heq
    rw [heq] at hlonger
    exact lt_irrefl _ hlonger

end

/-! ## Well-formed envelopes -/

/-- The number that a `Content-Length` states. -/
def announced (value : Str) : Option Nat :=
  if value ≠ [] ∧ value.all Char.isDigit then some (Nat.ofDigitChars 10 value 0) else none

def blank (c : Char) : Bool := c = ' ' ∨ c = '\t'

/-- The type and subtype of a `Content-Type`, in lower case. -/
def essence (value : Str) : Str :=
  ((((value.takeWhile (· != ';')).dropWhile blank).reverse.dropWhile blank).reverse).map
    Char.toLower

/-- The media types of JSON. -/
def JsonType (value : Str) : Prop :=
  essence value = "application/json".toList ∨ essence value = "text/json".toList ∨
    "+json".toList.isSuffixOf (essence value) = true

/-- What the answer promises, beside the response that it stands for. A detail that is the empty
string counts as none. -/
structure WellFormed (refuses : Str → Bool) (original answer : Response) : Prop where
  status : answer.status = original.status
  document : ∃ pairs, ObjectBody refuses answer pairs ∧
    ∃ d, d ≠ [] ∧ member pairs "detail" = some (.str d) ∧
      ∀ d', StringDetail refuses original d' → d' ≠ [] → d = d'
  length : ∀ value, answer.header "content-length" = some value →
    announced value = some answer.bodyBytes.length
  type : ∃ value, answer.header "content-type" = some value ∧ JsonType value

/-- The length of the envelope, from what it is made of. -/
def envelopeLength (env : Env) (r : Response) : Nat :=
  62 + stringWidth (points (errorCodeFor r.status)) + 2 * stringWidth (detailOf env r) +
    optionalWidth (requestIdOf env r)

/-- The headers of a response suit the envelope, and its detail can be found. -/
structure Suits (env : Env) (r : Response) : Prop where
  length : ∀ value, r.header "content-length" = some value →
    announced value = some (envelopeLength env r)
  type : ∀ value, r.header "content-type" = some value → JsonType value
  detail : ∀ pairs d, ObjectBody env.refuses r pairs → member pairs "detail" = some (.str d) →
    d ≠ [] → namesJson env r.contentType = true ∧ ((Tree.obj pairs).depth : Int) ≤ maxJsonDepth

section

variable (env : Env) (r : Response)

theorem announced_itoa (n : Nat) : announced (itoa (n : Int)) = some n := by
  have hdigits : (itoa (n : Int)).all Char.isDigit = true := by
    rw [List.all_eq_true]
    exact fun c hc => isDigit_of_mem_toDigits hc
  have hne : itoa (n : Int) ≠ [] := Nat.toDigits_ne_nil
  unfold announced
  rw [if_pos ⟨hne, hdigits⟩]
  exact congrArg some Nat.ofDigitChars_ten_toDigits

theorem le_envelopeLength : 62 ≤ envelopeLength env r := by
  unfold envelopeLength
  omega

theorem length_wrapped : (wrapped env r).bodyBytes.length = envelopeLength env r := by
  show (utf8 (envelopeText _ _ _)).length = _
  rw [utf8_of_ascii (envelopeText_ascii _ _ _), List.length_map, length_envelopeText,
    envelopeLength]

theorem wrapped_object :
    ObjectBody env.refuses (wrapped env r)
      (envelopePairs (errorCodeFor r.status) (detailOf env r) (requestIdOf env r)) := by
  show ((jsonLoads env.refuses (decodeReplace (utf8 _))).exec 0).1 = _
  rw [decodeReplace_utf8 (envelopeText_ascii _ _ _)]
  exact envelopeText_reads (detailOf_paired env r) _

theorem member_envelopePairs (code : Str) (detail : List Nat) (requestId : Option Str) :
    member (envelopePairs code detail requestId) "detail" = some (.str detail) := by
  unfold member envelopePairs
  rw [List.reverse_cons, List.reverse_cons, List.reverse_nil, List.nil_append,
    List.singleton_append, List.lookup_cons_self]

variable {env r}

theorem header_kept {name : String} {value : Str} (h : r.header name = some value) :
    (wrapped env r).header name = some value :=
  env.initHeaders.keeps ((lookup_dictOf r.headers name.toList).trans h)

theorem length_added {value : Str} (h : r.header "content-length" = none)
    (hvalue : (wrapped env r).header "content-length" = some value) :
    value = itoa ((wrapped env r).bodyBytes.length : Int) :=
  env.initHeaders.length ((lookup_dictOf r.headers _).trans h) hvalue

theorem type_added (h : r.header "content-type" = none) :
    (wrapped env r).header "content-type" = some "application/json".toList :=
  env.initHeaders.type ((lookup_dictOf r.headers _).trans h)

/-- The new length is the one that the old headers state, or else that of the new body. -/
theorem length_states_iff :
    (∀ value, (wrapped env r).header "content-length" = some value →
      announced value = some (wrapped env r).bodyBytes.length) ↔
    ∀ value, r.header "content-length" = some value →
      announced value = some (envelopeLength env r) := by
  constructor
  · intro h value hvalue
    rw [h value (header_kept hvalue), length_wrapped]
  · intro h value hvalue
    cases hheader : r.header "content-length" with
    | none => rw [length_added hheader hvalue, announced_itoa]
    | some old =>
      have hsame := (header_kept hheader).symm.trans hvalue
      cases hsame
      rw [h _ hheader, length_wrapped]

theorem type_json_iff :
    (∃ value, (wrapped env r).header "content-type" = some value ∧ JsonType value) ↔
      ∀ value, r.header "content-type" = some value → JsonType value := by
  constructor
  · rintro ⟨new, hnew, hjson⟩ value hvalue
    have hsame := (header_kept hvalue).symm.trans hnew
    cases hsame
    exact hjson
  · intro h
    cases hheader : r.header "content-type" with
    | none => exact ⟨_, type_added hheader, Or.inl rfl⟩
    | some value => exact ⟨value, header_kept hheader, h value hheader⟩

/-- The envelope repeats the detail of the original exactly when that can be found. -/
theorem document_iff (hne : r.bodyBytes ≠ []) :
    (∃ pairs, ObjectBody env.refuses (wrapped env r) pairs ∧
      ∃ d, d ≠ [] ∧ member pairs "detail" = some (.str d) ∧
        ∀ d', StringDetail env.refuses r d' → d' ≠ [] → d = d') ↔
    ∀ pairs d, ObjectBody env.refuses r pairs → member pairs "detail" = some (.str d) → d ≠ [] →
      namesJson env r.contentType = true ∧ ((Tree.obj pairs).depth : Int) ≤ maxJsonDepth := by
  have hobject := wrapped_object env r
  have hmember := member_envelopePairs (errorCodeFor r.status) (detailOf env r)
    (requestIdOf env r)
  constructor
  · rintro ⟨pairs', hpairs', d, -, hd, hdetail⟩ pairs d' hbody hstring hd'
    have hsame := hobject.symm.trans hpairs'
    cases hsame
    have hdetails := hmember.symm.trans hd
    cases hdetails
    exact (detailOf_eq_iff hne hbody hstring hd').mp (hdetail d' ⟨pairs, hbody, hstring⟩ hd')
  · intro h
    refine ⟨_, hobject, detailOf env r, detailOf_ne_nil env r, hmember, ?_⟩
    rintro d ⟨pairs, hbody, hstring⟩ hd
    exact (detailOf_eq_iff hne hbody hstring hd).mpr (h pairs d hbody hstring hd)

/-- What the middleware wraps is well-formed exactly when the headers of the old response suit
the envelope and its detail can be found. -/
theorem well_formed_iff {path : Str} (h : Wraps env path r) :
    WellFormed env.refuses r (dispatch env path r) ↔ Suits env r := by
  rw [dispatch_of_wraps h]
  constructor
  · intro hwell
    exact {
      length := length_states_iff.mp hwell.length
      type := type_json_iff.mp hwell.type
      detail := (document_iff h.body).mp hwell.document
    }
  · intro hsuits
    exact {
      status := rfl
      document := (document_iff h.body).mpr hsuits.detail
      length := length_states_iff.mpr hsuits.length
      type := type_json_iff.mpr hsuits.type
    }

end

/-! ## A response of FastAPI -/

/-- The content type of a media type: text gets a charset unless it names one. -/
def contentType (mediaType : Str) : Str :=
  if "text/".toList <+: mediaType ∧ ¬ "charset=".toList <:+: mediaType.map Char.toLower then
    mediaType ++ "; charset=utf-8".toList
  else mediaType

/-- `Response.init_headers` of Starlette. -/
def starletteRun (status : Nat) (content : Bytes) (mediaType : Str) (headers : Headers) : Headers :=
  headers ++
    (if headers.lookup "content-length".toList = none ∧
        ¬ (status < 200 ∨ status = 204 ∨ status = 304)
      then [("content-length".toList, itoa content.length)] else []) ++
    (if headers.lookup "content-type".toList = none
      then [("content-type".toList, contentType mediaType)] else [])

section

variable {status : Nat} {content : Bytes} {mediaType : Str} {headers : Headers}

theorem starletteRun_keeps {name value : Str} (h : headers.lookup name = some value) :
    (starletteRun status content mediaType headers).lookup name = some value := by
  rw [starletteRun, List.lookup_append, List.lookup_append, h]
  rfl

theorem starletteRun_length {value : Str} (h : headers.lookup "content-length".toList = none)
    (hvalue : (starletteRun status content mediaType headers).lookup "content-length".toList =
      some value) : value = itoa (content.length : Int) := by
  have htype : "content-length".toList ≠ "content-type".toList := by decide
  rw [starletteRun, List.lookup_append, List.lookup_append, h, Option.none_or] at hvalue
  have hother : (if headers.lookup "content-type".toList = none
      then [("content-type".toList, contentType mediaType)] else []).lookup "content-length".toList = none := by
    split
    · rw [List.lookup_cons, beq_false_of_ne htype]
      rfl
    · rfl
  rw [hother, Option.or_none] at hvalue
  split at hvalue
  · rw [List.lookup_cons_self] at hvalue
    cases hvalue
    rfl
  · cases hvalue

theorem contentType_json : contentType "application/json".toList = "application/json".toList :=
  if_neg fun h => absurd h.1 (by decide)

theorem starletteRun_type (h : headers.lookup "content-type".toList = none) :
    (starletteRun status content mediaType headers).lookup "content-type".toList =
      some (contentType mediaType) := by
  have hlength : "content-type".toList ≠ "content-length".toList := by decide
  rw [starletteRun, List.lookup_append, List.lookup_append, h, Option.none_or, if_pos rfl,
    List.lookup_cons_self]
  split
  · rw [List.lookup_cons, beq_false_of_ne hlength]
    rfl
  · rfl

end

def starletteHeaders : InitHeaders where
  run := starletteRun
  keeps := starletteRun_keeps
  length := starletteRun_length
  type := fun h => (starletteRun_type h).trans (congrArg some contentType_json)

def sampleEnv : Env where
  setting := some "1".toList
  boundId := none
  finalSigma := fun _ _ => false
  refuses := fun _ => false
  serialise := fun _ => "null".toList
  initHeaders := starletteHeaders

/-- `HTTPException(404)`, as FastAPI renders it, with the headers that it was sent with. -/
def notFound (headers : Headers) : Response where
  status := 404
  headers := headers
  body := .iterator [.bytes (lit "\x7b\"detail\":\"Not Found\"\x7d")]

theorem notFound_wraps (headers : Headers) :
    Wraps sampleEnv "/api/v1/rules".toList (notFound headers) where
  enabled := by decide
  error := Nat.le_of_ble_eq_true rfl
  included := by decide
  body := by
    have hbody : drainBody [.bytes (lit "\x7b\"detail\":\"Not Found\"\x7d")] ≠ [] := by
      decide
    exact hbody

/-- The old body has 22 bytes, and the envelope of it keeps that number. -/
theorem old_length_kept :
    Wraps sampleEnv "/api/v1/rules".toList (notFound [
      ("content-length".toList, "22".toList), ("content-type".toList, "application/json".toList)]) ∧
    ¬ WellFormed sampleEnv.refuses
      (notFound [("content-length".toList, "22".toList),
        ("content-type".toList, "application/json".toList)])
      (dispatch sampleEnv "/api/v1/rules".toList (notFound [
        ("content-length".toList, "22".toList),
        ("content-type".toList, "application/json".toList)])) := by
  have hwraps := notFound_wraps [
    ("content-length".toList, "22".toList), ("content-type".toList, "application/json".toList)]
  refine ⟨hwraps, fun hwell => ?_⟩
  have hold : announced "22".toList = some 22 := by decide +kernel
  have hlength := hwell.length
  rw [dispatch_of_wraps hwraps, length_states_iff] at hlength
  have hstated := hlength "22".toList rfl
  rw [hold, Option.some.injEq] at hstated
  have hleast := le_envelopeLength sampleEnv (notFound [
    ("content-length".toList, "22".toList), ("content-type".toList, "application/json".toList)])
  rw [← hstated] at hleast
  exact absurd hleast (by decide)

/-- Without the old length, the envelope is well-formed. -/
theorem streamed_well_formed :
    WellFormed sampleEnv.refuses
      (notFound [("content-type".toList, "application/json".toList)])
      (dispatch sampleEnv "/api/v1/rules".toList
        (notFound [("content-type".toList, "application/json".toList)])) := by
  have hlength : (notFound [("content-type".toList, "application/json".toList)]).header
      "content-length" = none := by decide +kernel
  have htype : (notFound [("content-type".toList, "application/json".toList)]).header
      "content-type" = some "application/json".toList := by decide +kernel
  refine (well_formed_iff (notFound_wraps _)).mpr ⟨?_, ?_, ?_⟩
  · intro value hvalue
    rw [hlength] at hvalue
    cases hvalue
  · intro value hvalue
    have hessence : essence "application/json".toList = "application/json".toList := by
      decide +kernel
    rw [htype, Option.some.injEq] at hvalue
    rw [← hvalue]
    exact Or.inl hessence
  · intro pairs d hbody hmember hd
    have hjson : namesJson sampleEnv "application/json".toList = true := by decide +kernel
    have hpasses : (checkDepth (decodeReplace
        (drainBody [.bytes (lit "\x7b\"detail\":\"Not Found\"\x7d")]))).isSome = true := by
      decide +kernel
    rw [ObjectBody, jsonLoads_eq] at hbody
    rw [Response.contentType, htype]
    exact ⟨hjson, (passes_iff_of_reads hbody).mp hpasses⟩

end ZaqorinCore.Server.ErrorEnvelope
