import PPBase.Url

/-!
# The request log

`RequestLoggerMiddleware` writes an entry for each request : the URL and the referer with the
values of sensitive keys redacted, and small bodies of requests and responses. A body is redacted
only after it has been parsed as JSON; other bodies are logged as they are.
-/

namespace PPBase

namespace RequestLog

/-- A parsed JSON value. -/
inductive Json
  | null
  | bool (b : Bool)
  | num (literal : Text)
  | str (s : Text)
  | arr (items : List Json)
  | obj (members : List (Text × Json))

/-- The conversions of the standard library. -/
structure Codec extends Url.Codec where
  lower : Text → Text
  lower_ascii : ∀ s : Text, s.all (fun c => c.toNat < 128) = true → lower s = Text.lower s
  isalnum : Char → Bool
  isalnum_ascii : ∀ c : Char, c.toNat < 128 → isalnum c = c.isAlphanum
  /-- `int(raw)` -/
  int : Text → Option Int
  /-- `body.decode("utf-8", errors="replace")` -/
  decodeUtf8 : List UInt8 → Text
  /-- `json.loads`. None if it raises `JSONDecodeError`. -/
  loads : Text → Option Json

/-- `_SKIP_PREFIXES` -/
def skipPrefixes : List Text := ["/_/".toList, "/api/health".toList, "/api/realtime".toList]

/-- `_AUTH_BEFORE_BODY_PREFIXES` -/
def authBeforeBodyPrefixes : List Text := ["/api/backups".toList]

/-- `_MAX_CAPTURE_BYTES` -/
def maxCaptureBytes : ℕ := 32 * 1024

/-- `_CAPTURE_CONTENT_TYPES` -/
def captureContentTypes : List Text :=
  ["application/json".toList, "application/x-www-form-urlencoded".toList, "text/".toList]

/-- `_SENSITIVE_KEYS` -/
def sensitiveKeys : List Text :=
  ["password".toList, "passwordconfirm".toList, "token".toList, "tokensecret".toList,
    "secret".toList, "authorization".toList, "cookie".toList, "apikey".toList, "api_key".toList,
    "clientsecret".toList, "client_secret".toList, "accesstoken".toList, "access_token".toList,
    "refreshtoken".toList, "refresh_token".toList, "codeverifier".toList, "code_verifier".toList]

/-- `_normalize_key` -/
def normalizeKey (K : Codec) (key : Text) : Text :=
  (K.lower key).filter fun c => K.isalnum c || c = '_'

/-- `_is_sensitive_key` -/
def isSensitiveKey (K : Codec) (key : Text) : Bool :=
  sensitiveKeys.any fun s => Text.contains s (normalizeKey K key)

def redacted : Text := "[REDACTED]".toList

mutual

/-- `_redact_sensitive` -/
def redactSensitive (K : Codec) : Json → Json
  | .obj members => .obj (redactMembers K members)
  | .arr items => .arr (redactItems K items)
  | .null => .null
  | .bool b => .bool b
  | .num n => .num n
  | .str s => .str s

def redactItems (K : Codec) : List Json → List Json
  | [] => []
  | j :: items => redactSensitive K j :: redactItems K items

def redactMembers (K : Codec) : List (Text × Json) → List (Text × Json)
  | [] => []
  | (k, j) :: members =>
    (k, if isSensitiveKey K k then .str redacted else redactSensitive K j) :: redactMembers K members

end

/-- A field of a query, redacted. -/
def redactField (K : Codec) (e : Text × Text) : Text × Text :=
  (e.1, if isSensitiveKey K e.1 then redacted else e.2)

/-- `_redact_url_query` -/
def redactUrlQuery (K : Codec) (url : Text) : Text :=
  match Url.urlsplit K.toCodec url with
  | none => "[REDACTED MALFORMED URL]".toList
  | some parts =>
    if '@' ∈ parts.netloc then "[REDACTED URL CREDENTIALS]".toList
    else if parts.query = [] then Url.urlunsplit parts.scheme parts.netloc parts.path []
    else
      Url.urlunsplit parts.scheme parts.netloc parts.path
        (Url.urlencode ((Url.parseQsl K.toCodec parts.query).map (redactField K)))

/-- `_parse_content_length` -/
def parseContentLength (K : Codec) (raw : Option Text) : Option ℕ :=
  raw.bind fun s => (K.int s).bind fun n => if 0 ≤ n then some n.toNat else none

/-- `_normalized_content_type` -/
def normalizedContentType (K : Codec) (contentType : Option Text) : Text :=
  match contentType with
  | none => []
  | some s => if s = [] then [] else K.lower (Text.strip (Text.before ';' s))

/-- `_is_capture_content_type` -/
def isCaptureContentType (K : Codec) (contentType : Option Text) : Bool :=
  let type := normalizedContentType K contentType
  type ≠ [] && captureContentTypes.any fun allowed => type = allowed || allowed.isPrefixOf type

/-- `_should_capture_body` -/
def shouldCaptureBody (K : Codec) (contentType : Option Text) (contentLength : Option ℕ) : Bool :=
  (contentLength.any fun n => n ≤ maxCaptureBytes) && isCaptureContentType K contentType

/-- The preview of a body that is too long. -/
def truncated (K : Codec) (body : List UInt8) : Json :=
  .obj [("_truncated".toList, .bool true), ("size".toList, .num (toString body.length).toList),
    ("preview".toList, .str (K.decodeUtf8 (body.take maxCaptureBytes)))]

/-- `_decode_body` -/
def decodeBody (K : Codec) (body : List UInt8) (contentType : Option Text) : Json :=
  if body = [] then .null
  else if maxCaptureBytes < body.length then truncated K body
  else
    let text := K.decodeUtf8 body
    if normalizedContentType K contentType = "application/json".toList then
      (K.loads text).getD (.str text)
    else .str text

/-- A request as the middleware reads it. -/
structure Request where
  method : Text
  /-- `str(request.url)` -/
  url : Text
  contentLength : Option Text
  contentType : Option Text
  referer : Option Text
  userAgent : Option Text
  client : Option Text
  body : List UInt8

structure Response where
  status : ℕ
  contentLength : Option Text
  contentType : Option Text
  body : List UInt8

/-- What is written to `_requests`. -/
structure Entry where
  url : Text
  method : Text
  status : ℕ
  execTime : Text
  remoteIp : Option Text
  referer : Option Text
  userAgent : Option Text
  requestBody : Json
  responseBody : Json

/-- The body of the request is captured. -/
def shouldCaptureRequest (K : Codec) (path : Text) (req : Request) : Bool :=
  !(authBeforeBodyPrefixes.any fun p => p.isPrefixOf path) &&
    shouldCaptureBody K req.contentType (parseContentLength K req.contentLength)

def requestPayload (K : Codec) (path : Text) (req : Request) : Json :=
  if shouldCaptureRequest K path req then redactSensitive K (decodeBody K req.body req.contentType)
  else .null

def responsePayload (K : Codec) (resp : Response) : Json :=
  let contentLength := parseContentLength K resp.contentLength
  if shouldCaptureBody K resp.contentType contentLength then
    redactSensitive K (decodeBody K resp.body resp.contentType)
  else
    match contentLength with
    | none => .null
    | some n =>
      if isCaptureContentType K resp.contentType = true ∧ maxCaptureBytes < n then
        .obj [("_truncated".toList, .bool true), ("size".toList, .num (toString n).toList),
          ("contentType".toList, .str (normalizedContentType K resp.contentType))]
      else .null

/-- The path of a request whose URL can be split, unless it is not logged. -/
def loggedPath (K : Codec) (req : Request) : Option Text :=
  (Url.urlsplit K.toCodec req.url).bind fun parts =>
    if skipPrefixes.any fun p => p.isPrefixOf parts.path then none else some parts.path

/-- The entry that `RequestLoggerMiddleware.dispatch` builds for a request, its response and the
time between them, if any. -/
def dispatch (K : Codec) (req : Request) (resp : Response) (elapsed : Text) : Option Entry :=
  (loggedPath K req).map fun path =>
    { url := redactUrlQuery K req.url
      method := req.method
      status := resp.status
      execTime := elapsed
      remoteIp := req.client
      referer := req.referer.bind fun r => if r = [] then none else some (redactUrlQuery K r)
      userAgent := req.userAgent
      requestBody := requestPayload K path req
      responseBody := responsePayload K resp }

/-! ## Requests that differ in their secrets -/

mutual

/-- Two values that differ only in what sensitive keys carry. -/
inductive JsonAlike (K : Codec) : Json → Json → Prop
  | same (j : Json) : JsonAlike K j j
  | arr {l l' : List Json} (h : ItemsAlike K l l') : JsonAlike K (.arr l) (.arr l')
  | obj {d d' : List (Text × Json)} (h : MembersAlike K d d') : JsonAlike K (.obj d) (.obj d')

inductive ItemsAlike (K : Codec) : List Json → List Json → Prop
  | nil : ItemsAlike K [] []
  | cons {j j' : Json} {l l' : List Json} (h : JsonAlike K j j') (hl : ItemsAlike K l l') :
      ItemsAlike K (j :: l) (j' :: l')

inductive MembersAlike (K : Codec) : List (Text × Json) → List (Text × Json) → Prop
  | nil : MembersAlike K [] []
  | secret {k : Text} {j j' : Json} {d d' : List (Text × Json)} (hk : isSensitiveKey K k = true)
      (hd : MembersAlike K d d') : MembersAlike K ((k, j) :: d) ((k, j') :: d')
  | cons {k : Text} {j j' : Json} {d d' : List (Text × Json)} (h : JsonAlike K j j')
      (hd : MembersAlike K d d') : MembersAlike K ((k, j) :: d) ((k, j') :: d')

end

/-- A text in which a sensitive member `"key": "value"` is spelled out, with another value. -/
inductive MemberAlike (K : Codec) : Text → Text → Prop
  | member {k : Text} (hk : isSensitiveKey K k = true) (a space v v' b : Text)
      (hspace : space.all Text.isSpace = true) :
      MemberAlike K (a ++ '"' :: k ++ '"' :: ':' :: space ++ '"' :: v ++ '"' :: b)
        (a ++ '"' :: k ++ '"' :: ':' :: space ++ '"' :: v' ++ '"' :: b)

/-- Two URLs that differ only in the values of sensitive keys of their queries. -/
inductive UrlAlike (K : Codec) : Text → Text → Prop
  | same (u : Text) : UrlAlike K u u
  | query {a q q' f : Text} (ha : '?' ∉ a) (haf : '#' ∉ a) (hq : '#' ∉ q) (hq' : '#' ∉ q')
      (hf : f = [] ∨ ∃ g, f = '#' :: g)
      (h : Url.QueryAlike (fun k => isSensitiveKey K (Url.decode K.toCodec (Url.removeUnsafe k)) = true)
        q q') : UrlAlike K (a ++ '?' :: (q ++ f)) (a ++ '?' :: (q' ++ f))

/-- The body is parsed as JSON. -/
def parsesBody (K : Codec) (body : List UInt8) (contentType : Option Text) : Bool :=
  body ≠ [] && body.length ≤ maxCaptureBytes &&
    normalizedContentType K contentType = "application/json".toList &&
    (K.loads (K.decodeUtf8 body)).isSome

/-- Two bodies that differ only in the values of sensitive keys : of JSON, of a form, or of a text
that is not parsed. -/
inductive BodyAlike (K : Codec) (contentType : Option Text) (b b' : List UInt8) : Prop
  | same (h : b = b')
  | json {j j' : Json} (hj : K.loads (K.decodeUtf8 b) = some j)
      (hj' : K.loads (K.decodeUtf8 b') = some j') (h : JsonAlike K j j')
  | form (htype : normalizedContentType K contentType = "application/x-www-form-urlencoded".toList)
      (h : Url.QueryAlike (fun k => isSensitiveKey K (Url.decode K.toCodec k) = true)
        (K.decodeUtf8 b) (K.decodeUtf8 b'))
  | text (hb : parsesBody K b contentType = false) (hb' : parsesBody K b' contentType = false)
      (h : MemberAlike K (K.decodeUtf8 b) (K.decodeUtf8 b'))

/-- Two requests that differ only in values carried under sensitive keys. -/
structure Alike (K : Codec) (r r' : Request) : Prop where
  method : r.method = r'.method
  url : UrlAlike K r.url r'.url
  contentType : r.contentType = r'.contentType
  referer : Option.Rel (UrlAlike K) r.referer r'.referer
  userAgent : r.userAgent = r'.userAgent
  client : r.client = r'.client
  body : BodyAlike K r.contentType r.body r'.body
  /-- The middleware captures both bodies or neither. -/
  captured : shouldCaptureBody K r.contentType (parseContentLength K r.contentLength) =
    shouldCaptureBody K r'.contentType (parseContentLength K r'.contentLength)

section

variable {K : Codec}

mutual

/-- Redaction removes the difference. -/
theorem redactSensitive_eq : ∀ {j j' : Json}, JsonAlike K j j' →
    redactSensitive K j = redactSensitive K j'
  | _, _, .same _ => rfl
  | _, _, .arr h => congrArg Json.arr (redactItems_eq h)
  | _, _, .obj h => congrArg Json.obj (redactMembers_eq h)

theorem redactItems_eq : ∀ {l l' : List Json}, ItemsAlike K l l' →
    redactItems K l = redactItems K l'
  | _, _, .nil => rfl
  | _, _, .cons h hl => congrArg₂ List.cons (redactSensitive_eq h) (redactItems_eq hl)

theorem redactMembers_eq : ∀ {d d' : List (Text × Json)}, MembersAlike K d d' →
    redactMembers K d = redactMembers K d'
  | _, _, .nil => rfl
  | _, _, .secret hk hd => by
    unfold redactMembers
    rw [if_pos hk, if_pos hk, redactMembers_eq hd]
  | _, _, .cons h hd => by
    unfold redactMembers
    rw [redactSensitive_eq h, redactMembers_eq hd]

end

/-- A URL is logged as it is split. -/
theorem redactUrlQuery_eq (u : Text) : redactUrlQuery K u =
    match Url.urlsplit K.toCodec u with
    | none => "[REDACTED MALFORMED URL]".toList
    | some parts =>
      if '@' ∈ parts.netloc then "[REDACTED URL CREDENTIALS]".toList
      else Url.urlunsplit parts.scheme parts.netloc parts.path
        (Url.urlencode ((Url.parseQsl K.toCodec parts.query).map (redactField K))) := by
  unfold redactUrlQuery
  cases Url.urlsplit K.toCodec u with
  | none => rfl
  | some parts =>
    dsimp only
    by_cases hq : parts.query = []
    · rw [if_pos hq, hq]
      rfl
    · rw [if_neg hq]

/-- The URLs have the same parts but for the query, whose fields are redacted to the same. -/
theorem urlsplit_alike {u u' : Text} (h : UrlAlike K u u') :
    Option.Rel (fun r r' : Url.SplitResult => r.scheme = r'.scheme ∧ r.netloc = r'.netloc ∧
        r.path = r'.path ∧ (Url.parseQsl K.toCodec r.query).map (redactField K) =
          (Url.parseQsl K.toCodec r'.query).map (redactField K))
      (Url.urlsplit K.toCodec u) (Url.urlsplit K.toCodec u') := by
  cases h with
  | same u =>
    cases Url.urlsplit K.toCodec u with
    | none => exact .none
    | some r => exact .some ⟨rfl, rfl, rfl, rfl⟩
  | @query a q q' f ha haf hq hq' hf h =>
    have hclean : Url.QueryAlike (fun k => isSensitiveKey K (Url.decode K.toCodec k) = true)
        (Url.removeUnsafe q) (Url.removeUnsafe q') := Url.queryAlike_removeUnsafe h
    rw [Url.urlsplit_query _ ha haf hq hf, Url.urlsplit_query _ ha haf hq' hf]
    cases Url.urlsplit K.toCodec _ with
    | none => exact .none
    | some r =>
      refine .some ⟨rfl, rfl, rfl, ?_⟩
      refine Url.map_parseQsl ?_ hclean
      intro k v v' hk
      unfold redactField
      rw [if_pos hk, if_pos hk]

/-- URLs that differ in secrets are logged alike. -/
theorem redactUrlQuery_alike {u u' : Text} (h : UrlAlike K u u') :
    redactUrlQuery K u = redactUrlQuery K u' := by
  have hrel := urlsplit_alike h
  rw [redactUrlQuery_eq, redactUrlQuery_eq]
  generalize Url.urlsplit K.toCodec u = o at hrel ⊢
  generalize Url.urlsplit K.toCodec u' = o' at hrel ⊢
  cases hrel with
  | none => rfl
  | some hparts =>
    obtain ⟨hscheme, hnetloc, hpath, hquery⟩ := hparts
    dsimp only
    rw [hscheme, hnetloc, hpath, hquery]

theorem loggedPath_alike {r r' : Request} (h : Alike K r r') : loggedPath K r = loggedPath K r' := by
  have hrel := urlsplit_alike h.url
  unfold loggedPath
  generalize Url.urlsplit K.toCodec r.url = o at hrel ⊢
  generalize Url.urlsplit K.toCodec r'.url = o' at hrel ⊢
  cases hrel with
  | none => rfl
  | some hparts => rw [Option.bind_some, Option.bind_some, hparts.2.2.1]

theorem referer_alike {o o' : Option Text} (h : Option.Rel (UrlAlike K) o o') :
    (o.bind fun r => if r = [] then none else some (redactUrlQuery K r)) =
      o'.bind fun r => if r = [] then none else some (redactUrlQuery K r) := by
  cases h with
  | none => rfl
  | some h =>
    rw [Option.bind_some, Option.bind_some, redactUrlQuery_alike h]
    cases h with
    | same u => rfl
    | query =>
      have hne : ∀ a b : Text, a ++ '?' :: b ≠ [] := fun a b =>
        List.append_ne_nil_of_right_ne_nil _ (List.cons_ne_nil _ _)
      rw [if_neg (hne _ _), if_neg (hne _ _)]

/-- What is logged of a body that has not been parsed. -/
inductive Raw (K : Codec) : Json → Prop
  | null : Raw K .null
  | str (s : Text) : Raw K (.str s)
  | truncated (body : List UInt8) : Raw K (truncated K body)

variable {b : List UInt8} {t : Option Text}

theorem decodeBody_of_parses (h : parsesBody K b t = true) :
    K.loads (K.decodeUtf8 b) = some (decodeBody K b t) := by
  simp only [parsesBody, Bool.and_eq_true, decide_eq_true_eq] at h
  obtain ⟨⟨⟨hne, hlen⟩, htype⟩, hsome⟩ := h
  obtain ⟨j, hj⟩ := Option.isSome_iff_exists.1 hsome
  unfold decodeBody
  rw [if_neg hne, if_neg (Nat.not_lt.2 hlen)]
  dsimp only
  rw [if_pos htype, hj, Option.getD_some]

theorem raw_decodeBody (h : parsesBody K b t = false) : Raw K (decodeBody K b t) := by
  unfold decodeBody
  dsimp only
  split_ifs with hnil hlong htype
  · exact .null
  · exact .truncated b
  · cases hloads : K.loads (K.decodeUtf8 b) with
    | none => exact .str _
    | some j =>
      have hparses : parsesBody K b t = true := by
        simp only [parsesBody, Bool.and_eq_true, decide_eq_true_eq]
        exact ⟨⟨⟨hnil, Nat.not_lt.1 hlong⟩, htype⟩, by rw [hloads]; rfl⟩
      rw [h] at hparses
      cases hparses
  · exact .str _

/-- Keys of letters, digits and underscores are sensitive as they are spelled. -/
theorem isSensitiveKey_of_ascii {k : Text} (h : k.all (fun c => c.toNat < 128) = true)
    (hlower : (Text.lower k).all (fun c => c.toNat < 128) = true) : isSensitiveKey K k =
      sensitiveKeys.any fun s =>
        Text.contains s ((Text.lower k).filter fun c => c.isAlphanum || c = '_') := by
  have hfilter : (Text.lower k).filter (fun c => K.isalnum c || c = '_') =
      (Text.lower k).filter fun c => c.isAlphanum || c = '_' := by
    refine List.filter_congr fun c hc => ?_
    rw [K.isalnum_ascii c (of_decide_eq_true (List.all_eq_true.1 hlower c hc))]
  unfold isSensitiveKey normalizeKey
  rw [K.lower_ascii k h, hfilter]

/-- A value without parts. -/
def isScalar : Json → Bool
  | .arr _ | .obj _ => false
  | _ => true

/-- Scalars stay as they are, and nothing else is redacted to one. -/
theorem redactSensitive_eq_scalar {j s : Json} (hs : isScalar s = true) :
    redactSensitive K j = s ↔ j = s := by
  cases j with
  | arr items =>
    unfold redactSensitive
    constructor
    · rintro rfl
      cases hs
    · rintro rfl
      cases hs
  | obj members =>
    unfold redactSensitive
    constructor
    · rintro rfl
      cases hs
    · rintro rfl
      cases hs
  | _ => rfl

theorem redactMembers_eq_plain : ∀ {m : List (Text × Json)},
    (∀ e ∈ m, isSensitiveKey K e.1 = false ∧ isScalar e.2 = true) → ∀ {d : List (Text × Json)},
      redactMembers K d = m ↔ d = m
  | [], _, [] => Iff.rfl
  | [], _, _ :: _ => by simp [redactMembers]
  | _ :: _, _, [] => by simp [redactMembers]
  | (k, s) :: m, hm, (k', j) :: d => by
    have ih := redactMembers_eq_plain (fun e he => hm e (List.mem_cons_of_mem _ he)) (d := d)
    obtain ⟨hk, hs⟩ := hm _ List.mem_cons_self
    unfold redactMembers
    rw [List.cons.injEq, List.cons.injEq, Prod.mk.injEq, Prod.mk.injEq, ih]
    refine and_congr_left fun _ => and_congr_right ?_
    rintro rfl
    rw [if_neg (by rw [hk]; exact Bool.false_ne_true), redactSensitive_eq_scalar hs]

/-- Raw text stays as it is, and nothing else is redacted to it. -/
theorem redactSensitive_eq_raw {j raw : Json} (hraw : Raw K raw) :
    redactSensitive K j = raw ↔ j = raw := by
  cases hraw with
  | null => exact redactSensitive_eq_scalar rfl
  | str s => exact redactSensitive_eq_scalar rfl
  | truncated body =>
    have hkeys : ∀ k ∈ ["_truncated".toList, "size".toList, "preview".toList],
        isSensitiveKey K k = false := by
      have hascii : ∀ k ∈ ["_truncated".toList, "size".toList, "preview".toList],
          k.all (fun c => c.toNat < 128) = true ∧
            (Text.lower k).all (fun c => c.toNat < 128) = true ∧
            (sensitiveKeys.any fun s => Text.contains s
              ((Text.lower k).filter fun c => c.isAlphanum || c = '_')) = false := by
        decide
      intro k hk
      obtain ⟨h, hlower, hnot⟩ := hascii k hk
      rw [isSensitiveKey_of_ascii h hlower, hnot]
    have hplain : ∀ e ∈ [("_truncated".toList, Json.bool true),
        ("size".toList, .num (toString body.length).toList),
        ("preview".toList, .str (K.decodeUtf8 (body.take maxCaptureBytes)))],
          isSensitiveKey K e.1 = false ∧ isScalar e.2 = true := by
      intro e he
      rcases List.mem_cons.1 he with rfl | he
      · exact ⟨hkeys _ List.mem_cons_self, rfl⟩
      rcases List.mem_cons.1 he with rfl | he
      · exact ⟨hkeys _ (List.mem_cons_of_mem _ List.mem_cons_self), rfl⟩
      · obtain rfl := List.mem_singleton.1 he
        exact ⟨hkeys _ (List.mem_cons_of_mem _ (List.mem_cons_of_mem _ List.mem_cons_self)), rfl⟩
    unfold truncated
    cases j with
    | obj d =>
      unfold redactSensitive
      rw [Json.obj.injEq, Json.obj.injEq]
      exact redactMembers_eq_plain hplain
    | _ => simp [redactSensitive]

/-- Bodies that are redacted to the same have both been parsed, or are the same. -/
theorem redacted_same {b' : List UInt8}
    (h : redactSensitive K (decodeBody K b t) = redactSensitive K (decodeBody K b' t)) :
    (parsesBody K b t = true ∧ parsesBody K b' t = true) ∨ decodeBody K b t = decodeBody K b' t := by
  by_cases hb : parsesBody K b t = true
  · by_cases hb' : parsesBody K b' t = true
    · exact Or.inl ⟨hb, hb'⟩
    · have hraw := raw_decodeBody (Bool.not_eq_true _ ▸ hb')
      rw [(redactSensitive_eq_raw hraw).2 rfl] at h
      exact Or.inr ((redactSensitive_eq_raw hraw).1 h)
  · have hraw := raw_decodeBody (Bool.not_eq_true _ ▸ hb)
    rw [(redactSensitive_eq_raw hraw).2 rfl] at h
    exact Or.inr ((redactSensitive_eq_raw hraw).1 h.symm).symm

/-- Parsed bodies that are alike are redacted to the same. -/
theorem redacted_of_parsed {b' : List UInt8} (h : BodyAlike K t b b') (hb : parsesBody K b t = true)
    (hb' : parsesBody K b' t = true) :
    redactSensitive K (decodeBody K b t) = redactSensitive K (decodeBody K b' t) := by
  cases h with
  | same h => rw [h]
  | json hj hj' h =>
    obtain rfl := Option.some.inj ((decodeBody_of_parses hb).symm.trans hj)
    obtain rfl := Option.some.inj ((decodeBody_of_parses hb').symm.trans hj')
    exact redactSensitive_eq h
  | form htype =>
    simp only [parsesBody, Bool.and_eq_true, decide_eq_true_eq] at hb
    rw [htype] at hb
    exact absurd hb.1.2 (by decide)
  | text hnot =>
    rw [hnot] at hb
    cases hb

/-- Requests that differ only in secrets are logged alike exactly if, where the body is captured,
both bodies are parsed as JSON or they are captured as the same text. -/
theorem entries_identical_iff (K : Codec) (r r' : Request) (h : Alike K r r') (resp : Response)
    (elapsed : Text) : dispatch K r resp elapsed = dispatch K r' resp elapsed ↔
      ∀ path, loggedPath K r = some path → shouldCaptureRequest K path r = true →
        (parsesBody K r.body r.contentType = true ∧ parsesBody K r'.body r.contentType = true) ∨
          decodeBody K r.body r.contentType = decodeBody K r'.body r.contentType := by
  have hcaptured : ∀ path, shouldCaptureRequest K path r' = shouldCaptureRequest K path r := by
    intro path
    unfold shouldCaptureRequest
    rw [h.captured]
  unfold dispatch
  rw [← loggedPath_alike h]
  cases loggedPath K r with
  | none =>
    refine ⟨fun _ path hpath => ?_, fun _ => rfl⟩
    cases hpath
  | some path =>
    rw [Option.map_some, Option.map_some, Option.some.injEq, Entry.mk.injEq,
      redactUrlQuery_alike h.url, h.method, h.client, referer_alike h.referer, h.userAgent]
    unfold requestPayload
    rw [hcaptured, ← h.contentType]
    constructor
    · rintro ⟨-, -, -, -, -, -, -, hbody, -⟩ path' hpath hcap
      obtain rfl := Option.some.inj hpath
      rw [if_pos hcap, if_pos hcap] at hbody
      exact redacted_same hbody
    · intro hcond
      refine ⟨rfl, rfl, rfl, rfl, rfl, rfl, rfl, ?_, rfl⟩
      split_ifs with hcap
      · rcases hcond path rfl hcap with ⟨hb, hb'⟩ | hsame
        · exact redacted_of_parsed h.body hb hb'
        · rw [hsame]
      · rfl

end

/-- The conversions for bodies of ASCII characters, with a parser for the bodies of the examples
below. -/
def Codec.ascii (loads : Text → Option Json) : Codec where
  unquote s := s
  netlocOk _ := true
  lower := Text.lower
  lower_ascii _ _ := rfl
  isalnum := Char.isAlphanum
  isalnum_ascii _ _ := rfl
  int s := if s ≠ [] ∧ s.all Char.isDigit then
      some (s.foldl (fun n c => 10 * n + ((c.toNat : Int) - 48)) 0) else none
  decodeUtf8 body := body.map fun b => Char.ofNat b.toNat
  loads := loads

/-- A login request with this body. -/
def login (contentType contentLength body : Text) : Request where
  method := "POST"
  url := "http://localhost/api/collections/users/auth-with-password"
  contentLength := some contentLength
  contentType := some contentType
  referer := none
  userAgent := none
  client := none
  body := body.map fun c => UInt8.ofNat c.toNat

def noContent : Response := ⟨204, none, none, []⟩

/-- The body `{"password":"a"}`, with this password. -/
def loginJson (password : Char) : Text := "\x7b\"password\":\"".toList ++ password :: "\"\x7d".toList

def loadsLogin (text : Text) : Option Json :=
  if text = loginJson 'a' then some (.obj [("password".toList, .str ['a'])])
  else if text = loginJson 'b' then some (.obj [("password".toList, .str ['b'])])
  else none

/-- Two logins with JSON bodies leave the same entry. -/
theorem json_logins_identical :
    Alike (.ascii loadsLogin) (login "application/json" "16" (loginJson 'a'))
        (login "application/json" "16" (loginJson 'b')) ∧
      dispatch (.ascii loadsLogin) (login "application/json" "16" (loginJson 'a')) noContent "0" =
        dispatch (.ascii loadsLogin) (login "application/json" "16" (loginJson 'b')) noContent "0" := by
  have halike : Alike (.ascii loadsLogin) (login "application/json" "16" (loginJson 'a'))
      (login "application/json" "16" (loginJson 'b')) :=
    ⟨rfl, .same _, rfl, .none, rfl, rfl,
      .json (show loadsLogin (loginJson 'a') = some (.obj [("password".toList, .str ['a'])]) from rfl)
        (show loadsLogin (loginJson 'b') = some (.obj [("password".toList, .str ['b'])]) from rfl)
        (.obj (.secret (by decide) .nil)), rfl⟩
  exact ⟨halike, (entries_identical_iff _ _ _ halike _ _).2 fun _ _ _ => Or.inl ⟨rfl, rfl⟩⟩

/-- A form with this password. -/
def loginForm (password : Char) : Text := "password=".toList ++ [password]

/-- Two logins with form bodies leave their passwords in the log. -/
theorem form_logins_differ :
    Alike (.ascii loadsLogin) (login "application/x-www-form-urlencoded" "10" (loginForm 'a'))
        (login "application/x-www-form-urlencoded" "10" (loginForm 'b')) ∧
      dispatch (.ascii loadsLogin) (login "application/x-www-form-urlencoded" "10" (loginForm 'a'))
          noContent "0" ≠
        dispatch (.ascii loadsLogin) (login "application/x-www-form-urlencoded" "10" (loginForm 'b'))
          noContent "0" := by
  refine ⟨⟨rfl, .same _, rfl, .none, rfl, rfl, .form rfl ?_, rfl⟩, fun h => ?_⟩
  · exact .cons (.value (k := "password".toList) (by decide) (by decide) ['a'] ['b']) .nil
  · have hpath (p : Char) : loggedPath (.ascii loadsLogin)
        (login "application/x-www-form-urlencoded" "10" (loginForm p)) =
          some "/api/collections/users/auth-with-password".toList := rfl
    have hcap (p : Char) : shouldCaptureRequest (.ascii loadsLogin)
        "/api/collections/users/auth-with-password"
          (login "application/x-www-form-urlencoded" "10" (loginForm p)) = true := rfl
    have hlogged (p : Char) : (dispatch (.ascii loadsLogin)
        (login "application/x-www-form-urlencoded" "10" (loginForm p)) noContent "0").map
          Entry.requestBody = some (redactSensitive (.ascii loadsLogin) (decodeBody (.ascii loadsLogin)
            ((loginForm p).map fun c => UInt8.ofNat c.toNat)
            (some "application/x-www-form-urlencoded".toList))) := by
      unfold dispatch requestPayload
      rw [hpath, Option.map_some, Option.map_some, hcap, if_pos rfl]
      rfl
    have hsame := (hlogged 'a').symm.trans
      ((congrArg (Option.map Entry.requestBody) h).trans (hlogged 'b'))
    have ha : decodeBody (.ascii loadsLogin) ((loginForm 'a').map fun c => UInt8.ofNat c.toNat)
        (some "application/x-www-form-urlencoded".toList) = .str (loginForm 'a') := rfl
    have hb : decodeBody (.ascii loadsLogin) ((loginForm 'b').map fun c => UInt8.ofNat c.toNat)
        (some "application/x-www-form-urlencoded".toList) = .str (loginForm 'b') := rfl
    rw [ha, hb, Option.some.injEq, redactSensitive, redactSensitive, Json.str.injEq] at hsame
    exact absurd hsame (by decide)

end RequestLog

end PPBase
