import PPBase.Dict
import PPBase.RequestLog

/-!
# What a client sees of the request log

`RequestLoggerMiddleware` between the application and a client. A body that is logged is read before
the application reads it, and a response whose body is logged is built again (`rebuild`). An
exception of the logging is one of the request. `dispatch_eq_direct_iff` says when the client and
the application see what they would without the middleware (`direct`) : nothing that is logged
raises, and the names of the headers of a response that is built again are in lower case and
distinct (`Quiet`).
-/

namespace PPBase

namespace LogTransparency

open RequestLog

/-- What can go wrong with a body that is logged. -/
structure Python where
  codec : RequestLog.Codec
  /-- `json.loads` raises something else than `JSONDecodeError` : the nesting is too deep, or a
  number has too many digits. -/
  loadsRaises : Text → Bool
  /-- How deep the calls of `_redact_sensitive` may be nested. -/
  maxDepth : ℕ

/-! ## Bodies that are logged -/

mutual

/-- `_redact_sensitive` goes deeper than the calls that are left. -/
def tooDeep (K : RequestLog.Codec) : ℕ → RequestLog.Json → Bool
  | 0, _ => true
  | depth + 1, .obj members => tooDeepMembers K depth members
  | depth + 1, .arr items => tooDeepItems K depth items
  | _ + 1, _ => false

def tooDeepItems (K : RequestLog.Codec) : ℕ → List RequestLog.Json → Bool
  | _, [] => false
  | depth, j :: items => tooDeep K depth j || tooDeepItems K depth items

def tooDeepMembers (K : RequestLog.Codec) : ℕ → List (Text × RequestLog.Json) → Bool
  | _, [] => false
  | depth, (k, j) :: members =>
    (!isSensitiveKey K k && tooDeep K depth j) || tooDeepMembers K depth members

end

/-- `_decode_body` raises. -/
def decodeRaises (P : Python) (body : List UInt8) (contentType : Option Text) : Bool :=
  body ≠ [] && body.length ≤ maxCaptureBytes &&
    (normalizedContentType P.codec contentType = "application/json".toList &&
      P.loadsRaises (P.codec.decodeUtf8 body))

/-- `_redact_sensitive(_decode_body(body, content_type))`. None if it raises. -/
def loggedBody (P : Python) (body : List UInt8) (contentType : Option Text) :
    Option RequestLog.Json :=
  if decodeRaises P body contentType then none
  else
    let value := decodeBody P.codec body contentType
    if tooDeep P.codec P.maxDepth value then none else some (redactSensitive P.codec value)

/-! ## Requests -/

/-- A message of type `http.request`. -/
structure Message where
  body : List UInt8
  moreBody : Bool

/-- The body that somebody reads from the messages. -/
def readBody : List Message → List UInt8
  | [] => []
  | m :: messages => m.body ++ if m.moreBody then readBody messages else []

/-- What `receive` answers in place of a request whose body has been read. -/
def replay (body : List UInt8) : List Message := [⟨body, false⟩, ⟨[], false⟩]

@[simp] theorem readBody_replay (body : List UInt8) : readBody (replay body) = body :=
  List.append_nil body

/-! ## Responses -/

/-- What the application answers with. -/
structure AppResponse where
  status : ℕ
  headers : List (Text × Text)
  chunks : List (List UInt8)

/-- What a client gets. -/
structure Sent where
  status : ℕ
  headers : List (Text × Text)
  body : List UInt8

/-- A response as it is. -/
def AppResponse.sent (r : AppResponse) : Sent := ⟨r.status, r.headers, r.chunks.flatten⟩

/-- `headers.get(name)` -/
def getHeader (headers : List (Text × Text)) (name : Text) : Option Text :=
  (headers.find? fun h => h.1 = Text.lower name).map Prod.snd

/-- `dict(headers)`. None if a name is not found under its lower case. -/
def headersDict (headers : List (Text × Text)) : Option (Dict Text Text) :=
  headers.foldlM (fun d h => (getHeader headers h.1).map (d.set h.1)) []

/-- `init_headers` of a response with a body and without a media type. -/
def initHeaders (status : ℕ) (headers : Dict Text Text) (body : List UInt8) : List (Text × Text) :=
  let raw := headers.map fun h => (Text.lower h.1, h.2)
  if "content-length".toList ∉ raw.map Prod.fst ∧ ¬(status < 200 ∨ status = 204 ∨ status = 304) then
    raw ++ [("content-length".toList, Nat.toDigits 10 body.length)]
  else raw

/-- The body of a response is captured. -/
def capturesResponse (P : Python) (r : AppResponse) : Bool :=
  shouldCaptureBody P.codec (getHeader r.headers "content-type")
    (parseContentLength P.codec (getHeader r.headers "content-length"))

/-- The response that is sent on. None if the logging raises. -/
def rebuild (P : Python) (r : AppResponse) : Option Sent :=
  if capturesResponse P r then
    let body := r.chunks.flatten
    (loggedBody P body (getHeader r.headers "content-type")).bind fun _ =>
      (headersDict r.headers).map fun headers =>
        ⟨r.status, initHeaders r.status headers body, body⟩
  else some r.sent

/-! ## The middleware -/

/-- What the application has read and the client gets. -/
structure Exchange where
  read : List UInt8
  sent : Sent

/-- A request without the middleware. -/
def direct (messages : List Message) (app : List UInt8 → AppResponse) : Exchange :=
  ⟨readBody messages, (app (readBody messages)).sent⟩

/-- The path is not logged. -/
def skips (path : Text) : Bool := skipPrefixes.any fun p => p.isPrefixOf path

/-- `RequestLoggerMiddleware.dispatch`. None if it raises. -/
def dispatch (P : Python) (req : Request) (messages : List Message)
    (app : List UInt8 → AppResponse) : Option Exchange :=
  (Url.urlsplit P.codec.toCodec req.url).bind fun parts =>
    if skips parts.path then some (direct messages app)
    else if shouldCaptureRequest P.codec parts.path req then
      let body := readBody messages
      let read := readBody (replay body)
      (loggedBody P body req.contentType).bind fun _ =>
        (rebuild P (app read)).map fun sent => ⟨read, sent⟩
    else (rebuild P (app (readBody messages))).map fun sent => ⟨readBody messages, sent⟩

/-- The logging of a body does not raise. -/
def Logs (P : Python) (body : List UInt8) (contentType : Option Text) : Prop :=
  decodeRaises P body contentType = false ∧
    tooDeep P.codec P.maxDepth (decodeBody P.codec body contentType) = false

/-- The names of the headers are in lower case and distinct. -/
def PlainNames (headers : List (Text × Text)) : Prop :=
  (headers.map Prod.fst).Nodup ∧ ∀ h ∈ headers, Text.lower h.1 = h.1

/-- A request that can be logged without a trace. -/
def Quiet (P : Python) (req : Request) (messages : List Message)
    (app : List UInt8 → AppResponse) : Prop :=
  ∃ parts, Url.urlsplit P.codec.toCodec req.url = some parts ∧ (skips parts.path = true ∨
    (shouldCaptureRequest P.codec parts.path req = true →
      Logs P (readBody messages) req.contentType) ∧
    (capturesResponse P (app (readBody messages)) = true →
      Logs P (app (readBody messages)).chunks.flatten
          (getHeader (app (readBody messages)).headers "content-type") ∧
        PlainNames (app (readBody messages)).headers))

/-! ## Headers that are built again -/

theorem toLower_toLower (c : Char) : c.toLower.toLower = c.toLower := by
  have hlower := Text.toNat_toLower c
  refine Char.toNat_inj.1 ?_
  rw [Text.toNat_toLower]
  split_ifs at hlower ⊢ <;> omega

theorem lower_lower (s : Text) : Text.lower (Text.lower s) = Text.lower s := by
  unfold Text.lower
  rw [List.map_map]
  exact List.map_congr_left fun c _ => toLower_toLower c

variable {P : Python} {headers : List (Text × Text)}

theorem loggedBody_isSome {body : List UInt8} {contentType : Option Text} :
    (∃ value, loggedBody P body contentType = some value) ↔ Logs P body contentType := by
  unfold loggedBody Logs
  dsimp only
  split_ifs with hraises hdeep
  · simp [hraises]
  · simp [hdeep]
  · simp [hraises, hdeep]

theorem loggedBody_eq_none {body : List UInt8} {contentType : Option Text}
    (h : ¬Logs P body contentType) : loggedBody P body contentType = none := by
  cases hbody : loggedBody P body contentType with
  | none => rfl
  | some value => exact absurd (loggedBody_isSome.1 ⟨value, hbody⟩) h

/-- A name that is in lower case and given once is found. -/
theorem getHeader_of_mem (hnames : PlainNames headers) {h : Text × Text} (hh : h ∈ headers) :
    getHeader headers h.1 = some h.2 := by
  obtain ⟨hnodup, hlower⟩ := hnames
  unfold getHeader
  rw [hlower h hh]
  clear hlower
  induction headers with
  | nil => cases hh
  | cons g headers ih =>
    rw [List.map_cons, List.nodup_cons] at hnodup
    rcases List.mem_cons.1 hh with rfl | hh
    · simp
    · have hne : g.1 ≠ h.1 := fun heq => hnodup.1 (heq ▸ List.mem_map_of_mem hh)
      rw [List.find?_cons_of_neg (by simpa using hne)]
      exact ih hh hnodup.2

/-- Plain names make a dictionary of all headers. -/
theorem headersDict_of_plain (hnames : PlainNames headers) : headersDict headers = some headers := by
  have hfold : ∀ {rest d : List (Text × Text)}, (∀ h ∈ rest, h ∈ headers) →
      (d.map Prod.fst ++ rest.map Prod.fst).Nodup →
        rest.foldlM (fun d h => (getHeader headers h.1).map (Dict.set d h.1)) d =
          some (d ++ rest) := by
    intro rest
    induction rest with
    | nil => exact fun {d} _ _ => congrArg some (List.append_nil d).symm
    | cons h rest ih =>
      intro d hmem hnodup
      rw [List.map_cons, List.nodup_middle, List.nodup_cons] at hnodup
      have hnew : h.1 ∉ Dict.keys d := fun hd => hnodup.1 (List.mem_append_left _ hd)
      rw [List.foldlM_cons, getHeader_of_mem hnames (hmem h List.mem_cons_self)]
      show List.foldlM _ (Dict.set d h.1 h.2) rest = _
      rw [Dict.set_of_notMem hnew, ih (fun g hg => hmem g (List.mem_cons_of_mem _ hg)),
        List.append_assoc]
      · rfl
      · rw [List.map_append, List.append_assoc, List.map_singleton, List.singleton_append,
          List.nodup_middle, List.nodup_cons]
        exact hnodup
  exact hfold (fun _ => id) hnames.1

/-- The dictionary has each name once. -/
theorem keys_headersDict {d : Dict Text Text} (h : headersDict headers = some d) :
    d.keys.Nodup ∧ ∀ k, k ∈ d.keys ↔ k ∈ headers.map Prod.fst := by
  have hfold : ∀ {rest : List (Text × Text)} {d d' : Dict Text Text},
      rest.foldlM (fun d h => (getHeader headers h.1).map (d.set h.1)) d = some d' →
        d.keys.Nodup →
          d'.keys.Nodup ∧ ∀ k, k ∈ d'.keys ↔ k ∈ d.keys ∨ k ∈ rest.map Prod.fst := by
    intro rest
    induction rest with
    | nil =>
      intro d d' hd hnodup
      obtain rfl := Option.some.inj hd
      exact ⟨hnodup, fun k => by simp⟩
    | cons h rest ih =>
      intro d d' hd hnodup
      rw [List.foldlM_cons] at hd
      obtain ⟨d₁, hd₁, hd⟩ := Option.bind_eq_some_iff.1 hd
      obtain ⟨v, -, rfl⟩ := Option.map_eq_some_iff.1 hd₁
      obtain ⟨hnodup', hkeys⟩ := ih hd (Dict.nodup_keys_set hnodup _ _)
      refine ⟨hnodup', fun k => ?_⟩
      rw [hkeys, Dict.mem_keys_set, List.map_cons, List.mem_cons]
      tauto
  obtain ⟨hnodup, hkeys⟩ := hfold h List.nodup_nil
  exact ⟨hnodup, fun k => (hkeys k).trans (or_iff_right List.not_mem_nil)⟩

/-- A captured response has both headers, so that none is added. -/
theorem initHeaders_of_mem {status : ℕ} {headers : Dict Text Text} {body : List UInt8}
    (h : "content-length".toList ∈ headers.map fun h => Text.lower h.1) :
    initHeaders status headers body = headers.map fun h => (Text.lower h.1, h.2) := by
  refine if_neg fun hn => hn.1 ?_
  rwa [List.map_map]

/-- The header lists that survive a dictionary and back are those with plain names. -/
theorem plainNames_of_map {d : Dict Text Text} (hd : headersDict headers = some d)
    (h : (d.map fun h => (Text.lower h.1, h.2)) = headers) : PlainNames headers := by
  obtain ⟨hnodup, hkeys⟩ := keys_headersDict hd
  have hnames : headers.map Prod.fst = d.keys.map Text.lower := by
    rw [← h, List.map_map, Dict.keys, List.map_map]
    rfl
  have hlower : ∀ k ∈ headers.map Prod.fst, Text.lower k = k := by
    intro k hk
    rw [hnames] at hk
    obtain ⟨j, -, rfl⟩ := List.mem_map.1 hk
    exact lower_lower j
  refine ⟨?_, fun g hg => hlower g.1 (List.mem_map_of_mem hg)⟩
  have hself : d.keys.map Text.lower = d.keys.map id :=
    List.map_congr_left fun k hk => hlower k ((hkeys k).1 hk)
  rwa [hnames, hself, List.map_id]

/-- A response that is captured has a length. -/
theorem contentLength_mem {r : AppResponse} (h : capturesResponse P r = true) :
    "content-length".toList ∈ r.headers.map Prod.fst := by
  cases hget : getHeader r.headers "content-length" with
  | none =>
    rw [capturesResponse, hget] at h
    cases h
  | some v =>
    obtain ⟨e, he, -⟩ := Option.map_eq_some_iff.1 hget
    have hname := of_decide_eq_true
      (List.find?_some (p := fun h : Text × Text => decide (h.1 = Text.lower "content-length"))
        he)
    exact List.mem_map.2 ⟨e, List.mem_of_find?_eq_some he, hname.trans (by decide)⟩

theorem rebuild_eq_sent_iff {r : AppResponse} :
    rebuild P r = some r.sent ↔ (capturesResponse P r = true →
      Logs P r.chunks.flatten (getHeader r.headers "content-type") ∧ PlainNames r.headers) := by
  unfold rebuild
  by_cases hcaptures : capturesResponse P r = true
  · rw [if_pos hcaptures]
    dsimp only
    have hlength := contentLength_mem hcaptures
    constructor
    · intro h _
      obtain ⟨value, hvalue, h⟩ := Option.bind_eq_some_iff.1 h
      obtain ⟨d, hd, hsent⟩ := Option.map_eq_some_iff.1 h
      have hheaders : initHeaders r.status d r.chunks.flatten = r.headers :=
        congrArg Sent.headers hsent
      rw [initHeaders_of_mem (List.mem_map.2 ?_)] at hheaders
      · exact ⟨loggedBody_isSome.1 ⟨value, hvalue⟩, plainNames_of_map hd hheaders⟩
      · obtain ⟨e, he, hname⟩ := List.mem_map.1 (((keys_headersDict hd).2 _).2 hlength)
        exact ⟨e, he, congrArg Text.lower hname⟩
    · intro h
      obtain ⟨hlogs, hnames⟩ := h hcaptures
      obtain ⟨value, hvalue⟩ := loggedBody_isSome.2 hlogs
      have hsame : (r.headers.map fun h => (Text.lower h.1, h.2)) = r.headers.map id :=
        List.map_congr_left fun h hh => Prod.ext (hnames.2 h hh) rfl
      obtain ⟨e, he, hname⟩ := List.mem_map.1 hlength
      rw [hvalue, headersDict_of_plain hnames]
      show some (⟨r.status, initHeaders r.status r.headers r.chunks.flatten, _⟩ : Sent) = _
      rw [initHeaders_of_mem (List.mem_map.2 ⟨e, he, congrArg Text.lower hname⟩), hsame,
        List.map_id]
      rfl
  · rw [if_neg hcaptures]
    exact iff_of_true rfl fun h => absurd h hcaptures

/-- The client and the application see the same with the middleware and without exactly if the
request can be logged without a trace. -/
theorem dispatch_eq_direct_iff (P : Python) (req : Request) (messages : List Message)
    (app : List UInt8 → AppResponse) :
    dispatch P req messages app = some (direct messages app) ↔ Quiet P req messages app := by
  unfold dispatch Quiet
  cases hparts : Url.urlsplit P.codec.toCodec req.url with
  | none => simp
  | some parts =>
    simp only [Option.bind_some, Option.some.injEq, exists_eq_left']
    by_cases hskips : skips parts.path = true
    · rw [if_pos hskips]
      exact iff_of_true rfl (.inl hskips)
    rw [if_neg hskips, or_iff_right hskips, ← rebuild_eq_sent_iff]
    have hexchange : ∀ {sent : Option Sent} {body : List UInt8}, body = readBody messages →
        ((sent.map fun s => (⟨body, s⟩ : Exchange)) = some (direct messages app) ↔
          sent = some (app (readBody messages)).sent) := by
      rintro sent body rfl
      rw [Option.map_eq_some_iff]
      constructor
      · rintro ⟨s, rfl, h⟩
        exact congrArg some (congrArg Exchange.sent h)
      · rintro rfl
        exact ⟨_, rfl, rfl⟩
    by_cases hcaptures : shouldCaptureRequest P.codec parts.path req = true
    · rw [if_pos hcaptures, readBody_replay]
      by_cases hlogs : Logs P (readBody messages) req.contentType
      · obtain ⟨value, hvalue⟩ := loggedBody_isSome.2 hlogs
        rw [hvalue, Option.bind_some, hexchange rfl, and_iff_right fun _ => hlogs]
      · rw [loggedBody_eq_none hlogs]
        exact iff_of_false (fun h => by cases h) fun h => hlogs (h.1 hcaptures)
    · rw [if_neg hcaptures, hexchange rfl, and_iff_right fun h => absurd h hcaptures]

/-- Nothing raises, and JSON is not looked into. -/
def plainPython : Python := ⟨.ascii fun _ => none, fun _ => false, 10⟩

/-- A small response that sets two cookies. -/
def twoCookies : AppResponse where
  status := 200
  headers := [("content-length", "2"), ("content-type", "application/json"), ("set-cookie", "a=1"),
    ("set-cookie", "b=2")]
  chunks := [[123, 125]]

/-- The client gets one of the two cookies. -/
theorem second_cookie_lost : ¬∀ (P : Python) (req : Request) (messages : List Message)
    (app : List UInt8 → AppResponse), dispatch P req messages app = some (direct messages app) := by
  intro h
  have hsame := congrArg (Option.map fun e => e.sent.headers.length)
    (h plainPython (login "application/json" "0" []) [] fun _ => twoCookies)
  have hthree : (dispatch plainPython (login "application/json" "0" []) [] fun _ => twoCookies).map
      (fun e => e.sent.headers.length) = some 3 := rfl
  rw [hthree] at hsame
  exact absurd hsame (by decide)

end LogTransparency

end PPBase
