import EspModemLink.Http.ContentLength
import EspModemLink.Http.LocationBytes

/-!
# The request that a redirect leads to

A Location is a header value, and a header value may hold any byte but the CRLF that ends its line.
`ResolveRedirect` and `BuildHttpRequest` carry its bytes into the request line and the Host line of
the next request as they are.
-/

namespace EspModemLink.Http

open Bytes AtParser

/-! ## The Location that was read -/

/-- The field is a Location. -/
def saysLocation (f : Bytes × Bytes) : Bool := f.1 = toLower locationName

/-- The value of the last Location of the head, empty where there is none. -/
def locationRead (h : List Intake) : Bytes :=
  (((fieldsRead h).filter saysLocation).getLast?.map Prod.snd).getD []

theorem toLowerByte_toLowerByte (c : UInt8) : toLowerByte (toLowerByte c) = toLowerByte c := by
  unfold toLowerByte
  split
  · rename_i hc
    rw [if_neg]
    intro hc'
    have h1 : (65 : UInt8).toNat ≤ c.toNat := hc.1
    have h2 : c.toNat ≤ (90 : UInt8).toNat := hc.2
    have h3 : (c + 32).toNat ≤ (90 : UInt8).toNat := hc'.2
    rw [UInt8.toNat_add] at h3
    simp only [UInt8.reduceToNat] at h1 h2 h3
    omega
  · rfl

theorem toLower_toLower (s : Bytes) : toLower (toLower s) = toLower s := by
  simp only [toLower, List.map_map]
  exact List.map_congr_left fun c _ => toLowerByte_toLowerByte c

theorem HeaderMap.find_set (name value n : Bytes) (m : HeaderMap) :
    (HeaderMap.set name value m).find? (fun e => e.1 = n) =
      if name = n then some (n, value) else m.find? (fun e => e.1 = n) := by
  induction m with
  | nil =>
      by_cases hn : name = n <;> simp [HeaderMap.set, hn]
  | cons e m ih =>
      obtain ⟨k, v⟩ := e
      rw [HeaderMap.set]
      split
      · rename_i hk
        by_cases hn : name = n <;> simp [hk, hn]
      · rename_i hk
        split
        · by_cases hn : name = n <;> simp [hn]
        · by_cases hn : name = n
          · rw [if_pos hn] at ih ⊢
            have hkn : k ≠ n := fun h => hk (h.trans hn.symm)
            simpa [hkn] using ih
          · rw [if_neg hn] at ih ⊢
            rw [List.find?_cons, List.find?_cons, ih]

theorem HeaderMap.mem_set {name value : Bytes} {m : HeaderMap} {e : Bytes × Bytes}
    (h : e ∈ HeaderMap.set name value m) : e = (name, value) ∨ e ∈ m := by
  induction m with
  | nil => exact .inl (List.mem_singleton.mp h)
  | cons f m ih =>
      rw [HeaderMap.set] at h
      split at h
      · exact (List.mem_cons.mp h).imp id (List.mem_cons_of_mem _)
      · split at h
        · exact List.mem_cons.mp h
        · obtain rfl | h := List.mem_cons.mp h
          · exact .inr List.mem_cons_self
          · exact (ih h).imp id (List.mem_cons_of_mem _)

/-- The names are kept in lower case. -/
def LowerNames (m : HeaderMap) : Prop := ∀ e ∈ m, toLower e.1 = e.1

/-- Among names in lower case the Location is the one that is spelled so. -/
theorem redirectLocation_eq {m : HeaderMap} (h : LowerNames m) :
    redirectLocation { headers := m } =
      ((m.find? fun e => e.1 = toLower locationName).map Prod.snd).getD [] := by
  rw [redirectLocation]
  congr 2
  induction m with
  | nil => rfl
  | cons e m ih =>
      obtain ⟨he, hm⟩ := List.forall_mem_cons.mp h
      have hname : equalsIgnoreCase e.1 locationName = decide (e.1 = toLower locationName) := by
        rw [equalsIgnoreCase, he]
        exact beq_eq_decide _ _
      rw [List.find?_cons, List.find?_cons, hname, ih hm]

section

/-- A name is kept in lower case. -/
theorem lower_of_field {i : Intake} {f : Bytes × Bytes} (h : i.field = some f) :
    toLower f.1 = f.1 := by
  unfold Intake.field at h
  split at h
  · obtain ⟨colon, -, rfl⟩ := Option.map_eq_some_iff.mp h
    exact toLower_toLower _
  · cases h

/-- The header map answers with the last Location that was read. -/
structure LocationKept (h : List Intake) (p : ParserCore) : Prop where
  lower : LowerNames p.headers
  location : ((p.headers.find? fun e => e.1 = toLower locationName).map Prod.snd).getD [] =
    locationRead h

variable [Target]

theorem locationKept_after (onBody : Bool) (calls : List ParserCall) :
    LocationKept ((fresh onBody).history calls) ((fresh onBody).after calls).toParserCore := by
  have hstart : LocationKept [] (fresh onBody).toParserCore :=
    ⟨fun e he => absurd he (by simp [fresh]), rfl⟩
  refine history_induction (I := LocationKept) ?_ ?_ (fresh_settled onBody).counting hstart calls
  · intro h p i p' hkept hpass
    obtain ⟨hi, hsame⟩ | ⟨f, hi, -, hsame⟩ := frames_pass hpass
    · refine ⟨hsame.headers ▸ hkept.lower, ?_⟩
      rw [hsame.headers, hkept.location, locationRead, locationRead, fieldsRead_snoc, hi]
      simp
    · have hheaders : p'.headers = p.headers.set f.1 f.2 := hsame.headers
      refine ⟨fun e he => ?_, ?_⟩
      · rw [hheaders] at he
        obtain rfl | he := HeaderMap.mem_set he
        · exact lower_of_field hi
        · exact hkept.lower e he
      · rw [hheaders, HeaderMap.find_set, locationRead, fieldsRead_snoc, hi, List.filter_append]
        by_cases hname : f.1 = toLower locationName
        · simp [hname, saysLocation]
        · simpa [hname, saysLocation, locationRead] using hkept.location
  · intro h p p' hkept hfails
    exact ⟨hfails.headers ▸ hkept.lower, hfails.headers ▸ hkept.location⟩

theorem redirectLocation_after (onBody : Bool) (calls : List ParserCall) :
    redirectLocation { headers := ((fresh onBody).after calls).headers } =
      locationRead ((fresh onBody).history calls) := by
  have hkept := locationKept_after onBody calls
  rw [redirectLocation_eq hkept.lower, hkept.location]

end

/-! ## What is written -/

/-- The bytes that end a token, a line, or what some servers take for the end of a line. -/
def Breaks (b : UInt8) : Prop := b ∈ [cr, lf, space]

instance (b : UInt8) : Decidable (Breaks b) := inferInstanceAs (Decidable (_ ∈ _))

/-- The line up to the first CRLF. -/
def firstLine (s : Bytes) : Bytes := upTo s (find crlf s)

/-- What stands behind the first CRLF. -/
def behindLine (s : Bytes) : Bytes :=
  match find crlf s with
  | none => []
  | some i => s.drop (i + 2)

/-- The request for the URL that a redirect from `source` leads to is what it should be: its first
line is the method, the target and the version with single spaces between them, and nothing in them
could be taken for a break; its second line names the host; and no fragment travels. -/
structure RequestLineIntact (source url : ParsedUrl) (options : HttpRequestOptions) : Prop where
  line : (firstLine (buildHttpRequest url options)).splitOn space =
    [options.method, (requestMessage url options).target, httpVersion]
  tokens : options.method ≠ [] ∧ (requestMessage url options).target ≠ []
  method : ∀ b ∈ options.method, ¬Breaks b
  target : ∀ b ∈ (requestMessage url options).target, ¬Breaks b
  hostField : (requestMessage url options).fields.head? = some (hostName, hostHeader url)
  hostLine : firstLine (behindLine (buildHttpRequest url options)) =
    hostName ++ [colon, space] ++ hostHeader url
  host : ∀ b ∈ hostHeader url, ¬Breaks b
  fragment : hash ∈ (requestMessage url options).target ∨ hash ∈ hostHeader url →
    hash ∈ source.host ∨ hash ∈ source.path

/-- The value of the last Host field among the caller's. -/
def callerHost (options : HttpRequestOptions) : Option Bytes :=
  ((options.headers.filter fun f => toLower f.1 = toLower hostName).map Prod.snd).getLast?

section

variable {url source : ParsedUrl} {options : HttpRequestOptions} {b : UInt8} {l t : Bytes}

theorem firstLine_crlf (h : lf ∉ l) (t : Bytes) :
    firstLine (l ++ crlf ++ t) = l ∧ behindLine (l ++ crlf ++ t) = t := by
  have hfind := find_append t (find_crlf h)
  constructor
  · rw [firstLine, hfind, upTo, List.append_assoc, List.take_left]
  · rw [behindLine, hfind]
    simp [crlf]

theorem mem_target : b ∈ (requestMessage url options).target → b = slash ∨ b ∈ url.path := by
  intro h
  unfold requestMessage at h
  dsimp only at h
  split at h
  · exact .inl (List.mem_singleton.mp h)
  · exact .inr h

theorem path_subset_target : url.path ⊆ (requestMessage url options).target := by
  intro b h
  unfold requestMessage
  dsimp only
  rw [if_neg (List.ne_nil_of_mem h)]
  exact h

theorem target_ne_nil : (requestMessage url options).target ≠ [] := by
  unfold requestMessage
  dsimp only
  split
  · simp
  · assumption

theorem Breaks.foreign (hb : Breaks b) : Foreign b := by
  have hall : [cr, lf, space].all (fun b => decide (Foreign b)) = true := by decide
  exact of_decide_eq_true (List.all_eq_true.mp hall b hb)

/-- The port of the Host line holds no foreign byte. -/
theorem mem_hostHeader (hb : Foreign b) : b ∈ hostHeader url ↔ b ∈ url.host := by
  have hcolon : b ≠ colon := hb.ne (by decide)
  unfold hostHeader
  split
  · rfl
  · have hdecimal : b ∉ decimal url.port :=
      fun hm => hb.not_isDigit (isDigit_of_mem_decimal _ _ hm)
    simp [hcolon, hdecimal]

/-! ## The fields -/

/-- The caller's fields leave the Host field in front, with the value that was set last. -/
theorem foldl_setHeader_host (headers rest : Fields) (value : Bytes) :
    ∃ rest', headers.foldl (fun fields h => setHeader h.1 h.2 fields) ((hostName, value) :: rest) =
      (hostName, (((headers.filter fun f => toLower f.1 = toLower hostName).map
        Prod.snd).getLast?).getD value) :: rest' := by
  induction headers generalizing value rest with
  | nil => exact ⟨rest, rfl⟩
  | cons f headers ih =>
      rw [List.foldl_cons, setHeader]
      by_cases hname : toLower hostName = toLower f.1
      · obtain ⟨rest', hrest⟩ := ih rest f.2
        rw [if_pos hname, hrest]
        refine ⟨rest', ?_⟩
        simp [hname, List.getLast?_cons]
      · obtain ⟨rest', hrest⟩ := ih (setHeader f.1 f.2 rest) value
        rw [if_neg hname, hrest]
        refine ⟨rest', ?_⟩
        simp [Ne.symm hname]

/-- The Host field stands in front. -/
theorem requestFields_host (url : ParsedUrl) (options : HttpRequestOptions) : ∃ rest,
    requestFields url options = (hostName, (callerHost options).getD (hostHeader url)) :: rest := by
  obtain ⟨rest, hmerged⟩ := foldl_setHeader_host options.headers
    [(userAgentName, options.userAgent),
      (connectionName, if options.keepAlive then keepAliveValue else closeValue)] (hostHeader url)
  have hfields : mergedFields url options =
      (hostName, (callerHost options).getD (hostHeader url)) :: rest := hmerged
  have hlength : toLower hostName ≠ toLower contentLengthField := by decide
  have hcoding : toLower hostName ≠ toLower transferEncodingField := by decide
  rw [requestFields, hfields]
  split
  · refine ⟨setHeader transferEncodingField ParserCore.chunkedCoding
      (removeHeader contentLengthField rest), ?_⟩
    rw [removeHeader, List.filter_cons_of_pos (by simpa using hlength), setHeader, if_neg hcoding]
    rfl
  · exact ⟨_, by rw [setHeader, if_neg hlength]⟩

/-- The two lines that begin a request, where nothing in them could be taken for a break. -/
theorem lines_of_unbroken (hmethod : ∀ b ∈ options.method, ¬Breaks b)
    (htarget : ∀ b ∈ (requestMessage url options).target, ¬Breaks b)
    (hhost : ∀ b ∈ hostHeader url, ¬Breaks b)
    (hcaller : ∀ v, callerHost options = some v → v = hostHeader url) :
    firstLine (buildHttpRequest url options) =
        [space].intercalate [options.method, (requestMessage url options).target, httpVersion] ∧
      firstLine (behindLine (buildHttpRequest url options)) =
        hostName ++ [colon, space] ++ hostHeader url := by
  have hlf : Breaks lf := by decide
  obtain ⟨rest, hfields⟩ := requestFields_host url options
  have hvalue : (callerHost options).getD (hostHeader url) = hostHeader url := by
    cases hc : callerHost options with
    | none => rfl
    | some v => exact hcaller v hc
  rw [hvalue] at hfields
  have hbytes : buildHttpRequest url options =
      [space].intercalate [options.method, (requestMessage url options).target, httpVersion] ++ crlf ++
        (hostName ++ [colon, space] ++ hostHeader url ++ crlf ++
          (rest.flatMap fieldLine ++ crlf ++ (requestMessage url options).body)) := by
    have hmessage : (requestMessage url options).fields = requestFields url options := rfl
    rw [buildHttpRequest, RequestMessage.bytes, hmessage, hfields]
    simp [List.intercalate, fieldLine, requestMessage]
  have hfirst : lf ∉ [space].intercalate
      [options.method, (requestMessage url options).target, httpVersion] := by
    have hversion : lf ∉ httpVersion := by decide
    have hspace : lf ≠ space := by decide
    have hm : lf ∉ options.method := fun hm => hmethod lf hm hlf
    have ht : lf ∉ (requestMessage url options).target := fun hm => htarget lf hm hlf
    simp [List.intercalate, hversion, hspace, hm, ht]
  have hsecond : lf ∉ hostName ++ [colon, space] ++ hostHeader url := by
    have hname : lf ∉ hostName ++ [colon, space] := by decide
    rw [List.mem_append, not_or]
    exact ⟨hname, fun hm => hhost lf hm hlf⟩
  rw [hbytes, (firstLine_crlf hfirst _).1, (firstLine_crlf hfirst _).2]
  exact ⟨rfl, (firstLine_crlf hsecond _).1⟩

end

/-! ## When a redirect keeps the request line intact -/

/-- Behind any response that was read, the request for the URL that the Location resolves to has an
intact request line and Host line if and only if the method is a token, the caller sets no other
Host, and the bytes that are carried over from the Location and the base hold no blank, CR or LF. -/
theorem requestLine_intact_iff [Target] {onBody : Bool} {calls : List ParserCall} {original : Bytes}
    {source url : ParsedUrl} {options : HttpRequestOptions} (hsource : parseUrl original = .ok source)
    (hresolved : resolveRedirect source
      (redirectLocation { headers := ((fresh onBody).after calls).headers }) = .ok url) :
    RequestLineIntact source url options ↔
      (options.method ≠ [] ∧ ∀ b ∈ options.method, ¬Breaks b) ∧
      (∀ v, callerHost options = some v → v = hostHeader url) ∧
      ∀ b ∈ carried source (locationRead ((fresh onBody).history calls)), ¬Breaks b := by
  rw [redirectLocation_after] at hresolved
  generalize locationRead ((fresh onBody).history calls) = location at hresolved ⊢
  have hcarried : ∀ {b}, Foreign b → (b ∈ url.host ∨ b ∈ url.path ↔ b ∈ carried source location) :=
    fun hb => mem_resolveRedirect hsource hresolved hb
  constructor
  · intro h
    refine ⟨⟨h.tokens.1, h.method⟩, fun v hv => ?_, fun b hmem hb => ?_⟩
    · obtain ⟨rest, hfields⟩ := requestFields_host url options
      have hfront : (requestFields url options).head? = some (hostName, hostHeader url) := h.hostField
      rw [hfields, hv] at hfront
      exact (Prod.mk.inj (Option.some.inj hfront)).2
    · obtain hhost | hpath := (hcarried hb.foreign).mpr hmem
      · exact h.host b ((mem_hostHeader hb.foreign).mpr hhost) hb
      · exact h.target b (path_subset_target hpath) hb
  · rintro ⟨⟨hne, hmethod⟩, hcaller, hclean⟩
    have htarget : ∀ b ∈ (requestMessage url options).target, ¬Breaks b := by
      intro b hmem hb
      obtain rfl | hpath := mem_target hmem
      · exact absurd hb (by decide)
      · exact hclean b ((hcarried hb.foreign).mp (.inr hpath)) hb
    have hhost : ∀ b ∈ hostHeader url, ¬Breaks b := fun b hmem hb =>
      hclean b ((hcarried hb.foreign).mp (.inl ((mem_hostHeader hb.foreign).mp hmem))) hb
    obtain ⟨hfirst, hsecond⟩ := lines_of_unbroken hmethod htarget hhost hcaller
    refine ⟨?_, ⟨hne, target_ne_nil⟩, hmethod, htarget, ?_, hsecond, hhost, ?_⟩
    · rw [hfirst, List.splitOn_intercalate space ?_ (by simp)]
      have hspace : Breaks space := by decide
      have hversion : space ∉ httpVersion := by decide
      simp only [List.forall_mem_cons]
      exact ⟨fun hm => hmethod space hm hspace, fun hm => htarget space hm hspace, hversion, by simp⟩
    · obtain ⟨rest, hfields⟩ := requestFields_host url options
      change (requestFields url options).head? = _
      rw [hfields, List.head?_cons]
      cases hc : callerHost options with
      | none => rfl
      | some v => rw [Option.getD_some, hcaller v hc]
    · intro h
      have hforeign : Foreign hash := by decide
      refine hash_of_mem_carried ((hcarried hforeign).mp ?_)
      obtain htarget | hhost := h
      · obtain heq | hpath := mem_target htarget
        · exact absurd heq (by decide)
        · exact .inr hpath
      · exact .inl ((mem_hostHeader hforeign).mp hhost)

/-- "HTTP/1.1 302", CRLF, "Location: ", the value, CRLF, CRLF. -/
def redirecting (value : Bytes) : Bytes :=
  ascii ['H', 'T', 'T', 'P', '/', '1', '.', '1', ' ', '3', '0', '2', '\r', '\n',
    'L', 'o', 'c', 'a', 't', 'i', 'o', 'n', ':', ' '] ++ value ++ crlf ++ crlf

/-- "http://h/". -/
def plainBase : Bytes := httpScheme ++ [104, slash]

/-- The base "http://h/" and the Location "/b". -/
theorem requestLine_intact_iff_plain :
    letI := esp32
    let calls := [ParserCall.feed (redirecting [slash, 98])]
    RequestLineIntact ⟨false, [104], 80, [slash]⟩ ⟨false, [104], 80, [slash, 98]⟩ {} ↔
      (methodGet ≠ [] ∧ ∀ b ∈ methodGet, ¬Breaks b) ∧
      (∀ v, callerHost {} = some v → v = [104]) ∧
      ∀ b ∈ carried ⟨false, [104], 80, [slash]⟩ (locationRead ((fresh false).history calls)),
        ¬Breaks b := by
  let := esp32
  have hsource : parseUrl plainBase = .ok ⟨false, [104], 80, [slash]⟩ := rfl
  have hlocation : redirectLocation { headers :=
      ((fresh false).after [.feed (redirecting [slash, 98])]).headers } = [slash, 98] := by decide
  have hresolved : resolveRedirect ⟨false, [104], 80, [slash]⟩ [slash, 98] =
      .ok ⟨false, [104], 80, [slash, 98]⟩ := rfl
  rw [← hlocation] at hresolved
  exact requestLine_intact_iff hsource hresolved

/-- "/a", LF, "X: b". -/
def twoLines : Bytes := ascii ['/', 'a', '\n', 'X', ':', ' ', 'b']

/-- The Location puts a line of its own between the request line and the Host line. -/
theorem injected_line :
    letI := esp32
    let p := (fresh false).after [.feed (redirecting twoLines)]
    headEnd ∈ (fresh false).history [.feed (redirecting twoLines)] ∧
      redirectLocation { headers := p.headers } = twoLines ∧
      resolveRedirect ⟨false, [104], 80, [slash]⟩ twoLines = .ok ⟨false, [104], 80, twoLines⟩ ∧
      (buildHttpRequest ⟨false, [104], 80, twoLines⟩ {}).take 20 =
        methodGet ++ space :: twoLines ++ space :: httpVersion ∧
      ¬RequestLineIntact ⟨false, [104], 80, [slash]⟩ ⟨false, [104], 80, twoLines⟩ {} := by
  refine ⟨by decide, by decide, rfl, rfl, fun h => ?_⟩
  exact absurd (by decide) (h.target lf (by decide))

end EspModemLink.Http
