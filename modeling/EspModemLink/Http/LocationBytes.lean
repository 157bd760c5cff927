import EspModemLink.Http.Request

/-!
# What of a Location reaches the next request

A Location is cut at its fragment, resolved against the URL of the request, and parsed. Userinfo is
dropped and dot segments are removed; every other byte is carried into the host or the path.
-/

namespace EspModemLink.Http

open Bytes AtParser

/-- "#". -/
def hash : UInt8 := 35

/-- "@". -/
def at' : UInt8 := 64

/-! ## Parts of a URL -/

/-- What stands in front of the path. -/
def authorityOf (rest : Bytes) : Bytes := upTo rest (findFirstOf slash question rest)

/-- The path and the query, as they stand. -/
def tailOf (rest : Bytes) : Bytes :=
  match findFirstOf slash question rest with
  | none => []
  | some e => rest.drop e

def behindUserinfo (authority : Bytes) : Bytes :=
  match findByte at' authority with
  | none => authority
  | some i => authority.drop (i + 1)

/-- What `ParseUrl` keeps of a URL behind its scheme. -/
def carriedAuthority (rest : Bytes) : Bytes := behindUserinfo (authorityOf rest) ++ tailOf rest

/-- The path in front of its query. -/
def pathPartOf (path : Bytes) : Bytes := upTo path (findByte question path)

def queryOf (path : Bytes) : Bytes :=
  match findByte question path with
  | none => []
  | some q => path.drop q

/-- The segments that are left when the dot segments are removed, the last one first. -/
def segmentsLeft (path : Bytes) : List Bytes :=
  (splitPath ((pathPartOf path).length + 1) (pathPartOf path)).foldl pushSegment []

/-- The bytes that a redirect carries into the next request: of a Location with an authority what
stands behind its userinfo; of any other the base's host, and the segments and the query that are
left of the Location in the base's directory. -/
def carried (source : ParsedUrl) (location : Bytes) : Bytes :=
  let location := upTo location (findByte hash location)
  if startsWith location httpScheme then carriedAuthority (location.drop 7)
  else if startsWith location httpsScheme then carriedAuthority (location.drop 8)
  else if startsWith location [slash, slash] then carriedAuthority (location.drop 2)
  else behindUserinfo source.host ++ (segmentsLeft (resolvePath source location)).flatten ++
    queryOf (resolvePath source location)

/-- The bytes that no place of a request line or a Host line has for itself. -/
def Foreign (b : UInt8) : Prop := b ∈ [cr, lf, space, hash]

instance (b : UInt8) : Decidable (Foreign b) := inferInstanceAs (Decidable (_ ∈ _))

section

variable {b c d : UInt8} {s t : Bytes} {i : ℕ}

theorem Foreign.ne (hb : Foreign b) (hc : ¬Foreign c) : b ≠ c := fun h => hc (h ▸ hb)

/-- No number holds a foreign byte. -/
theorem Foreign.notMem_parseInt (hb : Foreign b) {n : Int} (h : parseInt s = some n) : b ∉ s := by
  intro hm
  have hall : [cr, lf, space, hash].all (fun b => !(isDigit b || b == 45)) = true := by decide
  have hnone := List.all_eq_true.mp hall b hb
  obtain hdigit | rfl := mem_of_parseInt h hm
  · simp [hdigit] at hnone
  · cases hnone

theorem Foreign.not_isDigit (hb : Foreign b) : ¬isDigit b = true := by
  have hall : [cr, lf, space, hash].all (fun b => !isDigit b) = true := by decide
  simpa using List.all_eq_true.mp hall b hb

/-! ## Cutting -/

/-- In front of the first hit of a search there is no other. -/
theorem not_of_mem_upTo {p : UInt8 → Bool} (h : c ∈ upTo s (s.findIdx? p)) : p c = false := by
  cases hi : s.findIdx? p with
  | none =>
      rw [hi] at h
      simpa using List.findIdx?_eq_none_iff.mp hi c h
  | some i =>
      rw [hi] at h
      obtain ⟨hlt, -, hfirst⟩ := List.findIdx?_eq_some_iff_getElem.mp hi
      obtain ⟨j, hj, rfl⟩ := List.mem_iff_getElem.mp h
      have hji : j < i := by
        have hlength := hj
        rw [upTo, List.length_take] at hlength
        omega
      simpa [upTo] using hfirst j hji

theorem notMem_upTo_findByte (c : UInt8) (s : Bytes) : c ∉ upTo s (findByte c s) := by
  intro h
  have hne := not_of_mem_upTo h
  simp at hne

theorem ne_of_mem_authorityOf (h : c ∈ authorityOf s) : c ≠ slash ∧ c ≠ question := by
  have hne := not_of_mem_upTo h
  simpa using hne

theorem mem_of_mem_upTo {o : Option ℕ} (h : c ∈ upTo s o) : c ∈ s := by
  cases o with
  | none => exact h
  | some n => exact List.mem_of_mem_take h

theorem mem_of_mem_behindUserinfo (h : c ∈ behindUserinfo s) : c ∈ s := by
  unfold behindUserinfo at h
  split at h
  · exact h
  · exact List.mem_of_mem_drop h

theorem mem_of_mem_carriedAuthority (h : c ∈ carriedAuthority s) : c ∈ s := by
  obtain hhost | htail := List.mem_append.mp h
  · exact mem_of_mem_upTo (mem_of_mem_behindUserinfo hhost)
  · unfold tailOf at htail
    split at htail
    · cases htail
    · exact List.mem_of_mem_drop htail

theorem getElem?_of_rfindByte (h : rfindByte c s = some i) : s[i]? = some c := by
  obtain ⟨j, hj, rfl⟩ := Option.map_eq_some_iff.mp h
  have hget := getElem?_of_findByte hj
  have hlt : j < s.length := by
    have hlt := (List.findIdx?_eq_some_iff_getElem.mp hj).1
    rwa [List.length_reverse] at hlt
  rwa [List.getElem?_reverse hlt] at hget

/-- The bytes other than the one a search stopped at stand before or behind it. -/
theorem mem_iff_of_getElem? (hi : s[i]? = some d) (hne : c ≠ d) :
    c ∈ s ↔ c ∈ s.take i ∨ c ∈ s.drop (i + 1) := by
  obtain ⟨hlt, hd⟩ := List.getElem?_eq_some_iff.mp hi
  have hsplit : s = s.take i ++ d :: s.drop (i + 1) := by
    rw [← hd, ← List.drop_eq_getElem_cons hlt, List.take_append_drop]
  conv_lhs => rw [hsplit]
  simp [hne]

/-! ## What a URL is parsed into -/

/-- The path that `ParseUrl` reads: one that begins with its query gets a slash in front. -/
def pathOf (rest : Bytes) : Bytes :=
  match findFirstOf slash question rest with
  | none => [slash]
  | some e => if (rest.drop e).head? = some question then slash :: rest.drop e else rest.drop e

theorem parseAuthority_eq (tls : Bool) (rest : Bytes) : parseAuthority tls rest =
    if authorityOf rest = [] then urlError "URL has no host"
    else
      match rfindByte colon (behindUserinfo (authorityOf rest)) with
      | none =>
          if behindUserinfo (authorityOf rest) = [] then urlError "URL has no host"
          else .ok ⟨tls, behindUserinfo (authorityOf rest), defaultPort tls, pathOf rest⟩
      | some c =>
          match parseInt ((behindUserinfo (authorityOf rest)).drop (c + 1)) with
          | none => urlError "URL has an invalid port"
          | some port =>
              if port ≤ 0 ∨ 65535 < port then urlError "URL has an invalid port"
              else if (behindUserinfo (authorityOf rest)).take c = [] then urlError "URL has no host"
              else .ok ⟨tls, (behindUserinfo (authorityOf rest)).take c, port.toNat, pathOf rest⟩ :=
  rfl

/-- What a URL that is accepted is parsed into. -/
theorem parseAuthority_ok {tls : Bool} {rest : Bytes} {url : ParsedUrl}
    (h : parseAuthority tls rest = .ok url) : url.path = pathOf rest ∧
      (url.host = behindUserinfo (authorityOf rest) ∨
        ∃ c port, (behindUserinfo (authorityOf rest))[c]? = some colon ∧
          parseInt ((behindUserinfo (authorityOf rest)).drop (c + 1)) = some port ∧
          url.host = (behindUserinfo (authorityOf rest)).take c) := by
  rw [parseAuthority_eq] at h
  generalize behindUserinfo (authorityOf rest) = authority at h ⊢
  split at h
  · cases h
  · split at h
    · split at h
      · cases h
      · obtain rfl := Except.ok.inj h
        exact ⟨rfl, .inl rfl⟩
    · rename_i c hcolon
      split at h
      · cases h
      · rename_i port hport
        split at h
        · cases h
        · split at h
          · cases h
          · obtain rfl := Except.ok.inj h
            exact ⟨rfl, .inr ⟨c, port, getElem?_of_rfindByte hcolon, hport, rfl⟩⟩

theorem mem_pathOf {rest : Bytes} (hb : b ≠ slash) : b ∈ pathOf rest ↔ b ∈ tailOf rest := by
  rw [pathOf, tailOf]
  cases findFirstOf slash question rest with
  | none => simpa using hb
  | some e =>
      dsimp only
      split
      · simp [hb]
      · rfl

/-- A parsed URL holds a foreign byte if and only if the part of the text that is kept does. -/
theorem mem_parseAuthority {tls : Bool} {rest : Bytes} {url : ParsedUrl}
    (h : parseAuthority tls rest = .ok url) (hb : Foreign b) :
    (b ∈ url.host ∨ b ∈ url.path) ↔ b ∈ carriedAuthority rest := by
  obtain ⟨hpath, hhost⟩ := parseAuthority_ok h
  rw [carriedAuthority, List.mem_append, hpath, mem_pathOf (hb.ne (by decide))]
  refine or_congr ?_ Iff.rfl
  obtain hwhole | ⟨c, port, hcolon, hport, hfront⟩ := hhost
  · rw [hwhole]
  · rw [hfront, mem_iff_of_getElem? hcolon (hb.ne (by decide))]
    exact (or_iff_left (hb.notMem_parseInt hport)).symm

/-- The host of a parsed URL ends in front of its path. -/
theorem ne_of_mem_host {original : Bytes} {url : ParsedUrl} (h : parseUrl original = .ok url)
    (hc : c ∈ url.host) : c ≠ slash ∧ c ≠ question := by
  have hauthority : ∀ {tls rest}, parseAuthority tls rest = .ok url → c ≠ slash ∧ c ≠ question := by
    intro tls rest h
    obtain ⟨-, hwhole | ⟨i, port, -, -, hfront⟩⟩ := parseAuthority_ok h
    · exact ne_of_mem_authorityOf (mem_of_mem_behindUserinfo (hwhole ▸ hc))
    · rw [hfront] at hc
      exact ne_of_mem_authorityOf (mem_of_mem_behindUserinfo (List.mem_of_mem_take hc))
  unfold parseUrl at h
  split at h
  · exact hauthority h
  · split at h
    · exact hauthority h
    · cases h

/-! ## Paths -/

theorem mem_joinSegments {segments : List Bytes} (hb : b ≠ slash) :
    b ∈ joinSegments segments ↔ b ∈ segments.flatten := by
  induction segments with
  | nil => simp [joinSegments]
  | cons s segments ih =>
      cases segments with
      | nil => simp [joinSegments]
      | cons s' segments => simp [joinSegments, hb, ih]

/-- The segments that are left, behind slashes, and the query. -/
theorem normalizePath_eq (path : Bytes) : ∃ directory : Bool, normalizePath path =
    slash :: (joinSegments (segmentsLeft path).reverse ++ (if directory then [slash] else []) ++
      queryOf path) := by
  have hfold : ∃ directory : Bool, normalizePath path =
      (if directory then (slash :: joinSegments (segmentsLeft path).reverse) ++ [slash]
        else slash :: joinSegments (segmentsLeft path).reverse) ++ queryOf path := by
    refine ⟨decide (pathPartOf path ≠ [] ∧ 1 < (slash :: joinSegments (segmentsLeft path).reverse).length ∧
      ((pathPartOf path).getLast? == some slash || pathPartOf path == dot ||
        pathPartOf path == dotdot || endsWith (pathPartOf path) (slash :: dot) ||
        endsWith (pathPartOf path) (slash :: dotdot)) = true), ?_⟩
    simp only [decide_eq_true_eq]
    rfl
  obtain ⟨directory, hfold⟩ := hfold
  refine ⟨directory, hfold.trans ?_⟩
  cases directory <;> simp

/-- Of the path in front of its query the segments are kept, of the query all of it. -/
theorem mem_normalizePath {path : Bytes} (hb : b ≠ slash) :
    b ∈ normalizePath path ↔ b ∈ (segmentsLeft path).flatten ++ queryOf path := by
  obtain ⟨directory, hpath⟩ := normalizePath_eq path
  rw [hpath]
  cases directory <;> simp [hb, mem_joinSegments hb]

theorem mem_splitPath {fuel : ℕ} {path : Bytes} (h : s ∈ splitPath fuel path) (hc : c ∈ s) :
    c ∈ path := by
  induction fuel generalizing path with
  | zero => cases h
  | succ fuel ih =>
      cases path with
      | nil => cases h
      | cons d path =>
          obtain rfl | h := List.mem_cons.mp h
          · exact (List.takeWhile_sublist _).subset hc
          · exact List.mem_of_mem_drop (ih h)

/-- The loop of `NormalizePath` keeps segments of the path only. -/
theorem mem_foldl_pushSegment {segments kept : List Bytes}
    (h : s ∈ segments.foldl pushSegment kept) : s ∈ kept ∨ s ∈ segments := by
  induction segments generalizing kept with
  | nil => exact .inl h
  | cons t segments ih =>
      obtain hkept | hmore := ih h
      · unfold pushSegment at hkept
        split at hkept
        · exact .inl (List.mem_of_mem_drop hkept)
        · split at hkept
          · exact .inl hkept
          · obtain rfl | hkept := List.mem_cons.mp hkept
            · exact .inr List.mem_cons_self
            · exact .inl hkept
      · exact .inr (List.mem_cons_of_mem _ hmore)

/-- What is left of a path was in it. -/
theorem mem_of_mem_segmentsLeft {path : Bytes} (h : c ∈ (segmentsLeft path).flatten) : c ∈ path := by
  obtain ⟨s, hs, hc⟩ := List.mem_flatten.mp h
  obtain hnil | hsegment := mem_foldl_pushSegment hs
  · cases hnil
  · exact mem_of_mem_upTo (mem_splitPath hsegment hc)

theorem mem_of_mem_queryOf {path : Bytes} (h : c ∈ queryOf path) : c ∈ path := by
  unfold queryOf at h
  split at h
  · cases h
  · exact List.mem_of_mem_drop h

theorem mem_of_mem_resolvePath {source : ParsedUrl} {location : Bytes}
    (h : c ∈ resolvePath source location) : c ∈ source.path ∨ c ∈ location := by
  unfold resolvePath at h
  dsimp only at h
  split at h
  · exact (List.mem_append.mp h).imp mem_of_mem_upTo id
  · split at h
    · exact .inr h
    · refine (List.mem_append.mp h).imp (fun hm => ?_) id
      split at hm
      · cases hm
      · exact mem_of_mem_upTo (List.mem_of_mem_take hm)

/-! ## What a Location is resolved to -/

/-- An authority in front of a path that begins with a slash is cut out again. -/
theorem authorityOf_append {authority : Bytes} (h : ∀ c ∈ authority, c ≠ slash ∧ c ≠ question)
    (path : Bytes) :
    authorityOf (authority ++ slash :: path) = authority ∧
      tailOf (authority ++ slash :: path) = slash :: path ∧
      pathOf (authority ++ slash :: path) = slash :: path := by
  have hfind : findFirstOf slash question (authority ++ slash :: path) = some authority.length := by
    rw [findFirstOf, List.findIdx?_append, List.findIdx?_eq_none_iff.mpr]
    · simp [List.findIdx?_cons]
    · intro c hc
      simpa using h c hc
  have hdrop : (authority ++ slash :: path).drop authority.length = slash :: path := List.drop_left
  refine ⟨?_, ?_, ?_⟩
  · rw [authorityOf, hfind, upTo, List.take_left]
  · rw [tailOf, hfind]
    exact hdrop
  · rw [pathOf, hfind]
    dsimp only
    rw [hdrop, if_neg (by simp [slash, question])]

/-- A relative Location is resolved against the base's host, and the path behind it begins with a
slash. -/
theorem mem_carriedAuthority_relative {host port path : Bytes}
    (hhost : ∀ c ∈ host ++ port, c ≠ slash ∧ c ≠ question) (hport : b ∉ port ∧ at' ∉ port) :
    b ∈ carriedAuthority (host ++ port ++ slash :: path) ↔
      b ∈ behindUserinfo host ∨ b ∈ slash :: path := by
  obtain ⟨hauthority, htail, -⟩ := authorityOf_append hhost path
  have huserinfo : behindUserinfo (host ++ port) = behindUserinfo host ++ port := by
    cases hat : findByte at' host with
    | none =>
        have hnone : findByte at' (host ++ port) = none := by
          rw [findByte_eq_none] at hat ⊢
          simp [hat, hport.2]
        rw [behindUserinfo, hnone, behindUserinfo, hat]
    | some i =>
        have hlt := (List.findIdx?_eq_some_iff_getElem.mp hat).1
        rw [behindUserinfo, findByte_append_left port hat, behindUserinfo, hat]
        exact List.drop_append_of_le_length (by omega)
  rw [carriedAuthority, hauthority, htail, huserinfo]
  simp [hport.1]

theorem eq_append_of_startsWith {pre : Bytes} (h : startsWith s pre = true) :
    s = pre ++ s.drop pre.length :=
  (List.prefix_iff_eq_append.mp (List.isPrefixOf_iff_prefix.mp h)).symm

theorem parseUrl_scheme (tls : Bool) (rest : Bytes) :
    parseUrl ((if tls then httpsScheme else httpScheme) ++ rest) = parseAuthority tls rest := by
  cases tls <;> rfl

/-- The URL that `ResolveRedirect` puts together, before it is parsed. -/
def resolved (source : ParsedUrl) (loc : Bytes) : Result Bytes :=
  if startsWith loc httpScheme ∨ startsWith loc httpsScheme then .ok loc
  else if startsWith loc [slash, slash] then
    .ok ((if source.tls then httpsScheme else httpScheme).dropLast.dropLast ++ loc)
  else if colon ∈ upTo loc (findFirstOf slash question loc) then
    .error ⟨.kProtocolError, 0,
      "the redirect names a scheme this client cannot follow: " ++ text loc⟩
  else
    .ok ((if source.tls then httpsScheme else httpScheme) ++ source.host ++
      (if source.port = defaultPort source.tls then [] else colon :: decimal source.port) ++
      normalizePath (resolvePath source loc))

theorem resolveRedirect_eq (source : ParsedUrl) (location : Bytes) : resolveRedirect source location =
    if upTo location (findByte hash location) = [] then
      .error ⟨.kProtocolError, 0, "the redirect has an empty Location"⟩
    else
      match resolved source (upTo location (findByte hash location)) with
      | .error e => .error e
      | .ok resolved =>
          match parseUrl resolved with
          | .ok url => .ok url
          | .error _ => .error ⟨.kProtocolError, 0,
              "the redirect points somewhere this client cannot go: " ++ text resolved⟩ := rfl

theorem resolveRedirect_ok {source url : ParsedUrl} {location : Bytes}
    (h : resolveRedirect source location = .ok url) :
    ∃ r, resolved source (upTo location (findByte hash location)) = .ok r ∧ parseUrl r = .ok url := by
  rw [resolveRedirect_eq] at h
  split at h
  · cases h
  · split at h
    · cases h
    · rename_i r hr
      refine ⟨r, hr, ?_⟩
      split at h
      · rename_i hparse
        rw [hparse, ← Except.ok.inj h]
      · cases h

/-- A Location without an authority adds to the base's host what is left of its path. -/
theorem mem_resolved_relative {original loc : Bytes} {source url : ParsedUrl}
    (hsource : parseUrl original = .ok source)
    (hparse : parseUrl ((if source.tls then httpsScheme else httpScheme) ++ source.host ++
      (if source.port = defaultPort source.tls then [] else colon :: decimal source.port) ++
      normalizePath (resolvePath source loc)) = .ok url) (hb : Foreign b) :
    (b ∈ url.host ∨ b ∈ url.path) ↔ b ∈ behindUserinfo source.host ++
      (segmentsLeft (resolvePath source loc)).flatten ++ queryOf (resolvePath source loc) := by
  have hdigits : ∀ n, ∀ c ∈ decimal n, isDigit c = true := isDigit_of_mem_decimal
  have hport : ∀ c ∈ (if source.port = defaultPort source.tls then []
      else colon :: decimal source.port), c = colon ∨ isDigit c = true := by
    intro c hc
    split at hc
    · cases hc
    · exact (List.mem_cons.mp hc).imp id (hdigits _ c)
  generalize (if source.port = defaultPort source.tls then [] else colon :: decimal source.port) =
    port at hport hparse
  rw [List.append_assoc, List.append_assoc, parseUrl_scheme, ← List.append_assoc] at hparse
  obtain ⟨directory, hpath⟩ := normalizePath_eq (resolvePath source loc)
  have hmem : b ∈ normalizePath (resolvePath source loc) ↔ _ :=
    mem_normalizePath (hb.ne (by decide : ¬Foreign slash))
  rw [hpath] at hmem hparse
  rw [mem_parseAuthority hparse hb, mem_carriedAuthority_relative ?_ ?_, hmem]
  · simp
  · intro c hc
    obtain hc | hc := List.mem_append.mp hc
    · exact ne_of_mem_host hsource hc
    · obtain rfl | hdigit := hport c hc
      · decide
      · constructor <;> rintro rfl <;> exact absurd hdigit (by decide)
  · constructor
    · intro hm
      obtain rfl | hdigit := hport b hm
      · exact absurd hb (by decide)
      · exact absurd hdigit (hb.not_isDigit)
    · intro hm
      obtain hcolon | hdigit := hport at' hm
      · exact absurd hcolon (by decide)
      · exact absurd hdigit (by decide)

/-- The next URL holds a foreign byte if and only if one is carried into it. -/
theorem mem_resolveRedirect {original location : Bytes} {source url : ParsedUrl}
    (hsource : parseUrl original = .ok source) (h : resolveRedirect source location = .ok url)
    (hb : Foreign b) : (b ∈ url.host ∨ b ∈ url.path) ↔ b ∈ carried source location := by
  obtain ⟨r, hr, hparse⟩ := resolveRedirect_ok h
  rw [carried]
  generalize upTo location (findByte hash location) = loc at hr ⊢
  rw [resolved] at hr
  cases hhttp : startsWith loc httpScheme with
  | true =>
      rw [if_pos (.inl hhttp)] at hr
      obtain rfl := Except.ok.inj hr
      rw [parseUrl, if_pos hhttp] at hparse
      exact mem_parseAuthority hparse hb
  | false =>
      cases hhttps : startsWith loc httpsScheme with
      | true =>
          rw [if_pos (.inr hhttps)] at hr
          obtain rfl := Except.ok.inj hr
          rw [parseUrl, if_neg (by simp [hhttp]), if_pos hhttps] at hparse
          exact mem_parseAuthority hparse hb
      | false =>
          rw [if_neg (by simp [hhttp, hhttps])] at hr
          cases hnetwork : startsWith loc [slash, slash] with
          | true =>
              rw [if_pos hnetwork] at hr
              obtain rfl := Except.ok.inj hr
              have hscheme : (if source.tls then httpsScheme else httpScheme).dropLast.dropLast ++ loc =
                  (if source.tls then httpsScheme else httpScheme) ++ loc.drop 2 := by
                conv_lhs => rw [eq_append_of_startsWith hnetwork]
                cases source.tls <;> rfl
              rw [hscheme, parseUrl_scheme] at hparse
              exact mem_parseAuthority hparse hb
          | false =>
              rw [if_neg (by simp [hnetwork])] at hr
              split at hr
              · cases hr
              · obtain rfl := Except.ok.inj hr
                exact mem_resolved_relative hsource hparse hb

/-- A fragment never travels: a number sign in what is carried comes from the base. -/
theorem hash_of_mem_carried {source : ParsedUrl} {location : Bytes}
    (h : hash ∈ carried source location) : hash ∈ source.host ∨ hash ∈ source.path := by
  have hcut := notMem_upTo_findByte hash location
  rw [carried] at h
  generalize upTo location (findByte hash location) = loc at h hcut
  have hauthority : ∀ n, hash ∉ carriedAuthority (loc.drop n) :=
    fun n hm => hcut (List.mem_of_mem_drop (mem_of_mem_carriedAuthority hm))
  split at h
  · exact absurd h (hauthority 7)
  · split at h
    · exact absurd h (hauthority 8)
    · split at h
      · exact absurd h (hauthority 2)
      · have hpath : hash ∉ source.path → hash ∉ resolvePath source loc :=
          fun hnot hm => (mem_of_mem_resolvePath hm).elim hnot hcut
        rw [List.mem_append, List.mem_append] at h
        by_contra hnone
        rw [not_or] at hnone
        obtain (hhost | hsegments) | hquery := h
        · exact hnone.1 (mem_of_mem_behindUserinfo hhost)
        · exact hpath hnone.2 (mem_of_mem_segmentsLeft hsegments)
        · exact hpath hnone.2 (mem_of_mem_queryOf hquery)

end

end EspModemLink.Http
