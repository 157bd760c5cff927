import EspModemLink.Http.LocationBytes
import Mathlib.Data.List.Count

/-!
# The authority of a URL

An authority is `[userinfo "@"] host [":" port]`. `ParseUrl` cuts one out of a URL and takes it
apart; `ResolveRedirect` writes one down again and hands it to `ParseUrl` a second time.
-/

namespace EspModemLink.Http

open Bytes AtParser

/-! ## Cutting at a byte -/

section

variable {c : UInt8} {s t : Bytes} {i : ℕ}

theorem findByte_cut (h : findByte c s = some i) :
    c ∉ s.take i ∧ s = s.take i ++ c :: s.drop (i + 1) := by
  obtain ⟨before, after, rfl, hc, rfl⟩ := findByte_eq_some_iff.mp h
  have hbehind : (before ++ c :: after).drop (before.length + 1) = after := by
    rw [List.drop_append]
    simp
  rw [List.take_left, hbehind]
  exact ⟨hc, rfl⟩

theorem rfindByte_eq_none : rfindByte c s = none ↔ c ∉ s := by
  rw [rfindByte, Option.map_eq_none_iff, findByte_eq_none, List.mem_reverse]

/-- The last occurrence is the one that no other stands behind. -/
theorem rfindByte_append (h : c ∉ t) : rfindByte c (s ++ c :: t) = some s.length := by
  have hreverse : (s ++ c :: t).reverse = t.reverse ++ c :: s.reverse := by simp
  rw [rfindByte, hreverse, findByte_append _ (by simpa using h), Option.map_some]
  congr 1
  simp

theorem rfindByte_cut (h : rfindByte c s = some i) :
    c ∉ s.drop (i + 1) ∧ s = s.take i ++ c :: s.drop (i + 1) := by
  obtain ⟨hlt, hc⟩ := List.getElem?_eq_some_iff.mp (getElem?_of_rfindByte h)
  refine ⟨?_, ?_⟩
  · obtain ⟨j, hj, rfl⟩ := Option.map_eq_some_iff.mp h
    have hj' := (List.findIdx?_eq_some_iff_getElem.mp hj).1
    rw [List.length_reverse] at hj'
    have hbehind := (findByte_cut hj).1
    rw [List.take_reverse, List.mem_reverse] at hbehind
    rwa [show s.length - 1 - j + 1 = s.length - j by omega]
  · conv_lhs => rw [← List.take_append_drop i s, List.drop_eq_getElem_cons hlt, hc]

end

/-! ## Authorities -/

/-- An authority by its parts: the userinfo ends at the first "@", the port begins behind the last
":". -/
structure Authority where
  userinfo : Option Bytes
  host : Bytes
  port : Option Bytes
  userinfo_ends : ∀ u ∈ userinfo, at' ∉ u
  host_begins : userinfo = none → at' ∉ host ++ (port.map (colon :: ·)).getD []
  port_begins : ∀ p ∈ port, colon ∉ p
  host_ends : port = none → colon ∉ host

namespace Authority

/-- ":" and the port, where there is one. -/
def portText (a : Authority) : Bytes := (a.port.map (colon :: ·)).getD []

def bytes (a : Authority) : Bytes :=
  (a.userinfo.map (· ++ [at'])).getD [] ++ (a.host ++ a.portText)

theorem behindUserinfo_bytes (a : Authority) : behindUserinfo a.bytes = a.host ++ a.portText := by
  cases hu : a.userinfo with
  | none =>
      have hnone : findByte at' a.bytes = none := by
        rw [bytes, hu, findByte_eq_none]
        exact a.host_begins hu
      rw [behindUserinfo, hnone, bytes, hu]
      rfl
  | some u =>
      have hbytes : a.bytes = u ++ at' :: (a.host ++ a.portText) := by simp [bytes, hu]
      rw [behindUserinfo, hbytes, findByte_append _ (a.userinfo_ends u hu)]
      simp

/-- Every text is the text of an authority. -/
theorem exists_bytes (s : Bytes) : ∃ a : Authority, a.bytes = s := by
  obtain ⟨u, rest, hrest, hends, hbegins⟩ : ∃ (u : Option Bytes) (rest : Bytes),
      s = (u.map (· ++ [at'])).getD [] ++ rest ∧ (∀ v ∈ u, at' ∉ v) ∧ (u = none → at' ∉ rest) := by
    cases h : findByte at' s with
    | none => exact ⟨none, s, rfl, by simp, fun _ => findByte_eq_none.mp h⟩
    | some i =>
        obtain ⟨hfirst, hcut⟩ := findByte_cut h
        exact ⟨some (s.take i), s.drop (i + 1), by simpa using hcut, by simpa using hfirst, by simp⟩
  obtain ⟨p, host, hhost, hport, hnone⟩ : ∃ (p : Option Bytes) (host : Bytes),
      rest = host ++ (p.map (colon :: ·)).getD [] ∧ (∀ q ∈ p, colon ∉ q) ∧
        (p = none → colon ∉ host) := by
    cases h : rfindByte colon rest with
    | none => exact ⟨none, rest, by simp, by simp, fun _ => rfindByte_eq_none.mp h⟩
    | some i =>
        obtain ⟨hlast, hcut⟩ := rfindByte_cut h
        exact ⟨some (rest.drop (i + 1)), rest.take i, by simpa using hcut, by simpa using hlast, by simp⟩
  subst hhost
  exact ⟨⟨u, host, p, hends, hbegins, hport, hnone⟩, hrest.symm⟩

/-- The port that an authority says for a scheme. -/
def SaysPort (a : Authority) (tls : Bool) (port : ℕ) : Prop :=
  match a.port with
  | none => port = defaultPort tls
  | some digits => parseInt digits = some (port : Int) ∧ 1 ≤ port ∧ port ≤ 65535

end Authority

/-- `ParseUrl` reads the parts of the authority that it cuts out. -/
theorem parseAuthority_eq_ok {tls : Bool} {rest : Bytes} {url : ParsedUrl} (a : Authority)
    (ha : a.bytes = authorityOf rest) : parseAuthority tls rest = .ok url ↔
      url.tls = tls ∧ url.host = a.host ∧ a.SaysPort tls url.port ∧ url.path = pathOf rest ∧
        url.host ≠ [] := by
  have hbehind : behindUserinfo (authorityOf rest) = a.host ++ a.portText := by
    rw [← ha, a.behindUserinfo_bytes]
  have hempty : authorityOf rest = [] → a.host = [] ∧ a.portText = [] := by
    intro hnil
    rw [← ha, Authority.bytes] at hnil
    simpa using (List.append_eq_nil_iff.mp hnil).2
  rw [parseAuthority_eq, hbehind]
  obtain ⟨urlTls, urlHost, urlPort, urlPath⟩ := url
  cases hp : a.port with
  | none =>
      have htext : a.portText = [] := by rw [Authority.portText, hp]; rfl
      have hlast : rfindByte colon (a.host ++ a.portText) = none := by
        rw [htext, List.append_nil]
        exact rfindByte_eq_none.mpr (a.host_ends hp)
      rw [hlast, htext, List.append_nil, Authority.SaysPort, hp]
      by_cases hhost : a.host = []
      · simp only [hhost, if_true, ite_self]
        simpa [urlError] using fun _ h _ _ => h
      · rw [if_neg fun h => hhost (hempty h).1, if_neg hhost]
        simp only [Except.ok.injEq, ParsedUrl.mk.injEq]
        grind
  | some digits =>
      have htext : a.portText = colon :: digits := by rw [Authority.portText, hp]; rfl
      have hlast : rfindByte colon (a.host ++ a.portText) = some a.host.length := by
        rw [htext]
        exact rfindByte_append (a.port_begins digits hp)
      have hne : authorityOf rest ≠ [] := fun h => by simp [(hempty h).2] at htext
      have hdigits : (a.host ++ colon :: digits).drop (a.host.length + 1) = digits := by simp
      have hhost : (a.host ++ colon :: digits).take a.host.length = a.host := by simp
      rw [if_neg hne, hlast, htext, Authority.SaysPort, hp]
      dsimp only
      rw [hdigits, hhost]
      cases parseInt digits with
      | none => simp [urlError]
      | some port =>
          dsimp only
          by_cases hrange : port ≤ 0 ∨ 65535 < port
          · rw [if_pos hrange]
            simp [urlError]
            omega
          · rw [if_neg hrange]
            by_cases hnil : a.host = []
            · rw [if_pos hnil]
              simpa [urlError, hnil] using fun _ h _ _ _ _ => h
            · rw [if_neg hnil]
              simp only [Except.ok.injEq, ParsedUrl.mk.injEq, Option.some.injEq]
              constructor
              · rintro ⟨rfl, rfl, rfl, rfl⟩
                exact ⟨rfl, rfl, by omega, rfl, hnil⟩
              · rintro ⟨rfl, rfl, ⟨rfl, -, -⟩, rfl, -⟩
                exact ⟨rfl, rfl, rfl, rfl⟩

/-- What a URL that is accepted was read from. -/
theorem parseUrl_ok {original : Bytes} {url : ParsedUrl} (h : parseUrl original = .ok url) :
    ∃ rest, original = (if url.tls then httpsScheme else httpScheme) ++ rest ∧
      parseAuthority url.tls rest = .ok url := by
  have htls : ∀ {tls rest}, parseAuthority tls rest = .ok url → url.tls = tls := by
    intro tls rest hparse
    obtain ⟨a, ha⟩ := Authority.exists_bytes (authorityOf rest)
    exact ((parseAuthority_eq_ok a ha).mp hparse).1
  unfold parseUrl at h
  split at h
  · rename_i hhttp
    have hplain : url.tls = false := htls h
    rw [hplain]
    exact ⟨original.drop 7, eq_append_of_startsWith hhttp, h⟩
  · split at h
    · rename_i hhttps
      have hsecure : url.tls = true := htls h
      rw [hsecure]
      exact ⟨original.drop 8, eq_append_of_startsWith hhttps, h⟩
    · cases h

/-- The host of a URL that is accepted is not empty, and its port is one. -/
theorem parseUrl_wellFormed {original : Bytes} {url : ParsedUrl} (h : parseUrl original = .ok url) :
    url.host ≠ [] ∧ 1 ≤ url.port ∧ url.port ≤ 65535 := by
  obtain ⟨rest, -, hparse⟩ := parseUrl_ok h
  obtain ⟨a, ha⟩ := Authority.exists_bytes (authorityOf rest)
  obtain ⟨-, -, hport, -, hhost⟩ := (parseAuthority_eq_ok a ha).mp hparse
  refine ⟨hhost, ?_⟩
  rw [Authority.SaysPort] at hport
  split at hport
  · rw [hport, defaultPort]
    split <;> decide
  · exact hport.2

/-! ## An authority that is written down again -/

/-- The authority that `ResolveRedirect` writes for a relative Location. -/
def writtenAuthority (source : ParsedUrl) : Bytes :=
  source.host ++ if source.port = defaultPort source.tls then [] else colon :: decimal source.port

/-- The separators in the host cannot be taken for those of the authority. -/
def PlainAuthority (source : ParsedUrl) : Prop :=
  at' ∉ source.host ∧ (source.port = defaultPort source.tls → colon ∉ source.host)

theorem mem_writtenAuthority {original : Bytes} {source : ParsedUrl}
    (h : parseUrl original = .ok source) :
    ∀ c ∈ writtenAuthority source, c ≠ slash ∧ c ≠ question := by
  intro c hc
  obtain hhost | hport := List.mem_append.mp hc
  · exact ne_of_mem_host h hhost
  · split at hport
    · cases hport
    · obtain rfl | hdigit := List.mem_cons.mp hport
      · decide
      · have hc' := isDigit_of_mem_decimal _ c hdigit
        constructor <;> rintro rfl <;> exact absurd hc' (by decide)

/-- A plain authority is written down with its separators where they were. -/
theorem exists_written {source : ParsedUrl} (hport : 1 ≤ source.port ∧ source.port ≤ 65535)
    (h : PlainAuthority source) : ∃ a : Authority,
      a.bytes = writtenAuthority source ∧ a.host = source.host ∧
        a.SaysPort source.tls source.port := by
  have hdigit : ∀ c, isDigit c = false → c ∉ decimal source.port := by
    intro c hc hmem
    exact absurd (isDigit_of_mem_decimal _ c hmem) (by simp [hc])
  by_cases hdefault : source.port = defaultPort source.tls
  · refine ⟨⟨none, source.host, none, by simp, fun _ => by simpa using h.1, by simp,
      fun _ => h.2 hdefault⟩, ?_, rfl, hdefault⟩
    simp [Authority.bytes, Authority.portText, writtenAuthority, hdefault]
  · have hat : at' ∉ source.host ++ colon :: decimal source.port := by
      have hne : at' ≠ colon := by decide
      simpa [hne, h.1] using hdigit at' rfl
    refine ⟨⟨none, source.host, some (decimal source.port), by simp, fun _ => hat,
      fun p hp => Option.some.inj hp ▸ hdigit colon rfl, by simp⟩, ?_, rfl, ?_⟩
    · simp [Authority.bytes, Authority.portText, writtenAuthority, hdefault]
    · exact ⟨parseInt_decimal (by omega), hport⟩

/-- Where the host is read back, none of its separators was taken for one of the authority. -/
theorem plain_of_written {source : ParsedUrl} {a : Authority} (ha : a.bytes = writtenAuthority source)
    (hhost : a.host = source.host) : PlainAuthority source := by
  have hcount : ∀ c, a.bytes.count c = (writtenAuthority source).count c := fun c => by rw [ha]
  constructor
  · cases hu : a.userinfo with
    | none => exact fun hmem => a.host_begins hu (List.mem_append_left _ (hhost ▸ hmem))
    | some u =>
        -- The "@" behind the userinfo would have to be one of the host that is read back.
        have hdigits : at' ∉ decimal source.port := fun hmem =>
          absurd (isDigit_of_mem_decimal _ at' hmem) (by decide)
        have hport : (if source.port = defaultPort source.tls then []
            else colon :: decimal source.port).count at' = 0 := by
          rw [List.count_eq_zero]
          split
          · exact List.not_mem_nil
          · exact List.not_mem_cons_of_ne_of_not_mem (by decide) hdigits
        have hat := hcount at'
        rw [writtenAuthority, List.count_append, hport, Authority.bytes, hu, hhost] at hat
        simp at hat
        omega
  · intro hdefault
    cases hp : a.port with
    | none => exact hhost ▸ a.host_ends hp
    | some p =>
        have hcolon := hcount colon
        rw [writtenAuthority, if_pos hdefault, Authority.bytes, Authority.portText, hp, hhost] at hcolon
        simp at hcolon
        omega

/-! ## A redirect that names no authority -/

/-- A Location without its fragment. -/
def withoutFragment (location : Bytes) : Bytes := upTo location (findByte hash location)

/-- A Location that names neither a scheme nor an authority. -/
structure IsRelative (location : Bytes) : Prop where
  nonempty : location ≠ []
  notHttp : startsWith location httpScheme = false
  notHttps : startsWith location httpsScheme = false
  notNetworkPath : startsWith location [slash, slash] = false
  notScheme : colon ∉ upTo location (findFirstOf slash question location)

instance (location : Bytes) : Decidable (IsRelative location) :=
  decidable_of_iff (location ≠ [] ∧ startsWith location httpScheme = false ∧
      startsWith location httpsScheme = false ∧ startsWith location [slash, slash] = false ∧
      colon ∉ upTo location (findFirstOf slash question location))
    ⟨fun ⟨h1, h2, h3, h4, h5⟩ => ⟨h1, h2, h3, h4, h5⟩, fun ⟨h1, h2, h3, h4, h5⟩ => ⟨h1, h2, h3, h4, h5⟩⟩

/-- Where the next request goes after a relative Location. -/
theorem resolveRedirect_relative {original location : Bytes} {source url : ParsedUrl}
    (hsource : parseUrl original = .ok source) (hlocation : IsRelative (withoutFragment location))
    (a : Authority) (ha : a.bytes = writtenAuthority source) :
    resolveRedirect source location = .ok url ↔
      url.tls = source.tls ∧ url.host = a.host ∧ a.SaysPort source.tls url.port ∧
        url.path = normalizePath (resolvePath source (withoutFragment location)) ∧ url.host ≠ [] := by
  obtain ⟨directory, hpath⟩ := normalizePath_eq (resolvePath source (withoutFragment location))
  have hresolved : resolved source (withoutFragment location) =
      .ok ((if source.tls then httpsScheme else httpScheme) ++
        (writtenAuthority source ++ normalizePath (resolvePath source (withoutFragment location)))) := by
    rw [resolved, if_neg (by simp [hlocation.notHttp, hlocation.notHttps]),
      if_neg (by simp [hlocation.notNetworkPath]), if_neg hlocation.notScheme, writtenAuthority]
    simp
  obtain ⟨hauthority, -, hpathOf⟩ := authorityOf_append (mem_writtenAuthority hsource) (joinSegments
    (segmentsLeft (resolvePath source (withoutFragment location))).reverse ++
      (if directory then [slash] else []) ++ queryOf (resolvePath source (withoutFragment location)))
  rw [← hpath] at hauthority hpathOf
  rw [← hpathOf, ← parseAuthority_eq_ok a (ha.trans hauthority.symm), ← parseUrl_scheme]
  constructor
  · intro h
    obtain ⟨r, hr, hparse⟩ := resolveRedirect_ok h
    rw [← withoutFragment, hresolved] at hr
    rwa [Except.ok.inj hr]
  · intro h
    rw [resolveRedirect_eq, ← withoutFragment, if_neg hlocation.nonempty, hresolved]
    dsimp only
    rw [h]

/-- The next request goes to the authority of the one that was answered. -/
def StaysOn (source : ParsedUrl) (location : Bytes) : Prop :=
  ∃ url, resolveRedirect source location = .ok url ∧ url.tls = source.tls ∧ url.host = source.host ∧
    url.port = source.port

/-- The authority that is written down is parsed into the one it was written from. -/
def ReadsBack (source : ParsedUrl) : Prop :=
  ∀ path, parseUrl ((if source.tls then httpsScheme else httpScheme) ++ writtenAuthority source ++
    slash :: path) = .ok { source with path := slash :: path }

/-- A relative redirect stays on its authority, and the authority that is written for it reads back,
if and only if the host holds no "@", and no ":" where the port is left out. -/
theorem staysOn_iff {original location : Bytes} {source : ParsedUrl}
    (hsource : parseUrl original = .ok source) (hlocation : IsRelative (withoutFragment location)) :
    (StaysOn source location ↔ PlainAuthority source) ∧ (ReadsBack source ↔ PlainAuthority source) := by
  obtain ⟨hhost, hport⟩ := parseUrl_wellFormed hsource
  have hclean := mem_writtenAuthority hsource
  refine ⟨⟨?_, fun h => ?_⟩, ⟨fun h => ?_, fun h path => ?_⟩⟩
  · rintro ⟨url, hurl, -, hsame, -⟩
    obtain ⟨a, ha⟩ := Authority.exists_bytes (writtenAuthority source)
    have hread := ((resolveRedirect_relative hsource hlocation a ha).mp hurl).2.1
    exact plain_of_written ha (hread.symm.trans hsame)
  · obtain ⟨a, ha, hsame, hsays⟩ := exists_written hport h
    refine ⟨{ source with path := normalizePath (resolvePath source (withoutFragment location)) },
      (resolveRedirect_relative hsource hlocation a ha).mpr ?_, rfl, rfl, rfl⟩
    exact ⟨rfl, hsame.symm, hsays, rfl, hhost⟩
  · obtain ⟨a, ha⟩ := Authority.exists_bytes (writtenAuthority source)
    have hread := h []
    rw [List.append_assoc, parseUrl_scheme,
      parseAuthority_eq_ok a (ha.trans (authorityOf_append hclean []).1.symm)] at hread
    exact plain_of_written ha hread.2.1.symm
  · obtain ⟨a, ha, hsame, hsays⟩ := exists_written hport h
    obtain ⟨hauthority, -, hpath⟩ := authorityOf_append hclean path
    rw [List.append_assoc, parseUrl_scheme, parseAuthority_eq_ok a (ha.trans hauthority.symm)]
    exact ⟨rfl, hsame.symm, hsays, hpath.symm, hhost⟩

/-- The base "http://h:81/" and the Location "/b". -/
theorem staysOn_iff_port :
    letI source : ParsedUrl := ⟨false, [104], 81, [slash]⟩
    (StaysOn source [slash, 98] ↔ PlainAuthority source) ∧
      (ReadsBack source ↔ PlainAuthority source) := by
  have hsource : parseUrl (httpScheme ++ [104, colon, 56, 49, slash]) =
      .ok ⟨false, [104], 81, [slash]⟩ := rfl
  exact staysOn_iff hsource (by decide)

/-- "[::1]". -/
def loopback : Bytes := ascii ['[', ':', ':', '1', ']']

/-- Behind "http://[::1]:80/" no relative Location can be followed; behind "http://a@b@c/" one leads
to another host. -/
theorem authority_not_readBack :
    parseUrl (httpScheme ++ loopback ++ [colon, 56, 48, slash]) = .ok ⟨false, loopback, 80, [slash]⟩ ∧
      IsRelative (withoutFragment [slash, 120]) ∧
      ¬StaysOn ⟨false, loopback, 80, [slash]⟩ [slash, 120] ∧
      parseUrl (httpScheme ++ [97, at', 98, at', 99, slash]) =
        .ok ⟨false, [98, at', 99], 80, [slash]⟩ ∧
      resolveRedirect ⟨false, [98, at', 99], 80, [slash]⟩ [slash, 120] =
        .ok ⟨false, [99], 80, [slash, 120]⟩ := by
  refine ⟨rfl, by decide, ?_, rfl, rfl⟩
  rintro ⟨url, hurl, -⟩
  have hparse : (parseUrl (httpScheme ++ loopback ++ [slash, 120])).toOption = none := rfl
  obtain ⟨r, hr, hurl⟩ := resolveRedirect_ok hurl
  obtain rfl := Except.ok.inj hr
  have hok : (parseUrl (httpScheme ++ loopback ++ [slash, 120])).toOption = some url :=
    congrArg Except.toOption hurl
  rw [hparse] at hok
  cases hok

/-! ## The authority of RFC 3986 -/

/-- The text behind the scheme. -/
def behindScheme (original : Bytes) : Bytes :=
  original.drop (if startsWith original httpScheme then 7 else 8)

/-- The authority ends in front of the first "/", "?" or "#". -/
def rfcAuthority (rest : Bytes) : Bytes :=
  rest.takeWhile fun b => b != slash && b != question && b != hash

/-- The path and the query end in front of the first "#". -/
def rfcTail (rest : Bytes) : Bytes := (rest.drop (rfcAuthority rest).length).takeWhile (· != hash)

/-- A URL is taken apart where RFC 3986 puts its authority. -/
structure FollowsRfc (original : Bytes) (url : ParsedUrl) : Prop where
  authority : authorityOf (behindScheme original) = rfcAuthority (behindScheme original)
  parts : ∃ a : Authority, a.bytes = rfcAuthority (behindScheme original) ∧ url.host = a.host ∧
    a.SaysPort url.tls url.port
  path_begins : url.path.head? = some slash
  path : url.path = rfcTail (behindScheme original) ∨
    url.path = slash :: rfcTail (behindScheme original)
  path_ends : hash ∉ url.path
  /-- What stands behind a "#" has no say. -/
  fragment : parseUrl (withoutFragment original) = .ok url

theorem behindScheme_append (tls : Bool) (rest : Bytes) :
    behindScheme ((if tls then httpsScheme else httpScheme) ++ rest) = rest := by
  cases tls <;> rfl

theorem upTo_findIdx? (p : UInt8 → Bool) (s : Bytes) :
    upTo s (s.findIdx? p) = s.takeWhile fun b => !p b := by
  induction s with
  | nil => rfl
  | cons b s ih =>
      rw [List.findIdx?_cons, List.takeWhile_cons]
      cases hb : p b with
      | true => simp [upTo]
      | false =>
          rw [← ih]
          cases s.findIdx? p <;> simp [upTo]

theorem authorityOf_append_tailOf (rest : Bytes) : authorityOf rest ++ tailOf rest = rest := by
  rw [authorityOf, tailOf]
  cases findFirstOf slash question rest with
  | none => exact List.append_nil rest
  | some e => exact List.take_append_drop e rest

theorem hash_notMem_rfcAuthority (rest : Bytes) : hash ∉ rfcAuthority rest := by
  intro hmem
  have hkept := List.mem_takeWhile_imp hmem
  simp at hkept

/-- Without a number sign both authorities end at the same place. -/
theorem authorityOf_eq_rfcAuthority {rest : Bytes} (h : hash ∉ rest) :
    authorityOf rest = rfcAuthority rest := by
  rw [authorityOf, findFirstOf, upTo_findIdx?, rfcAuthority]
  induction rest with
  | nil => rfl
  | cons b rest ih =>
      have hb : (b != hash) = true := by
        rw [bne_iff_ne]
        rintro rfl
        exact h List.mem_cons_self
      have ih := ih fun hmem => h (List.mem_cons_of_mem _ hmem)
      rw [List.takeWhile_cons, List.takeWhile_cons, ih, hb]
      simp

theorem tailOf_eq_rfcTail {rest : Bytes} (h : hash ∉ rest) : tailOf rest = rfcTail rest := by
  have hdrop : rest.drop (rfcAuthority rest).length = tailOf rest := by
    have hsplit := authorityOf_append_tailOf rest
    rw [authorityOf_eq_rfcAuthority h] at hsplit
    calc rest.drop (rfcAuthority rest).length
        = (rfcAuthority rest ++ tailOf rest).drop (rfcAuthority rest).length := by rw [hsplit]
      _ = tailOf rest := List.drop_left
  have htail : hash ∉ tailOf rest := fun hmem =>
    h (authorityOf_append_tailOf rest ▸ List.mem_append_right _ hmem)
  rw [rfcTail, hdrop, List.takeWhile_eq_self_iff.mpr]
  intro b hb
  simpa using fun hb' : b = hash => htail (hb' ▸ hb)

/-- The path is the tail, with a slash in front where it does not begin with one. -/
theorem pathOf_cases (rest : Bytes) : (pathOf rest).head? = some slash ∧
    (pathOf rest = tailOf rest ∨ pathOf rest = slash :: tailOf rest) := by
  rw [pathOf, tailOf]
  cases h : findFirstOf slash question rest with
  | none => simp
  | some e =>
      dsimp only
      split
      · simp
      · rename_i hquestion
        obtain ⟨hlt, hc, -⟩ := List.findIdx?_eq_some_iff_getElem.mp h
        have hhead : (rest.drop e).head? = some rest[e] := by
          rw [List.head?_drop, List.getElem?_eq_getElem hlt]
        have hne : rest[e] ≠ question := fun heq => hquestion (hhead.trans (congrArg some heq))
        rw [hhead]
        exact ⟨by simpa [hne] using hc, .inl rfl⟩

/-- A URL that is accepted is taken apart where RFC 3986 puts its authority if and only if it holds no
"#". -/
theorem followsRfc_iff {original : Bytes} {url : ParsedUrl} (h : parseUrl original = .ok url) :
    FollowsRfc original url ↔ hash ∉ original := by
  obtain ⟨rest, horiginal, hparse⟩ := parseUrl_ok h
  have hbehind : behindScheme original = rest := by rw [horiginal, behindScheme_append]
  have hmem : hash ∈ original ↔ hash ∈ rest := by
    have hscheme : hash ∉ (if url.tls then httpsScheme else httpScheme) := by
      cases url.tls <;> decide
    rw [horiginal, List.mem_append, or_iff_right hscheme]
  obtain ⟨a, ha⟩ := Authority.exists_bytes (authorityOf rest)
  obtain ⟨-, hhost, hport, hpath, -⟩ := (parseAuthority_eq_ok a ha).mp hparse
  have hcut : hash ∈ url.path ↔ hash ∈ tailOf rest := by
    rw [hpath]
    exact mem_pathOf (by decide)
  constructor
  · intro hfollows hhash
    have hfront : hash ∉ authorityOf rest := by
      have hauthority := hfollows.authority
      rw [hbehind] at hauthority
      rw [hauthority]
      exact hash_notMem_rfcAuthority rest
    rw [hmem, ← authorityOf_append_tailOf rest, List.mem_append] at hhash
    obtain hhash | hhash := hhash
    · exact hfront hhash
    · exact hfollows.path_ends (hcut.mpr hhash)
  · intro hhash
    have hrest : hash ∉ rest := mt hmem.mpr hhash
    have hsame := authorityOf_eq_rfcAuthority hrest
    obtain ⟨hbegins, hcases⟩ := pathOf_cases rest
    refine ⟨?_, ?_, ?_, ?_, ?_, ?_⟩
    · rw [hbehind, hsame]
    · rw [hbehind, ← hsame]
      exact ⟨a, ha, hhost, hport⟩
    · rw [hpath]
      exact hbegins
    · rw [hbehind, hpath, ← tailOf_eq_rfcTail hrest]
      exact hcases
    · rw [hcut]
      exact fun htail => hrest (authorityOf_append_tailOf rest ▸ List.mem_append_right _ htail)
    · rw [withoutFragment, findByte_eq_none.mpr hhash]
      exact h

/-- "http://u@h:81?q". -/
theorem followsRfc_iff_query :
    FollowsRfc (httpScheme ++ [117, at', 104, colon, 56, 49, question, 113])
        ⟨false, [104], 81, [slash, question, 113]⟩ ↔
      hash ∉ httpScheme ++ [117, at', 104, colon, 56, 49, question, 113] :=
  followsRfc_iff rfl

/-- "http://a#@b/" is requested from b. -/
theorem fragment_names_host :
    parseUrl (httpScheme ++ [97, hash, at', 98, slash]) = .ok ⟨false, [98], 80, [slash]⟩ ∧
      rfcAuthority (behindScheme (httpScheme ++ [97, hash, at', 98, slash])) = [97] ∧
      ¬FollowsRfc (httpScheme ++ [97, hash, at', 98, slash]) ⟨false, [98], 80, [slash]⟩ := by
  refine ⟨rfl, by decide, fun h => ?_⟩
  exact absurd h.authority (by decide)

end EspModemLink.Http
