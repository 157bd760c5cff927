import EspModemLink.Library.Rounds
import EspModemLink.Http.ClientSteps

/-!
# The hops of a request

An attempt sends one request head at most. A hop of `Execute` makes a second attempt behind a lost
connection, a hop of `Open` never does, and a redirect leads from one hop to the next.
-/

namespace EspModemLink.Http

open Bytes

/-! ## What is not an attempt -/

/-- Actions that make a transport or use one. -/
def Action.isOutbound : Action → Bool
  | .created .. | .connected .. | .began .. | .sent .. => true
  | _ => false

theorem Action.isOutbound_of_inbound {a : Action} (h : a.inbound = true) : a.isOutbound = false := by
  cases a <;> first | rfl | cases h

/-- The transport, what it was connected to, and no upload that was not there. -/
structure SameLink (c c' : SoftwareHttpClient) : Prop where
  transport : c'.transport = c.transport
  connected : c'.connected = c.connected
  host : c'.connectedHost = c.connectedHost
  port : c'.connectedPort = c.connectedPort
  tls : c'.connectedTls = c.connectedTls
  upload : c'.uploadActive = true → c.uploadActive = true

theorem SameLink.rfl {c : SoftwareHttpClient} : SameLink c c :=
  ⟨.refl _, .refl _, .refl _, .refl _, .refl _, id⟩

theorem SameLink.trans {c c' c'' : SoftwareHttpClient} (h : SameLink c c') (h' : SameLink c' c'') :
    SameLink c c'' :=
  ⟨h'.transport.trans h.transport, h'.connected.trans h.connected, h'.host.trans h.host,
    h'.port.trans h.port, h'.tls.trans h.tls, h.upload ∘ h'.upload⟩

/-- No transport, as `DropTransport` leaves it. -/
structure Down (c : SoftwareHttpClient) : Prop where
  transport : c.transport = none
  connected : c.connected = false

theorem Down.of_same {c c' : SoftwareHttpClient} (h : SameLink c c') (hdown : Down c) : Down c' :=
  ⟨h.transport.trans hdown.transport, h.connected.trans hdown.connected⟩

/-- What the caller has set that the next hops depend on. -/
structure SameSettings (c c' : SoftwareHttpClient) : Prop where
  headers : c'.headers = c.headers
  tls : c'.tls = c.tls
  followRedirects : c'.followRedirects = c.followRedirects
  maxRedirects : c'.maxRedirects = c.maxRedirects

theorem SameSettings.rfl {c : SoftwareHttpClient} : SameSettings c c :=
  ⟨.refl _, .refl _, .refl _, .refl _⟩

theorem SameSettings.trans {c c' c'' : SoftwareHttpClient} (h : SameSettings c c')
    (h' : SameSettings c' c'') : SameSettings c c'' :=
  ⟨h'.headers.trans h.headers, h'.tls.trans h.tls, h'.followRedirects.trans h.followRedirects,
    h'.maxRedirects.trans h.maxRedirects⟩

/-- Nothing is sent and no transport is made. The one there is stays or is dropped. -/
structure Rests (c c' : Conn) : Prop where
  trace : ∃ more, c'.trace = c.trace ++ more ∧ ∀ a ∈ more, a.isOutbound = false
  request : c'.request = c.request
  settings : SameSettings c.client c'.client
  link : SameLink c.client c'.client ∨ Down c'.client

theorem Rests.of_eq {c c' : Conn} (htrace : c'.trace = c.trace) (hrequest : c'.request = c.request)
    (hsettings : SameSettings c.client c'.client) (hlink : SameLink c.client c'.client) :
    Rests c c' :=
  ⟨⟨[], by rw [htrace, List.append_nil], by simp⟩, hrequest, hsettings, .inl hlink⟩

theorem Rests.rfl {c : Conn} : Rests c c := .of_eq (.refl _) (.refl _) .rfl .rfl

theorem Rests.trans {c c' c'' : Conn} (h : Rests c c') (h' : Rests c' c'') : Rests c c'' := by
  obtain ⟨more, htrace, hmore⟩ := h.trace
  obtain ⟨more', htrace', hmore'⟩ := h'.trace
  refine ⟨⟨more ++ more', by rw [htrace', htrace, List.append_assoc], ?_⟩,
    h'.request.trans h.request, h.settings.trans h'.settings, ?_⟩
  · intro a ha
    obtain ha | ha := List.mem_append.mp ha
    · exact hmore a ha
    · exact hmore' a ha
  · obtain hlink' | hdown := h'.link
    · exact h.link.imp (·.trans hlink') (·.of_same hlink')
    · exact .inr hdown

theorem rests_dropTransport (c : Conn) : Rests c c.dropTransport ∧ Down c.dropTransport.client := by
  obtain ⟨more, htrace, hmore⟩ := c.dropTransport_trace
  refine ⟨⟨⟨more, htrace, fun a ha => ?_⟩, ?_, ⟨rfl, rfl, rfl, rfl⟩, .inr ⟨rfl, rfl⟩⟩, ⟨rfl, rfl⟩⟩
  · obtain ⟨t, rfl⟩ := hmore a ha
    rfl
  · unfold Conn.dropTransport
    split <;> rfl

section

variable [Target]

theorem feedParser_link (client : SoftwareHttpClient) (bytes : Bytes) :
    SameLink client (Conn.feedParser client bytes) ∧
      SameSettings client (Conn.feedParser client bytes) := by
  unfold Conn.feedParser Conn.handleBody
  dsimp only
  split <;> split <;> exact ⟨⟨rfl, rfl, rfl, rfl, rfl, id⟩, ⟨rfl, rfl, rfl, rfl⟩⟩

theorem rests_handle (c : Conn) (e : Event) :
    Rests c (c.handle e) ∧ SameLink c.client (c.handle e).client := by
  obtain ⟨more, htrace, hmore⟩ := c.handle_trace e
  have hsame : SameLink c.client (c.handle e).client ∧ SameSettings c.client (c.handle e).client := by
    cases ht : c.client.transport with
    | none =>
        simp only [Conn.handle, ht]
        exact ⟨.rfl, .rfl⟩
    | some t =>
        cases e with
        | data answers bytes =>
            simp only [Conn.handle, ht, Conn.onTransportData]
            split
            · exact ⟨.rfl, .rfl⟩
            · exact feedParser_link c.client bytes
        | closed | error =>
            simp only [Conn.handle, ht]
            exact ⟨⟨rfl, rfl, rfl, rfl, rfl, id⟩, ⟨rfl, rfl, rfl, rfl⟩⟩
  refine ⟨⟨⟨more, htrace, fun a ha => Action.isOutbound_of_inbound (hmore a ha)⟩,
    (c.handle_sameDriver e).request, hsame.2, .inl hsame.1⟩, hsame.1⟩

theorem rests_handleAll (c : Conn) (es : List Event) :
    Rests c (c.handleAll es) ∧ SameLink c.client (c.handleAll es).client := by
  induction es generalizing c with
  | nil => exact ⟨.rfl, .rfl⟩
  | cons e es ih =>
      obtain ⟨hrests, hlink⟩ := rests_handle c e
      obtain ⟨hrests', hlink'⟩ := ih (c.handle e)
      exact ⟨hrests.trans hrests', hlink.trans hlink'⟩

variable (env : Env)

theorem rests_yield (w : World) :
    Rests w.toConn (w.yield env).toConn ∧ SameLink w.client (w.yield env).client :=
  rests_handleAll _ _

omit [Target] in
theorem rests_drop (w : World) : Rests w.toConn w.dropTransport.toConn ∧ Down w.dropTransport.client :=
  rests_dropTransport w.toConn

theorem rests_yield_drop (w : World) :
    Rests w.toConn (w.yield env).dropTransport.toConn ∧ Down (w.yield env).dropTransport.client :=
  ⟨(rests_yield env w).1.trans (rests_drop _).1, (rests_drop _).2⟩

/-! ## Attempts -/

omit [Target] in
/-- What comes before the head of a request: a transport is made as its URL asks. -/
def Prepares (url : ParsedUrl) (config : TlsConfig) : Action → Prop
  | .created _ tls config' => tls = url.tls ∧ config' = if url.tls then config else {}
  | .sent .. => False
  | _ => True

omit [Target] in
theorem prepares_of_rests {url : ParsedUrl} {config : TlsConfig} {a : Action}
    (h : a.isOutbound = false) : Prepares url config a := by
  cases a with
  | sent => cases h
  | created => cases h
  | _ => trivial

omit [Target] in
/-- The transport that is held was connected to a URL. -/
structure LinkedTo (t : ℕ) (url : ParsedUrl) (c : SoftwareHttpClient) : Prop where
  transport : c.transport = some t
  connected : c.connected = true
  host : url.host = c.connectedHost
  port : url.port = c.connectedPort
  tls : url.tls = c.connectedTls

omit [Target] in
theorem LinkedTo.of_same {t : ℕ} {url : ParsedUrl} {c c' : SoftwareHttpClient}
    (h : SameLink c c') (hlinked : LinkedTo t url c) : LinkedTo t url c' :=
  ⟨h.transport.trans hlinked.transport, h.connected.trans hlinked.connected,
    hlinked.host.trans h.host.symm, hlinked.port.trans h.port.symm, hlinked.tls.trans h.tls.symm⟩

omit [Target] in
theorem LinkedTo.before {t : ℕ} {url : ParsedUrl} {c c' : SoftwareHttpClient}
    (h : SameLink c c') (hlinked : LinkedTo t url c') : LinkedTo t url c :=
  ⟨h.transport.symm.trans hlinked.transport, h.connected.symm.trans hlinked.connected,
    hlinked.host.trans h.host, hlinked.port.trans h.port, hlinked.tls.trans h.tls⟩

omit [Target] in
/-- A transport was made and connected as a URL asks. -/
structure OpenedFor (t : ℕ) (url : ParsedUrl) (trace : List Action) : Prop where
  created : ∃ config, .created t url.tls config ∈ trace
  connected : .connected t url.host url.port ∈ trace

omit [Target] in
/-- What `EnsureConnected` comes to. -/
inductive Connects (url : ParsedUrl) (c c' : Conn) : Result ℕ → Prop
  | reuses {t : ℕ} (hlinked : LinkedTo t url c.client) (h : c' = c) : Connects url c c' (.ok t)
  | fails {e : NetworkError} {more : List Action} (htrace : c'.trace = c.trace ++ more)
      (hmore : ∀ a ∈ more, Prepares url c.client.tls a) (hdown : Down c'.client) :
      Connects url c c' (.error e)
  | opens {t : ℕ} {more : List Action} (htrace : c'.trace = c.trace ++ more)
      (hmore : ∀ a ∈ more, Prepares url c.client.tls a) (hopened : OpenedFor t url more)
      (hlinked : LinkedTo t url c'.client) : Connects url c c' (.ok t)

omit [Target] in
theorem Connects.of_drop {url : ParsedUrl} {c c' : Conn} {e : NetworkError} {front : List Action}
    {c₁ : Conn} (htrace : c₁.trace = c.trace ++ front)
    (hfront : ∀ a ∈ front, Prepares url c.client.tls a) (h : Rests c₁ c') (hdown : Down c'.client) :
    Connects url c c' (.error e) := by
  obtain ⟨more, hmore, hrests⟩ := h.trace
  have hall : c'.trace = c.trace ++ (front ++ more) := by rw [hmore, htrace, List.append_assoc]
  apply Connects.fails hall _ hdown
  · intro a ha
    obtain ha | ha := List.mem_append.mp ha
    · exact hfront a ha
    · exact prepares_of_rests (hrests a ha)

theorem ensureConnected_connects (url : ParsedUrl) (w : World) :
    Connects url w.toConn (w.ensureConnected env url).2.toConn (w.ensureConnected env url).1 ∧
      (w.ensureConnected env url).2.request = w.request ∧
      SameSettings w.client (w.ensureConnected env url).2.client := by
  obtain ⟨hdrop, hdown⟩ := rests_drop w
  unfold World.ensureConnected
  dsimp only
  split
  · rename_i t hreused
    split at hreused
    · rename_i hsame
      obtain ⟨hconnected, -, hhost, hport, htls⟩ := hsame
      exact ⟨.reuses ⟨hreused, hconnected, hhost, hport, htls⟩ rfl, rfl, .rfl⟩
    · cases hreused
  · split
    · obtain ⟨more, htrace, hmore⟩ := hdrop.trace
      exact ⟨.fails htrace (fun a ha => prepares_of_rests (hmore a ha)) hdown, hdrop.request,
        hdrop.settings⟩
    · -- the new transport brings events while it connects
      obtain ⟨more, htrace, hmore⟩ := hdrop.trace
      generalize hw : ({ w.dropTransport with
        toConn := w.dropTransport.toConn.attach url.tls
          (if url.tls then w.dropTransport.client.tls else {})
        creates := w.dropTransport.creates + 1 } : World) = w₁
      have hattached : w₁.trace = w.trace ++ (more ++
          [.created w.dropTransport.transports url.tls (if url.tls then w.client.tls else {})]) := by
        rw [← hw, ← List.append_assoc, ← htrace]
        rfl
      have hprepares : ∀ a ∈ more ++ [Action.created w.dropTransport.transports url.tls
          (if url.tls then w.client.tls else {})], Prepares url w.client.tls a := by
        intro a ha
        obtain ha | ha := List.mem_append.mp ha
        · exact prepares_of_rests (hmore a ha)
        · rw [List.mem_singleton.mp ha]
          exact ⟨rfl, rfl⟩
      have hcreated : Action.created w.dropTransport.transports url.tls
          (if url.tls then w.client.tls else {}) ∈ more ++ [Action.created w.dropTransport.transports
            url.tls (if url.tls then w.client.tls else {})] := by
        simp
      have hrequest : w₁.request = w.request := by
        rw [← hw]
        exact hdrop.request
      have hsettings : SameSettings w.client w₁.client := by
        rw [← hw]
        exact ⟨rfl, rfl, rfl, rfl⟩
      have htransport : w₁.client.transport = some w.dropTransport.transports := by
        rw [← hw]
        rfl
      obtain ⟨hyield, hlink⟩ := rests_yield env w₁
      obtain ⟨hlost, hlostDown⟩ := rests_yield_drop env w₁
      split
      · exact ⟨.of_drop hattached hprepares hlost hlostDown, hlost.request.trans hrequest,
          hsettings.trans hlost.settings⟩
      · obtain ⟨arrived, harrived, hinbound⟩ := hyield.trace
        generalize more ++ [Action.created w.dropTransport.transports url.tls
          (if url.tls then w.client.tls else {})] = front at hattached hprepares hcreated
        have hall : ((w₁.yield env).toConn.markConnected w.dropTransport.transports url).trace =
            w.trace ++ (front ++ arrived ++
              [.connected w.dropTransport.transports url.host url.port]) := by
          simp only [Conn.markConnected, Conn.log_trace, harrived, hattached, List.append_assoc]
        refine ⟨.opens hall ?_ ?_ ?_, hyield.request.trans hrequest,
          (hsettings.trans hyield.settings).trans ⟨rfl, rfl, rfl, rfl⟩⟩
        · intro a ha
          obtain ha | ha := List.mem_append.mp ha
          · obtain ha | ha := List.mem_append.mp ha
            · exact hprepares a ha
            · exact prepares_of_rests (hinbound a ha)
          · rw [List.mem_singleton.mp ha]
            trivial
        · have hmem : ∃ config, Action.created w.dropTransport.transports url.tls config ∈
              front ++ arrived ++ [.connected w.dropTransport.transports url.host url.port] :=
            ⟨_, List.mem_append_left _ (List.mem_append_left _ hcreated)⟩
          exact ⟨hmem, by simp⟩
        · exact ⟨hlink.transport.trans htransport, rfl, rfl, rfl, rfl⟩

omit [Target] in
/-- What a request is rendered with. -/
structure RenderedFor (request : RequestState) (bytes : Bytes) : Prop where
  rendered : ∃ options : HttpRequestOptions, options.method = request.method ∧
    options.headers = request.headers ∧ bytes = buildHttpRequest request.url options

omit [Target] in
/-- One head is sent, over a transport for its URL: the one that is held, or a new one. -/
inductive Sends (request : RequestState) (c c' : Conn) : Prop
  | intro {front back : List Action} {t : ℕ} {bytes : Bytes} {outcome : Result ℕ}
      (htrace : c'.trace = c.trace ++ (front ++ .sent t (c.request + 1) .head bytes outcome :: back))
      (hfront : ∀ a ∈ front, Prepares request.url c.client.tls a)
      (hback : ∀ a ∈ back, a.isOutbound = false) (hbytes : RenderedFor request bytes)
      (hover : LinkedTo t request.url c.client ∨ OpenedFor t request.url front)
      (hrequest : c'.request = c.request + 1) (hsettings : SameSettings c.client c'.client)
      (hlink : LinkedTo t request.url c'.client ∨ Down c'.client)

omit [Target] in
/-- An attempt at a request: no head is sent, or one. -/
inductive Attempt (request : RequestState) (c c' : Conn) : Prop
  | unsent {more : List Action} (htrace : c'.trace = c.trace ++ more)
      (hmore : ∀ a ∈ more, Prepares request.url c.client.tls a) (hrequest : c'.request = c.request)
      (hsettings : SameSettings c.client c'.client)
      (hlink : SameLink c.client c'.client ∨ Down c'.client)
  | sent (h : Sends request c c')

omit [Target] in
theorem Sends.rests {request : RequestState} {c c' c'' : Conn} (h : Sends request c c')
    (hrests : Rests c' c'') : Sends request c c'' := by
  obtain ⟨rest, hrest, hquiet⟩ := hrests.trace
  obtain ⟨htrace, hfront, hback, hbytes, hover, hrequest, hsettings, hlink⟩ := h
  rename_i front back t bytes outcome
  have hall : c''.trace =
      c.trace ++ (front ++ .sent t (c.request + 1) .head bytes outcome :: (back ++ rest)) := by
    rw [hrest, htrace]
    simp
  refine .intro hall hfront ?_ hbytes hover (hrests.request.trans hrequest)
    (hsettings.trans hrests.settings) ?_
  · intro a ha
    obtain ha | ha := List.mem_append.mp ha
    · exact hback a ha
    · exact hquiet a ha
  · obtain hlink' | hdown := hrests.link
    · exact hlink.imp (·.of_same hlink') (·.of_same hlink')
    · exact .inr hdown

omit [Target] in
theorem Attempt.rests {request : RequestState} {c c' c'' : Conn} (h : Attempt request c c')
    (hrests : Rests c' c'') : Attempt request c c'' := by
  obtain ⟨rest, hrest, hquiet⟩ := hrests.trace
  cases h with
  | unsent htrace hmore hrequest hsettings hlink =>
      rename_i more
      have hall : c''.trace = c.trace ++ (more ++ rest) := by rw [hrest, htrace, List.append_assoc]
      refine .unsent hall ?_ (hrests.request.trans hrequest) (hsettings.trans hrests.settings) ?_
      · intro a ha
        obtain ha | ha := List.mem_append.mp ha
        · exact hmore a ha
        · exact prepares_of_rests (hquiet a ha)
      · obtain hlink' | hdown := hrests.link
        · exact hlink.imp (·.trans hlink') (·.of_same hlink')
        · exact .inr hdown
  | sent h => exact .sent (h.rests hrests)

omit [Target] in
theorem Attempt.of_rests {request : RequestState} {c c' : Conn} (h : Rests c c') :
    Attempt request c c' := by
  obtain ⟨more, htrace, hmore⟩ := h.trace
  exact .unsent htrace (fun a ha => prepares_of_rests (hmore a ha)) h.request h.settings h.link

omit [Target] in
/-- The head of a request goes out over the transport that is connected to its URL. -/
theorem Sends.of_connected {request : RequestState} {c c₁ c' : Conn} {t : ℕ} {bytes : Bytes}
    {outcome : Result ℕ} {more front back : List Action} (htrace : c₁.trace = c.trace ++ more)
    (hmore : ∀ a ∈ more, Prepares request.url c.client.tls a) (hrequest : c₁.request = c.request)
    (hsettings : SameSettings c.client c₁.client)
    (hover : LinkedTo t request.url c.client ∨ OpenedFor t request.url more)
    (hlinked : LinkedTo t request.url c₁.client)
    (hsent : c'.trace = c₁.trace ++ (front ++ .sent t (c₁.request + 1) .head bytes outcome :: back))
    (hfront : ∀ a ∈ front, Prepares request.url c.client.tls a)
    (hback : ∀ a ∈ back, a.isOutbound = false) (hbytes : RenderedFor request bytes)
    (hnext : c'.request = c₁.request + 1) (hkept : SameSettings c₁.client c'.client)
    (hlink : SameLink c₁.client c'.client) : Sends request c c' := by
  have hall : c'.trace =
      c.trace ++ (more ++ front ++ .sent t (c.request + 1) .head bytes outcome :: back) := by
    rw [hsent, htrace, hrequest]
    simp
  refine .intro hall ?_ hback hbytes ?_ ?_ (hsettings.trans hkept) (.inl (hlinked.of_same hlink))
  · intro a ha
    obtain ha | ha := List.mem_append.mp ha
    · exact hmore a ha
    · exact hfront a ha
  · apply hover.imp_right
    rintro ⟨⟨config, hcreated⟩, hconnected⟩
    exact ⟨⟨config, List.mem_append_left _ hcreated⟩, List.mem_append_left _ hconnected⟩
  · rw [hnext, hrequest]

/-- What `StartRequest` does once it is connected. -/
theorem begin_send (request : RequestState) (chunked : Bool) (t : ℕ) (w : World) :
    let w₂ := ({ w.yield env with toConn := (w.yield env).toConn.beginRequest t } : World).yield env
    let out := w₂.send env t .head
      (buildHttpRequest request.url (w₂.requestOptions request chunked))
    ∃ front back bytes outcome,
      out.2.trace = w.trace ++ (front ++ .sent t (w.request + 1) .head bytes outcome :: back) ∧
        (∀ a ∈ front, Prepares request.url w.client.tls a) ∧
        (∀ a ∈ back, a.isOutbound = false) ∧ RenderedFor request bytes ∧
        out.2.request = w.request + 1 ∧ SameSettings w.client out.2.client ∧
        SameLink w.client out.2.client := by
  intro w₂ out
  obtain ⟨hyield, hlink⟩ := rests_yield env w
  obtain ⟨hyield₂, hlink₂⟩ := rests_yield env
    { w.yield env with toConn := (w.yield env).toConn.beginRequest t }
  have hout : w₂.send env t .head (buildHttpRequest request.url (w₂.requestOptions request chunked)) =
      (out.1, out.2) := rfl
  obtain ⟨es, hes⟩ := World.send_spec env hout
  obtain ⟨hback, hlink₃⟩ := rests_handleAll (w₂.toConn.log (.sent t w₂.request .head
    (buildHttpRequest request.url (w₂.requestOptions request chunked)) out.1)) es
  rw [← hes] at hback hlink₃
  obtain ⟨arrived, harrived, hquiet⟩ := hyield.trace
  obtain ⟨arrived₂, harrived₂, hquiet₂⟩ := hyield₂.trace
  obtain ⟨back, hbackTrace, hbackQuiet⟩ := hback.trace
  have hnumber : w₂.request = w.request + 1 := by
    rw [hyield₂.request]
    exact congrArg (· + 1) hyield.request
  refine ⟨arrived ++ [.began t ((w.yield env).request + 1) (w.yield env).client.parser.isComplete] ++
    arrived₂, back, _, out.1, ?_, ?_, hbackQuiet, ⟨w₂.requestOptions request chunked, rfl, rfl, rfl⟩,
    hback.request.trans hnumber, ?_, ?_⟩
  · rw [hbackTrace, Conn.log_trace, harrived₂, hnumber]
    simp only [Conn.beginRequest, Conn.log_trace, harrived, List.append_assoc, List.cons_append,
      List.nil_append]
  · intro a ha
    obtain ha | ha := List.mem_append.mp ha
    · obtain ha | ha := List.mem_append.mp ha
      · exact prepares_of_rests (hquiet a ha)
      · rw [List.mem_singleton.mp ha]
        trivial
    · exact prepares_of_rests (hquiet₂ a ha)
  · have hbegun : SameSettings (w.yield env).client ((w.yield env).toConn.beginRequest t).client :=
      ⟨rfl, rfl, rfl, rfl⟩
    exact ((hyield.settings.trans hbegun).trans hyield₂.settings).trans hback.settings
  · have hbegun : SameLink (w.yield env).client ((w.yield env).toConn.beginRequest t).client :=
      ⟨rfl, rfl, rfl, rfl, rfl, fun h => by cases h⟩
    exact ((hlink.trans hbegun).trans hlink₂).trans hlink₃

omit [Target] in
/-- What comes before an attempt and touches neither link nor settings. -/
theorem Attempt.of_quiet {request : RequestState} {c₀ c c' : Conn} (h : Attempt request c c')
    (htrace : c.trace = c₀.trace) (hrequest : c.request = c₀.request)
    (hsettings : SameSettings c₀.client c.client) (hlink : SameLink c₀.client c.client) :
    Attempt request c₀ c' := by
  cases h with
  | unsent htrace' hmore hrequest' hsettings' hlink' =>
      rw [htrace] at htrace'
      rw [hsettings.tls] at hmore
      exact .unsent htrace' hmore (hrequest'.trans hrequest) (hsettings.trans hsettings')
        (hlink'.imp_left hlink.trans)
  | sent h =>
      obtain ⟨htrace', hfront, hback, hbytes, hover, hrequest', hsettings', hlink'⟩ := h
      rw [htrace, hrequest] at htrace'
      rw [hsettings.tls] at hfront
      rw [hrequest] at hrequest'
      exact .sent (.intro htrace' hfront hback hbytes (hover.imp_left (·.before hlink)) hrequest'
        (hsettings.trans hsettings') hlink')

/-- `StartRequest` is an attempt. One that fails is refused or leaves no transport, and one that does
not has sent its head. -/
theorem startRequest_attempt (request : RequestState) (chunked : Bool) (w : World) :
    Attempt request w.toConn (w.startRequest env request chunked).2.toConn ∧
      (∀ e, (w.startRequest env request chunked).1 = .error e →
        e = World.uploadOpenError ∨ Down (w.startRequest env request chunked).2.client) ∧
      ((w.startRequest env request chunked).1 = .ok () →
        Sends request w.toConn (w.startRequest env request chunked).2.toConn) := by
  unfold World.startRequest
  split
  · refine ⟨.of_rests .rfl, fun e he => ?_, fun h => by cases h⟩
    exact .inl (Except.error.inj he).symm
  · obtain ⟨hconnects, hrequest, hsettings⟩ := ensureConnected_connects env request.url w
    split
    · rename_i e w₁ heq
      rw [heq] at hconnects hrequest hsettings
      cases hconnects with
      | fails htrace hmore hdown =>
          exact ⟨.unsent htrace hmore hrequest hsettings (.inr hdown), fun _ _ => .inr hdown,
            fun h => by cases h⟩
    · rename_i t w₁ heq
      rw [heq] at hconnects hrequest hsettings
      dsimp only at hconnects hrequest hsettings ⊢
      obtain ⟨front, back, bytes, outcome, hsent, hfront, hback, hbytes, hnext, hkept, hlink⟩ :=
        begin_send env request chunked t w₁
      rw [hsettings.tls] at hfront
      have hsends : ∀ w' : World, w'.trace = w₁.trace ++
          (front ++ .sent t (w₁.request + 1) .head bytes outcome :: back) →
          w'.request = w₁.request + 1 → SameSettings w₁.client w'.client →
          SameLink w₁.client w'.client → Sends request w.toConn w'.toConn := by
        intro w' hsent hnext hkept hlink
        cases hconnects with
        | reuses hlinked hsame =>
            have hnone : w₁.trace = w.trace ++ [] := by rw [hsame, List.append_nil]
            have hlinked₁ : LinkedTo t request.url w₁.client := by
              rw [hsame]
              exact hlinked
            exact Sends.of_connected hnone (by simp) hrequest hsettings (.inl hlinked) hlinked₁ hsent
              hfront hback hbytes hnext hkept hlink
        | opens htrace hmore hopened hlinked =>
            exact Sends.of_connected htrace hmore hrequest hsettings (.inr hopened) hlinked hsent
              hfront hback hbytes hnext hkept hlink
      split
      · rename_i e w₂ heq₂
        rw [heq₂] at hsent hnext hkept hlink
        obtain ⟨hdrop, hdown⟩ := rests_drop w₂
        exact ⟨.sent ((hsends w₂ hsent hnext hkept hlink).rests hdrop), fun _ _ => .inr hdown,
          fun h => by cases h⟩
      · rename_i n w₂ heq₂
        rw [heq₂] at hsent hnext hkept hlink
        have hsent₂ := hsends w₂ hsent hnext hkept hlink
        exact ⟨.sent hsent₂, fun _ he => (by cases he), fun _ => hsent₂⟩

theorem executeOnce_attempt (request : RequestState) (w : World) :
    Attempt request w.toConn (w.executeOnce env request).2.toConn ∧
      ∀ e, (w.executeOnce env request).1 = .error e →
        e = World.uploadOpenError ∨ Down (w.executeOnce env request).2.client := by
  obtain ⟨hattempt, hfailed, -⟩ := startRequest_attempt env request false
    { w with client := { w.client with streaming := false } }
  have hattempt : Attempt request w.toConn _ :=
    hattempt.of_quiet rfl rfl ⟨rfl, rfl, rfl, rfl⟩ ⟨rfl, rfl, rfl, rfl, rfl, id⟩
  unfold World.executeOnce
  dsimp only
  split
  · rename_i e w₁ heq
    rw [heq] at hattempt hfailed
    refine ⟨hattempt, fun e' he => hfailed e' ?_⟩
    rw [Except.error.inj he]
  · rename_i w₁ heq
    rw [heq] at hattempt
    obtain ⟨hwait, -⟩ := rests_yield env w₁
    obtain ⟨hlost, hdown⟩ := rests_yield_drop env (w₁.yield env)
    split
    · exact ⟨hattempt.rests (hwait.trans hlost), fun _ _ => .inr hdown⟩
    · split
      · exact ⟨hattempt.rests (hwait.trans hlost), fun _ _ => .inr hdown⟩
      · dsimp only
        have hmoved : Rests (w₁.yield env).toConn
            { (w₁.yield env).toConn with
              client := { (w₁.yield env).client with response := {} } } :=
          .of_eq rfl rfl ⟨rfl, rfl, rfl, rfl⟩ ⟨rfl, rfl, rfl, rfl, rfl, id⟩
        split
        · exact ⟨hattempt.rests (hwait.trans hmoved), fun _ he => by cases he⟩
        · obtain ⟨hdrop, -⟩ := rests_yield_drop env
            { w₁.yield env with client := { (w₁.yield env).client with response := {} } }
          exact ⟨hattempt.rests ((hwait.trans hmoved).trans hdrop), fun _ he => by cases he⟩

omit [Target] in
/-- What a hop does for its request: one attempt, or a second one for a request without a side
effect when the first has lost the connection. -/
inductive Tries (lost : Conn → Prop) (request : RequestState) (c c' : Conn) : Prop
  | once (h : Attempt request c c')
  | twice {c₁ : Conn} (hrepeatable : World.methodIsRepeatable request.method = true)
      (hlost : lost c₁) (h : Attempt request c c₁) (hdown : Down c₁.client)
      (h' : Attempt request c₁ c')

omit [Target] in
theorem Tries.rests {lost : Conn → Prop} {request : RequestState} {c c' c'' : Conn}
    (h : Tries lost request c c') (hrests : Rests c' c'') : Tries lost request c c'' := by
  cases h with
  | once h => exact .once (h.rests hrests)
  | twice hrepeatable hlost h hdown h' => exact .twice hrepeatable hlost h hdown (h'.rests hrests)

/-- The first attempt of `ExecuteAttempt` ends here, with the connection lost. -/
def LostFirst (request : RequestState) (w : World) (c : Conn) : Prop :=
  ∃ e w₁, w.executeOnce env request = (.error e, w₁) ∧ e.code = .kConnectionLost ∧ w₁.toConn = c

theorem executeAttempt_tries (request : RequestState) (w : World) :
    Tries (LostFirst env request w) request w.toConn (w.executeAttempt env request).2.toConn := by
  obtain ⟨hfirst, hfailed⟩ := executeOnce_attempt env request w
  unfold World.executeAttempt
  split
  · rename_i response w₁ heq
    rw [heq] at hfirst
    exact .once hfirst
  · rename_i e w₁ heq
    rw [heq] at hfirst hfailed
    split
    · rename_i hagain
      obtain ⟨hrepeatable, hcode⟩ := hagain
      have hdown : Down w₁.client := by
        obtain rfl | hdown := hfailed e rfl
        · cases hcode
        · exact hdown
      exact .twice hrepeatable ⟨e, w₁, heq, hcode, rfl⟩ hfirst hdown
        (executeOnce_attempt env request w₁).1
    · exact .once hfirst

/-! ## Redirects -/

omit [Target] in
/-- The origin of a URL: its scheme, its port, and its host in any case. -/
def origin (url : ParsedUrl) : Bool × ℕ × Bytes := (url.tls, url.port, toLower url.host)

omit [Target] in
theorem sameOrigin_iff {a b : ParsedUrl} : sameOrigin a b = true ↔ origin a = origin b := by
  simp [sameOrigin, equalsIgnoreCase, origin, and_assoc]

omit [Target] in
/-- What `ApplyRedirect` makes of a request: no other fields, and no credentials where the origin
changes. -/
structure Narrows (r r' : RequestState) : Prop where
  fields : ∀ h ∈ r'.headers, h ∈ r.headers
  credentials : ∀ h ∈ r'.headers, isCredentialHeader h.1 = true → origin r.url = origin r'.url

omit [Target] in
instance : IsTrans RequestState Narrows :=
  ⟨fun _ _ _ h h' => ⟨fun f hf => h.fields f (h'.fields f hf), fun f hf hcredential =>
    (h.credentials f (h'.fields f hf) hcredential).trans (h'.credentials f hf hcredential)⟩⟩

omit [Target] in
/-- `ApplyRedirect` follows below the limit only, and narrows the request. -/
theorem applyRedirect_spec (response : HttpResponse) (hop : ℕ) (request : RequestState) (w : World) :
    Rests w.toConn (w.applyRedirect response hop request).2.toConn ∧
      ∀ next, (w.applyRedirect response hop request).1 = .ok (some next) →
        w.client.followRedirects = true ∧ hop < w.client.maxRedirects ∧ Narrows request next := by
  unfold World.applyRedirect
  split
  · exact ⟨.rfl, fun next h => by cases h⟩
  · split
    · exact ⟨.rfl, fun next h => by cases h⟩
    · rename_i hfollow
      split
      · exact ⟨.rfl, fun next h => by cases h⟩
      · split
        · exact ⟨.rfl, fun next h => by cases h⟩
        · rename_i hlimit
          split
          · exact ⟨.rfl, fun next h => by cases h⟩
          · dsimp only
            refine ⟨?_, fun next h => ?_⟩
            · split
              · exact (rests_drop w).1
              · exact .rfl
            · obtain rfl := Option.some.inj (Except.ok.inj h)
              refine ⟨by simpa using (not_or.mp hfollow).1, by omega, ?_, ?_⟩
              · intro f hf
                dsimp only at hf
                split at hf
                · exact hf
                · exact List.mem_of_mem_filter hf
              · intro f hf hcredential
                dsimp only at hf ⊢
                split at hf
                · rename_i hsame
                  exact sameOrigin_iff.mp hsame
                · have := (List.mem_filter.mp hf).2
                  rw [hcredential] at this
                  cases this

/-! ## Hops -/

/-- One pass of the loop of `Execute`. -/
def executeRound : Rounds.Round RequestState World HttpResponse NetworkError :=
  fun hop request w => w.executeHop env hop request

/-- One pass of the loop of `Open`. -/
def openRound : Rounds.Round RequestState World Unit NetworkError := fun hop request w =>
  match w.openHop env hop request with
  | (.error e, w) => (.error e, w)
  | (.ok next, w) => (.ok ((), next), w)

theorem executeHops_eq (left hop : ℕ) (request : RequestState) (w : World) :
    World.executeHops env left hop request w =
      Rounds.bounded (executeRound env) left hop request w := by
  induction left generalizing hop request w with
  | zero =>
      unfold World.executeHops Rounds.bounded executeRound
      rcases w.executeHop env hop request with ⟨_ | ⟨_, _ | _⟩, _⟩ <;> rfl
  | succ left ih =>
      unfold World.executeHops Rounds.bounded
      rw [executeRound]
      rcases w.executeHop env hop request with ⟨_ | ⟨_, _ | _⟩, _⟩
      · rfl
      · rfl
      · exact ih _ _ _

theorem openHops_eq (left hop : ℕ) (request : RequestState) (w : World) :
    World.openHops env left hop request w = Rounds.bounded (openRound env) left hop request w := by
  induction left generalizing hop request w with
  | zero =>
      unfold World.openHops Rounds.bounded openRound
      rcases w.openHop env hop request with ⟨_ | _ | _, _⟩ <;> rfl
  | succ left ih =>
      unfold World.openHops Rounds.bounded
      rw [openRound]
      rcases w.openHop env hop request with ⟨_ | _ | _, _⟩
      · rfl
      · rfl
      · exact ih _ _ _

omit [Target] in
theorem Attempt.settings {request : RequestState} {c c' : Conn} (h : Attempt request c c') :
    SameSettings c.client c'.client := by
  cases h with
  | unsent _ _ _ hsettings _ => exact hsettings
  | sent h => exact h.casesOn fun _ _ _ _ _ _ hsettings _ => hsettings

omit [Target] in
theorem Attempt.trace {request : RequestState} {c c' : Conn} (h : Attempt request c c') :
    ∃ more, c'.trace = c.trace ++ more := by
  cases h with
  | unsent htrace => exact ⟨_, htrace⟩
  | sent h => exact h.casesOn fun htrace _ _ _ _ _ _ _ => ⟨_, htrace⟩

omit [Target] in
theorem Tries.settings {lost : Conn → Prop} {request : RequestState} {c c' : Conn}
    (h : Tries lost request c c') : SameSettings c.client c'.client := by
  cases h with
  | once h => exact h.settings
  | twice _ _ h _ h' => exact h.settings.trans h'.settings

omit [Target] in
theorem Tries.trace {lost : Conn → Prop} {request : RequestState} {c c' : Conn}
    (h : Tries lost request c c') : ∃ more, c'.trace = c.trace ++ more := by
  cases h with
  | once h => exact h.trace
  | twice _ _ h _ h' =>
      obtain ⟨more, htrace⟩ := h.trace
      obtain ⟨more', htrace'⟩ := h'.trace
      exact ⟨more ++ more', by rw [htrace', htrace, List.append_assoc]⟩

omit [Target] in
/-- What the loops of `Execute` and `Open` have in common: a pass tries its request, and goes round
again below the limit only. -/
structure Hopping {α : Type} (lost : RequestState → World → Conn → Prop)
    (round : Rounds.Round RequestState World α NetworkError) : Prop where
  tries : ∀ hop request w result w', round hop request w = (result, w') →
    Tries (lost request w) request w.toConn w'.toConn
  next : ∀ hop request w a next w', round hop request w = (.ok (a, some next), w') →
    w.client.followRedirects = true ∧ hop < w.client.maxRedirects ∧ Narrows request next

theorem executeRound_hopping : Hopping (LostFirst env) (executeRound env) := by
  have hspec : ∀ hop request (w : World),
      Tries (LostFirst env request w) request w.toConn (w.executeHop env hop request).2.toConn ∧
        ∀ a next, (w.executeHop env hop request).1 = .ok (a, some next) →
          w.client.followRedirects = true ∧ hop < w.client.maxRedirects ∧ Narrows request next := by
    intro hop request w
    have htries := executeAttempt_tries env request w
    unfold World.executeHop
    split
    · rename_i e w₁ heq
      rw [heq] at htries
      exact ⟨htries, fun _ _ h => by cases h⟩
    · rename_i response w₁ heq
      rw [heq] at htries
      have hsettings := htries.settings
      obtain ⟨hrests, hnext⟩ := applyRedirect_spec response hop request w₁
      split
      · rename_i heq₂
        rw [heq₂] at hrests
        exact ⟨htries.rests hrests, fun _ _ h => by cases h⟩
      · rename_i next w₂ heq₂
        rw [heq₂] at hrests hnext
        refine ⟨htries.rests hrests, fun a next' h => ?_⟩
        obtain ⟨-, rfl⟩ := Prod.mk.inj (Except.ok.inj h)
        obtain ⟨hfollow, hlimit, hnarrows⟩ := hnext next' rfl
        exact ⟨hsettings.followRedirects ▸ hfollow, hsettings.maxRedirects ▸ hlimit, hnarrows⟩
  constructor
  · intro hop request w result w' h
    have htries := (hspec hop request w).1
    rw [show w.executeHop env hop request = (result, w') from h] at htries
    exact htries
  · intro hop request w a next w' h
    exact (hspec hop request w).2 a next (congrArg Prod.fst h)

theorem rests_awaitHeaders (w : World) : Rests w.toConn (w.awaitHeaders env).2.toConn := by
  have hwait := (rests_yield env w).1
  unfold World.awaitHeaders
  dsimp only
  split
  · exact hwait
  · split
    · exact hwait
    · split <;> exact hwait

theorem openRound_hopping : Hopping (fun _ _ _ => False) (openRound env) := by
  have hspec : ∀ hop request (w : World),
      Tries (fun _ => False) request w.toConn (w.openHop env hop request).2.toConn ∧
        ∀ next, (w.openHop env hop request).1 = .ok (some next) →
          w.client.followRedirects = true ∧ hop < w.client.maxRedirects ∧ Narrows request next := by
    intro hop request w
    obtain ⟨hattempt, -, -⟩ := startRequest_attempt env request false w
    unfold World.openHop
    split
    · rename_i e w₁ heq
      rw [heq] at hattempt
      exact ⟨.once hattempt, fun _ h => by cases h⟩
    · rename_i w₁ heq
      rw [heq] at hattempt
      have hwait := rests_awaitHeaders env w₁
      split
      · rename_i e w₂ heq₂
        rw [heq₂] at hwait
        exact ⟨.once (hattempt.rests hwait), fun _ h => by cases h⟩
      · rename_i head w₂ heq₂
        rw [heq₂] at hwait
        have hyield := (rests_yield env w₂).1
        obtain ⟨hrests, hnext⟩ := applyRedirect_spec head hop request (w₂.yield env)
        have hsettings := (hattempt.rests (hwait.trans hyield)).settings
        refine ⟨.once (hattempt.rests ((hwait.trans hyield).trans hrests)), fun next h => ?_⟩
        obtain ⟨hfollow, hlimit, hnarrows⟩ := hnext next h
        exact ⟨hsettings.followRedirects ▸ hfollow, hsettings.maxRedirects ▸ hlimit, hnarrows⟩
  constructor
  · intro hop request w result w' h
    have htries := (hspec hop request w).1
    unfold openRound at h
    split at h
    · rename_i heq
      rw [heq] at htries
      rw [← (Prod.mk.inj h).2]
      exact htries
    · rename_i heq
      rw [heq] at htries
      rw [← (Prod.mk.inj h).2]
      exact htries
  · intro hop request w a next w' h
    apply (hspec hop request w).2 next
    unfold openRound at h
    split at h
    · cases h
    · rename_i heq
      rw [heq]
      exact congrArg Except.ok (Prod.mk.inj (Except.ok.inj (Prod.mk.inj h).1)).2

/-! ## The loops -/

omit [Target] in
/-- A hop of `Execute` or `Open`. -/
abbrev Hop := Rounds.Visit RequestState World

omit [Target] in
/-- What happened during a hop. -/
def actionsOf (hop : Hop) : List Action := hop.after.trace.drop hop.before.trace.length

omit [Target] in
theorem actionsOf_eq {hop : Hop} {more : List Action}
    (h : hop.after.trace = hop.before.trace ++ more) : actionsOf hop = more := by
  rw [actionsOf, h, List.drop_left]

section

variable {α : Type} {lost : RequestState → World → Conn → Prop}
  {round : Rounds.Round RequestState World α NetworkError} {hop : ℕ} {request : RequestState}
  {w : World} {hops : List Hop} {out : Result α × World}

omit [Target]

/-- The loop ends within the limit. -/
theorem Hopping.ends (h : Hopping lost round) (request : RequestState) (w : World) :
    ∃ hops, Rounds.Loop round 0 request w hops
        (Rounds.bounded round w.client.maxRedirects 0 request w) ∧
      hops.length ≤ w.client.maxRedirects + 1 := by
  apply Rounds.bounded_loop (I := fun w' => SameSettings w.client w'.client)
  · intro n r w₁ result w₂ hround hw
    exact hw.trans (h.tries _ _ _ _ _ hround).settings
  · intro n r w₁ a next w₂ hround hw
    exact hw.maxRedirects ▸ (h.next _ _ _ _ _ _ hround).2.1
  · rfl
  · exact .rfl

/-- Without following there is one hop. -/
theorem Hopping.one_hop (h : Hopping lost round)
    (hoff : w.client.followRedirects = false ∨ w.client.maxRedirects = 0)
    (hloop : Rounds.Loop round hop request w hops out) : hops.length = 1 := by
  cases hloop with
  | fails | answers => rfl
  | follows hround =>
      obtain ⟨hfollow, hlimit, -⟩ := h.next _ _ _ _ _ _ hround
      obtain hoff | hzero := hoff
      · rw [hfollow] at hoff
        cases hoff
      · omega

/-- Everything that happens in the loop happens in one of its hops. -/
theorem Hopping.trace (h : Hopping lost round) (hloop : Rounds.Loop round hop request w hops out) :
    out.2.trace = w.trace ++ hops.flatMap actionsOf := by
  induction hloop with
  | fails hround | answers hround =>
      obtain ⟨more, htrace⟩ := (h.tries _ _ _ _ _ hround).trace
      rw [List.flatMap_singleton, actionsOf_eq htrace, htrace]
  | follows hround _ ih =>
      obtain ⟨more, htrace⟩ := (h.tries _ _ _ _ _ hround).trace
      rw [List.flatMap_cons, actionsOf_eq htrace, ih, htrace, List.append_assoc]

/-- Every hop tries its request. -/
theorem Hopping.tries_of_mem (h : Hopping lost round)
    (hloop : Rounds.Loop round hop request w hops out) {v : Hop} (hv : v ∈ hops) :
    Tries (lost v.request v.before) v.request v.before.toConn v.after.toConn := by
  obtain ⟨m, result, hround⟩ := hloop.visit hv
  exact h.tries _ _ _ _ _ hround

end

end

end EspModemLink.Http
