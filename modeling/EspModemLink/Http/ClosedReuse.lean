import EspModemLink.Http.ExecuteBound
import EspModemLink.Http.RefusedRequest
import EspModemLink.Http.RunHops

/-!
# Connections that the server has closed

A close that the transport reports goes into `closed_`, and `StartRequest` clears it for the new
response. `EnsureConnected` looks at `connected_` only, which a close leaves set. With keep-alive on,
the next request to the same server goes out over the closed transport.
-/

namespace EspModemLink.Http

open Bytes

/-! ## Transports and their age -/

/-- A transport is made behind its own close. -/
def madeBehindClose : Action → Action → Bool
  | .closed t, .created t' _ _ => t == t'
  | _, _ => false

/-- Actions that neither make a transport nor close one. -/
def Action.ageless : Action → Bool
  | .created .. | .closed _ => false
  | _ => true

/-- A transport is made before it closes, and never again. -/
structure Aged (c : Conn) : Prop where
  current : ∀ t, c.client.transport = some t → t < c.transports
  closed : ∀ t, .closed t ∈ c.trace → t < c.transports
  order : c.trace.Pairwise fun a b => madeBehindClose a b = false

section

variable {c c' : Conn} {more : List Action}

/-- What closes is old, and what is made is new. -/
theorem Aged.extend (h : Aged c) (ht : ∀ t, c'.client.transport = some t → t < c'.transports)
    (hn : c.transports ≤ c'.transports) (htrace : c'.trace = c.trace ++ more)
    (hclosed : ∀ t, .closed t ∈ more → t < c.transports)
    (hcreated : ∀ t tls config, .created t tls config ∈ more → c.transports ≤ t) : Aged c' := by
  have hall : ∀ t, .closed t ∈ c.trace ++ more → t < c.transports := fun t hm =>
    (List.mem_append.mp hm).elim (h.closed t) (hclosed t)
  have hpair : ∀ a ∈ c.trace ++ more, ∀ b ∈ more, madeBehindClose a b = false := by
    intro a ha b hb
    cases a with
    | closed t =>
        cases b with
        | created t' tls config =>
            have hold := hall t ha
            have hnew := hcreated t' tls config hb
            have hne : t ≠ t' := by omega
            simpa [madeBehindClose] using hne
        | _ => rfl
    | _ => rfl
  refine ⟨ht, fun t hm => (hall t (htrace ▸ hm)).trans_le hn, ?_⟩
  rw [htrace, List.pairwise_append]
  refine ⟨h.order, List.pairwise_of_forall_mem_list fun a ha b hb => ?_, fun a ha b hb => ?_⟩
  · exact hpair a (List.mem_append_right _ ha) b hb
  · exact hpair a (List.mem_append_left _ ha) b hb

/-- The transport stays or goes, and nothing is made or closed. -/
theorem Aged.same (h : Aged c)
    (ht : c'.client.transport = c.client.transport ∨ c'.client.transport = none)
    (hn : c'.transports = c.transports) (htrace : c'.trace = c.trace ++ more)
    (hmore : ∀ a ∈ more, a.ageless = true) : Aged c' := by
  refine h.extend (fun t h' => ?_) hn.ge htrace (fun t hm => ?_) fun t tls config hm => ?_
  · rcases ht with ht | ht
    · exact hn ▸ h.current t (ht ▸ h')
    · exact absurd (ht.symm.trans h') (by simp)
  · exact absurd (hmore _ hm) (by simp [Action.ageless])
  · exact absurd (hmore _ hm) (by simp [Action.ageless])

theorem Aged.log (h : Aged c) {a : Action} (ha : a.ageless = true) : Aged (c.log a) :=
  h.same (.inl rfl) rfl rfl fun _ hb => List.mem_singleton.mp hb ▸ ha

theorem Aged.drop (h : Aged c) : Aged c.dropTransport := by
  obtain ⟨more, htrace, hmore⟩ := c.dropTransport_trace
  refine h.same (.inr rfl) c.dropTransport_transports htrace fun a ha => ?_
  obtain ⟨t, rfl⟩ := hmore a ha
  rfl

theorem Aged.endUpload (h : Aged c) : Aged c.endUpload :=
  h.same (.inl rfl) rfl (List.append_nil _).symm (by simp)

section

variable [Target]

theorem Aged.handle (h : Aged c) (e : Event) : Aged (c.handle e) := by
  have hdriver := c.handle_sameDriver e
  cases ht : c.client.transport with
  | none =>
      have hsame : c.handle e = c := by
        simp only [Conn.handle, ht]
      exact hsame.symm ▸ h
  | some t =>
      cases e with
      | data answers bytes =>
          obtain ⟨fed, hfed⟩ : ∃ fed, (c.handle (.data answers bytes)).trace =
              c.trace ++ [.data t c.request answers bytes fed] := by
            simp only [Conn.handle, ht, Conn.onTransportData]
            split <;> exact ⟨_, rfl⟩
          exact h.same (.inl hdriver.transport) hdriver.transports hfed (by simp [Action.ageless])
      | closed =>
          have htrace : (c.handle .closed).trace = c.trace ++ [.closed t] := by
            simp only [Conn.handle, ht]
            rfl
          have hcurrent : ∀ t, (c.handle .closed).client.transport = some t →
              t < (c.handle .closed).transports := by
            rw [hdriver.transport, hdriver.transports]
            exact h.current
          refine h.extend hcurrent hdriver.transports.ge htrace (fun t' hm => ?_) (by simp)
          obtain rfl := Action.closed.inj (List.mem_singleton.mp hm)
          exact h.current _ ht
      | error e =>
          have htrace : (c.handle (.error e)).trace = c.trace ++ [] := by
            simp only [Conn.handle, ht, Conn.onTransportError, List.append_nil]
          exact h.same (.inl hdriver.transport) hdriver.transports htrace (by simp)

theorem Aged.handleAll (h : Aged c) (es : List Event) : Aged (c.handleAll es) := by
  induction es generalizing c with
  | nil => exact h
  | cons e es ih => exact ih (h.handle e)

theorem Aged.started (h : Aged c) (t : ℕ) (es : List Event) (bytes : Bytes) (outcome : Result ℕ)
    (es' : List Event) : Aged (c.started t es bytes outcome es') := by
  have hbegun : Aged (c.beginRequest t) := h.same (.inl rfl) rfl rfl (by simp [Action.ageless])
  exact ((hbegun.handleAll es).log rfl).handleAll es'

theorem Aged.step (h : Aged c) (hstep : c.Atomic c') : Aged c' := by
  cases hstep with
  | event e => exact h.handle e
  | quiet hs =>
      exact h.same (.inl hs.transport) hs.transports (hs.trace.trans (List.append_nil _).symm)
        (by simp)
  | drop => exact h.drop
  | attach tls config =>
      refine h.extend (fun t ht => ?_) (Nat.le_succ _) rfl (by simp) fun t tls' config' hm => ?_
      · obtain rfl := Option.some.inj ht
        exact Nat.lt_succ_self _
      · obtain ⟨rfl, -, -⟩ := Action.created.inj (List.mem_singleton.mp hm)
        exact Nat.le_refl _
  | connected t url => exact h.same (.inl rfl) rfl rfl (by simp [Action.ageless])
  | plain es es' => exact h.started _ es _ _ es'
  | chunked es es' =>
      exact (h.started _ es _ _ es').same (.inl rfl) rfl (List.append_nil _).symm (by simp)
  | headLost es es' => exact (h.started _ es _ _ es').drop
  | chunk => exact h.log rfl
  | terminator => exact h.endUpload.log rfl
  | pieceLost active es =>
      refine Aged.drop (Aged.handleAll (Aged.log ?_ rfl) es)
      cases active
      · exact h.endUpload
      · exact h
  | answered =>
      unfold Conn.answerEarly
      split
      · exact h.same (.inl rfl) rfl (List.append_nil _).symm (by simp)
      · exact h.same (.inl rfl) rfl rfl (by simp [Action.ageless])
  | lost => exact h.endUpload

theorem run_aged (env : Env) (calls : List World.Call) : Aged (World.run env calls).toConn := by
  refine World.run_invariant env Aged (fun _ => True) ⟨by simp, by simp, .nil⟩
    (fun hstep h => h.step hstep) (fun c call _ h => ?_) calls fun _ _ => trivial
  refine h.same (.inl ?_) rfl (List.append_nil _).symm (by simp)
  cases call <;> rfl

end

end

/-! ## Heads and the transports they go over -/

/-- A transport was made and connected among these actions. -/
structure MadeIn (t : ℕ) (actions : List Action) : Prop where
  created : ∃ tls config, .created t tls config ∈ actions
  connected : ∃ host port, .connected t host port ∈ actions

/-- Every head goes over the transport that was held, or over one made and connected before it. -/
def HeadsOver (held : Option ℕ) (actions : List Action) : Prop :=
  ∀ front t n bytes outcome back, actions = front ++ .sent t n .head bytes outcome :: back →
    held = some t ∨ MadeIn t front

section

variable {held : Option ℕ} {past more : List Action} {c c' : Conn}

theorem MadeIn.append {t : ℕ} (h : MadeIn t past) (more : List Action) : MadeIn t (past ++ more) := by
  obtain ⟨⟨tls, config, hcreated⟩, host, port, hconnected⟩ := h
  exact ⟨⟨tls, config, List.mem_append_left _ hcreated⟩, host, port,
    List.mem_append_left _ hconnected⟩

theorem MadeIn.append_right {t : ℕ} (h : MadeIn t more) (past : List Action) :
    MadeIn t (past ++ more) := by
  obtain ⟨⟨tls, config, hcreated⟩, host, port, hconnected⟩ := h
  exact ⟨⟨tls, config, List.mem_append_right _ hcreated⟩, host, port,
    List.mem_append_right _ hconnected⟩

theorem OpenedFor.madeIn {t : ℕ} {url : ParsedUrl} (h : OpenedFor t url past) : MadeIn t past := by
  obtain ⟨⟨config, hcreated⟩, hconnected⟩ := h
  exact ⟨⟨_, config, hcreated⟩, _, _, hconnected⟩

/-- Without a head among them the new actions ask for nothing. -/
theorem HeadsOver.headless (h : HeadsOver held past) (hmore : ∀ a ∈ more, a.isHead = false) :
    HeadsOver held (past ++ more) := by
  intro front t n bytes outcome back heq
  obtain ⟨rest, -, hmore'⟩ | ⟨rest, hpast, hback⟩ := List.append_eq_append_iff.mp heq
  · have := hmore (.sent t n .head bytes outcome) (by simp [hmore'])
    cases this
  · cases rest with
    | nil =>
        rw [List.nil_append] at hback
        have := hmore (.sent t n .head bytes outcome) (by rw [← hback]; exact List.mem_cons_self ..)
        cases this
    | cons a rest =>
        obtain ⟨rfl, -⟩ := List.cons.inj hback
        exact h front t n bytes outcome rest hpast

theorem headsOver_of_headless (hmore : ∀ a ∈ more, a.isHead = false) : HeadsOver held more :=
  have hnil : HeadsOver held [] := by simp [HeadsOver]
  hnil.headless hmore

/-- One more head. -/
theorem HeadsOver.head {t : ℕ} (h : HeadsOver held past) (ht : held = some t ∨ MadeIn t past)
    (n : ℕ) (bytes : Bytes) (outcome : Result ℕ) :
    HeadsOver held (past ++ [.sent t n .head bytes outcome]) := by
  intro front t' n' bytes' outcome' back heq
  obtain rfl | ⟨back, last, rfl⟩ := List.eq_nil_or_concat' back
  · obtain ⟨rfl, hsame⟩ := List.append_inj' heq rfl
    obtain ⟨rfl, -⟩ := Action.sent.inj (List.cons.inj hsame).1
    exact ht
  · rw [← List.cons_append, ← List.append_assoc] at heq
    exact h front t' n' bytes' outcome' back (List.append_inj' heq rfl).1

/-- The heads so far, and the transport that is held now. -/
structure Renewing (held : Option ℕ) (past : List Action) (c : Conn) : Prop where
  heads : HeadsOver held past
  linked : ∀ t url, LinkedTo t url c.client → held = some t ∨ MadeIn t past

/-- The link is as it was, or gone, and no head is sent. -/
theorem Renewing.headless (h : Renewing held past c) (hmore : ∀ a ∈ more, a.isHead = false)
    (hlink : SameLink c.client c'.client ∨ Down c'.client) : Renewing held (past ++ more) c' := by
  refine ⟨h.heads.headless hmore, fun t url hlinked => ?_⟩
  obtain hlink | hdown := hlink
  · exact (h.linked t url (hlinked.before hlink)).imp_right (·.append more)
  · exact absurd (hdown.transport.symm.trans hlinked.transport) (by simp)

theorem Renewing.sends {request : RequestState} (h : Renewing held past c)
    (hsends : Sends request c c') :
    ∃ more, c'.trace = c.trace ++ more ∧ Renewing held (past ++ more) c' := by
  obtain ⟨htrace, hfront, hback, -, hover, -, -, hlink⟩ := hsends
  rename_i front back t bytes outcome
  have ht : held = some t ∨ MadeIn t (past ++ front) := by
    obtain hlinked | hopened := hover
    · exact (h.linked t _ hlinked).imp_right (·.append front)
    · exact .inr (hopened.madeIn.append_right past)
  have hheads : HeadsOver held
      (past ++ (front ++ .sent t (c.request + 1) .head bytes outcome :: back)) := by
    have hbefore := h.heads.headless fun a ha => isHead_of_prepares (hfront a ha)
    have hall := (hbefore.head ht (c.request + 1) bytes outcome).headless
      fun a ha => isHead_of_rests (hback a ha)
    simpa using hall
  refine ⟨_, htrace, hheads, fun t' url hlinked => ?_⟩
  obtain hlinked' | hdown := hlink
  · obtain rfl := Option.some.inj (hlinked'.transport.symm.trans hlinked.transport)
    refine ht.imp_right fun hmade => ?_
    simpa using hmade.append (.sent t (c.request + 1) .head bytes outcome :: back)
  · exact absurd (hdown.transport.symm.trans hlinked.transport) (by simp)

theorem Renewing.attempt {request : RequestState} (h : Renewing held past c)
    (hattempt : Attempt request c c') :
    ∃ more, c'.trace = c.trace ++ more ∧ Renewing held (past ++ more) c' := by
  cases hattempt with
  | unsent htrace hmore _ _ hlink =>
      exact ⟨_, htrace, h.headless (fun a ha => isHead_of_prepares (hmore a ha)) hlink⟩
  | sent hsends => exact h.sends hsends

theorem Renewing.tried {hop : Hop} (h : Renewing held past hop.before.toConn) (htried : Tried hop) :
    ∃ more, hop.after.trace = hop.before.trace ++ more ∧
      Renewing held (past ++ more) hop.after.toConn := by
  obtain ⟨lost, htries⟩ := htried
  cases htries with
  | once hattempt => exact h.attempt hattempt
  | twice _ _ hfirst _ hsecond =>
      obtain ⟨more, htrace, h₁⟩ := h.attempt hfirst
      obtain ⟨more', htrace', h₂⟩ := h₁.attempt hsecond
      refine ⟨more ++ more', ?_, ?_⟩
      · rw [htrace', htrace, List.append_assoc]
      · rwa [← List.append_assoc]

/-- A piece of a body is no head. -/
theorem piece_headless {c₁ : Conn} {t : ℕ} {part : Part} {b : Bytes} {o : Result ℕ}
    (hpart : part ≠ .head) (hc₁ : c₁ = c ∨ c₁ = c.endUpload) :
    (c₁.log (.sent t c.request part b o)).trace = c.trace ++ [.sent t c.request part b o] ∧
      ∀ a ∈ [Action.sent t c.request part b o], a.isHead = false := by
  refine ⟨?_, fun a ha => ?_⟩
  · obtain rfl | rfl := hc₁ <;> rfl
  · rw [List.mem_singleton.mp ha]
    cases part with
    | head => exact absurd rfl hpart
    | _ => rfl

/-- What one step of a path adds stands before what the rest adds. -/
theorem Renewing.join {c₁ : Conn} {front : List Action} (hfront : c₁.trace = c.trace ++ front)
    (h : ∃ more, c'.trace = c₁.trace ++ more ∧ Renewing held (past ++ front ++ more) c') :
    ∃ more, c'.trace = c.trace ++ more ∧ Renewing held (past ++ more) c' := by
  obtain ⟨more, htrace, hrenewing⟩ := h
  refine ⟨front ++ more, ?_, ?_⟩
  · rw [htrace, hfront, List.append_assoc]
  · rwa [← List.append_assoc]

/-- On a path every head goes over the transport held at its start, or over a new one. -/
theorem Through.renewing {hops : List Hop} (h : Through c hops c') (hc : Renewing held past c) :
    ∃ more, c'.trace = c.trace ++ more ∧ Renewing held (past ++ more) c' := by
  induction h generalizing past with
  | nil c => exact ⟨[], (List.append_nil _).symm, by rwa [List.append_nil]⟩
  | beside h _ ih =>
      obtain ⟨front, hfront, hquiet⟩ := h.trace
      exact Renewing.join hfront (ih (hc.headless (fun a ha => isHead_of_rests (hquiet a ha)) h.link))
  | @piece c c₁ c' hops t part bytes outcome hup ht hpart hc₁ _ ih =>
      obtain ⟨htrace, hheadless⟩ := piece_headless (t := t) (b := bytes) (o := outcome) hpart hc₁
      have hlink : SameLink c.client c₁.client := by
        obtain rfl | rfl := hc₁
        · exact .rfl
        · exact ⟨rfl, rfl, rfl, rfl, rfl, fun h => by cases h⟩
      exact Renewing.join htrace (ih (hc.headless hheadless (.inl hlink)))
  | hop htried _ ih =>
      obtain ⟨front, hfront, hrenewing⟩ := hc.tried htried
      exact Renewing.join hfront (ih hrenewing)

/-- On a path without hops there is no head. -/
theorem Through.headless (h : Through c [] c') :
    ∃ more, c'.trace = c.trace ++ more ∧ ∀ a ∈ more, a.isHead = false := by
  generalize hhops : ([] : List Hop) = hops at h
  induction h with
  | nil c => exact ⟨[], (List.append_nil _).symm, by simp⟩
  | beside h _ ih =>
      obtain ⟨front, hfront, hquiet⟩ := h.trace
      obtain ⟨more, htrace, hmore⟩ := ih hhops
      refine ⟨front ++ more, by rw [htrace, hfront, List.append_assoc], fun a ha => ?_⟩
      exact (List.mem_append.mp ha).elim (fun ha => isHead_of_rests (hquiet a ha)) (hmore a)
  | piece hup ht hpart hc₁ _ ih =>
      obtain ⟨hfront, hquiet⟩ := piece_headless hpart hc₁
      obtain ⟨more, htrace, hmore⟩ := ih hhops
      refine ⟨[_] ++ more, by rw [htrace, hfront, List.append_assoc], fun a ha => ?_⟩
      exact (List.mem_append.mp ha).elim (hquiet a) (hmore a)
  | hop => cases hhops

end

/-! ## What a call does with a closed transport -/

/-- Between these two moments no head goes over a transport that had closed, and where it was the
one that is held, every head goes over one that is made and connected for it. -/
structure AvoidsClosed (c c' : Conn) : Prop where
  unused : ∀ t, .closed t ∈ c.trace → ∀ n bytes outcome,
    .sent t n .head bytes outcome ∉ c'.trace.drop c.trace.length
  renewed : ∀ t, c.client.transport = some t → .closed t ∈ c.trace →
    HeadsOver none (c'.trace.drop c.trace.length)

section

variable {c c₀ c' : Conn} {more : List Action}

theorem avoidsClosed_of_headless (htrace : c'.trace = c.trace ++ more)
    (hmore : ∀ a ∈ more, a.isHead = false) : AvoidsClosed c c' := by
  have hdrop : c'.trace.drop c.trace.length = more := by rw [htrace, List.drop_left]
  constructor
  · intro t _ n bytes outcome hm
    have := hmore _ (hdrop ▸ hm)
    cases this
  · intro t _ _
    rw [hdrop]
    exact headsOver_of_headless hmore

/-- A path from a transport that has not closed, or from none. -/
theorem avoidsClosed_of_through {hops : List Hop} (h : Through c₀ hops c')
    (hbefore : c₀.trace = c.trace ++ more) (hmore : ∀ a ∈ more, a.isHead = false)
    (hheld : ∀ t, c₀.client.transport = some t → c.client.transport = some t ∧ .closed t ∉ c.trace)
    (haged : Aged c') : AvoidsClosed c c' := by
  have hstart : Renewing c₀.client.transport more c₀ :=
    ⟨headsOver_of_headless hmore, fun t url hlinked => .inl hlinked.transport⟩
  obtain ⟨rest, hrest, hrenewing⟩ := h.renewing hstart
  have htrace : c'.trace = c.trace ++ (more ++ rest) := by rw [hrest, hbefore, List.append_assoc]
  have hdrop : c'.trace.drop c.trace.length = more ++ rest := by rw [htrace, List.drop_left]
  constructor
  · intro t hclosed n bytes outcome hm
    obtain ⟨front, back, hsplit⟩ := List.append_of_mem (hdrop ▸ hm)
    rcases hrenewing.heads front t n bytes outcome back hsplit with hkept | hmade
    · exact (hheld t hkept).2 hclosed
    · obtain ⟨tls, config, hcreated⟩ := hmade.created
      have horder := haged.order
      rw [htrace, List.pairwise_append] at horder
      have := horder.2.2 _ hclosed (.created t tls config)
        (hsplit ▸ List.mem_append_left _ hcreated)
      simp [madeBehindClose] at this
  · intro t ht hclosed front t' n bytes outcome back hsplit
    rcases hrenewing.heads front t' n bytes outcome back (hdrop ▸ hsplit) with hkept | hmade
    · obtain ⟨ht', hopen⟩ := hheld t' hkept
      obtain rfl := Option.some.inj (ht.symm.trans ht')
      exact absurd hclosed hopen
    · exact .inr hmade

end

/-! ## Calls that keep the transport and calls that do not -/

/-- The test of `EnsureConnected`, but for the transport itself. -/
def Keeps (client : SoftwareHttpClient) (url : ParsedUrl) : Prop :=
  client.connected = true ∧ client.keepAlive = true ∧ url.host = client.connectedHost ∧
    url.port = client.connectedPort ∧ url.tls = client.connectedTls

/-- The URL for which a call asks for a connection, where no upload is open. -/
inductive Starts (client : SoftwareHttpClient) : World.Call → ParsedUrl → Prop
  | execute {method url : Bytes} {u : ParsedUrl} (hurl : parseUrl url = .ok u) :
      Starts client (.execute method url) u
  | opens {method url : Bytes} {u : ParsedUrl} (hurl : parseUrl url = .ok u)
      (hplain : client.chunkedUpload = false) : Starts client (.open method url) u
  | uploads {method url : Bytes} {u : ParsedUrl} (hurl : parseUrl url = .ok u)
      (hchunked : client.chunkedUpload = true) (hbody : client.requestBody = [])
      (hexpect : (client.headers.any fun h => toLower h.1 == World.expectName) = false) :
      Starts client (.open method url) u

/-- The call asks for a connection to where the held transport leads, and that transport has
closed. -/
def ReusesClosed (w : World) (call : World.Call) : Prop :=
  ∃ t u, w.client.transport = some t ∧ .closed t ∈ w.trace ∧ w.client.uploadActive = false ∧
    Starts w.client call u ∧ Keeps w.client u

theorem drop_drop (w : World) : w.dropTransport.dropTransport = w.dropTransport := by
  unfold World.dropTransport Conn.dropTransport
  cases w.client.transport <;> rfl

theorem drop_withStreaming (w : World) (b : Bool) :
    (w.withStreaming b).dropTransport = w.dropTransport.withStreaming b := by
  have htransport : (w.withStreaming b).client.transport = w.client.transport := rfl
  unfold World.dropTransport Conn.dropTransport
  rw [htransport]
  cases w.client.transport <;> rfl

section

variable [Target] (env : Env) {w : World} (request : RequestState) {u : ParsedUrl}

theorem beginChunkedUpload_starts (hbody : request.body = [])
    (hexpect : (request.headers.any fun h => toLower h.1 == World.expectName) = false) (w : World) :
    w.beginChunkedUpload env request = match w.startRequest env request true with
      | (.error e, w) => (.error e, w)
      | (.ok (), w) => (.ok (), { w with toConn := w.toConn.armUpload }) := by
  rw [World.beginChunkedUpload, if_neg (not_not_intro hbody)]
  exact if_neg (by rw [hexpect]; simp)

theorem open_chunked {method url : Bytes} (hurl : parseUrl url = .ok u)
    (hchunked : w.client.chunkedUpload = true) : w.open env method url =
      match (w.withStreaming true).beginChunkedUpload env (w.configured method u) with
      | (.error e, w) => (.error e, w.withStreaming false)
      | (.ok (), w) => (.ok (), w) := by
  unfold World.open
  rw [hurl]
  exact if_pos hchunked

/-! A request that does not keep the transport is made as if there were none. -/

theorem ensureConnected_dropped (h : ∀ t, w.client.transport = some t → ¬Keeps w.client u) :
    w.ensureConnected env u = w.dropTransport.ensureConnected env u := by
  have hkept : (if w.client.connected ∧ w.client.keepAlive ∧ u.host = w.client.connectedHost ∧
      u.port = w.client.connectedPort ∧ u.tls = w.client.connectedTls then
      w.client.transport else none) = none := by
    split
    · rename_i hkeeps
      cases ht : w.client.transport with
      | none => rfl
      | some t => exact absurd hkeeps (h t ht)
    · rfl
  have hnone : (if w.dropTransport.client.connected ∧ w.dropTransport.client.keepAlive ∧
      u.host = w.dropTransport.client.connectedHost ∧
      u.port = w.dropTransport.client.connectedPort ∧
      u.tls = w.dropTransport.client.connectedTls then w.dropTransport.client.transport
      else none) = none := by
    split <;> rfl
  unfold World.ensureConnected
  dsimp only
  rw [hkept, hnone, drop_drop]

section

variable (hup : w.client.uploadActive = false)
  (h : ∀ t, w.client.transport = some t → ¬Keeps w.client request.url)
include hup h

theorem startRequest_dropped (chunked : Bool) :
    w.startRequest env request chunked = w.dropTransport.startRequest env request chunked := by
  unfold World.startRequest
  rw [if_neg (by simp [hup]), if_neg (by simp [World.dropTransport, Conn.dropTransport]),
    ensureConnected_dropped env h]

theorem executeHops_dropped (left hop : ℕ) : World.executeHops env left hop request w =
    World.executeHops env left hop request w.dropTransport := by
  have honce : w.executeOnce env request = w.dropTransport.executeOnce env request := by
    have hstart := startRequest_dropped (w := w.withStreaming false) env request hup h false
    rw [drop_withStreaming] at hstart
    rw [World.executeOnce]
    change (match (w.withStreaming false).startRequest env request false with
      | (.error e, w) => _
      | (.ok (), w) => _) = _
    rw [hstart]
    rfl
  have hhop : w.executeHop env hop request = w.dropTransport.executeHop env hop request := by
    rw [World.executeHop, World.executeHop, World.executeAttempt, World.executeAttempt, honce]
  unfold World.executeHops
  rw [hhop]

theorem openHops_dropped (left hop : ℕ) : World.openHops env left hop request w =
    World.openHops env left hop request w.dropTransport := by
  have hhop : w.openHop env hop request = w.dropTransport.openHop env hop request := by
    rw [World.openHop, World.openHop, startRequest_dropped env request hup h]
  unfold World.openHops
  rw [hhop]

end

theorem perform_dropped {call : World.Call} (hup : w.client.uploadActive = false)
    (hstarts : Starts w.client call u) (h : ∀ t, w.client.transport = some t → ¬Keeps w.client u) :
    w.perform env call = w.dropTransport.perform env call := by
  cases hstarts with
  | @execute method url _ hurl =>
      have hexecute : w.execute env method url = w.dropTransport.execute env method url := by
        rw [World.execute, World.execute, hurl]
        exact executeHops_dropped env (w.configured method u) hup h _ _
      simp only [World.perform, hexecute]
  | @opens method url _ hurl hplain =>
      have hopen : w.open env method url = w.dropTransport.open env method url := by
        rw [open_plain env hurl hplain, open_plain (w := w.dropTransport) env hurl hplain,
          ← openHops_eq, ← openHops_eq]
        have hhops := openHops_dropped (w := w.withStreaming true) env (w.configured method u) hup h
          w.client.maxRedirects 0
        rw [drop_withStreaming] at hhops
        exact hhops
      simp only [World.perform, hopen]
  | @uploads method url _ hurl hchunked hbody hexpect =>
      have hstart := startRequest_dropped (w := w.withStreaming true) env (w.configured method u)
        hup h true
      rw [drop_withStreaming] at hstart
      have hopen : w.open env method url = w.dropTransport.open env method url := by
        rw [open_chunked env hurl hchunked, open_chunked (w := w.dropTransport) env hurl hchunked,
          beginChunkedUpload_starts env _ hbody hexpect, hstart,
          ← beginChunkedUpload_starts env _ hbody hexpect]
        rfl
      simp only [World.perform, hopen]

/-! ## Where no head goes over a closed transport -/

theorem beginChunkedUpload_refuses
    (h : request.body = [] → (request.headers.any fun h => toLower h.1 == World.expectName) = true)
    (w : World) : ∃ e, w.beginChunkedUpload env request = (.error e, w) := by
  rw [World.beginChunkedUpload]
  by_cases hbody : request.body = []
  · rw [if_neg (not_not_intro hbody), if_pos (h hbody)]
    exact ⟨_, rfl⟩
  · rw [if_pos hbody]
    exact ⟨_, rfl⟩

/-- A request that does not come to ask for a connection leaves all but the flag. -/
theorem issue_unstarted {r : World.RequestCall}
    (hopen : ∀ u, parseUrl r.url = .ok u → w.client.uploadActive = false →
      ∃ b, (r.issue env w).2 = w.withStreaming b) : ∃ b, (r.issue env w).2 = w.withStreaming b := by
  cases hurl : parseUrl r.url with
  | error e => exact ⟨w.client.streaming, congrArg Prod.snd (World.issue_unparsed env w hurl)⟩
  | ok u =>
      cases hup : w.client.uploadActive with
      | false => exact hopen u hurl hup
      | true =>
          obtain ⟨e, he⟩ := World.issue_refused env hup hurl
          exact ⟨_, congrArg Prod.snd he⟩

theorem execute_unstarted {method url : Bytes}
    (h : ¬(w.client.uploadActive = false ∧ ∃ u, Starts w.client (.execute method url) u)) :
    ∃ b, (w.execute env method url).2 = w.withStreaming b :=
  issue_unstarted (r := .execute method url) env fun u hurl hup =>
    absurd ⟨hup, u, .execute hurl⟩ h

theorem open_unstarted {method url : Bytes}
    (h : ¬(w.client.uploadActive = false ∧ ∃ u, Starts w.client (.open method url) u)) :
    ∃ b, (w.open env method url).2 = w.withStreaming b := by
  refine issue_unstarted (r := .open method url) env fun u hurl hup => ?_
  cases hchunked : w.client.chunkedUpload with
  | false => exact absurd ⟨hup, u, .opens hurl hchunked⟩ h
  | true =>
      obtain ⟨e, he⟩ := beginChunkedUpload_refuses env (w.configured method u)
        (fun hbody => by
          by_contra hexpect
          exact h ⟨hup, u, .uploads hurl hchunked hbody (Bool.eq_false_iff.mpr hexpect)⟩)
        (w.withStreaming true)
      have hurl' : parseUrl url = .ok u := hurl
      refine ⟨false, ?_⟩
      change (w.open env method url).2 = _
      rw [open_chunked env hurl' hchunked, he]
      rfl

/-- A call that does not ask for a connection sends no head. -/
theorem perform_headless {call : World.Call}
    (h : ¬(w.client.uploadActive = false ∧ ∃ u, Starts w.client call u)) :
    ∃ more, (w.perform env call).trace = w.trace ++ more ∧ ∀ a ∈ more, a.isHead = false := by
  have hflag : ∀ b w', w' = w.withStreaming b → Beside w.toConn (w'.yield env).toConn := by
    rintro b w' rfl
    have hquiet : Beside w.toConn (w.withStreaming b).toConn :=
      .of_eq rfl rfl ⟨rfl, rfl, rfl, rfl, rfl, id⟩
    exact hquiet.trans (rests_yield env (w.withStreaming b)).1.beside
  obtain ⟨hops, hhops, hthrough⟩ := through_perform env w call
  cases call with
  | «open» method url =>
      obtain ⟨b, hb⟩ := open_unstarted env h
      exact (through_beside (hflag b (w.open env method url).2 hb)).headless
  | execute method url =>
      obtain ⟨b, hb⟩ := execute_unstarted env h
      exact (through_beside (hflag b (w.execute env method url).2 hb)).headless
  | _ =>
      cases hhops with
      | other => exact hthrough.headless
      | refused hcall => cases hcall

theorem avoidsClosed_of_not_reuses {call : World.Call} (haged : Aged (w.perform env call).toConn)
    (h : ¬ReusesClosed w call) : AvoidsClosed w.toConn (w.perform env call).toConn := by
  by_cases hstarts : w.client.uploadActive = false ∧ ∃ u, Starts w.client call u
  · obtain ⟨hup, u, hstarts⟩ := hstarts
    by_cases hkeeps : ∃ t, w.client.transport = some t ∧ Keeps w.client u
    · obtain ⟨t, ht, hkeeps⟩ := hkeeps
      obtain ⟨hops, -, hthrough⟩ := through_perform env w call
      refine avoidsClosed_of_through hthrough (List.append_nil _).symm (by simp)
        (fun t' ht' => ⟨ht', fun hclosed => ?_⟩) haged
      exact h ⟨t', u, ht', hclosed, hup, hstarts, hkeeps⟩
    · rw [perform_dropped env hup hstarts fun t ht hk => hkeeps ⟨t, ht, hk⟩] at haged ⊢
      obtain ⟨hops, -, hthrough⟩ := through_perform env w.dropTransport call
      obtain ⟨more, htrace, hmore⟩ := w.toConn.dropTransport_trace
      refine avoidsClosed_of_through hthrough htrace (fun a ha => ?_) (fun t ht => ?_) haged
      · obtain ⟨t, rfl⟩ := hmore a ha
        rfl
      · cases ht
  · obtain ⟨more, htrace, hmore⟩ := perform_headless env hstarts
    exact avoidsClosed_of_headless htrace hmore

/-! ## Where a head goes over a closed transport -/

omit [Target] in
/-- Between these two moments a head goes over the transport. -/
def SendsHeadOn (t : ℕ) (c c' : Conn) : Prop :=
  ∃ n bytes outcome more, c'.trace = c.trace ++ more ∧ .sent t n .head bytes outcome ∈ more

section

variable {t : ℕ} {c c' c'' : Conn}

omit [Target]

theorem SendsHeadOn.grow (h : SendsHeadOn t c c') (hgrow : ∃ more, c''.trace = c'.trace ++ more) :
    SendsHeadOn t c c'' := by
  obtain ⟨n, bytes, outcome, front, hfront, hsent⟩ := h
  obtain ⟨more, hmore⟩ := hgrow
  exact ⟨n, bytes, outcome, front ++ more, by rw [hmore, hfront, List.append_assoc],
    List.mem_append_left _ hsent⟩

theorem SendsHeadOn.rests (h : SendsHeadOn t c c') (hrests : Rests c' c'') : SendsHeadOn t c c'' :=
  h.grow (hrests.trace.imp fun _ h => h.1)

theorem SendsHeadOn.not_avoids (h : SendsHeadOn t c c') (hclosed : .closed t ∈ c.trace) :
    ¬AvoidsClosed c c' := by
  intro havoids
  obtain ⟨n, bytes, outcome, more, htrace, hsent⟩ := h
  refine havoids.unused t hclosed n bytes outcome ?_
  rwa [htrace, List.drop_left]

end

section

variable {t : ℕ} (ht : w.client.transport = some t) (hup : w.client.uploadActive = false)
include ht hup

theorem startRequest_keeps (hkeeps : Keeps w.client request.url) (chunked : Bool) :
    SendsHeadOn t w.toConn (w.startRequest env request chunked).2.toConn := by
  have hconnected : w.ensureConnected env request.url = (.ok t, w) := by
    unfold World.ensureConnected
    dsimp only
    obtain ⟨hconnected, hkeepAlive, hhost, hport, htls⟩ := hkeeps
    rw [ht, if_pos ⟨hconnected, hkeepAlive, hhost, hport, htls⟩]
  obtain ⟨front, back, bytes, outcome, hsent, -⟩ := begin_send env request chunked t w
  have hhead : ∀ w' : World, w'.trace = w.trace ++
      (front ++ .sent t (w.request + 1) .head bytes outcome :: back) →
      SendsHeadOn t w.toConn w'.toConn :=
    fun w' htrace => ⟨w.request + 1, bytes, outcome, _, htrace, by simp⟩
  unfold World.startRequest
  rw [if_neg (by simp [hup]), hconnected]
  dsimp only at hsent ⊢
  split
  · rename_i e w' heq
    rw [heq] at hsent
    exact (hhead w' hsent).rests (rests_drop w').1
  · rename_i n w' heq
    rw [heq] at hsent
    exact hhead w' hsent

theorem executeHop_keeps (hkeeps : Keeps w.client request.url) (hop : ℕ) :
    SendsHeadOn t w.toConn (w.executeHop env hop request).2.toConn := by
  have honce : SendsHeadOn t w.toConn (w.executeOnce env request).2.toConn := by
    have hstart : SendsHeadOn t w.toConn _ := startRequest_keeps
      (w := { w with client := { w.client with streaming := false } }) env request ht hup hkeeps
      false
    unfold World.executeOnce
    dsimp only
    split
    · rename_i heq
      rw [heq] at hstart
      exact hstart
    · rename_i w' heq
      rw [heq] at hstart
      have hwait := hstart.rests (rests_yield env w').1
      have hlost := hwait.rests (rests_yield_drop env _).1
      split
      · exact hlost
      · split
        · exact hlost
        · dsimp only
          have hmoved : SendsHeadOn t w.toConn { (w'.yield env).toConn with
              client := { (w'.yield env).client with response := {} } } := hwait
          split
          · exact hmoved
          · exact hmoved.rests (rests_yield_drop env
              { w'.yield env with client := { (w'.yield env).client with response := {} } }).1
  have hattempt : SendsHeadOn t w.toConn (w.executeAttempt env request).2.toConn := by
    unfold World.executeAttempt
    split
    · rename_i heq
      rw [heq] at honce
      exact honce
    · rename_i e w' heq
      rw [heq] at honce
      split
      · exact honce.grow (executeOnce_attempt env request w').1.trace
      · exact honce
  unfold World.executeHop
  split
  · rename_i heq
    rw [heq] at hattempt
    exact hattempt
  · rename_i response w' heq
    rw [heq] at hattempt
    have hredirect := hattempt.rests (applyRedirect_spec response hop request w').1
    split <;> rename_i heq' <;> rw [heq'] at hredirect <;> exact hredirect

theorem openHop_keeps (hkeeps : Keeps w.client request.url) (hop : ℕ) :
    SendsHeadOn t w.toConn (w.openHop env hop request).2.toConn := by
  have hstart := startRequest_keeps env request ht hup hkeeps false
  unfold World.openHop
  split
  · rename_i heq
    rw [heq] at hstart
    exact hstart
  · rename_i w' heq
    rw [heq] at hstart
    have hwait := hstart.rests (rests_awaitHeaders env w')
    split
    · rename_i heq'
      rw [heq'] at hwait
      exact hwait
    · rename_i head w'' heq'
      rw [heq'] at hwait
      exact (hwait.rests (rests_yield env w'').1).rests (applyRedirect_spec head hop request _).1

end

variable {request} in
omit [Target] in
/-- What the first pass of the loop sends is sent. -/
theorem loop_sendsHead {α : Type} {lost : RequestState → World → Conn → Prop}
    {round : Rounds.Round RequestState World α NetworkError} (h : Hopping lost round) {t : ℕ}
    {hops : List Hop} {out : Result α × World} (hloop : Rounds.Loop round 0 request w hops out)
    (hfirst : SendsHeadOn t w.toConn (round 0 request w).2.toConn) :
    SendsHeadOn t w.toConn out.2.toConn := by
  cases hloop with
  | fails hround | answers hround =>
      rw [hround] at hfirst
      exact hfirst
  | follows hround hrest =>
      rw [hround] at hfirst
      exact hfirst.grow ⟨_, h.trace hrest⟩

theorem perform_reuses {call : World.Call} (h : ReusesClosed w call) :
    ¬AvoidsClosed w.toConn (w.perform env call).toConn := by
  obtain ⟨t, u, ht, hclosed, hup, hstarts, hkeeps⟩ := h
  refine SendsHeadOn.not_avoids (t := t) ?_ hclosed
  cases hstarts with
  | @execute method url _ hurl =>
      refine SendsHeadOn.rests ?_ (rests_yield env (w.execute env method url).2).1
      have hhopping := executeRound_hopping env
      obtain ⟨hops, hloop, -⟩ := hhopping.ends (w.configured method u) w
      have hsent := loop_sendsHead hhopping hloop
        (executeHop_keeps env (w.configured method u) ht hup hkeeps 0)
      rw [← executeHops_eq] at hsent
      rw [World.execute, hurl]
      exact hsent
  | @opens method url _ hurl hplain =>
      refine SendsHeadOn.rests ?_ (rests_yield env (w.open env method url).2).1
      have hhopping := openRound_hopping env
      obtain ⟨hops, hloop, -⟩ := hhopping.ends (w.configured method u) (openWorld w)
      have hhop := openHop_keeps (w := openWorld w) env (w.configured method u) ht hup hkeeps
        0
      have hround : SendsHeadOn t (openWorld w).toConn
          (openRound env 0 (w.configured method u) (openWorld w)).2.toConn := by
        rw [openRound]
        split <;> rename_i heq <;> rw [heq] at hhop <;> exact hhop
      have hsent := loop_sendsHead hhopping hloop hround
      rw [open_plain env hurl hplain]
      exact hsent
  | @uploads method url _ hurl hchunked hbody hexpect =>
      refine SendsHeadOn.rests ?_ (rests_yield env (w.open env method url).2).1
      have hstart := startRequest_keeps (w := w.withStreaming true) env (w.configured method u)
        ht hup hkeeps true
      rw [open_chunked env hurl hchunked, beginChunkedUpload_starts env _ hbody hexpect]
      generalize (w.withStreaming true).startRequest env (w.configured method u) true = x at hstart
      obtain ⟨_ | _, w'⟩ := x
      · exact hstart
      · exact hstart

/-! ## Runs -/

/-- In a run every call keeps off the transports that have closed if and only if no call asks for a
connection to where a transport leads that is held and has closed. -/
theorem closed_not_reused_iff (env : Env) (calls : List World.Call) :
    (∀ front call back, calls = front ++ call :: back →
      AvoidsClosed (World.run env front).toConn (World.run env (front ++ [call])).toConn) ↔
    ∀ front call back, calls = front ++ call :: back → ¬ReusesClosed (World.run env front) call := by
  have hone : ∀ front call, AvoidsClosed (World.run env front).toConn
      (World.run env (front ++ [call])).toConn ↔ ¬ReusesClosed (World.run env front) call := by
    intro front call
    have haged := run_aged env (front ++ [call])
    have hrun : World.run env (front ++ [call]) = (World.run env front).perform env call :=
      List.foldl_concat ..
    rw [hrun] at haged ⊢
    exact ⟨fun havoids hreuses => perform_reuses env hreuses havoids,
      avoidsClosed_of_not_reuses env haged⟩
  exact ⟨fun h front call back heq => (hone front call).mp (h front call back heq),
    fun h front call back heq => (hone front call).mpr (h front call back heq)⟩

end

/-! ## A request over a connection that the server has closed -/

/-- Two requests on a kept connection, and the server closes it between them. -/
def reuseCalls : List World.Call :=
  [.setKeepAlive true, .execute methodGet exampleUrl, .execute methodGet exampleUrl]

def closingEnv : Env := scripted [102, 102] [(5, .data 1 answerA), (6, .closed)]

/-- The head of the second request goes over the transport that has reported its close. -/
theorem closed_reused :
    letI := esp32
    ¬∀ front call back, reuseCalls = front ++ call :: back →
      AvoidsClosed (World.run closingEnv front).toConn
        (World.run closingEnv (front ++ [call])).toConn := by
  intro h
  have hsecond := h (reuseCalls.take 2) (.execute methodGet exampleUrl) [] rfl
  have hclosed : (@World.run esp32 closingEnv (reuseCalls.take 2)).trace[5]? = some (.closed 0) :=
    rfl
  have hlength : (@World.run esp32 closingEnv (reuseCalls.take 2)).trace.length = 6 := rfl
  have hsent : (@World.run esp32 closingEnv reuseCalls).trace[6 + 1]? = some (.sent 0 2 .head
      (buildHttpRequest ⟨false, [104], 80, [slash]⟩ { method := methodGet, keepAlive := true })
      (.ok 102)) := rfl
  rw [← hlength, ← List.getElem?_drop] at hsent
  exact hsecond.unused 0 (List.mem_of_getElem? hclosed) 2 _ _ (List.mem_of_getElem? hsent)

end EspModemLink.Http
