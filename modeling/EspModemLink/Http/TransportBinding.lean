import EspModemLink.Http.RunHops

/-!
# Transport binding

`EnsureConnected` reuses the transport by the host, the port and the scheme that it was connected to.
No part of a request goes over a transport that was opened for another URL.
-/

namespace EspModemLink.Http

open Bytes

/-! ## What an action is bound to -/

/-- The hop makes the request with this number. -/
structure Makes (hop : Hop) (n : ℕ) : Prop where
  after : hop.before.request < n
  upTo : n ≤ hop.after.request

/-- The hop is on at a place of the trace. -/
structure During (hop : Hop) (place : ℕ) : Prop where
  after : hop.before.trace.length ≤ place
  before : place < hop.after.trace.length

/-- A part of a request is sent over a transport that was made and connected for its URL, and a
transport is made for the URL of the hop that is on, with the `TlsConfig` that is held only for a TLS
URL. -/
inductive Bound (hops : List Hop) (front : List Action) : Action → Prop
  | sent {hop : Hop} {t n : ℕ} {part : Part} {bytes : Bytes} {outcome : Result ℕ} (hhop : hop ∈ hops)
      (hmakes : Makes hop n) (hopened : OpenedFor t hop.request.url front)
      (hhead : part = .head → RenderedFor hop.request bytes) :
      Bound hops front (.sent t n part bytes outcome)
  | created {hop : Hop} {t : ℕ} {tls : Bool} {config : TlsConfig} (hhop : hop ∈ hops)
      (hduring : During hop front.length) (htls : tls = hop.request.url.tls)
      (hconfig : config = if tls then hop.before.client.tls else {}) :
      Bound hops front (.created t tls config)
  | connected {t : ℕ} {host : Bytes} {port : ℕ} : Bound hops front (.connected t host port)
  | began {t n : ℕ} {complete : Bool} : Bound hops front (.began t n complete)
  | rests {a : Action} (h : a.isOutbound = false) : Bound hops front a

theorem Bound.mono {hops hops' : List Hop} {front : List Action} {a : Action}
    (hsub : ∀ hop ∈ hops, hop ∈ hops') (h : Bound hops front a) : Bound hops' front a := by
  cases h with
  | sent hhop hmakes hopened hhead => exact .sent (hsub _ hhop) hmakes hopened hhead
  | created hhop hduring htls hconfig => exact .created (hsub _ hhop) hduring htls hconfig
  | connected => exact .connected
  | began => exact .began
  | rests h => exact .rests h

theorem OpenedFor.append {t : ℕ} {url : ParsedUrl} {trace : List Action} (more : List Action)
    (h : OpenedFor t url trace) : OpenedFor t url (trace ++ more) := by
  obtain ⟨⟨config, hcreated⟩, hconnected⟩ := h
  exact ⟨⟨config, List.mem_append_left _ hcreated⟩, List.mem_append_left _ hconnected⟩

theorem OpenedFor.of_append {t : ℕ} {url : ParsedUrl} (trace : List Action) {more : List Action}
    (h : OpenedFor t url more) : OpenedFor t url (trace ++ more) := by
  obtain ⟨⟨config, hcreated⟩, hconnected⟩ := h
  exact ⟨⟨config, List.mem_append_right _ hcreated⟩, List.mem_append_right _ hconnected⟩

/-- Every action is bound, each by what came before it. -/
def AllBound (hops : List Hop) (trace more : List Action) : Prop :=
  ∀ front a back, more = front ++ a :: back → Bound hops (trace ++ front) a

theorem AllBound.append {hops : List Hop} {trace more more' : List Action}
    (h : AllBound hops trace more) (h' : AllBound hops (trace ++ more) more') :
    AllBound hops trace (more ++ more') := by
  intro front a back heq
  obtain ⟨rest, hfront, hmore'⟩ | ⟨rest, hmore, hback⟩ := List.append_eq_append_iff.mp heq
  · have hbound := h' rest a back hmore'
    rwa [List.append_assoc, ← hfront] at hbound
  · cases rest with
    | nil =>
        have hbound := h' [] a back hback.symm
        rw [List.append_nil] at hmore hbound
        rwa [← hmore]
    | cons b rest =>
        obtain ⟨rfl, -⟩ := List.cons.inj hback
        exact h front a rest hmore

theorem allBound_singleton {hops : List Hop} {trace : List Action} {a : Action}
    (h : Bound hops trace a) : AllBound hops trace [a] := by
  intro front b back heq
  cases front with
  | nil =>
      obtain ⟨rfl, -⟩ := List.cons.inj heq
      rwa [List.append_nil]
  | cons c front => simp at heq

theorem allBound_of_rests {hops : List Hop} {trace more : List Action}
    (h : ∀ a ∈ more, a.isOutbound = false) : AllBound hops trace more := by
  rintro front a back rfl
  exact .rests (h a (by simp))

/-- What prepares the request of a hop is bound to that hop. -/
theorem allBound_of_prepares {hops : List Hop} {hop : Hop} {trace more : List Action}
    (hhop : hop ∈ hops) (hafter : hop.before.trace.length ≤ trace.length)
    (hbefore : (trace ++ more).length ≤ hop.after.trace.length)
    (h : ∀ a ∈ more, Prepares hop.request.url hop.before.client.tls a) :
    AllBound hops trace more := by
  rintro front a back rfl
  have hprepares := h a (by simp)
  cases a with
  | created t tls config =>
      obtain ⟨htls, hconfig⟩ := hprepares
      refine .created hhop ⟨?_, ?_⟩ htls (by rw [htls, hconfig])
      · rw [List.length_append]
        omega
      · rw [List.length_append, List.length_append, List.length_cons] at hbefore
        rw [List.length_append]
        omega
  | sent => exact hprepares.elim
  | connected => exact .connected
  | began => exact .began
  | _ => exact .rests rfl

/-! ## What is held -/

/-- The fields that decide about reuse describe the transport, a pending upload is the last request,
and all that happened is bound. -/
structure Binding (hops : List Hop) (c : Conn) : Prop where
  held : ∀ t url, LinkedTo t url c.client → OpenedFor t url c.trace
  upload : c.client.uploadActive = true → ∀ t, c.client.transport = some t →
    ∃ hop ∈ hops, Makes hop c.request ∧ OpenedFor t hop.request.url c.trace
  bound : AllBound hops [] c.trace

theorem Binding.mono {hops hops' : List Hop} {c : Conn} (hsub : ∀ hop ∈ hops, hop ∈ hops')
    (h : Binding hops c) : Binding hops' c := by
  refine ⟨h.held, fun hup t ht => ?_, fun front a back heq => (h.bound front a back heq).mono hsub⟩
  obtain ⟨hop, hhop, hmakes⟩ := h.upload hup t ht
  exact ⟨hop, hsub hop hhop, hmakes⟩

theorem Down.unlinked {t : ℕ} {url : ParsedUrl} {c : SoftwareHttpClient} (h : Down c) :
    ¬ LinkedTo t url c := by
  intro hlinked
  have := h.transport.symm.trans hlinked.transport
  cases this

/-- The link is as it was, or gone, and no request was begun. -/
theorem Binding.of_link {hops : List Hop} {c c' : Conn} {more : List Action} (h : Binding hops c)
    (htrace : c'.trace = c.trace ++ more) (hrequest : c'.request = c.request)
    (hlink : SameLink c.client c'.client ∨ Down c'.client) (hmore : AllBound hops c.trace more) :
    Binding hops c' := by
  constructor
  · intro t url hlinked
    obtain hlink | hdown := hlink
    · rw [htrace]
      exact (h.held t url (hlinked.before hlink)).append more
    · exact (hdown.unlinked hlinked).elim
  · intro hup t ht
    obtain hlink | hdown := hlink
    · obtain ⟨hop, hhop, hmakes, hopened⟩ :=
        h.upload (hlink.upload hup) t (hlink.transport.symm.trans ht)
      rw [hrequest, htrace]
      exact ⟨hop, hhop, hmakes, hopened.append more⟩
    · have := hdown.transport.symm.trans ht
      cases this
  · rw [htrace]
    exact h.bound.append hmore

theorem Binding.beside {hops : List Hop} {c c' : Conn} (h : Binding hops c) (h' : Beside c c') :
    Binding hops c' := by
  obtain ⟨more, htrace, hmore⟩ := h'.trace
  exact h.of_link htrace h'.request h'.link (allBound_of_rests hmore)

/-- A piece of a chunked body goes where the head of its request went. -/
theorem Binding.piece {hops : List Hop} {c c₁ : Conn} {t : ℕ} {part : Part} {bytes : Bytes}
    {outcome : Result ℕ} (h : Binding hops c) (hup : c.client.uploadActive = true)
    (ht : c.client.transport = some t) (hpart : part ≠ .head) (hc₁ : c₁ = c ∨ c₁ = c.endUpload) :
    Binding hops (c₁.log (.sent t c.request part bytes outcome)) := by
  obtain ⟨hop, hhop, hmakes, hopened⟩ := h.upload hup t ht
  have hbound : AllBound hops c.trace [.sent t c.request part bytes outcome] :=
    allBound_singleton (.sent hhop hmakes hopened fun hhead => absurd hhead hpart)
  obtain rfl | rfl := hc₁
  · exact h.of_link (Conn.log_trace ..) rfl (.inl ⟨rfl, rfl, rfl, rfl, rfl, id⟩) hbound
  · exact h.of_link (Conn.log_trace ..) rfl (.inl ⟨rfl, rfl, rfl, rfl, rfl, fun _ => hup⟩) hbound

/-! ## Attempts -/

/-- An attempt within a hop. -/
structure Within (hop : Hop) (c c' : Conn) : Prop where
  tls : c.client.tls = hop.before.client.tls
  traceAfter : hop.before.trace.length ≤ c.trace.length
  traceBefore : c'.trace.length ≤ hop.after.trace.length
  requestAfter : hop.before.request ≤ c.request
  requestBefore : c'.request ≤ hop.after.request

/-- The head goes over a transport that is connected to the URL of its hop, and that transport is
the one to be held. -/
theorem Binding.sends {hops : List Hop} {hop : Hop} {c c' : Conn} (h : Binding hops c)
    (hhop : hop ∈ hops) (hwithin : Within hop c c') (hsends : Sends hop.request c c') :
    Binding hops c' := by
  obtain ⟨htrace, hfront, hback, hbytes, hover, hrequest, -, hlink⟩ := hsends
  rename_i front back t bytes outcome
  have hmakes : Makes hop c'.request := by
    constructor
    · rw [hrequest]
      exact Nat.lt_succ_of_le hwithin.requestAfter
    · exact hwithin.requestBefore
  have hopened : OpenedFor t hop.request.url (c.trace ++ front) := by
    obtain hlinked | hopened := hover
    · exact (h.held t _ hlinked).append front
    · exact hopened.of_append c.trace
  have hall : c'.trace =
      c.trace ++ front ++ .sent t c'.request .head bytes outcome :: back := by
    rw [htrace, hrequest, List.append_assoc]
  constructor
  · intro t' url hlinked
    obtain hlinked' | hdown := hlink
    · obtain rfl := Option.some.inj (hlinked'.transport.symm.trans hlinked.transport)
      obtain ⟨⟨config, hcreated⟩, hconnected⟩ :=
        hopened.append (.sent t c'.request .head bytes outcome :: back)
      rw [hall]
      refine ⟨⟨config, ?_⟩, ?_⟩
      · rwa [hlinked.tls, ← hlinked'.tls]
      · rwa [hlinked.host, hlinked.port, ← hlinked'.host, ← hlinked'.port]
    · exact (hdown.unlinked hlinked).elim
  · intro _ t' ht'
    obtain hlinked | hdown := hlink
    · obtain rfl := Option.some.inj (hlinked.transport.symm.trans ht')
      rw [hall]
      exact ⟨hop, hhop, hmakes, hopened.append _⟩
    · have := hdown.transport.symm.trans ht'
      cases this
  · have hprepared : AllBound hops c.trace front := by
      apply allBound_of_prepares hhop hwithin.traceAfter
      · have hlength := hwithin.traceBefore
        rw [hall, List.length_append] at hlength
        omega
      · rwa [← hwithin.tls]
    have hsent : AllBound hops (c.trace ++ front)
        ([.sent t c'.request .head bytes outcome] ++ back) :=
      (allBound_singleton (.sent hhop hmakes hopened fun _ => hbytes)).append
        (allBound_of_rests hback)
    rw [hall, List.append_assoc]
    exact h.bound.append (hprepared.append hsent)

theorem Binding.attempt {hops : List Hop} {hop : Hop} {c c' : Conn} (h : Binding hops c)
    (hhop : hop ∈ hops) (hwithin : Within hop c c') (hattempt : Attempt hop.request c c') :
    Binding hops c' := by
  cases hattempt with
  | unsent htrace hmore hrequest _ hlink =>
      apply h.of_link htrace hrequest hlink
      apply allBound_of_prepares hhop hwithin.traceAfter
      · rw [← htrace]
        exact hwithin.traceBefore
      · rwa [← hwithin.tls]
  | sent hsends => exact h.sends hhop hwithin hsends

theorem Attempt.grows {request : RequestState} {c c' : Conn} (h : Attempt request c c') :
    c.trace.length ≤ c'.trace.length ∧ c.request ≤ c'.request := by
  cases h with
  | unsent htrace _ hrequest =>
      rw [htrace, List.length_append, hrequest]
      exact ⟨Nat.le_add_right _ _, Nat.le_refl _⟩
  | sent h =>
      obtain ⟨htrace, -, -, -, -, hrequest, -, -⟩ := h
      rw [htrace, List.length_append, hrequest]
      exact ⟨Nat.le_add_right _ _, Nat.le_succ _⟩

/-! ## Paths -/

theorem Binding.hop {hops : List Hop} {hop : Hop} (h : Binding hops hop.before.toConn)
    (hhop : hop ∈ hops) (htried : Tried hop) : Binding hops hop.after.toConn := by
  obtain ⟨lost, htries⟩ := htried
  cases htries with
  | once hattempt =>
      exact h.attempt hhop ⟨rfl, Nat.le_refl _, Nat.le_refl _, Nat.le_refl _, Nat.le_refl _⟩ hattempt
  | @twice c₁ _ _ hfirst _ hsecond =>
      obtain ⟨htrace, hrequest⟩ := hfirst.grows
      obtain ⟨htrace', hrequest'⟩ := hsecond.grows
      have hbetween : Binding hops c₁ :=
        h.attempt hhop ⟨rfl, Nat.le_refl _, htrace', Nat.le_refl _, hrequest'⟩ hfirst
      exact hbetween.attempt hhop
        ⟨hfirst.settings.tls, htrace, Nat.le_refl _, hrequest, Nat.le_refl _⟩ hsecond

/-- What is held and what happened stay bound to the hops on the path. -/
theorem Through.binding {c c' : Conn} {hops past : List Hop} (h : Through c hops c')
    (hc : Binding past c) : Binding (past ++ hops) c' := by
  induction h generalizing past with
  | nil => simpa using hc
  | beside h _ ih => exact ih (hc.beside h)
  | piece hup ht hpart hc₁ _ ih => exact ih (hc.piece hup ht hpart hc₁)
  | @hop hop hops c' htried _ ih =>
      have hwider : Binding (past ++ [hop]) hop.before.toConn :=
        hc.mono fun _ hmem => List.mem_append_left _ hmem
      have := ih (hwider.hop (by simp) htried)
      rwa [List.append_assoc] at this

theorem Tried.grows {hop : Hop} (h : Tried hop) : hop.before.request ≤ hop.after.request := by
  obtain ⟨lost, htries⟩ := h
  cases htries with
  | once h => exact h.grows.2
  | twice _ _ h _ h' => exact h.grows.2.trans h'.grows.2

/-- The requests of the hops on a path are numbered one hop after another. -/
theorem Through.numbered {c c' : Conn} {hops : List Hop} (h : Through c hops c') :
    (∀ hop ∈ hops, c.request ≤ hop.before.request) ∧
      hops.Pairwise fun hop hop' => hop.after.request ≤ hop'.before.request := by
  induction h with
  | nil => exact ⟨by simp, .nil⟩
  | beside h _ ih =>
      obtain ⟨hfirst, hpairs⟩ := ih
      exact ⟨fun hop hhop => h.request ▸ hfirst hop hhop, hpairs⟩
  | piece _ _ _ hc₁ _ ih =>
      obtain ⟨hfirst, hpairs⟩ := ih
      refine ⟨fun hop hhop => ?_, hpairs⟩
      obtain rfl | rfl := hc₁ <;> exact hfirst hop hhop
  | hop htried _ ih =>
      obtain ⟨hfirst, hpairs⟩ := ih
      refine ⟨fun hop hhop => ?_, List.pairwise_cons.mpr ⟨hfirst, hpairs⟩⟩
      obtain rfl | hhop := List.mem_cons.mp hhop
      · exact Nat.le_refl _
      · exact htried.grows.trans (hfirst hop hhop)

/-- In every run, each hop makes its own requests, every part of a request goes over a transport that
was made and connected for the URL of the request, and the `TlsConfig` that is held is given to the
factory for a TLS URL only. -/
theorem run_bound [Target] (env : Env) (calls : List World.Call) :
    ∃ hops, RunHops env {} calls hops ∧
      (hops.Pairwise fun hop hop' => hop.after.request ≤ hop'.before.request) ∧
      ∀ front a back, (World.run env calls).trace = front ++ a :: back → Bound hops front a := by
  obtain ⟨hops, hrun, hthrough⟩ := through_calls env calls {}
  have hinit : Binding [] ({} : World).toConn := by
    refine ⟨fun t url h => ?_, fun hup => ?_, fun front a back heq => ?_⟩
    · have := h.transport
      cases this
    · cases hup
    · simp at heq
  exact ⟨hops, hrun, hthrough.numbered.2, (hthrough.binding hinit).bound⟩

end EspModemLink.Http
