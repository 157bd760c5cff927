import EspModemLink.Http.Hops

/-!
# The hops of a run

Every call of the application is a path of hops, of pieces of a chunked body, and of steps that
neither make a transport nor send anything.
-/

namespace EspModemLink.Http

open Bytes

/-! ## Hops of calls -/

/-- The URL that a call makes a request to. -/
def requestUrl : World.Call → Option Bytes
  | .open _ url | .execute _ url => some url
  | _ => none

/-- The client as `Open` leaves it to its request. -/
def openWorld (w : World) : World := { w with client := { w.client with streaming := true } }

section

variable [Target] (env : Env)

/-- The hops of a call. `Open` makes one hop where it begins a chunked upload. -/
inductive HopsOf (w : World) : World.Call → List Hop → Prop
  | other {call : World.Call} (h : requestUrl call = none) : HopsOf w call []
  | refused {call : World.Call} {url : Bytes} {e : NetworkError} (hcall : requestUrl call = some url)
      (hurl : parseUrl url = .error e) : HopsOf w call []
  | execute {method url : Bytes} {u : ParsedUrl} {hops : List Hop} {out : Result HttpResponse × World}
      (hurl : parseUrl url = .ok u)
      (h : Rounds.Loop (executeRound env) 0 (w.configured method u) w hops out) :
      HopsOf w (.execute method url) hops
  | opens {method url : Bytes} {u : ParsedUrl} {hops : List Hop} {out : Result Unit × World}
      (hurl : parseUrl url = .ok u) (hplain : w.client.chunkedUpload = false)
      (h : Rounds.Loop (openRound env) 0 (w.configured method u) (openWorld w) hops out) :
      HopsOf w (.open method url) hops
  | uploads {method url : Bytes} {u : ParsedUrl} (hurl : parseUrl url = .ok u)
      (hchunked : w.client.chunkedUpload = true) :
      HopsOf w (.open method url)
        [⟨w.configured method u, openWorld w,
          ((openWorld w).beginChunkedUpload env (w.configured method u)).2⟩]

/-- The hops of the calls one after another. -/
inductive RunHops : World → List World.Call → List Hop → Prop
  | nil (w : World) : RunHops w [] []
  | cons {w : World} {call : World.Call} {calls : List World.Call} {hops hops' : List Hop}
      (h : HopsOf env w call hops) (hrest : RunHops (w.perform env call) calls hops') :
      RunHops w (call :: calls) (hops ++ hops')

end

/-! ## Paths -/

/-- Nothing is sent and no transport is made, whatever the application has set. -/
structure Beside (c c' : Conn) : Prop where
  trace : ∃ more, c'.trace = c.trace ++ more ∧ ∀ a ∈ more, a.isOutbound = false
  request : c'.request = c.request
  link : SameLink c.client c'.client ∨ Down c'.client

theorem Rests.beside {c c' : Conn} (h : Rests c c') : Beside c c' := ⟨h.trace, h.request, h.link⟩

theorem Beside.of_eq {c c' : Conn} (htrace : c'.trace = c.trace) (hrequest : c'.request = c.request)
    (hlink : SameLink c.client c'.client) : Beside c c' :=
  ⟨⟨[], by rw [htrace, List.append_nil], by simp⟩, hrequest, .inl hlink⟩

theorem Beside.trans {c c' c'' : Conn} (h : Beside c c') (h' : Beside c' c'') : Beside c c'' := by
  obtain ⟨more, htrace, hmore⟩ := h.trace
  obtain ⟨more', htrace', hmore'⟩ := h'.trace
  refine ⟨⟨more ++ more', by rw [htrace', htrace, List.append_assoc], ?_⟩,
    h'.request.trans h.request, ?_⟩
  · intro a ha
    obtain ha | ha := List.mem_append.mp ha
    · exact hmore a ha
    · exact hmore' a ha
  · obtain hlink' | hdown := h'.link
    · exact h.link.imp (·.trans hlink') (·.of_same hlink')
    · exact .inr hdown

/-- A hop tries its request. -/
def Tried (hop : Hop) : Prop :=
  ∃ lost, Tries lost hop.request hop.before.toConn hop.after.toConn

/-- A path with the hops on it. -/
inductive Through : Conn → List Hop → Conn → Prop
  | nil (c : Conn) : Through c [] c
  | beside {c c₁ c' : Conn} {hops : List Hop} (h : Beside c c₁) (hrest : Through c₁ hops c') :
      Through c hops c'
  | piece {c c₁ c' : Conn} {hops : List Hop} {t : ℕ} {part : Part} {bytes : Bytes}
      {outcome : Result ℕ} (hup : c.client.uploadActive = true) (ht : c.client.transport = some t)
      (hpart : part ≠ .head) (hc₁ : c₁ = c ∨ c₁ = c.endUpload)
      (hrest : Through (c₁.log (.sent t c.request part bytes outcome)) hops c') : Through c hops c'
  | hop {hop : Hop} {hops : List Hop} {c' : Conn} (h : Tried hop)
      (hrest : Through hop.after.toConn hops c') : Through hop.before.toConn (hop :: hops) c'

theorem Through.trans {c c₁ c' : Conn} {hops hops' : List Hop} (h : Through c hops c₁)
    (h' : Through c₁ hops' c') : Through c (hops ++ hops') c' := by
  induction h with
  | nil => exact h'
  | beside h _ ih => exact .beside h (ih h')
  | piece hup ht hpart hc₁ _ ih => exact .piece hup ht hpart hc₁ (ih h')
  | hop h _ ih => exact .hop h (ih h')

theorem through_beside {c c' : Conn} (h : Beside c c') : Through c [] c' := .beside h (.nil c')

theorem through_hop {hop : Hop} {c' : Conn} (h : Tried hop)
    (hrest : Through hop.after.toConn [] c') : Through hop.before.toConn [hop] c' := .hop h hrest

theorem Through.then_beside {c c₁ c' : Conn} {hops : List Hop} (h : Through c hops c₁)
    (h' : Beside c₁ c') : Through c hops c' := by
  have := h.trans (through_beside h')
  rwa [List.append_nil] at this

theorem through_loop {α : Type} {lost : RequestState → World → Conn → Prop}
    {round : Rounds.Round RequestState World α NetworkError} (h : Hopping lost round) {n : ℕ}
    {request : RequestState} {w : World} {hops : List Hop} {out : Result α × World}
    (hloop : Rounds.Loop round n request w hops out) : Through w.toConn hops out.2.toConn := by
  induction hloop with
  | @fails n r s s' e hround =>
      have htried : Tried ⟨r, s, s'⟩ := ⟨_, h.tries _ _ _ _ _ hround⟩
      exact through_hop htried (.nil _)
  | @answers n r s s' a hround =>
      have htried : Tried ⟨r, s, s'⟩ := ⟨_, h.tries _ _ _ _ _ hround⟩
      exact through_hop htried (.nil _)
  | @follows n r r' s s' a visits out hround _ ih =>
      have htried : Tried ⟨r, s, s'⟩ := ⟨_, h.tries _ _ _ _ _ hround⟩
      exact .hop htried ih

/-! ## Calls -/

section

variable [Target] (env : Env)

/-- The yield behind a call. -/
theorem Through.yield {c : Conn} {hops : List Hop} {w : World} (h : Through c hops w.toConn) :
    Through c hops (w.yield env).toConn :=
  h.then_beside (rests_yield env w).1.beside

omit [Target] in
theorem Sends.arm {request : RequestState} {c c' : Conn} (h : Sends request c c') :
    Sends request c c'.armUpload := by
  obtain ⟨htrace, hfront, hback, hbytes, hover, hrequest, hsettings, hlink⟩ := h
  refine .intro htrace hfront hback hbytes hover hrequest
    (hsettings.trans ⟨rfl, rfl, rfl, rfl⟩) ?_
  obtain hlinked | hdown := hlink
  · exact .inl ⟨hlinked.transport, hlinked.connected, hlinked.host, hlinked.port, hlinked.tls⟩
  · exact .inr ⟨hdown.transport, hdown.connected⟩

theorem beginChunkedUpload_attempt (request : RequestState) (w : World) :
    Attempt request w.toConn (w.beginChunkedUpload env request).2.toConn := by
  obtain ⟨hattempt, -, hsends⟩ := startRequest_attempt env request true w
  unfold World.beginChunkedUpload
  split
  · exact .of_rests .rfl
  · split
    · exact .of_rests .rfl
    · split
      · rename_i heq
        rw [heq] at hattempt
        exact hattempt
      · rename_i heq
        rw [heq] at hsends
        exact .sent (hsends rfl).arm

theorem beside_open_upload {method url : Bytes} {u : ParsedUrl} {w : World}
    (hurl : parseUrl url = .ok u) (hchunked : w.client.chunkedUpload = true) :
    Beside ((openWorld w).beginChunkedUpload env (w.configured method u)).2.toConn
      (w.open env method url).2.toConn := by
  unfold World.open openWorld
  rw [hurl]
  dsimp only
  rw [if_pos hchunked]
  generalize World.beginChunkedUpload env (w.configured method u)
    { w with client := { w.client with streaming := true } } = x
  rcases x with ⟨_ | _, w₁⟩
  · exact .of_eq rfl rfl ⟨rfl, rfl, rfl, rfl, rfl, id⟩
  · exact Rests.rfl.beside

theorem open_plain {method url : Bytes} {u : ParsedUrl} {w : World} (hurl : parseUrl url = .ok u)
    (hplain : w.client.chunkedUpload = false) :
    w.open env method url = Rounds.bounded (openRound env) (openWorld w).client.maxRedirects 0
      (w.configured method u) (openWorld w) := by
  rw [← openHops_eq]
  unfold World.open
  rw [hurl]
  exact if_neg (by simp [hplain])

theorem through_open (method url : Bytes) (w : World) :
    ∃ hops, HopsOf env w (.open method url) hops ∧
      Through w.toConn hops (w.open env method url).2.toConn := by
  cases hurl : parseUrl url with
  | error e =>
      refine ⟨[], .refused rfl hurl, ?_⟩
      simp only [World.open, hurl]
      exact .nil _
  | ok u =>
      have hopen : Beside w.toConn (openWorld w).toConn :=
        .of_eq rfl rfl ⟨rfl, rfl, rfl, rfl, rfl, id⟩
      cases hchunked : w.client.chunkedUpload with
      | true =>
          refine ⟨_, .uploads hurl hchunked, .beside hopen ?_⟩
          have htried : Tried ⟨w.configured method u, openWorld w,
              ((openWorld w).beginChunkedUpload env (w.configured method u)).2⟩ :=
            ⟨fun _ => False, .once (beginChunkedUpload_attempt env _ _)⟩
          exact through_hop htried (through_beside (beside_open_upload env hurl hchunked))
      | false =>
          have hhopping := openRound_hopping env
          obtain ⟨hops, hloop, -⟩ := hhopping.ends (w.configured method u) (openWorld w)
          refine ⟨hops, .opens hurl hchunked hloop, .beside hopen ?_⟩
          rw [open_plain env hurl hchunked]
          exact through_loop hhopping hloop

theorem through_execute (method url : Bytes) (w : World) :
    ∃ hops, HopsOf env w (.execute method url) hops ∧
      Through w.toConn hops (w.execute env method url).2.toConn := by
  cases hurl : parseUrl url with
  | error e =>
      refine ⟨[], .refused rfl hurl, ?_⟩
      simp only [World.execute, hurl]
      exact .nil _
  | ok u =>
      have hhopping := executeRound_hopping env
      obtain ⟨hops, hloop, -⟩ := hhopping.ends (w.configured method u) w
      refine ⟨hops, .execute hurl hloop, ?_⟩
      simp only [World.execute, hurl, executeHops_eq]
      exact through_loop hhopping hloop

/-- A piece of the body is sent, and the transport may be dropped behind it. -/
theorem through_send {t : ℕ} {part : Part} {bytes : Bytes} {outcome : Result ℕ} {c : Conn}
    {w w' : World} {c' : Conn} (hup : c.client.uploadActive = true)
    (ht : c.client.transport = some t) (hpart : part ≠ .head)
    (hw : w.toConn = c ∨ w.toConn = c.endUpload) (h : w.send env t part bytes = (outcome, w'))
    (hafter : Beside w'.toConn c') : Through c [] c' := by
  obtain ⟨es, hes⟩ := World.send_spec env h
  have hrequest : w.request = c.request := by
    obtain hw | hw := hw
    · rw [hw]
    · rw [hw]
      rfl
  have hevents := (rests_handleAll (w.toConn.log (.sent t w.request part bytes outcome)) es).1
  rw [← hes, hrequest] at hevents
  exact .piece hup ht hpart hw (through_beside (hevents.beside.trans hafter))

theorem through_read (size : ℕ) (w : World) : Through w.toConn [] (w.read env size).2.toConn := by
  have hwait := (rests_yield env w).1.beside
  apply through_beside
  unfold World.read
  dsimp only
  split
  · split
    · exact hwait
    · split
      · exact hwait
      · split <;> exact hwait
  · exact hwait.trans (.of_eq rfl rfl ⟨rfl, rfl, rfl, rfl, rfl, id⟩)

omit [Target] in
theorem beside_answerEarly (c : Conn) : Beside c c.answerEarly := by
  unfold Conn.answerEarly
  split
  · exact .of_eq rfl rfl ⟨rfl, rfl, rfl, rfl, rfl, fun h => by cases h⟩
  · refine ⟨⟨_, rfl, ?_⟩, rfl, .inl ⟨rfl, rfl, rfl, rfl, rfl, fun h => by cases h⟩⟩
    intro a ha
    rw [List.mem_singleton.mp ha]
    rfl

theorem through_write (buffer : World.Buffer) (w : World) :
    Through w.toConn [] (w.write env buffer).2.toConn := by
  unfold World.write
  split
  · split <;> exact .nil _
  · split
    · exact .nil _
    · rename_i hactive
      have hup : w.client.uploadActive = true := by simpa using hactive
      split
      · exact .nil _
      · split
        · exact through_beside (beside_answerEarly w.toConn)
        · split
          · exact .nil _
          · split
            · exact .nil _
            · split
              · exact .nil _
              · split
                · exact .nil _
                · rename_i t ht
                  split
                  · rename_i e w' hsend
                    exact through_send env hup ht (by simp) (.inl rfl) hsend (rests_drop w').1.beside
                  · rename_i sent w' hsend
                    split
                    · exact through_send env hup ht (by simp) (.inl rfl) hsend
                        (rests_drop w').1.beside
                    · exact through_send env hup ht (by simp) (.inl rfl) hsend Rests.rfl.beside

theorem beside_awaitAnswer (w : World) : Beside w.toConn (w.awaitAnswer env).2.toConn := by
  have hwait := rests_awaitHeaders env w
  unfold World.awaitAnswer
  split
  · rename_i e w₁ heq
    rw [heq] at hwait
    exact (hwait.trans (rests_yield_drop env w₁).1).beside
  · rename_i head w₁ heq
    rw [heq] at hwait
    split
    · exact (hwait.trans (rests_yield_drop env w₁).1).beside
    · exact hwait.beside

theorem through_endBody (w : World) : Through w.toConn [] (w.endBody env).2.toConn := by
  unfold World.endBody
  split
  · split <;> exact .nil _
  · split
    · exact .nil _
    · rename_i hactive
      have hup : w.client.uploadActive = true := by simpa using hactive
      dsimp only
      split
      · exact through_beside (.of_eq rfl rfl ⟨rfl, rfl, rfl, rfl, rfl, fun _ => hup⟩)
      · rename_i t ht
        split
        · rename_i e w₁ hsend
          exact through_send env hup ht (by simp) (.inr rfl) hsend (rests_drop w₁).1.beside
        · rename_i sent w₁ hsend
          split
          · exact through_send env hup ht (by simp) (.inr rfl) hsend (rests_drop w₁).1.beside
          · exact through_send env hup ht (by simp) (.inr rfl) hsend (beside_awaitAnswer env w₁)

/-- A call is a path through its hops. -/
theorem through_perform (w : World) (call : World.Call) :
    ∃ hops, HopsOf env w call hops ∧ Through w.toConn hops (w.perform env call).toConn := by
  cases call with
  | «open» method url =>
      obtain ⟨hops, hhops, hthrough⟩ := through_open env method url w
      exact ⟨hops, hhops, hthrough.yield env⟩
  | execute method url =>
      obtain ⟨hops, hhops, hthrough⟩ := through_execute env method url w
      exact ⟨hops, hhops, hthrough.yield env⟩
  | read size => exact ⟨[], .other rfl, (through_read env size w).yield env⟩
  | write buffer => exact ⟨[], .other rfl, (through_write env buffer w).yield env⟩
  | endBody => exact ⟨[], .other rfl, (through_endBody env w).yield env⟩
  | close =>
      have hquiet : Beside w.dropTransport.toConn w.close.toConn :=
        .of_eq rfl rfl ⟨rfl, rfl, rfl, rfl, rfl, id⟩
      have hthrough := through_beside ((rests_drop w).1.beside.trans hquiet)
      exact ⟨[], .other rfl, hthrough.yield env⟩
  | _ =>
      refine ⟨[], .other rfl, Through.yield env (through_beside ?_)⟩
      exact .of_eq rfl rfl ⟨rfl, rfl, rfl, rfl, rfl, id⟩

/-- A run is a path through the hops of its calls. -/
theorem through_calls (calls : List World.Call) (w : World) :
    ∃ hops, RunHops env w calls hops ∧
      Through w.toConn hops (calls.foldl (World.perform env) w).toConn := by
  induction calls generalizing w with
  | nil => exact ⟨[], .nil w, .nil _⟩
  | cons call calls ih =>
      obtain ⟨hops, hcall, hthrough⟩ := through_perform env w call
      obtain ⟨hops', hrest, hthrough'⟩ := ih (w.perform env call)
      exact ⟨hops ++ hops', .cons hcall hrest, hthrough.trans hthrough'⟩

end

end EspModemLink.Http
