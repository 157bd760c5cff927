import EspModemLink.Http.BodylessResponses
import EspModemLink.Http.RunHops

/-!
# Reading a response as it arrives

Behind `Open` the receive thread appends what the parser decodes to a queue, and `Read` takes from its
front. Nothing else touches the queue until the next request.
-/

namespace EspModemLink.Http

open Bytes

/-- The body that was decoded is what was returned and what is still in the queue. -/
structure Streamed (returned : Bytes) (client : SoftwareHttpClient) : Prop where
  streaming : client.streaming = true
  decoded : client.parser.delivered = returned ++ client.pending

section

variable [Target] {returned : Bytes}

theorem Streamed.handle {c : Conn} (h : Streamed returned c.client) (e : Event) :
    Streamed returned (c.handle e).client := by
  refine ⟨(Conn.handle_streaming c e).trans h.streaming, ?_⟩
  cases ht : c.client.transport with
  | none =>
      rw [Conn.handle, ht]
      exact h.decoded
  | some t =>
      cases e with
      | data k bytes =>
          obtain ⟨d, hdelivered, hpending, -⟩ := (Conn.receives_data ht k bytes).body
          rw [hdelivered, hpending, if_pos h.streaming, h.decoded, List.append_assoc]
      | closed =>
          rw [Conn.handle, ht]
          change c.client.parser.finish.delivered = _
          rw [ParserCore.finish]
          split <;> exact h.decoded
      | error e =>
          rw [Conn.handle, ht]
          exact h.decoded

theorem Streamed.handleAll {c : Conn} (h : Streamed returned c.client) (es : List Event) :
    Streamed returned (c.handleAll es).client := by
  induction es generalizing c with
  | nil => exact h
  | cons e es ih => exact ih (h.handle e)

/-- A request of a streaming client begins with nothing decoded. -/
theorem streamed_started {c : Conn} (h : c.client.streaming = true) (t : ℕ) (es : List Event)
    (bytes : Bytes) (outcome : Result ℕ) (es' : List Event) :
    Streamed [] (c.started t es bytes outcome es').client := by
  have hbegun : Streamed [] (c.beginRequest t).client := by
    refine ⟨h, ?_⟩
    change [] = [] ++ (if c.client.streaming then [] else c.client.pending)
    rw [if_pos h]
    rfl
  exact @Streamed.handleAll _ _ (((c.beginRequest t).handleAll es).log _) (hbegun.handleAll es) es'

namespace World

variable {env : Env} {w w' : World}

theorem Streamed.yield (h : Streamed returned w.client) : Streamed returned (w.yield env).client :=
  h.handleAll _

/-! ## `Open` -/

theorem startRequest_streamed {request : RequestState} {chunked : Bool}
    (h : w.startRequest env request chunked = (.ok (), w')) (hw : w.client.streaming = true) :
    Streamed [] w'.client := by
  obtain ⟨c, t, bytes, k, n, -, hstreaming, hw', -⟩ := startRequest_sent env h
  rw [hw']
  exact streamed_started (hstreaming.trans hw) _ _ _ _ _

theorem awaitHeaders_eq (w : World) : (w.awaitHeaders env).2 = w.yield env := by
  unfold awaitHeaders
  dsimp only
  split
  · rfl
  · split
    · rfl
    · split <;> rfl

omit [Target] in
/-- Where `ApplyRedirect` follows nothing it changes nothing. -/
theorem applyRedirect_stays {response : HttpResponse} {hop : ℕ} {request : RequestState}
    (h : w.applyRedirect response hop request = (.ok none, w')) : w' = w := by
  unfold applyRedirect at h
  split at h
  · exact (Prod.mk.inj h).2.symm
  · split at h
    · exact (Prod.mk.inj h).2.symm
    · split at h
      · exact (Prod.mk.inj h).2.symm
      · split at h
        · cases h
        · split at h <;> cases h

omit [Target] in
theorem applyRedirect_streaming (response : HttpResponse) (hop : ℕ) (request : RequestState) :
    (w.applyRedirect response hop request).2.client.streaming = w.client.streaming := by
  unfold applyRedirect
  split
  · rfl
  · split
    · rfl
    · split
      · rfl
      · split
        · rfl
        · split
          · rfl
          · dsimp only
            split <;> rfl

/-- A pass of the loop of `Open` that got a response. -/
theorem openHop_streamed {hop : ℕ} {request : RequestState} {next : Option RequestState}
    (h : w.openHop env hop request = (.ok next, w')) (hw : w.client.streaming = true) :
    w'.client.streaming = true ∧ (next = none → Streamed [] w'.client) := by
  unfold openHop at h
  split at h
  · cases h
  · rename_i w₁ heq
    have hstart := startRequest_streamed heq hw
    have hwait := @awaitHeaders_eq _ env w₁
    split at h
    · cases h
    · rename_i head w₂ heq₂
      rw [heq₂] at hwait
      dsimp only at hwait
      have hwaited : Streamed [] (w₂.yield env).client := by
        rw [hwait]
        exact (hstart.handleAll _).handleAll _
      have hstreaming := applyRedirect_streaming (w := w₂.yield env) head hop request
      rw [h] at hstreaming
      refine ⟨hstreaming.trans hwaited.streaming, ?_⟩
      rintro rfl
      rw [applyRedirect_stays h]
      exact hwaited

theorem openLoop_streamed {n : ℕ} {request : RequestState} {hops : List Hop} {out : Result Unit × World}
    (h : Rounds.Loop (openRound env) n request w hops out) (hw : w.client.streaming = true)
    (hok : out.1 = .ok ()) : Streamed [] out.2.client := by
  have hpass : ∀ {n r} {w w' : World} {next : Option RequestState},
      openRound env n r w = (.ok ((), next), w') → w.openHop env n r = (.ok next, w') := by
    intro n r w w' next hround
    unfold openRound at hround
    split at hround
    · cases hround
    · rename_i heq
      obtain ⟨hok, rfl⟩ := Prod.mk.inj hround
      rw [heq, (Prod.mk.inj (Except.ok.inj hok)).2]
  induction h with
  | fails h => cases hok
  | answers h => exact (openHop_streamed (hpass h) hw).2 rfl
  | follows h _ ih => exact ih (openHop_streamed (hpass h) hw).1 hok

/-- A successful `Open` leaves what was decoded so far in the queue. -/
theorem open_streamed {method url : Bytes} (h : w.open env method url = (.ok (), w')) :
    Streamed [] w'.client := by
  cases hurl : parseUrl url with
  | error e =>
      unfold «open» at h
      rw [hurl] at h
      cases h
  | ok u =>
      cases hchunked : w.client.chunkedUpload with
      | false =>
          obtain ⟨hops, hloop, -⟩ := (openRound_hopping env).ends (w.configured method u) (openWorld w)
          rw [open_plain env hurl hchunked] at h
          rw [h] at hloop
          exact openLoop_streamed hloop rfl rfl
      | true =>
          unfold «open» at h
          rw [hurl] at h
          dsimp only at h
          rw [if_pos hchunked] at h
          split at h
          · cases h
          · rename_i w₁ heq
            obtain ⟨-, rfl⟩ := Prod.mk.inj h
            unfold beginChunkedUpload at heq
            split at heq
            · cases heq
            · split at heq
              · cases heq
              · split at heq
                · cases heq
                · rename_i w₂ hstart
                  obtain ⟨-, rfl⟩ := Prod.mk.inj heq
                  obtain ⟨hstreaming, hdecoded⟩ := startRequest_streamed hstart rfl
                  exact ⟨hstreaming, hdecoded⟩

/-! ## `Read` -/

/-- The bytes that a call of `Read` returned. -/
def returnedBy (result : Result Bytes) : Bytes := result.toOption.getD []

/-- What a call of `Read` comes to when these bytes have been returned, its own among them: they begin
the body that is decoded, whatever arrives next; nothing is returned at the end of the response only,
and it and an error come behind everything that was decoded. -/
structure ReadExact (returned : Bytes) (result : Result Bytes) (after : World) : Prop where
  begins : ∀ es, returned <+: (after.toConn.handleAll es).client.parser.delivered
  ended : result = .ok [] →
    after.client.parser.isComplete = true ∧ returned = after.client.parser.delivered
  failed : ∀ e, result = .error e → returned = after.client.parser.delivered

theorem read_exact (h : Streamed returned w.client) {size : ℕ} (hsize : 0 < size) :
    Streamed (returned ++ returnedBy (w.read env size).1) (w.read env size).2.client ∧
      ReadExact (returned ++ returnedBy (w.read env size).1) (w.read env size).1
        (w.read env size).2 := by
  have hwait : Streamed returned (w.yield env).client := h.handleAll _
  have hbegins : ∀ {returned : Bytes} {w : World}, Streamed returned w.client →
      ∀ es, returned <+: (w.toConn.handleAll es).client.parser.delivered := by
    intro returned w hw es
    rw [(hw.handleAll es).decoded]
    exact List.prefix_append _ _
  unfold read
  dsimp only
  split
  · rename_i hempty
    have hall : (w.yield env).client.parser.delivered = returned := by
      rw [hwait.decoded, hempty, List.append_nil]
    have hstays : ∀ {result : Result Bytes}, returnedBy result = [] →
        (result = .ok [] → (w.yield env).client.parser.isComplete = true) →
        Streamed (returned ++ returnedBy result) (w.yield env).client ∧
          ReadExact (returned ++ returnedBy result) result (w.yield env) := by
      intro result hnone hend
      rw [hnone, List.append_nil]
      exact ⟨hwait, hbegins hwait, fun hok => ⟨hend hok, hall.symm⟩, fun e _ => hall.symm⟩
    split
    · exact hstays rfl (fun hok => by cases hok)
    · split
      · rename_i hcomplete
        exact hstays rfl (fun _ => hcomplete)
      · split <;> exact hstays rfl (fun hok => by cases hok)
  · rename_i hne
    have htaken : Streamed (returned ++ (w.yield env).client.pending.take size)
        { (w.yield env).client with pending := (w.yield env).client.pending.drop size } := by
      refine ⟨hwait.streaming, ?_⟩
      rw [List.append_assoc, List.take_append_drop]
      exact hwait.decoded
    refine ⟨htaken, hbegins (w := { w.yield env with client := _ }) htaken, fun hok => ?_,
      fun e he => by cases he⟩
    have hnil := Except.ok.inj hok
    rw [List.take_eq_nil_iff] at hnil
    exact absurd hnil (not_or.mpr ⟨by omega, hne⟩)

variable (env) in
/-- The calls of `Read` one after another, each with the client as it leaves it. -/
def readAll : List ℕ → World → List (Result Bytes × World)
  | [], _ => []
  | size :: sizes, w => w.read env size :: readAll sizes ((w.read env size).2.yield env)

theorem readAll_exact (h : Streamed returned w.client) {sizes : List ℕ} (hsizes : ∀ s ∈ sizes, 0 < s)
    {i : ℕ} {result : Result Bytes} {after : World} (hi : (readAll env sizes w)[i]? = some (result, after)) :
    ReadExact (returned ++ ((readAll env sizes w).take (i + 1)).flatMap fun r => returnedBy r.1)
      result after := by
  induction sizes generalizing w returned i with
  | nil => cases hi
  | cons size sizes ih =>
      obtain ⟨hsize, hsizes⟩ := List.forall_mem_cons.mp hsizes
      obtain ⟨hread, hexact⟩ := @read_exact _ _ env _ h _ hsize
      cases i with
      | zero =>
          have hfirst : w.read env size = (result, after) := Option.some.inj hi
          rw [hfirst] at hexact
          simpa [readAll, hfirst] using hexact
      | succ i =>
          have hrest := ih (hread.handleAll _) hsizes hi
          rw [List.append_assoc] at hrest
          exact hrest

/-- Behind a successful `Open` every call of `Read` with a buffer is exact, whatever arrives before,
between and during the calls. -/
theorem reads_exact (env : Env) {w w' : World} {method url : Bytes}
    (hopen : w.open env method url = (.ok (), w')) {sizes : List ℕ} (hsizes : ∀ s ∈ sizes, 0 < s)
    {i : ℕ} {result : Result Bytes} {after : World}
    (hi : (readAll env sizes w')[i]? = some (result, after)) :
    ReadExact (((readAll env sizes w').take (i + 1)).flatMap fun r => returnedBy r.1) result after :=
  readAll_exact (open_streamed hopen) hsizes hi

end World

end

open World

/-- A server that answers a plain request with one byte of body. -/
def streamingEnv : Env := scripted [100] [(4, .data 1 answerA)]

theorem reads_exact_byte :
    letI := esp32
    ReadExact [65] (.ok [65])
      (read streamingEnv 4 (({} : World).open streamingEnv methodGet exampleUrl).2).2 := by
  let := esp32
  have hfirst : ∀ w' after, ({} : World).open streamingEnv methodGet exampleUrl = (.ok (), w') →
      read streamingEnv 4 w' = (.ok [65], after) → ReadExact [65] (.ok [65]) after := by
    intro w' after hopen hread
    have hexact := @reads_exact esp32 streamingEnv _ _ _ _ hopen [4] (by decide) 0 _ _
      (congrArg some hread)
    simpa [readAll, hread, returnedBy, Except.toOption] using hexact
  have hpair : ∀ {α β : Type} (p : α × β) (a : α), p.1 = a → p = (a, p.2) := by
    rintro α β ⟨_, _⟩ _ rfl
    rfl
  exact hfirst _ _ (hpair _ _ (by decide +kernel)) (hpair _ _ (by decide +kernel))

end EspModemLink.Http
