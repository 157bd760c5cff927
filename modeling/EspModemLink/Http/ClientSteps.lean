import EspModemLink.Http.Client
import Mathlib.Logic.Relation

/-!
# What the client can do in one step

Every call of the driver thread is a path of atomic steps. Whatever each of these steps keeps
holds along every run.
-/

namespace EspModemLink.Http

open Bytes AtParser Relation

/-- What an event leaves in the trace. -/
def Action.inbound : Action → Bool
  | .data .. => true
  | .closed .. => true
  | _ => false

namespace Conn

/-! ## What the receive thread leaves alone -/

@[simp] theorem log_client (c : Conn) (a : Action) : (c.log a).client = c.client := rfl
@[simp] theorem log_request (c : Conn) (a : Action) : (c.log a).request = c.request := rfl
@[simp] theorem log_transports (c : Conn) (a : Action) : (c.log a).transports = c.transports := rfl
@[simp] theorem log_trace (c : Conn) (a : Action) : (c.log a).trace = c.trace ++ [a] := rfl

/-- The members that only the driver thread writes. -/
structure SameDriver (c c' : Conn) : Prop where
  transport : c'.client.transport = c.client.transport
  headers : c'.client.headers = c.client.headers
  uploadActive : c'.client.uploadActive = c.client.uploadActive
  request : c'.request = c.request
  transports : c'.transports = c.transports

theorem SameDriver.rfl {c : Conn} : SameDriver c c := ⟨.refl _, .refl _, .refl _, .refl _, .refl _⟩

theorem SameDriver.trans {c c' c'' : Conn} (h : SameDriver c c') (h' : SameDriver c' c'') :
    SameDriver c c'' :=
  ⟨h'.transport.trans h.transport, h'.headers.trans h.headers,
    h'.uploadActive.trans h.uploadActive, h'.request.trans h.request,
    h'.transports.trans h.transports⟩

variable [Target]

theorem feedParser_driver (client : SoftwareHttpClient) (bytes : Bytes) :
    (feedParser client bytes).transport = client.transport ∧
      (feedParser client bytes).headers = client.headers ∧
      (feedParser client bytes).uploadActive = client.uploadActive := by
  unfold feedParser handleBody
  dsimp only
  split <;> split <;> simp

theorem handle_sameDriver (c : Conn) (e : Event) : SameDriver c (c.handle e) := by
  cases ht : c.client.transport with
  | none =>
      simp only [handle, ht]
      exact .rfl
  | some t =>
      cases e with
      | data answers bytes =>
          obtain ⟨h₁, h₂, h₃⟩ := feedParser_driver c.client bytes
          simp only [handle, ht, onTransportData]
          split
          · exact ⟨rfl, rfl, rfl, rfl, rfl⟩
          · exact ⟨h₁, h₂, h₃, rfl, rfl⟩
      | closed =>
          simp only [handle, ht]
          exact ⟨rfl, rfl, rfl, rfl, rfl⟩
      | error e =>
          simp only [handle, ht]
          exact ⟨rfl, rfl, rfl, rfl, rfl⟩

/-- Events leave nothing but inbound actions in the trace. -/
theorem handle_trace (c : Conn) (e : Event) :
    ∃ more, (c.handle e).trace = c.trace ++ more ∧ ∀ a ∈ more, a.inbound = true := by
  cases ht : c.client.transport with
  | none => exact ⟨[], by simp [handle, ht], by simp⟩
  | some t =>
      cases e with
      | data answers bytes =>
          refine ⟨[.data t c.request answers bytes (!c.client.parser.isComplete)], ?_,
            by simp [Action.inbound]⟩
          simp only [handle, ht, onTransportData]
          split <;> simp_all
      | closed => exact ⟨[.closed t], by simp [handle, ht, onTransportClosed], by simp [Action.inbound]⟩
      | error e => exact ⟨[], by simp [handle, ht, onTransportError], by simp⟩

theorem handleAll_cons (c : Conn) (e : Event) (es : List Event) :
    c.handleAll (e :: es) = (c.handle e).handleAll es := rfl

theorem handleAll_sameDriver (c : Conn) (es : List Event) : SameDriver c (c.handleAll es) := by
  induction es generalizing c with
  | nil => exact .rfl
  | cons e es ih => exact (handle_sameDriver c e).trans (ih (c.handle e))

theorem handleAll_trace (c : Conn) (es : List Event) :
    ∃ more, (c.handleAll es).trace = c.trace ++ more ∧ ∀ a ∈ more, a.inbound = true := by
  induction es generalizing c with
  | nil => exact ⟨[], by simp [handleAll], by simp⟩
  | cons e es ih =>
      obtain ⟨m₁, h₁, hin₁⟩ := handle_trace c e
      obtain ⟨m₂, h₂, hin₂⟩ := ih (c.handle e)
      refine ⟨m₁ ++ m₂, by rw [handleAll_cons, h₂, h₁, List.append_assoc], fun a ha => ?_⟩
      rcases List.mem_append.mp ha with ha | ha
      · exact hin₁ a ha
      · exact hin₂ a ha

/-! ## Atomic steps -/

/-- The members that the results about the client speak of. -/
structure SameCore (c c' : Conn) : Prop extends SameDriver c c' where
  parser : c'.client.parser = c.client.parser
  trace : c'.trace = c.trace

/-- What goes out behind a chunked head. -/
inductive BodyPiece : Part → Bytes → Prop
  | chunk (data : Bytes) (hne : data ≠ []) (hlen : data.length < 2 ^ 31) :
      BodyPiece .chunk (World.chunkFrame data)
  | terminator : BodyPiece .terminator World.kTerminator

/-- The head that `StartRequest` renders, from fields the caller set. -/
structure RenderedHead (c : Conn) (chunked : Bool) (bytes : Bytes) : Prop where
  rendered : ∃ url options, bytes = buildHttpRequest url options ∧
    options.chunkedUpload = chunked ∧ ∀ h ∈ options.headers, h ∈ c.client.headers

/-- `StartRequest` up to the return of its `Send`. -/
def started (c : Conn) (t : ℕ) (es : List Event) (bytes : Bytes) (outcome : Result ℕ)
    (es' : List Event) : Conn :=
  let c := (c.beginRequest t).handleAll es
  (c.log (.sent t c.request .head bytes outcome)).handleAll es'

/-- One atomic step of the client. A step that loses the connection drops it. -/
inductive Atomic : Conn → Conn → Prop
  | event (c : Conn) (e : Event) : Atomic c (c.handle e)
  | quiet {c c' : Conn} (h : SameCore c c') : Atomic c c'
  | drop (c : Conn) : Atomic c c.dropTransport
  | attach (c : Conn) (tls : Bool) (config : TlsConfig) (ht : c.client.transport = none)
      (hup : c.client.uploadActive = false) : Atomic c (c.attach tls config)
  | connected (c : Conn) (t : ℕ) (url : ParsedUrl) : Atomic c (c.markConnected t url)
  | plain {c : Conn} {t n : ℕ} {bytes : Bytes} (es es' : List Event)
      (ht : c.client.transport = some t) (hup : c.client.uploadActive = false)
      (hb : RenderedHead c false bytes) : Atomic c (c.started t es bytes (.ok n) es')
  | chunked {c : Conn} {t n : ℕ} {bytes : Bytes} (es es' : List Event)
      (ht : c.client.transport = some t) (hup : c.client.uploadActive = false)
      (hb : RenderedHead c true bytes) :
      Atomic c (c.started t es bytes (.ok n) es').armUpload
  | headLost {c : Conn} {t : ℕ} {bytes : Bytes} {e : NetworkError} {b : Bool}
      (es es' : List Event) (ht : c.client.transport = some t)
      (hup : c.client.uploadActive = false) (hb : RenderedHead c b bytes) :
      Atomic c (c.started t es bytes (.error e) es').dropTransport
  | chunk {c : Conn} {t : ℕ} {data : Bytes} (ht : c.client.transport = some t)
      (hup : c.client.uploadActive = true) (hne : data ≠ []) (hlen : data.length < 2 ^ 31) :
      Atomic c (c.log (.sent t c.request .chunk (World.chunkFrame data)
        (.ok (World.chunkFrame data).length)))
  | terminator {c : Conn} {t : ℕ} (ht : c.client.transport = some t)
      (hup : c.client.uploadActive = true) :
      Atomic c (c.endUpload.log (.sent t c.request .terminator World.kTerminator
        (.ok World.kTerminator.length)))
  | pieceLost {c : Conn} {t : ℕ} {part : Part} {bytes : Bytes} {outcome : Result ℕ} (active : Bool)
      (es : List Event) (ht : c.client.transport = some t)
      (hup : c.client.uploadActive = true) (hb : BodyPiece part bytes)
      (hlost : outcome ≠ .ok bytes.length) :
      Atomic c (((if active then c else c.endUpload).log
        (.sent t c.request part bytes outcome)).handleAll es).dropTransport
  | answered {c : Conn} (hup : c.client.uploadActive = true) : Atomic c c.answerEarly
  | lost {c : Conn} (ht : c.client.transport = none) : Atomic c c.endUpload

/-- What `StartRequest` leaves in the trace. -/
theorem started_trace (c : Conn) (t : ℕ) (es : List Event) (bytes : Bytes) (outcome : Result ℕ)
    (es' : List Event) :
    ∃ m m', (c.started t es bytes outcome es').trace = c.trace ++
        (.began t (c.request + 1) c.client.parser.isComplete :: m ++
          .sent t (c.request + 1) .head bytes outcome :: m') ∧
      (∀ a ∈ m, a.inbound = true) ∧ ∀ a ∈ m', a.inbound = true := by
  obtain ⟨m, hm, hin⟩ := handleAll_trace (c.beginRequest t) es
  obtain ⟨m', hm', hin'⟩ := handleAll_trace (((c.beginRequest t).handleAll es).log
    (.sent t ((c.beginRequest t).handleAll es).request .head bytes outcome)) es'
  have hrequest : ((c.beginRequest t).handleAll es).request = c.request + 1 :=
    (handleAll_sameDriver (c.beginRequest t) es).request
  refine ⟨m, m', ?_, hin, hin'⟩
  rw [started, hm', log_trace, hm, hrequest, beginRequest, log_trace]
  simp

/-- What `StartRequest` leaves in the members of the driver thread. -/
theorem started_driver (c : Conn) (t : ℕ) (es : List Event) (bytes : Bytes) (outcome : Result ℕ)
    (es' : List Event) :
    (c.beginRequest t).SameDriver (c.started t es bytes outcome es') := by
  have hlog : ∀ (c : Conn) (a : Action), c.SameDriver (c.log a) :=
    fun c a => ⟨rfl, rfl, rfl, rfl, rfl⟩
  exact (handleAll_sameDriver (c.beginRequest t) es).trans
    ((hlog _ _).trans (handleAll_sameDriver _ es'))

omit [Target] in
/-- What dropping the transport leaves in the trace. -/
theorem dropTransport_trace (c : Conn) :
    ∃ m, c.dropTransport.trace = c.trace ++ m ∧ ∀ a ∈ m, ∃ t, a = .disconnected t := by
  unfold dropTransport
  split
  · exact ⟨[], by simp, by simp⟩
  · rename_i t _
    exact ⟨[.disconnected t], rfl, fun a ha => ⟨t, List.mem_singleton.mp ha⟩⟩

omit [Target] in
theorem dropTransport_transports (c : Conn) : c.dropTransport.transports = c.transports := by
  unfold dropTransport
  split <;> rfl

/-- The trace only grows. -/
theorem Atomic.trace {c c' : Conn} (h : Atomic c c') : ∃ more, c'.trace = c.trace ++ more := by
  have hstart : ∀ (c : Conn) t es bytes outcome es',
      ∃ more, (c.started t es bytes outcome es').trace = c.trace ++ more :=
    fun c t es bytes outcome es' => by
      obtain ⟨m, m', htrace, -, -⟩ := c.started_trace t es bytes outcome es'
      exact ⟨_, htrace⟩
  have hdrop : ∀ (c c' : Conn), (∃ more, c'.trace = c.trace ++ more) →
      ∃ more, c'.dropTransport.trace = c.trace ++ more := fun c c' ⟨m, hm⟩ => by
    obtain ⟨m', hm', -⟩ := c'.dropTransport_trace
    exact ⟨m ++ m', by rw [hm', hm, List.append_assoc]⟩
  cases h with
  | event e => exact (c.handle_trace e).imp fun _ h => h.1
  | quiet h => exact ⟨[], by rw [h.trace, List.append_nil]⟩
  | drop => exact hdrop c c ⟨[], by simp⟩
  | attach => exact ⟨_, rfl⟩
  | connected => exact ⟨_, rfl⟩
  | plain es es' => exact hstart _ _ _ _ _ _
  | chunked es es' => exact hstart c _ _ _ _ _
  | headLost es es' => exact hdrop c _ (hstart _ _ _ _ _ _)
  | chunk => exact ⟨_, rfl⟩
  | terminator => exact ⟨_, rfl⟩
  | pieceLost active es =>
      refine hdrop c _ ?_
      obtain ⟨m, hm, -⟩ := handleAll_trace _ es
      rw [hm]
      cases active <;> exact ⟨_, List.append_assoc ..⟩
  | answered =>
      unfold answerEarly
      split
      · exact ⟨[], (List.append_nil _).symm⟩
      · exact ⟨_, rfl⟩
  | lost => exact ⟨[], (List.append_nil _).symm⟩

/-- A path of atomic steps. -/
abbrev Path : Conn → Conn → Prop := ReflTransGen Atomic

theorem path_of_sameCore {c c' : Conn} (h : SameCore c c') : Path c c' := .single (.quiet h)

theorem path_handleAll (c : Conn) (es : List Event) : Path c (c.handleAll es) := by
  induction es generalizing c with
  | nil => exact .refl
  | cons e es ih => exact .head (.event c e) (ih (c.handle e))

omit [Target] in
theorem dropTransport_headers (c : Conn) : c.dropTransport.client.headers = c.client.headers := rfl

omit [Target] in
theorem answerEarly_headers (c : Conn) : c.answerEarly.client.headers = c.client.headers := by
  unfold answerEarly
  split <;> rfl

/-- No step of the client changes the caller's fields. -/
theorem Atomic.headers {c c' : Conn} (h : Atomic c c') : c'.client.headers = c.client.headers := by
  have hstart : ∀ (c : Conn) t es bytes outcome es',
      (c.started t es bytes outcome es').client.headers = c.client.headers :=
    fun c t es bytes outcome es' =>
      (handleAll_sameDriver _ es').headers.trans (handleAll_sameDriver (c.beginRequest t) es).headers
  cases h with
  | event e => exact (handle_sameDriver _ e).headers
  | quiet h => exact h.headers
  | drop => exact dropTransport_headers _
  | attach => rfl
  | connected => rfl
  | plain es es' => exact hstart _ _ _ _ _ _
  | chunked es es' => exact hstart _ _ _ _ _ _
  | headLost es es' => exact (dropTransport_headers _).trans (hstart _ _ _ _ _ _)
  | chunk => rfl
  | terminator => rfl
  | pieceLost active es =>
      refine (dropTransport_headers _).trans ((handleAll_sameDriver _ es).headers.trans ?_)
      cases active <;> rfl
  | answered => exact answerEarly_headers _
  | lost => rfl

theorem Path.headers {c c' : Conn} (h : Path c c') : c'.client.headers = c.client.headers := by
  induction h with
  | refl => rfl
  | tail _ hstep ih => exact (Atomic.headers hstep).trans ih

end Conn

namespace World

variable [Target] (env : Env)

theorem yield_path (w : World) : w.toConn.Path (w.yield env).toConn := Conn.path_handleAll _ _

theorem yield_driver (w : World) : w.toConn.SameDriver (w.yield env).toConn :=
  Conn.handleAll_sameDriver _ _

theorem ensureConnected_path (url : ParsedUrl) (w : World) :
    w.toConn.Path (w.ensureConnected env url).2.toConn ∧
      (w.client.uploadActive = false →
        (w.ensureConnected env url).2.client.uploadActive = false) ∧
      ∀ t, (w.ensureConnected env url).1 = .ok t →
        (w.ensureConnected env url).2.client.transport = some t := by
  unfold ensureConnected
  dsimp only
  split
  · rename_i t ht
    refine ⟨.refl, id, fun t' h => ?_⟩
    split at ht
    · rw [ht]
      exact congrArg some (Except.ok.inj h)
    · exact absurd ht (by simp)
  · have hdrop : w.toConn.Path w.dropTransport.toConn := .single (.drop _)
    split
    · exact ⟨hdrop, fun _ => rfl, fun t h => absurd h (by simp)⟩
    · -- The new transport brings events while it connects.
      generalize hw : ({ w.dropTransport with
        toConn := w.dropTransport.toConn.attach url.tls
          (if url.tls then w.dropTransport.client.tls else {})
        creates := w.dropTransport.creates + 1 } : World) = w'
      have hattach : w.toConn.Path w'.toConn :=
        hdrop.tail (hw ▸ .attach _ _ _ rfl rfl)
      have htransport : w'.client.transport = some w.dropTransport.transports := by rw [← hw]; rfl
      have hup : w'.client.uploadActive = false := by rw [← hw]; rfl
      have hyield := yield_driver env w'
      have hpath := hattach.trans (yield_path env w')
      split
      · exact ⟨hpath.tail (.drop _), fun _ => rfl, fun t h => absurd h (by simp)⟩
      · refine ⟨hpath.tail (.connected _ _ _), fun _ => hyield.uploadActive.trans hup,
          fun t h => ?_⟩
        exact (hyield.transport.trans htransport).trans (congrArg some (Except.ok.inj h))

theorem send_spec {t : ℕ} {part : Part} {bytes : Bytes} {w w' : World} {outcome : Result ℕ}
    (h : w.send env t part bytes = (outcome, w')) :
    ∃ es, w'.toConn = (w.toConn.log (.sent t w.request part bytes outcome)).handleAll es := by
  obtain ⟨rfl, rfl⟩ := Prod.mk.inj h
  exact ⟨_, rfl⟩

/-- `StartRequest` fails, or ends right behind the `Send` of a head. -/
theorem startRequest_cases (request : RequestState) (chunked : Bool) (w : World)
    (hfields : ∀ h ∈ request.headers, h ∈ w.client.headers) :
    (∃ e, (w.startRequest env request chunked).1 = .error e ∧
      w.toConn.Path (w.startRequest env request chunked).2.toConn) ∨
    ((w.startRequest env request chunked).1 = .ok () ∧
      ∃ c t es bytes n es', w.toConn.Path c ∧ c.client.transport = some t ∧
        c.client.uploadActive = false ∧ c.RenderedHead chunked bytes ∧
        (w.startRequest env request chunked).2.toConn = c.started t es bytes (.ok n) es') := by
  unfold startRequest
  split
  · exact .inl ⟨_, rfl, .refl⟩
  · rename_i hactive
    obtain ⟨hpath, hup, htransport⟩ := ensureConnected_path env request.url w
    split
    · rename_i e w' heq
      rw [heq] at hpath
      exact .inl ⟨e, rfl, hpath⟩
    · rename_i t w' heq
      rw [heq] at hpath hup htransport
      dsimp only
      have hyield := yield_driver env w'
      have hpath' := hpath.trans (yield_path env w')
      have hbytes : (w'.yield env).toConn.RenderedHead chunked (buildHttpRequest request.url
          ((({ w'.yield env with toConn := (w'.yield env).toConn.beginRequest t } : World).yield
            env).requestOptions request chunked)) :=
        ⟨_, _, rfl, rfl, fun h hh => Conn.Path.headers hpath' ▸ hfields h hh⟩
      have ht := hyield.transport.trans (htransport t rfl)
      have hup' := hyield.uploadActive.trans (hup (by simpa using hactive))
      split
      · rename_i e w'' hsend
        obtain ⟨es', hes'⟩ := send_spec env hsend
        refine .inl ⟨e, rfl, hpath'.tail ?_⟩
        change Conn.Atomic _ w''.toConn.dropTransport
        rw [hes']
        exact .headLost (env.events (w'.yield env).yields) es' ht hup' hbytes
      · rename_i n w'' hsend
        obtain ⟨es', hes'⟩ := send_spec env hsend
        exact .inr ⟨rfl, _, t, env.events (w'.yield env).yields, _, n, es', hpath', ht, hup',
          hbytes, hes'⟩

/-- A request with a measured body is a path. -/
theorem startRequest_path (request : RequestState) (w : World)
    (hfields : ∀ h ∈ request.headers, h ∈ w.client.headers) :
    w.toConn.Path (w.startRequest env request false).2.toConn := by
  rcases startRequest_cases env request false w hfields with
    ⟨e, -, hpath⟩ | ⟨-, c, t, es, bytes, n, es', hpath, ht, hup, hb, heq⟩
  · exact hpath
  · rw [heq]
    exact hpath.tail (.plain es es' ht hup hb)

theorem applyRedirect_path (response : HttpResponse) (hop : ℕ) (request : RequestState)
    (w : World) :
    w.toConn.Path (w.applyRedirect response hop request).2.toConn ∧
      ∀ next, (w.applyRedirect response hop request).1 = .ok (some next) →
        ∀ h ∈ next.headers, h ∈ request.headers := by
  unfold applyRedirect
  split
  · exact ⟨.refl, fun next h => absurd h (by simp)⟩
  · split
    · exact ⟨.refl, fun next h => absurd h (by simp)⟩
    · split
      · exact ⟨.refl, fun next h => absurd h (by simp)⟩
      · split
        · exact ⟨.refl, fun next h => absurd h (by simp)⟩
        · split
          · exact ⟨.refl, fun next h => absurd h (by simp)⟩
          · dsimp only
            refine ⟨?_, fun next h => ?_⟩
            · split
              · exact .single (.drop _)
              · exact .refl
            · obtain rfl := Option.some.inj (Except.ok.inj h)
              intro f hf
              dsimp only at hf
              split at hf
              · exact hf
              · exact List.mem_of_mem_filter hf

theorem executeOnce_path (request : RequestState) (w : World)
    (hfields : ∀ h ∈ request.headers, h ∈ w.client.headers) :
    w.toConn.Path (w.executeOnce env request).2.toConn := by
  have hquiet : w.toConn.Path
      { w.toConn with client := { w.client with streaming := false } } :=
    Conn.path_of_sameCore ⟨⟨rfl, rfl, rfl, rfl, rfl⟩, rfl, rfl⟩
  have hstart := hquiet.trans (startRequest_path env request
    { w with client := { w.client with streaming := false } } hfields)
  unfold executeOnce
  dsimp only
  split
  · rename_i e w' heq
    rw [heq] at hstart
    exact hstart
  · rename_i w' heq
    rw [heq] at hstart
    have hwait := hstart.trans (yield_path env w')
    have hlost : w.toConn.Path ((w'.yield env).yield env).dropTransport.toConn :=
      (hwait.trans (yield_path env _)).tail (.drop _)
    split
    · exact hlost
    · split
      · exact hlost
      · have hmoved : w.toConn.Path
            { (w'.yield env).toConn with
              client := { (w'.yield env).client with response := {} } } :=
          hwait.trans (Conn.path_of_sameCore ⟨⟨rfl, rfl, rfl, rfl, rfl⟩, rfl, rfl⟩)
        dsimp only
        split
        · exact hmoved
        · exact (hmoved.trans (yield_path env
            { w'.yield env with client := { (w'.yield env).client with response := {} } })).tail
              (.drop _)

theorem executeAttempt_path (request : RequestState) (w : World)
    (hfields : ∀ h ∈ request.headers, h ∈ w.client.headers) :
    w.toConn.Path (w.executeAttempt env request).2.toConn := by
  have hfirst := executeOnce_path env request w hfields
  unfold executeAttempt
  split
  · rename_i response w' heq
    rw [heq] at hfirst
    exact hfirst
  · rename_i e w' heq
    rw [heq] at hfirst
    split
    · exact hfirst.trans (executeOnce_path env request w' fun h hh =>
        Conn.Path.headers hfirst ▸ hfields h hh)
    · exact hfirst

theorem executeHop_path (hop : ℕ) (request : RequestState) (w : World)
    (hfields : ∀ h ∈ request.headers, h ∈ w.client.headers) :
    w.toConn.Path (w.executeHop env hop request).2.toConn ∧
      ∀ response next, (w.executeHop env hop request).1 = .ok (response, some next) →
        ∀ h ∈ next.headers, h ∈ request.headers := by
  have hattempt := executeAttempt_path env request w hfields
  unfold executeHop
  split
  · rename_i e w' heq
    rw [heq] at hattempt
    exact ⟨hattempt, fun _ _ h => absurd h (by simp)⟩
  · rename_i response w' heq
    rw [heq] at hattempt
    obtain ⟨hredirect, hnext⟩ := applyRedirect_path response hop request w'
    have hpath := hattempt.trans hredirect
    split
    · rename_i hr
      rw [hr] at hpath
      exact ⟨hpath, fun _ _ h => absurd h (by simp)⟩
    · rename_i next w'' hr
      rw [hr] at hpath hnext
      refine ⟨hpath, fun response' next' h => ?_⟩
      obtain ⟨-, rfl⟩ := Prod.mk.inj (Except.ok.inj h)
      exact hnext next' rfl

theorem executeHops_path (left hop : ℕ) (request : RequestState) (w : World)
    (hfields : ∀ h ∈ request.headers, h ∈ w.client.headers) :
    w.toConn.Path (executeHops env left hop request w).2.toConn := by
  induction left generalizing hop request w with
  | zero =>
      obtain ⟨hpath, -⟩ := executeHop_path env hop request w hfields
      unfold executeHops
      split <;> simp_all
  | succ left ih =>
      obtain ⟨hpath, hnext⟩ := executeHop_path env hop request w hfields
      unfold executeHops
      split
      · simp_all
      · rename_i response next w' left' hhop hleft
        obtain rfl := Nat.succ.inj hleft
        rw [hhop] at hpath hnext
        exact hpath.trans (ih (hop + 1) next w' fun h hh =>
          Conn.Path.headers hpath ▸ hfields h (hnext response next rfl h hh))
      · simp_all

theorem execute_path (method url : Bytes) (w : World) :
    w.toConn.Path (w.execute env method url).2.toConn := by
  unfold execute
  split
  · exact .refl
  · exact executeHops_path env _ _ _ w fun h hh => hh

theorem awaitHeaders_path (w : World) : w.toConn.Path (w.awaitHeaders env).2.toConn := by
  have hwait := yield_path env w
  unfold awaitHeaders
  dsimp only
  split
  · exact hwait
  · split
    · exact hwait
    · split <;> exact hwait

theorem beginChunkedUpload_path (request : RequestState) (w : World)
    (hfields : ∀ h ∈ request.headers, h ∈ w.client.headers) :
    w.toConn.Path (w.beginChunkedUpload env request).2.toConn := by
  unfold beginChunkedUpload
  split
  · exact .refl
  · split
    · exact .refl
    · have hstart := startRequest_cases env request true w hfields
      split
      · rename_i e w' heq
        rw [heq] at hstart
        rcases hstart with ⟨e', -, hpath⟩ | ⟨hok, -⟩
        · exact hpath
        · exact absurd hok (by simp)
      · rename_i w' heq
        rw [heq] at hstart
        rcases hstart with ⟨e', herr, -⟩ | ⟨-, c, t, es, bytes, n, es', hpath, ht, hup, hb, hc⟩
        · exact absurd herr (by simp)
        · refine hpath.tail ?_
          change Conn.Atomic c w'.toConn.armUpload
          rw [show w'.toConn = _ from hc]
          exact .chunked es es' ht hup hb

theorem openHop_path (hop : ℕ) (request : RequestState) (w : World)
    (hfields : ∀ h ∈ request.headers, h ∈ w.client.headers) :
    w.toConn.Path (w.openHop env hop request).2.toConn ∧
      ∀ next, (w.openHop env hop request).1 = .ok (some next) →
        ∀ h ∈ next.headers, h ∈ request.headers := by
  have hstart := startRequest_path env request w hfields
  unfold openHop
  split
  · rename_i e w' heq
    rw [heq] at hstart
    exact ⟨hstart, fun _ h => absurd h (by simp)⟩
  · rename_i w' heq
    rw [heq] at hstart
    have hwait := hstart.trans (awaitHeaders_path env w')
    split
    · rename_i e w'' hw
      rw [hw] at hwait
      exact ⟨hwait, fun _ h => absurd h (by simp)⟩
    · rename_i head w'' hw
      rw [hw] at hwait
      obtain ⟨hredirect, hnext⟩ := applyRedirect_path head hop request (w''.yield env)
      exact ⟨(hwait.trans (yield_path env w'')).trans hredirect, hnext⟩

theorem openHops_path (left hop : ℕ) (request : RequestState) (w : World)
    (hfields : ∀ h ∈ request.headers, h ∈ w.client.headers) :
    w.toConn.Path (openHops env left hop request w).2.toConn := by
  induction left generalizing hop request w with
  | zero =>
      obtain ⟨hpath, -⟩ := openHop_path env hop request w hfields
      unfold openHops
      split <;> simp_all
  | succ left ih =>
      obtain ⟨hpath, hnext⟩ := openHop_path env hop request w hfields
      unfold openHops
      split
      · simp_all
      · rename_i next w' left' hhop hleft
        obtain rfl := Nat.succ.inj hleft
        rw [hhop] at hpath hnext
        exact hpath.trans (ih (hop + 1) next w' fun h hh =>
          Conn.Path.headers hpath ▸ hfields h (hnext next rfl h hh))
      · simp_all

theorem open_path (method url : Bytes) (w : World) :
    w.toConn.Path (w.open env method url).2.toConn := by
  unfold «open»
  split
  · exact .refl
  · rename_i url' _
    dsimp only
    have hquiet : w.toConn.Path
        { w.toConn with client := { w.client with streaming := true } } :=
      Conn.path_of_sameCore ⟨⟨rfl, rfl, rfl, rfl, rfl⟩, rfl, rfl⟩
    split
    · have hbegin := hquiet.trans (beginChunkedUpload_path env (w.configured method url')
        { w with client := { w.client with streaming := true } } fun h hh => hh)
      split
      · rename_i heq
        rw [heq] at hbegin
        exact hbegin.trans (Conn.path_of_sameCore ⟨⟨rfl, rfl, rfl, rfl, rfl⟩, rfl, rfl⟩)
      · rename_i heq
        rw [heq] at hbegin
        exact hbegin
    · exact hquiet.trans (openHops_path env _ _ _
        { w with client := { w.client with streaming := true } } fun h hh => hh)

theorem read_path (size : ℕ) (w : World) : w.toConn.Path (w.read env size).2.toConn := by
  have hwait := yield_path env w
  unfold read
  dsimp only
  split
  · split
    · exact hwait
    · split
      · exact hwait
      · split <;> exact hwait
  · exact hwait.trans (Conn.path_of_sameCore ⟨⟨rfl, rfl, rfl, rfl, rfl⟩, rfl, rfl⟩)

theorem write_path (buffer : Buffer) (w : World) : w.toConn.Path (w.write env buffer).2.toConn := by
  unfold write
  split
  · split <;> exact .refl
  · split
    · exact .refl
    · rename_i hactive
      have hup : w.client.uploadActive = true := by simpa using hactive
      split
      · exact .refl
      · split
        · exact .single (.answered hup)
        · split
          · exact .refl
          · rename_i hsize
            split
            · exact .refl
            · rename_i data
              have hne : data ≠ [] := fun h => hsize (by simp [Buffer.size, h])
              split
              · exact .refl
              · rename_i hlen
                have hlen' : data.length < 2 ^ 31 := by omega
                split
                · exact .refl
                · rename_i t ht
                  split
                  · rename_i e w' hsend
                    obtain ⟨es, hes⟩ := send_spec env hsend
                    refine .single ?_
                    change Conn.Atomic _ w'.toConn.dropTransport
                    rw [hes]
                    exact .pieceLost true es ht hup (.chunk data hne hlen') (by simp)
                  · rename_i sent w' hsend
                    obtain ⟨es, hes⟩ := send_spec env hsend
                    split
                    · rename_i hshort
                      refine .single ?_
                      change Conn.Atomic _ w'.toConn.dropTransport
                      rw [hes]
                      exact .pieceLost true es ht hup (.chunk data hne hlen') (by simpa using hshort)
                    · rename_i hfull
                      obtain rfl : sent = (chunkFrame data).length := by simpa using hfull
                      rw [hes]
                      exact .head (.chunk ht hup hne hlen') (Conn.path_handleAll _ es)

theorem awaitAnswer_path (w : World) : w.toConn.Path (w.awaitAnswer env).2.toConn := by
  have hwait := awaitHeaders_path env w
  unfold awaitAnswer
  split
  · rename_i e w' heq
    rw [heq] at hwait
    exact (hwait.trans (yield_path env w')).tail (.drop _)
  · rename_i head w' heq
    rw [heq] at hwait
    split
    · exact (hwait.trans (yield_path env w')).tail (.drop _)
    · exact hwait

theorem endBody_path (w : World) : w.toConn.Path (w.endBody env).2.toConn := by
  unfold endBody
  split
  · split <;> exact .refl
  · split
    · exact .refl
    · rename_i hactive
      have hup : w.client.uploadActive = true := by simpa using hactive
      dsimp only
      split
      · rename_i ht
        exact .single (.lost ht)
      · rename_i t ht
        split
        · rename_i e w' hsend
          obtain ⟨es, hes⟩ := send_spec env hsend
          refine .single ?_
          change Conn.Atomic _ w'.toConn.dropTransport
          rw [hes]
          exact .pieceLost false es ht hup .terminator (by simp)
        · rename_i sent w' hsend
          obtain ⟨es, hes⟩ := send_spec env hsend
          split
          · rename_i hshort
            refine .single ?_
            change Conn.Atomic _ w'.toConn.dropTransport
            rw [hes]
            exact .pieceLost false es ht hup .terminator (by simpa using hshort)
          · rename_i hfull
            obtain rfl : sent = kTerminator.length := by simpa using hfull
            refine ReflTransGen.trans (.head (.terminator ht hup) ?_) (awaitAnswer_path env w')
            rw [hes]
            exact Conn.path_handleAll _ es

theorem close_path (w : World) : w.toConn.Path w.close.toConn :=
  ReflTransGen.head (.drop _) (Conn.path_of_sameCore ⟨⟨rfl, rfl, rfl, rfl, rfl⟩, rfl, rfl⟩)

/-! ## Runs -/

/-- A call is a path, behind what it configures. -/
theorem perform_path (w : World) (call : Call) :
    Conn.Path { w.toConn with client := configure call w.client } (w.perform env call).toConn := by
  unfold perform
  refine ReflTransGen.trans ?_ (yield_path env _)
  cases call with
  | «open» method url => exact open_path env method url w
  | execute method url => exact execute_path env method url w
  | read size => exact read_path env size w
  | write buffer => exact write_path env buffer w
  | endBody => exact endBody_path env w
  | close => exact close_path w
  | _ => exact .refl

/-- What holds of a new client, is kept by every atomic step and by configuring holds at the
end of every run. -/
theorem run_invariant (I : Conn → Prop) (ok : Call → Prop) (hnew : I {})
    (hstep : ∀ {c c'}, Conn.Atomic c c' → I c → I c')
    (hconfigure : ∀ (c : Conn) call, ok call → I c →
      I { c with client := configure call c.client })
    (calls : List Call) (hok : ∀ call ∈ calls, ok call) : I (run env calls).toConn := by
  have hpath : ∀ {c c'}, Conn.Path c c' → I c → I c' := fun h hc => by
    induction h with
    | refl => exact hc
    | tail _ hs ih => exact hstep hs ih
  have hfold : ∀ (w : World), I w.toConn → I (calls.foldl (perform env) w).toConn := by
    induction calls with
    | nil => exact fun w hw => hw
    | cons call calls ih =>
        intro w hw
        refine ih (fun c hc => hok c (List.mem_cons_of_mem _ hc)) _ ?_
        exact hpath (perform_path env w call)
          (hconfigure _ call (hok call (List.mem_cons_self ..)) hw)
  exact hfold {} hnew

end World

end EspModemLink.Http
