import EspModemLink.Http.BodyFraming
import EspModemLink.Http.Credentials

/-!
# Methods and bodies along redirects

Every redirect looks at the method as the ones before have left it. Over a whole chain it comes to the
original request, or to a GET without a body.
-/

namespace EspModemLink.Http

open Bytes ParserCore

/-! ## Chains of statuses -/

/-- What `ApplyRedirect` leaves of a method and a body. -/
def rewritten (status : Int) (p : Bytes × Bytes) : Bytes × Bytes :=
  if status = 303 ∨ ((status = 301 ∨ status = 302) ∧ p.1 ≠ methodGet ∧ p.1 ≠ methodHead) then
    (methodGet, [])
  else p

/-- A status that leaves the request of this method as it is. -/
def KeepsMethod (method : Bytes) (status : Int) : Prop :=
  status = 307 ∨ status = 308 ∨
    (status = 301 ∨ status = 302) ∧ (method = methodGet ∨ method = methodHead)

instance (method : Bytes) (status : Int) : Decidable (KeepsMethod method status) :=
  inferInstanceAs (Decidable (_ ∨ _))

/-- The method and the body behind a chain of redirects. -/
def chained (method body : Bytes) (statuses : List Int) : Bytes × Bytes :=
  if ∀ s ∈ statuses, KeepsMethod method s then (method, body) else (methodGet, [])

theorem rewritten_eq {status : Int} (h : isRedirectStatus status = true) (method body : Bytes) :
    rewritten status (method, body) =
      if KeepsMethod method status then (method, body) else (methodGet, []) := by
  have hstatus : status = 301 ∨ status = 302 ∨ status = 303 ∨ status = 307 ∨ status = 308 := by
    simpa [isRedirectStatus] using h
  rw [rewritten]
  by_cases hkeeps : KeepsMethod method status
  · rw [if_pos hkeeps, if_neg]
    unfold KeepsMethod at hkeeps
    grind
  · rw [if_neg hkeeps, if_pos]
    unfold KeepsMethod at hkeeps
    grind

/-- One more redirect. -/
theorem rewritten_chained {status : Int} (h : isRedirectStatus status = true) (method body : Bytes)
    (statuses : List Int) :
    rewritten status (chained method body statuses) = chained method body (statuses ++ [status]) := by
  have hall : (∀ s ∈ statuses ++ [status], KeepsMethod method s) ↔
      (∀ s ∈ statuses, KeepsMethod method s) ∧ KeepsMethod method status := by
    rw [List.forall_mem_append, List.forall_mem_singleton]
  rw [chained, chained]
  by_cases hkept : ∀ s ∈ statuses, KeepsMethod method s
  · rw [if_pos hkept, rewritten_eq h]
    exact if_congr (by rw [hall]; exact (and_iff_right hkept).symm) rfl rfl
  · rw [if_neg hkept, if_neg fun hmore => hkept (hall.mp hmore).1, rewritten_eq h]
    split <;> rfl

/-- `ApplyRedirect` rewrites the request by the status that it follows. -/
theorem applyRedirect_rewritten [Target] {response : HttpResponse} {hop : ℕ} {request next : RequestState}
    {w : World} (h : (w.applyRedirect response hop request).1 = .ok (some next)) :
    isRedirectStatus response.statusCode = true ∧
      (next.method, next.body) = rewritten response.statusCode (request.method, request.body) := by
  unfold World.applyRedirect at h
  split at h
  · cases h
  · rename_i hstatus
    split at h
    · cases h
    · split at h
      · cases h
      · split at h
        · cases h
        · split at h
          · cases h
          · obtain rfl := Option.some.inj (Except.ok.inj h)
            refine ⟨by simpa using hstatus, ?_⟩
            rw [rewritten]
            dsimp only
            split <;> rfl

/-! ## The heads of a hop -/

/-- Every head that is sent in between is one of these. -/
def HeadsIn (good : Bytes → Prop) (c c' : Conn) : Prop :=
  ∃ more, c'.trace = c.trace ++ more ∧
    ∀ t n bytes outcome, .sent t n .head bytes outcome ∈ more → good bytes

section

variable {good : Bytes → Prop} {c c' c'' : Conn}

theorem HeadsIn.trans (h : HeadsIn good c c') (h' : HeadsIn good c' c'') : HeadsIn good c c'' := by
  obtain ⟨more, htrace, hmore⟩ := h
  obtain ⟨more', htrace', hmore'⟩ := h'
  refine ⟨more ++ more', by rw [htrace', htrace, List.append_assoc], fun t n bytes outcome hsent => ?_⟩
  obtain hsent | hsent := List.mem_append.mp hsent
  · exact hmore t n bytes outcome hsent
  · exact hmore' t n bytes outcome hsent

theorem Rests.headsIn (h : Rests c c') : HeadsIn good c c' := by
  obtain ⟨more, htrace, hmore⟩ := h.trace
  refine ⟨more, htrace, fun t n bytes outcome hsent => ?_⟩
  have hquiet := hmore _ hsent
  cases hquiet

theorem Connects.headsIn {url : ParsedUrl} {result : Result ℕ} (h : Connects url c c' result) :
    HeadsIn good c c' := by
  cases h with
  | reuses _ hsame => exact ⟨[], by rw [hsame, List.append_nil], by simp⟩
  | fails htrace hmore | opens htrace hmore =>
      exact ⟨_, htrace, fun t n bytes outcome hsent => (hmore _ hsent).elim⟩

end

/-- The bytes that `StartRequest` renders for a request with a measured body. -/
def MeasuredFor (request : RequestState) (bytes : Bytes) : Prop :=
  ∃ options : HttpRequestOptions, options.method = request.method ∧ options.body = request.body ∧
    options.chunkedUpload = false ∧ bytes = buildHttpRequest request.url options

section

variable [Target] (env : Env)

theorem startRequest_headsIn (request : RequestState) (w : World) :
    HeadsIn (MeasuredFor request) w.toConn (w.startRequest env request false).2.toConn := by
  unfold World.startRequest
  split
  · exact Rests.rfl.headsIn
  · have hconnects := (ensureConnected_connects env request.url w).1
    split
    · rename_i heq
      rw [heq] at hconnects
      exact hconnects.headsIn
    · rename_i t w₁ heq
      rw [heq] at hconnects
      have hyield := (rests_yield env w₁).1
      dsimp only
      generalize hw₂ : ({ w₁.yield env with
        toConn := (w₁.yield env).toConn.beginRequest t } : World) = w₂
      have hbegun : HeadsIn (MeasuredFor request) (w₁.yield env).toConn w₂.toConn := by
        rw [← hw₂]
        exact ⟨[.began t ((w₁.yield env).request + 1) (w₁.yield env).client.parser.isComplete], rfl,
          by simp⟩
      have hstart := ((hconnects.headsIn.trans hyield.headsIn).trans hbegun).trans
        (rests_yield env w₂).1.headsIn
      have hsends : ∀ {outcome w₃}, (w₂.yield env).send env t .head (buildHttpRequest request.url
          ((w₂.yield env).requestOptions request false)) = (outcome, w₃) →
          HeadsIn (MeasuredFor request) w.toConn w₃.toConn := by
        intro outcome w₃ hsend
        obtain ⟨es, hes⟩ := World.send_spec env hsend
        rw [hes]
        refine (hstart.trans ⟨[_], rfl, ?_⟩).trans (rests_handleAll _ es).1.headsIn
        intro t n bytes outcome hsent
        obtain ⟨-, -, -, rfl, -⟩ := Action.sent.inj (List.mem_singleton.mp hsent)
        exact ⟨(w₂.yield env).requestOptions request false, rfl, rfl, rfl, rfl⟩
      split
      · rename_i e w₃ hsend
        exact (hsends hsend).trans (rests_drop w₃).1.headsIn
      · rename_i n w₃ hsend
        exact hsends hsend

theorem executeOnce_headsIn (request : RequestState) (w : World) :
    HeadsIn (MeasuredFor request) w.toConn (w.executeOnce env request).2.toConn := by
  have hstart : HeadsIn (MeasuredFor request) w.toConn _ :=
    startRequest_headsIn env request { w with client := { w.client with streaming := false } }
  unfold World.executeOnce
  dsimp only
  split
  · rename_i heq
    rw [heq] at hstart
    exact hstart
  · rename_i w₁ heq
    rw [heq] at hstart
    have hwait := hstart.trans (rests_yield env w₁).1.headsIn
    have hlost := hwait.trans (rests_yield_drop env (w₁.yield env)).1.headsIn
    split
    · exact hlost
    · split
      · exact hlost
      · dsimp only
        have hmoved : HeadsIn (MeasuredFor request) w.toConn { (w₁.yield env).toConn with
            client := { (w₁.yield env).client with response := {} } } := hwait
        split
        · exact hmoved
        · exact hmoved.trans (rests_yield_drop env
            { w₁.yield env with client := { (w₁.yield env).client with response := {} } }).1.headsIn

theorem executeHop_headsIn (hop : ℕ) (request : RequestState) (w : World) :
    HeadsIn (MeasuredFor request) w.toConn (w.executeHop env hop request).2.toConn := by
  have hattempt : HeadsIn (MeasuredFor request) w.toConn (w.executeAttempt env request).2.toConn := by
    have hfirst := executeOnce_headsIn env request w
    unfold World.executeAttempt
    split
    · rename_i heq
      rw [heq] at hfirst
      exact hfirst
    · rename_i e w₁ heq
      rw [heq] at hfirst
      split
      · exact hfirst.trans (executeOnce_headsIn env request w₁)
      · exact hfirst
  unfold World.executeHop
  split
  · rename_i heq
    rw [heq] at hattempt
    exact hattempt
  · rename_i response w₁ heq
    rw [heq] at hattempt
    have hredirect : HeadsIn (MeasuredFor request) w₁.toConn _ :=
      (applyRedirect_spec response hop request w₁).1.headsIn
    split <;> rename_i heq₂ <;> rw [heq₂] at hredirect <;> exact hattempt.trans hredirect

theorem openHop_headsIn (hop : ℕ) (request : RequestState) (w : World) :
    HeadsIn (MeasuredFor request) w.toConn (w.openHop env hop request).2.toConn := by
  have hstart := startRequest_headsIn env request w
  unfold World.openHop
  split
  · rename_i heq
    rw [heq] at hstart
    exact hstart
  · rename_i w₁ heq
    rw [heq] at hstart
    have hwait := hstart.trans (rests_awaitHeaders env w₁).headsIn
    split
    · rename_i heq₂
      rw [heq₂] at hwait
      exact hwait
    · rename_i head w₂ heq₂
      rw [heq₂] at hwait
      exact (hwait.trans (rests_yield env w₂).1.headsIn).trans
        (applyRedirect_spec head hop request (w₂.yield env)).1.headsIn

/-! ## The statuses that a call follows -/

/-- The response that a hop of a call gets, as `ApplyRedirect` sees it. -/
def answerTo (call : World.Call) (request : RequestState) (w : World) : Option HttpResponse :=
  match call with
  | .execute .. => (w.executeAttempt env request).1.toOption
  | .open .. =>
      match w.startRequest env request false with
      | (.error _, _) => none
      | (.ok (), w) => (w.awaitHeaders env).1.toOption
  | _ => none

def statusOf (call : World.Call) (hop : Hop) : Option Int :=
  (answerTo env call hop.request hop.before).map (·.statusCode)

/-- A hop leads to a request: it got a redirect, and the request is rewritten by its status. -/
def LeadsTo (call : World.Call) (hop : Hop) (next : RequestState) : Prop :=
  ∃ status, statusOf env call hop = some status ∧ isRedirectStatus status = true ∧
    (next.method, next.body) = rewritten status (hop.request.method, hop.request.body)

variable {env : Env} {call : World.Call} {hops : List Hop} {method body : Bytes}

theorem leadsTo_executeHop {m url : Bytes} {hop : ℕ} {request next : RequestState} {w w' : World}
    {response : HttpResponse} (h : w.executeHop env hop request = (.ok (response, some next), w')) :
    LeadsTo env (.execute m url) ⟨request, w, w'⟩ next := by
  unfold World.executeHop at h
  split at h
  · cases h
  · rename_i answer w₁ heq
    split at h
    · cases h
    · rename_i followed w₂ heq₂
      obtain ⟨hok, -⟩ := Prod.mk.inj h
      obtain ⟨-, rfl⟩ := Prod.mk.inj (Except.ok.inj hok)
      obtain ⟨hstatus, hnext⟩ := applyRedirect_rewritten (congrArg Prod.fst heq₂)
      refine ⟨answer.statusCode, ?_, hstatus, hnext⟩
      rw [statusOf, answerTo, heq]
      rfl

theorem leadsTo_openHop {m url : Bytes} {hop : ℕ} {request next : RequestState} {w w' : World}
    (h : w.openHop env hop request = (.ok (some next), w')) :
    LeadsTo env (.open m url) ⟨request, w, w'⟩ next := by
  unfold World.openHop at h
  split at h
  · cases h
  · rename_i w₁ heq
    split at h
    · cases h
    · rename_i head w₂ heq₂
      obtain ⟨hstatus, hnext⟩ := applyRedirect_rewritten (congrArg Prod.fst h)
      refine ⟨head.statusCode, ?_, hstatus, hnext⟩
      rw [statusOf, answerTo, heq]
      dsimp only
      rw [heq₂]
      rfl

/-- Along hops that lead from one to the next the request is what the chain of statuses makes of the
first one. -/
theorem chained_of_chain (hchain : hops.IsChain fun v v' => LeadsTo env call v v'.request)
    (hfirst : ∀ hop ∈ hops.head?, (hop.request.method, hop.request.body) = (method, body)) (k : ℕ)
    {hop : Hop} (hk : hops[k]? = some hop) : ∃ statuses : List Int,
      (hops.take k).map (statusOf env call) = statuses.map some ∧
        (∀ s ∈ statuses, isRedirectStatus s = true) ∧
        (hop.request.method, hop.request.body) = chained method body statuses := by
  induction k generalizing hop with
  | zero =>
      refine ⟨[], by simp, by simp, ?_⟩
      rw [hfirst hop (by rw [List.head?_eq_getElem?, hk]; rfl), chained, if_pos (by simp)]
  | succ k ih =>
      obtain ⟨hlt, rfl⟩ := List.getElem?_eq_some_iff.mp hk
      have hprevious : hops[k]? = some hops[k] := List.getElem?_eq_getElem (by omega)
      obtain ⟨statuses, hstatuses, hredirects, hrequest⟩ := ih hprevious
      obtain ⟨status, hstatus, hredirect, hnext⟩ := List.isChain_iff_getElem.mp hchain k hlt
      refine ⟨statuses ++ [status], ?_, ?_, ?_⟩
      · rw [List.take_add_one, hprevious, List.map_append, hstatuses, List.map_append, Option.toList_some,
          List.map_singleton, hstatus, List.map_singleton]
      · simp only [List.forall_mem_append, List.forall_mem_singleton]
        exact ⟨hredirects, hredirect⟩
      · rw [hnext, hrequest, rewritten_chained hredirect]

/-- A call whose body is measured: `Execute`, and `Open` without a chunked upload. -/
def Measured (w : World) : World.Call → Bytes → Prop
  | .execute method _, m => m = method
  | .open method _, m => m = method ∧ w.client.chunkedUpload = false
  | _, _ => False

/-- The hops of a call whose body is measured lead from one to the next, each with heads that are
rendered from its request. -/
theorem HopsOf.measured {w : World} (h : HopsOf env w call hops) (hcall : Measured w call method) :
    hops.IsChain (fun v v' => LeadsTo env call v v'.request) ∧
      (∀ hop ∈ hops.head?, (hop.request.method, hop.request.body) = (method, w.client.requestBody)) ∧
      ∀ hop ∈ hops, HeadsIn (MeasuredFor hop.request) hop.before.toConn hop.after.toConn := by
  cases h with
  | other | refused => simp
  | execute _ h =>
      refine ⟨h.chain fun n r s a r' s' hround => leadsTo_executeHop hround,
        fun hop hhop => by rw [h.head_request hop hhop, hcall]; rfl, fun hop hhop => ?_⟩
      obtain ⟨n, result, hround⟩ := h.visit hhop
      have hheads := executeHop_headsIn env n hop.request hop.before
      rwa [show hop.before.executeHop env n hop.request = (result, hop.after) from hround] at hheads
  | opens _ _ h =>
      refine ⟨h.chain fun n r s a r' s' hround => ?_,
        fun hop hhop => by rw [h.head_request hop hhop, hcall.1]; rfl, fun hop hhop => ?_⟩
      · unfold openRound at hround
        split at hround
        · cases hround
        · rename_i next w₁ heq
          obtain ⟨hok, rfl⟩ := Prod.mk.inj hround
          obtain ⟨-, rfl⟩ := Prod.mk.inj (Except.ok.inj hok)
          exact leadsTo_openHop heq
      · obtain ⟨n, result, hround⟩ := h.visit hhop
        have hheads := openHop_headsIn env n hop.request hop.before
        unfold openRound at hround
        split at hround <;> rename_i heq <;> rw [heq] at hheads <;>
          exact (Prod.mk.inj hround).2 ▸ hheads
  | uploads _ hchunked =>
      have hplain := hcall.2
      rw [hchunked] at hplain
      cases hplain

/-- A request message with this method and this body, whose length it says once. -/
structure Carries (m : RequestMessage) (method body : Bytes) : Prop where
  method_eq : m.method = method
  body_eq : m.body = body
  oneLength : (fieldNames m.fields).count contentLengthName = 1
  length : ∀ f ∈ m.fields, toLower f.1 = contentLengthName → f.2 = decimal body.length

omit [Target] in
theorem MeasuredFor.carries {request : RequestState} {bytes : Bytes} (h : MeasuredFor request bytes) :
    ∃ options, bytes = (requestMessage request.url options).bytes ∧
      Carries (requestMessage request.url options) request.method request.body := by
  obtain ⟨options, hmethod, hbody, hplain, rfl⟩ := h
  obtain ⟨hone, hlength⟩ := @contentLength_of_measured request.url options hplain
  exact ⟨options, rfl, hmethod, (body_of_measured hplain).trans hbody, hone, hbody ▸ hlength⟩

end

/-- A network that takes everything and brings nothing. -/
def idleEnv : Env := ⟨fun _ => .ok (), fun _ => .ok (), fun _ => .ok 0, fun _ => []⟩

end EspModemLink.Http
