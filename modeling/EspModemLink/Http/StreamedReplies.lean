import EspModemLink.Http.Replies
import EspModemLink.Http.StreamingReads

/-!
# Reading the response that the server sent

Behind `Open` a reply may come at any time, also while `Read` is called. What `Read` returns is the body
that was sent, piece by piece, and its end is the end of that body.
-/

namespace EspModemLink.Http

open Bytes

/-! ## What has arrived -/

/-- The events of the points from one up to another. -/
def eventsFrom (env : Env) (first next : ℕ) : List Event :=
  (List.range' first (next - first)).flatMap env.events

theorem eventsFrom_succ (env : Env) {first next : ℕ} (h : first ≤ next) :
    eventsFrom env first (next + 1) = eventsFrom env first next ++ env.events next := by
  unfold eventsFrom
  rw [Nat.succ_sub h, List.range'_concat, List.flatMap_append, Nat.one_mul, Nat.add_sub_cancel' h,
    List.flatMap_singleton]

variable [Target]

/-- Two clients that read the same response. `Read` takes from the queue and changes neither. -/
structure SameReading (client client' : SoftwareHttpClient) : Prop where
  transport : client'.transport = client.transport
  parser : client'.parser = client.parser
  parseFailed : client'.parseFailed = client.parseFailed

theorem SameReading.receives {client client' after after' : SoftwareHttpClient}
    {pieces : List Bytes} (h : SameReading client client')
    (hafter : Conn.Receives client pieces after) (hafter' : Conn.Receives client' pieces after') :
    SameReading after after' := by
  have hquiet := hafter'.quiet
  have hfailed := hafter'.failed
  have hparser := hafter'.parser
  rw [h.parser] at hquiet hfailed hparser
  refine ⟨?_, hparser.trans hafter.parser.symm, ?_⟩
  · rw [hafter'.transport, h.transport, hafter.transport]
  · cases hlast : (reported (client.parser.feedAll pieces).1).getLast? with
    | none =>
        have hnone := List.getLast?_eq_none_iff.mp hlast
        rw [(hquiet hnone).1, (hafter.quiet hnone).1, h.parseFailed]
    | some e => rw [(hfailed e hlast).1, (hafter.failed e hlast).1]

theorem SameReading.handle {c c' : Conn} (h : SameReading c.client c'.client) (e : Event) :
    SameReading (c.handle e).client (c'.handle e).client := by
  cases ht : c.client.transport with
  | none =>
      rw [Conn.handle, Conn.handle, h.transport, ht]
      exact h
  | some t =>
      cases e with
      | data answers bytes =>
          exact h.receives (Conn.receives_data ht answers bytes)
            (Conn.receives_data (h.transport.trans ht) answers bytes)
      | closed =>
          rw [Conn.handle, Conn.handle, h.transport, ht]
          refine ⟨h.transport, ?_, h.parseFailed⟩
          change { c'.client.parser with toParserCore := c'.client.parser.finish } = _
          rw [h.parser]
          rfl
      | error e =>
          rw [Conn.handle, Conn.handle, h.transport, ht]
          exact ⟨h.transport, h.parser, rfl⟩

theorem SameReading.handleAll {c c' : Conn} (h : SameReading c.client c'.client) (es : List Event) :
    SameReading (c.handleAll es).client (c'.handleAll es).client := by
  induction es generalizing c c' with
  | nil => exact h
  | cons e es ih => exact ih (h.handle e)

namespace World

variable (env : Env)

/-- The client reads what has come since a request began at a point. -/
structure ReadsSince (c : Conn) (first : ℕ) (w : World) : Prop where
  since : first ≤ w.yields
  reading : SameReading (c.handleAll (eventsFrom env first w.yields)).client w.client

variable {env} {c : Conn} {first : ℕ} {w w' : World}

theorem ReadsSince.yield (h : ReadsSince env c first w) : ReadsSince env c first (w.yield env) := by
  refine ⟨Nat.le_succ_of_le h.since, ?_⟩
  change SameReading (c.handleAll (eventsFrom env first (w.yields + 1))).client _
  rw [eventsFrom_succ env h.since, Conn.handleAll_append]
  exact @SameReading.handleAll _ _ w.toConn h.reading (env.events w.yields)

theorem ReadsSince.read (h : ReadsSince env c first w) (size : ℕ) :
    ReadsSince env c first (w.read env size).2 := by
  have hwait := h.yield
  unfold World.read
  dsimp only
  split
  · split
    · exact hwait
    · split
      · exact hwait
      · split <;> exact hwait
  · exact ⟨hwait.since, hwait.reading.transport, hwait.reading.parser, hwait.reading.parseFailed⟩

end World

/-! ## What `Read` makes of it -/

/-- A client at the beginning of a request. -/
structure Ready (c : Conn) : Prop where
  transport : c.client.transport.isSome = true
  parser : c.client.parser = fresh true
  quiet : c.client.parseFailed = false
  response : c.client.response = {}

theorem Ready.takes {c : Conn} {reply : Reply} {es : List Event} (h : Ready c)
    (hbrings : Brings reply es) : Taken reply (c.handleAll es).client := by
  obtain ⟨t, ht⟩ := Option.isSome_iff_exists.mp h.transport
  exact Conn.taken_of_brings ht h.parser h.quiet h.response hbrings

theorem Says.delivered {reply : Reply} {p : ParserCore} (h : Says true reply p) :
    p.delivered = reply.body.content := by
  have hemitted := h.emitted
  rwa [ParserCore.emitted, if_pos h.onBody] at hemitted

/-- A parser that is done hands nothing more out. -/
theorem handleAll_delivered {c : Conn} (h : c.client.parser.isComplete = true) (es : List Event) :
    (c.handleAll es).client.parser.delivered = c.client.parser.delivered := by
  have hkept : ∀ {c : Conn} (e : Event), c.client.parser.isComplete = true →
      (c.handle e).client.parser = c.client.parser := by
    intro c e h
    have hs : c.client.parser.state = .kComplete := by simpa [ParserCore.isComplete] using h
    rw [Conn.handle]
    cases c.client.transport with
    | none => rfl
    | some t =>
        cases e with
        | data answers bytes =>
            change (c.onTransportData t answers bytes).client.parser = _
            rw [Conn.onTransportData, if_pos h]
            rfl
        | closed =>
            change { c.client.parser with toParserCore := c.client.parser.finish } = _
            rw [ParserCore.finish, if_neg (by simp [hs])]
        | error e => rfl
  induction es generalizing c with
  | nil => rfl
  | cons e es ih =>
      have hfirst := hkept e h
      have hdelivered := congrArg (·.delivered) hfirst
      exact (ih (by rw [hfirst]; exact h)).trans hdelivered

namespace World

variable {env : Env} {c : Conn} {first : ℕ} {reply : Reply} {all : List Event}

/-- What a call of `Read` comes to behind the bytes that were returned before it. -/
structure ReadsReply (env : Env) (first : ℕ) (reply : Reply) (size : ℕ) (before : Bytes)
    (result : Result Bytes) (after : World) : Prop where
  begins : before ++ returnedBy result <+: reply.body.content
  ended : result = .ok [] → before = reply.body.content
  whole : Brings reply (eventsFrom env first after.yields) →
    result = .ok ((reply.body.content.drop before.length).take size)

theorem read_yields (size : ℕ) (w : World) : (w.read env size).2.yields = w.yields + 1 := by
  unfold World.read
  dsimp only
  split
  · split
    · rfl
    · split
      · rfl
      · split <;> rfl
  · rfl

/-- Where the response is complete, `Read` takes from the queue. -/
theorem read_complete {size : ℕ} {w : World}
    (hcomplete : (w.yield env).client.parser.isComplete = true)
    (hquiet : (w.yield env).client.parseFailed = false) :
    (w.read env size).1 = .ok ((w.yield env).client.pending.take size) := by
  unfold World.read
  dsimp only
  split
  · rename_i hempty
    simp [hquiet, hempty]
  · rfl

theorem read_reply (hready : Ready c) (hall : Brings reply all)
    (hpart : ∀ next, eventsFrom env first next <+: all) {w : World} {before : Bytes}
    (hstreamed : Streamed before w.client) (hreads : ReadsSince env c first w) {size : ℕ}
    (hsize : 0 < size) :
    ReadsReply env first reply size before (w.read env size).1 (w.read env size).2 := by
  obtain ⟨-, hexact⟩ := @read_exact _ _ env _ hstreamed _ hsize
  have hafter := hreads.read size
  obtain ⟨rest, hrest⟩ := hpart (w.read env size).2.yields
  have hend : (((w.read env size).2.toConn.handleAll rest).client.parser).delivered =
      reply.body.content := by
    have hsame := (@SameReading.handleAll _ _ (w.read env size).2.toConn hafter.reading rest).parser
    rw [← Conn.handleAll_append, hrest] at hsame
    rw [hsame]
    exact (hready.takes hall).parser.delivered
  refine ⟨hend ▸ hexact.begins rest, fun hnone => ?_, fun harrived => ?_⟩
  · obtain ⟨hcomplete, hreturned⟩ := hexact.ended hnone
    rw [hnone] at hreturned
    rw [← hend, handleAll_delivered hcomplete, ← hreturned]
    exact (List.append_nil before).symm
  · rw [read_yields] at harrived
    have htaken := hready.takes harrived
    have hreading : SameReading (c.handleAll (eventsFrom env first (w.yields + 1))).client
        (w.yield env).client := hreads.yield.reading
    have hwait : Streamed before (w.yield env).client := hstreamed.handleAll _
    have hdecoded := hwait.decoded
    rw [hreading.parser, htaken.parser.delivered] at hdecoded
    rw [read_complete (by rw [hreading.parser]; exact htaken.complete)
      (hreading.parseFailed.trans htaken.quiet), hdecoded, List.drop_left]

theorem readAll_reply (hready : Ready c) (hall : Brings reply all)
    (hpart : ∀ next, eventsFrom env first next <+: all) {w : World} {returned : Bytes}
    (hstreamed : Streamed returned w.client) (hreads : ReadsSince env c first w) {sizes : List ℕ}
    (hsizes : ∀ s ∈ sizes, 0 < s) {i size : ℕ} {result : Result Bytes} {after : World}
    (hsize : sizes[i]? = some size) (hi : (readAll env sizes w)[i]? = some (result, after)) :
    ReadsReply env first reply size
      (returned ++ ((readAll env sizes w).take i).flatMap fun r => returnedBy r.1) result after := by
  induction sizes generalizing w returned i with
  | nil => cases hi
  | cons s sizes ih =>
      obtain ⟨hs, hsizes⟩ := List.forall_mem_cons.mp hsizes
      cases i with
      | zero =>
          obtain rfl := Option.some.inj hsize
          have hfirst : w.read env s = (result, after) := Option.some.inj hi
          have hread := read_reply hready hall hpart hstreamed hreads hs
          rw [hfirst] at hread
          simpa using hread
      | succ i =>
          have hnext := (@read_exact _ _ env _ hstreamed _ hs).1
          have hrest := ih (hnext.handleAll _) (hreads.read s).yield hsizes hsize hi
          rw [List.append_assoc] at hrest
          exact hrest

/-! ## `Open` and `Read` -/

/-- The last request of an `Open` is answered with a reply: its bytes come behind the reset of the
parser, at the points of `Open` and of the calls of `Read` behind it. -/
structure AnswersOpen (env : Env) (u : ParsedUrl) (method url : Bytes) (w : World) (reply : Reply)
    (hops : List Hop) (hop : Hop) (first : ℕ) (all : List Event) : Prop where
  loop : Rounds.Loop (openRound env) 0 (w.configured method u) (openWorld w) hops
    (w.open env method url)
  last : hops.getLast? = some hop
  begun : (hop.before.startRequest env hop.request false).2.yields = first + 2
  brings : Brings reply all
  part : ∀ next, eventsFrom env first next <+: all

/-- Behind a pass of the loop of `Open` that follows nothing the client reads what has come since the
request began. -/
theorem openHop_reads {n : ℕ} {request : RequestState} {w w' : World}
    (h : w.openHop env n request = (.ok none, w'))
    (hbegun : (w.startRequest env request false).2.yields = first + 2) :
    ∃ c, Ready c ∧ ReadsSince env c first w' := by
  unfold openHop at h
  split at h
  · cases h
  · rename_i w₁ hstart
    rw [hstart] at hbegun
    obtain ⟨c, t, bytes, k, m, ht, -, hconn, hm⟩ := startRequest_sent env hstart
    obtain rfl : m = first := Nat.add_right_cancel (hm.symm.trans hbegun)
    have hsent : ReadsSince env (c.beginRequest t) m w₁ := by
      refine ⟨by omega, ?_⟩
      have hcame : eventsFrom env m w₁.yields = env.events m ++ env.events (m + 1) := by
        rw [hm, eventsFrom_succ env (Nat.le_succ m), eventsFrom_succ env (Nat.le_refl m)]
        simp [eventsFrom]
      rw [hcame, hconn, Conn.started_client]
      exact ⟨rfl, rfl, rfl⟩
    have hwait := @awaitHeaders_eq _ env w₁
    split at h
    · cases h
    · rename_i head w₂ hhead
      rw [hhead] at hwait
      dsimp only at hwait
      refine ⟨c.beginRequest t, ⟨Option.isSome_iff_exists.mpr ⟨t, ht⟩, rfl, rfl, rfl⟩, ?_⟩
      rw [applyRedirect_stays h, hwait]
      exact hsent.yield.yield

/-- Behind an `Open` whose last request is answered with a reply, every call of `Read` is one on that
reply: what was returned begins its body, the end is reported behind all of that body, and where the
whole reply has arrived a call returns the next bytes of the body, as many as it has room for. -/
theorem reads_reply {u : ParsedUrl} {method url : Bytes} {w w' : World} {hops : List Hop} {hop : Hop}
    (hopen : w.open env method url = (.ok (), w'))
    (hanswers : AnswersOpen env u method url w reply hops hop first all) {sizes : List ℕ}
    (hsizes : ∀ s ∈ sizes, 0 < s) {i size : ℕ} {result : Result Bytes} {after : World}
    (hsize : sizes[i]? = some size) (hi : (readAll env sizes w')[i]? = some (result, after)) :
    ReadsReply env first reply size
      (((readAll env sizes w').take i).flatMap fun r => returnedBy r.1) result after := by
  have hok : (w.open env method url).1 = .ok () := congrArg Prod.fst hopen
  obtain ⟨m, hround⟩ := hanswers.loop.answer hok hanswers.last
  have hpass : hop.before.openHop env m hop.request = (.ok none, w') := by
    rw [hopen] at hround
    unfold openRound at hround
    split at hround
    · cases hround
    · rename_i next w₁ heq
      obtain ⟨hnone, rfl⟩ := Prod.mk.inj hround
      rw [heq, (Prod.mk.inj (Except.ok.inj hnone)).2]
  obtain ⟨c, hready, hreads⟩ := openHop_reads hpass hanswers.begun
  exact readAll_reply hready hanswers.brings hanswers.part (open_streamed hopen) hreads hsizes hsize hi

/-- The first request is answered at once. -/
theorem answersOpen_first {u : ParsedUrl} {method url : Bytes} {w : World}
    (hurl : parseUrl url = .ok u) (hplain : w.client.chunkedUpload = false)
    (hhop : ((openWorld w).openHop env 0 (w.configured method u)).1 = .ok none)
    (hbegun : ((openWorld w).startRequest env (w.configured method u) false).2.yields = first + 2)
    (hbrings : Brings reply all) (hpart : ∀ next, eventsFrom env first next <+: all) :
    ∃ hop, (w.open env method url).1 = .ok () ∧
      AnswersOpen env u method url w reply [hop] hop first all := by
  rcases hout : (openWorld w).openHop env 0 (w.configured method u) with ⟨e | next, w'⟩ <;>
    rw [hout] at hhop
  · cases hhop
  obtain rfl := Except.ok.inj hhop
  have hround : openRound env 0 (w.configured method u) (openWorld w) = (.ok ((), none), w') := by
    unfold openRound
    rw [hout]
  have hopen : w.open env method url = (.ok (), w') := by
    rw [open_plain env hurl hplain]
    unfold Rounds.bounded
    rw [hround]
  refine ⟨⟨w.configured method u, openWorld w, w'⟩, congrArg Prod.fst hopen, ?_, rfl, hbegun,
    hbrings, hpart⟩
  rw [hopen]
  exact .answers hround

end World

/-! ## A reply of one byte -/

open World

/-- "HTTP/1.1 200 K" with a Content-Length of 1. -/
def byteHead : ResponseHead :=
  { emptyHead with
    lines :=
      [ascii ['C', 'o', 'n', 't', 'e', 'n', 't', '-', 'L', 'e', 'n', 'g', 't', 'h', ':', ' ', '1']]
    fieldLines := by
      intro l hl
      obtain rfl := List.mem_singleton.mp hl
      exact ⟨by decide, by decide, _, rfl, by decide⟩ }

/-- It, with "A" as the body. -/
def byteReply : @Reply esp32 :=
  letI := esp32
  { head := byteHead
    body := .measured [65]
    readable := by decide
    announced := ⟨by decide, by decide⟩ }

omit [Target] in
/-- The one event of a script comes at its point. -/
theorem eventsFrom_scripted (accepted : List ℕ) (k : ℕ) (e : Event) (first next : ℕ) :
    eventsFrom (scripted accepted [(k, e)]) first next =
      if first ≤ k ∧ k < next then [e] else [] := by
  induction next with
  | zero => simp [eventsFrom]
  | succ next ih =>
      by_cases hle : first ≤ next
      · have hevents : (scripted accepted [(k, e)]).events next = if k = next then [e] else [] := by
          by_cases hk : k = next <;> simp [scripted, hk]
        rw [eventsFrom_succ _ hle, ih, hevents]
        by_cases hk : k = next
        · simp [hk, hle]
        · have hiff : k < next + 1 ↔ k < next := by omega
          simp [hk, hiff]
      · have hnone : next + 1 - first = 0 := by omega
        rw [eventsFrom, hnone, if_neg (by omega)]
        rfl

omit [Target] in
/-- The byte comes during the wait of `Open`. -/
theorem reads_reply_byte :
    letI := esp32
    ReadsReply streamingEnv 2 byteReply 4 [] (.ok [65])
      (read streamingEnv 4 (({} : World).open streamingEnv methodGet exampleUrl).2).2 := by
  let := esp32
  have hbrings : Brings byteReply [.data 1 answerA] :=
    @Brings.itself esp32 byteReply [(1, answerA)] [] [] rfl (by decide) (by simp)
  have hpart : ∀ next, eventsFrom streamingEnv 2 next <+: [.data 1 answerA] := by
    intro next
    rw [streamingEnv, eventsFrom_scripted]
    split
    · exact List.prefix_refl _
    · exact List.nil_prefix
  obtain ⟨hop, hok, hanswers⟩ := @answersOpen_first esp32 streamingEnv 2 byteReply _
    ⟨false, [104], 80, [slash]⟩ methodGet exampleUrl {} (by decide) rfl (by decide +kernel) rfl
    hbrings hpart
  have hpair : ∀ {α β : Type} (p : α × β) (a : α), p.1 = a → p = (a, p.2) := by
    rintro α β ⟨_, _⟩ _ rfl
    rfl
  have hread : read streamingEnv 4 (({} : World).open streamingEnv methodGet exampleUrl).2 =
      (.ok [65], _) :=
    hpair _ _ (by decide +kernel)
  have hexact := @reads_reply esp32 streamingEnv 2 byteReply _ _ _ _ _ _ _ _ (hpair _ _ hok) hanswers
    [4] (by decide) 0 4 _ _ rfl (congrArg some hread)
  exact hexact

end EspModemLink.Http
