import EspModemLink.Http.Arrivals
import EspModemLink.Http.ChunkedUpload

/-!
# A request that an open upload refuses

`Open` and `Execute` write `streaming_` before `StartRequest` finds that a chunked upload is open and
refuses them. The upload goes on with the flag they left, and the body of its response goes where
the flag says: to `Read`, or to a response that nobody asks for.
-/

namespace EspModemLink.Http

open Bytes

/-! ## Clients that differ in the flag -/

/-- The parser hands out no further byte of a body, whatever it is fed. -/
def Mute [Target] (p : HttpParser) : Prop :=
  ∀ pieces : List Bytes, (p.feedAll pieces).2.delivered = p.delivered

/-- The same client with another `streaming_`. -/
def Conn.withStreaming (b : Bool) (c : Conn) : Conn :=
  { c with client := { c.client with streaming := b } }

def World.withStreaming (b : Bool) (w : World) : World :=
  { w with toConn := w.toConn.withStreaming b }

section

variable [Target] {p : HttpParser}

theorem Mute.feed (h : Mute p) (bytes : Bytes) :
    Mute (p.feed bytes).2 ∧ (p.feed bytes).2.delivered = p.delivered := by
  have hone : (p.feed bytes).2.delivered = p.delivered := h [bytes]
  exact ⟨fun pieces => (h (bytes :: pieces)).trans hone.symm, hone⟩

/-- A parser that has halted is mute. -/
theorem mute_of_halted (h : p.halted = true) : Mute p := by
  intro pieces
  induction pieces with
  | nil => rfl
  | cons bytes pieces ih =>
      have hfeed : (p.feed bytes).2 = p := by rw [HttpParser.feed, if_pos h]
      rw [HttpParser.feedAll]
      dsimp only
      rw [hfeed, ih]

theorem Mute.finish (h : Mute p) : Mute { p with toParserCore := p.finish } := by
  unfold ParserCore.finish
  split
  · exact mute_of_halted rfl
  · exact h

namespace Conn

variable {c : Conn} {b : Bool}

/-- With a mute parser nothing is handed to either side. -/
theorem feedParser_of_mute {client : SoftwareHttpClient} (h : Mute client.parser) (bytes : Bytes) :
    feedParser client bytes = match (client.parser.feed bytes).1 with
      | .ok _ => { client with parser := (client.parser.feed bytes).2 }
      | .error e => { client with
          parser := (client.parser.feed bytes).2
          parseFailed := true
          parseError := some e } := by
  have hdrop : (client.parser.feed bytes).2.delivered.drop client.parser.delivered.length = [] := by
    rw [(h.feed bytes).2, List.drop_length]
  have hbody (client : SoftwareHttpClient) : handleBody client [] = client := by
    rw [handleBody_eq, ite_self, List.append_nil, List.append_nil]
  unfold feedParser
  dsimp only
  rw [hdrop]
  cases (client.parser.feed bytes).1 with
  | ok _ => exact hbody _
  | error e => simp only [hbody]

theorem handle_withStreaming (h : Mute c.client.parser) (b : Bool) (e : Event) :
    (c.withStreaming b).handle e = (c.handle e).withStreaming b ∧
      Mute (c.handle e).client.parser := by
  have htransport : (c.withStreaming b).client.transport = c.client.transport := rfl
  unfold handle
  rw [htransport]
  cases c.client.transport with
  | none => exact ⟨rfl, h⟩
  | some t =>
      cases e with
      | closed => exact ⟨rfl, h.finish⟩
      | error e => exact ⟨rfl, h⟩
      | data answers bytes =>
          have hflag : Mute (c.withStreaming b).client.parser := h
          have hcomplete : (c.withStreaming b).client.parser = c.client.parser := rfl
          simp only [onTransportData]
          rw [hcomplete]
          split
          · exact ⟨rfl, h⟩
          · rw [feedParser_of_mute h, feedParser_of_mute hflag, hcomplete]
            have hnext := (h.feed bytes).1
            cases (c.client.parser.feed bytes).1 <;> exact ⟨rfl, hnext⟩

theorem handleAll_withStreaming (h : Mute c.client.parser) (b : Bool) (es : List Event) :
    (c.withStreaming b).handleAll es = (c.handleAll es).withStreaming b ∧
      Mute (c.handleAll es).client.parser := by
  induction es generalizing c with
  | nil => exact ⟨rfl, h⟩
  | cons e es ih =>
      obtain ⟨hhandle, hmute⟩ := handle_withStreaming h b e
      rw [handleAll_cons, handleAll_cons, hhandle]
      exact ih hmute

omit [Target] in
theorem answerEarly_withStreaming (c : Conn) (b : Bool) :
    (c.withStreaming b).answerEarly = c.answerEarly.withStreaming b ∧
      c.answerEarly.client.parser = c.client.parser := by
  have htransport : (c.withStreaming b).client.transport = c.client.transport := rfl
  unfold answerEarly
  rw [htransport]
  cases c.client.transport <;> exact ⟨rfl, rfl⟩

end Conn

namespace World

variable (env : Env) {w : World}

theorem yield_withStreaming (h : Mute w.client.parser) (b : Bool) :
    (w.withStreaming b).yield env = (w.yield env).withStreaming b ∧
      Mute (w.yield env).client.parser := by
  obtain ⟨hevents, hmute⟩ := Conn.handleAll_withStreaming h b (env.events w.yields)
  refine ⟨?_, hmute⟩
  have hyields : (w.withStreaming b).yields = w.yields := rfl
  rw [yield, yield, hyields]
  exact congrArg (fun c => ({ w with toConn := c, yields := w.yields + 1 } : World)) hevents

/-- The second outcome is the first one with another flag, and nothing will be handed out. -/
structure SameBut {α : Type} (b : Bool) (x x' : α × World) : Prop where
  same : x' = (x.1, x.2.withStreaming b)
  mute : Mute x.2.client.parser

section

variable {α : Type} {b : Bool} {x x' y y' : α × World} {r : α}

theorem SameBut.refl (h : Mute w.client.parser) : SameBut b (r, w) (r, w.withStreaming b) :=
  ⟨rfl, h⟩

theorem SameBut.ite {p p' : Prop} [Decidable p] [Decidable p'] (hp : p ↔ p')
    (ht : p → SameBut b x x') (he : ¬p → SameBut b y y') :
    SameBut b (if p then x else y) (if p' then x' else y') := by
  by_cases h : p
  · rw [if_pos h, if_pos (hp.mp h)]
    exact ht h
  · rw [if_neg h, if_neg (mt hp.mpr h)]
    exact he h

theorem SameBut.drop (h : Mute w.client.parser) :
    SameBut b (r, w.dropTransport) (r, (w.withStreaming b).dropTransport) := by
  have htransport : (w.withStreaming b).client.transport = w.client.transport := rfl
  unfold dropTransport Conn.dropTransport
  rw [htransport]
  cases w.client.transport <;> exact ⟨rfl, h⟩

theorem SameBut.yield_drop (h : Mute w.client.parser) :
    SameBut b (r, (w.yield env).dropTransport) (r, ((w.withStreaming b).yield env).dropTransport) := by
  obtain ⟨hyield, hmute⟩ := yield_withStreaming env h b
  rw [hyield]
  exact .drop hmute

end

/-! ## The calls of an upload -/

section

variable {b : Bool} (h : Mute w.client.parser)
include h

theorem send_sameBut (t : ℕ) (part : Part) (bytes : Bytes) :
    SameBut b (w.send env t part bytes) ((w.withStreaming b).send env t part bytes) := by
  let w' : World := { w with
    toConn := w.toConn.log (.sent t w.request part bytes (env.send w.sends))
    sends := w.sends + 1 }
  obtain ⟨hyield, hmute⟩ := yield_withStreaming (w := w') env h b
  exact ⟨congrArg (Prod.mk (env.send w.sends)) hyield, hmute⟩

theorem read_sameBut (size : ℕ) :
    SameBut b (w.read env size) ((w.withStreaming b).read env size) := by
  obtain ⟨hyield, hmute⟩ := yield_withStreaming env h b
  unfold read
  rw [hyield]
  refine .ite Iff.rfl (fun _ => ?_) fun _ => ⟨rfl, hmute⟩
  refine .ite Iff.rfl (fun _ => .refl hmute) fun _ => ?_
  refine .ite Iff.rfl (fun _ => .refl hmute) fun _ => ?_
  exact .ite Iff.rfl (fun _ => .refl hmute) fun _ => .refl hmute

theorem awaitHeaders_sameBut :
    SameBut b (w.awaitHeaders env) ((w.withStreaming b).awaitHeaders env) := by
  obtain ⟨hyield, hmute⟩ := yield_withStreaming env h b
  unfold awaitHeaders
  rw [hyield]
  refine .ite Iff.rfl (fun _ => .refl hmute) fun _ => ?_
  refine .ite Iff.rfl (fun _ => .refl hmute) fun _ => ?_
  exact .ite Iff.rfl (fun _ => .refl hmute) fun _ => .refl hmute

theorem awaitAnswer_sameBut :
    SameBut b (w.awaitAnswer env) ((w.withStreaming b).awaitAnswer env) := by
  obtain ⟨hawait, hmute⟩ := awaitHeaders_sameBut env h
  unfold awaitAnswer
  rw [hawait]
  generalize w.awaitHeaders env = x at hmute
  obtain ⟨e | head, v⟩ := x
  · exact .yield_drop env hmute
  · exact .ite Iff.rfl (fun _ => .yield_drop env hmute) fun _ => .refl hmute

theorem write_sameBut (buffer : Buffer) :
    SameBut b (w.write env buffer) ((w.withStreaming b).write env buffer) := by
  unfold write
  refine .ite Iff.rfl (fun _ => ?_) fun _ => ?_
  · exact .ite Iff.rfl (fun _ => .refl h) fun _ => .refl h
  refine .ite Iff.rfl (fun _ => .refl h) fun _ => ?_
  refine .ite Iff.rfl (fun _ => .refl h) fun _ => ?_
  refine .ite Iff.rfl (fun _ => ?_) fun _ => ?_
  · obtain ⟨hanswer, hparser⟩ := Conn.answerEarly_withStreaming w.toConn b
    refine ⟨congrArg (Prod.mk _) ?_, ?_⟩
    · exact congrArg (fun c => ({ w with toConn := c } : World)) hanswer
    · exact hparser ▸ h
  refine .ite Iff.rfl (fun _ => .refl h) fun _ => ?_
  cases buffer with
  | null => exact .refl h
  | bytes data =>
      refine .ite Iff.rfl (fun _ => .refl h) fun _ => ?_
      have htransport : (w.withStreaming b).client.transport = w.client.transport := rfl
      rw [htransport]
      cases w.client.transport with
      | none => exact .refl h
      | some t =>
          obtain ⟨hsend, hmute⟩ := send_sameBut env h t .chunk (chunkFrame data)
          dsimp only
          rw [hsend]
          generalize w.send env t .chunk (chunkFrame data) = x at hmute
          obtain ⟨e | sent, v⟩ := x
          · exact .drop hmute
          · exact .ite Iff.rfl (fun _ => .drop hmute) fun _ => .refl hmute

theorem endBody_sameBut :
    SameBut b (w.endBody env) ((w.withStreaming b).endBody env) := by
  unfold endBody
  refine .ite Iff.rfl (fun _ => ?_) fun _ => ?_
  · exact .ite Iff.rfl (fun _ => .refl h) fun _ => .refl h
  refine .ite Iff.rfl (fun _ => .refl h) fun _ => ?_
  dsimp only
  have hclosed : { w.withStreaming b with toConn := (w.withStreaming b).toConn.endUpload } =
      ({ w with toConn := w.toConn.endUpload } : World).withStreaming b := rfl
  have htransport : (w.withStreaming b).toConn.endUpload.client.transport =
      w.toConn.endUpload.client.transport := rfl
  rw [hclosed, htransport]
  generalize hw : ({ w with toConn := w.toConn.endUpload } : World) = w₁
  cases w.toConn.endUpload.client.transport with
  | none => exact .refl (hw ▸ h)
  | some t =>
      obtain ⟨hsend, hmute⟩ := send_sameBut (w := w₁) env (hw ▸ h) t .terminator kTerminator
      dsimp only
      rw [hsend]
      generalize w₁.send env t .terminator kTerminator = x at hmute
      obtain ⟨e | sent, v⟩ := x
      · exact .drop hmute
      · exact .ite Iff.rfl (fun _ => .drop hmute) fun _ => awaitAnswer_sameBut env hmute

end

/-! ## The rest of an upload -/

/-- What the caller may do with an open upload and with its response. -/
inductive UploadCall where
  | write (buffer : Buffer)
  | endBody
  | read (size : ℕ)

/-- What such a call answers. -/
inductive Answer where
  | wrote (r : Result ℕ)
  | ended (r : Result Unit)
  | read (r : Result Bytes)
deriving DecidableEq

/-- One call, behind the events that arrive before it. -/
def uploadCall (call : UploadCall) (w : World) : Answer × World :=
  let w := w.yield env
  match call with
  | .write buffer => (.wrote (w.write env buffer).1, (w.write env buffer).2)
  | .endBody => (.ended (w.endBody env).1, (w.endBody env).2)
  | .read size => (.read (w.read env size).1, (w.read env size).2)

def uploadRun : List UploadCall → World → List Answer × World
  | [], w => ([], w)
  | call :: calls, w =>
      let (answer, w) := uploadCall env call w
      let (answers, w) := uploadRun calls w
      (answer :: answers, w)

/-- Whatever the server does and the caller calls, the upload answers the same and does the same on
the wire from one of the states as from the other. -/
def Intact (w w' : World) : Prop :=
  ∀ (env : Env) (calls : List UploadCall),
    (uploadRun env calls w').1 = (uploadRun env calls w).1 ∧
      (uploadRun env calls w').2.trace = (uploadRun env calls w).2.trace

theorem SameBut.map {α β : Type} {b : Bool} {x x' : α × World} (h : SameBut b x x') (f : α → β) :
    SameBut b (f x.1, x.2) (f x'.1, x'.2) :=
  ⟨by rw [h.same], h.mute⟩

theorem uploadCall_sameBut {b : Bool} (h : Mute w.client.parser) (call : UploadCall) :
    SameBut b (uploadCall env call w) (uploadCall env call (w.withStreaming b)) := by
  obtain ⟨hyield, hmute⟩ := yield_withStreaming env h b
  unfold uploadCall
  dsimp only
  rw [hyield]
  cases call with
  | write buffer => exact (write_sameBut env hmute buffer).map Answer.wrote
  | endBody => exact (endBody_sameBut env hmute).map Answer.ended
  | read size => exact (read_sameBut env hmute size).map Answer.read

theorem uploadRun_sameBut {b : Bool} (h : Mute w.client.parser) (calls : List UploadCall) :
    SameBut b (uploadRun env calls w) (uploadRun env calls (w.withStreaming b)) := by
  induction calls generalizing w with
  | nil => exact .refl h
  | cons call calls ih =>
      have hcall := uploadCall_sameBut env (b := b) h call
      have hrest := ih hcall.mute
      rw [uploadRun, uploadRun, hcall.same]
      exact hrest.map (List.cons (uploadCall env call w).1)

/-- Where nothing can be handed out, the flag does not matter. -/
theorem intact_of_mute (h : Mute w.client.parser) (b : Bool) : Intact w (w.withStreaming b) := by
  intro env calls
  rw [(uploadRun_sameBut env h calls).same]
  exact ⟨rfl, rfl⟩

end World

/-! ## Where the flag matters -/

namespace World

variable {w : World}

/-- The server sends these pieces at one point and nothing anywhere else. -/
def sendsAt (point : ℕ) (pieces : List (ℕ × Bytes)) : Env where
  create _ := .ok ()
  connect _ := .ok ()
  send _ := .ok 0
  events n := if n = point then arrivals pieces else []

/-- The bytes that a call of `Read` handed to the caller. -/
def Answer.bytes : Answer → Bytes
  | .read (.ok bytes) => bytes
  | _ => []

/-- A large `Read` takes all that is there. -/
theorem read_bytes (env : Env) {size : ℕ} (h : (w.yield env).client.pending.length ≤ size) :
    (Answer.read (w.read env size).1).bytes = (w.yield env).client.pending := by
  unfold read
  dsimp only
  split
  · rename_i hpending
    rw [hpending]
    repeat' split
    all_goals rfl
  · exact List.take_of_length_le h

theorem uploadCall_read (pieces : List (ℕ × Bytes)) (size : ℕ)
    (h : (w.toConn.handleAll (arrivals pieces)).client.pending.length ≤ size) :
    (uploadCall (sendsAt w.yields pieces) (.read size) w).1.bytes =
      (w.toConn.handleAll (arrivals pieces)).client.pending := by
  let env := sendsAt w.yields pieces
  have hfirst : (w.yield env).toConn = w.toConn.handleAll (arrivals pieces) := by
    change w.toConn.handleAll (env.events w.yields) = _
    rw [show env.events w.yields = arrivals pieces from if_pos rfl]
  have hsecond : ((w.yield env).yield env).toConn = (w.yield env).toConn := by
    change (w.yield env).toConn.handleAll (env.events (w.yields + 1)) = _
    rw [show env.events (w.yields + 1) = [] from if_neg (by omega)]
    rfl
  have hpending : ((w.yield env).yield env).client.pending =
      (w.toConn.handleAll (arrivals pieces)).client.pending := by
    rw [hsecond, hfirst]
  exact (read_bytes env (hpending ▸ h)).trans hpending

/-- Where something can be handed out, a server shows which way the flag stands. -/
theorem mute_of_intact {t : ℕ} {b : Bool} (ht : w.client.transport = some t)
    (hb : w.client.streaming ≠ b) (h : Intact w (w.withStreaming b)) : Mute w.client.parser := by
  intro bytes
  let pieces := bytes.map fun piece => ((0 : ℕ), piece)
  have hpieces : pieces.map Prod.snd = bytes := by
    rw [List.map_map]
    exact List.map_id bytes
  have hone := Conn.receives_arrivals ht pieces
  have hother := Conn.receives_arrivals (c := (w.withStreaming b).toConn) ht pieces
  obtain ⟨d, hd, hpending, -⟩ := hone.body
  obtain ⟨d', hd', hpending', -⟩ := hother.body
  let size := (w.toConn.handleAll (arrivals pieces)).client.pending.length +
    ((w.withStreaming b).toConn.handleAll (arrivals pieces)).client.pending.length
  have hsame := congrArg (List.map Answer.bytes)
    (h (sendsAt w.yields pieces) [.read size]).1
  have hreads : ((w.withStreaming b).toConn.handleAll (arrivals pieces)).client.pending =
      (w.toConn.handleAll (arrivals pieces)).client.pending := by
    rw [← uploadCall_read pieces size (Nat.le_add_right _ _),
      ← uploadCall_read (w := w.withStreaming b) pieces size (Nat.le_add_left _ _)]
    exact (List.cons.inj hsame).1
  -- One of the two reads what was handed out, the other does not.
  have hsplit : w.client.pending ++ (if b then d' else []) =
      w.client.pending ++ if w.client.streaming then d else [] :=
    hpending'.symm.trans (hreads.trans hpending)
  have hdd : d' = d := by
    have hparsers : ((w.withStreaming b).toConn.handleAll (arrivals pieces)).client.parser =
        (w.toConn.handleAll (arrivals pieces)).client.parser :=
      hother.parser.trans hone.parser.symm
    have := hd'.symm.trans ((congrArg (fun p => p.delivered) hparsers).trans hd)
    exact List.append_cancel_left this
  have hnil : d = [] := by
    have hcancel := List.append_cancel_left hsplit
    rw [hdd] at hcancel
    cases hs : w.client.streaming <;> cases b <;> simp_all
  rw [← hpieces, ← hone.parser, hd, hnil, List.append_nil]

/-! ## The refused request -/

/-- A call that starts a request. -/
inductive RequestCall where
  | «open» (method url : Bytes)
  | execute (method url : Bytes)
deriving DecidableEq

def RequestCall.url : RequestCall → Bytes
  | .open _ url => url
  | .execute _ url => url

/-- The call, with what it answers besides a response. -/
def RequestCall.issue (env : Env) (w : World) : RequestCall → Result Unit × World
  | .open method url => w.open env method url
  | .execute method url =>
      ((w.execute env method url).1.map fun _ => (), (w.execute env method url).2)

/-- What a refused call leaves in `streaming_`: `Execute` clears it, `Open` sets it and
takes it back in front of a chunked upload only. -/
def RequestCall.leaves (client : SoftwareHttpClient) : RequestCall → Bool
  | .open _ _ => !client.chunkedUpload
  | .execute _ _ => false

/-- The call does not get as far as `streaming_`, or leaves it as it is. -/
def KeepsStreaming (w : World) (r : RequestCall) : Prop :=
  (∃ e, parseUrl r.url = .error e) ∨ w.client.streaming = r.leaves w.client

section

variable (env : Env) (hup : w.client.uploadActive = true)
include hup

theorem startRequest_refused (request : RequestState) (chunked : Bool) :
    w.startRequest env request chunked = (.error uploadOpenError, w) := by
  rw [startRequest, if_pos hup]

theorem beginChunkedUpload_refused (request : RequestState) :
    ∃ e, w.beginChunkedUpload env request = (.error e, w) := by
  unfold beginChunkedUpload
  split
  · exact ⟨_, rfl⟩
  · split
    · exact ⟨_, rfl⟩
    · rw [startRequest_refused env hup]
      exact ⟨_, rfl⟩

theorem openHops_refused (left hop : ℕ) (request : RequestState) :
    openHops env left hop request w = (.error uploadOpenError, w) := by
  have hhop : w.openHop env hop request = (.error uploadOpenError, w) := by
    rw [openHop, startRequest_refused env hup]
  unfold openHops
  rw [hhop]

theorem executeHops_refused (left hop : ℕ) (request : RequestState) :
    executeHops env left hop request w = (.error uploadOpenError, w.withStreaming false) := by
  have honce : w.executeOnce env request = (.error uploadOpenError, w.withStreaming false) := by
    have hrefused := startRequest_refused (w := w.withStreaming false) env hup request false
    rw [executeOnce]
    dsimp only
    generalize hstart : World.startRequest env request false _ = x
    obtain rfl := hrefused.symm.trans hstart
    rfl
  have hattempt : w.executeAttempt env request = (.error uploadOpenError, w.withStreaming false) := by
    rw [executeAttempt, honce]
    exact if_neg fun h => absurd h.2 (by decide)
  have hhop : w.executeHop env hop request = (.error uploadOpenError, w.withStreaming false) := by
    rw [executeHop, hattempt]
  unfold executeHops
  rw [hhop]

omit hup in
/-- A bad URL is refused before anything is written. -/
theorem issue_unparsed {r : RequestCall} {e : NetworkError} (w : World)
    (hurl : parseUrl r.url = .error e) : r.issue env w = (.error e, w) := by
  cases r with
  | «open» method text =>
      have hurl' : parseUrl text = .error e := hurl
      rw [RequestCall.issue, «open», hurl']
  | execute method text =>
      have hurl' : parseUrl text = .error e := hurl
      rw [RequestCall.issue, execute, hurl']
      rfl

/-- Within an open upload every request is refused, and only the flag is changed. -/
theorem issue_refused {r : RequestCall} {url : ParsedUrl} (hurl : parseUrl r.url = .ok url) :
    ∃ e, r.issue env w = (.error e, w.withStreaming (r.leaves w.client)) := by
  cases r with
  | «open» method text =>
      have hurl' : parseUrl text = .ok url := hurl
      have hup' : (w.withStreaming true).client.uploadActive = true := hup
      rw [RequestCall.issue, «open», hurl', RequestCall.leaves]
      dsimp only
      by_cases hchunked : w.client.chunkedUpload = true
      · obtain ⟨e, he⟩ := beginChunkedUpload_refused env hup' (w.configured method url)
        rw [if_pos hchunked]
        generalize hopen : World.beginChunkedUpload env (w.configured method url) _ = x
        obtain rfl := he.symm.trans hopen
        refine ⟨e, ?_⟩
        rw [hchunked]
        rfl
      · rw [if_neg hchunked]
        refine ⟨uploadOpenError, (openHops_refused env hup' _ _ _).trans ?_⟩
        rw [Bool.eq_false_iff.mpr hchunked]
        rfl
  | execute method text =>
      have hurl' : parseUrl text = .ok url := hurl
      have hexecute : w.execute env method text = (.error uploadOpenError, w.withStreaming false) := by
        rw [execute, hurl']
        exact executeHops_refused env hup _ _ _
      rw [RequestCall.issue, hexecute]
      exact ⟨_, rfl⟩

end

/-- An open upload has a transport. -/
theorem run_uploading (env : Env) (calls : List Call) :
    (run env calls).client.uploadActive = true → ∃ t, (run env calls).client.transport = some t := by
  refine run_invariant env
    (fun c => c.client.uploadActive = true → ∃ t, c.client.transport = some t) (fun _ => True)
    (fun h => absurd h (by simp)) ?_ ?_ calls fun _ _ => trivial
  · intro c c' hstep hI hup
    cases hstep with
    | event e =>
        have hsame := c.handle_sameDriver e
        rw [hsame.transport]
        exact hI (hsame.uploadActive.symm.trans hup)
    | quiet h =>
        rw [h.transport]
        exact hI (h.uploadActive.symm.trans hup)
    | drop | headLost | pieceLost | lost =>
        exact absurd hup (by simp [Conn.dropTransport, Conn.endUpload])
    | attach => exact ⟨_, rfl⟩
    | connected => exact hI hup
    | plain es es' ht =>
        exact ⟨_, (c.started_driver _ es _ _ es').transport.trans ht⟩
    | chunked es es' ht =>
        exact ⟨_, (c.started_driver _ es _ _ es').transport.trans ht⟩
    | chunk ht => exact ⟨_, ht⟩
    | terminator ht => exact ⟨_, ht⟩
    | answered =>
        have hanswered : c.answerEarly.client.uploadActive = false := by
          unfold Conn.answerEarly
          cases c.client.transport <;> rfl
        exact absurd (hanswered.symm.trans hup) (by simp)
  · intro c call _ hI
    cases call <;> exact hI

/-- Within every open upload every request is refused, and it leaves the upload intact if and only
if it leaves `streaming_` as it is or no body byte is left to come. -/
theorem refused_intact_iff (env env' : Env) (calls : List Call) (r : RequestCall)
    (hup : (run env calls).client.uploadActive = true) :
    (∃ e, (r.issue env' (run env calls)).1 = .error e) ∧
      (Intact (run env calls) (r.issue env' (run env calls)).2 ↔
        KeepsStreaming (run env calls) r ∨ Mute (run env calls).client.parser) := by
  obtain ⟨t, ht⟩ := run_uploading env calls hup
  generalize run env calls = w at hup ht
  cases hurl : parseUrl r.url with
  | error e =>
      rw [issue_unparsed env' w hurl]
      exact ⟨⟨e, rfl⟩, fun _ => .inl (.inl ⟨e, hurl⟩), fun _ _ _ => ⟨rfl, rfl⟩⟩
  | ok url =>
      obtain ⟨e, hissue⟩ := issue_refused env' hup hurl
      rw [hissue]
      refine ⟨⟨e, rfl⟩, fun h => ?_, fun h => ?_⟩
      · by_cases hsame : w.client.streaming = r.leaves w.client
        · exact .inl (.inr hsame)
        · exact .inr (mute_of_intact ht hsame h)
      · rcases h with (⟨e, herr⟩ | hsame) | hmute
        · exact absurd (herr.symm.trans hurl) (by simp)
        · rw [← hsame]
          exact fun _ _ => ⟨rfl, rfl⟩
        · exact intact_of_mute hmute _

end World

end

/-! ## An upload that loses the body of its response -/

open World

/-- "HTTP/1.1 200 K", one field and the body "A". -/
def answerA : Bytes :=
  ascii ['H', 'T', 'T', 'P', '/', '1', '.', '1', ' ', '2', '0', '0', ' ', 'K', '\r', '\n',
    'C', 'o', 'n', 't', 'e', 'n', 't', '-', 'L', 'e', 'n', 'g', 't', 'h', ':', ' ', '1', '\r', '\n',
    '\r', '\n', 'A']

/-- A server that takes the head and the terminator and answers behind the terminator. -/
def answeringEnv : Env := scripted [107, 5] [(7, .data 1 answerA)]

def openedCalls : List Call := [.setChunkedUpload true, .open methodPost exampleUrl]

theorem refused_intact_iff_execute :
    letI := esp32
    (∃ e, ((RequestCall.execute methodGet exampleUrl).issue answeringEnv
        (run answeringEnv openedCalls)).1 = .error e) ∧
      (Intact (run answeringEnv openedCalls) ((RequestCall.execute methodGet exampleUrl).issue
          answeringEnv (run answeringEnv openedCalls)).2 ↔
        KeepsStreaming (run answeringEnv openedCalls) (.execute methodGet exampleUrl) ∨
          Mute (run answeringEnv openedCalls).client.parser) :=
  letI := esp32
  refused_intact_iff answeringEnv answeringEnv openedCalls (.execute methodGet exampleUrl) rfl

/-- Behind a refused `Execute`, `EndBody` succeeds and `Read` finds the end of a body that it
would have returned. -/
theorem refused_execute_loses_body :
    letI := esp32
    ¬Intact (run answeringEnv openedCalls) ((RequestCall.execute methodGet exampleUrl).issue
      answeringEnv (run answeringEnv openedCalls)).2 := by
  intro h
  have hanswers := (h answeringEnv [.endBody, .read 8]).1
  revert hanswers
  decide +kernel

end EspModemLink.Http
