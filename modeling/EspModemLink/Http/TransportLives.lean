import EspModemLink.Http.ClientSteps
import EspModemLink.Library.Leases

/-!
# The transports of a client

A client makes a transport for each connection and has one at a time. Whatever is called and however it
ends, the one before was disconnected when the next is made, and nothing goes over a transport or comes
from it that the client no longer has.
-/

namespace EspModemLink.Http

open Bytes Leases

/-- What an action does to the transports. `Connect` is part of the making. -/
def Action.lease : Action → Act ℕ
  | .created t _ _ => .takes t
  | .connected _ _ _ => .other
  | .disconnected t => .gives t
  | .began t _ _ | .sent t _ _ _ _ | .answeredEarly t _ | .data t _ _ _ _ | .closed t => .uses t

/-- What the trace says of the transports, and the one that the client has. -/
structure Lives (c : Conn) : Prop where
  leases : OneAtATime (c.trace.map Action.lease) c.client.transport
  numbered : ∀ t, .takes t ∈ c.trace.map Action.lease → t < c.transports

variable {c c' : Conn}

theorem Lives.same (h : Lives c) (ht : c'.client.transport = c.client.transport)
    (hn : c'.transports = c.transports) (htrace : c'.trace = c.trace) : Lives c' :=
  ⟨by rw [htrace, ht]; exact h.leases, by rw [htrace, hn]; exact h.numbered⟩

/-- An action on the transport that the client has. -/
theorem Lives.uses (h : Lives c) {t : ℕ} {a : Action} (hhas : c.client.transport = some t)
    (ha : a.lease = .uses t) (ht : c'.client.transport = c.client.transport)
    (hn : c'.transports = c.transports) (htrace : c'.trace = c.trace ++ [a]) : Lives c' := by
  have hmap : c'.trace.map Action.lease = c.trace.map Action.lease ++ [.uses t] := by
    rw [htrace, List.map_append, List.map_singleton, ha]
  have hleases := h.leases
  rw [hhas] at hleases
  refine ⟨?_, fun t' htakes => ?_⟩
  · rw [hmap, ht, hhas]
    exact hleases.uses
  · rw [hmap] at htakes
    rw [hn]
    exact h.numbered t' (by simpa using htakes)

theorem Lives.drop (h : Lives c) : Lives c.dropTransport := by
  cases hhas : c.client.transport with
  | none =>
      have htrace : c.dropTransport.trace = c.trace := by simp only [Conn.dropTransport, hhas]
      exact h.same hhas.symm c.dropTransport_transports htrace
  | some t =>
      have htrace : c.dropTransport.trace = c.trace ++ [.disconnected t] := by
        simp only [Conn.dropTransport, hhas, Conn.log_trace]
      have hmap : c.dropTransport.trace.map Action.lease =
          c.trace.map Action.lease ++ [.gives t] := by
        rw [htrace, List.map_append]
        rfl
      have hleases := h.leases
      rw [hhas] at hleases
      refine ⟨?_, fun t' htakes => ?_⟩
      · rw [hmap]
        exact hleases.gives
      · rw [hmap] at htakes
        rw [c.dropTransport_transports]
        exact h.numbered t' (by simpa using htakes)

/-- A transport is made where the client has none. -/
theorem Lives.attach (h : Lives c) (tls : Bool) (config : TlsConfig)
    (hnone : c.client.transport = none) : Lives (c.attach tls config) := by
  have hmap : (c.attach tls config).trace.map Action.lease =
      c.trace.map Action.lease ++ [.takes c.transports] := by
    rw [Conn.attach, Conn.log_trace, List.map_append]
    rfl
  have hleases := h.leases
  rw [hnone] at hleases
  refine ⟨?_, fun t' htakes => ?_⟩
  · rw [hmap]
    exact hleases.takes fun hm => Nat.lt_irrefl _ (h.numbered _ hm)
  · rw [hmap, List.mem_append, List.mem_singleton] at htakes
    obtain hold | hnew := htakes
    · exact Nat.lt_succ_of_lt (h.numbered t' hold)
    · obtain rfl := Act.takes.inj hnew
      exact Nat.lt_succ_self _

theorem Lives.connected (h : Lives c) (t : ℕ) (url : ParsedUrl) : Lives (c.markConnected t url) := by
  have hmap : (c.markConnected t url).trace.map Action.lease =
      c.trace.map Action.lease ++ [.other] := by
    rw [Conn.markConnected, Conn.log_trace, List.map_append]
    rfl
  refine ⟨?_, fun t' htakes => ?_⟩
  · rw [hmap]
    exact h.leases.other
  · rw [hmap] at htakes
    exact h.numbered t' (by simpa using htakes)

variable [Target]

/-- What arrives comes from the transport that the client has. -/
theorem Lives.handle (h : Lives c) (e : Event) : Lives (c.handle e) := by
  have hdriver := c.handle_sameDriver e
  cases hhas : c.client.transport with
  | none =>
      have hsame : c.handle e = c := by simp only [Conn.handle, hhas]
      exact hsame.symm ▸ h
  | some t =>
      cases e with
      | data answers bytes =>
          obtain ⟨fed, htrace⟩ : ∃ fed, (c.handle (.data answers bytes)).trace =
              c.trace ++ [.data t c.request answers bytes fed] := by
            simp only [Conn.handle, hhas, Conn.onTransportData]
            split <;> exact ⟨_, rfl⟩
          exact h.uses hhas rfl hdriver.transport hdriver.transports htrace
      | closed =>
          have htrace : (c.handle .closed).trace = c.trace ++ [.closed t] := by
            simp only [Conn.handle, hhas]
            rfl
          exact h.uses hhas rfl hdriver.transport hdriver.transports htrace
      | error e =>
          have htrace : (c.handle (.error e)).trace = c.trace := by
            simp only [Conn.handle, hhas, Conn.onTransportError]
          exact h.same hdriver.transport hdriver.transports htrace

theorem Lives.handleAll (h : Lives c) (es : List Event) : Lives (c.handleAll es) := by
  induction es generalizing c with
  | nil => exact h
  | cons e es ih => exact ih (h.handle e)

omit [Target] in
theorem Lives.sent (h : Lives c) {t : ℕ} (hhas : c.client.transport = some t) (part : Part)
    (bytes : Bytes) (outcome : Result ℕ) : Lives (c.log (.sent t c.request part bytes outcome)) :=
  h.uses hhas rfl rfl rfl rfl

theorem Lives.started (h : Lives c) {t : ℕ} (hhas : c.client.transport = some t) (es : List Event)
    (bytes : Bytes) (outcome : Result ℕ) (es' : List Event) :
    Lives (c.started t es bytes outcome es') := by
  have hbegun : Lives (c.beginRequest t) := h.uses hhas rfl rfl rfl rfl
  have hstill : ((c.beginRequest t).handleAll es).client.transport = some t :=
    ((c.beginRequest t).handleAll_sameDriver es).transport.trans hhas
  exact ((hbegun.handleAll es).sent hstill .head bytes outcome).handleAll es'

theorem Lives.step (h : Lives c) (hstep : c.Atomic c') : Lives c' := by
  cases hstep with
  | event e => exact h.handle e
  | quiet hs => exact h.same hs.transport hs.transports hs.trace
  | drop => exact h.drop
  | attach tls config hnone => exact h.attach tls config hnone
  | connected t url => exact h.connected t url
  | plain es es' hhas => exact h.started hhas es _ _ es'
  | chunked es es' hhas => exact (h.started hhas es _ _ es').same rfl rfl rfl
  | headLost es es' hhas => exact (h.started hhas es _ _ es').drop
  | chunk hhas => exact h.sent hhas _ _ _
  | terminator hhas =>
      have hended : Lives c.endUpload := h.same rfl rfl rfl
      exact hended.sent hhas _ _ _
  | pieceLost active es hhas =>
      refine Lives.drop (Lives.handleAll ?_ es)
      cases active with
      | true => exact h.sent hhas _ _ _
      | false =>
          have hended : Lives c.endUpload := h.same rfl rfl rfl
          exact hended.sent hhas _ _ _
  | answered =>
      unfold Conn.answerEarly
      split
      · exact h.same rfl rfl rfl
      · rename_i t hhas
        exact h.uses hhas rfl rfl rfl rfl
  | lost => exact h.same rfl rfl rfl

/-- In every run the client has one transport at a time: each is new when it is made, and made where
the one before has been disconnected; what is begun, sent, received and reported closed is so on a
transport that was made and is not yet disconnected; none is disconnected twice; and the one that is
left at the end is the client's. -/
theorem run_transports (env : Env) (calls : List World.Call) :
    OneAtATime ((World.run env calls).trace.map Action.lease)
      (World.run env calls).client.transport := by
  have hlives : Lives (World.run env calls).toConn :=
    World.run_invariant env Lives (fun _ => True) ⟨oneAtATime_nil, by simp⟩
      (fun hstep h => h.step hstep)
      (fun c call _ h => h.same (by cases call <;> rfl) rfl rfl) calls fun _ _ => trivial
  exact hlives.leases

end EspModemLink.Http
