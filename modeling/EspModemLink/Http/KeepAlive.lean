import EspModemLink.Http.ChunkedUpload
import EspModemLink.Http.ParserCut

/-!
# Requests and their responses on a kept connection

The server answers each request with one response. Every byte of it is fed to the parser while
its own request is the current one, as long as no request begins on a kept connection before
the parser has completed the response before it.
-/

namespace EspModemLink.Http

open Bytes World

/-- No byte is fed to the parser that answers another request than the current one. -/
def Paired (trace : List Action) : Prop :=
  ∀ t j k bytes, Action.data t j k bytes true ∈ trace → bytes ≠ [] → k = j

/-! ## The server -/

/-- However it is cut, the parser completes with the last byte and not before. -/
def OneResponse [Target] (answer : Bytes) : Prop :=
  ∀ pieces : List Bytes, pieces.flatten <+: answer →
    ((fresh true).feedAll pieces).2.isComplete = true → pieces.flatten = answer

/-- Payload, with the request that it answers. -/
def payload : Action → Option (ℕ × Bytes)
  | .data _ _ k bytes _ => some (k, bytes)
  | _ => none

/-- The bytes that have arrived in answer to a request. -/
def answered (k : ℕ) (trace : List Action) : Bytes :=
  ((trace.filterMap payload).filter fun x => x.1 == k).flatMap Prod.snd

def isHead (t k : ℕ) : Action → Bool
  | .sent t' k' .head _ _ => t' == t && k' == k
  | _ => false

/-- Payload answers a request whose head went out on its transport before. -/
def ownAt (before : List Action) : Option Action → Bool
  | some (.data t _ k _ _) => before.any (isHead t k)
  | _ => true

def dataBehindClose : Action → Action → Bool
  | .closed t, .data t' _ _ _ _ => t == t'
  | _, _ => false

/-- A server that answers every request with its answer, in order, and sends nothing behind
its close. -/
structure ServerAnswers (answer : ℕ → Bytes) (s : List Action) : Prop where
  own : ∀ n < s.length, ownAt (s.take n) s[n]? = true
  inOrder : ∀ k, answered k s <+: answer k
  silent : s.Pairwise fun a b => dataBehindClose a b = false

def reusedEarly : Action → Action → Bool
  | .sent t _ .head _ _, .began t' _ complete => t == t' && !complete
  | _, _ => false

/-- No request begins on a transport that carried a head before, unless the parser is
complete. -/
def Drained (trace : List Action) : Prop := trace.Pairwise fun a b => reusedEarly a b = false

instance (trace : List Action) : Decidable (Drained trace) :=
  inferInstanceAs (Decidable (trace.Pairwise _))

/-! ## Moments of a run -/

theorem answered_append (k : ℕ) (s s' : List Action) :
    answered k (s ++ s') = answered k s ++ answered k s' := by
  simp [answered]

theorem answered_data (t j k : ℕ) (bytes : Bytes) (fed : Bool) (k' : ℕ) :
    answered k' [.data t j k bytes fed] = if k = k' then bytes else [] := by
  by_cases h : k = k' <;> simp [answered, payload, h]

theorem answered_other {a : Action} (h : ∀ t j k bytes fed, a ≠ .data t j k bytes fed) (k : ℕ) :
    answered k [a] = [] := by
  cases a with
  | data t j k bytes fed => exact absurd rfl (h t j k bytes fed)
  | _ => rfl

/-- What a moment of a run is asked for. -/
structure Orderly (answer : ℕ → Bytes) (trace : List Action) : Prop where
  server : ServerAnswers answer trace
  drained : Drained trace

variable {answer : ℕ → Bytes}

theorem Orderly.of_append {s s' : List Action} (h : Orderly answer (s ++ s')) :
    Orderly answer s := by
  refine ⟨⟨fun n hn => ?_, fun k => ?_, (List.pairwise_append.mp h.server.silent).1⟩,
    (List.pairwise_append.mp h.drained).1⟩
  · have hown := h.server.own n (by rw [List.length_append]; omega)
    rwa [List.take_append_of_le_length (by omega), List.getElem?_append_left hn] at hown
  · have horder := h.server.inOrder k
    rw [answered_append] at horder
    exact (List.prefix_append _ _).trans horder

/-- Payload that arrives answers a request whose head is in the trace. -/
theorem Orderly.own {s : List Action} {t j k : ℕ} {bytes : Bytes} {fed : Bool}
    (h : Orderly answer (s ++ [.data t j k bytes fed])) :
    ∃ b o, Action.sent t k .head b o ∈ s := by
  have hown := h.server.own s.length (by simp)
  simp only [List.take_left, List.getElem?_concat_length, ownAt, List.any_eq_true] at hown
  obtain ⟨a, ha, hhead⟩ := hown
  unfold isHead at hhead
  split at hhead
  · obtain ⟨rfl, rfl⟩ : _ = t ∧ _ = k := by simpa using hhead
    exact ⟨_, _, ha⟩
  · exact absurd hhead (by simp)

/-- Payload that is in the trace was answered to a head before it. -/
theorem Orderly.own_mem {s : List Action} {t j k : ℕ} {bytes : Bytes} {fed : Bool}
    (h : Orderly answer s) (hm : Action.data t j k bytes fed ∈ s) :
    ∃ b o, Action.sent t k .head b o ∈ s := by
  obtain ⟨pre, post, rfl⟩ := List.append_of_mem hm
  rw [← List.singleton_append, ← List.append_assoc] at h
  obtain ⟨b, o, hb⟩ := h.of_append.own
  exact ⟨b, o, List.mem_append_left _ hb⟩

/-! ## The invariant -/

/-- What holds between two steps of an orderly run. On its transport, the requests before the
current one have been answered, and the parser has read what answers the current one. -/
structure Pairing [Target] (answer : ℕ → Bytes) (c : Conn) : Prop where
  paired : Paired c.trace
  sent : ∀ t k b o, .sent t k .head b o ∈ c.trace →
    k ≤ c.request ∧ t < c.transports ∧ ∃ complete, .began t k complete ∈ c.trace
  began : ∀ t k complete, .began t k complete ∈ c.trace → t < c.transports
  known : ∀ t, c.client.transport = some t → t < c.transports
  past : ∀ t, c.client.transport = some t → ∀ k b o, .sent t k .head b o ∈ c.trace →
    k < c.request → answered k c.trace = answer k ∨ .closed t ∈ c.trace
  now : ∀ t, c.client.transport = some t → .closed t ∉ c.trace →
    ∀ complete, .began t c.request complete ∈ c.trace →
      ∃ pieces, c.client.parser = ((fresh true).feedAll pieces).2 ∧
        pieces.flatten = answered c.request c.trace

/-- Actions that have no part in the pairing. -/
def plain : Action → Bool
  | .data .. | .closed .. | .began .. | .sent _ _ .head _ _ => false
  | _ => true

section

variable [Target]

omit [Target] in
theorem answered_plain {more : List Action} (h : ∀ a ∈ more, plain a = true) (k : ℕ) :
    answered k more = [] := by
  have hnil : more.filterMap payload = [] := by
    refine List.filterMap_eq_nil_iff.mpr fun a ha => ?_
    have hp := h a ha
    cases a <;> first | rfl | cases hp
  rw [answered, hnil, List.filter_nil, List.flatMap_nil]

/-- Dropping the transport and plain actions keep the invariant. -/
theorem Pairing.congr {c c' : Conn} (h : Pairing answer c)
    (ht : c'.client.transport = c.client.transport ∨ c'.client.transport = none)
    (hparser : c'.client.parser = c.client.parser) (hrequest : c'.request = c.request)
    (htransports : c'.transports = c.transports) {more : List Action}
    (htrace : c'.trace = c.trace ++ more) (hmore : ∀ a ∈ more, plain a = true) :
    Pairing answer c' := by
  have hback : ∀ a ∈ c'.trace, plain a = false → a ∈ c.trace := fun a ha hp => by
    rw [htrace, List.mem_append] at ha
    exact ha.resolve_right fun hm => absurd ((hmore a hm).symm.trans hp) (by simp)
  have hfront : ∀ a ∈ c.trace, a ∈ c'.trace := fun a ha => htrace ▸ List.mem_append_left _ ha
  have hanswered : ∀ k, answered k c'.trace = answered k c.trace := fun k => by
    rw [htrace, answered_append, answered_plain hmore, List.append_nil]
  have htransport : ∀ t, c'.client.transport = some t → c.client.transport = some t := fun t h' => by
    rcases ht with ht | ht
    · exact ht ▸ h'
    · exact absurd (ht.symm.trans h') (by simp)
  constructor
  · exact fun t j k bytes hm hne => h.paired t j k bytes (hback _ hm rfl) hne
  · intro t k b o hm
    obtain ⟨hk, hlt, complete, hb⟩ := h.sent t k b o (hback _ hm rfl)
    exact ⟨hrequest ▸ hk, htransports ▸ hlt, complete, hfront _ hb⟩
  · exact fun t k complete hm => htransports ▸ h.began t k complete (hback _ hm rfl)
  · exact fun t h' => htransports ▸ h.known t (htransport t h')
  · intro t h' k b o hm hk
    exact (h.past t (htransport t h') k b o (hback _ hm rfl) (hrequest ▸ hk)).imp
      (fun ha => (hanswered k).trans ha) fun hc => hfront _ hc
  · intro t h' hopen complete hm
    rw [hrequest] at hm ⊢
    rw [hparser, hanswered]
    exact h.now t (htransport t h') (fun hc => hopen (hfront _ hc)) complete (hback _ hm rfl)

/-- The head of the current request goes out. -/
theorem Pairing.sendHead {c : Conn} (h : Pairing answer c) {t : ℕ} {complete : Bool}
    (hbegan : .began t c.request complete ∈ c.trace) (b : Bytes) (o : Result ℕ) :
    Pairing answer (c.log (.sent t c.request .head b o)) := by
  have hanswered : ∀ k, answered k (c.trace ++ [Action.sent t c.request .head b o]) =
      answered k c.trace := fun k => by
    rw [answered_append, answered_other (by simp), List.append_nil]
  constructor
  · intro t' j k bytes hm hne
    exact h.paired t' j k bytes (by simpa using hm) hne
  · intro t' k b' o' hm
    rcases List.mem_append.mp hm with hm | hm
    · obtain ⟨hk, hlt, complete', hb⟩ := h.sent t' k b' o' hm
      exact ⟨hk, hlt, complete', List.mem_append_left _ hb⟩
    · obtain ⟨rfl, rfl, -, -, -⟩ := Action.sent.inj (List.mem_singleton.mp hm)
      exact ⟨Nat.le_refl _, h.began _ _ _ hbegan, complete, List.mem_append_left _ hbegan⟩
  · exact fun t' k f hm => h.began t' k f (by simpa using hm)
  · exact h.known
  · intro t' ht k b' o' hm hk
    rw [Conn.log_trace, hanswered]
    rcases List.mem_append.mp hm with hm | hm
    · exact (h.past t' ht k b' o' hm hk).imp_right fun hc => List.mem_append_left _ hc
    · obtain ⟨-, rfl, -, -, -⟩ := Action.sent.inj (List.mem_singleton.mp hm)
      exact absurd hk (Nat.lt_irrefl _)
  · intro t' ht hopen f hm
    rw [Conn.log_trace, Conn.log_request, hanswered]
    exact h.now t' ht (fun hc => hopen (List.mem_append_left _ hc)) f (by simpa using hm)

/-- A request begins: what its transport was asked before has been answered. -/
theorem Pairing.begin {c : Conn} (h : Pairing answer c) (hone : ∀ k, OneResponse (answer k))
    {t : ℕ} (ht : c.client.transport = some t)
    (hgood : Orderly answer (c.beginRequest t).trace) :
    Pairing answer (c.beginRequest t) := by
  have htrace : (c.beginRequest t).trace =
      c.trace ++ [Action.began t (c.request + 1) c.client.parser.isComplete] := rfl
  have hbefore : Orderly answer c.trace := (htrace ▸ hgood).of_append
  have hanswered : ∀ k, answered k (c.beginRequest t).trace = answered k c.trace := fun k => by
    rw [htrace, answered_append, answered_other (by simp), List.append_nil]
  have hnew : answered (c.request + 1) c.trace = [] := by
    rw [answered, List.flatMap_eq_nil_iff]
    intro x hx
    obtain ⟨hmem, hk⟩ := List.mem_filter.mp hx
    obtain ⟨a, ha, hax⟩ := List.mem_filterMap.mp hmem
    cases a with
    | data t' j k bytes fed =>
        obtain ⟨b, o, hs⟩ := hbefore.own_mem ha
        have hle := (h.sent t' k b o hs).1
        obtain rfl := Option.some.inj hax
        exact absurd (beq_iff_eq.mp hk) (by simp only; omega)
    | _ => exact absurd hax (by simp [payload])
  constructor
  · intro t' j k bytes hm hne
    exact h.paired t' j k bytes (by simpa [htrace] using hm) hne
  · intro t' k b o hm
    obtain ⟨hk, hlt', f, hb⟩ := h.sent t' k b o (by simpa [htrace] using hm)
    exact ⟨Nat.le_succ_of_le hk, hlt', f, List.mem_append_left _ hb⟩
  · intro t' k f hm
    rcases List.mem_append.mp (htrace ▸ hm) with hm | hm
    · exact h.began t' k f hm
    · obtain ⟨rfl, -, -⟩ := Action.began.inj (List.mem_singleton.mp hm)
      exact h.known _ ht
  · exact h.known
  · intro t' ht' k b o hm hk
    obtain rfl : t = t' := Option.some.inj (ht.symm.trans ht')
    have hm' : Action.sent t k .head b o ∈ c.trace := by simpa [htrace] using hm
    have hclosed : Action.closed t ∈ c.trace → Action.closed t ∈ (c.beginRequest t).trace :=
      fun hc => List.mem_append_left _ hc
    rw [hanswered]
    rcases Nat.lt_or_ge k c.request with hlt' | hge
    · exact (h.past t ht k b o hm' hlt').imp_right hclosed
    · -- The request that is current until now was sent here, so its response is complete.
      obtain rfl : k = c.request := Nat.le_antisymm (h.sent t k b o hm').1 hge
      by_cases hopen : Action.closed t ∈ c.trace
      · exact .inr (hclosed hopen)
      · obtain ⟨-, -, f, hb⟩ := h.sent t c.request b o hm'
        obtain ⟨pieces, hparser, hflat⟩ := h.now t ht hopen f hb
        have hcomplete : c.client.parser.isComplete = true := by
          have hpair := (List.pairwise_append.mp (htrace ▸ hgood).drained).2.2 _ hm' _
            (List.mem_singleton.mpr rfl)
          simpa [reusedEarly] using hpair
        left
        rw [← hflat]
        refine hone c.request pieces ?_ (hparser ▸ hcomplete)
        rw [hflat]
        exact hbefore.server.inOrder c.request
  · intro t' ht' hopen f hm
    refine ⟨[], rfl, ?_⟩
    rw [hanswered]
    exact hnew.symm

theorem feedAll_concat (p : HttpParser) (pieces : List Bytes) (piece : Bytes) :
    (p.feedAll (pieces ++ [piece])).2 = ((p.feedAll pieces).2.feed piece).2 := by
  induction pieces generalizing p with
  | nil => rfl
  | cons x xs ih => exact ih (p.feed x).2

theorem feedParser_feeds (client : SoftwareHttpClient) (bytes : Bytes) :
    (Conn.feedParser client bytes).parser = (client.parser.feed bytes).2 := by
  unfold Conn.feedParser Conn.handleBody
  dsimp only
  split <;> split <;> rfl

/-- What the client does with payload. -/
theorem onTransportData_cases (c : Conn) (t k : ℕ) (bytes : Bytes) :
    (c.client.parser.isComplete = true ∧
      c.onTransportData t k bytes = c.log (.data t c.request k bytes false)) ∨
    (c.client.parser.isComplete = false ∧
      c.onTransportData t k bytes =
        { c with client := Conn.feedParser c.client bytes }.log (.data t c.request k bytes true)) := by
  unfold Conn.onTransportData
  split
  · rename_i hc
    exact .inl ⟨hc, rfl⟩
  · rename_i hc
    exact .inr ⟨by simpa using hc, rfl⟩

/-- Payload that arrives belongs to the current request, or is empty. -/
theorem Pairing.data_owner {c : Conn} (h : Pairing answer c) {t k : ℕ} {bytes : Bytes} {fed : Bool}
    (ht : c.client.transport = some t)
    (hgood : Orderly answer (c.trace ++ [Action.data t c.request k bytes fed])) :
    Action.closed t ∉ c.trace ∧ (bytes ≠ [] → k = c.request) := by
  obtain ⟨b, o, hs⟩ := hgood.own
  have hopen : Action.closed t ∉ c.trace := fun hc => by
    have hpair := (List.pairwise_append.mp hgood.server.silent).2.2 _ hc _
      (List.mem_singleton.mpr rfl)
    simp [dataBehindClose] at hpair
  refine ⟨hopen, fun hne => ?_⟩
  by_contra hk
  have hlt : k < c.request := Nat.lt_of_le_of_ne (h.sent t k b o hs).1 hk
  have hdone := (h.past t ht k b o hs hlt).resolve_right hopen
  have horder := hgood.server.inOrder k
  rw [answered_append, answered_data, if_pos rfl, hdone] at horder
  have hlen := horder.length_le
  rw [List.length_append] at hlen
  exact hne (List.eq_nil_of_length_eq_zero (by omega))

/-- Payload keeps the invariant. -/
theorem Pairing.data {c : Conn} (h : Pairing answer c) (hone : ∀ k, OneResponse (answer k))
    {t k : ℕ} {bytes : Bytes} (ht : c.client.transport = some t)
    (hgood : Orderly answer (c.onTransportData t k bytes).trace) :
    Pairing answer (c.onTransportData t k bytes) := by
  -- `parser'` is what the parser is then, and `fed` says whether it was given the bytes.
  obtain ⟨fed, client', heq, hclient, hparser, hfed⟩ : ∃ fed client',
      c.onTransportData t k bytes = { c with client := client' }.log
        (.data t c.request k bytes fed) ∧
      client'.transport = c.client.transport ∧
      (fed = true → client'.parser = (c.client.parser.feed bytes).2) ∧
      (fed = false → c.client.parser.isComplete = true ∧ client'.parser = c.client.parser) := by
    rcases onTransportData_cases c t k bytes with ⟨hc, heq⟩ | ⟨hc, heq⟩
    · exact ⟨false, c.client, heq, rfl, by simp, fun _ => ⟨hc, rfl⟩⟩
    · exact ⟨true, _, heq, (Conn.feedParser_driver c.client bytes).1,
        fun _ => feedParser_feeds c.client bytes, by simp⟩
  have htrace : (c.onTransportData t k bytes).trace =
      c.trace ++ [Action.data t c.request k bytes fed] := by rw [heq]; rfl
  rw [htrace] at hgood
  obtain ⟨hopen, howner⟩ := h.data_owner ht hgood
  have hgrow : ∀ k', answered k' (c.trace ++ [Action.data t c.request k bytes fed]) =
      answered k' c.trace ++ if k = k' then bytes else [] := fun k' => by
    rw [answered_append, answered_data]
  rw [heq]
  constructor
  · intro t' j k' bytes' hm hne
    rcases List.mem_append.mp hm with hm | hm
    · exact h.paired t' j k' bytes' hm hne
    · obtain ⟨-, rfl, rfl, rfl, -⟩ := Action.data.inj (List.mem_singleton.mp hm)
      exact howner hne
  · intro t' k' b o hm
    obtain ⟨hk, hlt, f, hb⟩ := h.sent t' k' b o (by simpa using hm)
    exact ⟨hk, hlt, f, List.mem_append_left _ hb⟩
  · exact fun t' k' f hm => h.began t' k' f (by simpa using hm)
  · exact fun t' ht' => h.known t' (hclient ▸ ht')
  · intro t' ht' k' b o hm hk
    have hsame : (if k = k' then bytes else []) = [] := by
      split
      · rename_i hkk
        by_contra hne
        exact absurd (howner hne) (by simp only [Conn.log_request] at hk; omega)
      · rfl
    rw [Conn.log_trace, hgrow, hsame, List.append_nil]
    exact (h.past t' (hclient ▸ ht') k' b o (by simpa using hm) hk).imp_right fun hc =>
      List.mem_append_left _ hc
  · intro t' ht' hopen' f hm
    obtain rfl : t = t' := Option.some.inj (ht.symm.trans (hclient ▸ ht'))
    obtain ⟨pieces, hpieces, hflat⟩ := h.now t ht hopen f (by simpa using hm)
    have hbytes : (if k = c.request then bytes else []) = bytes := by
      split
      · rfl
      · rename_i hk
        by_contra hne
        exact hk (howner (Ne.symm hne))
    rw [Conn.log_trace, Conn.log_request, hgrow, hbytes]
    cases fed with
    | true =>
        refine ⟨pieces ++ [bytes], ?_, by rw [← hflat]; simp⟩
        rw [feedAll_concat, ← hpieces]
        exact hparser rfl
    | false =>
        obtain ⟨hcomplete, hsame⟩ := hfed rfl
        have hall : pieces.flatten = answer c.request := by
          refine hone c.request pieces ?_ (hpieces ▸ hcomplete)
          rw [hflat]
          exact hgood.of_append.server.inOrder c.request
        have hnil : bytes = [] := by
          have horder := hgood.server.inOrder c.request
          rw [hgrow, hbytes, ← hflat, hall] at horder
          have hlen := horder.length_le
          rw [List.length_append] at hlen
          exact List.eq_nil_of_length_eq_zero (by omega)
        exact ⟨pieces, hsame.trans hpieces, by rw [hnil, List.append_nil, hflat]⟩

/-- Behind its close nothing is asked of a transport. -/
theorem Pairing.close {c : Conn} (h : Pairing answer c) {t : ℕ}
    (ht : c.client.transport = some t) : Pairing answer (c.onTransportClosed t) := by
  have hclosed : Action.closed t ∈ (c.onTransportClosed t).trace :=
    List.mem_append_right _ (List.mem_singleton.mpr rfl)
  constructor
  · exact fun t' j k bytes hm => h.paired t' j k bytes (by simpa [Conn.onTransportClosed] using hm)
  · intro t' k b o hm
    obtain ⟨hk, hlt, f, hb⟩ := h.sent t' k b o (by simpa [Conn.onTransportClosed] using hm)
    exact ⟨hk, hlt, f, List.mem_append_left _ hb⟩
  · exact fun t' k f hm => h.began t' k f (by simpa [Conn.onTransportClosed] using hm)
  · exact h.known
  · intro t' ht' k b o hm hk
    obtain rfl : t = t' := Option.some.inj (ht.symm.trans ht')
    exact .inr hclosed
  · intro t' ht' hopen
    obtain rfl : t = t' := Option.some.inj (ht.symm.trans ht')
    exact absurd hclosed hopen

/-- A new transport carries nothing yet. -/
theorem Pairing.attach {c : Conn} (h : Pairing answer c) (tls : Bool) (config : TlsConfig) :
    Pairing answer (c.attach tls config) := by
  constructor
  · exact fun t j k bytes hm => h.paired t j k bytes (by simpa [Conn.attach] using hm)
  · intro t k b o hm
    obtain ⟨hk, hlt, f, hb⟩ := h.sent t k b o (by simpa [Conn.attach] using hm)
    exact ⟨hk, Nat.lt_succ_of_lt hlt, f, List.mem_append_left _ hb⟩
  · exact fun t k f hm => Nat.lt_succ_of_lt (h.began t k f (by simpa [Conn.attach] using hm))
  · intro t ht
    obtain rfl := Option.some.inj ht
    exact Nat.lt_succ_self _
  · intro t ht k b o hm hk
    obtain rfl := Option.some.inj ht
    exact absurd (h.sent _ k b o (by simpa [Conn.attach] using hm)).2.1 (Nat.lt_irrefl _)
  · intro t ht hopen f hm
    obtain rfl := Option.some.inj ht
    exact absurd (h.began _ _ f (by simpa [Conn.attach] using hm)) (Nat.lt_irrefl _)

/-- Events keep the invariant. -/
theorem Pairing.handle {c : Conn} (h : Pairing answer c) (hone : ∀ k, OneResponse (answer k))
    (e : Event) (hgood : Orderly answer (c.handle e).trace) : Pairing answer (c.handle e) := by
  cases ht : c.client.transport with
  | none =>
      have heq : c.handle e = c := by simp [Conn.handle, ht]
      rwa [heq]
  | some t =>
      cases e with
      | data k bytes =>
          have heq : c.handle (.data k bytes) = c.onTransportData t k bytes := by
            simp [Conn.handle, ht]
          rw [heq] at hgood ⊢
          exact h.data hone ht hgood
      | closed =>
          have heq : c.handle .closed = c.onTransportClosed t := by simp [Conn.handle, ht]
          rw [heq]
          exact h.close ht
      | error e =>
          have heq : c.handle (.error e) = c.onTransportError e := by simp [Conn.handle, ht]
          rw [heq]
          exact h.congr (.inl rfl) rfl rfl rfl (List.append_nil _).symm (by simp)

theorem Pairing.handleAll {c : Conn} (h : Pairing answer c) (hone : ∀ k, OneResponse (answer k))
    (es : List Event) (hgood : Orderly answer (c.handleAll es).trace) :
    Pairing answer (c.handleAll es) := by
  induction es generalizing c with
  | nil => exact h
  | cons e es ih =>
      rw [Conn.handleAll_cons] at hgood ⊢
      obtain ⟨more, hmore, -⟩ := (c.handle e).handleAll_trace es
      exact ih (h.handle hone e (hmore ▸ hgood).of_append) hgood

theorem Pairing.dropped {c : Conn} (h : Pairing answer c) : Pairing answer c.dropTransport := by
  obtain ⟨m, hm, hall⟩ := c.dropTransport_trace
  refine h.congr (.inr rfl) rfl ?_ c.dropTransport_transports hm fun a ha => ?_
  · unfold Conn.dropTransport
    split <;> rfl
  · obtain ⟨t, rfl⟩ := hall a ha
    rfl

/-- A request begins, its head goes out, and events arrive. -/
theorem Pairing.started {c : Conn} (h : Pairing answer c) (hone : ∀ k, OneResponse (answer k))
    {t : ℕ} {es es' : List Event} {bytes : Bytes} {outcome : Result ℕ}
    (ht : c.client.transport = some t)
    (hgood : Orderly answer (c.started t es bytes outcome es').trace) :
    Pairing answer (c.started t es bytes outcome es') := by
  unfold Conn.started at hgood ⊢
  dsimp only at hgood ⊢
  obtain ⟨m', hm', -⟩ := (((c.beginRequest t).handleAll es).log
    (.sent t ((c.beginRequest t).handleAll es).request .head bytes outcome)).handleAll_trace es'
  have hsent : Orderly answer ((c.beginRequest t).handleAll es).trace :=
    (hm' ▸ hgood).of_append.of_append
  obtain ⟨m, hm, -⟩ := (c.beginRequest t).handleAll_trace es
  have hbegin := h.begin hone ht (hm ▸ hsent).of_append
  have hevents := hbegin.handleAll hone es hsent
  have hrequest := ((c.beginRequest t).handleAll_sameDriver es).request
  have hbegan : .began t ((c.beginRequest t).handleAll es).request c.client.parser.isComplete ∈
      ((c.beginRequest t).handleAll es).trace := by
    rw [hrequest, hm]
    exact List.mem_append_left _ (List.mem_append_right _ (List.mem_singleton.mpr rfl))
  exact (hevents.sendHead hbegan bytes outcome).handleAll hone es' hgood

/-- Every atomic step of an orderly run keeps the invariant. -/
theorem Pairing.step (hone : ∀ k, OneResponse (answer k)) {c c' : Conn} (hstep : c.Atomic c')
    (hgood : Orderly answer c'.trace) (h : Pairing answer c) : Pairing answer c' := by
  have hdrop : ∀ c : Conn, Orderly answer c.dropTransport.trace → Orderly answer c.trace :=
    fun c hg => by
      obtain ⟨m, hm, -⟩ := c.dropTransport_trace
      exact (hm ▸ hg).of_append
  cases hstep with
  | event e => exact h.handle hone e hgood
  | quiet hs =>
      exact h.congr (.inl hs.transport) hs.parser hs.request hs.transports
        (hs.trace.trans (List.append_nil _).symm) (by simp)
  | drop => exact h.dropped
  | attach tls config ht hup => exact h.attach tls config
  | connected t url => exact h.congr (.inl rfl) rfl rfl rfl rfl (by simp [plain])
  | plain es es' ht hup hb => exact h.started hone ht hgood
  | chunked es es' ht hup hb =>
      exact (h.started hone ht hgood).congr (.inl rfl) rfl rfl rfl (List.append_nil _).symm (by simp)
  | headLost es es' ht hup hb => exact (h.started hone ht (hdrop _ hgood)).dropped
  | chunk ht hup hne hlen => exact h.congr (.inl rfl) rfl rfl rfl rfl (by simp [plain])
  | terminator ht hup => exact h.congr (.inl rfl) rfl rfl rfl rfl (by simp [plain])
  | @pieceLost t part bytes outcome active es ht hup hb hlost =>
      have hpart : plain (.sent t c.request part bytes outcome) = true := by cases hb <;> rfl
      have hsent : Pairing answer ((if active then c else c.endUpload).log
          (.sent t c.request part bytes outcome)) := by
        cases active <;> exact h.congr (.inl rfl) rfl rfl rfl rfl (by simpa using hpart)
      exact (hsent.handleAll hone es (hdrop _ hgood)).dropped
  | answered hup =>
      unfold Conn.answerEarly
      split
      · exact h.congr (.inl rfl) rfl rfl rfl (List.append_nil _).symm (by simp)
      · exact h.congr (.inl rfl) rfl rfl rfl rfl (by simp [plain])
  | lost ht => exact h.congr (.inl rfl) rfl rfl rfl (List.append_nil _).symm (by simp)

/-- In every orderly run every byte that is fed to the parser answers the current request. -/
theorem run_paired (env : Env) (calls : List Call) (hone : ∀ k, OneResponse (answer k))
    (hserver : ServerAnswers answer (run env calls).trace)
    (hdrained : Drained (run env calls).trace) : Paired (run env calls).trace := by
  have hall : Orderly answer (run env calls).trace → Pairing answer (run env calls).toConn := by
    refine run_invariant env (fun c => Orderly answer c.trace → Pairing answer c) (fun _ => True)
      ?_ ?_ ?_ calls fun _ _ => trivial
    · exact fun _ => ⟨fun _ _ _ _ h => absurd h (by simp), fun _ _ _ _ h => absurd h (by simp),
        fun _ _ _ h => absurd h (by simp), fun _ h => absurd h (by simp),
        fun _ h => absurd h (by simp), fun _ h => absurd h (by simp)⟩
    · intro c c' hstep hI hgood
      obtain ⟨more, htrace⟩ := hstep.trace
      exact .step hone hstep hgood (hI (htrace ▸ hgood).of_append)
    · intro c call _ hI hgood
      refine (hI hgood).congr (.inl ?_) ?_ rfl rfl (List.append_nil _).symm (by simp) <;>
        cases call <;> rfl
  exact (hall ⟨hserver, hdrained⟩).paired

/-- A response is one where no line of its prefixes ends in a bare LF and no shorter one is
complete. -/
theorem oneResponse_of_prefixes {a : Bytes}
    (h : ∀ n ≤ a.length, (∀ line ∈ linesRead true (a.take n), lf ∉ line) ∧
      (((fresh true).feed (a.take n)).2.isComplete = true → a.length ≤ n)) : OneResponse a := by
  intro pieces hpre hcomplete
  have htake : pieces.flatten = a.take pieces.flatten.length := List.prefix_iff_eq_take.mp hpre
  obtain ⟨hlines, hlong⟩ := h pieces.flatten.length hpre.length_le
  rw [← htake] at hlines hlong
  rw [(feedAll_eq_feed hlines).1] at hcomplete
  exact htake.trans (List.take_of_length_le (hlong hcomplete))

theorem oneResponse_nil : OneResponse [] := fun _ hpre _ => List.prefix_nil.mp hpre

end

/-! ## A run that is orderly and one that is not -/

/-- A response of one body byte. -/
def shortAnswer : Bytes :=
  ascii ['H', 'T', 'T', 'P', '/', '1', '.', '1', ' ', '2', '0', '0', '\r', '\n',
    'C', 'o', 'n', 't', 'e', 'n', 't', '-', 'L', 'e', 'n', 'g', 't', 'h', ':', '1', '\r', '\n',
    '\r', '\n', 'a']

theorem shortAnswer_oneResponse : @OneResponse esp32 shortAnswer :=
  letI := esp32
  oneResponse_of_prefixes (by decide)

/-- A server that answers the first `n` requests with it. -/
def shortAnswers (n k : ℕ) : Bytes := if 1 ≤ k ∧ k ≤ n then shortAnswer else []

theorem shortAnswers_oneResponse (n k : ℕ) : @OneResponse esp32 (shortAnswers n k) := by
  unfold shortAnswers
  split
  · exact shortAnswer_oneResponse
  · exact @oneResponse_nil esp32

/-- Two requests on one connection, the second when the first has been answered. -/
def pairedEnv : Env := scripted [102, 102] [(5, .data 1 shortAnswer), (10, .data 2 shortAnswer)]

def pairedCalls : List Call :=
  [.setKeepAlive true, .execute methodGet exampleUrl, .execute methodGet exampleUrl]

theorem pairedCalls_paired : Paired (@run esp32 pairedEnv pairedCalls).trace := by
  have hpayload : (@run esp32 pairedEnv pairedCalls).trace.filterMap payload =
      [(1, shortAnswer), (2, shortAnswer)] := rfl
  refine @run_paired (shortAnswers 2) esp32 pairedEnv pairedCalls (shortAnswers_oneResponse 2)
    ⟨by decide, fun k => ?_, by decide⟩ (by decide)
  rw [answered, hpayload]
  by_cases h₁ : k = 1
  · subst h₁
    decide
  · by_cases h₂ : k = 2
    · subst h₂
      decide
    · simp [Ne.symm h₁, Ne.symm h₂]

/-- The last byte of a response arrives behind the next request. -/
def undrainedEnv : Env :=
  scripted [102, 102] [(5, .data 1 (shortAnswer.take 34)), (11, .data 1 (shortAnswer.drop 34))]

/-- `Open` returns with the head of the response, and the connection is used again. -/
def undrainedCalls : List Call :=
  [.setKeepAlive true, .open methodGet exampleUrl, .open methodGet exampleUrl]

/-- The server sends one response, and its last byte is fed to the parser of the request
behind it. -/
theorem undrained_not_paired : (∀ k, @OneResponse esp32 (shortAnswers 1 k)) ∧
    ServerAnswers (shortAnswers 1) (@run esp32 undrainedEnv undrainedCalls).trace ∧
      ¬Paired (@run esp32 undrainedEnv undrainedCalls).trace := by
  have hpayload : (@run esp32 undrainedEnv undrainedCalls).trace.filterMap payload =
      [(1, shortAnswer.take 34), (1, shortAnswer.drop 34)] := rfl
  refine ⟨shortAnswers_oneResponse 1, ⟨by decide, fun k => ?_, by decide⟩, fun h => ?_⟩
  · rw [answered, hpayload]
    by_cases h₁ : k = 1
    · subst h₁
      decide
    · simp [Ne.symm h₁]
  · have hfed : (@run esp32 undrainedEnv undrainedCalls).trace[7]? =
        some (Action.data 0 2 1 (shortAnswer.drop 34) true) := rfl
    exact absurd (h 0 2 1 _ (List.mem_of_getElem? hfed) (by decide)) (by decide)

end EspModemLink.Http
