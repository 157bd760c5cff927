import EspModemLink.Air780e.ReadReplies
import EspModemLink.Air780e.ModeSteps

/-!
# Announced data

The module announces an arrival once. `rx_pending_` is cleared before the pass that reads, so every
way out of the pass has to find the socket empty or put the flag back. One of them does neither: a
datagram whose sender is not known ends the pass with whatever is behind it.
-/

namespace EspModemLink.Air780e

open Bytes AtParser Sections Hal

/-! ## The sections of the receive loop and of the lines -/

/-- A section that reads or leads to a read. -/
def Sect.passing : Sect → Bool
  | .collect | .drain .. | .readType .. | .cipRxGet .. | .readReply .. | .readPeer .. => true
  | _ => false

/-- A section that passes and lines come to and that neither reads nor touches a flag or a slot. -/
def Sect.calm : Sect → Bool
  | .finish _ | .forgetClose _ | .checkOwner .. | .releaseOwned _ | .clearSendWait _ => true
  | .discard _ | .notePeerClosed .. | .closeOk .. | .shutOk | .openResult .. => true
  | .sendOk _ | .sendFail _ | .dispatchTcpData .. | .dispatchTcpClose .. => true
  | .dispatchUdpData .. | .onData .. | .onClose .. | .onUdpData .. => true
  | _ => false

/-- The sections that passes and lines come to, but for those that read and the one that clears the
flag. -/
def Sect.inert : Sect → Bool
  | .rearm _ | .arrival .. | .recordClose .. | .retire .. => true
  | k => k.calm

def Sect.isReply : Sect → Bool
  | .readReply .. => true
  | _ => false

/-- Everything that the sections of passes and lines can do to the flags, the senders, the slots and
the response. -/
inductive ReceiveStep (s s' : Air780eHal) : Sect → List Sect → Prop where
  | quiet {k : Sect} {ks : List Sect} (calm : k.calm = true ∨ ∃ id b, k = .retire id b)
      (pool : s'.pool = s.pool) (pending : s'.receiver.pending = s.receiver.pending)
      (peer : s'.receiver.peer = s.receiver.peer) (lines : s'.responseLines = s.responseLines)
      (left : ks.all Sect.inert = true) : ReceiveStep s s' k ks
  | raise {k : Sect} (id : Cid)
      (cause : k = .rearm id ∨ (∃ peer, k = .arrival id peer) ∨
        ∃ serial gen, k = .recordClose id serial gen)
      (pool : s'.pool = s.pool)
      (pending : s'.receiver.pending = Function.update s.receiver.pending id true)
      (peer : ∀ id' ≠ id, s'.receiver.peer id' = s.receiver.peer id')
      (lines : s'.responseLines = s.responseLines) : ReceiveStep s s' k []
  | collect (state : s' = { s with receiver := s.receiver.collect.2 }) :
      ReceiveStep s s' .collect (s.receiver.collect.1.map (.drain · 0))
  | drain (id : Cid) (drained : ℕ) (state : s' = s) :
      ReceiveStep s s' (.drain id drained) (s.drain id drained)
  | readType (id : Cid) (drained : ℕ) (state : s' = s) :
      ReceiveStep s s' (.readType id drained) [.cipRxGet id drained (s.pool.slots id).udp]
  | readReply (id : Cid) (drained : ℕ) (udp : Bool) (own : List Bytes) (state : s' = s) :
      ReceiveStep s s' (.readReply id drained udp own) (s.readReply id drained udp)
  | readPeer (id : Cid) (drained gen : ℕ) (data : Bytes) (state : s' = s) :
      ReceiveStep s s' (.readPeer id drained gen data)
        (Air780eHal.dispatchFrom id drained gen (s.receiver.peer id) data)
  | retire (id : Cid) (releases : Bool) (ks : List Sect) (receiver : s'.receiver = s.receiver)
      (lines : s'.responseLines = s.responseLines)
      (slots : s'.pool.slots = Function.update s.pool.slots id {})
      (left : ∀ k ∈ ks, k = .clearReceiver id ∨ k.inert = true) : ReceiveStep s s' (.retire id releases) ks
  | clear (id : Cid) (state : s' = { s with receiver := s.receiver.clear id }) :
      ReceiveStep s s' (.clearReceiver id) []

section

variable {i : ℕ} {k : Sect} {c : Choice} {s s' : Air780eHal} {ks : List Sect}

theorem inert_map {α : Type} (f : α → Sect) (hf : ∀ a, (f a).inert = true) (l : List α) :
    (l.map f).all Sect.inert = true := by
  rw [List.all_map, List.all_eq_true]
  exact fun a _ => hf a

theorem inert_notePeerClosed (s : Air780eHal) (id : Cid) (gen : ℕ) :
    (s.notePeerClosed id gen).all Sect.inert = true := by
  unfold Air780eHal.notePeerClosed
  by_cases hserial : (if (s.pool.slots id).used then (s.pool.slots id).serial else 0) = 0
  · simp [hserial]
  · rw [if_neg hserial]
    rfl

theorem exec_calm (hk : k.calm = true) (h : Air780eHal.exec i k c s = some (s', ks)) :
    ReceiveStep s s' k ks := by
  have hall : s'.pool = s.pool ∧ s'.receiver.pending = s.receiver.pending ∧
      s'.receiver.peer = s.receiver.peer ∧ s'.responseLines = s.responseLines ∧
      ks.all Sect.inert = true := by
    cases k <;> first
      | (cases hk; done)
      | cases c
    all_goals first
      | (cases h; done)
      | (obtain ⟨rfl, rfl⟩ := Prod.mk.inj (Option.some.inj h); refine ⟨rfl, rfl, rfl, rfl, ?_⟩)
      | (obtain ⟨-, h⟩ := Option.ite_none_right_eq_some.mp h
         obtain ⟨rfl, rfl⟩ := Prod.mk.inj (Option.some.inj h); refine ⟨rfl, rfl, rfl, rfl, ?_⟩)
    all_goals first
      | rfl
      | exact inert_notePeerClosed s _ _
      | exact inert_map _ (fun _ => rfl) _
      | (split <;> rfl)
  obtain ⟨hpool, hpending, hpeer, hlines, hleft⟩ := hall
  exact .quiet (.inl hk) hpool hpending hpeer hlines hleft

theorem retire_receiveStep {id : Cid} {releases : Bool} (h : s.retire id releases = (s', ks)) :
    ReceiveStep s s' (.retire id releases) ks := by
  unfold Air780eHal.retire at h
  split at h
  · obtain ⟨rfl, rfl⟩ := Prod.mk.inj h
    exact .quiet (.inr ⟨id, releases, rfl⟩) rfl rfl rfl rfl rfl
  · rename_i owned pool hretire
    obtain ⟨rfl, rfl⟩ := Prod.mk.inj h
    rw [Pool.retire] at hretire
    obtain ⟨-, hretire⟩ := Option.ite_none_right_eq_some.mp hretire
    obtain ⟨-, rfl⟩ := Prod.mk.inj (Option.some.inj hretire)
    refine .retire id releases _ rfl rfl rfl ?_
    intro k hk
    obtain hk | hk := List.mem_append.mp hk
    · simp only [List.mem_cons, List.not_mem_nil, or_false] at hk
      obtain rfl | rfl | rfl := hk
      · exact .inl rfl
      · exact .inr rfl
      · exact .inr rfl
    · right
      split at hk
      · obtain ⟨ssl, -, rfl⟩ := List.mem_map.mp hk
        rfl
      · cases hk

/-- What the sections of passes and lines do, but for the commands that read. -/
theorem exec_receiveStep (hk : k.passing = true ∨ k.inert = true ∨ ∃ id, k = .clearReceiver id)
    (hcommand : ∀ id drained udp, k ≠ .cipRxGet id drained udp)
    (h : Air780eHal.exec i k c s = some (s', ks)) : ReceiveStep s s' k ks := by
  by_cases hcalm : k.calm = true
  · exact exec_calm hcalm h
  · cases k with
    | collect =>
        cases c with
        | go =>
            obtain ⟨rfl, rfl⟩ := Prod.mk.inj (Option.some.inj h)
            exact .collect rfl
        | _ => cases h
    | drain id drained =>
        cases c with
        | go =>
            obtain ⟨rfl, rfl⟩ := Prod.mk.inj (Option.some.inj h)
            exact .drain id drained rfl
        | _ => cases h
    | readType id drained =>
        cases c with
        | go =>
            obtain ⟨rfl, rfl⟩ := Prod.mk.inj (Option.some.inj h)
            exact .readType id drained rfl
        | _ => cases h
    | cipRxGet id drained udp => exact absurd rfl (hcommand id drained udp)
    | readReply id drained udp own =>
        cases c with
        | go =>
            obtain ⟨rfl, rfl⟩ := Prod.mk.inj (Option.some.inj h)
            exact .readReply id drained udp own rfl
        | _ => cases h
    | readPeer id drained gen data =>
        cases c with
        | go =>
            obtain ⟨rfl, rfl⟩ := Prod.mk.inj (Option.some.inj h)
            exact .readPeer id drained gen data rfl
        | _ => cases h
    | rearm id =>
        cases c with
        | go =>
            obtain ⟨rfl, rfl⟩ := Prod.mk.inj (Option.some.inj h)
            exact .raise id (.inl rfl) rfl rfl (fun _ _ => rfl) rfl
        | _ => cases h
    | arrival id peer =>
        cases c with
        | go =>
            obtain ⟨rfl, rfl⟩ := Prod.mk.inj (Option.some.inj h)
            refine .raise id (.inr (.inl ⟨peer, rfl⟩)) rfl ?_ ?_ rfl
            · cases peer <;> rfl
            · intro id' hid
              cases peer with
              | none => rfl
              | some peer => exact Function.update_of_ne hid _ _
        | _ => cases h
    | recordClose id serial gen =>
        cases c with
        | go =>
            obtain ⟨rfl, rfl⟩ := Prod.mk.inj (Option.some.inj h)
            exact .raise id (.inr (.inr ⟨serial, gen, rfl⟩)) rfl rfl (fun _ _ => rfl) rfl
        | _ => cases h
    | retire id releases =>
        cases c with
        | go => exact retire_receiveStep (Option.some.inj h)
        | _ => cases h
    | clearReceiver id =>
        cases c with
        | go =>
            obtain ⟨rfl, rfl⟩ := Prod.mk.inj (Option.some.inj h)
            exact .clear id rfl
        | _ => cases h
    | _ =>
        obtain hk | hk | ⟨id, hk⟩ := hk
        · cases hk
        · exact absurd hk hcalm
        · cases hk

end

/-! ## The module and the driver -/

/-- What the module holds for each connection, the bytes of a stream one by one or whole datagrams,
and how many of these it has announced. -/
structure Module where
  held : Cid → List Bytes := fun _ => []
  announced : Cid → ℕ := fun _ => 0

namespace Module

def arrive (m : Module) (id : Cid) (pieces : List Bytes) : Module :=
  { m with held := Function.update m.held id (m.held id ++ pieces) }

/-- Everything that is there by now has been announced. -/
def announce (m : Module) (id : Cid) : Module :=
  { m with announced := Function.update m.announced id (m.held id).length }

def read (m : Module) (id : Cid) (count : ℕ) : Module :=
  { held := Function.update m.held id ((m.held id).drop count)
    announced := Function.update m.announced id (m.announced id - count) }

/-- A read gives something where something is held, and one datagram at a time. -/
def Gives (m : Module) (id : Cid) (udp : Bool) (count : ℕ) : Prop :=
  count ≤ (m.held id).length ∧ (count = 0 → m.held id = []) ∧ (udp = true → count ≤ 1)

instance (m : Module) (id : Cid) (udp : Bool) (count : ℕ) : Decidable (m.Gives id udp count) :=
  inferInstanceAs (Decidable (_ ∧ _ ∧ _))

end Module

structure World where
  module : Module := {}
  cfg : Config

/-- Something arrives in the module, a line reaches the driver, a pass of the receive loop begins, a
thread goes on, or the module answers the read of a thread. -/
inductive Event where
  | arrive (id : Cid) (pieces : List Bytes)
  | line (line : Bytes) (gen : ℕ)
  | receive
  | go (i : ℕ) (c : Choice)
  | read (i count : ℕ) (more : Option Bytes) (hex : Bytes) (gen : ℕ)

/-- The header of a reply that carries the bytes. -/
def headerFor (data : Bytes) (more : Option Bytes) : Header := { length := data.length, more := more }

/-- A well-formed reply. -/
def replyLines (id : Cid) (data : Bytes) (more : Option Bytes) (hex : Bytes) : List Bytes :=
  (headerFor data more).line id :: if data = [] then [] else [hex]

namespace World

/-- The section in front of a thread. -/
def front (w : World) (i : ℕ) : Option Sect := w.cfg.threads[i]?.bind List.head?

/-- An arrival is announced as its line is handled. -/
def announced (w : World) (i : ℕ) : Module :=
  match w.front i with
  | some (.arrival id _) => w.module.announce id
  | _ => w.module

/-- A pass begins when the one before is over. The module answers every read. -/
def step : Runs.Step World Event
  | w, .arrive id pieces =>
      if ∀ piece ∈ pieces, piece ≠ [] then some { w with module := w.module.arrive id pieces } else none
  | w, .line line gen => (program.step w.cfg (.start (.line line gen))).map fun cfg => { w with cfg := cfg }
  | w, .receive =>
      if Free Sect.passing w.cfg then
        (program.step w.cfg (.start .receive)).map fun cfg => { w with cfg := cfg }
      else none
  | w, .go i c =>
      match w.front i with
      | some (.cipRxGet ..) => none
      | _ => (program.step w.cfg (.run i c)).map fun cfg => ⟨w.announced i, cfg⟩
  | w, .read i count more hex gen =>
      match w.front i with
      | some (.cipRxGet id _ udp) =>
          let data := ((w.module.held id).take count).flatten
          if w.module.Gives id udp count ∧ HexOf hex data ∧ data.length < 2 ^ 31 then
            (program.step w.cfg (.run i (.answer (.ok ()) (replyLines id data more hex) gen))).map
              fun cfg => ⟨w.module.read id count, cfg⟩
          else none
      | _ => none

end World

/-! ## What is not stranded -/

/-- A section of a pass that reads the connection again, or puts its flag back. -/
def Sect.WillRead (s : Air780eHal) (id : Cid) : Sect → Prop
  | .drain id' _ | .readType id' _ | .cipRxGet id' _ _ | .rearm id' => id' = id
  | .readReply id' _ udp _ => id' = id ∧
      ∃ data source, readPayload id s.responseLines = some (data, source) ∧ SenderKnown s id udp source
  | .readPeer id' _ _ _ => id' = id ∧ SenderKnown s id true []
  | _ => False

instance Sect.WillRead.decidable (s : Air780eHal) (id : Cid) (k : Sect) :
    Decidable (k.WillRead s id) := by
  unfold WillRead
  split
  case h_5 id' drained udp own =>
    exact decidable_of_iff
      (id' = id ∧ ∃ r ∈ (readPayload id s.responseLines).toList, SenderKnown s id udp r.2)
      (by simp)
  all_goals infer_instance

namespace World

/-- Where announced data is left for a used connection, its flag is set or a pass will read it. -/
def NothingStranded (w : World) : Prop :=
  ∀ id, (w.cfg.shared.pool.slots id).used = true → w.module.announced id ≠ 0 →
    w.cfg.shared.receiver.pending id = true ∨ Remains (Sect.WillRead w.cfg.shared id) w.cfg

/-- A read that leaves announced data behind, with the flag not set, finds out who sent its datagram. -/
def Attributed (w : World) : Event → Prop
  | .read i count more _ _ =>
      match w.front i with
      | some (.cipRxGet id _ udp) =>
          (w.cfg.shared.pool.slots id).used = true → count < w.module.announced id →
            w.cfg.shared.receiver.pending id = false →
            SenderKnown w.cfg.shared id udp
              (sourceOf ((headerFor ((w.module.held id).take count).flatten more).line id))
      | _ => True
  | _ => True

instance Attributed.decidable (w : World) (e : Event) : Decidable (w.Attributed e) := by
  unfold Attributed
  split
  · split <;> infer_instance
  · infer_instance

instance NothingStranded.decidable (w : World) : Decidable w.NothingStranded :=
  inferInstanceAs (Decidable
    (∀ id, _ → _ → _ ∨ ∃ q ∈ w.cfg.threads, ∃ k ∈ q, k.WillRead w.cfg.shared id))

end World

/-! ## One pass at a time -/

/-- At most one thread is in a pass, and nothing but its next section is about to look at a reply. -/
def OnePass (cfg : Config) : Prop :=
  Free Sect.passing cfg ∨
    ∃ i owned, Owns Sect.passing i owned cfg ∧ ∀ k ∈ owned.tail, k.isReply = false

/-- What a section leaves to the pass. -/
structure GoesOn (k : Sect) (ks : List Sect) : Prop where
  passing : k.passing = false → ks.filter Sect.passing = []
  reply : ∀ k' ∈ (ks.filter Sect.passing).tail, k'.isReply = false

section

variable {i : ℕ} {k : Sect} {s s' : Air780eHal} {ks rest : List Sect} {cfg : Config}

theorem passing_of_inert {k : Sect} (h : k.inert = true) : k.passing = false := by
  cases k <;> first | rfl | cases h

theorem filter_passing_of_inert {ks : List Sect} (h : ∀ k ∈ ks, k.passing = false) :
    ks.filter Sect.passing = [] :=
  List.filter_eq_nil_iff.mpr fun k hk => by simp [h k hk]

theorem OnePass.run (h : OnePass cfg) (hget : cfg.threads[i]? = some (k :: rest))
    (hgoes : GoesOn k ks) (s' : Air780eHal) : OnePass ⟨s', cfg.threads.set i (ks ++ rest)⟩ := by
  cases hk : k.passing with
  | false =>
      have hnone := hgoes.passing hk
      obtain hfree | ⟨j, owned, howns, htail⟩ := h
      · exact .inl (hfree.run s' hget hnone)
      · exact .inr ⟨j, owned, howns.other s' hget hk hnone, htail⟩
  | true =>
      obtain hfree | ⟨j, owned, howns, htail⟩ := h
      · rw [(hfree.front hget).1] at hk
        cases hk
      · obtain ⟨rfl, rfl⟩ := howns.front hget hk
        refine .inr ⟨i, _, howns.own s' ks hget hk, ?_⟩
        intro k' hk'
        cases hks : ks.filter Sect.passing with
        | nil =>
            rw [hks, List.nil_append] at hk'
            exact htail k' (List.mem_of_mem_tail hk')
        | cons x xs =>
            rw [hks] at hk'
            obtain hk' | hk' := List.mem_append.mp hk'
            · exact hgoes.reply k' (by rw [hks]; exact hk')
            · exact htail k' hk'

/-- While a read is being made, no thread is about to look at a reply. -/
theorem OnePass.no_reply (h : OnePass cfg) (hget : cfg.threads[i]? = some (k :: rest))
    (hk : k.passing = true) (hreply : k.isReply = false) :
    ∀ q ∈ cfg.threads, ∀ k' ∈ q, k'.isReply = false := by
  obtain hfree | ⟨j, owned, howns, htail⟩ := h
  · rw [(hfree.front hget).1] at hk
    cases hk
  · obtain ⟨rfl, rfl⟩ := howns.front hget hk
    intro q hq k' hk'
    cases hpassing : k'.passing with
    | false => cases k' <;> first | rfl | cases hpassing
    | true =>
        obtain ⟨l, hl⟩ := List.mem_iff_getElem?.mp hq
        have hmem : k' ∈ q.filter Sect.passing := List.mem_filter.mpr ⟨hk', hpassing⟩
        rw [howns.sections l q hl] at hmem
        split at hmem
        · obtain rfl | hmem := List.mem_cons.mp hmem
          · exact hreply
          · exact htail k' hmem
        · cases hmem

theorem filter_passing_dispatchFrom (id : Cid) (drained gen : ℕ) (peer data : Bytes) :
    (Air780eHal.dispatchFrom id drained gen peer data).filter Sect.passing =
      if (splitPeer peer).isSome then [.drain id (drained + data.length)] else [] := by
  unfold Air780eHal.dispatchFrom
  cases splitPeer peer <;> rfl

/-- A pass goes on with one section, but for its beginning. -/
theorem ReceiveStep.goesOn (h : ReceiveStep s s' k ks) : GoesOn k ks := by
  cases h with
  | quiet calm pool pending peer lines left =>
      have hnone := filter_passing_of_inert fun k hk =>
        passing_of_inert (List.all_eq_true.mp left k hk)
      exact ⟨fun _ => hnone, by simp [hnone]⟩
  | raise id cause pool pending peer lines => exact ⟨fun _ => rfl, by simp⟩
  | collect state =>
      refine ⟨nofun, fun k' hk' => ?_⟩
      obtain ⟨id, -, rfl⟩ := List.mem_map.mp (List.mem_filter.mp (List.mem_of_mem_tail hk')).1
      rfl
  | drain id drained state =>
      refine ⟨nofun, ?_⟩
      unfold Air780eHal.drain
      split
      · split <;> exact List.forall_mem_nil _
      · exact List.forall_mem_nil _
  | readType id drained state => exact ⟨nofun, List.forall_mem_nil _⟩
  | readReply id drained udp own state =>
      refine ⟨nofun, ?_⟩
      unfold Air780eHal.readReply
      split
      · exact List.forall_mem_nil _
      · split
        · split
          · exact List.forall_mem_nil _
          · rw [filter_passing_dispatchFrom]
            split <;> exact List.forall_mem_nil _
        · exact List.forall_mem_nil _
  | readPeer id drained gen data state =>
      refine ⟨nofun, ?_⟩
      rw [filter_passing_dispatchFrom]
      split <;> simp
  | retire id releases _ receiver lines slots left =>
      have hnone := filter_passing_of_inert fun k hk => by
        obtain rfl | hinert := left k hk
        · rfl
        · exact passing_of_inert hinert
      exact ⟨fun _ => hnone, by simp [hnone]⟩
  | clear id state => exact ⟨fun _ => rfl, by simp⟩

end

/-! ## Keeping the flag or the pass -/

section

variable {i : ℕ} {k : Sect} {s s' : Air780eHal} {ks rest : List Sect} {cfg : Config} {id : Cid}

/-- The sections of the receive loop and of the lines. -/
def Sect.Receiving (k : Sect) : Prop :=
  k.passing = true ∨ k.inert = true ∨ ∃ id, k = .clearReceiver id

theorem senderKnown_congr {udp : Bool} {source : Bytes}
    (hpeer : s'.receiver.peer id = s.receiver.peer id) :
    SenderKnown s' id udp source ↔ SenderKnown s id udp source := by
  rw [SenderKnown, SenderKnown, hpeer]

/-- What a pass will do depends on the response and the recorded sender only. -/
theorem willRead_congr (hlines : s'.responseLines = s.responseLines ∨ k.isReply = false)
    (hpeer : s'.receiver.peer id = s.receiver.peer id) (h : k.WillRead s id) : k.WillRead s' id := by
  cases k with
  | readReply id' drained udp own =>
      obtain ⟨rfl, data, source, hread, hknown⟩ := h
      refine ⟨rfl, data, source, ?_, (senderKnown_congr hpeer).mpr hknown⟩
      rwa [hlines.resolve_right (by simp [Sect.isReply])]
  | readPeer id' drained gen data => exact ⟨h.1, (senderKnown_congr hpeer).mpr h.2⟩
  | _ => exact h

theorem willRead_of_calm (hk : k.calm = true ∨ ∃ id b, k = .retire id b) : ¬k.WillRead s id := by
  obtain hk | ⟨id', b, rfl⟩ := hk
  · intro h
    cases k <;> first | (cases hk; done) | exact h
  · exact fun h => h

theorem drain_mem_dispatchFrom {drained gen : ℕ} {peer data : Bytes}
    (h : (splitPeer peer).isSome = true) :
    .drain id (drained + data.length) ∈ Air780eHal.dispatchFrom id drained gen peer data := by
  unfold Air780eHal.dispatchFrom
  cases hsplit : splitPeer peer with
  | none => rw [hsplit] at h; cases h
  | some sender => simp

/-- A look at a reply that carries something goes on to the next read, if a sender is known. -/
theorem willRead_of_readReply {drained : ℕ} {udp : Bool} {own : List Bytes}
    (h : (Sect.readReply id drained udp own).WillRead s id) :
    ∃ k' ∈ s.readReply id drained udp, k'.WillRead s id := by
  obtain ⟨-, data, source, hread, hknown⟩ := h
  unfold Air780eHal.readReply
  rw [hread]
  dsimp only
  cases udp with
  | false => exact ⟨_, List.mem_cons_of_mem _ (List.mem_singleton.mpr rfl), rfl⟩
  | true =>
      rw [if_pos rfl]
      have hsplit := hknown rfl
      by_cases hsource : source = []
      · rw [if_pos hsource] at hsplit ⊢
        refine ⟨_, List.mem_singleton.mpr rfl, rfl, fun _ => ?_⟩
        rw [if_pos rfl]
        exact hsplit
      · rw [if_neg hsource] at hsplit ⊢
        exact ⟨_, drain_mem_dispatchFrom hsplit, rfl⟩

/-- A slot that is used was used before. -/
theorem ReceiveStep.used (h : ReceiveStep s s' k ks) (hused : (s'.pool.slots id).used = true) :
    (s.pool.slots id).used = true := by
  cases h with
  | quiet calm pool pending peer lines left => rwa [← pool]
  | raise id' cause pool pending peer lines => rwa [← pool]
  | retire id' releases _ receiver lines slots left =>
      by_cases hid : id = id'
      · subst hid
        rw [slots, Function.update_self] at hused
        cases hused
      · rwa [slots, Function.update_of_ne hid] at hused
  | _ =>
      rename_i state
      subst state
      exact hused

/-- A section leaves the response alone. -/
theorem ReceiveStep.lines (h : ReceiveStep s s' k ks) : s'.responseLines = s.responseLines := by
  cases h with
  | quiet calm pool pending peer lines left => exact lines
  | raise id' cause pool pending peer lines => exact lines
  | retire id' releases _ receiver lines slots left => exact lines
  | _ =>
      rename_i state
      subst state
      rfl

/-- A section that changes the recorded sender of a used connection raises its flag. -/
theorem ReceiveStep.peer (h : ReceiveStep s s' k ks) (hclear : k ≠ .clearReceiver id) :
    s'.receiver.peer id = s.receiver.peer id ∨ s'.receiver.pending id = true := by
  cases h with
  | quiet calm pool pending peer lines left => exact .inl (congrFun peer id)
  | raise id' cause pool pending peer lines =>
      by_cases hid : id = id'
      · subst hid
        exact .inr (by rw [pending, Function.update_self])
      · exact .inl (peer id hid)
  | clear id' state =>
      have hid : id ≠ id' := fun hid => hclear (hid ▸ rfl)
      left
      rw [state]
      exact Function.update_of_ne hid _ _
  | retire id' releases _ receiver lines slots left => exact .inl (by rw [receiver])
  | _ =>
      rename_i state
      subst state
      exact .inl rfl

/-- A flag is cleared only for a pass over its connection. -/
theorem ReceiveStep.pending (h : ReceiveStep s s' k ks) (hclear : k ≠ .clearReceiver id)
    (hpending : s.receiver.pending id = true) :
    s'.receiver.pending id = true ∨ ∃ k' ∈ ks, k'.WillRead s' id := by
  cases h with
  | quiet calm pool pending peer lines left => exact .inl (by rw [pending, hpending])
  | raise id' cause pool pending peer lines =>
      left
      rw [pending]
      by_cases hid : id = id'
      · subst hid
        exact Function.update_self ..
      · rw [Function.update_of_ne hid, hpending]
  | collect state =>
      right
      refine ⟨.drain id 0, List.mem_map.mpr ⟨id, ?_, rfl⟩, rfl⟩
      exact List.mem_filter.mpr ⟨List.mem_finRange id, hpending⟩
  | clear id' state =>
      have hid : id ≠ id' := fun hid => hclear (hid ▸ rfl)
      left
      rw [state]
      exact (Function.update_of_ne hid _ _).trans hpending
  | retire id' releases _ receiver lines slots left => exact .inl (by rw [receiver, hpending])
  | _ =>
      rename_i state
      subst state
      exact .inl hpending

/-- A section of a pass hands on to the next read, or puts the flag back. -/
theorem ReceiveStep.willRead (h : ReceiveStep s s' k ks) (hused : (s'.pool.slots id).used = true)
    (hk : k.WillRead s id) :
    s'.receiver.pending id = true ∨ ∃ k' ∈ ks, k'.WillRead s' id := by
  cases h with
  | quiet calm pool pending peer lines left => exact absurd hk (willRead_of_calm calm)
  | raise id' cause pool pending peer lines =>
      obtain rfl | ⟨peer, rfl⟩ | ⟨serial, gen, rfl⟩ := cause
      · obtain rfl : id' = id := hk
        exact .inl (by rw [pending, Function.update_self])
      · exact hk.elim
      · exact hk.elim
  | collect state => exact hk.elim
  | drain id' drained state =>
      obtain rfl : id' = id := hk
      right
      unfold Air780eHal.drain
      rw [state] at hused
      rw [if_pos hused]
      split
      · exact ⟨_, List.mem_singleton.mpr rfl, rfl⟩
      · exact ⟨_, List.mem_singleton.mpr rfl, rfl⟩
  | readType id' drained state =>
      obtain rfl : id' = id := hk
      exact .inr ⟨_, List.mem_singleton.mpr rfl, rfl⟩
  | readReply id' drained udp own state =>
      obtain rfl : id' = id := hk.1
      rw [state]
      exact .inr (willRead_of_readReply hk)
  | readPeer id' drained gen data state =>
      obtain ⟨rfl, hknown⟩ := hk
      have hsplit := hknown rfl
      rw [if_pos rfl] at hsplit
      exact .inr ⟨_, drain_mem_dispatchFrom hsplit, rfl⟩
  | retire id' releases _ receiver lines slots left => exact hk.elim
  | clear id' state => exact hk.elim

end

/-! ## Runs -/

namespace World

/-- What holds in every state of a run. -/
structure Sound (w : World) : Prop where
  receiving : ∀ q ∈ w.cfg.threads, ∀ k ∈ q, k.Receiving
  cleared : ∀ q ∈ w.cfg.threads, ∀ id, .clearReceiver id ∈ q → (w.cfg.shared.pool.slots id).used = false
  onePass : OnePass w.cfg
  pieces : ∀ id, ∀ piece ∈ w.module.held id, piece ≠ []
  announced : ∀ id, w.module.announced id ≤ (w.module.held id).length
  kept : w.NothingStranded

section

variable {w w' : World} {i : ℕ} {k : Sect} {s' : Air780eHal} {ks rest : List Sect}

theorem receiving_of_inert {ks : List Sect} (h : ks.all Sect.inert = true) :
    ∀ k ∈ ks, k.Receiving := fun k hk => .inr (.inl (List.all_eq_true.mp h k hk))

/-- What a section leaves is a section of the receive loop or of a line, and a flag is about to be
cleared only for a slot that is not used any more. -/
theorem receiving_of_step (h : ReceiveStep w.cfg.shared s' k ks) : ∀ k' ∈ ks, k'.Receiving ∧
    ∀ id, k' = .clearReceiver id → (s'.pool.slots id).used = false := by
  have hdispatch : ∀ (id : Cid) (drained gen : ℕ) (peer data : Bytes),
      ∀ k' ∈ Air780eHal.dispatchFrom id drained gen peer data,
        k'.Receiving ∧ ∀ id, k' = .clearReceiver id → (s'.pool.slots id).used = false := by
    intro id drained gen peer data
    unfold Air780eHal.dispatchFrom
    cases splitPeer peer with
    | none => exact List.forall_mem_nil _
    | some sender =>
        simp only [List.mem_cons, List.not_mem_nil, or_false, forall_eq_or_imp, forall_eq]
        exact ⟨⟨.inr (.inl rfl), fun _ h => by cases h⟩, .inl rfl, fun _ h => by cases h⟩
  cases h with
  | quiet calm pool pending peer lines left =>
      intro k' hk'
      refine ⟨receiving_of_inert left k' hk', ?_⟩
      rintro id rfl
      cases List.all_eq_true.mp left _ hk'
  | raise id cause pool pending peer lines => exact List.forall_mem_nil _
  | collect state =>
      intro k' hk'
      obtain ⟨id, -, rfl⟩ := List.mem_map.mp hk'
      exact ⟨.inl rfl, fun _ h => by cases h⟩
  | drain id drained state =>
      unfold Air780eHal.drain
      split
      · split
        · simp only [List.mem_singleton, forall_eq]
          exact ⟨.inl rfl, fun _ h => by cases h⟩
        · simp only [List.mem_singleton, forall_eq]
          exact ⟨.inr (.inl rfl), fun _ h => by cases h⟩
      · simp only [List.mem_singleton, forall_eq]
        exact ⟨.inr (.inl rfl), fun _ h => by cases h⟩
  | readType id drained state =>
      simp only [List.mem_singleton, forall_eq]
      exact ⟨.inl rfl, fun _ h => by cases h⟩
  | readReply id drained udp own state =>
      unfold Air780eHal.readReply
      split
      · simp only [List.mem_singleton, forall_eq]
        exact ⟨.inr (.inl rfl), fun _ h => by cases h⟩
      · split
        · split
          · simp only [List.mem_singleton, forall_eq]
            exact ⟨.inl rfl, fun _ h => by cases h⟩
          · exact hdispatch _ _ _ _ _
        · simp only [List.mem_cons, List.not_mem_nil, or_false, forall_eq_or_imp, forall_eq]
          exact ⟨⟨.inr (.inl rfl), fun _ h => by cases h⟩, .inl rfl, fun _ h => by cases h⟩
  | readPeer id drained gen data state => exact hdispatch _ _ _ _ _
  | retire id releases _ receiver lines slots left =>
      intro k' hk'
      obtain rfl | hinert := left k' hk'
      · refine ⟨.inr (.inr ⟨id, rfl⟩), ?_⟩
        intro id' hid
        obtain rfl := Sect.clearReceiver.inj hid
        rw [slots, Function.update_self]
      · refine ⟨.inr (.inl hinert), ?_⟩
        rintro id' rfl
        cases hinert
  | clear id state => exact List.forall_mem_nil _

/-- A section of a pass or of a line strands nothing. -/
theorem Sound.kept_go (h : w.Sound) (hget : w.cfg.threads[i]? = some (k :: rest))
    (hstep : ReceiveStep w.cfg.shared s' k ks) {module : Module}
    (hmodule : module = w.module ∨ ∃ id peer, k = .arrival id peer ∧ module = w.module.announce id) :
    NothingStranded ⟨module, ⟨s', w.cfg.threads.set i (ks ++ rest)⟩⟩ := by
  intro id hused hannounced
  by_cases harrival : s'.receiver.pending id = true
  · exact .inl harrival
  · have hbefore : (w.cfg.shared.pool.slots id).used = true := hstep.used hused
    have hclear : k ≠ .clearReceiver id := by
      rintro rfl
      have hcleared := h.cleared _ (List.mem_of_getElem? hget) id (List.mem_cons_self ..)
      rw [hbefore] at hcleared
      cases hcleared
    have hsame : module.announced id = w.module.announced id := by
      obtain rfl | ⟨id', peer, rfl, rfl⟩ := hmodule
      · rfl
      · have hid : id ≠ id' := by
          rintro rfl
          cases hstep with
          | quiet calm => cases calm with
            | inl calm => cases calm
            | inr calm => obtain ⟨_, _, calm⟩ := calm; cases calm
          | raise id' cause pool pending peer lines =>
              obtain hk | ⟨peer, hk⟩ | ⟨serial, gen, hk⟩ := cause
              · cases hk
              · obtain ⟨rfl, -⟩ := Sect.arrival.inj hk
                exact harrival (by rw [pending, Function.update_self])
              · cases hk
        exact Function.update_of_ne hid _ _
    right
    obtain hpending | hremains := h.kept id hbefore (hsame ▸ hannounced)
    · obtain hpending' | ⟨k', hk', hwill⟩ := hstep.pending hclear hpending
      · exact absurd hpending' harrival
      · exact Remains.of_mem hget s' hk' hwill
    · have hpeer := (hstep.peer hclear).resolve_right harrival
      refine hremains.run s' hget ?_ ?_
      · intro hk
        exact (hstep.willRead hused hk).resolve_left harrival
      · intro k' hk'
        exact willRead_congr (.inl hstep.lines) hpeer hk'

/-- The module and the driver behind a section of a pass or of a line. -/
theorem Sound.go (h : w.Sound) (hget : w.cfg.threads[i]? = some (k :: rest))
    (hstep : ReceiveStep w.cfg.shared s' k ks) {module : Module}
    (hmodule : module = w.module ∨ ∃ id peer, k = .arrival id peer ∧ module = w.module.announce id) :
    Sound ⟨module, ⟨s', w.cfg.threads.set i (ks ++ rest)⟩⟩ := by
  have hheld : module.held = w.module.held := by
    obtain rfl | ⟨id, peer, -, rfl⟩ := hmodule <;> rfl
  have hthread : ∀ q ∈ w.cfg.threads.set i (ks ++ rest), ∀ k' ∈ q,
      k' ∈ ks ∨ ∃ q ∈ w.cfg.threads, k' ∈ q := by
    intro q hq k' hk'
    obtain hk' | ⟨j, p, hj, hk'⟩ := mem_threads_cases hget hq hk'
    · exact .inl hk'
    · exact .inr (mem_threads_of_set hget hj hk')
  constructor
  · intro q hq k' hk'
    obtain hk' | ⟨q', hq', hk'⟩ := hthread q hq k' hk'
    · exact (receiving_of_step hstep k' hk').1
    · exact h.receiving q' hq' k' hk'
  · intro q hq id hk'
    obtain hk' | ⟨q', hq', hk'⟩ := hthread q hq _ hk'
    · exact (receiving_of_step hstep _ hk').2 id rfl
    · have hunused := h.cleared q' hq' id hk'
      cases hused : (s'.pool.slots id).used with
      | false => rfl
      | true => rw [hstep.used hused] at hunused; cases hunused
  · exact h.onePass.run hget hstep.goesOn s'
  · rw [hheld]
    exact h.pieces
  · intro id
    rw [hheld]
    obtain rfl | ⟨id', peer, -, rfl⟩ := hmodule
    · exact h.announced id
    · change Function.update w.module.announced id' _ id ≤ _
      by_cases hid : id = id'
      · subst hid
        rw [Function.update_self]
      · rw [Function.update_of_ne hid]
        exact h.announced id
  · exact h.kept_go hget hstep hmodule

/-- A new thread of a line. -/
theorem Sound.line (h : w.Sound) (line : Bytes) (gen : ℕ) :
    Sound ⟨w.module, ⟨w.cfg.shared, w.cfg.threads ++ [dispatchLine line gen]⟩⟩ := by
  have hinert : ∀ k ∈ dispatchLine line gen, k.inert = true := by
    intro k hk
    have hline := ofLine_dispatchLine line gen k hk
    cases k <;> first | rfl | cases hline
  have hnone := filter_passing_of_inert fun k hk => passing_of_inert (hinert k hk)
  constructor
  · intro q hq k hk
    obtain hq | hq := List.mem_append.mp hq
    · exact h.receiving q hq k hk
    · rw [List.mem_singleton.mp hq] at hk
      exact .inr (.inl (hinert k hk))
  · intro q hq id hk
    obtain hq | hq := List.mem_append.mp hq
    · exact h.cleared q hq id hk
    · rw [List.mem_singleton.mp hq] at hk
      cases hinert _ hk
  · obtain hfree | ⟨i, owned, howns, htail⟩ := h.onePass
    · exact .inl (hfree.start w.cfg.shared hnone)
    · exact .inr ⟨i, owned, howns.start w.cfg.shared hnone, htail⟩
  · exact h.pieces
  · exact h.announced
  · intro id hused hannounced
    exact (h.kept id hused hannounced).imp_right fun hremains => hremains.start w.cfg.shared _

/-- A new pass. -/
theorem Sound.receive (h : w.Sound) (hfree : Free Sect.passing w.cfg) :
    Sound ⟨w.module, ⟨w.cfg.shared, w.cfg.threads ++ [[.collect]]⟩⟩ := by
  constructor
  · intro q hq k hk
    obtain hq | hq := List.mem_append.mp hq
    · exact h.receiving q hq k hk
    · rw [List.mem_singleton.mp hq] at hk
      rw [List.mem_singleton.mp hk]
      exact .inl rfl
  · intro q hq id hk
    obtain hq | hq := List.mem_append.mp hq
    · exact h.cleared q hq id hk
    · rw [List.mem_singleton.mp hq] at hk
      cases List.mem_singleton.mp hk
  · exact .inr ⟨_, _, hfree.owns_start w.cfg.shared [.collect], List.forall_mem_nil _⟩
  · exact h.pieces
  · exact h.announced
  · intro id hused hannounced
    exact (h.kept id hused hannounced).imp_right fun hremains => hremains.start w.cfg.shared _

/-- The bytes that a well-formed reply is read as. -/
theorem readPayload_replyLines {id : Cid} {data : Bytes} {more : Option Bytes} {hex : Bytes}
    (hhex : HexOf hex data) (hlength : data.length < 2 ^ 31) (hne : data ≠ []) :
    readPayload id (replyLines id data more hex) =
      some (data, sourceOf ((headerFor data more).line id)) := by
  have hlines : replyLines id data more hex = [(headerFor data more).line id, hex] := by
    rw [replyLines, if_neg hne]
  have hfind : findReply id (replyLines id data more hex) =
      some { returned := data.length, hex := hex
             source := sourceOf ((headerFor data more).line id) } := by
    rw [hlines, findReply, List.headD_cons, (headerFor data more).replyAt_line id hlength, Option.some_or]
    rfl
  have hpos : 0 < data.length := List.length_pos_iff.mpr hne
  have hcarried : carriedBy { returned := data.length, hex := hex
                              source := sourceOf ((headerFor data more).line id) } = data := by
    rw [carriedBy, if_neg (by dsimp only; omega)]
    exact hhex.parseHex_eq
  rw [readPayload_eq hfind, hcarried, if_neg hne]

/-- A read that is answered. -/
theorem Sound.read (h : w.Sound) {id : Cid} {drained count gen : ℕ} {udp : Bool}
    {more : Option Bytes} {hex : Bytes}
    (hget : w.cfg.threads[i]? = some (.cipRxGet id drained udp :: rest))
    (hgives : w.module.Gives id udp count)
    (hhex : HexOf hex ((w.module.held id).take count).flatten)
    (hlength : ((w.module.held id).take count).flatten.length < 2 ^ 31)
    (hattributed : (w.cfg.shared.pool.slots id).used = true → count < w.module.announced id →
      w.cfg.shared.receiver.pending id = false → SenderKnown w.cfg.shared id udp
        (sourceOf ((headerFor ((w.module.held id).take count).flatten more).line id))) :
    Sound ⟨w.module.read id count,
      ⟨w.cfg.shared.respond (replyLines id ((w.module.held id).take count).flatten more hex) gen,
        w.cfg.threads.set i ([.readReply id drained udp
          (replyLines id ((w.module.held id).take count).flatten more hex)] ++ rest)⟩⟩ := by
  let data := ((w.module.held id).take count).flatten
  let lines := replyLines id data more hex
  have hthread : ∀ q ∈ w.cfg.threads.set i ([.readReply id drained udp lines] ++ rest), ∀ k' ∈ q,
      k' = .readReply id drained udp lines ∨ ∃ q ∈ w.cfg.threads, k' ∈ q := by
    intro q hq k' hk'
    obtain hk' | ⟨j, p, hj, hk'⟩ := mem_threads_cases hget hq hk'
    · exact .inl (List.mem_singleton.mp hk')
    · exact .inr (mem_threads_of_set hget hj hk')
  have hnoReply := h.onePass.no_reply hget rfl rfl
  constructor
  · intro q hq k' hk'
    obtain rfl | ⟨q', hq', hk'⟩ := hthread q hq k' hk'
    · exact .inl rfl
    · exact h.receiving q' hq' k' hk'
  · intro q hq id' hk'
    obtain hk' | ⟨q', hq', hk'⟩ := hthread q hq _ hk'
    · cases hk'
    · exact h.cleared q' hq' id' hk'
  · exact h.onePass.run hget ⟨nofun, List.forall_mem_nil _⟩ _
  · intro id' piece hpiece
    change piece ∈ Function.update w.module.held id ((w.module.held id).drop count) id' at hpiece
    by_cases hid : id' = id
    · subst hid
      rw [Function.update_self] at hpiece
      exact h.pieces id' piece (List.mem_of_mem_drop hpiece)
    · rw [Function.update_of_ne hid] at hpiece
      exact h.pieces id' piece hpiece
  · intro id'
    change Function.update w.module.announced id (w.module.announced id - count) id' ≤
      (Function.update w.module.held id ((w.module.held id).drop count) id').length
    by_cases hid : id' = id
    · subst hid
      rw [Function.update_self, Function.update_self, List.length_drop]
      exact Nat.sub_le_sub_right (h.announced id') count
    · rw [Function.update_of_ne hid, Function.update_of_ne hid]
      exact h.announced id'
  · intro id' hused hannounced
    change (w.cfg.shared.pool.slots id').used = true at hused
    change Function.update w.module.announced id (w.module.announced id - count) id' ≠ 0 at hannounced
    by_cases hid : id' = id
    · subst hid
      rw [Function.update_self] at hannounced
      cases hpending : w.cfg.shared.receiver.pending id' with
      | true => exact .inl hpending
      | false =>
          -- announced data is left, so the reply carries something and the pass reads on
          have hle := h.announced id'
          have hdata : data ≠ [] := by
            intro hnil
            have hcount : count ≠ 0 := fun hzero => by
              rw [hgives.2.1 hzero, List.length_nil] at hle
              omega
            obtain ⟨piece, pieces, hheld⟩ : ∃ piece pieces, w.module.held id' = piece :: pieces :=
              List.exists_cons_of_length_pos (by omega)
            obtain ⟨n, rfl⟩ : ∃ n, count = n + 1 := ⟨count - 1, by omega⟩
            have hpiece : piece ∈ (w.module.held id').take (n + 1) := by
              rw [hheld, List.take_succ_cons]
              exact List.mem_cons_self ..
            have hempty : piece = [] := List.flatten_eq_nil_iff.mp hnil piece hpiece
            exact h.pieces id' piece (List.mem_of_mem_take hpiece) hempty
          have hread : readPayload id' lines = some (data, sourceOf ((headerFor data more).line id')) :=
            readPayload_replyLines hhex hlength hdata
          have hknown := hattributed hused (by omega) hpending
          exact .inr (Remains.of_mem hget _ (List.mem_singleton.mpr rfl)
            ⟨rfl, data, _, hread, hknown⟩)
    · rw [Function.update_of_ne hid] at hannounced
      refine (h.kept id' hused hannounced).imp_right fun hremains => ?_
      obtain ⟨q, hq, k', hk', hwill⟩ := hremains
      have hremains : Remains (fun k => k.WillRead w.cfg.shared id' ∧ k.isReply = false) w.cfg :=
        ⟨q, hq, k', hk', hwill, hnoReply q hq k' hk'⟩
      refine hremains.run _ hget ?_ ?_
      · rintro ⟨hwill, -⟩
        exact absurd hwill.symm hid
      · rintro k ⟨hwill, hreply⟩
        exact willRead_congr (s := w.cfg.shared) (.inr hreply) rfl hwill

theorem front_eq_some (h : w.front i = some k) : ∃ rest, w.cfg.threads[i]? = some (k :: rest) := by
  obtain ⟨q, hget, hhead⟩ := Option.bind_eq_some_iff.mp h
  obtain ⟨rest, rfl⟩ := List.head?_eq_some_iff.mp hhead
  exact ⟨rest, hget⟩

theorem Sound.step (h : w.Sound) {e : Event} (hattributed : w.Attributed e)
    (hstep : World.step w e = some w') : w'.Sound := by
  cases e with
  | arrive id pieces =>
      obtain ⟨hpieces, hstep⟩ := Option.ite_none_right_eq_some.mp hstep
      obtain rfl := Option.some.inj hstep
      refine ⟨h.receiving, h.cleared, h.onePass, ?_, ?_, h.kept⟩
      · intro id' piece hpiece
        change piece ∈ Function.update w.module.held id (w.module.held id ++ pieces) id' at hpiece
        by_cases hid : id' = id
        · subst hid
          rw [Function.update_self] at hpiece
          obtain hpiece | hpiece := List.mem_append.mp hpiece
          · exact h.pieces id' piece hpiece
          · exact hpieces piece hpiece
        · rw [Function.update_of_ne hid] at hpiece
          exact h.pieces id' piece hpiece
      · intro id'
        change w.module.announced id' ≤
          (Function.update w.module.held id (w.module.held id ++ pieces) id').length
        by_cases hid : id' = id
        · subst hid
          rw [Function.update_self, List.length_append]
          exact Nat.le_add_right_of_le (h.announced id')
        · rw [Function.update_of_ne hid]
          exact h.announced id'
  | line line gen =>
      rw [World.step] at hstep
      obtain ⟨cfg, hcfg, rfl⟩ := Option.map_eq_some_iff.mp hstep
      obtain rfl := Option.some.inj hcfg
      exact h.line line gen
  | receive =>
      obtain ⟨hfree, hstep⟩ := Option.ite_none_right_eq_some.mp hstep
      obtain ⟨cfg, hcfg, rfl⟩ := Option.map_eq_some_iff.mp hstep
      obtain rfl := Option.some.inj hcfg
      exact h.receive hfree
  | go i c =>
      rw [World.step] at hstep
      split at hstep
      · cases hstep
      · rename_i hcommand
        obtain ⟨cfg, hcfg, rfl⟩ := Option.map_eq_some_iff.mp hstep
        obtain ⟨k, rest, s', ks, hget, hexec, rfl⟩ := Program.step_run.mp hcfg
        have hfront : w.front i = some k := by
          rw [front, hget]
          rfl
        have hreceiving := h.receiving _ (List.mem_of_getElem? hget) k (List.mem_cons_self ..)
        have hnotRead : ∀ id drained udp, k ≠ .cipRxGet id drained udp := by
          rintro id drained udp rfl
          exact hcommand id drained udp hfront
        refine h.go hget (exec_receiveStep (i := i) hreceiving hnotRead hexec) ?_
        rw [World.announced, hfront]
        cases k with
        | arrival id peer => exact .inr ⟨id, peer, rfl, rfl⟩
        | _ => exact .inl rfl
  | read i count more hex gen =>
      rw [World.step] at hstep
      split at hstep
      · rename_i id drained udp hfront
        obtain ⟨⟨hgives, hhex, hlength⟩, hstep⟩ := Option.ite_none_right_eq_some.mp hstep
        obtain ⟨cfg, hcfg, rfl⟩ := Option.map_eq_some_iff.mp hstep
        obtain ⟨rest, hget⟩ := front_eq_some hfront
        obtain ⟨k, rest', s', ks, hget', hexec, rfl⟩ := Program.step_run.mp hcfg
        obtain ⟨rfl, rfl⟩ := List.cons.inj (Option.some.inj (hget.symm.trans hget'))
        obtain ⟨rfl, rfl⟩ := Prod.mk.inj (Option.some.inj hexec)
        rw [Attributed, hfront] at hattributed
        exact h.read hget hgives hhex hlength hattributed
      · cases hstep

end

end World

/-- A driver with any sockets, and a module that has announced nothing yet. -/
def World.begin (s : Air780eHal) : World := { cfg := ⟨s, []⟩ }

/-- In a run whose datagrams have senders, as long as announced data is behind them, no announced
data is stranded. -/
theorem nothing_stranded (s : Air780eHal) {events : List Event}
    (h : Runs.Along World.step (fun w e _ => w.Attributed e) (.begin s) events) :
    Runs.Along World.step (fun _ _ w' => w'.NothingStranded) (.begin s) events := by
  apply h.mono (I := World.Sound)
  · intro w e w' hsound hattributed hstep
    have hsound' := hsound.step hattributed hstep
    exact ⟨hsound', hsound'.kept⟩
  · refine ⟨List.forall_mem_nil _, List.forall_mem_nil _, .inl (List.forall_mem_nil _), ?_, ?_, ?_⟩
    · exact fun id => List.forall_mem_nil _
    · exact fun id => Nat.le_refl 0
    · exact fun id _ hannounced => absurd rfl hannounced

/-- A datagram socket on connection 0. -/
def datagramSocket : Air780eHal :=
  { pool :=
      { slots := fun id => if id.val = 0 then { used := true, udp := true, serial := 1 } else {}
        nextSerial := 2 } }

/-- Two datagrams arrive on connection 0 before the line that announces them. A pass reads the first,
and the header of the reply says `more` about it. -/
def datagramRun (more : Option Bytes) : List Event :=
  let announcement := ascii ['+', 'C', 'I', 'P', 'R', 'X', 'G', 'E', 'T', ':', ' ', '1', ',', '0']
  [.arrive ⟨0, by decide⟩ [ascii ['A'], ascii ['B']], .line announcement 0, .go 0 .go, .receive,
    .go 1 .go, .go 1 .go, .go 1 .go, .read 1 1 more (ascii ['4', '1']) 0]

theorem nothing_stranded_named :
    Runs.Along World.step (fun _ _ w' => w'.NothingStranded) (.begin datagramSocket)
      (datagramRun (some (ascii ['1', ',', 'h', ':', '7']))) :=
  nothing_stranded datagramSocket (by decide +kernel)

/-- A datagram whose sender is not known ends the pass, and the one behind it was announced. -/
theorem unnamed_datagram_strands :
    ¬∀ (s : Air780eHal) (events : List Event),
      Runs.Along World.step (fun _ _ w' => w'.NothingStranded) (.begin s) events := by
  intro h
  -- the pass is over after two more sections
  exact absurd (h datagramSocket (datagramRun none ++ [.go 1 .go, .go 1 .go])) (by decide +kernel)

end EspModemLink.Air780e
