import EspModemLink.Library.Reentry
import EspModemLink.WebSocket.Clients

/-!
# The guard against nested drains

`draining_client` is set to the client whose frames are drained and set back to null, not to what it
was. The drain of another client inside a drain therefore leaves the outer one without its guard.
-/

namespace EspModemLink.WebSocket

open Bytes Reentry Sections

/-! ## Drains -/

/-- The clients whose `DrainFrames` are on the stack of a thread, innermost first. -/
def drains (q : List Work) : List ℕ :=
  q.filterMap fun k =>
    match k.task.sect with
    | .leaveDrain => some k.client
    | _ => none

/-- A section that looks for a complete frame of the client, or begins to. -/
def looks (client : ℕ) (k : Work) : Bool :=
  k.client == client &&
    match k.task.sect with
    | .enterDrain | .drainFrames => true
    | _ => false

/-- A complete frame is queued. -/
def Conn.queued (w : Conn) : Bool :=
  w.client.handshakeDone &&
    match (takeFrame w.client.rxBuffer).1 with
    | .ready _ => true
    | _ => false

/-- No thread is in two drains of one client, and no complete frame is queued for a client behind
the last delivery that looks for one. -/
structure Guarded (cfg : Clients.Config) : Prop where
  once : ∀ q ∈ cfg.threads, (drains q).Nodup
  drained : ∀ k, Free (looks k) cfg → (cfg.shared.conn k).queued = false

/-! ## Nested drains -/

/-- For every thread, the clients in whose drain there it has begun to drain another client. -/
abbrev Interrupted := ℕ → List ℕ

/-- Thread `i` executes `k` on top of `rest` while its `draining_client` is `draining`. -/
def Interrupted.after (m : Interrupted) (i : ℕ) (draining : Option ℕ) (k : Work)
    (rest : List Work) : Interrupted :=
  match k.task.sect with
  | .enterDrain => if draining = some k.client then m else Function.update m i (drains rest)
  | .leaveDrain => Function.update m i ((m i).filter (· ≠ k.client))
  | _ => m

def Interrupted.watch (m : Interrupted) (cfg : Clients.Config) (l : Clients.Label)
    (_ : Clients.Config) : Interrupted :=
  match l with
  | .start _ => m
  | .run i _ =>
      match cfg.threads[i]? with
      | some (k :: rest) => m.after i (cfg.shared.draining i) k rest
      | _ => m

/-- The clients with their interrupted drains beside them. -/
def nesting [Target] : Runs.Step (Interrupted × Clients.Config) Clients.Label :=
  Runs.monitored clients.step Interrupted.watch

/-- No delivery comes back to a client whose drain was interrupted, and a complete frame that is
left to the drain beneath finds it in its loop. -/
def Sheltered (s : Interrupted × Clients.Config) (l : Clients.Label) : Prop :=
  match l with
  | .start _ => True
  | .run i _ =>
      match s.2.threads[i]? with
      | some (⟨client, _, .enterDrain⟩ :: rest) =>
          client ∉ s.1 i ∧
            (s.2.shared.draining i = some client → (s.2.shared.conn client).queued = true →
              rest.any (looks client) = true)
      | _ => True

instance (s : Interrupted × Clients.Config) (l : Clients.Label) : Decidable (Sheltered s l) := by
  unfold Sheltered
  split
  · infer_instance
  · split <;> infer_instance

/-! ## Queued frames -/

/-- A section that writes what has come in. -/
def Kind.buffers : Kind → Bool
  | .establish _ | .onTransportData | .drainFrames | .teardown => true
  | _ => false

theorem Kind.not_mem_writes {k : Kind} (h : k.buffers = false) :
    .rxBuffer ∉ k.writes ∧ .handshakeDone ∉ k.writes := by
  cases k with
  | established task ok => cases task <;> cases ok <;> simp [writes]
  | establish | onTransportData | drainFrames | teardown => cases h
  | _ => simp [writes]

theorem takeFrame_nil : takeFrame [] = (.incomplete, []) := rfl

theorem queued_of_empty {w : Conn} (h : w.client.rxBuffer = []) : w.queued = false := by
  rw [Conn.queued, h, takeFrame_nil, Bool.and_false]

theorem queued_of_keeps {written : List Member} {w w' : Conn}
    (h : Keeps written w.client w'.client)
    (hmem : .rxBuffer ∉ written ∧ .handshakeDone ∉ written) : w'.queued = w.queued := by
  rw [Conn.queued, Conn.queued, h.rxBuffer hmem.1, h.handshakeDone hmem.2]

section

variable {i : ℕ} {o : Origin} {w w' : Conn} {tasks : List Task}

theorem queued_establish {caller : Caller} {url : Bytes} {words : List UInt32}
    (h : (w.establish o caller url words).1.queued = true) : w.queued = true := by
  unfold Conn.establish at h
  split at h
  · exact h
  · split at h
    · exact h
    · rw [queued_of_empty rfl] at h
      cases h

/-- What comes in is looked at. -/
theorem queued_queueInbound [Target] {data : Bytes}
    (h : (w.queueInbound o data).1.queued = true) : (w.queueInbound o data).2 = [.enterDrain] := by
  simp only [Conn.queueInbound] at h ⊢
  split at h
  · rw [queued_of_empty rfl] at h
    cases h
  · rename_i hroom
    rw [if_neg hroom]

/-- A drain goes on as long as there is a complete frame. -/
theorem queued_drainFrames (h : (w.drainFrames o).1.queued = true) :
    ∃ t ∈ (w.drainFrames o).2, t.sect.kind = .drainFrames := by
  unfold Conn.drainFrames at h ⊢
  split at h
  · rename_i hdone
    rw [Conn.queued, hdone, Bool.false_and] at h
    cases h
  · rename_i hdone
    rw [if_neg hdone]
    split at h
    · rename_i htake
      rw [Conn.queued, htake, Bool.and_false] at h
      cases h
    · rename_i htake
      rw [Conn.queued] at h
      simp only [Conn.log, htake, Bool.and_false] at h
      cases h
    · exact ⟨⟨o, .drainFrames⟩, by simp [Origin.tasks], rfl⟩

/-- A complete frame that is queued behind a section was queued before it, or will be looked for. -/
theorem exec_queued [Target] {task : Task} {c : Choice}
    (hexec : Conn.exec i task c w = some (w', tasks)) (henter : task.sect.kind ≠ .enterDrain)
    (h : w'.queued = true) :
    (∃ t ∈ tasks, t.sect.kind = .enterDrain ∨ t.sect.kind = .drainFrames) ∨
      w.queued = true ∧ task.sect.kind ≠ .drainFrames := by
  have hflows := exec_flows hexec
  obtain ⟨o, s⟩ := task
  cases hbuffers : s.kind.buffers with
  | false =>
      rw [queued_of_keeps hflows.keeps (Kind.not_mem_writes hbuffers)] at h
      refine .inr ⟨h, fun hkind => ?_⟩
      simp only at hkind
      rw [hkind] at hbuffers
      cases hbuffers
  | true =>
      cases s with
      | establish caller url =>
          cases c with
          | random words =>
              obtain ⟨rfl, -⟩ := Prod.mk.inj (Option.some.inj hexec)
              exact .inr ⟨queued_establish h, nofun⟩
          | _ => cases hexec
      | onTransportData data =>
          cases c with
          | go =>
              obtain ⟨rfl, rfl⟩ := Prod.mk.inj (Option.some.inj hexec)
              rw [queued_queueInbound h]
              exact .inl ⟨⟨o, .enterDrain⟩, List.mem_singleton_self _, .inl rfl⟩
          | _ => cases hexec
      | drainFrames =>
          cases c with
          | go =>
              obtain ⟨rfl, rfl⟩ := Prod.mk.inj (Option.some.inj hexec)
              obtain ⟨t, ht, hkind⟩ := queued_drainFrames h
              exact .inl ⟨t, ht, .inr hkind⟩
          | _ => cases hexec
      | teardown code reason =>
          cases c with
          | go =>
              obtain ⟨rfl, -⟩ := Prod.mk.inj (Option.some.inj hexec)
              rw [queued_of_empty rfl] at h
              cases h
          | _ => cases hexec
      | call call => cases call <;> cases hbuffers
      | callback call => cases call <;> cases hbuffers
      | _ => cases hbuffers

end

/-! ## Drains on the stack -/

section

variable {client : ℕ} {k : Work} {q rest : List Work} {tasks : List Task}

@[simp] theorem drains_append (p q : List Work) : drains (p ++ q) = drains p ++ drains q :=
  List.filterMap_append

theorem drains_leave {o : Origin} :
    drains (⟨client, o, .leaveDrain⟩ :: q) = client :: drains q := rfl

theorem drains_cons_of_ne (h : k.task.sect.kind ≠ .leaveDrain) : drains (k :: q) = drains q := by
  obtain ⟨client, o, s⟩ := k
  cases s with
  | leaveDrain => exact absurd rfl h
  | _ => rfl

theorem drains_workOf (h : ∀ t ∈ tasks, t.sect.kind ≠ .leaveDrain) :
    drains (workOf client tasks) = [] := by
  induction tasks with
  | nil => rfl
  | cons t tasks ih =>
      obtain ⟨ht, htasks⟩ := List.forall_mem_cons.mp h
      exact (drains_cons_of_ne (k := ⟨client, t⟩) ht).trans (ih htasks)

/-- Only the guard puts the end of a drain in front. -/
theorem Kind.leaveDrain_not_mem {k : Kind} (h : k ≠ .enterDrain) : .leaveDrain ∉ k.next := by
  cases k with
  | enterDrain => exact absurd rfl h
  | established task ok => cases task <;> cases ok <;> simp [next]
  | frameSent caller ok => cases caller <;> cases ok <;> simp [next]
  | closeFrameSent waits => cases waits <;> simp [next]
  | sending caller data => cases caller <;> simp [next, delivered]
  | _ => simp [next, delivered, fails, calls]

theorem looks_of_kind {t : Task} (h : t.sect.kind = .enterDrain ∨ t.sect.kind = .drainFrames) :
    looks client ⟨client, t⟩ = true := by
  obtain ⟨o, s⟩ := t
  cases s with
  | enterDrain | drainFrames => simp [looks]
  | call c => cases c <;> simp [Sect.kind, Call.kind] at h
  | callback c => cases c <;> simp [Sect.kind, Callback.kind] at h
  | _ => simp [Sect.kind] at h

theorem kind_of_looks (h : looks client k = true) :
    k.task.sect.kind = .enterDrain ∨ k.task.sect.kind = .drainFrames := by
  obtain ⟨client', o, s⟩ := k
  cases s with
  | enterDrain => exact .inl rfl
  | drainFrames => exact .inr rfl
  | _ => simp [looks] at h

theorem client_of_looks (h : looks client k = true) : client = k.client :=
  (beq_iff_eq.mp (Bool.and_eq_true_iff.mp h).1).symm

end

/-! ## What a run keeps -/

/-- `draining_client` stands for the drain on top, unless that was interrupted. A complete frame
that is queued will be looked for. -/
structure Interrupted.Kept (s : Interrupted × Clients.Config) : Prop where
  marked : ∀ i q, s.2.threads[i]? = some q → Marked (s.2.shared.draining i) (drains q) (s.1 i)
  looked : ∀ client, (s.2.shared.conn client).queued = true →
    Remains (fun k => looks client k = true) s.2

namespace Interrupted

section

variable {m : Interrupted} {cfg : Clients.Config} {s' : Clients} {i : ℕ} {k : Work}
  {rest ks : List Work}

theorem Kept.guarded (h : Kept (m, cfg)) : Guarded cfg := by
  constructor
  · intro q hq
    obtain ⟨i, hi⟩ := List.mem_iff_getElem?.mp hq
    exact (h.marked i q hi).nodup
  · intro client hfree
    refine Bool.eq_false_iff.mpr fun hqueued => ?_
    obtain ⟨q, hq, k, hk, hlooks⟩ := h.looked client hqueued
    rw [hfree.eq_false hq hk] at hlooks
    cases hlooks

/-- The drains of a thread change with its own pointer only. -/
theorem Kept.marked_run (h : Kept (m, cfg)) {m' : Interrupted}
    (hget : cfg.threads[i]? = some (k :: rest))
    (hthis : Marked (s'.draining i) (drains (ks ++ rest)) (m' i))
    (hothers : ∀ j ≠ i, s'.draining j = cfg.shared.draining j ∧ m' j = m j) :
    ∀ j q, (cfg.threads.set i (ks ++ rest))[j]? = some q →
      Marked (s'.draining j) (drains q) (m' j) := by
  intro j q hj
  by_cases hji : j = i
  · subst hji
    rw [List.getElem?_set_self (List.getElem?_eq_some_iff.mp hget).1] at hj
    rw [← Option.some.inj hj]
    exact hthis
  · rw [List.getElem?_set_ne (Ne.symm hji)] at hj
    rw [(hothers j hji).1, (hothers j hji).2]
    exact h.marked j q hj

/-- A section that is no end of a drain leaves the drains as they are. -/
theorem Kept.marked_same (h : Kept (m, cfg)) (hget : cfg.threads[i]? = some (k :: rest))
    (hdraining : s'.draining = cfg.shared.draining)
    (hdrains : drains (ks ++ rest) = drains (k :: rest)) :
    ∀ j q, (cfg.threads.set i (ks ++ rest))[j]? = some q →
      Marked (s'.draining j) (drains q) (m j) := by
  refine h.marked_run hget ?_ fun j _ => ⟨by rw [hdraining], rfl⟩
  rw [hdrains, hdraining]
  exact h.marked i _ hget

/-- A frame that was queued before is still looked for, unless the section in front was to look. -/
theorem Kept.looked_run (h : Kept (m, cfg)) (hget : cfg.threads[i]? = some (k :: rest))
    {client : ℕ} (hqueued : (cfg.shared.conn client).queued = true)
    (hfront : looks client k = true → ∃ k' ∈ ks, looks client k' = true) :
    Remains (fun k => looks client k = true) ⟨s', cfg.threads.set i (ks ++ rest)⟩ :=
  (h.looked client hqueued).run s' hget hfront fun _ hk => hk

theorem after_of_kind {draining : Option ℕ} (henter : k.task.sect.kind ≠ .enterDrain)
    (hleave : k.task.sect.kind ≠ .leaveDrain) : m.after i draining k rest = m := by
  obtain ⟨client, o, s⟩ := k
  cases s with
  | enterDrain => exact absurd rfl henter
  | leaveDrain => exact absurd rfl hleave
  | _ => rfl

theorem kind_of_letsIn {e : Entry} (h : k.task.sect.letsIn e = true) :
    k.task.sect.kind ≠ .enterDrain ∧ k.task.sect.kind ≠ .leaveDrain := by
  obtain ⟨client, o, s⟩ := k
  cases s with
  | enterDrain | leaveDrain => cases e <;> cases h
  | call c => exact c.kind_ne_drain
  | callback c => exact c.kind_ne_drain
  | _ => exact ⟨nofun, nofun⟩

theorem entry_queued {e : Entry} {w w' : Conn} {tasks : List Task}
    (h : Conn.entry e w = some (w', tasks)) : w'.queued = w.queued :=
  queued_of_keeps (entry_keeps h) (by decide)

theorem entry_drains {e : Entry} {w w' : Conn} {tasks : List Task} (client : ℕ)
    (h : Conn.entry e w = some (w', tasks)) : drains (workOf client tasks) = [] := by
  obtain ⟨t, rfl, hkind⟩ := entry_kind h
  have hnot : Kind.leaveDrain ∉ Kind.entries := by decide
  apply drains_workOf
  intro t' ht' hleave
  rw [List.mem_singleton.mp ht'] at hleave
  exact hnot (hleave ▸ hkind)

/-- An entry changes nothing that is queued. -/
theorem queued_setConn {s : Clients} {client : ℕ} {w' : Conn}
    (h : w'.queued = (s.conn client).queued) (client' : ℕ) :
    ((s.setConn client w').conn client').queued = (s.conn client').queued := by
  by_cases hc : client' = client
  · rw [hc, Clients.setConn_conn_self, h]
  · rw [Clients.setConn_conn_of_ne s hc]

theorem Kept.start (h : Kept (m, cfg)) {e : ℕ × Entry} {q : List Work}
    (hentry : Clients.entry e cfg.shared = some (s', q)) :
    Kept (m, ⟨s', cfg.threads ++ [q]⟩) := by
  obtain ⟨⟨w', tasks⟩, hconn, hout⟩ := Option.map_eq_some_iff.mp hentry
  obtain ⟨rfl, rfl⟩ := Prod.mk.inj hout
  constructor
  · intro j p hj
    obtain hlt | hge := Nat.lt_or_ge j cfg.threads.length
    · simp only [List.getElem?_append_left hlt] at hj
      exact h.marked j p hj
    · simp only [List.getElem?_append_right hge] at hj
      rw [List.mem_singleton.mp (List.mem_of_getElem? hj), entry_drains e.1 hconn]
      exact marked_nil
  · intro client hqueued
    simp only [queued_setConn (entry_queued hconn)] at hqueued
    exact (h.looked client hqueued).start _ _

/-- A section of a client as it alone executes it. -/
theorem Kept.run_alone [Target] (h : Kept (m, cfg)) (hget : cfg.threads[i]? = some (k :: rest))
    {c : Choice} {w' : Conn} {tasks : List Task} (henter : k.task.sect.kind ≠ .enterDrain)
    (hleave : k.task.sect.kind ≠ .leaveDrain)
    (hexec : Conn.exec i k.task c (cfg.shared.conn k.client) = some (w', tasks)) :
    Kept (m, ⟨cfg.shared.setConn k.client w',
      cfg.threads.set i (workOf k.client tasks ++ rest)⟩) := by
  constructor
  · refine h.marked_same hget rfl ?_
    rw [drains_append, drains_cons_of_ne hleave, drains_workOf, List.nil_append]
    intro t ht htleave
    exact Kind.leaveDrain_not_mem henter (htleave ▸ (exec_flows hexec).next t ht)
  · intro client hqueued
    by_cases hclient : client = k.client
    · subst hclient
      simp only [Clients.setConn_conn_self] at hqueued
      obtain ⟨t, ht, hkind⟩ | ⟨hbefore, hdrain⟩ := exec_queued hexec henter hqueued
      · exact Remains.of_mem hget _ (List.mem_map_of_mem ht) (looks_of_kind hkind)
      · refine h.looked_run hget hbefore fun hlooks => ?_
        exact ((kind_of_looks hlooks).elim henter hdrain).elim
    · simp only [Clients.setConn_conn_of_ne _ hclient] at hqueued
      exact h.looked_run hget hqueued fun hlooks => absurd (client_of_looks hlooks) hclient

/-- A delivery is turned back to the drain that goes on beneath it. -/
theorem Kept.run_turnedBack (h : Kept (m, cfg)) (hget : cfg.threads[i]? = some (k :: rest))
    (hsect : k.task.sect = .enterDrain) (hguard : cfg.shared.draining i = some k.client)
    (hloop : cfg.shared.draining i = some k.client →
      (cfg.shared.conn k.client).queued = true → rest.any (looks k.client) = true) :
    Kept (m, ⟨cfg.shared, cfg.threads.set i ([] ++ rest)⟩) := by
  have hleave : k.task.sect.kind ≠ .leaveDrain := by simp [hsect, Sect.kind]
  constructor
  · exact h.marked_same hget rfl (drains_cons_of_ne hleave).symm
  · intro client hqueued
    by_cases hclient : client = k.client
    · subst hclient
      obtain ⟨k', hk', hlooks⟩ := List.any_eq_true.mp (hloop hguard hqueued)
      exact ⟨rest, List.mem_set (List.getElem?_eq_some_iff.mp hget).1 _, k', hk', hlooks⟩
    · exact h.looked_run hget hqueued fun hlooks => absurd (client_of_looks hlooks) hclient

theorem Kept.run_enters (h : Kept (m, cfg)) (hget : cfg.threads[i]? = some (k :: rest))
    (hsect : k.task.sect = .enterDrain) (hfree : cfg.shared.draining i ≠ some k.client)
    (hsheltered : k.client ∉ m i) :
    Kept (Function.update m i (drains rest), ⟨cfg.shared.setDraining i (some k.client),
      cfg.threads.set i
        (workOf k.client (k.task.origin.tasks [.drainFrames, .leaveDrain]) ++ rest)⟩) := by
  have hleave : k.task.sect.kind ≠ .leaveDrain := by simp [hsect, Sect.kind]
  constructor
  · refine h.marked_run hget ?_ fun j hj => ?_
    · have hmarked := h.marked i _ hget
      simp only [drains_cons_of_ne hleave] at hmarked
      simp only [Clients.setDraining_self, Function.update_self]
      exact hmarked.enter hfree hsheltered
    · exact ⟨Clients.setDraining_of_ne _ hj _, Function.update_of_ne hj ..⟩
  · intro client hqueued
    refine h.looked_run hget hqueued fun hlooks => ?_
    rw [client_of_looks hlooks]
    exact ⟨_, List.mem_cons_self .., looks_of_kind (.inr rfl)⟩

theorem Kept.run_leaves (h : Kept (m, cfg)) (hget : cfg.threads[i]? = some (k :: rest))
    (hsect : k.task.sect = .leaveDrain) :
    Kept (Function.update m i ((m i).filter (· ≠ k.client)),
      ⟨cfg.shared.setDraining i none, cfg.threads.set i ([] ++ rest)⟩) := by
  obtain ⟨client, o, s⟩ := k
  obtain rfl : s = .leaveDrain := hsect
  constructor
  · refine h.marked_run hget ?_ fun j hj => ?_
    · have hmarked := h.marked i _ hget
      simp only [drains_leave] at hmarked
      simp only [Clients.setDraining_self, Function.update_self]
      exact hmarked.leave
    · exact ⟨Clients.setDraining_of_ne _ hj _, Function.update_of_ne hj ..⟩
  · intro client' hqueued
    refine h.looked_run hget hqueued fun hlooks => ?_
    obtain hkind | hkind := kind_of_looks hlooks <;> cases hkind

/-- Something else happens on the thread out of a section, which stays. -/
theorem Kept.run_letsIn (h : Kept (m, cfg)) (hget : cfg.threads[i]? = some (k :: rest))
    {client : ℕ} {e : Entry} {w' : Conn} {tasks : List Task}
    (hentry : Conn.entry e (cfg.shared.conn client) = some (w', tasks)) :
    Kept (m, ⟨cfg.shared.setConn client w',
      cfg.threads.set i ((workOf client tasks ++ [k]) ++ rest)⟩) := by
  constructor
  · refine h.marked_same hget rfl ?_
    rw [List.append_assoc, drains_append, entry_drains client hentry]
    rfl
  · intro client' hqueued
    simp only [queued_setConn (entry_queued hentry)] at hqueued
    exact h.looked_run hget hqueued fun hlooks => ⟨k, by simp, hlooks⟩

theorem Kept.step [Target] {s s' : Interrupted × Clients.Config} {l : Clients.Label}
    (h : Kept s) (hsheltered : Sheltered s l) (hstep : nesting s l = some s') : Kept s' := by
  obtain ⟨m, cfg⟩ := s
  obtain ⟨m', cfg'⟩ := s'
  obtain ⟨hclients, hm⟩ := Runs.monitored_eq_some.mp hstep
  simp only at hclients hm
  obtain ⟨e, shared, q, rfl, hentry, rfl⟩ | ⟨i, c, k, rest, shared, ks, rfl, hget, hexec, rfl⟩ :=
    Program.step_cases hclients
  · subst hm
    exact h.start hentry
  · have hafter : m' = m.after i (cfg.shared.draining i) k rest := by
      rw [hm, watch]
      simp only [hget]
    have hguard (hsect : k.task.sect = .enterDrain) : k.client ∉ m i ∧
        (cfg.shared.draining i = some k.client → (cfg.shared.conn k.client).queued = true →
          rest.any (looks k.client) = true) := by
      obtain ⟨client, o, sect⟩ := k
      obtain rfl : sect = .enterDrain := hsect
      simpa only [Sheltered, hget] using hsheltered
    rw [hafter]
    cases Clients.exec_acts hexec with
    | turnedBack hsect hfor =>
        have hsame : m.after i (cfg.shared.draining i) k rest = m := by
          simp only [after, hsect, if_pos hfor]
        rw [hsame]
        exact h.run_turnedBack hget hsect hfor (hguard hsect).2
    | enters hsect hfree =>
        have hupdate : m.after i (cfg.shared.draining i) k rest =
            Function.update m i (drains rest) := by
          simp only [after, hsect, if_neg hfree]
        rw [hupdate]
        exact h.run_enters hget hsect hfree (hguard hsect).1
    | leaves hsect =>
        have hupdate : m.after i (cfg.shared.draining i) k rest =
            Function.update m i ((m i).filter (· ≠ k.client)) := by
          simp only [after, hsect]
        rw [hupdate]
        exact h.run_leaves hget hsect
    | alone henter hleave hconn =>
        rw [after_of_kind henter hleave]
        exact h.run_alone hget henter hleave hconn
    | letsIn hlets hentry =>
        obtain ⟨henter, hleave⟩ := kind_of_letsIn hlets
        rw [after_of_kind henter hleave]
        exact h.run_letsIn hget hentry

theorem kept_initial : Kept (fun _ => [], Clients.initial) :=
  ⟨nofun, nofun⟩

end

end Interrupted

/-- As long as no delivery comes back to a client whose drain was interrupted, and none is left to a
drain that has ended, the guard keeps every client from being drained within a drain of its own, and
every complete frame is looked for. -/
theorem drains_guarded [Target] (ls : List Clients.Label)
    (hsheltered : Runs.Along nesting (fun s l _ => Sheltered s l) (fun _ => [], Clients.initial)
      ls) :
    Runs.Along nesting (fun _ _ s => Guarded s.2) (fun _ => [], Clients.initial) ls := by
  refine hsheltered.mono (I := Interrupted.Kept) ?_ Interrupted.kept_initial
  intro s l s' hkept hok hstep
  have hkept' := hkept.step hok hstep
  exact ⟨hkept', hkept'.guarded⟩

/-! ## Deliveries that come back -/

/-- A run of one client as a run of client `client`, with its first thread at `first`. -/
def onClient (client first : ℕ) : Label → Clients.Label
  | .start e => .start (client, e)
  | .run i c => .run (first + i) (.own c)

/-- Thread `i` goes on, with these choices of the outside. -/
def goesOn (i : ℕ) (cs : List Choice) : List Clients.Label :=
  cs.map fun c => .run i (.own c)

/-- "x". -/
def exampleText : Bytes := ascii ['x']

/-- Clients 0 and 1 are open. A text comes in on client 0, whose `on_message` sends on client 1,
whose transport delivers from inside `Send`. -/
def nestedLabels : List Clients.Label :=
  openLabels.map (onClient 0 0) ++ openLabels.map (onClient 1 2) ++
    .start (0, .data 0 ([0x81, 1] ++ exampleText)) :: goesOn 4 [.go, .go, .go, .go, .go] ++
    .run 4 (.meanwhile 1 (.call (.sendFragment exampleText false true))) ::
      goesOn 4 [.go, .random [0], .go, .data [], .go, .go, .go, .go, .answer (.ok 7), .now 0, .go,
        .go]

/-- `on_message` then sends on client 0, whose transport delivers from inside `Send`. -/
def comesBackLabels : List Clients.Label :=
  nestedLabels ++
    goesOn 4 [.call (.sendFragment exampleText false true), .go, .random [0], .go, .data [], .go,
      .go]

/-- A malformed frame ends the connection, `on_disconnected` connects again, and the server's answer
brings an empty text with it. -/
def reconnectLabels : List Clients.Label :=
  openLabels.map (onClient 0 0) ++ goesOn 1 [.go, .go, .go] ++
    .start (0, .data 0 [0xFF, 0x00]) ::
      goesOn 2 [.go, .go, .go, .go, .go, .random [0], .go, .answer (.ok 8), .now 0, .go, .go, .go,
        .go, .go, .go, .call (.connect exampleUrl), .go, .random [0, 0, 0, 0], .answer (.ok 0),
        .answer (.ok 0), .go, .go, .data (acceptingHead exampleKey ++ [0x81, 0x00]), .go, .go,
        .answer (.ok 0), .now 0, .go, .go, .go, .go, .go, .go, .go, .go, .go]

theorem drains_guarded_nested :
    Runs.Along (@nesting esp32) (fun _ _ s => Guarded s.2) (fun _ => [], Clients.initial)
      nestedLabels :=
  @drains_guarded esp32 nestedLabels (by decide +kernel)

/-- A client is drained within a drain of its own behind a drain of another, and a frame that comes
in behind a violation is left where it is. -/
theorem drains_unguarded :
    ¬(∀ ls, Runs.Along (@nesting esp32) (fun _ _ s => ∀ q ∈ s.2.threads, (drains q).Nodup)
        (fun _ => [], Clients.initial) ls) ∧
      ¬(∀ ls, Runs.Along (@nesting esp32)
        (fun _ _ s => ∀ client, Free (looks client) s.2 → (s.2.shared.conn client).queued = false)
        (fun _ => [], Clients.initial) ls) := by
  constructor
  · intro h
    exact absurd (h comesBackLabels) (by decide +kernel)
  · intro h
    have hnot : ¬Runs.Along (@nesting esp32)
        (fun _ _ s => Free (looks 0) s.2 → (s.2.shared.conn 0).queued = false)
        (fun _ => [], Clients.initial) reconnectLabels := by
      decide +kernel
    apply hnot
    refine (h reconnectLabels).mono (I := fun _ => True) ?_ trivial
    exact fun _ _ _ _ hdrained _ => ⟨trivial, hdrained 0⟩

end EspModemLink.WebSocket
