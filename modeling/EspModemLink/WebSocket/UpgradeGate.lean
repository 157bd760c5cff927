import EspModemLink.WebSocket.OpenState

/-!
# Frames behind the upgrade

`DrainFrames` asks whether a head has been read and not whether it accepted the upgrade. No frame
is handled on a connection that was not upgraded exactly when nothing is taken off the receive
buffer behind a head that refused.
-/

namespace EspModemLink.WebSocket

open Bytes Http

/-- Behind a head that refused the upgrade, the receive buffer holds no frame to take. -/
def SilentBehindRefusal (cfg : Config) : Label → Prop
  | .start _ => True
  | .run i _ => ∀ o ks, cfg.threads[i]? = some (⟨o, .drainFrames⟩ :: ks) →
      cfg.shared.client.handshakeDone = true → cfg.shared.client.handshakeError ≠ none →
      (takeFrame cfg.shared.client.rxBuffer).1 = .incomplete

/-! ## Events that leave the handshake alone -/

/-- Neither the beginning of a connection nor its head. -/
def Event.neutral : Event → Bool
  | .began .. => false
  | .head .. => false
  | _ => true

theorem Event.neutral_of_plain {e : Event} (he : e.plain = true) : e.neutral = true := by
  cases e <;> first | rfl | cases he

/-- Neutral events bring in no head and no beginning. -/
theorem mem_of_mem_neutral {trace : List (Origin × Event)} {o o' : Origin} {es : List Event}
    {e : Event} (hes : ∀ e ∈ es, e.neutral = true) (he : e.neutral = false)
    (h : (o', e) ∈ trace ++ es.map (Prod.mk o)) : (o', e) ∈ trace := by
  obtain h | h := List.mem_append.mp h
  · exact h
  · obtain ⟨e', he', heq⟩ := List.mem_map.mp h
    obtain ⟨-, rfl⟩ := Prod.mk.inj heq
    exact absurd (hes e' he') (by simp [he])

/-- One more event that is not the one asked for. -/
theorem mem_of_mem_snoc {trace : List (Origin × Event)} {o o' : Origin} {e e' : Event}
    (h : (o', e') ∈ trace ++ [(o, e)]) (hne : e' ≠ e) : (o', e') ∈ trace := by
  obtain h | h := List.mem_append.mp h
  · exact h
  · exact absurd (Prod.mk.inj (List.mem_singleton.mp h)).2 hne

/-- A section that leaves the handshake alone and reports its events for `o`. -/
structure LeavesHandshake (o : Origin) (w w' : Conn) : Prop where
  key : w'.client.handshakeKey = w.client.handshakeKey
  done : w'.client.handshakeDone = w.client.handshakeDone
  error : w'.client.handshakeError = w.client.handshakeError
  connection : w'.connection = w.connection
  trace : ∃ es : List Event, (∀ e ∈ es, e.neutral = true) ∧
    w'.trace = w.trace ++ es.map (Prod.mk o)

theorem Quiet.leavesHandshake {o : Origin} {w w' : Conn} (h : Conn.Quiet o w w') :
    LeavesHandshake o w w' := by
  obtain ⟨es, hes, htrace⟩ := h.trace
  exact ⟨h.link.key, h.link.done, h.link.error, h.connection, es,
    fun e he => Event.neutral_of_plain (hes e he), htrace⟩

theorem LeavesHandshake.logged {o : Origin} {w : Conn} {c : SoftwareWsClient} {e : Event}
    (hkey : c.handshakeKey = w.client.handshakeKey) (hdone : c.handshakeDone = w.client.handshakeDone)
    (herror : c.handshakeError = w.client.handshakeError) (he : e.neutral = true) :
    LeavesHandshake o w (({ w with client := c } : Conn).log o e) :=
  ⟨hkey, hdone, herror, rfl, [e], by simpa using he, rfl⟩

section

variable [Target]

/-! ## Upgraded connections -/

/-- The head answers 101 with the accept value of the key. -/
def Accepted (key head : Bytes) : Prop :=
  ∃ response, parseHandshakeResponse head = .ok response ∧ response.status = 101 ∧
    response.accept = computeSecWebSocketAccept key

/-- The client finds no fault with exactly these heads. -/
theorem handshakeVerdict_eq_none {key head : Bytes} :
    Conn.handshakeVerdict key head = none ↔ Accepted key head := by
  unfold Conn.handshakeVerdict Accepted
  cases parseHandshakeResponse head with
  | error e => simp
  | ok response =>
      dsimp only
      split
      · rename_i hstatus
        simp [hstatus]
      · rename_i hstatus
        split
        · rename_i haccept
          simp [haccept]
        · rename_i haccept
          simpa using ⟨not_not.mp hstatus, not_not.mp haccept⟩

/-- On connection `n` a head was read, and it accepted the upgrade under the key that was sent. -/
structure Upgraded (trace : List (Origin × Event)) (n : ℕ) : Prop where
  read : ∃ o key head, (o, Event.head n key head) ∈ trace
  accepted : ∀ o key head, (o, Event.head n key head) ∈ trace → Accepted key head
  sent : ∀ o o' key key' head, (o, Event.head n key head) ∈ trace →
    (o', Event.began n key') ∈ trace → key' = key

/-- Whatever was done for a frame, the taking of it included, was done on an upgraded
connection. -/
def FramesBehindUpgrade (w : Conn) : Prop :=
  ∀ n e, (Origin.frame n, e) ∈ w.trace → Upgraded w.trace n

/-! ## Sections and the handshake -/

/-- What a section does to the handshake. -/
theorem Effect.handshake {task : Task} {w w' : Conn} {ks : List Task}
    (h : Conn.Effect task w w' ks) :
    (LeavesHandshake task.origin w w' ∧ Pushed task.origin ks) ∨
    (∃ key, w' = w.beginConnection task.origin key ∧ Pushed task.origin ks) ∨
    (∃ rxBuffer e, w.client.handshakeDone = false ∧ Pushed task.origin ks ∧
      w' = Conn.readHead { w with client := { w.client with rxBuffer := rxBuffer } }
        task.origin e) ∨
    (task.sect = .drainFrames ∧ w.client.handshakeDone = true ∧
      (takeFrame w.client.rxBuffer).1 ≠ .incomplete ∧
      LeavesHandshake (.frame w.connection) w w' ∧
      ∀ k ∈ ks, k.origin = .frame w.connection ∨ k.origin = task.origin) := by
  cases h with
  | quiet hq hks => exact .inl ⟨Quiet.leavesHandshake hq, hks⟩
  | begins key hks => exact .inr (.inl ⟨key, rfl, hks⟩)
  | abandons hks => exact .inl ⟨⟨rfl, rfl, rfl, rfl, [], by simp, by simp⟩, hks⟩
  | stores t hks => exact .inl ⟨.logged rfl rfl rfl rfl, hks⟩
  | readsHead rxBuffer e hdone hks => exact .inr (.inr (.inl ⟨rxBuffer, e, hdone, hks, rfl⟩))
  | opens ms hsect hclock _ _ hks =>
      have hq := Quiet.leavesHandshake (Conn.readClock_quiet (o := task.origin) hclock)
      exact .inl ⟨⟨hq.key, hq.done, hq.error, hq.connection, hq.trace⟩, hks⟩
  | tearsDown code reason hks => exact .inl ⟨.logged rfl rfl rfl rfl, hks⟩
  | drains rxBuffer hsect hdone hread he hks =>
      exact .inr (.inr (.inr ⟨hsect, hdone, hread,
        .logged rfl rfl rfl (Event.neutral_of_plain he), hks⟩))

/-! ## What is known of the handshake -/

/-- The flags of the client and the heads in the trace tell the same story. -/
structure Judged (w : Conn) : Prop where
  headKnown : ∀ o n key head, (o, Event.head n key head) ∈ w.trace → n ≤ w.connection
  begunKnown : ∀ o n key, (o, Event.began n key) ∈ w.trace → n ≤ w.connection
  begunKey : ∀ o key, (o, Event.began w.connection key) ∈ w.trace → key = w.client.handshakeKey
  done : ∀ o key head, (o, Event.head w.connection key head) ∈ w.trace →
    w.client.handshakeDone = true
  headKey : ∀ o key head, (o, Event.head w.connection key head) ∈ w.trace →
    key = w.client.handshakeKey
  verdict : ∀ o key head, (o, Event.head w.connection key head) ∈ w.trace →
    (w.client.handshakeError = none ↔ Accepted key head)
  read : w.client.handshakeDone = true →
    ∃ o key head, (o, Event.head w.connection key head) ∈ w.trace
  waiting : w.client.handshakeDone = false → w.client.handshakeError = none

theorem Judged.leavesHandshake {o : Origin} {w w' : Conn} (hj : Judged w)
    (h : LeavesHandshake o w w') : Judged w' := by
  obtain ⟨hkey, hdone, herror, hconnection, es, hes, htrace⟩ := h
  constructor
  · intro o n key head h
    rw [htrace] at h
    exact hconnection ▸ hj.headKnown o n key head (mem_of_mem_neutral hes rfl h)
  · intro o n key h
    rw [htrace] at h
    exact hconnection ▸ hj.begunKnown o n key (mem_of_mem_neutral hes rfl h)
  · intro o key h
    rw [htrace, hconnection] at h
    exact hkey ▸ hj.begunKey o key (mem_of_mem_neutral hes rfl h)
  · intro o key head h
    rw [htrace, hconnection] at h
    exact hdone ▸ hj.done o key head (mem_of_mem_neutral hes rfl h)
  · intro o key head h
    rw [htrace, hconnection] at h
    exact hkey ▸ hj.headKey o key head (mem_of_mem_neutral hes rfl h)
  · intro o key head h
    rw [htrace, hconnection] at h
    exact herror ▸ hj.verdict o key head (mem_of_mem_neutral hes rfl h)
  · intro hd
    obtain ⟨o, key, head, h⟩ := hj.read (hdone ▸ hd)
    exact ⟨o, key, head, by rw [htrace, hconnection]; exact List.mem_append_left _ h⟩
  · intro hd
    exact herror ▸ hj.waiting (hdone ▸ hd)

/-- A new connection has no head yet. -/
theorem Judged.beginConnection {w : Conn} (hj : Judged w) (o : Origin) (key : Bytes) :
    Judged (w.beginConnection o key) := by
  have hold : ∀ o' key' head,
      (o', Event.head (w.connection + 1) key' head) ∉ (w.beginConnection o key).trace := by
    intro o' key' head h
    have hle := hj.headKnown _ _ _ _ (mem_of_mem_snoc h (by simp))
    omega
  constructor
  · intro o' n key' head h
    exact Nat.le_succ_of_le (hj.headKnown o' n key' head (mem_of_mem_snoc h (by simp)))
  · intro o' n key' h
    obtain h | h := List.mem_append.mp h
    · exact Nat.le_succ_of_le (hj.begunKnown o' n key' h)
    · obtain ⟨-, rfl, -⟩ := by simpa using h
      exact Nat.le_refl _
  · intro o' key' h
    obtain h | h := List.mem_append.mp h
    · have hle := hj.begunKnown _ _ _ h
      exact absurd hle (Nat.not_succ_le_self _)
    · obtain ⟨-, -, rfl⟩ := by simpa using h
      rfl
  · intro o' key' head h
    exact absurd h (hold o' key' head)
  · intro o' key' head h
    exact absurd h (hold o' key' head)
  · intro o' key' head h
    exact absurd h (hold o' key' head)
  · intro h
    cases h
  · intro _
    rfl

/-- The head that is read is the first one of its connection, and the verdict is about it. -/
theorem Judged.readHead {w : Conn} (hj : Judged w) (hdone : w.client.handshakeDone = false)
    (o : Origin) (e : ℕ) : Judged (w.readHead o e) := by
  have hfirst : ∀ o' key' head, (o', Event.head w.connection key' head) ∉ w.trace := by
    intro o' key' head h
    simp [hj.done o' key' head h] at hdone
  have hthis : ∀ o' key' head, (o', Event.head w.connection key' head) ∈ (w.readHead o e).trace →
      key' = w.client.handshakeKey ∧ head = w.client.rxBuffer.take (e + 4) := by
    intro o' key' head h
    obtain h | h := List.mem_append.mp h
    · exact absurd h (hfirst o' key' head)
    · obtain ⟨-, rfl, rfl⟩ := by simpa using h
      exact ⟨rfl, rfl⟩
  constructor
  · intro o' n key' head h
    obtain h | h := List.mem_append.mp h
    · exact hj.headKnown o' n key' head h
    · obtain ⟨-, rfl, -⟩ := by simpa using h
      exact Nat.le_refl _
  · intro o' n key' h
    exact hj.begunKnown o' n key' (mem_of_mem_snoc h (by simp))
  · intro o' key' h
    exact hj.begunKey o' key' (mem_of_mem_snoc h (by simp))
  · intro _ _ _ _
    rfl
  · intro o' key' head h
    exact (hthis o' key' head h).1
  · intro o' key' head h
    obtain ⟨rfl, rfl⟩ := hthis o' key' head h
    rw [← handshakeVerdict_eq_none]
    simp [Conn.readHead, hj.waiting hdone]
  · intro _
    exact ⟨o, w.client.handshakeKey, w.client.rxBuffer.take (e + 4),
      List.mem_append_right _ (List.mem_singleton.mpr rfl)⟩
  · intro h
    cases h

/-- A connection that was upgraded stays so. -/
theorem Upgraded.of_effect {task : Task} {w w' : Conn} {ks : List Task} {n : ℕ}
    (hu : Upgraded w.trace n) (hj : Judged w) (h : Conn.Effect task w w' ks) :
    Upgraded w'.trace n := by
  obtain ⟨o, key, head, hhead⟩ := hu.read
  have hkept : ∀ {o' : Origin}, LeavesHandshake o' w w' → Upgraded w'.trace n := by
    rintro o' ⟨-, -, -, -, es, hes, htrace⟩
    rw [htrace]
    exact ⟨⟨o, key, head, List.mem_append_left _ hhead⟩,
      fun o key head h => hu.accepted o key head (mem_of_mem_neutral hes rfl h),
      fun o o' key key' head h h' => hu.sent o o' key key' head (mem_of_mem_neutral hes rfl h)
        (mem_of_mem_neutral hes rfl h')⟩
  obtain ⟨h, -⟩ | ⟨newKey, rfl, -⟩ | ⟨rxBuffer, e, hdone, -, rfl⟩ | ⟨-, -, -, h, -⟩ :=
    Effect.handshake h
  · exact hkept h
  · -- the new connection has another number
    have hn : n ≠ w.connection + 1 := by
      have hle := hj.headKnown o n key head hhead
      omega
    refine ⟨⟨o, key, head, List.mem_append_left _ hhead⟩, ?_, ?_⟩
    · intro o key head h
      exact hu.accepted o key head (mem_of_mem_snoc h (by simp))
    · intro o o' key key' head h h'
      exact hu.sent o o' key key' head (mem_of_mem_snoc h (by simp))
        (mem_of_mem_snoc h' (by simp [hn]))
  · -- a head is read on a connection that has none, and `n` has one
    have hn : n ≠ w.connection := by
      rintro rfl
      simp [hj.done o key head hhead] at hdone
    refine ⟨⟨o, key, head, List.mem_append_left _ hhead⟩, ?_, ?_⟩
    · intro o key head h
      exact hu.accepted o key head (mem_of_mem_snoc h (by simp [hn]))
    · intro o o' key key' head h h'
      exact hu.sent o o' key key' head (mem_of_mem_snoc h (by simp [hn]))
        (mem_of_mem_snoc h' (by simp))
  · exact hkept h

theorem Judged.of_effect {task : Task} {w w' : Conn} {ks : List Task} (hj : Judged w)
    (h : Conn.Effect task w w' ks) : Judged w' := by
  obtain ⟨h, -⟩ | ⟨key, rfl, -⟩ | ⟨rxBuffer, e, hdone, -, rfl⟩ | ⟨-, -, -, h, -⟩ :=
    Effect.handshake h
  · exact hj.leavesHandshake h
  · exact hj.beginConnection task.origin key
  · have hqueued : Judged { w with client := { w.client with rxBuffer := rxBuffer } } :=
      hj.leavesHandshake (o := task.origin) ⟨rfl, rfl, rfl, rfl, [], by simp, by simp⟩
    exact hqueued.readHead hdone task.origin e
  · exact hj.leavesHandshake h

/-- A connection whose flags say so is upgraded. -/
theorem Judged.upgraded {w : Conn} (hj : Judged w) (hdone : w.client.handshakeDone = true)
    (herror : w.client.handshakeError = none) : Upgraded w.trace w.connection where
  read := hj.read hdone
  accepted o key head h := (hj.verdict o key head h).mp herror
  sent o o' key key' head h h' := (hj.begunKey o' key' h').trans (hj.headKey o key head h).symm

/-! ## The gate -/

/-- Everything that was done for a frame and everything that is still to be done for one belongs
to an upgraded connection. -/
def Gate : Config → Prop :=
  Sections.Outline (fun w => Judged w ∧ FramesBehindUpgrade w)
    fun q w => ∀ k ∈ q, ∀ n, k.origin = .frame n → Upgraded w.trace n

/-- What is reported for upgraded connections keeps the frames behind the upgrade. -/
theorem FramesBehindUpgrade.of_effect {task : Task} {w w' : Conn} {ks : List Task}
    (hf : FramesBehindUpgrade w) (hj : Judged w) (h : Conn.Effect task w w' ks)
    (htask : ∀ n, task.origin = .frame n → Upgraded w.trace n)
    (hdrain : task.sect = .drainFrames → w.client.handshakeDone = true →
      (takeFrame w.client.rxBuffer).1 ≠ .incomplete → w.client.handshakeError = none) :
    FramesBehindUpgrade w' := by
  have hreported : ∀ {o : Origin}, LeavesHandshake o w w' →
      (∀ n, o = .frame n → Upgraded w.trace n) → FramesBehindUpgrade w' := by
    rintro o ⟨-, -, -, -, es, -, htrace⟩ ho n e he
    apply Upgraded.of_effect _ hj h
    rw [htrace] at he
    obtain he | he := List.mem_append.mp he
    · exact hf n e he
    · obtain ⟨e', -, heq⟩ := List.mem_map.mp he
      exact ho n (Prod.mk.inj heq).1
  have hone : ∀ {e' : Event}, w'.trace = w.trace ++ [(task.origin, e')] →
      FramesBehindUpgrade w' := by
    intro e' htrace n e he
    apply Upgraded.of_effect _ hj h
    rw [htrace] at he
    obtain he | he := List.mem_append.mp he
    · exact hf n e he
    · exact htask n (Prod.mk.inj (List.mem_singleton.mp he)).1.symm
  obtain ⟨hkeep, -⟩ | ⟨key, rfl, -⟩ | ⟨rxBuffer, e, hdone, -, rfl⟩ |
    ⟨hsect, hdone, hread, hkeep, -⟩ := Effect.handshake h
  · exact hreported hkeep htask
  · exact hone rfl
  · exact hone rfl
  · apply hreported hkeep
    rintro n hn
    obtain rfl := Origin.frame.inj hn
    exact hj.upgraded hdone (hdrain hsect hdone hread)

/-- A section that is left to do for a frame belongs to an upgraded connection. -/
theorem upgraded_of_pushed {task k : Task} {w w' : Conn} {ks : List Task} {n : ℕ}
    (h : Conn.Effect task w w' ks) (hj : Judged w)
    (htask : ∀ n, task.origin = .frame n → Upgraded w.trace n)
    (hdrain : task.sect = .drainFrames → w.client.handshakeDone = true →
      (takeFrame w.client.rxBuffer).1 ≠ .incomplete → w.client.handshakeError = none)
    (hk : k ∈ ks) (hn : k.origin = .frame n) : Upgraded w.trace n := by
  have hinherit : Pushed task.origin ks → Upgraded w.trace n := by
    intro hks
    obtain hk | hk | hk := hks k hk
    · exact htask n (hk.symm.trans hn)
    · cases hk.symm.trans hn
    · cases hk.symm.trans hn
  obtain ⟨-, hks⟩ | ⟨-, -, hks⟩ | ⟨-, -, -, hks, -⟩ | ⟨hsect, hdone, hread, -, hks⟩ :=
    Effect.handshake h
  · exact hinherit hks
  · exact hinherit hks
  · exact hinherit hks
  · obtain hk | hk := hks k hk
    · obtain rfl := Origin.frame.inj (hk.symm.trans hn)
      exact hj.upgraded hdone (hdrain hsect hdone hread)
    · exact htask n (hk.symm.trans hn)

omit [Target] in
/-- No thread begins with a section for a frame. -/
theorem entry_origin {e : Entry} {w w' : Conn} {q : List Task}
    (h : Conn.entry e w = some (w', q)) : ∀ k ∈ q, ∀ n, k.origin ≠ .frame n := by
  intro k hk n
  cases e with
  | call c =>
      obtain ⟨-, rfl⟩ := Prod.mk.inj (Option.some.inj h)
      simp [List.mem_singleton.mp hk]
  | data t bytes | closed t | maintain =>
      simp only [Conn.entry] at h
      split at h
      · obtain ⟨-, rfl⟩ := Prod.mk.inj (Option.some.inj h)
        simp [List.mem_singleton.mp hk]
      · cases h

/-- Sections respect the gate as long as nothing is taken behind a refusal. -/
theorem gate_respects :
    Sections.Respects program SilentBehindRefusal
      (fun w => Judged w ∧ FramesBehindUpgrade w)
      fun q w => ∀ k ∈ q, ∀ n, k.origin = .frame n → Upgraded w.trace n := by
  constructor
  · intro cfg e w' q _ hgate hentry
    obtain ⟨hj, hf⟩ := hgate.shared
    obtain ⟨hlink, hconnection, htrace⟩ := entry_link hentry
    have hkeep : LeavesHandshake .app cfg.shared w' :=
      ⟨hlink.key, hlink.done, hlink.error, hconnection, [], by simp, by simpa using htrace⟩
    refine ⟨⟨hj.leavesHandshake hkeep, ?_⟩, ?_, ?_⟩
    · intro n e he
      rw [htrace] at he ⊢
      exact hf n e he
    · intro k hk n hn
      exact absurd hn (entry_origin hentry k hk n)
    · intro p hp k hk n hn
      rw [htrace]
      exact hgate.thread p hp k hk n hn
  · intro cfg i c task ks w' ks' hok hget hgate hexec
    obtain ⟨hj, hf⟩ := hgate.shared
    have heffect : Conn.Effect task cfg.shared w' ks' := Conn.exec_effect hexec
    have hown := hgate.thread _ (List.mem_of_getElem? hget)
    have htask : ∀ n, task.origin = .frame n → Upgraded cfg.shared.trace n :=
      hown task (List.mem_cons_self ..)
    have hdrain : task.sect = .drainFrames → cfg.shared.client.handshakeDone = true →
        (takeFrame cfg.shared.client.rxBuffer).1 ≠ .incomplete →
        cfg.shared.client.handshakeError = none := by
      intro hsect hdone hread
      by_contra herror
      exact hread (hok task.origin ks (by rw [hget, ← hsect]) hdone herror)
    refine ⟨⟨hj.of_effect heffect, hf.of_effect hj heffect htask hdrain⟩, ?_⟩
    intro k hk n hn
    apply Upgraded.of_effect _ hj heffect
    obtain hk | hk := List.mem_append.mp hk
    · exact upgraded_of_pushed heffect hj htask hdrain hk hn
    · exact hown k (List.mem_cons_of_mem _ hk) n hn
  · intro cfg i c task ks w' ks' j q _ _ hgate hexec _ hq k hk n hn
    apply Upgraded.of_effect _ hgate.shared.1 (Conn.exec_effect hexec)
    exact hgate.thread q (List.mem_of_getElem? hq) k hk n hn

omit [Target] in
/-- What is taken off the receive buffer is reported for its connection. -/
theorem drainFrames_reports {w : Conn} (o : Origin) (hdone : w.client.handshakeDone = true)
    (hread : (takeFrame w.client.rxBuffer).1 ≠ .incomplete) :
    ∃ e : Event, e.neutral = true ∧
      (w.drainFrames o).1.trace = w.trace ++ [(.frame w.connection, e)] := by
  simp only [Conn.drainFrames, hdone, Bool.true_eq_false, if_false]
  split
  · rename_i h
    exact absurd (by rw [h]) hread
  · exact ⟨_, rfl, rfl⟩
  · exact ⟨_, rfl, rfl⟩

/-- Behind the gate, a step handles frames of upgraded connections only exactly when it takes
nothing behind a refusal. -/
theorem step_framesBehind_iff {cfg cfg' : Config} {l : Label} (hgate : Gate cfg)
    (h : program.step cfg l = some cfg') :
    FramesBehindUpgrade cfg'.shared ↔ SilentBehindRefusal cfg l := by
  constructor
  · intro hf
    cases l with
    | start e => trivial
    | run i c =>
        intro o ks hfront hdone herror
        by_contra hread
        obtain ⟨task, ks', w', ks₀, hget, hexec, rfl⟩ := Sections.Program.step_run.mp h
        obtain ⟨rfl, rfl⟩ := List.cons.inj (Option.some.inj (hget.symm.trans hfront))
        have hj : Judged cfg.shared := hgate.shared.1
        cases c with
        | go =>
            have hdrain := Option.some.inj ((Conn.exec_drainFrames i o cfg.shared).symm.trans hexec)
            obtain ⟨e, he, htrace⟩ := drainFrames_reports o hdone hread
            rw [hdrain] at htrace
            have hu : Upgraded w'.trace cfg.shared.connection :=
              hf _ e (by rw [htrace]; exact List.mem_append_right _ (List.mem_singleton.mpr rfl))
            obtain ⟨o', key, head, hhead⟩ := hu.read
            have hold : (o', Event.head cfg.shared.connection key head) ∈ cfg.shared.trace := by
              have hneutral : ∀ e' ∈ [e], e'.neutral = true := by simpa using he
              have hmem : (o', Event.head cfg.shared.connection key head) ∈ cfg.shared.trace ++
                  [e].map (Prod.mk (.frame cfg.shared.connection)) := htrace ▸ hhead
              exact mem_of_mem_neutral hneutral rfl hmem
            exact herror ((hj.verdict o' key head hold).mpr (hu.accepted o' key head hhead))
        | random | now | answer | data | closed | timeout | again | call => cases hexec
  · intro hok
    exact (gate_respects.step hgate hok h).shared.2

end

/-! ## A message behind a refusal -/

/-- "HTTP/1.1 403 X" and the blank line. -/
def refusingHead : Bytes :=
  httpVersion ++ ascii [' ', '4', '0', '3', ' ', 'X'] ++ Conn.blankLine

/-- The refusal and a text frame behind it arrive in one piece, before `Establish` has woken. -/
def refusedLabels : List Label :=
  connectLabels ++ [.start (.data 0 (refusingHead ++ [0x81, 0x01, 65])), .run 1 .go, .run 1 .go,
    .run 1 .go, .run 1 .go, .run 1 .go]

/-- The message of connection 1 is among the events. -/
def reportsMessage (trace : List (Origin × Event)) : Bool :=
  trace.any fun e => match e with
    | (.frame 1, .callback (.message [65] false)) => true
    | _ => false

/-- Every head among the events is refused. -/
def refusesAll [Target] (trace : List (Origin × Event)) : Bool :=
  trace.all fun e => match e.2 with
    | .head _ key head => (Conn.handshakeVerdict key head).isSome
    | _ => true

end EspModemLink.WebSocket
