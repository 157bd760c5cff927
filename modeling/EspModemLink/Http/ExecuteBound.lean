import EspModemLink.Http.Hops

/-!
# What `Execute` sends at most

`Execute` has two loops without a bound of their own, the hops and the attempts at one hop. It ends
within the limit on redirects, and only a request without a side effect is ever sent twice at a hop.
-/

namespace EspModemLink.Http

open Bytes

/-! ## Heads -/

def Action.isHead : Action → Bool
  | .sent _ _ .head _ _ => true
  | _ => false

/-- The request heads among the actions, in order. -/
def headsOf (actions : List Action) : List Action := actions.filter Action.isHead

/-- Every head goes out on a transport that was made among the actions before it. -/
def OnNewTransport (actions : List Action) : Prop :=
  ∀ front t n bytes outcome back, actions = front ++ .sent t n .head bytes outcome :: back →
    ∃ tls config, .created t tls config ∈ front

theorem headsOf_append (front back : List Action) :
    headsOf (front ++ back) = headsOf front ++ headsOf back :=
  List.filter_append ..

theorem headsOf_eq_nil {actions : List Action} (h : ∀ a ∈ actions, a.isHead = false) :
    headsOf actions = [] :=
  List.filter_eq_nil_iff.mpr fun a ha => by simp [h a ha]

theorem isHead_of_prepares {url : ParsedUrl} {config : TlsConfig} {a : Action}
    (h : Prepares url config a) : a.isHead = false := by
  cases a with
  | sent => exact h.elim
  | _ => rfl

theorem isHead_of_rests {a : Action} (h : a.isOutbound = false) : a.isHead = false := by
  cases a with
  | sent => cases h
  | _ => rfl

/-- The only head of a list is found where it stands. -/
theorem split_unique {front front' back back' : List Action} {a a' : Action}
    (hfront : ∀ b ∈ front, b.isHead = false) (hback : ∀ b ∈ back, b.isHead = false)
    (ha' : a'.isHead = true) (h : front ++ a :: back = front' ++ a' :: back') :
    front = front' ∧ a = a' := by
  induction front generalizing front' with
  | nil =>
      cases front' with
      | nil => exact ⟨rfl, (List.cons.inj h).1⟩
      | cons b front' =>
          have hmem : a' ∈ back := by
            rw [(List.cons.inj h).2]
            simp
          rw [hback a' hmem] at ha'
          cases ha'
  | cons b front ih =>
      cases front' with
      | nil =>
          obtain ⟨rfl, -⟩ := List.cons.inj h
          rw [hfront b (List.mem_cons_self ..)] at ha'
          cases ha'
      | cons b' front' =>
          obtain ⟨rfl, hrest⟩ := List.cons.inj h
          obtain ⟨rfl, ha⟩ := ih (fun x hx => hfront x (List.mem_cons_of_mem _ hx)) hrest
          exact ⟨rfl, ha⟩

/-- An attempt sends one head at most, and on a new transport when it finds none. -/
theorem Attempt.heads {request : RequestState} {c c' : Conn} (h : Attempt request c c') :
    ∃ more, c'.trace = c.trace ++ more ∧ (headsOf more).length ≤ 1 ∧
      (Down c.client → OnNewTransport more) := by
  cases h with
  | unsent htrace hmore =>
      have hnone := fun a ha => isHead_of_prepares (hmore a ha)
      refine ⟨_, htrace, by simp [headsOf_eq_nil hnone], ?_⟩
      rintro - front t n bytes outcome back rfl
      have := hnone (.sent t n .head bytes outcome) (by simp)
      cases this
  | sent h =>
      obtain ⟨htrace, hfront, hback, hbytes, hover⟩ := h
      have hfrontHeads := fun a ha => isHead_of_prepares (hfront a ha)
      have hbackHeads := fun a ha => isHead_of_rests (hback a ha)
      refine ⟨_, htrace, ?_, ?_⟩
      · rw [headsOf_append, headsOf_eq_nil hfrontHeads, List.nil_append, headsOf,
          List.filter_cons_of_pos (by rfl), ← headsOf, headsOf_eq_nil hbackHeads]
        exact Nat.le_refl 1
      · intro hdown front' t' n' bytes' outcome' back' heq
        obtain ⟨rfl, hsame⟩ := split_unique hfrontHeads hbackHeads rfl heq
        obtain ⟨rfl, -⟩ := Action.sent.inj hsame
        obtain hlinked | hopened := hover
        · have := hdown.transport.symm.trans hlinked.transport
          cases this
        · exact ⟨_, hopened.created⟩

/-! ## The heads of a hop -/

/-- The first attempt of a hop has sent a head and lost its connection, and the second has sent one
on a transport that was made for it. -/
def SecondOnNewTransport [Target] (env : Env) (hop : Hop) : Prop :=
  ∃ e w₁ more more', hop.before.executeOnce env hop.request = (.error e, w₁) ∧
    e.code = .kConnectionLost ∧ w₁.trace = hop.before.trace ++ more ∧
    actionsOf hop = more ++ more' ∧ (headsOf more).length = 1 ∧ (headsOf more').length = 1 ∧
    OnNewTransport more'

/-- A hop of `Execute` sends its request once, or twice if it has no side effect. -/
structure HeadsBounded [Target] (env : Env) (hop : Hop) : Prop where
  two : (headsOf (actionsOf hop)).length ≤ 2
  one : World.methodIsRepeatable hop.request.method = false →
    (headsOf (actionsOf hop)).length ≤ 1
  second : (headsOf (actionsOf hop)).length = 2 → SecondOnNewTransport env hop

theorem Tries.headsBounded [Target] {env : Env} {hop : Hop}
    (h : Tries (LostFirst env hop.request hop.before) hop.request hop.before.toConn
      hop.after.toConn) : HeadsBounded env hop := by
  cases h with
  | once h =>
      obtain ⟨more, htrace, hone, -⟩ := h.heads
      rw [← actionsOf_eq htrace] at hone
      exact ⟨by omega, fun _ => hone, fun htwo => by omega⟩
  | twice hrepeatable hlost h hdown h' =>
      obtain ⟨e, w₁, hfirst, hcode, rfl⟩ := hlost
      obtain ⟨more, htrace, hone, -⟩ := h.heads
      obtain ⟨more', htrace', hone', hnew⟩ := h'.heads
      have hactions : actionsOf hop = more ++ more' := by
        apply actionsOf_eq
        rw [htrace', htrace, List.append_assoc]
      have hcount : (headsOf (actionsOf hop)).length =
          (headsOf more).length + (headsOf more').length := by
        rw [hactions, headsOf_append, List.length_append]
      refine ⟨by omega, fun hnot => ?_, fun htwo => ?_⟩
      · rw [hrepeatable] at hnot
        cases hnot
      · exact ⟨e, w₁, more, more', hfirst, hcode, htrace, hactions, by omega, by omega, hnew hdown⟩

/-! ## `Execute` -/

/-- `Execute` refuses its URL or ends within the limit on hops, each of which sends its head once, or
twice for a request without a side effect that lost its first connection. -/
theorem execute_bounded [Target] (env : Env) (method url : Bytes) (w : World) :
    (∃ e, parseUrl url = .error e ∧ w.execute env method url = (.error e, w)) ∨
    ∃ u hops, parseUrl url = .ok u ∧
      Rounds.Loop (executeRound env) 0 (w.configured method u) w hops (w.execute env method url) ∧
      (w.execute env method url).2.trace = w.trace ++ hops.flatMap actionsOf ∧
      hops.length ≤ 1 + w.client.maxRedirects ∧
      (w.client.followRedirects = false ∨ w.client.maxRedirects = 0 → hops.length = 1) ∧
      ∀ hop ∈ hops, HeadsBounded env hop := by
  cases hurl : parseUrl url with
  | error e => exact .inl ⟨e, rfl, by simp [World.execute, hurl]⟩
  | ok u =>
      have hhopping := executeRound_hopping env
      have hexecute : w.execute env method url =
          Rounds.bounded (executeRound env) w.client.maxRedirects 0 (w.configured method u) w := by
        simp only [World.execute, hurl, executeHops_eq]
      obtain ⟨hops, hloop, hlength⟩ := hhopping.ends (w.configured method u) w
      rw [hexecute]
      refine .inr ⟨u, hops, rfl, hloop, hhopping.trace hloop, by omega, fun hoff => ?_,
        fun hop hhop => ?_⟩
      · exact hhopping.one_hop hoff hloop
      · exact (hhopping.tries_of_mem hloop hhop).headsBounded

end EspModemLink.Http
