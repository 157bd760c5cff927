import EspModemLink.Http.ExecuteBound
import EspModemLink.Http.RunHops

/-!
# Where credentials go

A redirect to another origin drops the credentials of the caller, and no later one brings them back.
-/

namespace EspModemLink.Http

open Bytes

/-! ## The fields of a request -/

/-- The names of credentials, in lower case. -/
def credentialNames : List Bytes :=
  [ascii ['a', 'u', 't', 'h', 'o', 'r', 'i', 'z', 'a', 't', 'i', 'o', 'n'],
    ascii ['c', 'o', 'o', 'k', 'i', 'e'],
    ascii ['p', 'r', 'o', 'x', 'y', '-', 'a', 'u', 't', 'h', 'o', 'r', 'i', 'z', 'a', 't', 'i', 'o',
      'n']]

theorem isCredentialHeader_iff {name : Bytes} :
    isCredentialHeader name = true ↔ toLower name ∈ credentialNames := by
  simp [isCredentialHeader, credentialNames, or_assoc]

/-- A field with the name, up to case, and the value of one of these. -/
def Supplied (headers : Fields) (f : Bytes × Bytes) : Prop :=
  ∃ h ∈ headers, toLower h.1 = toLower f.1 ∧ h.2 = f.2

/-- The names of the fields that `BuildHttpRequest` writes itself, in lower case. -/
def ownNames : List Bytes :=
  [toLower hostName, toLower userAgentName, toLower connectionName, toLower contentLengthField,
    toLower transferEncodingField]

theorem mem_setHeader {key value : Bytes} {fields : Fields} {f : Bytes × Bytes}
    (h : f ∈ setHeader key value fields) :
    toLower key = toLower f.1 ∧ value = f.2 ∨ f ∈ fields := by
  induction fields with
  | nil =>
      obtain rfl := List.mem_singleton.mp h
      exact .inl ⟨rfl, rfl⟩
  | cons g fields ih =>
      rw [setHeader] at h
      split at h
      · rename_i hname
        obtain rfl | h := List.mem_cons.mp h
        · exact .inl ⟨hname.symm, rfl⟩
        · exact .inr (List.mem_cons_of_mem _ h)
      · obtain rfl | h := List.mem_cons.mp h
        · exact .inr (List.mem_cons_self ..)
        · exact (ih h).imp_right (List.mem_cons_of_mem _)

theorem mem_foldl_setHeader {headers fields : Fields} {f : Bytes × Bytes}
    (h : f ∈ headers.foldl (fun fields h => setHeader h.1 h.2 fields) fields) :
    Supplied headers f ∨ f ∈ fields := by
  induction headers generalizing fields with
  | nil => exact .inr h
  | cons k headers ih =>
      obtain ⟨g, hg, hname⟩ | h := ih h
      · exact .inl ⟨g, List.mem_cons_of_mem _ hg, hname⟩
      · obtain hname | h := mem_setHeader h
        · exact .inl ⟨k, List.mem_cons_self .., hname⟩
        · exact .inr h

/-- A field of a request is the caller's or one that `BuildHttpRequest` writes itself. -/
theorem mem_requestFields {url : ParsedUrl} {options : HttpRequestOptions} {f : Bytes × Bytes}
    (h : f ∈ requestFields url options) : Supplied options.headers f ∨ toLower f.1 ∈ ownNames := by
  have hmerged : f ∈ mergedFields url options →
      Supplied options.headers f ∨ toLower f.1 ∈ ownNames := by
    intro h
    apply (mem_foldl_setHeader h).imp_right
    intro h
    simp only [generatedFields, List.mem_cons, List.not_mem_nil, or_false] at h
    obtain rfl | rfl | rfl := h <;> simp [ownNames]
  simp only [requestFields] at h
  split at h
  · obtain ⟨hname, -⟩ | h := mem_setHeader h
    · exact .inr (by simp [ownNames, ← hname])
    · exact hmerged (List.mem_of_mem_filter h)
  · obtain ⟨hname, -⟩ | h := mem_setHeader h
    · exact .inr (by simp [ownNames, ← hname])
    · exact hmerged h

/-- Credentials are the caller's. -/
theorem supplied_of_credential {url : ParsedUrl} {options : HttpRequestOptions} {f : Bytes × Bytes}
    (h : f ∈ requestFields url options) (hname : toLower f.1 ∈ credentialNames) :
    Supplied options.headers f := by
  have hdisjoint : ∀ name ∈ credentialNames, name ∉ ownNames := by decide
  obtain h | hown := mem_requestFields h
  · exact h
  · exact absurd hown (hdisjoint _ hname)

/-! ## The requests of the hops -/

/-- The heads of a hop are rendered from its request. -/
theorem Tries.rendered {lost : Conn → Prop} {request : RequestState} {c c' : Conn}
    (h : Tries lost request c c') :
    ∃ more, c'.trace = c.trace ++ more ∧
      ∀ t n bytes outcome, .sent t n .head bytes outcome ∈ more → RenderedFor request bytes := by
  have hattempt : ∀ c c', Attempt request c c' → ∃ more, c'.trace = c.trace ++ more ∧
      ∀ t n bytes outcome, .sent t n .head bytes outcome ∈ more → RenderedFor request bytes := by
    intro c c' h
    cases h with
    | unsent htrace hmore => exact ⟨_, htrace, fun t n bytes outcome hsent => (hmore _ hsent).elim⟩
    | sent h =>
        obtain ⟨htrace, hfront, hback, hbytes⟩ := h
        refine ⟨_, htrace, fun t n bytes outcome hsent => ?_⟩
        obtain hsent | hsent := List.mem_append.mp hsent
        · exact (hfront _ hsent).elim
        · obtain hsame | hsent := List.mem_cons.mp hsent
          · obtain ⟨-, -, -, rfl, -⟩ := Action.sent.inj hsame
            exact hbytes
          · have := hback _ hsent
            cases this
  cases h with
  | once h => exact hattempt _ _ h
  | twice _ _ h _ h' =>
      obtain ⟨more, htrace, hmore⟩ := hattempt _ _ h
      obtain ⟨more', htrace', hmore'⟩ := hattempt _ _ h'
      refine ⟨more ++ more', by rw [htrace', htrace, List.append_assoc], ?_⟩
      intro t n bytes outcome hsent
      obtain hsent | hsent := List.mem_append.mp hsent
      · exact hmore t n bytes outcome hsent
      · exact hmore' t n bytes outcome hsent

theorem Tried.rendered {hop : Hop} (h : Tried hop) {t n : ℕ} {bytes : Bytes} {outcome : Result ℕ}
    (hsent : .sent t n .head bytes outcome ∈ actionsOf hop) : RenderedFor hop.request bytes := by
  obtain ⟨lost, htries⟩ := h
  obtain ⟨more, htrace, hmore⟩ := htries.rendered
  rw [actionsOf_eq htrace] at hsent
  exact hmore t n bytes outcome hsent

/-- The heads of a path are those of its hops. -/
theorem Through.heads {c c' : Conn} {hops : List Hop} (h : Through c hops c') :
    ∃ more, c'.trace = c.trace ++ more ∧
      headsOf more = hops.flatMap fun hop => headsOf (actionsOf hop) := by
  induction h with
  | nil => exact ⟨[], by simp, rfl⟩
  | beside h _ ih =>
      obtain ⟨quiet, htrace, hquiet⟩ := h.trace
      obtain ⟨more, htrace', hmore⟩ := ih
      refine ⟨quiet ++ more, by rw [htrace', htrace, List.append_assoc], ?_⟩
      rw [headsOf_append, headsOf_eq_nil fun a ha => isHead_of_rests (hquiet a ha), hmore,
        List.nil_append]
  | @piece c c₁ c' hops t part bytes outcome _ _ hpart hc₁ _ ih =>
      obtain ⟨more, htrace, hmore⟩ := ih
      have hsame : c₁.trace = c.trace := by
        obtain rfl | rfl := hc₁ <;> rfl
      refine ⟨.sent t c.request part bytes outcome :: more, ?_, ?_⟩
      · rw [htrace, Conn.log_trace, hsame, List.append_assoc]
        rfl
      · have hnone : (Action.sent t c.request part bytes outcome).isHead = false := by
          cases part with
          | head => exact absurd rfl hpart
          | chunk | terminator => rfl
        rw [← hmore, headsOf, List.filter_cons_of_neg (by simp [hnone])]
        rfl
  | hop h _ ih =>
      obtain ⟨lost, htries⟩ := h
      obtain ⟨more, htrace⟩ := htries.trace
      obtain ⟨more', htrace', hmore'⟩ := ih
      refine ⟨more ++ more', by rw [htrace', htrace, List.append_assoc], ?_⟩
      rw [headsOf_append, hmore', List.flatMap_cons, actionsOf_eq htrace]

section

variable [Target] {env : Env} {w : World} {call : World.Call} {hops : List Hop}

/-- The hops of a call start from the fields that the caller has set, and each narrows the request of
the one before it. -/
theorem HopsOf.narrows (h : HopsOf env w call hops) :
    (∀ hop ∈ hops, Tried hop) ∧ (∀ hop ∈ hops.head?, hop.request.headers = w.client.headers) ∧
      hops.Pairwise fun v v' => Narrows v.request v'.request := by
  have hloop : ∀ {α : Type} {lost} {round : Rounds.Round RequestState World α NetworkError}
      {request : RequestState} {w₁ : World} {out : Result α × World}, Hopping lost round →
      request.headers = w.client.headers → Rounds.Loop round 0 request w₁ hops out →
      (∀ hop ∈ hops, Tried hop) ∧ (∀ hop ∈ hops.head?, hop.request.headers = w.client.headers) ∧
        hops.Pairwise fun v v' => Narrows v.request v'.request := by
    intro α lost round request w₁ out hhopping hheaders hloop
    refine ⟨fun hop hhop => ⟨_, hhopping.tries_of_mem hloop hhop⟩, fun hop hhop => ?_, ?_⟩
    · rw [hloop.head_request hop hhop, hheaders]
    · exact hloop.pairwise fun n r s a r' s' hround => (hhopping.next _ _ _ _ _ _ hround).2.2
  cases h with
  | other | refused => simp
  | execute _ h => exact hloop (executeRound_hopping env) rfl h
  | opens _ _ h => exact hloop (openRound_hopping env) rfl h
  | uploads hurl hchunked =>
      refine ⟨?_, ?_, List.pairwise_singleton _ _⟩
      · intro hop hhop
        obtain rfl := List.mem_singleton.mp hhop
        exact ⟨fun _ => False, .once (beginChunkedUpload_attempt env _ _)⟩
      · intro hop hhop
        obtain rfl := Option.mem_some.mp hhop
        rfl

end

/-! ## Credentials -/

/-- A field of the `k`-th request is the caller's, was in every request before, and all requests so
far went to one origin. -/
structure AtHome (headers : Fields) (hops : List Hop) (k : ℕ) (f : Bytes × Bytes) : Prop where
  supplied : Supplied headers f
  kept : ∀ i ≤ k, ∀ hop, hops[i]? = some hop → Supplied hop.request.headers f
  origin : ∀ i ≤ k, ∀ j ≤ k, ∀ hop hop', hops[i]? = some hop → hops[j]? = some hop' →
    origin hop.request.url = origin hop'.request.url

end EspModemLink.Http
