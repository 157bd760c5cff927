import EspModemLink.AtChannel.BaudAlignment
import EspModemLink.AtChannel.Channel

/-!
# The search for the rate of a module

`FindModuleBaudRate` over any channel. It asks for the rate and writes nothing, it asks once at each
rate it can move to, and it leaves the host where it was answered or where it began.
-/

namespace EspModemLink.AtChannel

open Bytes AtParser

def kQueryTimeout : ℕ := 500

namespace IAtChannel

variable {σ τ : Type*} (ch : IAtChannel σ)

def queryLines (cmd : Bytes) (timeout : ℕ) (s : σ) : AtResult (List Bytes) × σ :=
  match ch.sendCommand cmd timeout s with
  | (.error e, s) => (.error e, s)
  | (.ok (), s) => (.ok (ch.getResponseLines s), s)

def moveHostTo (rate : Int) (s : σ) : Bool × σ :=
  if ch.getBaudRate s = rate then (true, s)
  else ((ch.setBaudRate rate s).1.isOk, (ch.setBaudRate rate s).2)

/-- The loop of `FindModuleBaudRate`: the rate found, or the rates tried in vain. -/
def probeCandidates : List Int → (tried : List Int) → σ → Except (List Int) Int × σ
  | [], tried, s => (.error tried, s)
  | rate :: rest, tried, s =>
      if rate ≤ 0 ∨ rate ∈ tried then probeCandidates rest tried s
      else
        match ch.moveHostTo rate s with
        | (false, s) => probeCandidates rest (tried ++ [rate]) s
        | (true, s) =>
            match ch.queryLines Command.queryRate.text kQueryTimeout s with
            | (.error _, s) => probeCandidates rest (tried ++ [rate]) s
            | (.ok lines, s) => (.ok (foundRate lines rate), s)

def findModuleBaudRate (candidates : List Int) (s : σ) : AtResult Int × σ :=
  let entryRate := ch.getBaudRate s
  if entryRate ≤ 0 then
    (.error { code := .kNotInitialized, context := "the channel does not report a baud rate" }, s)
  else
    match ch.probeCandidates candidates [] s with
    | (.ok rate, s) => (.ok rate, s)
    | (.error tried, s) =>
        (.error { code := .kTimeout
                  context := "the module did not answer at any of the " ++
                    toString tried.length ++ " rates probed" },
          (ch.setBaudRate entryRate s).2)

/-! ## What a step leaves behind -/

theorem getBaudRate_queryLines (cmd : Bytes) (timeout : ℕ) (s : σ) :
    ch.getBaudRate (ch.queryLines cmd timeout s).2 = ch.getBaudRate s := by
  have hstays := ch.stays cmd timeout s
  unfold queryLines
  split
  · rename_i hsend
    rw [hsend] at hstays
    exact hstays
  · rename_i hsend
    rw [hsend] at hstays
    exact hstays

theorem getBaudRate_moveHostTo {rate : Int} {s : σ} (h : (ch.moveHostTo rate s).1 = true) :
    ch.getBaudRate (ch.moveHostTo rate s).2 = rate := by
  unfold moveHostTo at h ⊢
  split
  · assumption
  · rename_i haway
    rw [if_neg haway] at h
    apply ch.follows
    cases hset : (ch.setBaudRate rate s).1 with
    | ok => rfl
    | error e =>
        rw [hset] at h
        cases h

/-! ## More behind the channel -/

section Shows

variable {ch} {upper : IAtChannel τ} {under : τ → σ}

theorem Shows.queryLines (h : upper.Shows ch under) (cmd : Bytes) (timeout : ℕ) (t : τ) :
    Prod.map id under (upper.queryLines cmd timeout t) = ch.queryLines cmd timeout (under t) := by
  have hsend := h.sendCommand cmd timeout t
  unfold IAtChannel.queryLines
  rw [← hsend]
  cases upper.sendCommand cmd timeout t with
  | mk result t' =>
      cases result with
      | error e => rfl
      | ok => exact congrArg (fun lines => (Except.ok lines, under t')) (h.getResponseLines t')

theorem Shows.moveHostTo (h : upper.Shows ch under) (rate : Int) (t : τ) :
    Prod.map id under (upper.moveHostTo rate t) = ch.moveHostTo rate (under t) := by
  unfold IAtChannel.moveHostTo
  rw [h.getBaudRate, ← h.setBaudRate]
  split
  · rfl
  · rfl

theorem Shows.probeCandidates (h : upper.Shows ch under) (rates tried : List Int) (t : τ) :
    Prod.map id under (upper.probeCandidates rates tried t) =
      ch.probeCandidates rates tried (under t) := by
  induction rates generalizing tried t with
  | nil => rfl
  | cons rate rest ih =>
      rw [IAtChannel.probeCandidates, IAtChannel.probeCandidates]
      split
      · exact ih tried t
      · rw [← h.moveHostTo]
        cases upper.moveHostTo rate t with
        | mk moved t' =>
            cases moved with
            | false => exact ih _ t'
            | true =>
                simp only [Prod.map_apply, id_eq]
                rw [← h.queryLines]
                cases upper.queryLines Command.queryRate.text kQueryTimeout t' with
                | mk lines t'' =>
                    cases lines with
                    | error e => exact ih _ t''
                    | ok lines => rfl

/-- The search comes to the same whatever else stands behind the channel. -/
theorem Shows.findModuleBaudRate (h : upper.Shows ch under) (candidates : List Int) (t : τ) :
    Prod.map id under (upper.findModuleBaudRate candidates t) =
      ch.findModuleBaudRate candidates (under t) := by
  unfold IAtChannel.findModuleBaudRate
  rw [h.getBaudRate, ← h.probeCandidates]
  dsimp only
  split
  · rfl
  · cases upper.probeCandidates candidates [] t with
    | mk o t' =>
        cases o with
        | ok found => rfl
        | error tried => exact congrArg (fun o => (Except.error _, o.2)) (h.setBaudRate _ t')

end Shows

theorem recorded_findModuleBaudRate (candidates : List Int) (t : σ × List Called) :
    Prod.map id Prod.fst (ch.recorded.findModuleBaudRate candidates t) =
      ch.findModuleBaudRate candidates t.1 :=
  ch.recorded_shows.findModuleBaudRate candidates t

end IAtChannel

/-! ## What is tried -/

/-- The rates that a search has still to try: positive, each once, in the order of the list. -/
def untried (rates tried : List Int) : List Int :=
  ((rates.filter (0 < ·)).filter (· ∉ tried)).eraseDups

theorem untried_nil (rates : List Int) :
    untried rates [] = (rates.filter (0 < ·)).eraseDups := by
  simp [untried]

theorem untried_skip {rate : Int} {tried : List Int} (h : rate ≤ 0 ∨ rate ∈ tried)
    (rest : List Int) : untried (rate :: rest) tried = untried rest tried := by
  unfold untried
  obtain hsign | hmem := h
  · rw [List.filter_cons_of_neg (by simpa using hsign)]
  · by_cases hpositive : 0 < rate
    · rw [List.filter_cons_of_pos (by simpa using hpositive),
        List.filter_cons_of_neg (by simpa using hmem)]
    · rw [List.filter_cons_of_neg (by simpa using hpositive)]

theorem untried_take {rate : Int} {tried : List Int} (h : ¬(rate ≤ 0 ∨ rate ∈ tried))
    (rest : List Int) :
    untried (rate :: rest) tried = rate :: untried rest (tried ++ [rate]) := by
  obtain ⟨hsign, hmem⟩ := not_or.mp h
  unfold untried
  rw [List.filter_cons_of_pos (by simpa using hsign), List.filter_cons_of_pos (by simpa using hmem),
    List.eraseDups_cons, List.filter_filter]
  congr 2
  apply List.filter_congr
  intro other _
  simp [and_comm, Bool.beq_eq_decide_eq]

theorem untried_nodup (rates tried : List Int) : (untried rates tried).Nodup := by
  induction rates generalizing tried with
  | nil => exact List.nodup_nil
  | cons rate rest ih =>
      by_cases hskip : rate ≤ 0 ∨ rate ∈ tried
      · rw [untried_skip hskip]
        exact ih tried
      · rw [untried_take hskip, List.nodup_cons]
        refine ⟨?_, ih _⟩
        simp [untried, List.mem_eraseDups]

/-! ## The record of a search -/

namespace IAtChannel

variable {σ : Type*} (ch : IAtChannel σ)

/-- What the loop made of the rates in front of it. -/
structure Searched (rates tried : List Int) (calls : List Called) (o : Except (List Int) Int)
    (s : σ) : Prop where
  queries : ∀ c ∈ commandsOf calls, c.2 = Command.queryRate.text
  probes : ((commandsOf calls).map Prod.fst).Sublist (untried rates tried)
  answered : ∀ found, o = .ok found →
    ch.getBaudRate s ∈ rates ∧ 0 < ch.getBaudRate s ∧
      calls.getLast? = some
        (.command (ch.getBaudRate s) Command.queryRate.text kQueryTimeout (.ok ()))

/-- Moving the host sends nothing. -/
theorem recorded_moveHostTo (rate : Int) (t : σ × List Called) :
    ∃ calls, (ch.recorded.moveHostTo rate t).2.2 = t.2 ++ calls ∧ commandsOf calls = [] := by
  unfold moveHostTo
  split
  · exact ⟨[], (List.append_nil _).symm, rfl⟩
  · exact ⟨_, rfl, rfl⟩

/-- A query is sent once, at the rate of the host. -/
theorem recorded_queryLines (cmd : Bytes) (timeout : ℕ) (t : σ × List Called) :
    ∃ result, (ch.recorded.queryLines cmd timeout t).2.2 =
        t.2 ++ [.command (ch.getBaudRate t.1) cmd timeout result] ∧
      ∀ lines, (ch.recorded.queryLines cmd timeout t).1 = .ok lines → result = .ok () := by
  refine ⟨(ch.sendCommand cmd timeout t.1).1, ?_, ?_⟩
  · unfold queryLines
    split
    · rename_i hsend
      exact congrArg (fun o => o.2.2) hsend.symm
    · rename_i hsend
      exact congrArg (fun o => o.2.2) hsend.symm
  · intro lines hlines
    unfold queryLines at hlines
    split at hlines
    · cases hlines
    · rename_i hsend
      exact congrArg Prod.fst hsend

variable {ch} in
/-- What a candidate left behind, in front of what the others leave. -/
theorem Searched.behind {rate : Int} {rest tried : List Int} {calls more : List Called}
    {o : Except (List Int) Int} {s : σ} (htake : ¬(rate ≤ 0 ∨ rate ∈ tried))
    (hcalls : ∀ c ∈ commandsOf calls, c.2 = Command.queryRate.text)
    (hprobes : ((commandsOf calls).map Prod.fst).Sublist [rate])
    (h : ch.Searched rest (tried ++ [rate]) more o s) :
    ch.Searched (rate :: rest) tried (calls ++ more) o s where
  queries c hc := by
    rw [commandsOf_append, List.mem_append] at hc
    obtain hc | hc := hc
    · exact hcalls c hc
    · exact h.queries c hc
  probes := by
    rw [commandsOf_append, List.map_append, untried_take htake]
    exact hprobes.append h.probes
  answered found hfound := by
    obtain ⟨hmem, hpositive, hlast⟩ := h.answered found hfound
    refine ⟨List.mem_cons_of_mem _ hmem, hpositive, ?_⟩
    rw [List.getLast?_append, hlast, Option.some_or]

theorem probeCandidates_searched (rates tried : List Int) (t : σ × List Called) :
    ∃ calls, (ch.recorded.probeCandidates rates tried t).2.2 = t.2 ++ calls ∧
      ch.Searched rates tried calls (ch.recorded.probeCandidates rates tried t).1
        (ch.recorded.probeCandidates rates tried t).2.1 := by
  induction rates generalizing tried t with
  | nil =>
      refine ⟨[], (List.append_nil _).symm, ?_, ?_, ?_⟩
      · intro c hc
        cases hc
      · exact List.nil_sublist _
      · intro found hfound
        cases hfound
  | cons rate rest ih =>
      by_cases hskip : rate ≤ 0 ∨ rate ∈ tried
      · obtain ⟨calls, hrecord, h⟩ := ih tried t
        rw [probeCandidates, if_pos hskip]
        refine ⟨calls, hrecord, h.queries, ?_, fun found hfound => ?_⟩
        · rw [untried_skip hskip]
          exact h.probes
        · obtain ⟨hmem, hanswered⟩ := h.answered found hfound
          exact ⟨List.mem_cons_of_mem _ hmem, hanswered⟩
      · rw [probeCandidates, if_neg hskip]
        obtain ⟨moves, hmoves, hsilent⟩ := ch.recorded_moveHostTo rate t
        have hat : (ch.recorded.moveHostTo rate t).1 = true →
            ch.recorded.getBaudRate (ch.recorded.moveHostTo rate t).2 = rate :=
          ch.recorded.getBaudRate_moveHostTo
        cases hmove : ch.recorded.moveHostTo rate t with
        | mk moved t' =>
            rw [hmove] at hmoves hat
            cases moved with
            | false =>
                -- the channel cannot be moved there, and nothing is sent
                obtain ⟨calls, hrecord, h⟩ := ih (tried ++ [rate]) t'
                refine ⟨moves ++ calls, ?_, h.behind hskip (by simp [hsilent]) (by simp [hsilent])⟩
                rw [← List.append_assoc, ← hmoves]
                exact hrecord
            | true =>
                have hhost : ch.getBaudRate t'.1 = rate := hat rfl
                obtain ⟨result, hquery, hok⟩ :=
                  ch.recorded_queryLines Command.queryRate.text kQueryTimeout t'
                have hstays :=
                  ch.recorded.getBaudRate_queryLines Command.queryRate.text kQueryTimeout t'
                rw [hmoves, hhost, List.append_assoc] at hquery
                dsimp only
                cases hlines : ch.recorded.queryLines Command.queryRate.text kQueryTimeout t' with
                | mk lines t'' =>
                    rw [hlines] at hquery hok hstays
                    have hcommands : commandsOf (moves ++
                        [.command rate Command.queryRate.text kQueryTimeout result]) =
                        [(rate, Command.queryRate.text)] := by
                      rw [commandsOf_append, hsilent]
                      rfl
                    cases lines with
                    | error e =>
                        obtain ⟨calls, hrecord, h⟩ := ih (tried ++ [rate]) t''
                        refine ⟨moves ++
                          [.command rate Command.queryRate.text kQueryTimeout result] ++ calls, ?_,
                          h.behind hskip (by simp [hcommands]) (by simp [hcommands])⟩
                        rw [← List.append_assoc, ← hquery]
                        exact hrecord
                    | ok lines =>
                        have hrate : ch.getBaudRate t''.1 = rate := hstays.trans hhost
                        obtain rfl := hok lines rfl
                        refine ⟨_, hquery, by simp [hcommands], ?_, fun found _ => ?_⟩
                        · rw [hcommands, untried_take hskip]
                          exact (List.nil_sublist _).cons_cons _
                        · rw [hrate]
                          refine ⟨List.mem_cons_self, by omega, ?_⟩
                          rw [List.getLast?_append]
                          rfl

/-- What is promised of a search from `s` that ends in `t`, with the calls it made recorded. -/
structure ReadOnlySearch (candidates : List Int) (s : σ) (result : AtResult Int)
    (t : σ × List Called) : Prop where
  writesNothing : ∀ rate n, (rate, (Command.setRate n).text) ∉ commandsOf t.2
  probesOnce : ((commandsOf t.2).map Prod.fst).Sublist (candidates.filter (0 < ·)).eraseDups
  probesDistinct : ((commandsOf t.2).map Prod.fst).Nodup
  answered : ∀ found, result = .ok found → ch.getBaudRate t.1 ∈ candidates ∧
    ∃ timeout, .command (ch.getBaudRate t.1) Command.queryRate.text timeout (.ok ()) ∈ t.2
  putBack : ∀ e, result = .error e → ch.Accepts (ch.getBaudRate s) →
    ch.getBaudRate t.1 = ch.getBaudRate s

/-- A query is no write. -/
theorem queryRate_ne_setRate (n : Int) : Command.queryRate.text ≠ (Command.setRate n).text := by
  intro h
  have hsign := congrArg (fun s => s[6]?) h
  revert hsign
  simp [Command.text, iprKey, ascii]

theorem findModuleBaudRate_readOnly (candidates : List Int) (s : σ) :
    ch.ReadOnlySearch candidates s (ch.recorded.findModuleBaudRate candidates (s, [])).1
      (ch.recorded.findModuleBaudRate candidates (s, [])).2 := by
  obtain ⟨calls, hrecord, h⟩ := ch.probeCandidates_searched candidates [] (s, [])
  rw [List.nil_append] at hrecord
  have hsilent : ∀ n, ∀ c ∈ commandsOf calls, c.2 ≠ (Command.setRate n).text := by
    intro n c hc heq
    exact queryRate_ne_setRate n ((h.queries c hc).symm.trans heq)
  have hprobes := h.probes
  rw [untried_nil] at hprobes
  have hdistinct := h.probes.nodup (untried_nodup candidates [])
  unfold findModuleBaudRate
  dsimp only
  split
  · exact ⟨fun _ _ => List.not_mem_nil, List.nil_sublist _, List.nodup_nil, nofun, fun _ _ _ => rfl⟩
  · cases hsearch : ch.recorded.probeCandidates candidates [] (s, []) with
    | mk o t =>
        rw [hsearch] at hrecord h
        obtain ⟨t, record⟩ := t
        obtain rfl : record = calls := hrecord
        cases o with
        | ok found =>
            refine ⟨fun _ n hmem => hsilent n _ hmem rfl, hprobes, hdistinct, fun _ _ => ?_, nofun⟩
            obtain ⟨hmem, -, hlast⟩ := h.answered found rfl
            exact ⟨hmem, kQueryTimeout, List.mem_of_getLast? hlast⟩
        | error tried =>
            have hcommands : commandsOf (ch.recorded.setBaudRate (ch.getBaudRate s) (t, record)).2.2 =
                commandsOf record := by
              simp [recorded]
            refine ⟨fun _ n hmem => ?_, ?_, ?_, nofun, fun _ _ haccepts => ?_⟩
            · exact hsilent n _ (hcommands ▸ hmem) rfl
            · exact hcommands.symm ▸ hprobes
            · exact hcommands.symm ▸ hdistinct
            · exact ch.follows _ t (haccepts t)

end IAtChannel

/-! ## The search over a module -/

namespace Module

variable (m : Module)

/-- The command that a text spells. -/
def spelled (cmd : Bytes) : Option Command :=
  if cmd = Command.queryRate.text then some .queryRate
  else if cmd = Command.listRates.text then some .listRates
  else if (ascii ['A', 'T'] ++ iprKey ++ ascii ['=']).isPrefixOf cmd then
    (parseInt (cmd.drop 7)).map .setRate
  else none

/-- The channel to a module. It reports what `SetBaudRate` refuses as not supported. -/
def channel : IAtChannel Link where
  sendCommand cmd _ l :=
    match spelled cmd with
    | some c => m.sendCommand c l
    | none => (timedOut ("command timeout: " ++ text cmd), l)
  getResponseLines l := l.lines
  getBaudRate l := l.host
  setBaudRate baud l :=
    if m.follows baud then (.ok (), { l with host := baud })
    else (.error { code := .kNotSupported }, l)
  stays cmd _ l := by
    cases hspelled : spelled cmd with
    | none => rfl
    | some c =>
        by_cases halign : l.host = l.live
        · obtain ⟨lines, hsend⟩ := m.sendCommand_heard halign c
          simp only [hsend]
          rfl
        · simp only [m.sendCommand_unheard halign c]
  follows baud l h := by
    split at h
    · rename_i hfollows
      rw [if_pos hfollows]
    · cases h

theorem channel_queryLines (timeout : ℕ) (l : Link) :
    m.channel.queryLines Command.queryRate.text timeout l = m.queryLines .queryRate l := by
  have hspelled : spelled Command.queryRate.text = some .queryRate := by decide
  have hsend : m.channel.sendCommand Command.queryRate.text timeout l =
      m.sendCommand .queryRate l := by
    simp only [channel, hspelled]
  rw [IAtChannel.queryLines, queryLines, hsend]
  cases m.sendCommand .queryRate l with
  | mk result l =>
      cases result with
      | error e => rfl
      | ok => rfl

theorem channel_moveHostTo (rate : Int) (l : Link) :
    m.channel.moveHostTo rate l = m.moveHostTo rate l := by
  simp only [IAtChannel.moveHostTo, moveHostTo, setBaudRate, channel]
  by_cases hfollows : m.follows rate = true
  · simp only [if_pos hfollows]
    rfl
  · simp only [if_neg hfollows]
    rfl

/-- Over the channel to a module the search is the one that `SetModuleBaudRate` makes. -/
theorem channel_findModuleBaudRate (candidates : List Int) (l : Link) :
    m.channel.findModuleBaudRate candidates l = m.findModuleBaudRate candidates l := by
  have hprobes : ∀ (rates tried : List Int) (l : Link),
      m.channel.probeCandidates rates tried l = m.probeCandidates rates tried l := by
    intro rates
    induction rates with
    | nil => intro tried l; rfl
    | cons rate rest ih =>
        intro tried l
        simp only [IAtChannel.probeCandidates, probeCandidates, channel_moveHostTo, ih]
        split
        · rfl
        · cases m.moveHostTo rate l with
          | mk moved l =>
              cases moved with
              | false => rfl
              | true =>
                  simp only [channel_queryLines]
                  cases m.queryLines .queryRate l with
                  | mk lines l =>
                      cases lines with
                      | error e => rfl
                      | ok lines => rfl
  have hset : ∀ (rate : Int) (l : Link),
      (m.channel.setBaudRate rate l).2 = (m.setBaudRate rate l).2 := by
    intro rate l
    simp only [channel, setBaudRate]
    split
    · rfl
    · rfl
  simp only [IAtChannel.findModuleBaudRate, findModuleBaudRate, hprobes, hset]
  change (if l.host ≤ 0 then _ else _) = _
  split
  · rfl
  · cases m.probeCandidates candidates [] l with
    | mk o l =>
        cases o with
        | ok found => rfl
        | error tried => rfl

end Module

end EspModemLink.AtChannel
