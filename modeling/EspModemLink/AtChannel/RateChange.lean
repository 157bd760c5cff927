import EspModemLink.AtChannel.Port
import EspModemLink.AtChannel.RateSearch

/-!
# Changing the rate of a module

`SetModuleBaudRate` over any channel. It writes a rate only where the module listed it, at most once
to change the rate and once to change it back, and it leaves the host at the rate that it returns.
-/

namespace EspModemLink.AtChannel

open Bytes AtParser Transcript

def kSetTimeout : ℕ := 5000

namespace IAtChannel

variable {σ : Type} (ch : IAtChannel σ)

/-- The confirm loop, and whether a probe confirmed the rate. -/
def confirm (desired : Int) : (attempts : ℕ) → StateM σ Bool
  | 0 => return false
  | attempts + 1 => do
      match ← ch.queryLines Command.queryRate.text kQueryTimeout with
      | .error _ => confirm desired attempts
      | .ok lines => if reportsRate lines desired then return true else confirm desired attempts

/-- The end of `SetModuleBaudRate`: the revert and the search behind an unconfirmed change. -/
def searchAgain (current desired : Int) : StateM σ (AtResult Int) := do
  let _ ← ch.sendCommand (Command.setRate current).text kSetTimeout
  match ← ch.findModuleBaudRate (baudRateCandidates (ch.getBaudRate (← get))) with
  | .error _ =>
      return .error { code := .kTimeout
                      context := "the module did not confirm " ++ toString desired ++
                        " baud and could not be found at any rate afterwards" }
  | .ok landed =>
      if ← ch.moveHostTo landed then return .ok landed
      else
        return .error { code := .kNotInitialized
                        context := "the module is answering at " ++ toString landed ++
                          " baud but the channel could not follow" }

/-- `SetModuleBaudRate` from the write on. -/
def writeRate (current desired : Int) : StateM σ (AtResult Int) := do
  match ← ch.sendCommand (Command.setRate desired).text kSetTimeout with
  | .error _ => return .ok current
  | .ok () =>
      match ← ch.setBaudRate desired with
      | .error _ =>
          return .error { code := .kNotInitialized
                          context := "module switched to " ++ toString desired ++
                            " baud but the channel could not follow" }
      | .ok () =>
          if ← ch.confirm desired kConfirmAttempts then return .ok desired
          else ch.searchAgain current desired

def setModuleBaudRate (desired : Int) : StateM σ (AtResult Int) := do
  let current := ch.getBaudRate (← get)
  if desired ≤ 0 ∨ current ≤ 0 then
    return .error { code := .kNotInitialized
                    context := "cannot set a rate on a channel that does not report one" }
  else if current = desired then return .ok current
  else
    match ← ch.queryLines Command.listRates.text kQueryTimeout with
    | .error _ => return .ok current
    | .ok supported =>
        if accepts supported desired then ch.writeRate current desired else return .ok current

end IAtChannel

/-! ## What passes -/

theorem listRates_ne_setRate (n : Int) : Command.listRates.text ≠ (Command.setRate n).text := by
  intro h
  have hmark : [63] = decimalInt n := @List.append_cancel_left _ (Command.listRates.text.take 7) _ _ h
  unfold decimalInt at hmark
  split at hmark
  · cases hmark
  · have hdigit := isDigit_of_mem_decimal n.natAbs 63 (hmark ▸ List.mem_singleton_self 63)
    exact absurd hdigit (by decide)

/-- An exchange is one of the two queries of rates, or the host's own change of rate. -/
def Exchange.isRateQuery : Exchange → Bool
  | .command _ cmd _ _ _ => cmd == Command.queryRate.text || cmd == Command.listRates.text
  | .moved _ _ => true
  | .line _ _ | .shut _ _ => false

/-- What passes besides queries of rates. -/
def writesOf (es : List Exchange) : List Exchange := es.filter fun x => !x.isRateQuery

@[simp] theorem writesOf_nil : writesOf [] = [] := rfl

@[simp] theorem writesOf_append (es more : List Exchange) :
    writesOf (es ++ more) = writesOf es ++ writesOf more := List.filter_append ..

@[simp] theorem writesOf_moved (baud : Int) (r : AtResult Unit) (es : List Exchange) :
    writesOf (.moved baud r :: es) = writesOf es := rfl

/-- A rate that is written, from where the host is. -/
def rateWrite (host rate : Int) (sent : AtResult Unit) (lines : List Bytes) : Exchange :=
  .command host (Command.setRate rate).text kSetTimeout sent lines

section

variable (rate : Int) (timeout : ℕ) (r : AtResult Unit) (lines : List Bytes) (es : List Exchange)

@[simp] theorem writesOf_queryRate :
    writesOf (.command rate Command.queryRate.text timeout r lines :: es) = writesOf es := by
  simp [writesOf, Exchange.isRateQuery]

@[simp] theorem writesOf_listRates :
    writesOf (.command rate Command.listRates.text timeout r lines :: es) = writesOf es := by
  simp [writesOf, Exchange.isRateQuery]

@[simp] theorem writesOf_rateWrite (n : Int) :
    writesOf (rateWrite rate n r lines :: es) = rateWrite rate n r lines :: writesOf es := by
  have hquery := (IAtChannel.queryRate_ne_setRate n).symm
  have hlist := (listRates_ne_setRate n).symm
  simp [writesOf, rateWrite, Exchange.isRateQuery, hquery, hlist]

end

/-- The module answered a query of its rate. -/
def RateTold (es : List Exchange) : Prop :=
  ∃ rate lines, .command rate Command.queryRate.text kQueryTimeout (.ok ()) lines ∈ es

theorem RateTold.append_left {es : List Exchange} (h : RateTold es) (more : List Exchange) :
    RateTold (es ++ more) := by
  obtain ⟨rate, lines, hmem⟩ := h
  exact ⟨rate, lines, List.mem_append_left more hmem⟩

theorem RateTold.append_right {more : List Exchange} (h : RateTold more) (es : List Exchange) :
    RateTold (es ++ more) := by
  obtain ⟨rate, lines, hmem⟩ := h
  exact ⟨rate, lines, List.mem_append_right es hmem⟩

namespace Port

variable {σ : Type} (port : Port σ)

theorem adds_queryLines (cmd : Bytes) (timeout : ℕ) (s : σ) :
    Adds (port.transcribed.queryLines cmd timeout) s fun result s' es =>
      port.getBaudRate s' = port.getBaudRate s ∧
      ∃ sent lines, es = [.command (port.getBaudRate s) cmd timeout sent lines] ∧
        ∀ read, result = .ok read → sent = .ok () ∧ lines = read := by
  intro log
  obtain ⟨sent, s', es, hsend, hrate, rfl⟩ := port.adds_sendCommand cmd timeout s log
  unfold IAtChannel.queryLines
  rw [hsend]
  cases sent with
  | error e =>
      refine ⟨.error e, s', _, rfl, hrate, _, _, rfl, ?_⟩
      rintro read ⟨⟩
  | ok =>
      refine ⟨.ok (port.getResponseLines s'), s', _, rfl, hrate, _, _, rfl, ?_⟩
      rintro read ⟨⟩
      exact ⟨rfl, rfl⟩

/-- Moving the host sends nothing, and ends at the rate where it succeeds. -/
theorem adds_moveHostTo (rate : Int) (s : σ) :
    Adds (port.transcribed.moveHostTo rate) s fun moved s' es =>
      (moved = true → port.getBaudRate s' = rate) ∧ writesOf es = [] := by
  intro log
  by_cases hat : port.getBaudRate s = rate
  · refine ⟨true, s, [], ?_, fun _ => hat, rfl⟩
    rw [List.append_nil]
    exact if_pos hat
  · obtain ⟨result, s', es, hset, hrate, rfl⟩ := port.adds_setBaudRate rate s log
    refine ⟨result.isOk, s', [.moved rate result], ?_, ?_, rfl⟩
    · unfold IAtChannel.moveHostTo
      rw [hset]
      exact if_neg hat
    · intro hmoved
      cases result with
      | error e => cases hmoved
      | ok => exact hrate rfl

/-- The search sends queries alone, and finds a rate only where one was answered. -/
theorem adds_probeCandidates (rates tried : List Int) (s : σ) :
    Adds (port.transcribed.probeCandidates rates tried) s fun found _ es =>
      writesOf es = [] ∧ ∀ rate, found = .ok rate → RateTold es := by
  induction rates generalizing tried s with
  | nil =>
      refine .pure ⟨rfl, ?_⟩
      rintro rate ⟨⟩
  | cons rate rest ih =>
      -- the rest of the search, behind what added no write
      have hrest : ∀ (tried : List Int) (s₁ : σ) (es₁ : List Exchange), writesOf es₁ = [] →
          Adds (port.transcribed.probeCandidates rest tried) s₁ fun found _ more =>
            writesOf (es₁ ++ more) = [] ∧ ∀ rate, found = .ok rate → RateTold (es₁ ++ more) := by
        intro tried s₁ es₁ hquiet₁
        refine (ih tried s₁).mono ?_
        rintro found s₂ es₂ ⟨hquiet₂, hheard⟩
        exact ⟨by simp [hquiet₁, hquiet₂], fun rate hfound =>
          (hheard rate hfound).append_right es₁⟩
      intro log
      unfold IAtChannel.probeCandidates
      by_cases hskip : rate ≤ 0 ∨ rate ∈ tried
      · rw [if_pos hskip]
        exact ih tried s log
      · rw [if_neg hskip]
        obtain ⟨moved, s₁, es₁, hmove, -, hquiet₁⟩ := port.adds_moveHostTo rate s log
        rw [hmove]
        cases moved with
        | false => exact (hrest (tried ++ [rate]) s₁ es₁ hquiet₁).behind log
        | true =>
            obtain ⟨lines, s₂, es₂, hquery, -, sent, held, rfl, hok⟩ :=
              port.adds_queryLines Command.queryRate.text kQueryTimeout s₁ (log ++ es₁)
            dsimp only
            rw [hquery]
            cases lines with
            | error e =>
                rw [List.append_assoc]
                exact (hrest (tried ++ [rate]) s₂ _ (by simp [hquiet₁])).behind log
            | ok lines =>
                obtain ⟨rfl, rfl⟩ := hok lines rfl
                refine ⟨.ok (foundRate held rate), s₂,
                  es₁ ++ [.command (port.getBaudRate s₁) Command.queryRate.text kQueryTimeout (.ok ()) held],
                  ?_, by simp [hquiet₁], fun _ _ =>
                  ⟨_, _, List.mem_append_right es₁ (List.mem_singleton_self _)⟩⟩
                rw [← List.append_assoc]

theorem adds_findModuleBaudRate (candidates : List Int) (s : σ) :
    Adds (port.transcribed.findModuleBaudRate candidates) s fun found _ es =>
      writesOf es = [] ∧ ∀ rate, found = .ok rate → RateTold es := by
  intro log
  have hentry : port.transcribed.getBaudRate (s, log) = port.getBaudRate s := rfl
  unfold IAtChannel.findModuleBaudRate
  rw [hentry]
  dsimp only
  split
  · refine ⟨_, s, [], by rw [List.append_nil], rfl, ?_⟩
    rintro rate ⟨⟩
  · obtain ⟨found, s₁, es₁, hprobe, hquiet, hheard⟩ := port.adds_probeCandidates candidates [] s log
    rw [hprobe]
    cases found with
    | ok rate => exact ⟨_, s₁, es₁, rfl, hquiet, fun _ _ => hheard rate rfl⟩
    | error tried =>
        obtain ⟨result, s₂, es₂, hset, -, rfl⟩ :=
          port.adds_setBaudRate (port.getBaudRate s) s₁ (log ++ es₁)
        have hback := congrArg Prod.snd hset
        rw [List.append_assoc] at hback
        refine ⟨_, s₂, _, congrArg (Prod.mk (Except.error _)) hback, by simp [hquiet], ?_⟩
        rintro rate ⟨⟩

/-- The probes of a change that was followed. -/
theorem adds_confirm (desired : Int) (attempts : ℕ) (s : σ) :
    Adds (port.transcribed.confirm desired attempts) s fun confirmed s' es =>
      port.getBaudRate s' = port.getBaudRate s ∧ writesOf es = [] ∧
        (confirmed = true → RateTold es) := by
  induction attempts generalizing s with
  | zero => exact .pure ⟨rfl, rfl, fun h => by cases h⟩
  | succ attempts ih =>
      refine (port.adds_queryLines _ _ s).bind ?_
      rintro lines s₁ _ ⟨hrate, sent, held, rfl, hok⟩
      have hagain : Adds (port.transcribed.confirm desired attempts) s₁ fun confirmed s' more =>
          port.getBaudRate s' = port.getBaudRate s ∧
          writesOf ([.command (port.getBaudRate s) Command.queryRate.text kQueryTimeout sent held] ++
            more) = [] ∧
          (confirmed = true →
            RateTold ([.command (port.getBaudRate s) Command.queryRate.text kQueryTimeout sent held] ++
              more)) := by
        refine (ih s₁).mono ?_
        rintro confirmed s₂ es ⟨hstays, hquiet, hheard⟩
        exact ⟨hstays.trans hrate, by simp [hquiet], fun h => (hheard h).append_right _⟩
      cases lines with
      | error e => exact hagain
      | ok lines =>
          obtain ⟨rfl, rfl⟩ := hok lines rfl
          refine .ite (fun _ => .pure ⟨hrate, by simp, fun _ => ?_⟩) fun _ => hagain
          exact ⟨_, _, List.mem_append_left _ (List.mem_singleton_self _)⟩

/-- Behind an unconfirmed change there is one write, of the rate at the start, and the host ends where
the module answered. -/
theorem adds_searchAgain (current desired : Int) (s : σ) :
    Adds (port.transcribed.searchAgain current desired) s fun result s' es =>
      (∃ sent lines, writesOf es = [rateWrite (port.getBaudRate s) current sent lines]) ∧
        ∀ rate, result = .ok rate → port.getBaudRate s' = rate ∧ RateTold es := by
  refine (port.adds_sendCommand _ _ s).bind ?_
  rintro sent s₁ _ ⟨-, rfl⟩
  refine (adds_get s₁).bind ?_
  rintro t _ _ ⟨-, hs, rfl⟩
  obtain rfl : s₁ = _ := hs.symm
  refine (port.adds_findModuleBaudRate _ _).bind ?_
  rintro found s₂ es₂ ⟨hquiet₂, hheard⟩
  have hwrite {es : List Exchange} (h : writesOf es = []) : ∃ sent' lines, writesOf
      ([.command (port.getBaudRate s) (Command.setRate current).text kSetTimeout sent
        (port.getResponseLines s₁)] ++ es) = [rateWrite (port.getBaudRate s) current sent' lines] := by
    refine ⟨sent, port.getResponseLines s₁, ?_⟩
    rw [← rateWrite, List.singleton_append, writesOf_rateWrite, h]
  cases found with
  | error e =>
      refine .pure ⟨hwrite (by simp [hquiet₂]), ?_⟩
      rintro rate ⟨⟩
  | ok landed =>
      refine (port.adds_moveHostTo landed s₂).bind ?_
      rintro moved s₃ es₃ ⟨hrate, hquiet₃⟩
      refine .ite (fun hmoved => ?_) fun _ => ?_
      · refine .pure ⟨hwrite (by simp [hquiet₂, hquiet₃]), ?_⟩
        rintro rate ⟨⟩
        exact ⟨hrate hmoved, (((hheard landed rfl).append_left _).append_right _).append_right _⟩
      · refine .pure ⟨hwrite (by simp [hquiet₂, hquiet₃]), ?_⟩
        rintro rate ⟨⟩

/-- What is written to change the rate: nothing, or the rate that is asked for, and behind it the one
at the start if the change was acknowledged and not confirmed. -/
inductive WritesRate (current desired : Int) : List Exchange → Prop
  | nothing : WritesRate current desired []
  | desired (sent : AtResult Unit) (lines : List Bytes) :
      WritesRate current desired [rateWrite current desired sent lines]
  | reverted (lines : List Bytes) (sent : AtResult Unit) (lines' : List Bytes) :
      WritesRate current desired
        [rateWrite current desired (.ok ()) lines, rateWrite desired current sent lines']

/-- The module acknowledged the change. -/
def Acknowledged (current desired : Int) (es : List Exchange) : Prop :=
  ∃ lines more, writesOf es = rateWrite current desired (.ok ()) lines :: more

/-- The write of a rate, and the write back of the one at the start if the change is not confirmed. -/
theorem adds_writeRate (desired : Int) (s : σ) :
    Adds (port.transcribed.writeRate (port.getBaudRate s) desired) s fun result s' es =>
      WritesRate (port.getBaudRate s) desired (writesOf es) ∧
      (∀ rate, result = .ok rate → port.getBaudRate s' = rate ∧
        (Acknowledged (port.getBaudRate s) desired es → RateTold es)) ∧
      ∀ e, result = .error e → Acknowledged (port.getBaudRate s) desired es := by
  refine (port.adds_sendCommand _ _ s).bind ?_
  rintro sent s₁ _ ⟨hrate₁, rfl⟩
  generalize hwrite : Exchange.command (port.getBaudRate s) _ _ sent _ = write
  obtain rfl : rateWrite (port.getBaudRate s) desired sent (port.getResponseLines s₁) = write := hwrite
  cases sent with
  | error e =>
      refine .pure ⟨?_, ?_, ?_⟩
      · simpa using WritesRate.desired _ _
      · rintro rate ⟨⟩
        refine ⟨hrate₁, ?_⟩
        rintro ⟨lines, more, hwrites⟩
        rw [List.append_nil, writesOf_rateWrite] at hwrites
        have hhead := (List.cons.inj hwrites).1
        unfold rateWrite at hhead
        cases hhead
      · rintro e ⟨⟩
  | ok =>
      have hack (more : List Exchange) : Acknowledged (port.getBaudRate s) desired
          ([rateWrite (port.getBaudRate s) desired (.ok ()) (port.getResponseLines s₁)] ++ more) :=
        ⟨port.getResponseLines s₁, writesOf more, by simp⟩
      refine (port.adds_setBaudRate desired s₁).bind ?_
      rintro moved s₂ _ ⟨hrate₂, rfl⟩
      cases moved with
      | error e =>
          refine .pure ⟨by simpa using WritesRate.desired _ _, ?_, fun _ _ => hack _⟩
          rintro rate ⟨⟩
      | ok =>
          have hat : port.getBaudRate s₂ = desired := hrate₂ rfl
          refine (port.adds_confirm desired kConfirmAttempts s₂).bind ?_
          rintro confirmed s₃ es₃ ⟨hrate₃, hquiet₃, hheard⟩
          refine .ite (fun hconfirmed => ?_) fun _ => ?_
          · refine .pure ⟨by simpa [hquiet₃] using WritesRate.desired _ _, ?_, fun _ _ => hack _⟩
            rintro rate ⟨⟩
            exact ⟨hrate₃.trans hat, fun _ =>
              (((hheard hconfirmed).append_left _).append_right _).append_right _⟩
          · refine (port.adds_searchAgain _ desired s₃).mono ?_
            rintro result s₄ es₄ ⟨⟨sent, lines, hwrites⟩, hlanded⟩
            rw [hrate₃, hat] at hwrites
            refine ⟨by simpa [hquiet₃, hwrites] using WritesRate.reverted _ _ _, fun rate hok => ?_,
              fun _ _ => hack _⟩
            obtain ⟨hrate, hheard⟩ := hlanded rate hok
            exact ⟨hrate, fun _ =>
              ((hheard.append_right _).append_right _).append_right _⟩

/-- What is promised of a change of rate that begins in `s`. -/
structure CarefulChange (desired : Int) (s : σ) (result : AtResult Int) (s' : σ)
    (es : List Exchange) : Prop where
  writes : WritesRate (port.getBaudRate s) desired (writesOf es)
  listed : writesOf es ≠ [] → ∃ lines, accepts lines desired = true ∧ es.head? = some
    (.command (port.getBaudRate s) Command.listRates.text kQueryTimeout (.ok ()) lines)
  follows : ∀ rate, result = .ok rate → port.getBaudRate s' = rate
  heard : ∀ rate, result = .ok rate → Acknowledged (port.getBaudRate s) desired es → RateTold es
  fails : ∀ e, result = .error e → desired ≤ 0 ∨ port.getBaudRate s ≤ 0 ∨
    Acknowledged (port.getBaudRate s) desired es

theorem adds_setModuleBaudRate (desired : Int) (s : σ) :
    Adds (port.transcribed.setModuleBaudRate desired) s (port.CarefulChange desired s) := by
  refine (adds_get s).bind ?_
  rintro ⟨s₀, log⟩ s' _ ⟨hs, hs', rfl⟩
  obtain rfl : s = s₀ := hs.symm
  obtain rfl : s = s' := hs'.symm
  refine .ite (fun hrate => .pure ?_) fun hrate => .ite (fun hsame => .pure ?_) fun hsame => ?_
  · refine ⟨.nothing, fun h => absurd rfl h, ?_, ?_, fun _ _ => ?_⟩
    · rintro rate ⟨⟩
    · rintro rate ⟨⟩
    · exact hrate.elim .inl fun h => .inr (.inl h)
  · refine ⟨.nothing, fun h => absurd rfl h, ?_, ?_, ?_⟩
    · rintro rate ⟨⟩
      rfl
    · rintro rate - ⟨lines, more, hwrites⟩
      cases hwrites
    · rintro e ⟨⟩
  · refine (port.adds_queryLines _ _ s).bind ?_
    rintro lines s₁ _ ⟨hrate₁, sent, held, rfl, hok⟩
    -- nothing but the query has passed
    have hunchanged : port.CarefulChange desired s (.ok (port.getBaudRate s)) s₁
        ([.command (port.getBaudRate s) Command.listRates.text kQueryTimeout sent held] ++ []) := by
      refine ⟨by simpa using WritesRate.nothing, fun h => absurd (by simp) h, ?_, ?_, ?_⟩
      · rintro rate ⟨⟩
        exact hrate₁
      · rintro rate - ⟨lines, more, hwrites⟩
        exact absurd hwrites (by simp)
      · rintro e ⟨⟩
    cases lines with
    | error e => exact .pure hunchanged
    | ok lines =>
        obtain ⟨rfl, rfl⟩ := hok lines rfl
        refine .ite (fun haccepts => ?_) fun _ => .pure hunchanged
        have hwrite := port.adds_writeRate desired s₁
        rw [hrate₁] at hwrite
        refine hwrite.mono ?_
        rintro result s₂ es ⟨hwrites, hsucceeds, hfails⟩
        rw [List.nil_append]
        have hsame : writesOf ([.command (port.getBaudRate s) Command.listRates.text kQueryTimeout
            (.ok ()) held] ++ es) = writesOf es := by simp
        have hack : Acknowledged (port.getBaudRate s) desired ([.command (port.getBaudRate s)
            Command.listRates.text kQueryTimeout (.ok ()) held] ++ es) ↔
            Acknowledged (port.getBaudRate s) desired es := by
          rw [Acknowledged, hsame, Acknowledged]
        exact ⟨by rw [hsame]; exact hwrites, fun _ => ⟨held, haccepts, rfl⟩,
          fun rate hrate => (hsucceeds rate hrate).1,
          fun rate hrate h => ((hsucceeds rate hrate).2 (hack.mp h)).append_right _,
          fun e he => .inr (.inr (hack.mpr (hfails e he)))⟩

end Port

/-! ## The change over a module -/

namespace Module

variable (m : Module)

theorem spelled_setRate {n : Int} (hpos : 0 < n) (hlt : n < 2 ^ 31) :
    spelled (Command.setRate n).text = some (.setRate n) := by
  obtain ⟨k, rfl⟩ : ∃ k : ℕ, n = k := ⟨n.toNat, by omega⟩
  have hprefix : (ascii ['A', 'T'] ++ iprKey ++ ascii ['=']).isPrefixOf
      (Command.setRate k).text = true := by
    simp [Command.text]
  have hread : parseInt ((Command.setRate k).text.drop 7) = some (k : Int) := by
    have hdigits : (Command.setRate k).text.drop 7 = decimal k := by
      have hsign : decimalInt k = decimal k := if_neg (by omega)
      rw [← hsign]
      exact List.drop_left' rfl
    rw [hdigits]
    exact parseInt_decimal (by omega)
  rw [spelled, if_neg (IAtChannel.queryRate_ne_setRate k).symm,
    if_neg (listRates_ne_setRate k).symm, if_pos hprefix, hread]
  rfl

theorem channel_listLines (timeout : ℕ) (l : Link) :
    m.channel.queryLines Command.listRates.text timeout l = m.queryLines .listRates l := by
  have hspelled : spelled Command.listRates.text = some .listRates := by decide
  have hsend : m.channel.sendCommand Command.listRates.text timeout l =
      m.sendCommand .listRates l := by
    simp only [channel, hspelled]
  rw [IAtChannel.queryLines, queryLines, hsend]
  obtain ⟨result, l⟩ := m.sendCommand .listRates l
  cases result with
  | error e => rfl
  | ok => rfl

theorem channel_confirm (desired : Int) (attempts : ℕ) (l : Link) :
    m.channel.confirm desired attempts l = m.confirm desired attempts l := by
  induction attempts generalizing l with
  | zero => rfl
  | succ attempts ih =>
      rw [IAtChannel.confirm, bind_apply, channel_queryLines, confirm]
      cases m.queryLines .queryRate l with
      | mk lines l =>
          cases lines with
          | error e => exact ih l
          | ok lines =>
              dsimp only
              split
              · rfl
              · exact ih l

theorem channel_sendRate {n : Int} (hpos : 0 < n) (hlt : n < 2 ^ 31) (timeout : ℕ) (l : Link) :
    m.channel.sendCommand (Command.setRate n).text timeout l = m.sendCommand (.setRate n) l := by
  simp only [channel, spelled_setRate hpos hlt]

theorem channel_searchAgain {current : Int} (hpos : 0 < current) (hlt : current < 2 ^ 31)
    (desired : Int) (l : Link) :
    m.channel.searchAgain current desired l = m.searchAgain current desired l := by
  rw [IAtChannel.searchAgain, bind_apply, m.channel_sendRate hpos hlt, searchAgain]
  generalize (m.sendCommand (.setRate current) l).2 = l
  rw [bind_apply, bind_apply, channel_findModuleBaudRate]
  generalize hfind : m.findModuleBaudRate _ _ = found
  rw [show m.findModuleBaudRate (baudRateCandidates l.host) l = found from hfind]
  obtain ⟨found, l'⟩ := found
  cases found with
  | error e => rfl
  | ok landed =>
      dsimp only
      rw [bind_apply, channel_moveHostTo]
      cases m.moveHostTo landed l' with
      | mk moved l' =>
          cases moved with
          | false => rfl
          | true => rfl

theorem channel_setBaudRate (baud : Int) (l : Link) :
    ((m.channel.setBaudRate baud l).1.isOk, (m.channel.setBaudRate baud l).2) =
      m.setBaudRate baud l := by
  simp only [channel, setBaudRate]
  split
  · rfl
  · rfl

theorem channel_writeRate {current desired : Int} (hcurrent : 0 < current)
    (hcurrent' : current < 2 ^ 31) (hdesired : 0 < desired) (hdesired' : desired < 2 ^ 31)
    (l : Link) : m.channel.writeRate current desired l = m.writeRate current desired l := by
  rw [IAtChannel.writeRate, bind_apply, m.channel_sendRate hdesired hdesired', writeRate]
  obtain ⟨sent, l⟩ := m.sendCommand (.setRate desired) l
  cases sent with
  | error e => rfl
  | ok =>
      dsimp only
      rw [bind_apply, ← channel_setBaudRate]
      obtain ⟨moved, l⟩ := m.channel.setBaudRate desired l
      cases moved with
      | error e => rfl
      | ok =>
          change _ = m.confirmOrSearch current desired l
          dsimp only
          rw [bind_apply, channel_confirm, confirmOrSearch]
          obtain ⟨confirmed, l⟩ := m.confirm desired kConfirmAttempts l
          cases confirmed with
          | true => rfl
          | false => exact m.channel_searchAgain hcurrent hcurrent' desired l

/-- Over the channel to a module it is the change that `BaudAlignment` follows the module through. -/
theorem channel_setModuleBaudRate {desired : Int} {l : Link} (hdesired : desired < 2 ^ 31)
    (hhost : l.host < 2 ^ 31) :
    m.channel.setModuleBaudRate desired l = m.setModuleBaudRate desired l := by
  unfold IAtChannel.setModuleBaudRate setModuleBaudRate
  rw [bind_apply]
  by_cases hrate : desired ≤ 0 ∨ l.host ≤ 0
  · rw [if_pos hrate]
    exact congrFun (if_pos hrate) l
  · obtain ⟨hpositive, hhost'⟩ := not_or.mp hrate
    rw [if_neg hrate]
    refine (congrFun (if_neg hrate) l).trans ?_
    by_cases hsame : l.host = desired
    · rw [if_pos hsame]
      exact congrFun (if_pos hsame) l
    · rw [if_neg hsame]
      refine (congrFun (if_neg hsame) l).trans ?_
      rw [bind_apply, channel_listLines]
      obtain ⟨lines, l'⟩ := m.queryLines .listRates l
      cases lines with
      | error e => rfl
      | ok supported =>
          dsimp only
          by_cases haccepts : accepts supported desired = true
          · rw [if_pos haccepts, if_pos haccepts]
            exact m.channel_writeRate (by omega) hhost (by omega) hdesired l'
          · rw [if_neg haccepts, if_neg haccepts]
            rfl

end Module

end EspModemLink.AtChannel
