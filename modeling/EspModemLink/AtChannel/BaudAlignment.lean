import EspModemLink.AtChannel.Uart
import EspModemLink.AtParser

/-!
# Aligning the baud rates

A module hears a command only while the host talks at its live rate. `SetModuleBaudRate` promises
that the rate it returns is one the module answers at, and it keeps that promise unless its last
search is answered with another rate.
-/

namespace EspModemLink.AtChannel

open Bytes AtParser

/-! ## The module and the channel to it -/

inductive Command where
  | queryRate
  | listRates
  | setRate (rate : Int)
deriving DecidableEq

/-- `std::to_string` of an `int`. -/
def decimalInt (n : Int) : Bytes :=
  if n < 0 then 45 :: decimal n.natAbs else decimal n.natAbs

def iprKey : Bytes := ascii ['+', 'I', 'P', 'R']

def Command.text : Command → Bytes
  | .queryRate => ascii ['A', 'T'] ++ iprKey ++ ascii ['?']
  | .listRates => ascii ['A', 'T'] ++ iprKey ++ ascii ['=', '?']
  | .setRate rate => ascii ['A', 'T'] ++ iprKey ++ ascii ['='] ++ decimalInt rate

/-- What a module does with a command it heard. A write that it `applies` it also acknowledges. -/
structure Reaction where
  result : AtResult Unit := .ok ()
  lines : List Bytes := []
  applies : Bool := false

/-- What `SendCommand` reports of a command that was heard. -/
def Reaction.answer (r : Reaction) : Command → AtResult Unit
  | .setRate _ => if r.applies then .ok () else r.result
  | .queryRate | .listRates => r.result

/-- The live rate behind it. -/
def Reaction.liveAfter (r : Reaction) (live : Int) : Command → Int
  | .setRate rate => if r.applies then rate else live
  | .queryRate | .listRates => live

/-- A module, by the number and the text of the commands it hears, and the rates that the channel
to it can be moved to. -/
structure Module where
  react : ℕ → Bytes → Reaction
  follows : Int → Bool

/-- The two ends of the channel: the rate of the host, the live rate of the module, the commands
heard so far and the response lines that the channel holds. -/
structure Link where
  host : Int
  live : Int
  heard : ℕ := 0
  lines : List Bytes := []

/-- A command takes effect at the module. -/
def Link.hear (l : Link) (c : Command) (r : Reaction) : Link :=
  { l with live := r.liveAfter l.live c, heard := l.heard + 1 }

@[simp] theorem Link.hear_host (l : Link) (c : Command) (r : Reaction) :
    (l.hear c r).host = l.host := rfl

@[simp] theorem Link.hear_heard (l : Link) (c : Command) (r : Reaction) :
    (l.hear c r).heard = l.heard + 1 := rfl

@[simp] theorem Link.hear_live (l : Link) (c : Command) (r : Reaction) :
    (l.hear c r).live = r.liveAfter l.live c := rfl

namespace Module

variable (m : Module)

/-- What the module does with the next command if it hears it. -/
def reaction (l : Link) (c : Command) : Reaction := m.react l.heard c.text

/-- `SendCommand`. -/
def sendCommand (c : Command) (l : Link) : AtResult Unit × Link :=
  if l.host = l.live then
    match (m.reaction l c).answer c with
    | .ok () => (.ok (), { l.hear c (m.reaction l c) with lines := (m.reaction l c).lines })
    | .error e => (.error e, l.hear c (m.reaction l c))
  else (timedOut ("command timeout: " ++ text c.text), l)

/-- `SetBaudRate`, and whether it succeeded. -/
def setBaudRate (rate : Int) (l : Link) : Bool × Link :=
  if m.follows rate then (true, { l with host := rate }) else (false, l)

/-- `QueryLines`. -/
def queryLines (c : Command) (l : Link) : AtResult (List Bytes) × Link :=
  match m.sendCommand c l with
  | (.error e, l) => (.error e, l)
  | (.ok (), l) => (.ok l.lines, l)

def moveHostTo (rate : Int) (l : Link) : Bool × Link :=
  if l.host = rate then (true, l) else m.setBaudRate rate l

end Module

/-! ## Reading an answer -/

/-- `FindIprLine`. -/
def findIprLine (lines : List Bytes) : Option Bytes :=
  lines.find? fun line => startsWith (line.dropWhile isBlank) iprKey

def parseRate (line : Bytes) : Option Int := parseInt (stripKeyPrefix line)

/-- No digit stands at an index. -/
def noDigitAt (s : Bytes) (i : ℕ) : Bool := (s[i]?.map isDigit) != some true

/-- The loop of `ListsRate`. `fuel` bounds its passes. -/
def listsNumberFrom (supported needle : Bytes) : (fuel : ℕ) → (start : ℕ) → Bool
  | 0, _ => false
  | fuel + 1, start =>
      match find needle (supported.drop start) with
      | none => false
      | some offset =>
          let pos := start + offset
          let starts := pos == 0 || noDigitAt supported (pos - 1)
          let ends := noDigitAt supported (pos + needle.length)
          if starts && ends then true
          else listsNumberFrom supported needle fuel (pos + needle.length)

def listsRate (supported : Bytes) (rate : Int) : Bool :=
  listsNumberFrom supported (decimalInt rate) (supported.length + 1) 0

/-- The answer to `AT+IPR=?` lists a rate. -/
def accepts (supported : List Bytes) (rate : Int) : Bool :=
  match findIprLine supported with
  | none => false
  | some ipr => listsRate ipr rate

/-- The answer to `AT+IPR?` names a rate. -/
def reportsRate (lines : List Bytes) (rate : Int) : Bool :=
  match findIprLine lines with
  | none => false
  | some now => parseRate now == some rate

/-- The rate that a module answering at `rate` is taken to be at. -/
def foundRate (lines : List Bytes) (rate : Int) : Int :=
  match (findIprLine lines).bind parseRate with
  | some parsed => if 0 < parsed then parsed else rate
  | none => rate

/-! ## The negotiation -/

def kFactoryRate : Int := 115200
def kHighestKnownRate : Int := 921600
def kConfirmAttempts : ℕ := 4

/-- The loop of `BaudRateCandidates`. -/
def addCandidates : List Int → (rates : List Int) → List Int
  | [], rates => rates
  | rate :: rest, rates =>
      if rate ≤ 0 ∨ rate ∈ rates then addCandidates rest rates
      else addCandidates rest (rates ++ [rate])

def baudRateCandidates (requested : Int) : List Int :=
  addCandidates [requested, kHighestKnownRate, kFactoryRate] []

namespace Module

variable (m : Module)

/-- The loop of `FindModuleBaudRate`: the rate found, or the rates tried in vain. -/
def probeCandidates : List Int → (tried : List Int) → Link → Except (List Int) Int × Link
  | [], tried, l => (.error tried, l)
  | rate :: rest, tried, l =>
      if rate ≤ 0 ∨ rate ∈ tried then probeCandidates rest tried l
      else
        match m.moveHostTo rate l with
        | (false, l) => probeCandidates rest (tried ++ [rate]) l
        | (true, l) =>
            match m.queryLines .queryRate l with
            | (.error _, l) => probeCandidates rest (tried ++ [rate]) l
            | (.ok lines, l) => (.ok (foundRate lines rate), l)

def findModuleBaudRate (candidates : List Int) (l : Link) : AtResult Int × Link :=
  let entryRate := l.host
  if entryRate ≤ 0 then
    (.error { code := .kNotInitialized, context := "the channel does not report a baud rate" }, l)
  else
    match m.probeCandidates candidates [] l with
    | (.ok rate, l) => (.ok rate, l)
    | (.error tried, l) =>
        (.error { code := .kTimeout
                  context := "the module did not answer at any of the " ++
                    toString tried.length ++ " rates probed" },
          (m.setBaudRate entryRate l).2)

/-- The confirm loop, and whether a probe confirmed the rate. -/
def confirm (desired : Int) : (attempts : ℕ) → Link → Bool × Link
  | 0, l => (false, l)
  | attempts + 1, l =>
      match m.queryLines .queryRate l with
      | (.error _, l) => confirm desired attempts l
      | (.ok lines, l) => if reportsRate lines desired then (true, l) else confirm desired attempts l

/-- The end of `SetModuleBaudRate`: the revert and the search behind an unconfirmed change. -/
def searchAgain (current desired : Int) (l : Link) : AtResult Int × Link :=
  let l := (m.sendCommand (.setRate current) l).2
  match m.findModuleBaudRate (baudRateCandidates l.host) l with
  | (.error _, l) =>
      (.error { code := .kTimeout
                context := "the module did not confirm " ++ toString desired ++
                  " baud and could not be found at any rate afterwards" }, l)
  | (.ok landed, l) =>
      match m.moveHostTo landed l with
      | (false, l) =>
          (.error { code := .kNotInitialized
                    context := "the module is answering at " ++ toString landed ++
                      " baud but the channel could not follow" }, l)
      | (true, l) => (.ok landed, l)

/-- `SetModuleBaudRate` behind the host's own change of rate. -/
def confirmOrSearch (current desired : Int) (l : Link) : AtResult Int × Link :=
  match m.confirm desired kConfirmAttempts l with
  | (true, l) => (.ok desired, l)
  | (false, l) => m.searchAgain current desired l

/-- `SetModuleBaudRate` from the write on. -/
def writeRate (current desired : Int) (l : Link) : AtResult Int × Link :=
  match m.sendCommand (.setRate desired) l with
  | (.error _, l) => (.ok current, l)
  | (.ok (), l) =>
      match m.setBaudRate desired l with
      | (false, l) =>
          (.error { code := .kNotInitialized
                    context := "module switched to " ++ toString desired ++
                      " baud but the channel could not follow" }, l)
      | (true, l) => m.confirmOrSearch current desired l

def setModuleBaudRate (desired : Int) (l : Link) : AtResult Int × Link :=
  let current := l.host
  if desired ≤ 0 ∨ current ≤ 0 then
    (.error { code := .kNotInitialized
              context := "cannot set a rate on a channel that does not report one" }, l)
  else if current = desired then (.ok current, l)
  else
    match m.queryLines .listRates l with
    | (.error _, l) => (.ok current, l)
    | (.ok supported, l) =>
        if accepts supported desired then m.writeRate current desired l else (.ok current, l)

/-! ## Single commands -/

theorem moveHostTo_eq (rate : Int) (l : Link) :
    m.moveHostTo rate l =
      if l.host = rate ∨ m.follows rate = true then (true, { l with host := rate })
      else (false, l) := by
  unfold moveHostTo setBaudRate
  by_cases hhost : l.host = rate
  · subst hhost
    simp only [true_or, if_true]
  · by_cases hfollows : m.follows rate = true
    · simp only [hhost, hfollows, or_true, if_true, if_false]
    · simp [hhost, hfollows]

theorem sendCommand_unheard {l : Link} (h : l.host ≠ l.live) (c : Command) :
    m.sendCommand c l = (timedOut ("command timeout: " ++ text c.text), l) := if_neg h

/-- A command that is heard leaves the host where it is. -/
theorem sendCommand_heard {l : Link} (h : l.host = l.live) (c : Command) :
    ∃ lines, m.sendCommand c l =
      ((m.reaction l c).answer c, { l.hear c (m.reaction l c) with lines := lines }) := by
  unfold sendCommand
  rw [if_pos h]
  cases hanswer : (m.reaction l c).answer c with
  | ok => exact ⟨_, rfl⟩
  | error e => exact ⟨l.lines, rfl⟩

theorem queryLines_unheard {l : Link} (h : l.host ≠ l.live) (c : Command) :
    ∃ e, m.queryLines c l = (.error e, l) := by
  refine ⟨{ code := .kTimeout, context := "command timeout: " ++ text c.text }, ?_⟩
  simp only [queryLines, sendCommand_unheard m h, timedOut]

theorem queryLines_ok {l : Link} (h : l.host = l.live) {c : Command}
    (hanswer : (m.reaction l c).answer c = .ok ()) :
    m.queryLines c l = (.ok (m.reaction l c).lines,
      { l.hear c (m.reaction l c) with lines := (m.reaction l c).lines }) := by
  simp only [queryLines, sendCommand, if_pos h, hanswer]

theorem queryLines_error {l : Link} (h : l.host = l.live) {c : Command} {e : AtError}
    (hanswer : (m.reaction l c).answer c = .error e) :
    m.queryLines c l = (.error e, l.hear c (m.reaction l c)) := by
  simp only [queryLines, sendCommand, if_pos h, hanswer]

/-! ## The search -/

/-- A rate that the module is not at is tried in vain. -/
theorem probeCandidates_missed {rates : List Int} (tried : List Int) {l : Link}
    (h : l.live ∉ rates) : ∃ tried' l', m.probeCandidates rates tried l = (.error tried', l') := by
  induction rates generalizing tried l with
  | nil => exact ⟨tried, l, rfl⟩
  | cons rate rest ih =>
      obtain ⟨hne, hrest⟩ : l.live ≠ rate ∧ l.live ∉ rest := by simpa using h
      rw [probeCandidates, moveHostTo_eq]
      split
      · exact ih tried hrest
      · by_cases hmove : l.host = rate ∨ m.follows rate = true
        · have hunheard : ({ l with host := rate } : Link).host ≠ l.live := Ne.symm hne
          obtain ⟨e, he⟩ := m.queryLines_unheard hunheard .queryRate
          simp only [if_pos hmove, he]
          exact ih _ hrest
        · simp only [if_neg hmove]
          exact ih _ hrest

/-- The module is reached at its live rate and answers the query there. -/
def Answers (l : Link) : Prop :=
  (l.host = l.live ∨ m.follows l.live = true) ∧ (m.reaction l .queryRate).result = .ok ()

/-- A scan that meets the live rate of the module first at the host, or only away from it, finds
the module when it answers there. -/
theorem probeCandidates_met {rates : List Int} (tried : List Int) {l : Link} (hnodup : rates.Nodup)
    (hpos : 0 < l.live) (htried : l.live ∉ tried) (hmem : l.live ∈ rates)
    (hhost : l.host = l.live → rates.head? = some l.live) :
    (m.Answers l ∧ ∃ l', m.probeCandidates rates tried l =
        (.ok (foundRate (m.reaction l .queryRate).lines l.live), l') ∧
        l'.host = l.live ∧ l'.live = l.live) ∨
      (¬m.Answers l ∧ ∃ tried' l', m.probeCandidates rates tried l = (.error tried', l')) := by
  induction rates generalizing tried l with
  | nil => exact absurd hmem (by simp)
  | cons rate rest ih =>
      obtain ⟨hnotin, hnodup'⟩ := List.nodup_cons.mp hnodup
      rw [probeCandidates, moveHostTo_eq]
      by_cases hrate : rate = l.live
      · -- the query is heard when the host gets here
        subst hrate
        have hskip : ¬(l.live ≤ 0 ∨ l.live ∈ tried) := by
          intro h
          obtain h | h := h
          · omega
          · exact htried h
        rw [if_neg hskip]
        by_cases hmove : l.host = l.live ∨ m.follows l.live = true
        · have hheard : ({ l with host := l.live } : Link).host = l.live := rfl
          simp only [if_pos hmove]
          cases hanswer : (m.reaction l .queryRate).answer .queryRate with
          | ok =>
              left
              have hok := m.queryLines_ok hheard (c := .queryRate) hanswer
              refine ⟨⟨hmove, hanswer⟩, ?_⟩
              simp only [hok]
              exact ⟨_, rfl, rfl, rfl⟩
          | error e =>
              right
              constructor
              · intro h
                have := h.2.symm.trans hanswer
                exact absurd this (by simp)
              · have herror := m.queryLines_error hheard (c := .queryRate) hanswer
                simp only [herror]
                exact m.probeCandidates_missed _ hnotin
        · right
          constructor
          · intro h
            exact hmove h.1
          · simp only [if_neg hmove]
            exact m.probeCandidates_missed _ hnotin
      · -- the query is not heard, and the module stays as it was
        have hrest : l.live ∈ rest := by
          obtain h | h := List.mem_cons.mp hmem
          · exact absurd h.symm hrate
          · exact h
        have haway : l.host ≠ l.live := by
          intro h
          exact hrate (by simpa using hhost h)
        by_cases hskip : rate ≤ 0 ∨ rate ∈ tried
        · rw [if_pos hskip]
          exact ih tried hnodup' hpos htried hrest (fun h => absurd h haway)
        · have htried' : l.live ∉ tried ++ [rate] := by
            simp [htried, Ne.symm hrate]
          rw [if_neg hskip]
          by_cases hmove : l.host = rate ∨ m.follows rate = true
          · have hunheard : ({ l with host := rate } : Link).host ≠ l.live := hrate
            obtain ⟨e, he⟩ := m.queryLines_unheard hunheard .queryRate
            simp only [if_pos hmove, he]
            have hsame : m.Answers { l with host := rate } ↔ m.Answers l := by
              simp only [Answers, hrate, haway, false_or]
              exact Iff.rfl
            have := ih (l := { l with host := rate }) (tried ++ [rate]) hnodup' hpos htried' hrest
              (fun h => absurd h hunheard)
            rw [hsame] at this
            exact this
          · simp only [if_neg hmove]
            exact ih _ hnodup' hpos htried' hrest (fun h => absurd h haway)

end Module

theorem mem_addCandidates {r : Int} (xs rates : List Int) :
    r ∈ addCandidates xs rates ↔ r ∈ rates ∨ (0 < r ∧ r ∈ xs) := by
  induction xs generalizing rates with
  | nil => simp [addCandidates]
  | cons x xs ih =>
      rw [addCandidates]
      split
      · rename_i hskip
        rw [ih, List.mem_cons]
        constructor
        · rintro (h | ⟨hpos, h⟩)
          · exact .inl h
          · exact .inr ⟨hpos, .inr h⟩
        · rintro (h | ⟨hpos, rfl | h⟩)
          · exact .inl h
          · obtain h | h := hskip
            · omega
            · exact .inl h
          · exact .inr ⟨hpos, h⟩
      · rename_i hkeep
        have hx : 0 < x := by
          by_contra h
          exact hkeep (.inl (by omega))
        rw [ih, List.mem_append, List.mem_singleton, List.mem_cons]
        constructor
        · rintro ((h | rfl) | ⟨hpos, h⟩)
          · exact .inl h
          · exact .inr ⟨hx, .inl rfl⟩
          · exact .inr ⟨hpos, .inr h⟩
        · rintro (h | ⟨hpos, rfl | h⟩)
          · exact .inl (.inl h)
          · exact .inl (.inr rfl)
          · exact .inr ⟨hpos, h⟩

theorem addCandidates_nodup (xs : List Int) {rates : List Int} (h : rates.Nodup) :
    (addCandidates xs rates).Nodup := by
  induction xs generalizing rates with
  | nil => exact h
  | cons x xs ih =>
      rw [addCandidates]
      split
      · exact ih h
      · rename_i hkeep
        apply ih
        rw [List.nodup_append]
        refine ⟨h, by simp, ?_⟩
        rintro a ha b hb rfl
        obtain rfl := List.mem_singleton.mp hb
        exact hkeep (.inr ha)

theorem prefix_addCandidates (xs rates : List Int) : rates <+: addCandidates xs rates := by
  induction xs generalizing rates with
  | nil => exact List.prefix_refl rates
  | cons x xs ih =>
      rw [addCandidates]
      split
      · exact ih rates
      · exact (List.prefix_append rates [x]).trans (ih _)

theorem baudRateCandidates_nodup (requested : Int) : (baudRateCandidates requested).Nodup :=
  addCandidates_nodup _ List.nodup_nil

/-- The requested rate is tried first. -/
theorem head_baudRateCandidates {requested : Int} (h : 0 < requested) :
    (baudRateCandidates requested).head? = some requested := by
  have hkeep : ¬(requested ≤ 0 ∨ requested ∈ ([] : List Int)) := by
    simp [h]
  have hpre : [requested] <+: baudRateCandidates requested := by
    rw [baudRateCandidates, addCandidates, if_neg hkeep]
    exact prefix_addCandidates _ _
  obtain ⟨rest, hrest⟩ := hpre
  rw [← hrest]
  rfl

theorem pos_of_mem_baudRateCandidates {requested r : Int} (h : r ∈ baudRateCandidates requested) :
    0 < r := by
  obtain h | h := (mem_addCandidates _ _).mp h
  · exact absurd h (by simp)
  · exact h.1

/-- A call that returns a rate left both ends of the channel at it. -/
def EndsAnswering (o : AtResult Int × Link) : Prop :=
  ∀ r, o.1 = .ok r → o.2.host = o.2.live ∧ r = o.2.live

theorem endsAnswering_error (e : AtError) (l : Link) : EndsAnswering (.error e, l) :=
  fun _ h => absurd h (by simp)

namespace Module

variable (m : Module)

/-- At the live rate `live` the search reaches the module, and the module answers the query, its
`n`-th command, with another rate that the host can move to. -/
def MisledAt (desired live : Int) (n : ℕ) : Prop :=
  live ∈ baudRateCandidates desired ∧ (live = desired ∨ m.follows live = true) ∧
    (m.react n Command.queryRate.text).result = .ok () ∧
    foundRate (m.react n Command.queryRate.text).lines live ≠ live ∧
    m.follows (foundRate (m.react n Command.queryRate.text).lines live) = true

/-- The search from the desired rate ends apart from the module when it is misled. -/
theorem endsAnswering_searchAgain {current desired : Int} {l : Link}
    (h : (m.sendCommand (.setRate current) l).2.host = desired) (hpos : 0 < desired) :
    EndsAnswering (m.searchAgain current desired l) ↔
      ¬m.MisledAt desired (m.sendCommand (.setRate current) l).2.live
        (m.sendCommand (.setRate current) l).2.heard := by
  unfold searchAgain
  generalize (m.sendCommand (.setRate current) l).2 = l at h ⊢
  subst h
  have hentry : ¬l.host ≤ 0 := by omega
  simp only [findModuleBaudRate, if_neg hentry]
  by_cases hmem : l.live ∈ baudRateCandidates l.host
  · obtain ⟨hans, l', heq, hhost, hlive⟩ | ⟨hans, tried, l', heq⟩ :=
      m.probeCandidates_met [] (baudRateCandidates_nodup l.host)
        (pos_of_mem_baudRateCandidates hmem) (by simp) hmem
        (fun hsame => hsame ▸ head_baudRateCandidates hpos)
    · simp only [heq, moveHostTo_eq]
      have hreach : l.live = l.host ∨ m.follows l.live = true := by
        obtain h | h := hans.1
        · exact .inl h.symm
        · exact .inr h
      by_cases hsame : foundRate (m.reaction l .queryRate).lines l.live = l.live
      · have hstay : l'.host = foundRate (m.reaction l .queryRate).lines l.live ∨
            m.follows (foundRate (m.reaction l .queryRate).lines l.live) = true :=
          .inl (hhost.trans hsame.symm)
        simp only [if_pos hstay]
        constructor
        · intro _ hmisled
          exact hmisled.2.2.2.1 hsame
        · intro _ r hr
          obtain rfl := Except.ok.inj hr
          exact ⟨hsame.trans hlive.symm, hsame.trans hlive.symm⟩
      · by_cases hfollows : m.follows (foundRate (m.reaction l .queryRate).lines l.live) = true
        · simp only [hfollows, or_true, if_true]
          constructor
          · intro hends
            exact absurd ((hends _ rfl).2.trans hlive) hsame
          · intro hmisled
            exact absurd ⟨hmem, hreach, hans.2, hsame, hfollows⟩ hmisled
        · have hstuck : ¬(l'.host = foundRate (m.reaction l .queryRate).lines l.live ∨
              m.follows (foundRate (m.reaction l .queryRate).lines l.live) = true) := by
            rintro (h | h)
            · exact hsame (h.symm.trans hhost)
            · exact hfollows h
          simp only [if_neg hstuck]
          constructor
          · intro _ hmisled
            exact hfollows hmisled.2.2.2.2
          · intro _
            exact endsAnswering_error _ _
    · simp only [heq]
      constructor
      · rintro _ ⟨-, hreach, hresult, -, -⟩
        apply hans
        refine ⟨?_, hresult⟩
        obtain h | h := hreach
        · exact .inl h.symm
        · exact .inr h
      · intro _
        exact endsAnswering_error _ _
  · obtain ⟨tried, l', heq⟩ := m.probeCandidates_missed [] hmem
    simp only [heq]
    constructor
    · intro _ hmisled
      exact hmem hmisled.1
    · intro _
      exact endsAnswering_error _ _

/-! ## The whole call -/

/-- The `n`-th command, a probe, is answered with the desired rate. -/
def Confirms (desired : Int) (n : ℕ) : Prop :=
  (m.react n Command.queryRate.text).result = .ok () ∧
    reportsRate (m.react n Command.queryRate.text).lines desired = true

theorem confirm_unheard {l : Link} (h : l.host ≠ l.live) (desired : Int) (attempts : ℕ) :
    m.confirm desired attempts l = (false, l) := by
  induction attempts with
  | zero => rfl
  | succ attempts ih =>
      obtain ⟨e, he⟩ := m.queryLines_unheard h .queryRate
      simp only [confirm, he, ih]

/-- Over a working link the loop confirms at the first probe that does, or uses up its probes. -/
theorem confirm_heard {l : Link} (h : l.host = l.live) (desired : Int) (attempts : ℕ) :
    ((∃ k < attempts, m.Confirms desired (l.heard + k)) ∧
        ∃ l', m.confirm desired attempts l = (true, l') ∧ l'.host = l.host ∧ l'.live = l.live) ∨
      ((∀ k < attempts, ¬m.Confirms desired (l.heard + k)) ∧
        ∃ lines, m.confirm desired attempts l =
          (false, { l with heard := l.heard + attempts, lines := lines })) := by
  induction attempts generalizing l with
  | zero => exact .inr ⟨fun k hk => absurd hk (by omega), l.lines, rfl⟩
  | succ attempts ih =>
      -- a probe that confirms nothing leaves the same loop behind the next command
      have later : ∀ l₁ : Link, l₁.host = l.host → l₁.live = l.live → l₁.heard = l.heard + 1 →
          m.confirm desired (attempts + 1) l = m.confirm desired attempts l₁ →
          ¬m.Confirms desired l.heard →
          ((∃ k < attempts + 1, m.Confirms desired (l.heard + k)) ∧
            ∃ l', m.confirm desired (attempts + 1) l = (true, l') ∧
              l'.host = l.host ∧ l'.live = l.live) ∨
          ((∀ k < attempts + 1, ¬m.Confirms desired (l.heard + k)) ∧
            ∃ lines, m.confirm desired (attempts + 1) l =
              (false, { l with heard := l.heard + (attempts + 1), lines := lines })) := by
        intro l₁ hhost hlive hheard heq hnot
        rw [heq]
        obtain ⟨⟨k, hk, hconfirms⟩, l', hl', hhost', hlive'⟩ | ⟨hnone, lines, hl'⟩ :=
          ih (l := l₁) (hhost.trans (h.trans hlive.symm))
        · left
          rw [hheard, Nat.add_right_comm] at hconfirms
          exact ⟨⟨k + 1, by omega, hconfirms⟩, l', hl', hhost'.trans hhost, hlive'.trans hlive⟩
        · right
          constructor
          · intro k hk
            cases k with
            | zero => exact hnot
            | succ k =>
                have := hnone k (by omega)
                rw [hheard, Nat.add_right_comm] at this
                exact this
          · refine ⟨lines, ?_⟩
            rw [hl', hhost, hlive, hheard, Nat.add_right_comm]
            rfl
      cases hanswer : (m.reaction l .queryRate).answer .queryRate with
      | error e =>
          have herror := m.queryLines_error h (c := .queryRate) hanswer
          apply later (l.hear .queryRate (m.reaction l .queryRate)) rfl rfl rfl
          · simp only [confirm, herror]
          · intro hconfirms
            have := hconfirms.1.symm.trans hanswer
            exact absurd this (by simp)
      | ok =>
          have hok := m.queryLines_ok h (c := .queryRate) hanswer
          by_cases hreports : reportsRate (m.reaction l .queryRate).lines desired = true
          · left
            refine ⟨⟨0, by omega, hanswer, hreports⟩, ?_⟩
            simp only [confirm, hok, hreports, if_true]
            exact ⟨_, rfl, rfl, rfl⟩
          · apply later { l.hear .queryRate (m.reaction l .queryRate) with
              lines := (m.reaction l .queryRate).lines } rfl rfl rfl
            · simp only [confirm, hok, if_neg hreports]
            · intro hconfirms
              exact hreports hconfirms.2

/-- A channel whose host is at the live rate of the module. -/
def aligned (rate : Int) (lines : List Bytes) : Link :=
  { host := rate, live := rate, lines := lines }

/-- The module at `current` acknowledges a write of `desired`, which it lists and the host can
follow, but confirms it in no probe, and its answer to the last search misleads the host. The
search is behind the probes and the revert when the write was applied at once, and otherwise
right behind the write. -/
def Misleads (current desired : Int) : Prop :=
  (0 < desired ∧ 0 < current ∧ current ≠ desired) ∧
    ((m.react 0 Command.listRates.text).result = .ok () ∧
      accepts (m.react 0 Command.listRates.text).lines desired = true) ∧
    (m.react 1 (Command.setRate desired).text).answer (.setRate desired) = .ok () ∧
    m.follows desired = true ∧
    if (m.react 1 (Command.setRate desired).text).applies then
      (∀ k < kConfirmAttempts, ¬m.Confirms desired (2 + k)) ∧
        m.MisledAt desired
          ((m.react 6 (Command.setRate current).text).liveAfter desired (.setRate current)) 7
    else m.MisledAt desired current 2

/-- The search behind a write that the module applied at once. -/
theorem endsAnswering_search_applied {current desired : Int} {l : Link} (hhost : l.host = desired)
    (hlive : l.live = desired) (hpos : 0 < desired) :
    EndsAnswering (m.searchAgain current desired l) ↔
      ¬m.MisledAt desired ((m.react l.heard (Command.setRate current).text).liveAfter desired
        (.setRate current)) (l.heard + 1) := by
  obtain ⟨lines, hsend⟩ := m.sendCommand_heard (hhost.trans hlive.symm) (.setRate current)
  have hstays : (m.sendCommand (.setRate current) l).2.host = desired := by
    rw [hsend]
    exact hhost
  rw [m.endsAnswering_searchAgain hstays hpos, hsend]
  simp only [Link.hear_live, Link.hear_heard, reaction, hlive]

/-- The search behind a write that the module only saved. -/
theorem endsAnswering_search_saved {current desired : Int} {l : Link} (hhost : l.host = desired)
    (hlive : l.live ≠ desired) (hpos : 0 < desired) :
    EndsAnswering (m.searchAgain current desired l) ↔ ¬m.MisledAt desired l.live l.heard := by
  have hunheard : l.host ≠ l.live := fun h => hlive (h.symm.trans hhost)
  have hsend := m.sendCommand_unheard hunheard (.setRate current)
  have hstays : (m.sendCommand (.setRate current) l).2.host = desired := by
    rw [hsend]
    exact hhost
  rw [m.endsAnswering_searchAgain hstays hpos, hsend]

/-- What `SetModuleBaudRate` does once the write is acknowledged and the host has followed. -/
theorem endsAnswering_confirmOrSearch {current desired : Int} {l : Link} (hhost : l.host = desired)
    (hpos : 0 < desired) :
    EndsAnswering (m.confirmOrSearch current desired l) ↔
      ¬(if l.live = desired then
          (∀ k < kConfirmAttempts, ¬m.Confirms desired (l.heard + k)) ∧
            m.MisledAt desired
              ((m.react (l.heard + 4) (Command.setRate current).text).liveAfter desired
                (.setRate current)) (l.heard + 5)
        else m.MisledAt desired l.live l.heard) := by
  unfold confirmOrSearch
  by_cases hlive : l.live = desired
  · rw [if_pos hlive]
    obtain ⟨⟨k, hk, hconfirms⟩, l', heq, hhost', hlive'⟩ | ⟨hnone, lines, heq⟩ :=
      m.confirm_heard (hhost.trans hlive.symm) desired kConfirmAttempts
    · simp only [heq]
      constructor
      · intro _ h
        exact h.1 k hk hconfirms
      · intro _ r hr
        obtain rfl := Except.ok.inj hr
        constructor
        · exact hhost'.trans (hhost.trans (hlive'.trans hlive).symm)
        · exact (hlive'.trans hlive).symm
    · simp only [heq]
      refine (m.endsAnswering_search_applied (l := { l with
        heard := l.heard + kConfirmAttempts, lines := lines }) hhost hlive hpos).trans ?_
      constructor
      · intro h hmisled
        exact h hmisled.2
      · intro h hmisled
        exact h ⟨hnone, hmisled⟩
  · rw [if_neg hlive, m.confirm_unheard (fun h => hlive (h.symm.trans hhost))]
    exact m.endsAnswering_search_saved hhost hlive hpos

/-- A call that gives up before the write takes effect leaves both ends where they were. -/
theorem endsAnswering_stays {l : Link} (h : l.host = l.live) : EndsAnswering (.ok l.host, l) := by
  intro r hr
  obtain rfl := Except.ok.inj hr
  exact ⟨h, h⟩

/-- What `SetModuleBaudRate` does once the module listed the desired rate. -/
theorem endsAnswering_writeRate {current desired : Int} {l : Link} (h : l.host = l.live)
    (hcurrent : l.host = current) (hne : current ≠ desired) (hpos : 0 < desired) :
    EndsAnswering (m.writeRate current desired l) ↔
      ¬((m.react l.heard (Command.setRate desired).text).answer (.setRate desired) = .ok () ∧
        m.follows desired = true ∧
        if (m.react l.heard (Command.setRate desired).text).applies then
          (∀ k < kConfirmAttempts, ¬m.Confirms desired (l.heard + 1 + k)) ∧
            m.MisledAt desired
              ((m.react (l.heard + 5) (Command.setRate current).text).liveAfter desired
                (.setRate current)) (l.heard + 6)
        else m.MisledAt desired current (l.heard + 1)) := by
  obtain ⟨lines, hsend⟩ := m.sendCommand_heard h (.setRate desired)
  rw [writeRate, hsend]
  cases hanswer : (m.reaction l (.setRate desired)).answer (.setRate desired) with
  | error e =>
      have hrefused : (m.react l.heard (Command.setRate desired).text).applies = false := by
        by_contra happlies
        rw [Bool.not_eq_false] at happlies
        simp [Reaction.answer, reaction, happlies] at hanswer
      have hends : EndsAnswering (.ok current,
          { l.hear (.setRate desired) (m.reaction l (.setRate desired)) with lines := lines }) := by
        intro r hr
        obtain rfl := Except.ok.inj hr
        simp [Reaction.liveAfter, reaction, hrefused, ← hcurrent, h]
      refine iff_of_true hends ?_
      intro hmisled
      exact absurd (hmisled.1.symm.trans hanswer) (by simp)
  | ok =>
      simp only [setBaudRate]
      by_cases hfollows : m.follows desired = true
      · simp only [hfollows, if_true]
        refine (m.endsAnswering_confirmOrSearch (l := { l.hear (.setRate desired)
          (m.reaction l (.setRate desired)) with host := desired, lines := lines }) rfl hpos).trans ?_
        cases happlies : (m.react l.heard (Command.setRate desired).text).applies with
        | true =>
            have hlive : (l.hear (.setRate desired) (m.reaction l (.setRate desired))).live =
                desired := by
              simp [Reaction.liveAfter, reaction, happlies]
            rw [if_pos hlive]
            simp only [if_true, true_and, show
              (m.react l.heard (Command.setRate desired).text).answer (.setRate desired) = .ok ()
              from hanswer]
            exact Iff.rfl
        | false =>
            have hlive : (l.hear (.setRate desired) (m.reaction l (.setRate desired))).live =
                current := by
              simp [Reaction.liveAfter, reaction, happlies, ← hcurrent, h]
            rw [if_neg (fun hsame => hne (hlive.symm.trans hsame)), hlive]
            simp only [if_false, true_and, Bool.false_eq_true, show
              (m.react l.heard (Command.setRate desired).text).answer (.setRate desired) = .ok ()
              from hanswer]
            exact Iff.rfl
      · simp only [if_neg hfollows]
        refine iff_of_true (endsAnswering_error _ _) ?_
        intro hmisled
        exact hfollows hmisled.2.1

theorem endsAnswering_setModuleBaudRate {l : Link} (h : l.host = l.live) (h0 : l.heard = 0)
    (desired : Int) :
    EndsAnswering (m.setModuleBaudRate desired l) ↔ ¬m.Misleads l.host desired := by
  unfold setModuleBaudRate
  by_cases hguard : desired ≤ 0 ∨ l.host ≤ 0
  · rw [if_pos hguard]
    refine iff_of_true (endsAnswering_error _ _) ?_
    intro hmisled
    have := hmisled.1
    omega
  rw [if_neg hguard]
  by_cases hsame : l.host = desired
  · rw [if_pos hsame]
    refine iff_of_true (endsAnswering_stays h) ?_
    intro hmisled
    exact hmisled.1.2.2 hsame
  rw [if_neg hsame]
  have hguards : 0 < desired ∧ 0 < l.host ∧ l.host ≠ desired := ⟨by omega, by omega, hsame⟩
  cases hanswer : (m.reaction l .listRates).answer .listRates with
  | error e =>
      simp only [m.queryLines_error h hanswer]
      refine iff_of_true (endsAnswering_stays (l := l.hear _ _) h) ?_
      intro hmisled
      have hok := hmisled.2.1.1
      rw [← h0] at hok
      exact absurd (hok.symm.trans hanswer) (by simp)
  | ok =>
      simp only [m.queryLines_ok h hanswer]
      by_cases haccepts : accepts (m.reaction l .listRates).lines desired = true
      · rw [if_pos haccepts]
        refine (m.endsAnswering_writeRate (l := { l.hear .listRates (m.reaction l .listRates) with
          lines := (m.reaction l .listRates).lines }) h rfl hsame hguards.1).trans ?_
        simp only [reaction, h0] at hanswer haccepts
        simp only [Link.hear_heard, h0, Misleads, hguards, haccepts]
        constructor
        · intro hends hmisled
          exact hends hmisled.2.2
        · intro hends hmisled
          exact hends ⟨⟨trivial, trivial, hsame⟩, ⟨hanswer, trivial⟩, hmisled⟩
      · rw [if_neg haccepts]
        refine iff_of_true (endsAnswering_stays (l := { l.hear .listRates _ with lines := _ }) h) ?_
        intro hmisled
        have hlisted := hmisled.2.1.2
        rw [← h0] at hlisted
        exact haccepts hlisted

/-- `SetModuleBaudRate` reports a rate that the module answers at unless the module misleads it. -/
theorem setModuleBaudRate_endsAnswering_iff (current desired : Int) (lines : List Bytes) :
    EndsAnswering (m.setModuleBaudRate desired (aligned current lines)) ↔
      ¬m.Misleads current desired :=
  m.endsAnswering_setModuleBaudRate (l := aligned current lines) rfl rfl desired

/-- A module that applies the first write at once, loses the four probes, only saves the revert and
then reports the rate it saved. -/
def savesRevert : Module where
  react n _ :=
    match n with
    | 0 => { lines := [iprKey ++ ascii [':', ' ', '('] ++ decimalInt 115200 ++ ascii [','] ++
        decimalInt 921600 ++ ascii [')']] }
    | 1 => { applies := true }
    | 6 => {}
    | 7 => { lines := [iprKey ++ ascii [':', ' '] ++ decimalInt 115200] }
    | _ => { result := timedOut "" }
  follows _ := true

/-- `Ok(115200)` with the host at 115200 and the module still live at 921600. -/
theorem savesRevert_silent :
    ¬EndsAnswering (savesRevert.setModuleBaudRate 921600 (aligned 115200 [])) := by
  have hrun : ((savesRevert.setModuleBaudRate 921600 (aligned 115200 [])).1.toOption,
      (savesRevert.setModuleBaudRate 921600 (aligned 115200 [])).2.host,
      (savesRevert.setModuleBaudRate 921600 (aligned 115200 [])).2.live) =
        (some 115200, 115200, 921600) := by
    decide +kernel
  obtain ⟨hresult, hends⟩ := Prod.mk.inj hrun
  obtain ⟨hhost, hlive⟩ := Prod.mk.inj hends
  intro h
  have hok : (savesRevert.setModuleBaudRate 921600 (aligned 115200 [])).1 = .ok 115200 := by
    cases heq : (savesRevert.setModuleBaudRate 921600 (aligned 115200 [])).1 with
    | ok r => simpa [heq, Except.toOption] using hresult
    | error e => simp [heq, Except.toOption] at hresult
  have := (h 115200 hok).2
  rw [hlive] at this
  exact absurd this (by decide)

end Module

end EspModemLink.AtChannel
