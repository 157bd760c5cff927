import EspModemLink.AtChannel.Uart

/-!
# Lines and reads

`ReceiveTask` cuts the stream at its line ends and takes an unterminated prompt out of the partial
line when a read ends behind it. The lines it passes on are those of the stream without these
prompts, so two cuts into reads give the same lines exactly when they take the same prompts.
-/

namespace EspModemLink.AtChannel

open Bytes

/-! ## Complete lines -/

/-- The complete lines of a text and what follows them. `fuel` bounds their number. -/
def cutLinesFor : ℕ → Bytes → List Bytes × Bytes
  | 0, text => ([], text)
  | fuel + 1, text =>
      match find crlf text with
      | none => ([], text)
      | some lineEnd =>
          let (lines, rest) := cutLinesFor fuel (text.drop (lineEnd + 2))
          (text.take lineEnd :: lines, rest)

def cutLines (text : Bytes) : List Bytes × Bytes := cutLinesFor text.length text

/-- A line ends in front of the first line end. -/
theorem isLine_take {text : Bytes} {i : ℕ} (h : find crlf text = some i) : IsLine (text.take i) := by
  cases hj : find crlf (text.take i) with
  | none => exact hj
  | some j =>
      have hj' : find crlf text = some j := by
        have := find_append (text.drop i) hj
        rwa [List.take_append_drop] at this
      obtain rfl : i = j := Option.some.inj (h.symm.trans hj')
      have hprefix := (prefix_drop_of_find hj).length_le
      simp [crlf] at hprefix

/-- The first line end cuts the text. -/
theorem eq_append_of_find {text : Bytes} {i : ℕ} (h : find crlf text = some i) :
    text = text.take i ++ crlf ++ text.drop (i + 2) := by
  obtain ⟨t, ht⟩ := prefix_drop_of_find h
  have hdrop : text.drop (i + 2) = t := by
    rw [← List.drop_drop, ← ht]
    rfl
  calc text = text.take i ++ text.drop i := (List.take_append_drop i text).symm
    _ = text.take i ++ crlf ++ text.drop (i + 2) := by rw [hdrop, ← ht, List.append_assoc]

theorem cutLinesFor_joined {lines : List Bytes} {rest : Bytes} (h : ∀ l ∈ lines, IsLine l)
    (hrest : IsLine rest) {fuel : ℕ} (hfuel : (joined lines ++ rest).length ≤ fuel) :
    cutLinesFor fuel (joined lines ++ rest) = (lines, rest) := by
  induction lines generalizing fuel with
  | nil =>
      have hnone : find crlf rest = none := hrest
      cases fuel with
      | zero => rfl
      | succ fuel => simp [cutLinesFor, joined, hnone]
  | cons line lines ih =>
      have hjoined : joined (line :: lines) ++ rest = line ++ crlf ++ (joined lines ++ rest) := by
        simp [joined]
      have hlen : (line ++ crlf ++ (joined lines ++ rest)).length =
          line.length + 2 + (joined lines ++ rest).length := by
        simp only [crlf, List.length_append, List.length_cons, List.length_nil]
      rw [hjoined] at hfuel ⊢
      obtain ⟨n, rfl⟩ : ∃ n, fuel = n + 1 := ⟨fuel - 1, by omega⟩
      have hdrop : (line ++ crlf ++ (joined lines ++ rest)).drop (line.length + 2) =
          joined lines ++ rest := by
        simp [crlf]
      have htake : (line ++ crlf ++ (joined lines ++ rest)).take line.length = line := by simp
      have htail : cutLinesFor n (joined lines ++ rest) = (lines, rest) :=
        ih (fun l hl => h l (List.mem_cons_of_mem _ hl)) (by omega)
      rw [cutLinesFor, find_crlf_append (h line (List.mem_cons_self ..))]
      simp only [hdrop, htake, htail]

/-- Lines come back out of the text they were joined to. -/
theorem cutLines_joined {lines : List Bytes} {rest : Bytes} (h : ∀ l ∈ lines, IsLine l)
    (hrest : IsLine rest) : cutLines (joined lines ++ rest) = (lines, rest) :=
  cutLinesFor_joined h hrest (Nat.le_refl _)

theorem cutLinesFor_spec {fuel : ℕ} {text : Bytes} (hfuel : text.length ≤ fuel) :
    (∀ l ∈ (cutLinesFor fuel text).1, IsLine l) ∧ IsLine (cutLinesFor fuel text).2 ∧
      joined (cutLinesFor fuel text).1 ++ (cutLinesFor fuel text).2 = text := by
  induction fuel generalizing text with
  | zero =>
      obtain rfl : text = [] := List.eq_nil_of_length_eq_zero (Nat.le_zero.mp hfuel)
      exact ⟨nofun, rfl, rfl⟩
  | succ fuel ih =>
      rw [cutLinesFor]
      split
      · rename_i hnone
        exact ⟨nofun, hnone, rfl⟩
      · rename_i i hfind
        have heq := eq_append_of_find hfind
        have hlen : (text.drop (i + 2)).length ≤ fuel := by
          have hle := congrArg List.length heq
          simp only [crlf, List.length_append, List.length_cons, List.length_nil] at hle
          omega
        obtain ⟨hlines, hrest, hjoin⟩ := ih hlen
        refine ⟨?_, hrest, ?_⟩
        · intro l hl
          obtain rfl | hl := List.mem_cons.mp hl
          · exact isLine_take hfind
          · exact hlines l hl
        · calc joined (text.take i :: (cutLinesFor fuel (text.drop (i + 2))).1) ++
                (cutLinesFor fuel (text.drop (i + 2))).2
              = text.take i ++ crlf ++ (joined (cutLinesFor fuel (text.drop (i + 2))).1 ++
                (cutLinesFor fuel (text.drop (i + 2))).2) := by simp [joined]
            _ = text := by rw [hjoin, ← heq]

theorem cutLines_spec (text : Bytes) :
    (∀ l ∈ (cutLines text).1, IsLine l) ∧ IsLine (cutLines text).2 ∧
      joined (cutLines text).1 ++ (cutLines text).2 = text :=
  cutLinesFor_spec (Nat.le_refl _)

/-! ## Where reads end behind a prompt -/

/-- The stream so far: for each terminated line the prompts that were taken out of its front, and
what was left of it; the prompts taken out of the partial line, and what is left of that. -/
structure Framing where
  lines : List (List Bytes × Bytes) := []
  prompts : List Bytes := []
  pending : Bytes := []
deriving DecidableEq

namespace Framing

/-- The lines that a read terminates. The prompts of the partial line belong to the first. -/
def terminate (prompts : List Bytes) : List Bytes → List (List Bytes × Bytes)
  | [] => []
  | line :: lines => (prompts, line) :: lines.map fun line => ([], line)

/-- A read that ends behind an unterminated prompt takes it out of the partial line. -/
def read (f : Framing) (bytes : Bytes) : Framing :=
  if bytes = [] then f
  else
    let (lines, rest) := cutLines (f.pending ++ bytes)
    let prompts := if lines = [] then f.prompts else []
    let lines := f.lines ++ terminate f.prompts lines
    if isDataPrompt rest then { lines := lines, prompts := prompts ++ [rest], pending := [] }
    else { lines := lines, prompts := prompts, pending := rest }

/-- The stream that was framed. -/
def text (f : Framing) : Bytes :=
  joined (f.lines.map fun l => l.1.flatten ++ l.2) ++ (f.prompts.flatten ++ f.pending)

/-- A read ended behind an unterminated prompt. -/
def tookPrompt (f : Framing) : Bool := f.lines.any (fun l => !l.1.isEmpty) || !f.prompts.isEmpty

/-- What stands in a framing are prompts and lines. -/
structure Sound (f : Framing) : Prop where
  prompts : ∀ p ∈ f.prompts, isDataPrompt p = true
  linePrompts : ∀ l ∈ f.lines, ∀ p ∈ l.1, isDataPrompt p = true
  lines : ∀ l ∈ f.lines, IsLine l.2
  pending : IsLine f.pending

end Framing

/-- The framing of a stream cut into reads. -/
def framing (reads : List Bytes) : Framing := reads.foldl Framing.read {}

/-- The prompts that the reads take out of every terminated line. -/
def promptsTaken (reads : List Bytes) : List (List Bytes) := (framing reads).lines.map Prod.fst

/-! ## Prompts and lines -/

/-- A prompt is a `>` and blanks. -/
theorem isDataPrompt_iff {p : Bytes} :
    isDataPrompt p = true ↔ ∃ blanks, p = 62 :: blanks ∧ ∀ c ∈ blanks, isBlank c = true := by
  unfold isDataPrompt
  split
  · rename_i rest
    rw [List.all_eq_true]
    exact ⟨fun h => ⟨rest, rfl, h⟩, fun ⟨blanks, heq, h⟩ => (List.cons.inj heq).2 ▸ h⟩
  · rename_i hnot
    exact ⟨nofun, fun ⟨blanks, heq, _⟩ => absurd heq (hnot blanks)⟩

/-- Text without a `\\r` may stand in front of a line. -/
theorem IsLine.append_left {front line : Bytes} (hfront : cr ∉ front) (h : IsLine line) :
    IsLine (front ++ line) := by
  induction front with
  | nil => exact h
  | cons c front ih =>
      obtain ⟨hc, hfront⟩ := not_or.mp (fun hmem => hfront (List.mem_cons.mpr hmem))
      have hne : ¬(crlf.isPrefixOf (c :: (front ++ line)) = true) := by
        intro hp
        obtain ⟨t, ht⟩ := List.isPrefixOf_iff_prefix.mp hp
        exact hc (List.cons.inj ht).1
      rw [IsLine, List.cons_append, find_cons, if_neg hne, ih hfront]
      rfl

theorem cr_notMem_prompt {p : Bytes} (h : isDataPrompt p = true) : cr ∉ p := by
  obtain ⟨blanks, rfl, hblanks⟩ := isDataPrompt_iff.mp h
  intro hmem
  obtain hc | hc := List.mem_cons.mp hmem
  · cases hc
  · exact absurd (hblanks cr hc) (by decide)

/-- Prompts may stand in front of a line. -/
theorem isLine_flatten_append {prompts : List Bytes} {line : Bytes}
    (hprompts : ∀ p ∈ prompts, isDataPrompt p = true) (h : IsLine line) :
    IsLine (prompts.flatten ++ line) := by
  apply h.append_left
  intro hmem
  obtain ⟨p, hp, hcr⟩ := List.mem_flatten.mp hmem
  exact cr_notMem_prompt (hprompts p hp) hcr

/-- Prompts in a row can be told apart: each begins at a `>`. -/
theorem eq_of_flatten_eq {ps qs : List Bytes} (hps : ∀ p ∈ ps, isDataPrompt p = true)
    (hqs : ∀ q ∈ qs, isDataPrompt q = true) (h : ps.flatten = qs.flatten) : ps = qs := by
  have hnext : ∀ {rs : List Bytes}, (∀ r ∈ rs, isDataPrompt r = true) →
      rs.flatten.takeWhile isBlank = [] := by
    intro rs hrs
    cases rs with
    | nil => rfl
    | cons r rs =>
        obtain ⟨blanks, rfl, -⟩ := isDataPrompt_iff.mp (hrs r (List.mem_cons_self ..))
        rfl
  induction ps generalizing qs with
  | nil =>
      cases qs with
      | nil => rfl
      | cons q qs =>
          obtain ⟨blanks, rfl, -⟩ := isDataPrompt_iff.mp (hqs q (List.mem_cons_self ..))
          cases h
  | cons p ps ih =>
      obtain ⟨bs, rfl, hbs⟩ := isDataPrompt_iff.mp (hps p (List.mem_cons_self ..))
      cases qs with
      | nil => cases h
      | cons q qs =>
          obtain ⟨cs, rfl, hcs⟩ := isDataPrompt_iff.mp (hqs q (List.mem_cons_self ..))
          have hps' : ∀ p ∈ ps, isDataPrompt p = true := fun p hp => hps p (List.mem_cons_of_mem _ hp)
          have hqs' : ∀ q ∈ qs, isDataPrompt q = true := fun q hq => hqs q (List.mem_cons_of_mem _ hq)
          have htail : bs ++ ps.flatten = cs ++ qs.flatten := (List.cons.inj h).2
          have hblanks : bs = cs := by
            have hwhile := congrArg (List.takeWhile isBlank) htail
            rwa [List.takeWhile_append_of_pos hbs, List.takeWhile_append_of_pos hcs, hnext hps',
              hnext hqs', List.append_nil, List.append_nil] at hwhile
          subst hblanks
          rw [ih hps' hqs' (List.append_cancel_left htail)]

/-! ## Framings of one stream -/

namespace Framing

theorem mem_terminate {prompts lines : List Bytes} {l : List Bytes × Bytes}
    (h : l ∈ terminate prompts lines) : (l.1 = prompts ∨ l.1 = []) ∧ l.2 ∈ lines := by
  cases lines with
  | nil => cases h
  | cons line lines =>
      obtain rfl | h := List.mem_cons.mp h
      · exact ⟨.inl rfl, List.mem_cons_self ..⟩
      · obtain ⟨line', hline', rfl⟩ := List.mem_map.mp h
        exact ⟨.inr rfl, List.mem_cons_of_mem _ hline'⟩

/-- The prompts of the partial line stand in front of the first line that is terminated. -/
theorem joined_terminate (prompts lines : List Bytes) (rest : Bytes) :
    joined ((terminate prompts lines).map fun l => l.1.flatten ++ l.2) ++
        ((if lines = [] then prompts else []).flatten ++ rest) =
      prompts.flatten ++ (joined lines ++ rest) := by
  cases lines with
  | nil => simp [terminate, joined]
  | cons line lines => simp [terminate, joined, List.flatMap_map]

theorem read_sound {f : Framing} (hf : f.Sound) (bytes : Bytes) : (f.read bytes).Sound := by
  unfold read
  split
  · exact hf
  · obtain ⟨hlines, hrest, -⟩ := cutLines_spec (f.pending ++ bytes)
    have hprompts : ∀ p ∈ if (cutLines (f.pending ++ bytes)).1 = [] then f.prompts else [],
        isDataPrompt p = true := by
      split
      · exact hf.prompts
      · exact nofun
    have hnew : ∀ l ∈ f.lines ++ terminate f.prompts (cutLines (f.pending ++ bytes)).1,
        (∀ p ∈ l.1, isDataPrompt p = true) ∧ IsLine l.2 := by
      intro l hl
      obtain hl | hl := List.mem_append.mp hl
      · exact ⟨hf.linePrompts l hl, hf.lines l hl⟩
      · obtain ⟨hprompts, hline⟩ := mem_terminate hl
        refine ⟨fun p hp => ?_, hlines l.2 hline⟩
        obtain heq | heq := hprompts
        · exact hf.prompts p (heq ▸ hp)
        · rw [heq] at hp
          cases hp
    dsimp only
    split
    · rename_i hprompt
      refine ⟨?_, fun l hl => (hnew l hl).1, fun l hl => (hnew l hl).2, rfl⟩
      intro p hp
      obtain hp | hp := List.mem_append.mp hp
      · exact hprompts p hp
      · exact List.mem_singleton.mp hp ▸ hprompt
    · exact ⟨hprompts, fun l hl => (hnew l hl).1, fun l hl => (hnew l hl).2, hrest⟩

theorem read_text (f : Framing) (bytes : Bytes) : (f.read bytes).text = f.text ++ bytes := by
  unfold read
  split
  · rename_i hempty
    rw [hempty, List.append_nil]
  · obtain ⟨-, -, hjoin⟩ := cutLines_spec (f.pending ++ bytes)
    have hterminate := joined_terminate f.prompts (cutLines (f.pending ++ bytes)).1
      (cutLines (f.pending ++ bytes)).2
    rw [hjoin] at hterminate
    dsimp only
    split
    · simp only [text, List.map_append, joined_append, List.append_assoc, List.flatten_append,
        List.flatten_singleton, List.append_nil]
      rw [hterminate]
    · simp only [text, List.map_append, joined_append, List.append_assoc]
      rw [hterminate]

theorem foldl_read {f : Framing} (hf : f.Sound) (reads : List Bytes) :
    (reads.foldl read f).Sound ∧ (reads.foldl read f).text = f.text ++ reads.flatten := by
  induction reads generalizing f with
  | nil => exact ⟨hf, by simp⟩
  | cons bytes reads ih =>
      obtain ⟨hsound, htext⟩ := ih (read_sound hf bytes)
      exact ⟨hsound, by rw [List.foldl_cons, htext, read_text, List.append_assoc]; rfl⟩

/-- Framings of one stream differ only in the prompts they took. -/
theorem eq_of_text_eq {f g : Framing} (hf : f.Sound) (hg : g.Sound) (h : f.text = g.text) :
    (f.lines.map fun l => l.1.flatten ++ l.2) = g.lines.map fun l => l.1.flatten ++ l.2 := by
  have hcut : ∀ {f : Framing}, f.Sound → (cutLines f.text).1 = f.lines.map fun l => l.1.flatten ++ l.2 := by
    intro f hf
    have hlines : ∀ l ∈ f.lines.map fun l => l.1.flatten ++ l.2, IsLine l := by
      intro l hl
      obtain ⟨entry, hentry, rfl⟩ := List.mem_map.mp hl
      exact isLine_flatten_append (hf.linePrompts entry hentry) (hf.lines entry hentry)
    rw [text, cutLines_joined hlines (isLine_flatten_append hf.prompts hf.pending)]
  rw [← hcut hf, ← hcut hg, h]

/-- With the same text in every line, the same lines are left when the same prompts were taken. -/
theorem lines_eq_iff {ls ms : List (List Bytes × Bytes)}
    (hls : ∀ l ∈ ls, ∀ p ∈ l.1, isDataPrompt p = true)
    (hms : ∀ l ∈ ms, ∀ p ∈ l.1, isDataPrompt p = true)
    (h : (ls.map fun l => l.1.flatten ++ l.2) = ms.map fun l => l.1.flatten ++ l.2) :
    ls.map Prod.snd = ms.map Prod.snd ↔ ls.map Prod.fst = ms.map Prod.fst := by
  induction ls generalizing ms with
  | nil =>
      cases ms with
      | nil => simp
      | cons m ms => cases h
  | cons l ls ih =>
      cases ms with
      | nil => cases h
      | cons m ms =>
          obtain ⟨hhead, htail⟩ := List.cons.inj h
          have hhead : l.1.flatten ++ l.2 = m.1.flatten ++ m.2 := hhead
          have hiff := ih (fun l hl => hls l (List.mem_cons_of_mem _ hl))
            (fun l hl => hms l (List.mem_cons_of_mem _ hl)) htail
          have hone : l.2 = m.2 ↔ l.1 = m.1 := by
            constructor
            · intro heq
              rw [heq] at hhead
              exact eq_of_flatten_eq (hls l (List.mem_cons_self ..)) (hms m (List.mem_cons_self ..))
                (List.append_cancel_right hhead)
            · intro heq
              rw [heq] at hhead
              exact List.append_cancel_left hhead
          rw [List.map_cons, List.map_cons, List.map_cons, List.map_cons, List.cons.injEq,
            List.cons.injEq, hone, hiff]

end Framing

theorem Framing.sound_empty : Framing.Sound {} := ⟨nofun, nofun, nofun, rfl⟩

theorem framing_sound (reads : List Bytes) :
    (framing reads).Sound ∧ (framing reads).text = reads.flatten :=
  Framing.foldl_read Framing.sound_empty reads

/-! ## What the receive task passes on -/

/-- The lines passed to `ProcessLine`. -/
def linesPassed (signals : List Signal) : List Bytes :=
  signals.filterMap fun s => match s with
    | .line line => some line
    | .dataPrompt => none

/-- How often the data-prompt event was raised. -/
def promptsRaised (signals : List Signal) : ℕ := signals.count .dataPrompt

/-- The prompts among the lines themselves. -/
def promptLines (inProgress : Bool) (lines : List Bytes) : ℕ :=
  lines.countP fun line => inProgress && dropCr line == promptLine

@[simp] theorem linesPassed_append (s t : List Signal) :
    linesPassed (s ++ t) = linesPassed s ++ linesPassed t := List.filterMap_append

@[simp] theorem promptsRaised_append (s t : List Signal) :
    promptsRaised (s ++ t) = promptsRaised s + promptsRaised t := List.count_append

namespace AtUart

/-- What a line changes of the members that matter here. -/
theorem processLine_frame (u : AtUart) (line : Bytes) :
    (u.processLine line).1.commandInProgress = u.commandInProgress ∧
      (u.processLine line).1.promptArmed = u.promptArmed ∧
      (u.processLine line).1.discardPartialLine = u.discardPartialLine := by
  unfold processLine
  dsimp only
  split
  · exact ⟨rfl, rfl, rfl⟩
  · split <;> exact ⟨rfl, rfl, rfl⟩

/-- The loop over the complete lines passes them on. -/
theorem processLinesFor_spec (fuel : ℕ) (u : AtUart) (text : Bytes) :
    (u.processLinesFor fuel text).2.2 = (cutLinesFor fuel text).2 ∧
      linesPassed (u.processLinesFor fuel text).2.1 = (cutLinesFor fuel text).1 ∧
      promptsRaised (u.processLinesFor fuel text).2.1 =
        promptLines u.commandInProgress (cutLinesFor fuel text).1 ∧
      (u.processLinesFor fuel text).1.commandInProgress = u.commandInProgress ∧
      (u.processLinesFor fuel text).1.promptArmed = u.promptArmed ∧
      (u.processLinesFor fuel text).1.discardPartialLine = u.discardPartialLine := by
  induction fuel generalizing u text with
  | zero => exact ⟨rfl, rfl, rfl, rfl, rfl, rfl⟩
  | succ fuel ih =>
      cases hfind : find crlf text with
      | none =>
          simp only [processLinesFor, cutLinesFor, hfind]
          exact ⟨trivial, rfl, rfl, trivial, trivial, trivial⟩
      | some i =>
          simp only [processLinesFor, cutLinesFor, hfind]
          obtain ⟨hprogress, harmed, hdiscard⟩ := processLine_frame u (text.take i)
          obtain ⟨hrest, hlines, hprompts, hprogress', harmed', hdiscard'⟩ :=
            ih (u.processLine (text.take i)).1 (text.drop (i + 2))
          rw [hprogress] at hprompts
          refine ⟨hrest, ?_, ?_, hprogress'.trans hprogress, harmed'.trans harmed,
            hdiscard'.trans hdiscard⟩
          · rw [← List.singleton_append, List.append_assoc, linesPassed_append, linesPassed_append,
              hlines]
            unfold linePrompt
            split <;> rfl
          · rw [← List.singleton_append, List.append_assoc, promptsRaised_append,
              promptsRaised_append, hprompts, promptLines, promptLines, List.countP_cons]
            unfold linePrompt
            split <;> simp_all [promptsRaised, Nat.add_comm]

/-- A prompt in the partial line is taken out of it, and the event is raised for it once. -/
theorem takePrompt_spec (u : AtUart) :
    (takePrompt u).1.lineBuffer = (if isDataPrompt u.lineBuffer then [] else u.lineBuffer) ∧
      (takePrompt u).1.discardPartialLine = u.discardPartialLine ∧
      (takePrompt u).1.commandInProgress = u.commandInProgress ∧
      (takePrompt u).1.promptArmed = (u.promptArmed && !isDataPrompt u.lineBuffer) ∧
      linesPassed (takePrompt u).2 = [] ∧
      promptsRaised (takePrompt u).2 = if u.promptArmed && isDataPrompt u.lineBuffer then 1 else 0 := by
  unfold takePrompt
  by_cases hprompt : isDataPrompt u.lineBuffer = true
  · by_cases harmed : u.promptArmed = true <;> simp [hprompt, harmed, linesPassed, promptsRaised]
  · simp [hprompt, linesPassed, promptsRaised]

/-- The receive task has passed on what is framed. -/
structure Tracks (u : AtUart) (inProgress armed : Bool) (f : Framing) (signals : List Signal) :
    Prop where
  buffer : u.lineBuffer = f.pending
  discard : u.discardPartialLine = false
  progress : u.commandInProgress = inProgress
  arming : u.promptArmed = (armed && !f.tookPrompt)
  lines : linesPassed signals = f.lines.map Prod.snd
  prompts : promptsRaised signals =
    promptLines inProgress (f.lines.map Prod.snd) + if armed && f.tookPrompt then 1 else 0

end AtUart

namespace Framing

@[simp] theorem map_snd_terminate (prompts lines : List Bytes) :
    (terminate prompts lines).map Prod.snd = lines := by
  cases lines <;> simp [terminate, Function.comp_def]

theorem read_lines (f : Framing) {bytes : Bytes} (hne : bytes ≠ []) :
    (f.read bytes).lines.map Prod.snd =
      f.lines.map Prod.snd ++ (cutLines (f.pending ++ bytes)).1 := by
  simp only [read, hne, if_false]
  split <;> simp

theorem read_pending (f : Framing) {bytes : Bytes} (hne : bytes ≠ []) :
    (f.read bytes).pending = if isDataPrompt (cutLines (f.pending ++ bytes)).2 then []
      else (cutLines (f.pending ++ bytes)).2 := by
  simp only [read, hne, if_false]
  split <;> rfl

/-- A prompt was taken before, or this read ends behind one. -/
theorem tookPrompt_read (f : Framing) {bytes : Bytes} (hne : bytes ≠ []) :
    (f.read bytes).tookPrompt =
      (f.tookPrompt || isDataPrompt (cutLines (f.pending ++ bytes)).2) := by
  have hterminate : ∀ lines : List Bytes,
      ((terminate f.prompts lines).any fun l => !l.1.isEmpty) =
        (!lines.isEmpty && !f.prompts.isEmpty) := by
    intro lines
    cases lines with
    | nil => rfl
    | cons line lines => simp [terminate]
  simp only [read, hne, if_false]
  split
  · rename_i hprompt
    simp [tookPrompt, hprompt]
  · rename_i hprompt
    rw [Bool.eq_false_iff.mpr hprompt, Bool.or_false]
    simp only [tookPrompt, List.any_append, hterminate]
    cases hlines : (cutLines (f.pending ++ bytes)).1 <;> simp

end Framing

namespace AtUart

variable {u : AtUart} {inProgress armed : Bool} {f : Framing} {signals : List Signal}

/-- A read passes on what it frames. -/
theorem Tracks.receive (ht : u.Tracks inProgress armed f signals) (bytes : Bytes) :
    (u.receive bytes false).1.Tracks inProgress armed (f.read bytes)
      (signals ++ (u.receive bytes false).2) := by
  by_cases hne : bytes = []
  · subst hne
    have hreceive : u.receive [] false = (u, []) := by simp [AtUart.receive, ht.discard]
    have hread : f.read [] = f := if_pos rfl
    rw [hreceive, hread, List.append_nil]
    exact ht
  · have hprocessed := processLinesFor_spec (f.pending ++ bytes).length u (f.pending ++ bytes)
    change (u.processLines (f.pending ++ bytes)).2.2 = (cutLines (f.pending ++ bytes)).2 ∧ _ =
      (cutLines (f.pending ++ bytes)).1 ∧ _ = promptLines _ (cutLines (f.pending ++ bytes)).1 ∧ _
      at hprocessed
    have hreceive : u.receive bytes false =
        ((takePrompt { (u.processLines (f.pending ++ bytes)).1 with
            lineBuffer := (u.processLines (f.pending ++ bytes)).2.2 }).1,
          (u.processLines (f.pending ++ bytes)).2.1 ++
            (takePrompt { (u.processLines (f.pending ++ bytes)).1 with
              lineBuffer := (u.processLines (f.pending ++ bytes)).2.2 }).2) := by
      simp [AtUart.receive, ht.discard, hne, ht.buffer]
    rw [hreceive]
    change _ ∧ linesPassed (u.processLines (f.pending ++ bytes)).2.1 = _ ∧
      promptsRaised (u.processLines (f.pending ++ bytes)).2.1 = _ ∧
      (u.processLines (f.pending ++ bytes)).1.commandInProgress = _ ∧
      (u.processLines (f.pending ++ bytes)).1.promptArmed = _ ∧
      (u.processLines (f.pending ++ bytes)).1.discardPartialLine = _ at hprocessed
    generalize u.processLines (f.pending ++ bytes) = out at hprocessed ⊢
    obtain ⟨hrest, hlines, hprompts, hprogress, harmed, hdiscard⟩ := hprocessed
    obtain ⟨hbuffer', hdiscard', hprogress', harmed', hlines', hprompts'⟩ :=
      takePrompt_spec { out.1 with lineBuffer := out.2.2 }
    generalize takePrompt { out.1 with lineBuffer := out.2.2 } = taken at *
    simp only [hrest, harmed, ht.arming] at hbuffer' harmed' hprompts'
    constructor
    · rw [hbuffer', f.read_pending hne]
    · exact hdiscard'.trans (hdiscard.trans ht.discard)
    · exact hprogress'.trans (hprogress.trans ht.progress)
    · rw [harmed', f.tookPrompt_read hne, Bool.not_or, Bool.and_assoc]
    · rw [linesPassed_append, linesPassed_append, hlines, hlines', ht.lines, f.read_lines hne,
        List.append_nil]
    · have hcount : promptLines inProgress ((f.read bytes).lines.map Prod.snd) =
          promptLines inProgress (f.lines.map Prod.snd) +
            promptLines inProgress (cutLines (f.pending ++ bytes)).1 := by
        rw [f.read_lines hne]
        exact List.countP_append
      rw [promptsRaised_append, promptsRaised_append, hprompts, hprompts', ht.prompts, hcount,
        f.tookPrompt_read hne, ht.progress]
      cases armed <;> cases f.tookPrompt <;>
        cases isDataPrompt (cutLines (f.pending ++ bytes)).2 <;> simp <;> omega

/-- So do the reads of a whole cut. -/
theorem Tracks.receiveAll (ht : u.Tracks inProgress armed f signals) (reads : List Bytes) :
    (u.receiveAll reads).1.Tracks inProgress armed (reads.foldl Framing.read f)
      (signals ++ (u.receiveAll reads).2) := by
  induction reads generalizing u f signals with
  | nil =>
      rw [AtUart.receiveAll, List.append_nil]
      exact ht
  | cons bytes reads ih =>
      have hrest := ih (ht.receive bytes)
      rw [List.append_assoc] at hrest
      exact hrest

/-- The receive task before its first read. -/
def atStart (u : AtUart) : AtUart := { u with lineBuffer := [], discardPartialLine := false }

theorem tracks_atStart (u : AtUart) :
    u.atStart.Tracks u.commandInProgress u.promptArmed {} [] :=
  ⟨rfl, rfl, rfl, (Bool.and_true _).symm, rfl, by simp [promptsRaised, promptLines, Framing.tookPrompt]⟩

end AtUart

/-- Two cuts of a stream pass on the same lines and raise the event equally often exactly when
they take the same prompts out of the terminated lines and, where the prompt is armed, both take
some prompt or neither does. -/
theorem receiveAll_same_iff (u : AtUart) {reads₁ reads₂ : List Bytes}
    (h : reads₁.flatten = reads₂.flatten) :
    (linesPassed (u.atStart.receiveAll reads₁).2 = linesPassed (u.atStart.receiveAll reads₂).2 ∧
      promptsRaised (u.atStart.receiveAll reads₁).2 =
        promptsRaised (u.atStart.receiveAll reads₂).2) ↔
      promptsTaken reads₁ = promptsTaken reads₂ ∧
        (u.promptArmed = true → (framing reads₁).tookPrompt = (framing reads₂).tookPrompt) := by
  have ht₁ := (AtUart.tracks_atStart u).receiveAll reads₁
  have ht₂ := (AtUart.tracks_atStart u).receiveAll reads₂
  obtain ⟨hsound₁, htext₁⟩ := framing_sound reads₁
  obtain ⟨hsound₂, htext₂⟩ := framing_sound reads₂
  have hsame := Framing.eq_of_text_eq hsound₁ hsound₂ (by rw [htext₁, htext₂, h])
  have hlines := Framing.lines_eq_iff hsound₁.linePrompts hsound₂.linePrompts hsame
  rw [List.nil_append] at ht₁ ht₂
  rw [ht₁.lines, ht₂.lines, ht₁.prompts, ht₂.prompts]
  change (framing reads₁).lines.map Prod.snd = (framing reads₂).lines.map Prod.snd ∧
    promptLines _ ((framing reads₁).lines.map Prod.snd) +
        (if u.promptArmed && (framing reads₁).tookPrompt then 1 else 0) =
      promptLines _ ((framing reads₂).lines.map Prod.snd) +
        (if u.promptArmed && (framing reads₂).tookPrompt then 1 else 0) ↔ _
  rw [hlines]
  apply and_congr_right
  intro htaken
  rw [hlines.mpr htaken, Nat.add_left_cancel_iff]
  cases u.promptArmed <;> cases (framing reads₁).tookPrompt <;>
    cases (framing reads₂).tookPrompt <;> simp

theorem receiveAll_same_iff_ok :
    (linesPassed (AtUart.receiveAll (AtUart.atStart {}) [okLine ++ crlf]).2 =
        linesPassed (AtUart.receiveAll (AtUart.atStart {}) [ascii ['O'], ascii ['K'] ++ crlf]).2 ∧
      promptsRaised (AtUart.receiveAll (AtUart.atStart {}) [okLine ++ crlf]).2 =
        promptsRaised (AtUart.receiveAll (AtUart.atStart {}) [ascii ['O'], ascii ['K'] ++ crlf]).2) ↔
      promptsTaken [okLine ++ crlf] = promptsTaken [ascii ['O'], ascii ['K'] ++ crlf] ∧
        (AtUart.promptArmed {} = true →
          (framing [okLine ++ crlf]).tookPrompt =
            (framing [ascii ['O'], ascii ['K'] ++ crlf]).tookPrompt) :=
  receiveAll_same_iff {} rfl

/-- A prompt line raises the event for the payload, unless a read ends between its `>` and its
line end. -/
theorem prompt_lost_between_reads :
    ¬ ∀ (u : AtUart) (reads₁ reads₂ : List Bytes), reads₁.flatten = reads₂.flatten →
      linesPassed (u.atStart.receiveAll reads₁).2 = linesPassed (u.atStart.receiveAll reads₂).2 ∧
        promptsRaised (u.atStart.receiveAll reads₁).2 =
          promptsRaised (u.atStart.receiveAll reads₂).2 := by
  intro h
  obtain ⟨-, hprompts⟩ := h { commandInProgress := true } [promptLine ++ crlf] [promptLine, crlf] rfl
  exact absurd hprompts (by decide +kernel)

end EspModemLink.AtChannel
