import EspModemLink.WebSocket.Client

/-!
# Messages and their fragments

What a sequence of data frames says: messages, each one an opening frame with its continuations,
up to the first frame that cannot stand where it stands. The reassembler below reads the frames
one by one and arrives at the same.
-/

namespace EspModemLink.WebSocket

open Bytes

/-! ## The specification -/

/-- An opening frame and continuations of it. -/
structure Fragments where
  opening : WsFrame
  continuations : List WsFrame
  opens : opening.opcode = .kText ∨ opening.opcode = .kBinary
  continues : ∀ f ∈ continuations, f.opcode = .kContinuation

namespace Fragments

def frames (m : Fragments) : List WsFrame := m.opening :: m.continuations

/-- The payloads in order. -/
def payload (m : Fragments) : Bytes := m.frames.flatMap WsFrame.payload

/-- The kind is that of the opening frame. -/
def binary (m : Fragments) : Bool := m.opening.opcode == .kBinary

/-- A message that came in more than one frame is within the limit. -/
def Fits (m : Fragments) : Prop := m.continuations ≠ [] → m.payload.length ≤ kMaxMessageBytes

end Fragments

/-- A message: its last frame, and no other, is final. -/
structure Message extends Fragments where
  finished : ∃ front last, toFragments.frames = front ++ [last] ∧ (∀ f ∈ front, f.fin = false) ∧
    last.fin = true
  fits : toFragments.Fits

/-- The beginning of a message. -/
structure Unfinished extends Fragments where
  unfinished : ∀ f ∈ toFragments.frames, f.fin = false
  fits : toFragments.Fits

/-- What can be wrong with a data frame behind the frames before it. -/
inductive Violation where
  | nothingOpen | messageOpen | tooBig
deriving DecidableEq, Repr

def Violation.code : Violation → ℕ
  | .nothingOpen | .messageOpen => kProtocolErrorCode
  | .tooBig => kMessageTooBig

def Violation.error : Violation → NetworkError
  | .nothingOpen =>
      ⟨.kProtocolError, 0, "a continuation frame arrived with no message to continue"⟩
  | .messageOpen =>
      ⟨.kProtocolError, 0, "a new message started before the last one finished"⟩
  | .tooBig => ⟨.kBufferOverflow, 0, "a fragmented message exceeds the size limit"⟩

/-- The data frames behind the last whole message: nothing, the beginning of a message, or a first
violation with whatever follows it. -/
inductive Ending : List WsFrame → Option Violation → Prop
  | nothing : Ending [] none
  | unfinished (u : Unfinished) : Ending u.frames none
  | nothingOpen (f : WsFrame) (rest : List WsFrame) (hf : f.opcode = .kContinuation) :
      Ending (f :: rest) (some .nothingOpen)
  | messageOpen (u : Unfinished) (f : WsFrame) (rest : List WsFrame)
      (hf : f.opcode = .kText ∨ f.opcode = .kBinary) : Ending (u.frames ++ f :: rest) (some .messageOpen)
  | tooBig (u : Unfinished) (f : WsFrame) (rest : List WsFrame) (hf : f.opcode = .kContinuation)
      (hbig : kMaxMessageBytes < (u.payload ++ f.payload).length) :
      Ending (u.frames ++ f :: rest) (some .tooBig)

/-- The frames without the control frames between them. -/
def dataFrames (frames : List WsFrame) : List WsFrame :=
  frames.filter fun f => !isControlOpcode f.opcode

/-- What a sequence of frames says. -/
structure Reading (frames : List WsFrame) where
  messages : List Message
  tail : List WsFrame
  violation : Option Violation
  split : dataFrames frames = messages.flatMap (fun m => m.frames) ++ tail
  ending : Ending tail violation

/-! ## The reassembler -/

/-- The message under way as its kind and payload, the messages so far, and the violation that
ended them. -/
structure Reassembled where
  opened : Option (Bool × Bytes) := none
  messages : List (Bytes × Bool) := []
  violation : Option Violation := none
deriving DecidableEq

namespace Reassembled

def deliver (s : Reassembled) (payload : Bytes) (binary : Bool) : Reassembled :=
  { s with opened := none, messages := s.messages ++ [(payload, binary)] }

/-- With a message under way. -/
def under (s : Reassembled) (binary : Bool) (payload : Bytes) : Reassembled :=
  { s with opened := some (binary, payload) }

def fail (s : Reassembled) (v : Violation) : Reassembled := { s with violation := some v }

/-- A data frame with no message under way. -/
def start (s : Reassembled) (f : WsFrame) : Reassembled :=
  if f.opcode = .kContinuation then s.fail .nothingOpen
  else if f.fin then s.deliver f.payload (f.opcode == .kBinary)
  else s.under (f.opcode == .kBinary) f.payload

/-- A data frame behind the beginning of a message. -/
def resume (s : Reassembled) (binary : Bool) (payload : Bytes) (f : WsFrame) : Reassembled :=
  if f.opcode ≠ .kContinuation then s.fail .messageOpen
  else if kMaxMessageBytes < (payload ++ f.payload).length then s.fail .tooBig
  else if f.fin then s.deliver (payload ++ f.payload) binary
  else s.under binary (payload ++ f.payload)

def next (s : Reassembled) (f : WsFrame) : Reassembled :=
  if s.violation ≠ none ∨ isControlOpcode f.opcode then s
  else
    match s.opened with
    | none => s.start f
    | some (binary, payload) => s.resume binary payload f

def feed (s : Reassembled) (frames : List WsFrame) : Reassembled := frames.foldl next s

@[simp] theorem feed_nil (s : Reassembled) : s.feed [] = s := rfl

@[simp] theorem feed_cons (s : Reassembled) (f : WsFrame) (frames : List WsFrame) :
    s.feed (f :: frames) = (s.next f).feed frames := rfl

theorem feed_append (s : Reassembled) (front back : List WsFrame) :
    s.feed (front ++ back) = (s.feed front).feed back := List.foldl_append

theorem next_of_violation {s : Reassembled} (h : s.violation ≠ none) (f : WsFrame) :
    s.next f = s := by
  rw [next, if_pos (Or.inl h)]

/-- Behind a violation nothing counts. -/
theorem feed_of_violation {s : Reassembled} (h : s.violation ≠ none) (frames : List WsFrame) :
    s.feed frames = s := by
  induction frames with
  | nil => rfl
  | cons f frames ih => rw [feed_cons, next_of_violation h, ih]

theorem next_of_control (s : Reassembled) {f : WsFrame} (h : isControlOpcode f.opcode = true) :
    s.next f = s := by
  rw [next, if_pos (Or.inr h)]

/-- Control frames have no effect wherever they stand. -/
theorem feed_dataFrames (s : Reassembled) (frames : List WsFrame) :
    s.feed (dataFrames frames) = s.feed frames := by
  induction frames generalizing s with
  | nil => rfl
  | cons f frames ih =>
      cases hcontrol : isControlOpcode f.opcode with
      | true =>
          have hskip : dataFrames (f :: frames) = dataFrames frames := by
            simp [dataFrames, hcontrol]
          rw [hskip, feed_cons, next_of_control s hcontrol, ih]
      | false =>
          have hkeep : dataFrames (f :: frames) = f :: dataFrames frames := by
            simp [dataFrames, hcontrol]
          rw [hkeep, feed_cons, feed_cons, ih]

/-- A message that was delivered stays so. -/
theorem messages_prefix (s : Reassembled) (frames : List WsFrame) :
    s.messages <+: (s.feed frames).messages := by
  induction frames generalizing s with
  | nil => exact List.prefix_refl _
  | cons f frames ih =>
      have hnext : s.messages <+: (s.next f).messages := by
        unfold next
        split
        · exact List.prefix_refl _
        · split
          · unfold start
            split
            · exact List.prefix_refl _
            · split
              · exact List.prefix_append _ _
              · exact List.prefix_refl _
          · unfold resume
            split
            · exact List.prefix_refl _
            · split
              · exact List.prefix_refl _
              · split
                · exact List.prefix_append _ _
                · exact List.prefix_refl _
      exact hnext.trans (ih _)

theorem next_start {s : Reassembled} {f : WsFrame} (hv : s.violation = none)
    (hcontrol : isControlOpcode f.opcode = false) (ho : s.opened = none) : s.next f = s.start f := by
  rw [next, if_neg (by simp [hv, hcontrol])]
  simp only [ho]

theorem next_under {s : Reassembled} {f : WsFrame} (hv : s.violation = none)
    (hcontrol : isControlOpcode f.opcode = false) (binary : Bool) (payload : Bytes) :
    (s.under binary payload).next f = (s.under binary payload).resume binary payload f := by
  rw [next, if_neg (by simp [under, hv, hcontrol])]
  rfl

end Reassembled

/-- The frames one by one. -/
def reassemble (frames : List WsFrame) : Reassembled := ({} : Reassembled).feed frames

theorem reassemble_append (front back : List WsFrame) :
    reassemble (front ++ back) = (reassemble front).feed back := Reassembled.feed_append _ _ _

/-! ## The reassembler meets the specification -/

theorem control_of_continuation {f : WsFrame} (h : f.opcode = .kContinuation) :
    isControlOpcode f.opcode = false := by
  rw [h]
  rfl

theorem Fragments.control_opening (m : Fragments) : isControlOpcode m.opening.opcode = false := by
  obtain h | h := m.opens
  · rw [h]
    rfl
  · rw [h]
    rfl

theorem Fragments.opening_ne (m : Fragments) : m.opening.opcode ≠ .kContinuation := by
  obtain h | h := m.opens
  · rw [h]
    decide
  · rw [h]
    decide

/-- Continuations that are not final add up. -/
theorem Reassembled.feed_continuations {s : Reassembled} {binary : Bool} {payload : Bytes}
    {frames : List WsFrame} (hv : s.violation = none)
    (hframes : ∀ f ∈ frames, f.opcode = .kContinuation ∧ f.fin = false)
    (hfits : frames ≠ [] →
      (payload ++ frames.flatMap WsFrame.payload).length ≤ kMaxMessageBytes) :
    (s.under binary payload).feed frames =
      s.under binary (payload ++ frames.flatMap WsFrame.payload) := by
  induction frames generalizing payload with
  | nil => rw [feed_nil, List.flatMap_nil, List.append_nil]
  | cons f frames ih =>
      obtain ⟨hcontinuation, hfin⟩ := hframes f List.mem_cons_self
      have hlength := hfits (List.cons_ne_nil _ _)
      rw [List.flatMap_cons, ← List.append_assoc] at hlength
      have hstep : (s.under binary payload).next f = s.under binary (payload ++ f.payload) := by
        rw [next_under hv (control_of_continuation hcontinuation), resume,
          if_neg (by simp [hcontinuation]), if_neg (by rw [List.length_append] at hlength; omega),
          if_neg (by simp [hfin])]
        rfl
      rw [feed_cons, hstep, ih (fun g hg => hframes g (List.mem_cons_of_mem _ hg))
        (fun _ => hlength), List.flatMap_cons, List.append_assoc]

/-- An opening frame that is not final. -/
theorem Reassembled.next_opening {s : Reassembled} (hv : s.violation = none)
    (ho : s.opened = none) (m : Fragments) (hfin : m.opening.fin = false) :
    s.next m.opening = s.under m.binary m.opening.payload := by
  rw [next_start hv m.control_opening ho, start, if_neg m.opening_ne, if_neg (by simp [hfin])]
  rfl

/-- The beginning of a message is kept. -/
theorem Reassembled.feed_unfinished {s : Reassembled} (hv : s.violation = none)
    (ho : s.opened = none) (u : Unfinished) : s.feed u.frames = s.under u.binary u.payload := by
  rw [Fragments.frames, feed_cons, next_opening hv ho _ (u.unfinished _ List.mem_cons_self)]
  apply feed_continuations hv
  · intro f hf
    exact ⟨u.continues f hf, u.unfinished f (List.mem_cons_of_mem _ hf)⟩
  · exact u.fits

/-- A message is delivered. -/
theorem Reassembled.feed_message {s : Reassembled} (hv : s.violation = none)
    (ho : s.opened = none) (m : Message) : s.feed m.frames = s.deliver m.payload m.binary := by
  obtain ⟨front, last, hframes, hfront, hlast⟩ := m.finished
  have hopening := m.control_opening
  cases hcontinuations : m.continuations with
  | nil =>
      have hsingle : m.frames = [m.opening] := by rw [Fragments.frames, hcontinuations]
      have hfin : m.opening.fin = true := by
        have hone : [m.opening] = front ++ [last] := hsingle ▸ hframes
        cases front with
        | nil =>
            rw [List.nil_append, List.cons.injEq] at hone
            rw [hone.1, hlast]
        | cons g front =>
            have hlength := congrArg List.length hone
            simp at hlength
      have hpayload : m.payload = m.opening.payload := by simp [Fragments.payload, hsingle]
      rw [hsingle, feed_cons, feed_nil, next_start hv hopening ho, start, if_neg m.opening_ne,
        if_pos hfin, hpayload]
      rfl
  | cons g others =>
      obtain ⟨continuations, last', hsnoc⟩ : ∃ continuations last',
          m.continuations = continuations ++ [last'] := by
        rw [hcontinuations]
        exact ⟨(g :: others).dropLast, (g :: others).getLast (List.cons_ne_nil _ _),
          (List.dropLast_append_getLast _).symm⟩
      have hwhole : m.frames = (m.opening :: continuations) ++ [last'] := by
        rw [Fragments.frames, hsnoc]
        rfl
      obtain ⟨rfl, hsame⟩ := List.append_inj' (hframes.symm.trans hwhole) rfl
      obtain rfl : last = last' := by simpa using hsame
      have hmem : last ∈ m.continuations := by
        rw [hsnoc]
        exact List.mem_append_right _ List.mem_cons_self
      have hbefore : ∀ f ∈ continuations, f.opcode = .kContinuation ∧ f.fin = false := by
        intro f hf
        refine ⟨m.continues f ?_, hfront f (List.mem_cons_of_mem _ hf)⟩
        rw [hsnoc]
        exact List.mem_append_left _ hf
      have hpayload : m.payload = m.opening.payload ++ continuations.flatMap WsFrame.payload ++
          last.payload := by
        rw [Fragments.payload, hwhole]
        simp
      have hfits := m.fits (by rw [hcontinuations]; exact List.cons_ne_nil _ _)
      rw [hpayload] at hfits
      have hbegin : s.feed (m.opening :: continuations) =
          s.under m.binary (m.opening.payload ++ continuations.flatMap WsFrame.payload) := by
        rw [feed_cons, next_opening hv ho _ (hfront _ List.mem_cons_self)]
        apply feed_continuations hv hbefore
        intro _
        rw [List.length_append] at hfits
        omega
      have hlastStep : (s.under m.binary (m.opening.payload ++
          continuations.flatMap WsFrame.payload)).next last = s.deliver m.payload m.binary := by
        rw [next_under hv (control_of_continuation (m.continues last hmem)), resume,
          if_neg (by simp [m.continues last hmem]), if_neg (by omega), if_pos hlast, hpayload]
        rfl
      rw [hwhole, feed_append, hbegin, feed_cons, hlastStep, feed_nil]

theorem Reassembled.feed_messages {s : Reassembled} (hv : s.violation = none)
    (ho : s.opened = none) (messages : List Message) :
    s.feed (messages.flatMap fun m => m.frames) =
      { s with messages := s.messages ++ messages.map fun m => (m.payload, m.binary) } := by
  induction messages generalizing s with
  | nil => simp
  | cons m messages ih =>
      have hdelivered : (s.deliver m.payload m.binary).violation = none := hv
      rw [List.flatMap_cons, feed_append, feed_message hv ho, ih hdelivered rfl]
      simp [deliver, ho]

/-- What is behind the last whole message adds no message. -/
theorem Reassembled.feed_ending {s : Reassembled} (hv : s.violation = none)
    (ho : s.opened = none) {tail : List WsFrame} {violation : Option Violation}
    (h : Ending tail violation) :
    (s.feed tail).messages = s.messages ∧ (s.feed tail).violation = violation := by
  have hresumed : ∀ (u : Unfinished) (f : WsFrame) (rest : List WsFrame) (v : Violation),
      isControlOpcode f.opcode = false →
      (s.under u.binary u.payload).resume u.binary u.payload f =
        (s.under u.binary u.payload).fail v →
      (s.feed (u.frames ++ f :: rest)).messages = s.messages ∧
        (s.feed (u.frames ++ f :: rest)).violation = some v := by
    intro u f rest v hcontrol hresume
    rw [feed_append, feed_unfinished hv ho, feed_cons, next_under hv hcontrol, hresume,
      feed_of_violation (by simp [Reassembled.fail])]
    exact ⟨rfl, rfl⟩
  cases h with
  | nothing => exact ⟨rfl, hv⟩
  | unfinished u =>
      rw [feed_unfinished hv ho]
      exact ⟨rfl, hv⟩
  | nothingOpen f rest hf =>
      have hstep : s.next f = s.fail .nothingOpen := by
        rw [next_start hv (control_of_continuation hf) ho, start, if_pos hf]
      rw [feed_cons, hstep, feed_of_violation (by simp [Reassembled.fail])]
      exact ⟨rfl, rfl⟩
  | messageOpen u f rest hf =>
      apply hresumed
      · obtain h | h := hf <;> rw [h] <;> rfl
      · rw [resume, if_pos (by obtain h | h := hf <;> rw [h] <;> decide)]
  | tooBig u f rest hf hbig =>
      apply hresumed
      · exact control_of_continuation hf
      · rw [resume, if_neg (by simp [hf]), if_pos hbig]

/-- The reassembler finds exactly what the frames say. -/
theorem Reading.reassembled {frames : List WsFrame} (r : Reading frames) :
    (reassemble frames).messages = r.messages.map (fun m => (m.payload, m.binary)) ∧
      (reassemble frames).violation = r.violation := by
  rw [reassemble, ← Reassembled.feed_dataFrames, r.split, Reassembled.feed_append,
    Reassembled.feed_messages rfl rfl]
  exact Reassembled.feed_ending rfl rfl r.ending

/-! ## Every sequence of frames says something -/

/-- The beginning of a message goes on. -/
def Unfinished.extend (u : Unfinished) (f : WsFrame) (hf : f.opcode = .kContinuation)
    (hfin : f.fin = false) (hfits : (u.payload ++ f.payload).length ≤ kMaxMessageBytes) :
    Unfinished where
  opening := u.opening
  continuations := u.continuations ++ [f]
  opens := u.opens
  continues g hg := by
    obtain hg | hg := List.mem_append.mp hg
    · exact u.continues g hg
    · rw [List.mem_singleton.mp hg, hf]
  unfinished g hg := by
    obtain hg | hg := List.mem_append.mp (show g ∈ u.frames ++ [f] from hg)
    · exact u.unfinished g hg
    · rw [List.mem_singleton.mp hg, hfin]
  fits _ := by
    have hpayload : (u.frames ++ [f]).flatMap WsFrame.payload = u.payload ++ f.payload := by
      simp [Fragments.payload]
    rw [← hpayload] at hfits
    exact hfits

/-- The beginning of a message ends. -/
def Unfinished.finish (u : Unfinished) (f : WsFrame) (hf : f.opcode = .kContinuation)
    (hfin : f.fin = true) (hfits : (u.payload ++ f.payload).length ≤ kMaxMessageBytes) :
    Message where
  opening := u.opening
  continuations := u.continuations ++ [f]
  opens := u.opens
  continues g hg := by
    obtain hg | hg := List.mem_append.mp hg
    · exact u.continues g hg
    · rw [List.mem_singleton.mp hg, hf]
  finished := ⟨u.frames, f, rfl, u.unfinished, hfin⟩
  fits _ := by
    have hpayload : (u.frames ++ [f]).flatMap WsFrame.payload = u.payload ++ f.payload := by
      simp [Fragments.payload]
    rw [← hpayload] at hfits
    exact hfits

/-- A frame that opens a message. -/
def Fragments.single (f : WsFrame) (hf : f.opcode = .kText ∨ f.opcode = .kBinary) : Fragments where
  opening := f
  continuations := []
  opens := hf
  continues g hg := by cases hg

/-- One more data frame behind the last whole message is an ending, or makes one more message. -/
theorem Ending.snoc {tail : List WsFrame} {violation : Option Violation} (h : Ending tail violation)
    {f : WsFrame} (hf : isControlOpcode f.opcode = false) :
    (∃ violation', Ending (tail ++ [f]) violation') ∨ ∃ m : Message, tail ++ [f] = m.frames := by
  have hkind : f.opcode = .kContinuation ∨ f.opcode = .kText ∨ f.opcode = .kBinary := by
    cases hopcode : f.opcode with
    | kContinuation => exact .inl rfl
    | kText => exact .inr (.inl rfl)
    | kBinary => exact .inr (.inr rfl)
    | kClose | kPing | kPong =>
        rw [hopcode] at hf
        cases hf
  cases h with
  | nothing =>
      obtain hcontinuation | hopens := hkind
      · exact .inl ⟨_, .nothingOpen f [] hcontinuation⟩
      · cases hfin : f.fin with
        | true =>
            refine .inr ⟨{ Fragments.single f hopens with
              finished := ⟨[], f, rfl, by simp, hfin⟩, fits := ?_ }, rfl⟩
            intro hne
            exact absurd rfl hne
        | false =>
            refine .inl ⟨none, .unfinished { Fragments.single f hopens with
              unfinished := ?_, fits := ?_ }⟩
            · intro g hg
              rw [List.mem_singleton.mp hg]
              exact hfin
            · intro hne
              exact absurd rfl hne
  | unfinished u =>
      obtain hcontinuation | hopens := hkind
      · by_cases hbig : kMaxMessageBytes < (u.payload ++ f.payload).length
        · exact .inl ⟨_, .tooBig u f [] hcontinuation hbig⟩
        · cases hfin : f.fin with
          | true => exact .inr ⟨u.finish f hcontinuation hfin (Nat.not_lt.mp hbig), rfl⟩
          | false => exact .inl ⟨_, .unfinished (u.extend f hcontinuation hfin (Nat.not_lt.mp hbig))⟩
      · exact .inl ⟨_, .messageOpen u f [] hopens⟩
  | nothingOpen g rest hg => exact .inl ⟨_, .nothingOpen g (rest ++ [f]) hg⟩
  | messageOpen u g rest hg =>
      rw [List.append_assoc]
      exact .inl ⟨_, .messageOpen u g (rest ++ [f]) hg⟩
  | tooBig u g rest hg hbig =>
      rw [List.append_assoc]
      exact .inl ⟨_, .tooBig u g (rest ++ [f]) hg hbig⟩

theorem exists_reading (frames : List WsFrame) : Nonempty (Reading frames) := by
  induction frames using List.reverseRecOn with
  | nil => exact ⟨⟨[], [], none, rfl, .nothing⟩⟩
  | append_singleton frames f ih =>
      obtain ⟨r⟩ := ih
      cases hcontrol : isControlOpcode f.opcode with
      | true =>
          have hskip : dataFrames (frames ++ [f]) = dataFrames frames := by
            simp [dataFrames, hcontrol]
          exact ⟨⟨r.messages, r.tail, r.violation, hskip.trans r.split, r.ending⟩⟩
      | false =>
          have hkeep : dataFrames (frames ++ [f]) =
              r.messages.flatMap (fun m => m.frames) ++ (r.tail ++ [f]) := by
            have hsnoc : dataFrames (frames ++ [f]) = dataFrames frames ++ [f] := by
              simp [dataFrames, hcontrol]
            rw [hsnoc, r.split, List.append_assoc]
          obtain ⟨violation, hending⟩ | ⟨m, hm⟩ := r.ending.snoc hcontrol
          · exact ⟨⟨r.messages, r.tail ++ [f], violation, hkeep, hending⟩⟩
          · refine ⟨⟨r.messages ++ [m], [], none, ?_, .nothing⟩⟩
            rw [hkeep, hm]
            simp

end EspModemLink.WebSocket
