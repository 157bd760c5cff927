import EspModemLink.Library.Transcript
import EspModemLink.Ml307.CidSearch
import EspModemLink.Ml307.HexPayload
import EspModemLink.OpenCommands

/-!
# The settings of a socket that opens

The module keeps the settings of a socket by its id, and those of a TLS context by the number of the
context. A socket that `OpenSocket` opens is under the settings that were asked for, and no command of
the call names the id of a socket that the pool has in use.
-/

namespace EspModemLink.Ml307

open AtChannel AtParser Bytes Transcript

/-! ## What the module keeps -/

/-- The settings that commands leave in the module, by socket and by TLS context. -/
structure Settings where
  /-- Whether a socket is under TLS, and the context that it is then under. -/
  ssl : Int → Option (Int × Int)
  encoding : Int → Option (Int × Int)
  auth : Int → Option Int
  negotime : Int → Option Int

def mipcfgName : Bytes := ascii ['A', 'T', '+', 'M', 'I', 'P', 'C', 'F', 'G']
def msslcfgName : Bytes := ascii ['A', 'T', '+', 'M', 'S', 'S', 'L', 'C', 'F', 'G']
def sslName : Bytes := ascii ['s', 's', 'l']
def encodingName : Bytes := ascii ['e', 'n', 'c', 'o', 'd', 'i', 'n', 'g']
def authName : Bytes := ascii ['a', 'u', 't', 'h']
def negotimeName : Bytes := ascii ['n', 'e', 'g', 'o', 't', 'i', 'm', 'e']

/-- A command that gives a setting its values: the command's own name, the name of the setting and
the values. -/
def settingOf (cmd : Bytes) : Option (Bytes × Bytes × List Int) :=
  match commandFields cmd with
  | [] => none
  | name :: values => (values.mapM parseInt).map fun values => (cmd.takeWhile (· != 61), name, values)

namespace Settings

def set (m : Settings) (command name : Bytes) : List Int → Settings
  | [id, first, second] =>
      if command = mipcfgName ∧ name = sslName then
        { m with ssl := Function.update m.ssl id (some (first, second)) }
      else if command = mipcfgName ∧ name = encodingName then
        { m with encoding := Function.update m.encoding id (some (first, second)) }
      else m
  | [context, value] =>
      if command = msslcfgName ∧ name = authName then
        { m with auth := Function.update m.auth context (some value) }
      else if command = msslcfgName ∧ name = negotimeName then
        { m with negotime := Function.update m.negotime context (some value) }
      else m
  | _ => m

/-- The settings behind a command that was accepted. -/
def after (m : Settings) (cmd : Bytes) : Settings :=
  match settingOf cmd with
  | none => m
  | some (command, name, values) => m.set command name values

/-- The settings behind some calls. -/
def run (m : Settings) (calls : List Called) : Settings :=
  calls.foldl (fun m c =>
    match c with
    | .command _ cmd _ (.ok ()) => m.after cmd
    | .command _ _ _ (.error _) | .moved _ _ => m) m

end Settings

/-- How a socket speaks to its server: under TLS with what the server is verified by and the seconds
that the handshake may take. -/
inductive Transport where
  | plain
  | tls (auth negotime : Option Int)
deriving DecidableEq

/-- How a socket speaks under the settings of the module. -/
def Settings.transport (m : Settings) (id : Int) : Option Transport :=
  match m.ssl id with
  | some (0, _) => some .plain
  | some (1, context) => some (.tls (m.auth context) (m.negotime context))
  | _ => none

/-- How the socket is asked to speak. -/
def Target.transport (target : Target) : Transport :=
  if target.ssl then
    .tls (some (if target.config.verifyCertificate then 1 else 0)) (some target.config.handshakeTimeout)
  else .plain

/-! ## What the commands say -/

theorem splitCsv_decimals (n : Int) (values : List Int) :
    splitCsv (decimalInt n ++ values.flatMap fun value => 44 :: decimalInt value) =
      (n :: values).map decimalInt := by
  induction values generalizing n with
  | nil =>
      rw [List.flatMap_nil, List.append_nil]
      exact splitCsv_self (decimalInt_comma_quote n)
  | cons value values ih =>
      rw [List.flatMap_cons, List.cons_append, splitCsv_append (decimalInt_comma_quote n), ih]
      rfl

theorem settingLine_eq (command name : List Char) (n : Int) (values : List Int) :
    settingLine command name (n :: values) = (ascii ['A', 'T', '+'] ++ ascii command) ++
      61 :: (34 :: ascii name ++ 34 :: 44 :: (decimalInt n ++
        values.flatMap fun value => 44 :: decimalInt value)) := by
  simp [settingLine, inQuotes]

theorem commandFields_settingLine {command name : List Char}
    (hcommand : 61 ∉ ascii ['A', 'T', '+'] ++ ascii command) (hname : 34 ∉ ascii name) (n : Int)
    (values : List Int) :
    commandFields (settingLine command name (n :: values)) =
      ascii name :: (n :: values).map decimalInt := by
  rw [settingLine_eq, commandFields_append hcommand, splitCsv_quoted_append hname, splitCsv_decimals]

theorem parseInt_decimalInt {n : Int} (hpos : 0 ≤ n) (hlt : n < 2 ^ 31) :
    parseInt (decimalInt n) = some n := by
  rw [decimalInt, if_neg (by omega), parseInt_decimal (by omega)]
  exact congrArg some (by omega)

theorem mapM_parseInt {values : List Int} (h : ∀ n ∈ values, 0 ≤ n ∧ n < 2 ^ 31) :
    (values.map decimalInt).mapM parseInt = some values := by
  induction values with
  | nil => rfl
  | cons n values ih =>
      obtain ⟨⟨hpos, hlt⟩, hrest⟩ := List.forall_mem_cons.mp h
      rw [List.map_cons, List.mapM_cons, parseInt_decimalInt hpos hlt, ih hrest]
      rfl

theorem settingOf_settingLine {command name : List Char}
    (hcommand : 61 ∉ ascii ['A', 'T', '+'] ++ ascii command) (hname : 34 ∉ ascii name) {n : Int}
    {values : List Int} (hvalues : ∀ v ∈ n :: values, 0 ≤ v ∧ v < 2 ^ 31) :
    settingOf (settingLine command name (n :: values)) =
      some (ascii ['A', 'T', '+'] ++ ascii command, ascii name, n :: values) := by
  have hbefore : (settingLine command name (n :: values)).takeWhile (· != 61) =
      ascii ['A', 'T', '+'] ++ ascii command := by
    rw [settingLine_eq, List.takeWhile_append_of_pos]
    · simp
    · intro c hc
      exact bne_iff_ne.mpr fun heq => hcommand (heq ▸ hc)
  rw [settingOf, commandFields_settingLine hcommand hname]
  dsimp only
  rw [mapM_parseInt hvalues, hbefore]
  rfl

section

variable (m : Settings) {id first second value : Int}

theorem after_ssl (h : ∀ v ∈ [id, first, second], 0 ≤ v ∧ v < 2 ^ 31) :
    m.after (settingLine ['M', 'I', 'P', 'C', 'F', 'G'] ['s', 's', 'l'] [id, first, second]) =
      { m with ssl := Function.update m.ssl id (some (first, second)) } := by
  rw [Settings.after, settingOf_settingLine (by decide) (by decide) h]
  dsimp only [Settings.set]
  rw [if_pos (by decide)]

theorem after_encoding (h : ∀ v ∈ [id, first, second], 0 ≤ v ∧ v < 2 ^ 31) :
    m.after (settingLine ['M', 'I', 'P', 'C', 'F', 'G']
      ['e', 'n', 'c', 'o', 'd', 'i', 'n', 'g'] [id, first, second]) =
      { m with encoding := Function.update m.encoding id (some (first, second)) } := by
  rw [Settings.after, settingOf_settingLine (by decide) (by decide) h]
  dsimp only [Settings.set]
  rw [if_neg (by decide), if_pos (by decide)]

theorem after_auth (h : ∀ v ∈ [id, value], 0 ≤ v ∧ v < 2 ^ 31) :
    m.after (settingLine ['M', 'S', 'S', 'L', 'C', 'F', 'G'] ['a', 'u', 't', 'h'] [id, value]) =
      { m with auth := Function.update m.auth id (some value) } := by
  rw [Settings.after, settingOf_settingLine (by decide) (by decide) h]
  dsimp only [Settings.set]
  rw [if_pos (by decide)]

theorem after_negotime (h : ∀ v ∈ [id, value], 0 ≤ v ∧ v < 2 ^ 31) :
    m.after (settingLine ['M', 'S', 'S', 'L', 'C', 'F', 'G']
      ['n', 'e', 'g', 'o', 't', 'i', 'm', 'e'] [id, value]) =
      { m with negotime := Function.update m.negotime id (some value) } := by
  rw [Settings.after, settingOf_settingLine (by decide) (by decide) h]
  dsimp only [Settings.set]
  rw [if_neg (by decide), if_pos (by decide)]

/-- A command whose name is not that of a setting leaves the settings. -/
theorem after_other {name arguments : Bytes} (hname : 61 ∉ name) (hmipcfg : name ≠ mipcfgName)
    (hmsslcfg : name ≠ msslcfgName) : m.after (name ++ 61 :: arguments) = m := by
  have hbefore : (name ++ 61 :: arguments).takeWhile (· != 61) = name := by
    rw [List.takeWhile_append_of_pos]
    · simp
    · intro c hc
      exact bne_iff_ne.mpr fun heq => hname (heq ▸ hc)
  unfold Settings.after settingOf
  rw [hbefore]
  split
  · rfl
  · rename_i command setting values hsetting
    obtain rfl : command = name := by
      split at hsetting
      · cases hsetting
      · obtain ⟨v, -, hv⟩ := Option.map_eq_some_iff.mp hsetting
        exact (Prod.mk.inj hv).1.symm
    unfold Settings.set
    split
    · rw [if_neg fun h => hmipcfg h.1, if_neg fun h => hmipcfg h.1]
    · rw [if_neg fun h => hmsslcfg h.1, if_neg fun h => hmsslcfg h.1]
    · rfl

end

theorem after_mipopenLine (m : Settings) (id : Cid) (type : SocketType) (host : Bytes)
    (port : UInt16) : m.after (mipopenLine id type host port) = m := by
  rw [mipopenLine_eq]
  exact after_other m (by decide) (by decide) (by decide)

/-- The id that a command of the driver names: the first of its fields that is a number. -/
def namedId (cmd : Bytes) : Option Int := (commandFields cmd).findSome? parseInt

theorem namedId_settingLine (command name : List Char)
    (hcommand : 61 ∉ ascii ['A', 'T', '+'] ++ ascii command) (hname : 34 ∉ ascii name)
    (hword : parseInt (ascii name) = none) (id : Cid) (values : List Int) :
    namedId (settingLine command name (id :: values)) = some (id.val : Int) := by
  have hid : parseInt (decimalInt id) = some (id.val : Int) :=
    parseInt_decimalInt (by omega) (by have := id.isLt; have : kMaxConnections = 6 := rfl; omega)
  rw [namedId, commandFields_settingLine hcommand hname, List.findSome?_cons, hword, List.map_cons,
    List.findSome?_cons, hid]

theorem namedId_ssl (id : Cid) (first second : Int) :
    namedId (settingLine ['M', 'I', 'P', 'C', 'F', 'G'] ['s', 's', 'l'] [id, first, second]) =
      some (id.val : Int) := namedId_settingLine _ _ (by decide) (by decide) (by decide) id _

theorem namedId_auth (id : Cid) (value : Int) :
    namedId (settingLine ['M', 'S', 'S', 'L', 'C', 'F', 'G'] ['a', 'u', 't', 'h'] [id, value]) =
      some (id.val : Int) := namedId_settingLine _ _ (by decide) (by decide) (by decide) id _

theorem namedId_negotime (id : Cid) (value : Int) :
    namedId (settingLine ['M', 'S', 'S', 'L', 'C', 'F', 'G']
      ['n', 'e', 'g', 'o', 't', 'i', 'm', 'e'] [id, value]) = some (id.val : Int) :=
  namedId_settingLine _ _ (by decide) (by decide) (by decide) id _

theorem namedId_encoding (id : Cid) :
    namedId (settingLine ['M', 'I', 'P', 'C', 'F', 'G']
      ['e', 'n', 'c', 'o', 'd', 'i', 'n', 'g'] [id, 1, 1]) = some (id.val : Int) :=
  namedId_settingLine _ _ (by decide) (by decide) (by decide) id _

theorem namedId_of_first (name : Bytes) {rest : Bytes} (hname : 61 ∉ name) (id : Cid)
    (hfields : ∃ fields, splitCsv rest = decimal id :: fields) :
    namedId (name ++ 61 :: rest) = some (id.val : Int) := by
  obtain ⟨fields, hfields⟩ := hfields
  have hid : parseInt (decimal id) = some (id.val : Int) :=
    parseInt_decimal (by have := id.isLt; have : kMaxConnections = 6 := rfl; omega)
  rw [namedId, commandFields_append hname, hfields, List.findSome?_cons, hid]

theorem namedId_mipstateLine (id : Cid) : namedId (mipstateLine id) = some (id.val : Int) :=
  namedId_of_first (ascii ['A', 'T'] ++ mipstateKey) (by decide) id
    ⟨[], splitCsv_self (decimal_comma_quote _)⟩

theorem namedId_mipcloseLine (id : Cid) : namedId (mipcloseLine id) = some (id.val : Int) := by
  have hcut : mipcloseLine id =
      ascii ['A', 'T', '+', 'M', 'I', 'P', 'C', 'L', 'O', 'S', 'E'] ++ 61 :: decimal id := by
    simp [mipcloseLine, ascii]
  rw [hcut]
  exact namedId_of_first _ (by decide) id ⟨[], splitCsv_self (decimal_comma_quote _)⟩

theorem namedId_mipopenLine (id : Cid) (type : SocketType) (host : Bytes) (port : UInt16) :
    namedId (mipopenLine id type host port) = some (id.val : Int) := by
  rw [mipopenLine_eq]
  exact namedId_of_first _ (by decide) id ⟨_, splitCsv_append (decimal_comma_quote _) _⟩

/-! ## What an attempt sends -/

/-- Every command names one id. -/
def NamesOnly (id : Cid) (es : List Called) : Prop :=
  ∀ c ∈ commandsOf es, namedId c.2 = some (id.val : Int)

theorem NamesOnly.append {id : Cid} {es more : List Called} (h : NamesOnly id es)
    (hmore : NamesOnly id more) : NamesOnly id (es ++ more) := by
  intro c hc
  rw [commandsOf_append, List.mem_append] at hc
  exact hc.elim (h c) (hmore c)

theorem namesOnly_nil (id : Cid) : NamesOnly id [] := by
  intro c hc
  cases hc

theorem namesOnly_command {id : Cid} {cmd : Bytes} (h : namedId cmd = some (id.val : Int)) (rate : Int)
    (timeout : ℕ) (r : AtResult Unit) : NamesOnly id [.command rate cmd timeout r] := by
  intro c hc
  obtain rfl := List.mem_singleton.mp hc
  exact h

/-- The calls are some commands, each accepted. -/
def AllAccepted (cmds : List Bytes) (es : List Called) : Prop :=
  List.Forall₂ (fun cmd c => ∃ rate timeout, c = .command rate cmd timeout (.ok ())) cmds es

namespace World

variable {σ : Type} (w : World σ)

theorem adds_sendCommand (cmd : Bytes) (timeout : ℕ) (s : σ) :
    Adds (w.recorded.sendCommand cmd timeout) s fun r _ es =>
      es = [.command (w.getBaudRate s) cmd timeout r] := fun _ => ⟨_, _, _, rfl, rfl⟩

theorem adds_command (cmd : Bytes) (timeout : ℕ) (s : σ) :
    Adds (w.recorded.command cmd timeout) s fun r _ es =>
      ∃ rate sent, es = [.command rate cmd timeout sent] ∧ (r = .ok () → sent = .ok ()) := by
  intro log
  obtain ⟨rate, sent, hrecord, hresult⟩ := w.recorded_command cmd timeout (s, log)
  refine ⟨_, _, _, Prod.ext rfl (Prod.ext rfl hrecord), rate, sent, rfl, fun hok => ?_⟩
  have hsent := hresult.symm.trans hok
  cases sent with
  | error e => cases hsent
  | ok => rfl

theorem adds_querySocketActive (id : Cid) (s : σ) :
    Adds (w.recorded.querySocketActive id) s fun _ _ es => NamesOnly id es := by
  intro log
  obtain ⟨sent, s₁, es, hsend, hes⟩ := w.adds_sendCommand (mipstateLine id) kDefaultTimeout s log
  have hnames : NamesOnly id es := hes ▸ namesOnly_command (namedId_mipstateLine id) _ _ _
  unfold querySocketActive
  rw [hsend]
  cases sent with
  | ok => exact ⟨_, _, _, rfl, hnames⟩
  | error e =>
      dsimp only
      split
      · exact ⟨_, _, _, rfl, hnames⟩
      · exact ⟨_, _, _, rfl, hnames⟩

theorem adds_awaitClosed (id : Cid) (attempts : ℕ) (s : σ) :
    Adds (w.recorded.awaitClosed id attempts) s fun _ _ es => NamesOnly id es := by
  induction attempts generalizing s with
  | zero => exact .pure (namesOnly_nil id)
  | succ attempts ih =>
      intro log
      obtain ⟨r, s₁, es, hquery, hnames⟩ :=
        w.adds_querySocketActive id (w.sleepFor kClosePollInterval s) log
      unfold awaitClosed
      rw [show w.recorded.sleepFor kClosePollInterval (s, log) =
        (w.sleepFor kClosePollInterval s, log) from rfl, hquery]
      cases r with
      | error e => exact ⟨_, _, _, rfl, hnames⟩
      | ok active =>
          cases active with
          | false => exact ⟨_, _, _, rfl, hnames⟩
          | true =>
              exact ((ih s₁).mono fun _ _ _ hmore => hnames.append hmore).behind log

theorem adds_ensureSocketFree (id : Cid) (s : σ) :
    Adds (w.recorded.ensureSocketFree id) s fun _ _ es => NamesOnly id es := by
  intro log
  obtain ⟨r, s₁, es, hquery, hnames⟩ := w.adds_querySocketActive id s log
  unfold ensureSocketFree
  rw [hquery]
  cases r with
  | error e => exact ⟨_, _, _, rfl, hnames⟩
  | ok active =>
      cases active with
      | false => exact ⟨_, _, _, rfl, hnames⟩
      | true =>
          obtain ⟨sent, s₂, more, hsend, hmore⟩ :=
            w.adds_sendCommand (mipcloseLine id) kDefaultTimeout s₁ (log ++ es)
          have hnames : NamesOnly id (es ++ more) :=
            hnames.append (hmore ▸ namesOnly_command (namedId_mipcloseLine id) _ _ _)
          have hawait := (w.adds_awaitClosed id kClosePollAttempts s₂).mono
            fun _ _ _ hrest => hnames.append hrest
          dsimp only
          rw [hsend, List.append_assoc]
          cases sent with
          | ok => exact hawait.behind log
          | error e =>
              dsimp only
              split
              · exact hawait.behind log
              · exact ⟨_, _, _, rfl, hnames⟩

end World

/-- What puts a socket under TLS, or takes it out. -/
def sslLines (id : Cid) (ssl : Bool) (config : TlsConfig) : List Bytes :=
  if ssl then
    [settingLine ['M', 'S', 'S', 'L', 'C', 'F', 'G'] ['a', 'u', 't', 'h']
        [id, if config.verifyCertificate then 1 else 0],
      settingLine ['M', 'S', 'S', 'L', 'C', 'F', 'G'] ['n', 'e', 'g', 'o', 't', 'i', 'm', 'e']
        [id, config.handshakeTimeout],
      settingLine ['M', 'I', 'P', 'C', 'F', 'G'] ['s', 's', 'l'] [id, 1, id]]
  else [settingLine ['M', 'I', 'P', 'C', 'F', 'G'] ['s', 's', 'l'] [id, 0, 0]]

def encodingLine (id : Cid) : Bytes :=
  settingLine ['M', 'I', 'P', 'C', 'F', 'G'] ['e', 'n', 'c', 'o', 'd', 'i', 'n', 'g'] [id, 1, 1]

/-- What an attempt that opens its socket sends last. -/
def openingLines (id : Cid) (target : Target) : List Bytes :=
  sslLines id target.ssl target.config ++
    [encodingLine id, mipopenLine id target.type target.host target.port]

/-- Nothing that was asked of a handshake is dropped. -/
structure Honoured (ssl : Bool) (config : TlsConfig) : Prop where
  material : hasCertificateMaterial config = false
  alpn : ssl = true → config.alpnProtocols = []
  verified : ssl = true → config.verifyCertificate = config.verifyHostname
  budget : ssl = true → 10 ≤ config.handshakeTimeout ∧ config.handshakeTimeout ≤ 300

theorem honoured_of_authMode {config : TlsConfig} {auth : Int} (h : sslAuthMode config = .ok auth) :
    Honoured true config ∧ auth = if config.verifyCertificate then 1 else 0 := by
  unfold sslAuthMode at h
  split at h
  · cases h
  · rename_i hmaterial
    split at h
    · cases h
    · rename_i hverify
      split at h
      · cases h
      · rename_i hbudget
        simp only [Bool.or_eq_true, not_or, Bool.not_eq_true, bne_eq_false_iff_eq] at hmaterial
        simp only [Bool.not_eq_true, bne_eq_false_iff_eq] at hverify
        have hmin : kMinHandshakeTimeout = 10 := rfl
        have hmax : kMaxHandshakeTimeout = 300 := rfl
        exact ⟨⟨hmaterial.1, fun _ => hmaterial.2, fun _ => hverify, fun _ => by omega⟩,
          (Except.ok.inj h).symm⟩

theorem AllAccepted.append {cmds cmds' : List Bytes} {es more : List Called}
    (h : AllAccepted cmds es) (hmore : AllAccepted cmds' more) :
    AllAccepted (cmds ++ cmds') (es ++ more) := List.rel_append h hmore

namespace World

variable {σ : Type} (w : World σ)

/-- A command that names an id, and that the caller goes on behind if it is accepted. -/
theorem adds_named {id : Cid} {cmd : Bytes} (h : namedId cmd = some (id.val : Int)) (timeout : ℕ)
    (s : σ) :
    Adds (w.recorded.command cmd timeout) s fun r _ es =>
      NamesOnly id es ∧ (r = .ok () → AllAccepted [cmd] es) := by
  refine (w.adds_command cmd timeout s).mono ?_
  rintro r s' _ ⟨rate, sent, rfl, hok⟩
  refine ⟨namesOnly_command h rate timeout sent, fun hr => ?_⟩
  obtain rfl := hok hr
  exact .cons ⟨rate, timeout, rfl⟩ .nil

theorem adds_configureSsl (id : Cid) (enable : Bool) (config : TlsConfig) (s : σ) :
    Adds (w.recorded.configureSsl id enable config) s fun r _ es =>
      NamesOnly id es ∧ (r = .ok () → AllAccepted (sslLines id enable config) es ∧
        Honoured enable config) := by
  intro log
  unfold configureSsl
  cases enable with
  | false =>
      rw [if_pos (by decide)]
      split
      · refine ⟨_, s, [], by rw [List.append_nil], namesOnly_nil id, ?_⟩
        rintro ⟨⟩
      · rename_i hmaterial
        have hhonoured : Honoured false config := by
          refine ⟨by simpa using hmaterial, ?_, ?_, ?_⟩ <;> rintro ⟨⟩
        refine (w.adds_named (namedId_ssl id _ _) _ s).mono
          ?_ log
        rintro r s' es ⟨hnames, hok⟩
        exact ⟨hnames, fun hr => ⟨hok hr, hhonoured⟩⟩
  | true =>
      rw [if_neg (by decide)]
      cases hauth : sslAuthMode config with
      | error e =>
          refine ⟨_, s, [], by rw [List.append_nil], namesOnly_nil id, ?_⟩
          rintro ⟨⟩
      | ok auth =>
          obtain ⟨hhonoured, rfl⟩ := honoured_of_authMode hauth
          dsimp only
          obtain ⟨r, s₁, es₁, hcmd, hnames₁, hok₁⟩ := w.adds_named (namedId_auth id _) _ s log
          rw [hcmd]
          cases r with
          | error e => exact ⟨_, _, _, rfl, hnames₁, by rintro ⟨⟩⟩
          | ok =>
              obtain ⟨r, s₂, es₂, hcmd, hnames₂, hok₂⟩ :=
                w.adds_named (namedId_negotime id _) _ s₁ (log ++ es₁)
              dsimp only
              rw [hcmd]
              cases r with
              | error e =>
                  exact ⟨_, _, es₁ ++ es₂, by rw [List.append_assoc], hnames₁.append hnames₂,
                    by rintro ⟨⟩⟩
              | ok =>
                  obtain ⟨r, s₃, es₃, hcmd, hnames₃, hok₃⟩ :=
                    w.adds_named (namedId_ssl id _ _) _ s₂ (log ++ es₁ ++ es₂)
                  dsimp only
                  refine ⟨r, s₃, es₁ ++ (es₂ ++ es₃), by rw [hcmd]; simp only [List.append_assoc],
                    hnames₁.append (hnames₂.append hnames₃), fun hr => ⟨?_, hhonoured⟩⟩
                  exact (hok₁ rfl).append ((hok₂ rfl).append (hok₃ hr))

theorem adds_waitForOpenResult (id : Cid) (timeout : ℕ) (s : σ) :
    Adds (w.recorded.waitForOpenResult id timeout) s fun _ _ es => es = [] := fun log =>
  ⟨_, _, [], Prod.ext rfl (Prod.ext rfl (by
    rw [snd_waitForOpenResult, List.append_nil])), rfl⟩

/-- An open that succeeded was accepted by the module. -/
theorem adds_openOnId (id : Cid) (type : SocketType) (host : Bytes) (port : UInt16) (timeout : ℕ)
    (s : σ) :
    Adds (w.recorded.openOnId id type host port timeout) s fun r _ es =>
      NamesOnly id es ∧ (r = .ok () → AllAccepted [mipopenLine id type host port] es) := by
  intro log
  obtain ⟨r, s₁, es, hcmd, hnames, hok⟩ :=
    w.adds_named (namedId_mipopenLine id type host port) timeout s log
  unfold openOnId
  rw [hcmd]
  cases r with
  | error e => exact ⟨_, _, _, rfl, hnames, by rintro ⟨⟩⟩
  | ok =>
      obtain ⟨r, s₂, _, hwait, rfl⟩ := w.adds_waitForOpenResult id timeout s₁ (log ++ es)
      exact ⟨r, s₂, es, by rw [List.append_nil] at hwait; exact hwait, hnames, fun _ => hok rfl⟩

theorem adds_attempt (id : Cid) (target : Target) (s : σ) :
    Adds (w.recorded.attempt id target) s fun a _ es =>
      NamesOnly id es ∧ (a = .ends (.ok ()) → Honoured target.ssl target.config ∧
        ∃ front last, es = front ++ last ∧ AllAccepted (openingLines id target) last) := by
  intro log
  obtain ⟨r, s₁, es₁, hfree, hnames₁⟩ := w.adds_ensureSocketFree id s log
  unfold attempt
  rw [hfree]
  cases r with
  | error e => exact ⟨_, _, _, rfl, hnames₁, by rintro ⟨⟩⟩
  | ok free =>
      cases free with
      | false => exact ⟨_, _, _, rfl, hnames₁, by rintro ⟨⟩⟩
      | true =>
          obtain ⟨r, s₂, es₂, hssl, hnames₂, hok₂⟩ :=
            w.adds_configureSsl id target.ssl target.config s₁ (log ++ es₁)
          have hnames₂ := hnames₁.append hnames₂
          dsimp only
          rw [hssl, List.append_assoc]
          cases r with
          | error e => exact ⟨_, _, _, rfl, hnames₂, by rintro ⟨⟩⟩
          | ok =>
              obtain ⟨hlines₂, hhonoured⟩ := hok₂ rfl
              obtain ⟨r, s₃, es₃, hencoding, hnames₃, hok₃⟩ :=
                w.adds_named (namedId_encoding id) kDefaultTimeout s₂ (log ++ (es₁ ++ es₂))
              have hnames₃ := hnames₂.append hnames₃
              dsimp only
              rw [show w.recorded.configureEncoding id (s₂, log ++ (es₁ ++ es₂)) = _ from hencoding,
                List.append_assoc]
              cases r with
              | error e => exact ⟨_, _, _, rfl, hnames₃, by rintro ⟨⟩⟩
              | ok =>
                  obtain ⟨r, s₄, es₄, hopen, hnames₄, hok₄⟩ :=
                    w.adds_openOnId id target.type target.host target.port
                      (openTimeout target.ssl target.config) s₃ (log ++ (es₁ ++ es₂ ++ es₃))
                  have hnames₄ := hnames₃.append hnames₄
                  dsimp only
                  rw [hopen, List.append_assoc]
                  cases r with
                  | error e =>
                      dsimp only
                      split
                      · exact ⟨_, _, _, rfl, hnames₄, by rintro ⟨⟩⟩
                      · exact ⟨_, _, _, rfl, hnames₄, by rintro ⟨⟩⟩
                  | ok =>
                      refine ⟨_, _, _, rfl, hnames₄, fun _ => ⟨hhonoured, es₁, es₂ ++ (es₃ ++ es₄),
                        by simp only [List.append_assoc], ?_⟩⟩
                      exact hlines₂.append ((hok₃ rfl).append (hok₄ rfl))

end World

/-! ## What the commands leave -/

/-- What the module keeps under one number. -/
def Settings.under (m : Settings) (n : Int) :
    Option (Int × Int) × Option (Int × Int) × Option Int × Option Int :=
  (m.ssl n, m.encoding n, m.auth n, m.negotime n)

/-- A setting stands under the first of its values. -/
theorem Settings.set_under (m : Settings) (command name : Bytes) (values : List Int) {n : Int}
    (h : name ∈ [sslName, encodingName, authName, negotimeName] → values.head? ≠ some n) :
    (m.set command name values).under n = m.under n := by
  have hother : ∀ {v : Int} {rest : List Int}, values = v :: rest →
      name ∈ [sslName, encodingName, authName, negotimeName] → n ≠ v := by
    rintro v rest rfl hname rfl
    exact h hname rfl
  unfold Settings.set
  split
  · split
    · rename_i hname
      have hne := hother rfl (by rw [hname.2]; decide)
      simp only [under, Function.update_of_ne hne]
    · split
      · rename_i hname
        have hne := hother rfl (by rw [hname.2]; decide)
        simp only [under, Function.update_of_ne hne]
      · rfl
  · split
    · rename_i hname
      have hne := hother rfl (by rw [hname.2]; decide)
      simp only [under, Function.update_of_ne hne]
    · split
      · rename_i hname
        have hne := hother rfl (by rw [hname.2]; decide)
        simp only [under, Function.update_of_ne hne]
      · rfl
  · rfl

theorem parseInt_settingName {name : Bytes}
    (h : name ∈ [sslName, encodingName, authName, negotimeName]) : parseInt name = none := by
  simp only [List.mem_cons, List.not_mem_nil, or_false] at h
  obtain rfl | rfl | rfl | rfl := h <;> decide

/-- A command leaves what is kept under another number than the one that it names. -/
theorem after_under (m : Settings) {cmd : Bytes} {i n : Int} (h : namedId cmd = some i)
    (hne : n ≠ i) : (m.after cmd).under n = m.under n := by
  unfold Settings.after
  cases hsetting : settingOf cmd with
  | none => rfl
  | some setting =>
      obtain ⟨command, name, values⟩ := setting
      refine m.set_under command name values fun hname hhead => hne ?_
      unfold settingOf at hsetting
      unfold namedId at h
      cases hfields : commandFields cmd with
      | nil =>
          rw [hfields] at h
          cases h
      | cons field fields =>
          rw [hfields] at h hsetting
          obtain ⟨parsed, hparsed, heq⟩ := Option.map_eq_some_iff.mp hsetting
          obtain ⟨-, rfl, rfl⟩ : _ ∧ field = name ∧ parsed = values := by
            simpa only [Prod.mk.injEq] using heq
          rw [List.findSome?_cons, parseInt_settingName hname] at h
          cases fields with
          | nil => cases h
          | cons first rest =>
              obtain ⟨v, hv, vs, -, rfl⟩ := by
                simpa [List.mapM_cons, Option.bind_eq_some_iff] using hparsed
              rw [List.findSome?_cons, hv] at h
              exact (Option.some.inj hhead).symm.trans (Option.some.inj h)

section

variable (m : Settings)

theorem Settings.run_append (es more : List Called) : m.run (es ++ more) = (m.run es).run more :=
  List.foldl_append

theorem Settings.run_accepted {cmds : List Bytes} {es : List Called} (h : AllAccepted cmds es) :
    m.run es = cmds.foldl Settings.after m := by
  induction h generalizing m with
  | nil => rfl
  | cons hfirst _ ih =>
      obtain ⟨rate, timeout, rfl⟩ := hfirst
      exact ih _

/-- Calls that name other numbers leave what is kept under this one. -/
theorem Settings.run_under {es : List Called} {n : Int}
    (h : ∀ c ∈ commandsOf es, ∃ i, namedId c.2 = some i ∧ n ≠ i) :
    (m.run es).under n = m.under n := by
  induction es generalizing m with
  | nil => rfl
  | cons e es ih =>
      cases e with
      | moved rate r => exact ih m h
      | command rate cmd timeout r =>
          obtain ⟨⟨i, hnames, hne⟩, hrest⟩ := List.forall_mem_cons.mp h
          cases r with
          | error e => exact ih m hrest
          | ok => exact (ih (m.after cmd) hrest).trans (after_under m hnames hne)

/-- The lines of an opening put the socket under what was asked. -/
theorem foldl_openingLines (id : Cid) (target : Target)
    (h : Honoured target.ssl target.config) :
    ((openingLines id target).foldl Settings.after m).transport id = some target.transport ∧
      ((openingLines id target).foldl Settings.after m).encoding id = some (1, 1) := by
  have hid : (0 : Int) ≤ id.val ∧ (id.val : Int) < 2 ^ 31 := by
    have := id.isLt
    have : kMaxConnections = 6 := rfl
    omega
  unfold openingLines sslLines encodingLine Settings.transport Target.transport
  cases hssl : target.ssl with
  | false =>
      rw [if_neg (by decide), if_neg (by decide), List.cons_append, List.nil_append,
        List.foldl_cons, List.foldl_cons, List.foldl_cons, List.foldl_nil, after_mipopenLine,
        after_ssl _ (by simpa using hid), after_encoding _ (by simpa using hid)]
      simp
  | true =>
      obtain ⟨hmin, hmax⟩ := h.budget hssl
      have hbudget : 0 ≤ target.config.handshakeTimeout ∧ target.config.handshakeTimeout < 2 ^ 31 := by
        omega
      have hauth : ∀ verify : Bool, (0 : Int) ≤ (if verify then 1 else 0) ∧
          (if verify then (1 : Int) else 0) < 2 ^ 31 := by decide
      rw [if_pos rfl, if_pos rfl, List.cons_append, List.cons_append, List.cons_append,
        List.nil_append, List.foldl_cons, List.foldl_cons, List.foldl_cons, List.foldl_cons,
        List.foldl_cons, List.foldl_nil, after_mipopenLine,
        after_auth _ (List.forall_mem_cons.mpr ⟨hid, List.forall_mem_singleton.mpr (hauth _)⟩),
        after_negotime _ (List.forall_mem_cons.mpr ⟨hid, List.forall_mem_singleton.mpr hbudget⟩),
        after_ssl _ (by simpa using hid), after_encoding _ (by simpa using hid)]
      simp

end

/-! ## The search -/

/-- No command names the id of a socket that the pool has in use. -/
def Spares (pool : Pool) (es : List Called) : Prop :=
  ∀ c ∈ commandsOf es, ∃ id : Cid, namedId c.2 = some (id.val : Int) ∧ (pool id).used = false

/-- What a search adds to the calls, and what it leaves in the pool. -/
structure OpensConfigured (target : Target) (pool : Pool) (result : Result Cid) (left : Pool)
    (es : List Called) : Prop where
  /-- Whatever is found, the sockets in use are let alone. -/
  spares : Spares pool es
  undisturbed : ∀ (m : Settings) (id : Cid), (pool id).used = true →
    (m.run es).under id.val = m.under id.val
  /-- Exactly the socket that opened is in use on top of those that were. -/
  held : ∀ id, (left id).used = true ↔ (pool id).used = true ∨ result = .ok id
  honoured : ∀ id, result = .ok id → Honoured target.ssl target.config
  /-- Whatever was set before, the socket that opened is under the settings asked for. -/
  inForce : ∀ (m : Settings) (id : Cid), result = .ok id →
    (m.run es).transport id.val = some target.transport ∧ (m.run es).encoding id.val = some (1, 1)
  /-- The open is accepted behind the settings. -/
  opens : ∀ id, result = .ok id →
    ∃ front last, es = front ++ last ∧ AllAccepted (openingLines id target) last

theorem spares_nil (pool : Pool) : Spares pool [] := by
  intro c hc
  cases hc

theorem Spares.undisturbed {pool : Pool} {es : List Called} (h : Spares pool es) (m : Settings)
    {id : Cid} (hused : (pool id).used = true) : (m.run es).under id.val = m.under id.val := by
  refine m.run_under fun c hc => ?_
  obtain ⟨i, hnames, hfree⟩ := h c hc
  refine ⟨i.val, hnames, fun heq => ?_⟩
  obtain rfl : id = i := Fin.ext (Int.ofNat_inj.mp heq)
  exact absurd (hused.symm.trans hfree) (by decide)

theorem NamesOnly.spares {pool : Pool} {id : Cid} {es : List Called} (h : NamesOnly id es)
    (hfree : (pool id).used = false) : Spares pool es := fun c hc => ⟨id, h c hc, hfree⟩

/-- A search that fails holds what was held. -/
theorem OpensConfigured.failed {target : Target} {pool left : Pool} {e : NetworkError}
    {es : List Called} (hspares : Spares pool es) (hheld : ∀ id, (left id).used = (pool id).used) :
    OpensConfigured target pool (.error e) left es where
  spares := hspares
  undisturbed m _ hused := hspares.undisturbed m hused
  held id := by
    rw [hheld id]
    exact ⟨.inl, fun h => h.resolve_right (by rintro ⟨⟩)⟩
  honoured := by rintro id ⟨⟩
  inForce := by rintro m id ⟨⟩
  opens := by rintro id ⟨⟩

/-- An attempt that opened its socket. -/
theorem OpensConfigured.opened {target : Target} {pool : Pool} {id : Cid} {es : List Called}
    (hfree : (pool id).used = false) (hnames : NamesOnly id es)
    (hhonoured : Honoured target.ssl target.config)
    (hopens : ∃ front last, es = front ++ last ∧ AllAccepted (openingLines id target) last) :
    OpensConfigured target pool (.ok id)
      (Function.update pool id { pool id with used := true }) es where
  spares := hnames.spares hfree
  undisturbed m _ hused := (hnames.spares hfree).undisturbed m hused
  held i := by
    rw [Except.ok.injEq]
    by_cases h : i = id
    · subst h
      simp
    · rw [Function.update_of_ne h]
      exact ⟨.inl, fun h' => h'.resolve_right fun heq => h heq.symm⟩
  honoured _ _ := hhonoured
  inForce := by
    rintro m _ ⟨⟩
    obtain ⟨front, last, rfl, hlast⟩ := hopens
    rw [m.run_append, (m.run front).run_accepted hlast]
    exact foldl_openingLines _ id target hhonoured
  opens := by
    rintro _ ⟨⟩
    exact hopens

/-- An id that was busy is free again for what the search does behind it. -/
theorem OpensConfigured.resumed {target : Target} {pool again left : Pool} {id : Cid}
    {result : Result Cid} {es more : List Called} (hfree : (pool id).used = false)
    (hagain : ∀ i, (again i).used = (pool i).used) (hnames : NamesOnly id es)
    (h : OpensConfigured target again result left more) :
    OpensConfigured target pool result left (es ++ more) := by
  have hspares : Spares pool (es ++ more) := by
    intro c hc
    rw [commandsOf_append, List.mem_append] at hc
    obtain hc | hc := hc
    · exact ⟨id, hnames c hc, hfree⟩
    · obtain ⟨i, hi, hused⟩ := h.spares c hc
      exact ⟨i, hi, (hagain i).symm.trans hused⟩
  exact {
    spares := hspares
    undisturbed := fun m _ hused => hspares.undisturbed m hused
    held := fun i => by rw [h.held i, hagain i]
    honoured := h.honoured
    inForce := fun m i hok => by
      rw [m.run_append]
      exact h.inForce _ i hok
    opens := fun i hok => by
      obtain ⟨front, last, rfl, hlast⟩ := h.opens i hok
      exact ⟨es ++ front, last, (List.append_assoc ..).symm, hlast⟩ }

namespace World

variable {σ : Type} (w : World σ)

theorem used_released {pool : Pool} {id : Cid} (hfree : (pool id).used = false) (now : ℕ) (i : Cid) :
    (releaseConnectionId (Function.update pool id { pool id with used := true }) id now i).used =
      (pool i).used := by
  unfold releaseConnectionId
  by_cases h : i = id
  · subst h
    rw [Function.update_self, hfree]
  · rw [Function.update_of_ne h, Function.update_of_ne h]

theorem openFrom_configured (target : Target) (fuel first : ℕ) (pool : Pool) (s : σ)
    (log : List Called) :
    ∃ es, (w.recorded.openFrom target fuel first pool (s, log)).state.2 = log ++ es ∧
      OpensConfigured target pool (w.recorded.openFrom target fuel first pool (s, log)).result
        (w.recorded.openFrom target fuel first pool (s, log)).pool es := by
  induction fuel generalizing first pool s log with
  | zero => exact ⟨[], by rw [List.append_nil]; rfl, .failed (spares_nil pool) fun _ => rfl⟩
  | succ fuel ih =>
      rw [openFrom]
      split
      · exact ⟨[], by rw [List.append_nil], .failed (spares_nil pool) fun _ => rfl⟩
      · rw [show w.recorded.slotClock (s, log) = ((w.slotClock s).1, (w.slotClock s).2, log) from rfl]
        dsimp only
        cases halloc : allocateConnectionId pool (w.slotClock s).1 first with
        | none => exact ⟨[], by rw [List.append_nil], .failed (spares_nil pool) fun _ => rfl⟩
        | some picked =>
            obtain ⟨id, taken⟩ := picked
            obtain ⟨-, -, hfree, rfl⟩ := of_allocate halloc
            obtain ⟨attempt, s₁, es, hattempt, hnames, hok⟩ :=
              w.adds_attempt id target (w.slotClock s).2 log
            have hagain := used_released hfree (w.now s₁).1
            obtain ⟨more, hmore, hrest⟩ := ih (id.val + 1)
              (releaseConnectionId _ id (w.now s₁).1) (w.now s₁).2 (log ++ es)
            rw [List.append_assoc] at hmore
            dsimp only
            rw [hattempt]
            cases attempt with
            | occupied => exact ⟨es ++ more, hmore, hrest.resumed hfree hagain hnames⟩
            | refused => exact ⟨es ++ more, hmore, hrest.resumed hfree hagain hnames⟩
            | ends result =>
                cases result with
                | error e => exact ⟨es, rfl, .failed (hnames.spares hfree) hagain⟩
                | ok =>
                    obtain ⟨hhonoured, hopens⟩ := hok rfl
                    exact ⟨es, rfl, .opened hfree hnames hhonoured hopens⟩

/-- Whatever stands behind the channel. -/
theorem openSocket_configured (target : Target) (pool : Pool) (s : σ) :
    OpensConfigured target pool (w.recorded.openSocket target pool (s, [])).result
      (w.recorded.openSocket target pool (s, [])).pool
      (w.recorded.openSocket target pool (s, [])).state.2 := by
  obtain ⟨es, hes, h⟩ := w.openFrom_configured target kMaxConnections 0 pool s []
  rw [List.nil_append] at hes
  unfold openSocket
  rw [hes]
  exact h

end World

end EspModemLink.Ml307
