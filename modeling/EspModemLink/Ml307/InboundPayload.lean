import EspModemLink.Air780e.ReadReplies
import EspModemLink.AtChannel.UrcDispatcher
import EspModemLink.Ml307.Hal

/-!
# Payloads that the module volunteers

`+MIPURC` and `+MIPRTCP` bring a payload as hexadecimal digits behind its length. The handlers
decode whatever digits they find and compare the length with nothing.
-/

namespace EspModemLink.Ml307

open Bytes AtParser AtChannel
open Air780e (HexOf)

def parseCid (field : Bytes) : Option Cid :=
  (parseInt field).bind fun id =>
    if h : 0 ≤ id ∧ id < kMaxConnections then some ⟨id.toNat, (Int.toNat_lt h.1).mpr h.2⟩ else none

/-- What a handler tells the clients of an id. -/
inductive Told where
  | tcpData (id : Cid) (data : Bytes)
  | udpData (id : Cid) (host : Bytes) (port : UInt16) (data : Bytes)
  | tcpClose (id : Cid)
deriving DecidableEq

def Told.payload : Told → Option Bytes
  | tcpData _ data => some data
  | udpData _ _ _ data => some data
  | tcpClose _ => none

/-! ## The handlers -/

def onMipcloseUrc (args : Bytes) : Option Told :=
  match splitCsv args with
  | id :: _ => (parseCid id).map .tcpClose
  | [] => none

def onMiprtcpUrc (args : Bytes) : Option Told :=
  match splitCsv args with
  | id :: len :: hex :: _ =>
      match parseCid id, parseInt len with
      | some id, some _ => some (.tcpData id (parseHex (stripQuotes hex)))
      | _, _ => none
  | _ => none

def rtcp : Bytes := ascii ['r', 't', 'c', 'p']
def rudp : Bytes := ascii ['r', 'u', 'd', 'p']
def disconn : Bytes := ascii ['d', 'i', 's', 'c', 'o', 'n', 'n']

/-- The source address that may stand behind a datagram. -/
def peerOf : List Bytes → Bytes × UInt16
  | host :: port :: _ => (stripQuotes host, ((parseInt port).map UInt16.ofInt).getD 0)
  | _ => ([], 0)

def onMipUrc (args : Bytes) : Option Told :=
  match splitCsv args with
  | event :: id :: rest =>
      match parseCid id with
      | none => none
      | some id =>
          if stripQuotes event = rtcp then
            match rest with
            | _ :: hex :: _ => some (.tcpData id (parseHex (stripQuotes hex)))
            | _ => none
          else if stripQuotes event = rudp then
            match rest with
            | _ :: hex :: more =>
                some (.udpData id (peerOf more).1 (peerOf more).2 (parseHex (stripQuotes hex)))
            | _ => none
          else if stripQuotes event = disconn then some (.tcpClose id)
          else none
  | _ => none

def mipcloseKey : Bytes := ascii ['+', 'M', 'I', 'P', 'C', 'L', 'O', 'S', 'E']
def miprtcpKey : Bytes := ascii ['+', 'M', 'I', 'P', 'R', 'T', 'C', 'P']
def mipurcKey : Bytes := ascii ['+', 'M', 'I', 'P', 'U', 'R', 'C']

/-- The handlers that tell clients something. -/
def urcHandlers : List (HandlerEntry (Option Told)) :=
  [⟨mipcloseKey, fun _ args => onMipcloseUrc args⟩, ⟨miprtcpKey, fun _ args => onMiprtcpUrc args⟩,
    ⟨mipurcKey, fun _ args => onMipUrc args⟩]

/-- What the clients are told of a line. -/
def told (line : Bytes) : List Told := (UrcDispatcher.dispatch urcHandlers line).filterMap id

/-! ## The fields of a payload -/

def commandOf (line : Bytes) : Bytes := UrcDispatcher.command (trimBy isSpace line)

def fieldsOf (line : Bytes) : List Bytes :=
  splitCsv (UrcDispatcher.arguments (trimBy isSpace line))

/-- The length field and the data field of a line, where they stand for its key. -/
def payloadFields (line : Bytes) : Option (Bytes × Bytes) :=
  let fields := if startsWith (commandOf line) miprtcpKey then fieldsOf line else (fieldsOf line).tail
  match fields with
  | _ :: len :: hex :: _ => some (len, stripQuotes hex)
  | _ => none

/-- A line that a handler does not turn away, with its length field and its data field. -/
inductive LetThrough (line : Bytes) : (len hex : Bytes) → Prop
  | miprtcp {id len hex : Bytes} {more : List Bytes} (hkey : startsWith (commandOf line) miprtcpKey)
      (hfields : fieldsOf line = id :: len :: hex :: more) (hid : (parseCid id).isSome)
      (hlen : (parseInt len).isSome) : LetThrough line len (stripQuotes hex)
  | mipurc {event id len hex : Bytes} {more : List Bytes}
      (hkey : startsWith (commandOf line) mipurcKey)
      (hfields : fieldsOf line = event :: id :: len :: hex :: more)
      (hevent : stripQuotes event = rtcp ∨ stripQuotes event = rudp) (hid : (parseCid id).isSome) :
      LetThrough line len (stripQuotes hex)

/-- A data field of twice as many hexadecimal digits as the length field says. -/
def Undamaged (len hex : Bytes) : Prop :=
  ∃ n : ℕ, parseInt len = some (n : Int) ∧ hex.length = 2 * n ∧
    ∀ c ∈ hex, (hexCharToNibble c).isSome = true

/-- A payload that is delivered is the one that the line says, and of the length that it says. -/
def DeliversWhole (line : Bytes) : Prop :=
  ∀ event ∈ told line, ∀ data, event.payload = some data →
    ∃ len hex, payloadFields line = some (len, hex) ∧ HexOf hex data ∧
      parseInt len = some (data.length : Int)

/-- No line has both keys. -/
theorem not_miprtcp_of_mipurc {s : Bytes} (h : startsWith s mipurcKey) :
    ¬startsWith s miprtcpKey := by
  intro hother
  have hprefix : mipurcKey <+: miprtcpKey :=
    List.prefix_of_prefix_length_le (List.isPrefixOf_iff_prefix.mp h)
      (List.isPrefixOf_iff_prefix.mp hother) (by decide)
  exact absurd hprefix (by decide)

theorem LetThrough.payloadFields_eq {line len hex : Bytes} (h : LetThrough line len hex) :
    payloadFields line = some (len, hex) := by
  cases h with
  | miprtcp hkey hfields hid hlen => rw [payloadFields, if_pos hkey, hfields]
  | mipurc hkey hfields hevent hid =>
      rw [payloadFields, if_neg (not_miprtcp_of_mipurc hkey), hfields]
      rfl

/-! ## Strict decoding -/

theorem length_of_hexOf {hex data : Bytes} (h : HexOf hex data) : hex.length = 2 * data.length := by
  induction h with
  | nil => rfl
  | cons ha hb hline ih =>
      rw [List.length_cons, List.length_cons, List.length_cons, ih]
      omega

theorem exists_hexOf {hex : Bytes} {n : ℕ} (hlength : hex.length = 2 * n)
    (hall : ∀ c ∈ hex, (hexCharToNibble c).isSome = true) : ∃ data, HexOf hex data := by
  induction n generalizing hex with
  | zero =>
      obtain rfl := List.eq_nil_of_length_eq_zero hlength
      exact ⟨[], .nil⟩
  | succ n ih =>
      match hex, hlength with
      | a :: b :: rest, hlength =>
          obtain ⟨ha, hb⟩ := List.forall_mem_cons.mp hall
          obtain ⟨hb, hrest⟩ := List.forall_mem_cons.mp hb
          obtain ⟨hi, hhi⟩ := Option.isSome_iff_exists.mp ha
          obtain ⟨lo, hlo⟩ := Option.isSome_iff_exists.mp hb
          have hshort : rest.length = 2 * n := by
            rw [List.length_cons, List.length_cons] at hlength
            omega
          obtain ⟨data, hdata⟩ := ih hshort hrest
          exact ⟨_, .cons hhi hlo hdata⟩

/-- What the decoder makes of a field is what the field says if and only if nothing in it is
damaged. -/
theorem undamaged_iff (len hex : Bytes) :
    Undamaged len hex ↔
      HexOf hex (parseHex hex) ∧ parseInt len = some ((parseHex hex).length : Int) := by
  constructor
  · rintro ⟨n, hlen, hlength, hall⟩
    obtain ⟨data, hdata⟩ := exists_hexOf hlength hall
    obtain rfl := hdata.parseHex_eq
    have hn := length_of_hexOf hdata
    refine ⟨hdata, ?_⟩
    rw [hlen]
    congr 2
    omega
  · rintro ⟨hhex, hlen⟩
    exact ⟨_, hlen, length_of_hexOf hhex, hhex.isSome⟩

/-! ## What the handlers hand up -/

theorem onMiprtcpUrc_payload_iff (args data : Bytes) :
    (onMiprtcpUrc args).bind Told.payload = some data ↔
      ∃ id len hex more, splitCsv args = id :: len :: hex :: more ∧ (parseCid id).isSome ∧
        (parseInt len).isSome ∧ data = parseHex (stripQuotes hex) := by
  unfold onMiprtcpUrc
  constructor
  · intro h
    split at h
    · rename_i id len hex more hfields
      split at h
      · rename_i hid hlen
        refine ⟨id, len, hex, more, hfields, ?_, ?_, (Option.some.inj h).symm⟩
        · rw [hid]
          rfl
        · rw [hlen]
          rfl
      · cases h
    · cases h
  · rintro ⟨id, len, hex, more, hfields, hid, hlen, rfl⟩
    obtain ⟨cid, hid⟩ := Option.isSome_iff_exists.mp hid
    obtain ⟨n, hlen⟩ := Option.isSome_iff_exists.mp hlen
    rw [hfields]
    dsimp only
    rw [hid, hlen]
    rfl

theorem onMipUrc_payload_iff (args data : Bytes) :
    (onMipUrc args).bind Told.payload = some data ↔
      ∃ event id len hex more, splitCsv args = event :: id :: len :: hex :: more ∧
        (stripQuotes event = rtcp ∨ stripQuotes event = rudp) ∧ (parseCid id).isSome ∧
        data = parseHex (stripQuotes hex) := by
  unfold onMipUrc
  constructor
  · intro h
    split at h
    · rename_i event id rest hfields
      split at h
      · cases h
      · rename_i cid hid
        have hsome : (parseCid id).isSome = true := by
          rw [hid]
          rfl
        split at h
        · rename_i hevent
          split at h
          · rename_i len hex more
            exact ⟨event, id, len, hex, more, hfields, .inl hevent, hsome,
              (Option.some.inj h).symm⟩
          · cases h
        · split at h
          · rename_i hevent
            split at h
            · rename_i len hex more
              exact ⟨event, id, len, hex, more, hfields, .inr hevent, hsome,
                (Option.some.inj h).symm⟩
            · cases h
          · split at h
            · cases h
            · cases h
    · cases h
  · rintro ⟨event, id, len, hex, more, hfields, hevent, hid, rfl⟩
    obtain ⟨cid, hid⟩ := Option.isSome_iff_exists.mp hid
    rw [hfields]
    dsimp only
    rw [hid]
    dsimp only
    obtain hevent | hevent := hevent
    · rw [if_pos hevent]
      rfl
    · have hother : ¬rudp = rtcp := by decide
      rw [hevent, if_neg hother, if_pos rfl]
      rfl

theorem onMipcloseUrc_payload (args : Bytes) : (onMipcloseUrc args).bind Told.payload = none := by
  unfold onMipcloseUrc
  split
  · rename_i id _ _
    cases parseCid id with
    | none => rfl
    | some cid => rfl
  · rfl

/-- No handler is for blank lines. -/
theorem key_ne_nil : ∀ entry ∈ urcHandlers, entry.key ≠ [] := by
  intro entry hentry
  rw [urcHandlers, List.mem_cons, List.mem_cons, List.mem_singleton] at hentry
  obtain rfl | rfl | rfl := hentry
  · decide
  · decide
  · decide

theorem mem_told {line : Bytes} {event : Told} :
    event ∈ told line ↔ ∃ entry ∈ urcHandlers, startsWith (commandOf line) entry.key ∧
      entry.handler (commandOf line) (UrcDispatcher.arguments (trimBy isSpace line)) =
        some event := by
  rw [told, List.mem_filterMap]
  unfold UrcDispatcher.dispatch
  by_cases hblank : trimBy isSpace line = []
  · rw [if_pos hblank]
    refine iff_of_false (fun ⟨_, h, _⟩ => absurd h List.not_mem_nil) ?_
    rintro ⟨entry, hentry, hkey, -⟩
    rw [commandOf, hblank] at hkey
    exact key_ne_nil entry hentry (List.prefix_nil.mp (List.isPrefixOf_iff_prefix.mp hkey))
  · rw [if_neg hblank]
    constructor
    · rintro ⟨result, hresult, hsome⟩
      obtain ⟨entry, hentry, rfl⟩ := List.mem_map.mp hresult
      obtain ⟨hmem, hkey⟩ := List.mem_filter.mp hentry
      exact ⟨entry, hmem, hkey, hsome⟩
    · rintro ⟨entry, hmem, hkey, htold⟩
      exact ⟨_, List.mem_map.mpr ⟨entry, List.mem_filter.mpr ⟨hmem, hkey⟩, rfl⟩, htold⟩

/-- A payload goes up if and only if a handler lets its line through. -/
theorem payload_told_iff (line data : Bytes) :
    (∃ event ∈ told line, event.payload = some data) ↔
      ∃ len hex, LetThrough line len hex ∧ data = parseHex hex := by
  constructor
  · rintro ⟨event, hevent, hdata⟩
    obtain ⟨entry, hentry, hkey, htold⟩ := mem_told.mp hevent
    have hpayload : (entry.handler (commandOf line)
        (UrcDispatcher.arguments (trimBy isSpace line))).bind Told.payload = some data := by
      rw [htold]
      exact hdata
    rw [urcHandlers, List.mem_cons, List.mem_cons, List.mem_singleton] at hentry
    obtain rfl | rfl | rfl := hentry
    · rw [onMipcloseUrc_payload] at hpayload
      cases hpayload
    · obtain ⟨id, len, hex, more, hfields, hid, hlen, rfl⟩ :=
        (onMiprtcpUrc_payload_iff _ _).mp hpayload
      exact ⟨len, _, .miprtcp hkey hfields hid hlen, rfl⟩
    · obtain ⟨event, id, len, hex, more, hfields, hevent, hid, rfl⟩ :=
        (onMipUrc_payload_iff _ _).mp hpayload
      exact ⟨len, _, .mipurc hkey hfields hevent hid, rfl⟩
  · rintro ⟨len, hex, hthrough, rfl⟩
    cases hthrough with
    | @miprtcp id len hex more hkey hfields hid hlen =>
        have hpayload := (onMiprtcpUrc_payload_iff _ _).mpr
          ⟨id, len, hex, more, hfields, hid, hlen, rfl⟩
        obtain ⟨event, hevent, hdata⟩ := Option.bind_eq_some_iff.mp hpayload
        exact ⟨event, mem_told.mpr
          ⟨⟨miprtcpKey, fun _ args => onMiprtcpUrc args⟩, .tail _ (.head _), hkey, hevent⟩, hdata⟩
    | @mipurc event id len hex more hkey hfields hevent hid =>
        have hpayload := (onMipUrc_payload_iff _ _).mpr
          ⟨event, id, len, hex, more, hfields, hevent, hid, rfl⟩
        obtain ⟨event, hevent, hdata⟩ := Option.bind_eq_some_iff.mp hpayload
        exact ⟨event, mem_told.mpr
          ⟨⟨mipurcKey, fun _ args => onMipUrc args⟩, .tail _ (.tail _ (.head _)), hkey, hevent⟩,
          hdata⟩

/-- A line that a handler lets through is delivered whole if and only if it arrived undamaged. -/
theorem deliversWhole_iff (line : Bytes) :
    DeliversWhole line ↔ ∀ len hex, LetThrough line len hex → Undamaged len hex := by
  constructor
  · intro h len hex hthrough
    obtain ⟨event, hevent, hdata⟩ := (payload_told_iff line _).mpr ⟨len, hex, hthrough, rfl⟩
    obtain ⟨len', hex', hfields, hhex, hlen⟩ := h event hevent _ hdata
    rw [hthrough.payloadFields_eq] at hfields
    cases hfields
    exact (undamaged_iff len hex).mpr ⟨hhex, hlen⟩
  · intro h event hevent data hdata
    obtain ⟨len, hex, hthrough, rfl⟩ := (payload_told_iff line data).mp ⟨event, hevent, hdata⟩
    obtain ⟨hhex, hlen⟩ := (undamaged_iff len hex).mp (h len hex hthrough)
    exact ⟨len, hex, hthrough.payloadFields_eq, hhex, hlen⟩

/-- `+MIPURC: "rtcp",0,3,6x6263` -/
def damagedLine : Bytes :=
  mipurcKey ++ 58 :: 32 :: inQuotes rtcp ++
    ascii [',', '0', ',', '3', ',', '6', 'x', '6', '2', '6', '3']

/-- Two bytes of three are delivered. -/
theorem damagedLine_delivered_short : ¬DeliversWhole damagedLine := by
  intro h
  obtain ⟨len, hex, hfields, -, hlen⟩ :=
    h (.tcpData ⟨0, by decide⟩ [98, 99]) (by decide) _ rfl
  have hthree : payloadFields damagedLine =
      some (ascii ['3'], ascii ['6', 'x', '6', '2', '6', '3']) := by decide
  rw [hthree] at hfields
  cases hfields
  exact absurd hlen (by decide)

end EspModemLink.Ml307
