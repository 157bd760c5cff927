import EspModemLink.Air780e.State
import EspModemLink.Ml307.HexPayload

/-!
# What an open asks of the module

`AT+MIPOPEN` and `AT+CIPSTART` name the connection id, the socket type, the host and the port. Both
are formatted into a buffer of a fixed size, and what does not fit is dropped.
-/

namespace EspModemLink

open Bytes AtParser AtChannel Ml307

namespace Air780e

def cipstartLine (id : Cid) (type : SocketType) (host : Bytes) (port : UInt16) : Bytes :=
  snprintf 512 (ascii ['A', 'T', '+', 'C', 'I', 'P', 'S', 'T', 'A', 'R', 'T', '='] ++ decimal id ++
    44 :: inQuotes (cString type.text) ++ 44 :: inQuotes (cString host) ++
    44 :: decimal port.toNat)

end Air780e

/-! ## The parts of a line -/

theorem length_decimal_le {n k : ℕ} (hk : 0 < k) (h : n < 10 ^ k) : (decimal n).length ≤ k := by
  rw [decimal, List.length_map]
  exact (Nat.length_toDigits_le_iff (by decide) hk).mpr h

theorem length_decimal_digit {n : ℕ} (h : n < 10) : (decimal n).length = 1 := by
  have hle := length_decimal_le Nat.one_pos h
  have hpositive := List.length_pos_iff.mpr (decimal_ne_nil n)
  omega

theorem length_decimal_port (port : UInt16) : (decimal port.toNat).length ≤ 5 := by
  have hlt := port.toNat_lt
  exact length_decimal_le (by decide) (by omega)

theorem cString_eq_iff (s : Bytes) : cString s = s ↔ 0 ∉ s := by
  rw [cString, List.takeWhile_eq_self_iff]
  constructor
  · intro h hzero
    exact bne_iff_ne.mp (h 0 hzero) rfl
  · intro h c hc
    exact bne_iff_ne.mpr fun hzero => h (hzero ▸ hc)

theorem mem_of_mem_cString {s : Bytes} {c : UInt8} (h : c ∈ cString s) : c ∈ s :=
  (List.takeWhile_sublist _).subset h

theorem length_cString_le (s : Bytes) : (cString s).length ≤ s.length :=
  (List.takeWhile_sublist _).length_le

theorem cString_text (type : SocketType) : cString type.text = type.text := by
  cases type with
  | tcp => decide
  | udp => decide

theorem text_quote (type : SocketType) : 34 ∉ type.text := by
  cases type with
  | tcp => decide
  | udp => decide

theorem length_text (type : SocketType) : type.text.length = 3 := by
  cases type with
  | tcp => rfl
  | udp => rfl

/-! ## A line that is cut off -/

/-- A number in front of a comma is read as it was if and only if the cut is behind it. -/
theorem splitCsv_take_decimal (m : ℕ) (rest : Bytes) (k : ℕ) :
    (splitCsv ((decimal m ++ 44 :: rest).take k)).take 1 = [decimal m] ↔
      (decimal m).length ≤ k := by
  rw [List.take_append]
  by_cases hwhole : (decimal m).length ≤ k
  · rw [List.take_of_length_le hwhole]
    refine iff_of_true ?_ hwhole
    cases k - (decimal m).length with
    | zero =>
        rw [List.take_zero, List.append_nil, splitCsv_self (decimal_comma_quote m)]
        rfl
    | succ j =>
        rw [List.take_succ_cons, splitCsv_append (decimal_comma_quote m)]
        rfl
  · have hshort : ((decimal m).take k).length ≠ (decimal m).length := by
      rw [List.length_take]
      omega
    rw [Nat.sub_eq_zero_of_le (by omega), List.take_zero, List.append_nil,
      splitCsv_self fun c hc => decimal_comma_quote m c (List.mem_of_mem_take hc)]
    refine iff_of_false ?_ hwhole
    intro h
    exact hshort (congrArg List.length (List.cons.inj h).1)

/-- A quoted field that is cut off is the last. -/
theorem splitCsv_unclosed {field : Bytes} (hquote : 34 ∉ field) :
    splitCsv (34 :: field) = [field] := by
  have hkeep : ∀ c ∈ field, (c != 34) = true := fun c hc =>
    bne_iff_ne.mpr fun h => hquote (h ▸ hc)
  rw [splitCsv, splitCsvFor, List.takeWhile_eq_self_iff.mpr hkeep, List.drop_length]
  rfl

/-- A quoted field that is cut off in front of its comma is the last. -/
theorem splitCsv_take_quoted {field : Bytes} (hquote : 34 ∉ field) (rest : Bytes) {n : ℕ}
    (hn : n ≤ field.length + 1) :
    ∃ cut, splitCsv (34 :: (field ++ 34 :: rest).take n) = [cut] := by
  rw [List.take_append]
  obtain hin | hclose : n ≤ field.length ∨ n = field.length + 1 := by omega
  · rw [Nat.sub_eq_zero_of_le hin, List.take_zero, List.append_nil]
    exact ⟨_, splitCsv_unclosed fun h => hquote (List.mem_of_mem_take h)⟩
  · rw [hclose, List.take_of_length_le (Nat.le_succ _), Nat.add_sub_cancel_left]
    exact ⟨_, splitCsv_quoted hquote⟩

/-- A quoted host and a port are read as they were if and only if the cut is behind the port. -/
theorem splitCsv_take_iff {host : Bytes} (hquote : 34 ∉ host) (m : ℕ) (rest x : Bytes) (n : ℕ) :
    (splitCsv (34 :: (host ++ 34 :: 44 :: (decimal m ++ 44 :: rest)).take n)).take 2 =
        [x, decimal m] ↔
      host = x ∧ host.length + 2 + (decimal m).length ≤ n := by
  have hpositive := List.length_pos_iff.mpr (decimal_ne_nil m)
  by_cases hcut : n ≤ host.length + 1
  · obtain ⟨field, hfield⟩ := splitCsv_take_quoted hquote (44 :: (decimal m ++ 44 :: rest)) hcut
    rw [hfield]
    constructor
    · intro h
      cases (List.cons.inj h).2
    · intro h
      omega
  · obtain ⟨k, rfl⟩ : ∃ k, n = host.length + (k + 2) := ⟨n - host.length - 2, by omega⟩
    have hhost : splitCsv (34 :: (host ++ 34 :: 44 :: (decimal m ++ 44 :: rest).take k)) =
        host :: splitCsv ((decimal m ++ 44 :: rest).take k) := splitCsv_quoted_append hquote _
    rw [List.take_length_add_append, List.take_succ_cons, List.take_succ_cons, hhost,
      List.take_succ_cons, List.cons.injEq, splitCsv_take_decimal]
    refine and_congr_right fun _ => ?_
    omega

/-! ## What the lines say -/

/-- A host name of a length that DNS allows, with nothing in it that ends a quoted field or a
line. -/
structure HostName where
  bytes : Bytes
  short : bytes.length ≤ 253
  quote : 34 ∉ bytes
  cr : 13 ∉ bytes
  lf : 10 ∉ bytes

/-- A line whose first fields are what was asked. -/
def Says (line : Bytes) (id : ℕ) (type : SocketType) (host : Bytes) (port : UInt16) : Prop :=
  (commandFields line).take 4 = [decimal id, type.text, host, decimal port.toNat]

/-- The fields of a line up to the host, whatever becomes of the rest. -/
theorem take_commandFields {name : Bytes} (hname : 61 ∉ name) (id : ℕ) (type : SocketType)
    (rest : Bytes) :
    commandFields (name ++ 61 :: (decimal id ++ 44 :: (34 :: type.text ++ 34 :: 44 :: rest))) =
      decimal id :: type.text :: splitCsv rest := by
  rw [commandFields_append hname, splitCsv_append (decimal_comma_quote id),
    splitCsv_quoted_append (text_quote type)]

theorem cipstartLine_says_iff (id : Air780e.Cid) (type : SocketType) (host : HostName)
    (port : UInt16) :
    Says (Air780e.cipstartLine id type host.bytes port) id type host.bytes port ↔
      0 ∉ host.bytes := by
  have hline : Air780e.cipstartLine id type host.bytes port =
      ascii ['A', 'T', '+', 'C', 'I', 'P', 'S', 'T', 'A', 'R', 'T'] ++
        61 :: (decimal id ++ 44 :: (34 :: type.text ++ 34 :: 44 ::
          (34 :: cString host.bytes ++ 34 :: 44 :: decimal port.toNat))) := by
    have hid : (decimal id.val).length = 1 := length_decimal_digit (id.isLt.trans (by decide))
    have hport := length_decimal_port port
    have htype := length_text type
    have hhost := (length_cString_le host.bytes).trans host.short
    rw [Air780e.cipstartLine, snprintf, List.take_of_length_le]
    · simp [inQuotes, cString_text, ascii]
    · simp only [inQuotes, cString_text, ascii, List.length_append, List.length_cons,
        List.length_map, List.length_nil]
      omega
  have hquote : 34 ∉ cString host.bytes := fun h => host.quote (mem_of_mem_cString h)
  rw [Says, hline, take_commandFields (by decide), splitCsv_quoted_append hquote,
    splitCsv_self (decimal_comma_quote _), ← cString_eq_iff]
  simp

/-- The buffer holds 235 bytes behind the quote in front of the host. -/
theorem mipopenLine_eq (id : Ml307.Cid) (type : SocketType) (host : Bytes) (port : UInt16) :
    mipopenLine id type host port =
      ascii ['A', 'T', '+', 'M', 'I', 'P', 'O', 'P', 'E', 'N'] ++
        61 :: (decimal id ++ 44 :: (34 :: type.text ++ 34 :: 44 ::
          (34 :: (cString host ++ 34 :: 44 ::
            (decimal port.toNat ++ 44 :: [44, 48])).take 235))) := by
  have hid : (decimal id.val).length = 1 := length_decimal_digit (id.isLt.trans (by decide))
  have htype := length_text type
  let front := ascii ['A', 'T', '+', 'M', 'I', 'P', 'O', 'P', 'E', 'N'] ++
    61 :: (decimal id ++ 44 :: (34 :: type.text ++ [34, 44, 34]))
  have hfront : front.length = 20 := by
    simp only [front, ascii, List.length_append, List.length_cons, List.length_map,
      List.length_nil]
    omega
  have hwhole : mipopenLine id type host port =
      (front ++ (cString host ++ 34 :: 44 :: (decimal port.toNat ++ 44 :: [44, 48]))).take
        (front.length + 235) := by
    rw [hfront]
    simp [mipopenLine, snprintf, inQuotes, cString_text, ascii, front]
  rw [hwhole, List.take_length_add_append]
  simp [front]

theorem mipopenLine_says_iff (id : Ml307.Cid) (type : SocketType) (host : HostName)
    (port : UInt16) :
    Says (mipopenLine id type host.bytes port) id type host.bytes port ↔
      0 ∉ host.bytes ∧ host.bytes.length + (decimal port.toNat).length ≤ 233 := by
  have hquote : 34 ∉ cString host.bytes := fun h => host.quote (mem_of_mem_cString h)
  rw [Says, mipopenLine_eq, take_commandFields (by decide), List.take_succ_cons,
    List.take_succ_cons, List.cons.injEq, List.cons.injEq, splitCsv_take_iff hquote,
    ← cString_eq_iff]
  constructor
  · rintro ⟨-, -, hhost, hfits⟩
    rw [hhost] at hfits
    exact ⟨hhost, by omega⟩
  · rintro ⟨hhost, hfits⟩
    refine ⟨rfl, rfl, hhost, ?_⟩
    rw [hhost]
    omega

/-! ## Opening -/

/-- Nothing is sent while the result of an open is awaited. -/
theorem snd_waitForOpenResult {σ : Type*} (w : World σ) (id : Ml307.Cid) (timeout : ℕ)
    (t : σ × List Called) : (w.recorded.waitForOpenResult id timeout t).2.2 = t.2 := by
  have hwait : (w.recorded.waitForOpenResult id timeout t).2 =
      (w.recorded.awaitOpen id timeout t).2 := by
    unfold World.waitForOpenResult
    split
    · rename_i h
      rw [h]
    · rename_i h
      rw [h]
      split
      · rfl
      · rfl
  rw [hwait]
  rfl

/-- What `OpenOnId` sends is this line. -/
theorem textsOf_openOnId {σ : Type*} (w : World σ) (id : Ml307.Cid) (type : SocketType)
    (host : Bytes) (port : UInt16) (timeout : ℕ) (s : σ) :
    textsOf (w.recorded.openOnId id type host port timeout (s, [])).2.2 =
      [mipopenLine id type host port] := by
  obtain ⟨rate, result, hrecord, -⟩ :=
    w.recorded_command (mipopenLine id type host port) timeout (s, [])
  have hstays : (w.recorded.openOnId id type host port timeout (s, [])).2.2 =
      (w.recorded.command (mipopenLine id type host port) timeout (s, [])).2.2 := by
    unfold World.openOnId
    split
    · rename_i h
      rw [h]
    · rename_i h
      rw [h, snd_waitForOpenResult]
  rw [hstays, hrecord]
  rfl

/-- An open sends nothing that says something else than what was asked, whatever stands behind the
channel. -/
structure OpensAsAsked (id : Ml307.Cid) (cid : Air780e.Cid) (type : SocketType) (host : HostName)
    (port : UInt16) : Prop where
  mipopen : ∀ {σ : Type} (w : World σ) (timeout : ℕ) (s : σ),
    ∀ line ∈ textsOf (w.recorded.openOnId id type host.bytes port timeout (s, [])).2.2,
      Says line id type host.bytes port
  cipstart : Says (Air780e.cipstartLine cid type host.bytes port) cid type host.bytes port

/-- The buffer of `AT+CIPSTART` holds every line, and the one of `AT+MIPOPEN` does not. Neither
line holds a host with a NUL in it. -/
theorem opensAsAsked_iff (id : Ml307.Cid) (cid : Air780e.Cid) (type : SocketType) (host : HostName)
    (port : UInt16) :
    OpensAsAsked id cid type host port ↔
      0 ∉ host.bytes ∧ host.bytes.length + (decimal port.toNat).length ≤ 233 := by
  rw [← mipopenLine_says_iff id type]
  constructor
  · intro h
    refine h.mipopen World.accepting 0 () _ ?_
    rw [textsOf_openOnId]
    exact List.mem_singleton_self _
  · intro h
    constructor
    · intro σ w timeout s line hline
      rw [textsOf_openOnId] at hline
      obtain rfl := List.mem_singleton.mp hline
      exact h
    · exact (cipstartLine_says_iff cid type host port).mpr
        ((mipopenLine_says_iff id type host port).mp h).1

def longHost : HostName where
  bytes := List.replicate 230 97
  short := (List.length_replicate ..).trans_le (by decide)
  quote := fun h => absurd (List.eq_of_mem_replicate h) (by decide)
  cr := fun h => absurd (List.eq_of_mem_replicate h) (by decide)
  lf := fun h => absurd (List.eq_of_mem_replicate h) (by decide)

/-- Behind a host of 230 bytes there is room for three digits of the port. -/
theorem long_host_cuts_port :
    ¬OpensAsAsked ⟨0, by decide⟩ ⟨0, by decide⟩ .tcp longHost 65535 := by
  intro h
  have hsays : Says (mipopenLine ⟨0, by decide⟩ .tcp longHost.bytes 65535) 0 .tcp longHost.bytes
      65535 := by
    refine h.mipopen World.accepting 0 () _ ?_
    rw [textsOf_openOnId]
    exact List.mem_singleton_self _
  have hfits := ((mipopenLine_says_iff _ _ _ _).mp hsays).2
  have hhost : longHost.bytes.length = 230 := List.length_replicate ..
  have hport : (decimal (65535 : UInt16).toNat).length = 5 := by decide
  omega

end EspModemLink
