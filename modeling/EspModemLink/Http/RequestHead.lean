import EspModemLink.Http.BodyFraming
import EspModemLink.Http.RequestLine
import EspModemLink.Library.MessageHead

/-!
# What a receiver makes of a request

A request is read back line by line and field by field. Its fields are then a map from names, in
which the caller's fields override the generated ones and the framing of the body overrides both.
-/

namespace EspModemLink.Http

open Bytes AtParser ParserCore MessageHead

/-- How the heads of HTTP are structured. -/
def marks : Marks UInt8 where
  cr := cr
  lf := lf
  colon := colon
  space := space
  blank := isBlank
  cr_ne_lf := by decide
  colon_ne_lf := by decide
  space_ne_lf := by decide
  blank_space := by decide

/-- The value under a name, in whatever case the name is written. -/
def valueOf (n : Bytes) (fields : Fields) : Option Bytes := Named.lookup toLower n fields

/-- A map from names in lower case to the values that a receiver is to read. -/
abbrev FieldMap := Bytes → Option Bytes

/-- The caller's fields override others, the last of a name first. -/
def FieldMap.overriddenBy (map : FieldMap) (headers : Fields) : FieldMap := fun n =>
  (valueOf n headers.reverse).or (map n)

/-- What is written ahead of a body is read back from in front of whatever follows: the start line,
and fields that give, each under a name of its own, the values of the map. -/
def ReadsAs (head start : Bytes) (map : FieldMap) : Prop :=
  ∀ rest, ∃ fields, marks.read (head ++ rest) = some (⟨start, fields⟩, rest) ∧
    (fieldNames fields).Nodup ∧ ∀ n, valueOf n fields = (map n).map trim

/-- Nothing in the start line ends a line, and nothing in the map ends a line or a name. -/
structure Unbroken (start : Bytes) (map : FieldMap) : Prop where
  start : lf ∉ start
  field : ∀ n v, map n = some v → colon ∉ n ∧ lf ∉ n ∧ lf ∉ v

theorem trim_eq : marks.trim = trim := rfl

theorem write_eq (start : Bytes) (fields : Fields) :
    marks.write ⟨start, fields⟩ = start ++ crlf ++ fields.flatMap fieldLine ++ crlf := rfl

/-! ## Names in lower case -/

/-- A byte in front of the letters is in a name if and only if it is in the name in lower case. -/
theorem mem_toLower_iff {c : UInt8} (hc : c.toNat < 65) (s : Bytes) : c ∈ toLower s ↔ c ∈ s := by
  have hself : ∀ d, toLowerByte d = c ↔ d = c := by
    intro d
    unfold toLowerByte
    split
    · rename_i hupper
      have hlow : (65 : UInt8).toNat ≤ d.toNat := hupper.1
      have hhigh : d.toNat ≤ (90 : UInt8).toNat := hupper.2
      simp only [UInt8.reduceToNat] at hlow hhigh
      refine iff_of_false ?_ ?_
      · rintro rfl
        rw [UInt8.toNat_add] at hc
        simp only [UInt8.reduceToNat] at hc
        omega
      · rintro rfl
        omega
    · rfl
  rw [toLower, List.mem_map]
  constructor
  · rintro ⟨d, hd, heq⟩
    exact (hself d).mp heq ▸ hd
  · intro h
    exact ⟨c, h, (hself c).mpr rfl⟩

theorem colon_mem_toLower (s : Bytes) : colon ∈ toLower s ↔ colon ∈ s :=
  mem_toLower_iff (by decide) s

theorem lf_mem_toLower (s : Bytes) : lf ∈ toLower s ↔ lf ∈ s := mem_toLower_iff (by decide) s

theorem valueOf_of_mem {fields : Fields} (hnodup : (fieldNames fields).Nodup) {f : Bytes × Bytes}
    (hf : f ∈ fields) : valueOf (toLower f.1) fields = some f.2 := by
  induction fields with
  | nil => cases hf
  | cons e fields ih =>
      obtain ⟨hname, hrest⟩ := List.nodup_cons.mp hnodup
      rw [valueOf, Named.lookup_cons]
      obtain rfl | hf := List.mem_cons.mp hf
      · rw [if_pos rfl]
      · rw [if_neg]
        · exact ih hrest hf
        · intro heq
          exact hname (List.mem_map.mpr ⟨f, hf, heq.symm⟩)

theorem exists_of_valueOf {n v : Bytes} {fields : Fields} (h : valueOf n fields = some v) :
    ∃ f ∈ fields, toLower f.1 = n ∧ f.2 = v := by
  obtain ⟨f, hf, rfl⟩ := Option.map_eq_some_iff.mp h
  have hname := List.find?_some hf
  exact ⟨f, List.mem_of_find?_eq_some hf, of_decide_eq_true hname, rfl⟩

/-! ## Reading back -/

section

variable {start : Bytes} {fields : Fields} {map : FieldMap}

theorem legible_iff_unbroken (hnodup : (fieldNames fields).Nodup)
    (hmap : ∀ n, valueOf n fields = map n) : marks.Legible ⟨start, fields⟩ ↔ Unbroken start map := by
  constructor
  · intro h
    refine ⟨h.start, fun n v hv => ?_⟩
    rw [← hmap n] at hv
    obtain ⟨f, hf, rfl, rfl⟩ := exists_of_valueOf hv
    obtain ⟨hcolon, hlf⟩ := h.name f hf
    exact ⟨mt (colon_mem_toLower _).mp hcolon, mt (lf_mem_toLower _).mp hlf, h.value f hf⟩
  · intro h
    have hfield : ∀ f ∈ fields, colon ∉ toLower f.1 ∧ lf ∉ toLower f.1 ∧ lf ∉ f.2 := by
      intro f hf
      exact h.field _ _ ((hmap _).symm.trans (valueOf_of_mem hnodup hf))
    refine ⟨h.start, fun f hf => ⟨?_, ?_⟩, fun f hf => (hfield f hf).2.2⟩
    · exact mt (colon_mem_toLower _).mpr (hfield f hf).1
    · exact mt (lf_mem_toLower _).mpr (hfield f hf).2.1

/-- Lists of fields that give the same names values are equally long. -/
theorem length_eq_of_valueOf {read : Fields} (hnodup : (fieldNames fields).Nodup)
    (hread : (fieldNames read).Nodup) (h : ∀ n, valueOf n read = (valueOf n fields).map trim) :
    read.length = fields.length := by
  have hperm : (fieldNames read).Perm (fieldNames fields) := by
    refine (List.perm_ext_iff_of_nodup hread hnodup).mpr fun n => ?_
    rw [fieldNames, fieldNames, Named.mem_names_iff_lookup, Named.mem_names_iff_lookup]
    refine not_congr ?_
    rw [show Named.lookup toLower n read = _ from h n]
    exact Option.map_eq_none_iff
  have hlength := hperm.length_eq
  rw [fieldNames, fieldNames, Named.names, Named.names, List.length_map, List.length_map] at hlength
  exact hlength

/-- A head is read as its map if and only if nothing in it ends a line or a name. -/
theorem readsAs_iff (hnodup : (fieldNames fields).Nodup) (hmap : ∀ n, valueOf n fields = map n) :
    ReadsAs (marks.write ⟨start, fields⟩) start map ↔ Unbroken start map := by
  rw [← legible_iff_unbroken hnodup hmap]
  constructor
  · intro h
    obtain ⟨read, hread, hdistinct, hvalues⟩ := h []
    have hlength : read.length = fields.length := by
      refine length_eq_of_valueOf hnodup hdistinct fun n => ?_
      rw [hvalues n, hmap n]
    obtain ⟨hstart, hfields⟩ := marks.not_mem_of_read hread hlength
    refine ⟨hstart, fun f hf => ⟨fun hcolon => ?_, (hfields f hf).1⟩, fun f hf => (hfields f hf).2⟩
    have hvalue : valueOf (toLower f.1) read = some (trim f.2) := by
      rw [hvalues, ← hmap, valueOf_of_mem hnodup hf]
      rfl
    obtain ⟨g, hg, hname, -⟩ := exists_of_valueOf hvalue
    have hnone : colon ∉ toLower g.1 := mt (colon_mem_toLower _).mp (marks.colon_of_read hread g hg)
    exact hnone (hname ▸ (colon_mem_toLower _).mpr hcolon)
  · intro h rest
    refine ⟨_, marks.read_write h rest, ?_, fun n => ?_⟩
    · have hnames : fieldNames (fields.map fun f => (f.1, marks.trim f.2)) = fieldNames fields := by
        rw [fieldNames, fieldNames, Named.names, Named.names, List.map_map]
        rfl
      rw [hnames]
      exact hnodup
    · rw [valueOf, Named.lookup_map, trim_eq, ← hmap n]
      rfl

end

theorem Unbroken.overriddenBy {start : Bytes} {map : FieldMap} {headers : Fields}
    (h : Unbroken start map) (hheaders : ∀ f ∈ headers, colon ∉ f.1 ∧ lf ∉ f.1 ∧ lf ∉ f.2) :
    Unbroken start (map.overriddenBy headers) := by
  refine ⟨h.start, fun n v hv => ?_⟩
  unfold FieldMap.overriddenBy at hv
  cases hcaller : valueOf n headers.reverse with
  | none =>
      rw [hcaller] at hv
      exact h.field n v hv
  | some value =>
      rw [hcaller] at hv
      obtain rfl := Option.some.inj hv
      obtain ⟨f, hf, rfl, rfl⟩ := exists_of_valueOf hcaller
      obtain ⟨hcolon, hname, hvalue⟩ := hheaders f (List.mem_reverse.mp hf)
      exact ⟨mt (colon_mem_toLower _).mp hcolon, mt (lf_mem_toLower _).mp hname, hvalue⟩

/-! ## Requests -/

/-- What `BuildHttpRequest` has of its own. -/
def generatedMap (url : ParsedUrl) (options : HttpRequestOptions) : FieldMap := fun n =>
  if n = toLower hostName then some (hostHeader url)
  else if n = toLower userAgentName then some options.userAgent
  else if n = toLower connectionName then
    some (if options.keepAlive then keepAliveValue else closeValue)
  else none

/-- What a request says in its fields: the caller's overrides what is generated, and how the body is
framed overrides both. -/
def requestMap (url : ParsedUrl) (options : HttpRequestOptions) : FieldMap :=
  let map := (generatedMap url options).overriddenBy options.headers
  if options.chunkedUpload then
    Function.update (Function.update map contentLengthName none) transferEncodingName
      (some chunkedCoding)
  else Function.update map contentLengthName (some (decimal options.body.length))

/-- The first line of a request. -/
def requestLineOf (method path : Bytes) : Bytes :=
  method ++ space :: (if path = [] then [slash] else path) ++ space :: httpVersion

theorem lf_mem_requestLineOf (method path : Bytes) :
    lf ∈ requestLineOf method path ↔ lf ∈ method ∨ lf ∈ path := by
  have hversion : lf ∉ space :: httpVersion := by decide
  have htarget : lf ∈ space :: (if path = [] then [slash] else path) ↔ lf ∈ path := by
    by_cases hpath : path = []
    · rw [if_pos hpath, hpath]
      decide
    · rw [if_neg hpath, List.mem_cons, or_iff_right (by decide)]
  rw [requestLineOf, List.mem_append, List.mem_append, htarget, or_iff_left hversion]

variable {url : ParsedUrl} {options : HttpRequestOptions}

theorem valueOf_generatedFields (n : Bytes) :
    valueOf n (generatedFields url options) = generatedMap url options n := by
  unfold valueOf generatedFields generatedMap
  rw [Named.lookup_cons, Named.lookup_cons, Named.lookup_cons]
  dsimp only
  by_cases hhost : n = toLower hostName
  · rw [if_pos hhost.symm, if_pos hhost]
  · rw [if_neg (Ne.symm hhost), if_neg hhost]
    by_cases hagent : n = toLower userAgentName
    · rw [if_pos hagent.symm, if_pos hagent]
    · rw [if_neg (Ne.symm hagent), if_neg hagent]
      by_cases hconnection : n = toLower connectionName
      · rw [if_pos hconnection.symm, if_pos hconnection]
      · rw [if_neg (Ne.symm hconnection), if_neg hconnection]
        rfl

theorem valueOf_mergedFields (n : Bytes) : valueOf n (mergedFields url options) =
    (generatedMap url options).overriddenBy options.headers n := by
  rw [valueOf, mergedFields_eq, Named.lookup_setAll, FieldMap.overriddenBy, ← valueOf_generatedFields]
  rfl

theorem valueOf_requestFields (n : Bytes) :
    valueOf n (requestFields url options) = requestMap url options n := by
  unfold requestFields requestMap
  by_cases hchunked : options.chunkedUpload = true
  · rw [if_pos hchunked, if_pos hchunked, setHeader_eq, removeHeader_eq, valueOf, Named.lookup_set,
      Named.lookup_remove, lower_transferEncodingField, lower_contentLengthField,
      Function.update_apply, Function.update_apply, ← valueOf_mergedFields]
    simp only [eq_comm]
    rfl
  · rw [if_neg hchunked, if_neg hchunked, setHeader_eq, valueOf, Named.lookup_set,
      lower_contentLengthField, Function.update_apply, ← valueOf_mergedFields]
    simp only [eq_comm]
    rfl

theorem requestMessage_bytes : (requestMessage url options).bytes =
    marks.write ⟨requestLineOf options.method url.path, requestFields url options⟩ ++
      (requestMessage url options).body := by
  rw [RequestMessage.bytes, write_eq, requestLineOf]
  rfl

/-- Whatever follows a request, its receiver reads the head as its map and finds the body behind it,
if and only if nothing in it ends a line or a name. -/
theorem buildHttpRequest_readsAs_iff (url : ParsedUrl) (options : HttpRequestOptions) :
    (∃ head, buildHttpRequest url options = head ++ (requestMessage url options).body ∧
      ReadsAs head (requestLineOf options.method url.path) (requestMap url options)) ↔
    lf ∉ options.method ∧ lf ∉ url.path ∧
      ∀ n v, requestMap url options n = some v → colon ∉ n ∧ lf ∉ n ∧ lf ∉ v := by
  have hread := @readsAs_iff (requestLineOf options.method url.path) _ _
    (nodup_requestFields url options) valueOf_requestFields
  have hline := lf_mem_requestLineOf options.method url.path
  constructor
  · rintro ⟨head, hbuild, h⟩
    obtain rfl := List.append_cancel_right (hbuild.symm.trans requestMessage_bytes)
    obtain ⟨hstart, hfield⟩ := hread.mp h
    rw [hline, not_or] at hstart
    exact ⟨hstart.1, hstart.2, hfield⟩
  · rintro ⟨hmethod, hpath, hfield⟩
    refine ⟨_, requestMessage_bytes, hread.mpr ⟨?_, hfield⟩⟩
    rw [hline, not_or]
    exact ⟨hmethod, hpath⟩

end EspModemLink.Http
