import EspModemLink.Http.Request
import EspModemLink.Library.Named

/-!
# Where the body of a request ends

`BuildHttpRequest` writes its fields through `set_header` and `remove_header`. No name is written
twice. A request without a chunked body also carries whatever Transfer-Encoding the caller set.
-/

namespace EspModemLink.Http

open Bytes AtParser ParserCore

/-! ## The fields as a list of names -/

/-- The names of the fields that are written, in lower case. -/
def fieldNames (fields : Fields) : List Bytes := Named.names toLower fields

theorem setHeader_eq (key value : Bytes) (fields : Fields) :
    setHeader key value fields = Named.set toLower key value fields := by
  induction fields with
  | nil => rfl
  | cons f fields ih => rw [setHeader, Named.set, ih]

theorem removeHeader_eq (key : Bytes) (fields : Fields) :
    removeHeader key fields = Named.remove toLower key fields := by
  apply List.filter_congr
  intro f _
  by_cases h : toLower f.1 = toLower key <;> simp [h]

theorem mergedFields_eq (url : ParsedUrl) (options : HttpRequestOptions) :
    mergedFields url options = Named.setAll toLower options.headers (generatedFields url options) := by
  simp only [mergedFields, Named.setAll, setHeader_eq]

theorem fieldNames_generated (url : ParsedUrl) (options : HttpRequestOptions) :
    fieldNames (generatedFields url options) =
      [toLower hostName, toLower userAgentName, toLower connectionName] := rfl

theorem nodup_mergedFields (url : ParsedUrl) (options : HttpRequestOptions) :
    (fieldNames (mergedFields url options)).Nodup := by
  rw [fieldNames, mergedFields_eq]
  apply Named.nodup_setAll
  rw [← fieldNames, fieldNames_generated]
  decide

theorem mem_fieldNames_merged {url : ParsedUrl} {options : HttpRequestOptions} {n : Bytes} :
    n ∈ fieldNames (mergedFields url options) ↔
      n ∈ fieldNames options.headers ∨
        n ∈ [toLower hostName, toLower userAgentName, toLower connectionName] := by
  rw [fieldNames, mergedFields_eq, Named.mem_names_setAll, ← fieldNames, ← fieldNames,
    fieldNames_generated]

theorem lower_contentLengthField : toLower contentLengthField = contentLengthName := by decide

theorem lower_transferEncodingField : toLower transferEncodingField = transferEncodingName := by
  decide

/-- The names that `BuildHttpRequest` writes are pairwise distinct. -/
theorem nodup_requestFields (url : ParsedUrl) (options : HttpRequestOptions) :
    (fieldNames (requestFields url options)).Nodup := by
  have hmerged := nodup_mergedFields url options
  unfold requestFields
  split
  · rw [setHeader_eq, removeHeader_eq]
    exact Named.nodup_set (Named.nodup_remove hmerged)
  · rw [setHeader_eq]
    exact Named.nodup_set hmerged

/-! ## The two framings -/

/-- Among the caller's fields is one named Transfer-Encoding. -/
def SetsTransferEncoding (options : HttpRequestOptions) : Prop :=
  transferEncodingName ∈ fieldNames options.headers

instance (options : HttpRequestOptions) : Decidable (SetsTransferEncoding options) :=
  inferInstanceAs (Decidable (_ ∈ _))

variable {url : ParsedUrl} {options : HttpRequestOptions}

theorem transferEncoding_mem_merged :
    transferEncodingName ∈ fieldNames (mergedFields url options) ↔ SetsTransferEncoding options := by
  rw [mem_fieldNames_merged, SetsTransferEncoding, or_iff_left]
  decide

/-- A request with a chunked body has a Transfer-Encoding and no Content-Length. -/
theorem names_of_chunked (h : options.chunkedUpload = true) :
    transferEncodingName ∈ fieldNames (requestFields url options) ∧
      contentLengthName ∉ fieldNames (requestFields url options) := by
  rw [requestFields, if_pos h, setHeader_eq, removeHeader_eq, fieldNames]
  simp only [Named.mem_names_set, Named.names_remove, lower_transferEncodingField,
    lower_contentLengthField]
  refine ⟨.inl trivial, fun hmem => ?_⟩
  obtain heq | hmem := hmem
  · exact absurd heq (by decide)
  · simp at hmem

/-- Any other request has a Content-Length, and the caller's Transfer-Encoding. -/
theorem names_of_measured (h : options.chunkedUpload = false) :
    contentLengthName ∈ fieldNames (requestFields url options) ∧
      (transferEncodingName ∈ fieldNames (requestFields url options) ↔
        SetsTransferEncoding options) := by
  rw [requestFields, if_neg (by simp [h]), setHeader_eq, fieldNames]
  simp only [Named.mem_names_set, lower_contentLengthField]
  refine ⟨.inl trivial, ?_⟩
  rw [← @transferEncoding_mem_merged url, fieldNames, or_iff_right]
  decide

/-- What the fields of a request say about its body: no name stands twice, one field says how the
body is framed, the body is chunked if and only if the options ask for it, and a length is the
number of the bytes behind the blank line. -/
structure BodyFramed (options : HttpRequestOptions) (m : RequestMessage) : Prop where
  distinct : (fieldNames m.fields).Nodup
  oneFraming : (fieldNames m.fields).count contentLengthName +
    (fieldNames m.fields).count transferEncodingName = 1
  chunked : (∃ f ∈ m.fields, toLower f.1 = transferEncodingName ∧ f.2 = chunkedCoding) ↔
    options.chunkedUpload = true
  length : ∀ f ∈ m.fields, toLower f.1 = contentLengthName → f.2 = decimal m.body.length

theorem bodyFramed_of_chunked (h : options.chunkedUpload = true) :
    BodyFramed options (requestMessage url options) := by
  have hnodup := nodup_requestFields url options
  obtain ⟨hchunked, hlength⟩ := @names_of_chunked url options h
  refine ⟨hnodup, ?_, iff_of_true ?_ h, fun f hf hname => ?_⟩
  · change (fieldNames (requestFields url options)).count _ +
      (fieldNames (requestFields url options)).count _ = 1
    rw [List.count_eq_zero_of_not_mem hlength, List.count_eq_one_of_mem hnodup hchunked]
  · change ∃ f ∈ requestFields url options, _
    rw [requestFields, if_pos h, setHeader_eq, ← lower_transferEncodingField]
    exact Named.exists_mem_set _ _ _
  · exact absurd (hname ▸ Named.name_mem_names hf) hlength

/-- A request with a measured body says the length of that body once. -/
theorem contentLength_of_measured (h : options.chunkedUpload = false) :
    (fieldNames (requestFields url options)).count contentLengthName = 1 ∧
      ∀ f ∈ requestFields url options, toLower f.1 = contentLengthName →
        f.2 = decimal options.body.length := by
  refine ⟨List.count_eq_one_of_mem (nodup_requestFields url options) (names_of_measured h).1,
    fun f hf hname => ?_⟩
  rw [requestFields, if_neg (by simp [h]), setHeader_eq] at hf
  exact Named.value_of_mem_set (nodup_mergedFields url options) hf
    (hname.trans lower_contentLengthField.symm)

theorem body_of_measured (h : options.chunkedUpload = false) :
    (requestMessage url options).body = options.body := by
  simp [requestMessage, h]

theorem bodyFramed_of_measured (h : options.chunkedUpload = false)
    (hcaller : ¬SetsTransferEncoding options) : BodyFramed options (requestMessage url options) := by
  have hnone := mt (@names_of_measured url options h).2.mp hcaller
  obtain ⟨hone, hlength⟩ := @contentLength_of_measured url options h
  refine ⟨nodup_requestFields url options, ?_, iff_of_false ?_ (by simp [h]), fun f hf hname => ?_⟩
  · change (fieldNames (requestFields url options)).count _ +
      (fieldNames (requestFields url options)).count _ = 1
    rw [List.count_eq_zero_of_not_mem hnone, hone]
  · rintro ⟨f, hf, hname, -⟩
    exact hnone (hname ▸ Named.name_mem_names hf)
  · rw [body_of_measured h]
    exact hlength f hf hname

/-- The bytes of a request are those of a message whose fields frame its body, if and only if the
body is chunked or the caller sets no Transfer-Encoding. -/
theorem requestMessage_bodyFramed_iff (url : ParsedUrl) (options : HttpRequestOptions) :
    buildHttpRequest url options = (requestMessage url options).bytes ∧
      (BodyFramed options (requestMessage url options) ↔
        options.chunkedUpload = true ∨ ¬SetsTransferEncoding options) := by
  refine ⟨rfl, fun hframed => ?_, fun h => ?_⟩
  · by_contra hnot
    obtain ⟨hmeasured, hcaller⟩ := not_or.mp hnot
    obtain ⟨hlength, hchunked⟩ := @names_of_measured url options (Bool.eq_false_iff.mpr hmeasured)
    have hboth := hframed.oneFraming
    have hone : 0 < (fieldNames (requestMessage url options).fields).count contentLengthName :=
      List.count_pos_iff.mpr hlength
    have htwo : 0 < (fieldNames (requestMessage url options).fields).count transferEncodingName :=
      List.count_pos_iff.mpr (hchunked.mpr (not_not.mp hcaller))
    omega
  · cases hmode : options.chunkedUpload with
    | true => exact bodyFramed_of_chunked hmode
    | false =>
        rw [hmode] at h
        exact bodyFramed_of_measured hmode (h.resolve_left (by simp))

/-- A GET of "http://h/" to which the caller adds "Transfer-Encoding: chunked". -/
def smuggled : HttpRequestOptions := { headers := [(transferEncodingField, chunkedCoding)] }

/-- It goes out with both framings. -/
theorem smuggled_not_bodyFramed :
    ¬BodyFramed smuggled (requestMessage ⟨false, [104], 80, [slash]⟩ smuggled) :=
  fun h => absurd h.oneFraming (by decide)

end EspModemLink.Http
