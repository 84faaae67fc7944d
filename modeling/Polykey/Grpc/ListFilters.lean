/-
# The filters of `ListKeys`

A list request has five filters: key types, statuses, tags, and two bounds on the creation time.
The interceptor CHECKS the tags and the bounds, and hands the request on; the service reads the
page token and the page size of it, and the query has no parameter for anything else.

* A page is the same for all filters that are accepted (`fetchesFiltered_iff`).
* So a walk honours its filters if every key of the store that can be scanned does, and, in a store
  that fits on a page, all walks do only then (`listKeys_honours_filters_iff`).
-/
import Polykey.Grpc.Validation
import Polykey.Service.Listing

namespace Polykey

open Lib

/-! ## 1. What a filter asks -/

/-- The filters of `pk.ListKeysRequest`; an empty list is none. -/
structure Filters extends ListFilters where
  keyTypes : List KeyType
  statuses : List ProtoStatus

/-- A key that is returned matches the filters.  The getters of its metadata are nil-safe. -/
structure Filters.Matches (f : Filters) (metadata : Option KeyMetadata) : Prop where
  keyType : f.keyTypes ≠ [] → (metadata.getD .zero).keyType ∈ f.keyTypes
  status : f.statuses ≠ [] → (metadata.getD .zero).status ∈ f.statuses
  tag : ∀ k v, f.tagFilters.lookup k = some v → (metadata.getD .zero).tags.lookup k = some v
  after : ∀ t, f.createdAfter = some t → ∃ c, (metadata.getD .zero).createdAt = some c ∧ t ≤ c
  before : ∀ t, f.createdBefore = some t → ∃ c, (metadata.getD .zero).createdAt = some c ∧ c ≤ t

/-- Every key on the pages matches. -/
def Filters.HonouredBy (f : Filters) (pages : List Page) : Prop :=
  ∀ page ∈ pages, ∀ metadata ∈ page.response.keys, f.Matches metadata

/-- The request is accepted with its filters, and the page is what `ListKeys` returns for it. -/
def KeyService.FetchesFiltered (s : KeyService) (rv : RequestValidator) (f : Filters) (kms : KMS)
    (reads : Row → Bool) (req : ListKeysRequest) (w : World) (page : Page) (w' : World) : Prop :=
  ∃ size accepted, unaryValidationInterceptor rv ⟨.listKeys req, size, f.toListFilters⟩ =
      .ok (.listKeys accepted) ∧ s.Fetches kms reads accepted w page w'

/-! ## 2. What they do

The filters are gone as soon as they are accepted: the request that is handed on has a page token
and a page size. So a walk with filters IS a walk without, and the question is about the keys of
the store only. -/

section Filtered

variable {s : KeyService} {rv : RequestValidator} {f f' : Filters} {kms : KMS} {reads : Row → Bool}
  {req : ListKeysRequest} {n : Int} {reqContext : Option RequesterContext} {token : String}
  {w w' : World} {page : Page} {pages : List Page}

/-- The page size of the request that is handed on. -/
def acceptedSize (n : Int) : Int := if n = 0 then defaultQueryLimit else n

/-- What is checked of a request besides its filters. -/
structure Plain (req : ListKeysRequest) : Prop where
  nonneg : 0 ≤ req.pageSize
  le_max : req.pageSize ≤ maxQueryLimit
  token : req.pageToken = "" ∨ isValidPageToken req.pageToken = true

theorem Plain.acceptedSize_pos (h : Plain req) : 1 ≤ acceptedSize req.pageSize := by
  have hnonneg := h.nonneg
  unfold acceptedSize
  split
  · decide
  · omega

theorem validateListKeysRequest_ok {filters : ListFilters} {accepted : ListKeysRequest} :
    validateListKeysRequest rv filters req = .ok accepted ↔
      Plain req ∧ validateListFilters rv filters = .ok () ∧
        accepted = { req with pageSize := acceptedSize req.pageSize } := by
  have hsize : (if req.pageSize = 0 then { req with pageSize := defaultQueryLimit } else req) =
      { req with pageSize := acceptedSize req.pageSize } := by
    unfold acceptedSize
    split <;> rfl
  unfold validateListKeysRequest
  rw [hsize]
  split
  · rename_i hneg
    exact iff_of_false (by simp) fun h => absurd h.1.nonneg (by omega)
  split
  · rename_i hmax
    exact iff_of_false (by simp) fun h => absurd h.1.le_max (by omega)
  split
  · rename_i htoken
    refine iff_of_false (by simp) fun h => ?_
    rcases h.1.token with hnone | hvalid
    · exact htoken.1 hnone
    · simp [hvalid] at htoken
  · rename_i hneg hmax htoken
    have hplain : Plain req := by
      refine ⟨by omega, by omega, ?_⟩
      by_contra hbad
      simp only [not_or, Bool.not_eq_true] at hbad
      exact htoken ⟨hbad.1, by simp [hbad.2]⟩
    cases hfilters : validateListFilters rv filters with
    | error e => simp [Except.map]
    | ok u => simp [Except.map, hplain, eq_comm]

/-- **A page does not depend on the filters**, once they are accepted. -/
theorem fetchesFiltered_iff : s.FetchesFiltered rv f kms reads req w page w' ↔
    Plain req ∧ validateListFilters rv f.toListFilters = .ok () ∧
      s.Fetches kms reads { req with pageSize := acceptedSize req.pageSize } w page w' := by
  have hchecked : ∀ size accepted,
      unaryValidationInterceptor rv ⟨.listKeys req, size, f.toListFilters⟩ =
        .ok (.listKeys accepted) ↔
      validateListKeysRequest rv f.toListFilters req = .ok accepted := by
    intro size accepted
    simp only [unaryValidationInterceptor, map_eq_ok, ServiceCall.listKeys.injEq, exists_eq_right]
  unfold KeyService.FetchesFiltered
  simp only [hchecked, validateListKeysRequest_ok]
  constructor
  · rintro ⟨-, accepted, ⟨hplain, hfilters, rfl⟩, hpage⟩
    exact ⟨hplain, hfilters, hpage⟩
  · rintro ⟨hplain, hfilters, hpage⟩
    exact ⟨.ok 0, _, ⟨hplain, hfilters, rfl⟩, hpage⟩

/-- What is on a page is the metadata of latest rows that can be scanned. -/
theorem mem_response (h : s.FetchesFiltered rv f kms reads req w page w') :
    w'.table = w.table ∧ ∀ metadata ∈ page.response.keys,
      ∃ r ∈ w.table.latestRows, reads r = true ∧ metadata = r.metadata := by
  obtain ⟨hplain, -, hpage⟩ := fetchesFiltered_iff.mp h
  obtain ⟨htable, hresponse, ⟨cursor, -, hlists⟩, -⟩ := fetches_facts hplain.acceptedSize_pos hpage
  refine ⟨htable, fun metadata hmem => ?_⟩
  rw [hresponse] at hmem
  obtain ⟨k, hk, rfl⟩ := List.mem_map.mp hmem
  obtain ⟨r, hr, rfl, hreads, -⟩ := hlists.mem hk
  exact ⟨r, hr, hreads, rfl⟩

/-- The same along a walk through a fixed store. -/
theorem Walk.mem_response
    (h : Walk (s.FetchesFiltered rv f kms reads) Still n reqContext token w pages) :
    ∀ page ∈ pages, ∀ metadata ∈ page.response.keys,
      ∃ r ∈ w.table.latestRows, reads r = true ∧ metadata = r.metadata := by
  induction h with
  | stop => exact fun page hpage => absurd hpage List.not_mem_nil
  | last hpage _ => exact List.forall_mem_singleton.mpr (Polykey.mem_response hpage).2
  | next hpage _ hstill _ ih =>
    obtain ⟨htable, hmem⟩ := Polykey.mem_response hpage
    have hrows := hstill.trans htable
    rw [hrows] at ih
    exact List.forall_mem_cons.mpr ⟨hmem, ih⟩

/-- The first page of a store that has no more keys than a page may have: all that can be
scanned. -/
theorem exists_whole_page (hf : validateListFilters rv f.toListFilters = .ok ())
    (hsmall : (w.table.latestRows.length : Int) ≤ maxQueryLimit) :
    ∃ page, Walk (s.FetchesFiltered rv f kms reads) Still maxQueryLimit reqContext "" w [page] ∧
      ∀ r ∈ w.table.latestRows, reads r = true → r.metadata ∈ page.response.keys := by
  obtain ⟨page, w', hpage⟩ :=
    exists_fetches kms reads reqContext w (n := maxQueryLimit) (by decide) (.start (s := s))
  have hnonneg : (0 : Int) ≤ maxQueryLimit := by decide
  have hfiltered : s.FetchesFiltered rv f kms reads ⟨"", maxQueryLimit, reqContext⟩ w page w' :=
    fetchesFiltered_iff.mpr ⟨⟨hnonneg, le_rfl, .inl rfl⟩, hf, hpage⟩
  refine ⟨page, ?_, fun r hr hreads => ?_⟩
  · by_cases hend : page.response.nextPageToken = ""
    · exact .last hfiltered hend
    · exact .next hfiltered hend rfl .stop
  · obtain ⟨-, hresponse, ⟨cursor, hcursor, -, rows, htop, hkeys⟩, -⟩ :=
      fetches_facts (by decide) hpage
    rw [hcursor.unique .start, beneath_none] at htop
    obtain ⟨sorted, hperm, -, rfl⟩ := htop
    have hall : sorted.take maxQueryLimit.toNat = sorted := by
      refine List.take_of_length_le ?_
      rw [hperm.length_eq]
      omega
    rw [hresponse, hkeys, hall, List.map_map]
    exact List.mem_map_of_mem (List.mem_filter.mpr ⟨hperm.mem_iff.mpr hr, hreads⟩)

end Filtered

/-- **When a listing honours its filters.**  A walk through a store that stays as it is honours them
if every key of the store that can be scanned matches, and, where it misses no key, only if every
key does.  All walks through a store that has no more keys than a page may have honour them exactly
if every key that can be scanned matches.  Any other filters that are accepted are answered with the
same pages. -/
theorem listKeys_honours_filters_iff (s : KeyService) (rv : RequestValidator) (f : Filters)
    (kms : KMS) (reads : Row → Bool) {n : Int} (reqContext : Option RequesterContext) (w : World)
    {pages : List Page}
    (hwalk : Walk (s.FetchesFiltered rv f kms reads) Still n reqContext "" w pages) :
    ((∀ r ∈ w.table.latestRows, reads r = true → f.Matches r.metadata) → f.HonouredBy pages) ∧
      (LosesNothing w.table pages →
        (f.HonouredBy pages ↔ ∀ r ∈ w.table.latestRows, f.Matches r.metadata)) ∧
      (validateListFilters rv f.toListFilters = .ok () →
        (w.table.latestRows.length : Int) ≤ maxQueryLimit →
        ((∀ n pages, Walk (s.FetchesFiltered rv f kms reads) Still n reqContext "" w pages →
            f.HonouredBy pages) ↔
          ∀ r ∈ w.table.latestRows, reads r = true → f.Matches r.metadata)) ∧
      ∀ f' : Filters, validateListFilters rv f'.toListFilters = .ok () →
        Walk (s.FetchesFiltered rv f' kms reads) Still n reqContext "" w pages := by
  have hif : ∀ n pages, Walk (s.FetchesFiltered rv f kms reads) Still n reqContext "" w pages →
      (∀ r ∈ w.table.latestRows, reads r = true → f.Matches r.metadata) → f.HonouredBy pages := by
    intro n pages hwalk hall page hpage metadata hmem
    obtain ⟨r, hr, hreads, rfl⟩ := hwalk.mem_response page hpage metadata hmem
    exact hall r hr hreads
  refine ⟨hif n pages hwalk, fun hnothing => ⟨fun hhonoured r hr => ?_, fun hall => ?_⟩,
    fun hf hsmall => ⟨fun hall r hr hreads => ?_, fun hall n pages hwalk => ?_⟩, fun f' hf' => ?_⟩
  · obtain ⟨page, hpage, hreturns⟩ := hnothing r.id r (Table.mem_latestRows.mp hr)
    exact hhonoured page hpage r.metadata (List.of_mem_zip hreturns).2
  · exact hif n pages hwalk fun r hr _ => hall r hr
  · obtain ⟨page, hpage, hwhole⟩ := exists_whole_page hf hsmall
    exact hall _ _ hpage page (List.mem_singleton_self page) r.metadata (hwhole r hr hreads)
  · exact hif n pages hwalk hall
  · refine hwalk.mono (fun req w page w' hpage => ?_) fun _ _ h => h
    obtain ⟨hplain, -, hfetched⟩ := fetchesFiltered_iff.mp hpage
    exact fetchesFiltered_iff.mpr ⟨hplain, hf', hfetched⟩

/-! ### One key -/

/-- An API key, active, created at time 2000, without tags. -/
def apiKeyRow : Row :=
  { firstVersion 1 2000 with
    metadata := some { KeyMetadata.zero with
      keyType := .apiKey
      status := .active
      createdAt := some 2000 } }

def apiKeyStore : World :=
  { (emptyPool 0).state with table := ⟨[apiKeyRow], by simp⟩ }

/-- No filters. -/
def noFilters : Filters := ⟨⟨∅, none, none⟩, [], []⟩

/-- Five filters, none of which the key matches. -/
def unmatched : List Filters :=
  [{ noFilters with keyTypes := [.aes256] }, { noFilters with statuses := [.revoked] },
    { noFilters with tagFilters := Finmap.singleton "env" "prod" },
    { noFilters with createdAfter := some 3000 }, { noFilters with createdBefore := some 1000 }]

theorem unmatched_not_matches : ∀ f ∈ unmatched, ¬ f.Matches apiKeyRow.metadata := by
  simp only [unmatched, List.forall_mem_cons]
  refine ⟨fun h => ?_, fun h => ?_, fun h => ?_, fun h => ?_, fun h => ?_, by simp⟩
  · exact absurd (h.keyType (by simp)) (by decide)
  · exact absurd (h.status (by simp)) (by decide)
  · exact absurd (h.tag "env" "prod" Finmap.lookup_singleton_eq) (by decide)
  · obtain ⟨c, hc, hle⟩ := h.after 3000 rfl
    cases hc
    exact absurd hle (by decide)
  · obtain ⟨c, hc, hle⟩ := h.before 1000 rfl
    cases hc
    exact absurd hle (by decide)

theorem unmatched_accepted :
    ∀ f ∈ unmatched, validateListFilters sampleValidator f.toListFilters = .ok () := by
  decide +kernel

/-- The page that the store is. -/
theorem apiKeyStore_page : ∃ page w', sampleService.Fetches sampleKMS (fun _ => true) ⟨"", 10, none⟩
    apiKeyStore page w' ∧ page.response.keys = [apiKeyRow.metadata] ∧
      page.response.nextPageToken = "" := by
  obtain ⟨resp, w', hrun, hcheck⟩ := exists_run (sampleService.listKeys ⟨"", 10, none⟩) apiKeyStore
    (fun resp => decide (resp.keys = [apiKeyRow.metadata] ∧ resp.nextPageToken = ""))
    (by decide +kernel)
  obtain ⟨keys, hpage⟩ := exists_fetches_of_runs (s := sampleService) hrun
  exact ⟨⟨keys, resp⟩, w', hpage, of_decide_eq_true hcheck⟩

/-- A filter for API keys is honoured in a store of them. -/
theorem listKeys_honours_apiKey :
    ∃ page, Walk (sampleService.FetchesFiltered sampleValidator
        { noFilters with keyTypes := [.apiKey] } sampleKMS fun _ => true) Still 10 none ""
        apiKeyStore [page] ∧
      page.response.keys = [apiKeyRow.metadata] ∧
      Filters.HonouredBy { noFilters with keyTypes := [.apiKey] } [page] := by
  obtain ⟨page, w', hpage, hkeys, hend⟩ := apiKeyStore_page
  have hwalk : Walk (sampleService.FetchesFiltered sampleValidator
      { noFilters with keyTypes := [.apiKey] } sampleKMS fun _ => true) Still 10 none ""
      apiKeyStore [page] :=
    .last (fetchesFiltered_iff.mpr
      ⟨⟨by decide, by decide, .inl rfl⟩, by decide +kernel, hpage⟩) hend
  refine ⟨page, hwalk, hkeys, (listKeys_honours_filters_iff _ _ _ _ _ _ _ hwalk).1 ?_⟩
  intro r hr _
  have hrow : r = apiKeyRow := by
    have hrows : apiKeyStore.table.latestRows = [apiKeyRow] := by decide +kernel
    rw [hrows] at hr
    exact List.mem_singleton.mp hr
  rw [hrow]
  refine ⟨fun _ => by decide, fun h => absurd rfl h, fun k v h => ?_, fun t h => ?_, fun t h => ?_⟩
  · simp [noFilters] at h
  · cases h
  · cases h

/-- **No filter is honoured**: each of five requests is accepted, and answered with a key that does
not match its filter. -/
theorem listKeys_ignores_filters :
    ∃ page w', (∀ f ∈ unmatched, sampleService.FetchesFiltered sampleValidator f sampleKMS
        (fun _ => true) ⟨"", 10, none⟩ apiKeyStore page w') ∧
      ∀ f ∈ unmatched, ∃ metadata ∈ page.response.keys, ¬ f.Matches metadata := by
  obtain ⟨page, w', hpage, hkeys, -⟩ := apiKeyStore_page
  refine ⟨page, w', fun f hf => ?_, fun f hf => ?_⟩
  · exact fetchesFiltered_iff.mpr
      ⟨⟨by decide, by decide, .inl rfl⟩, unmatched_accepted f hf, hpage⟩
  · exact ⟨_, hkeys ▸ List.mem_singleton_self _, unmatched_not_matches f hf⟩

end Polykey
