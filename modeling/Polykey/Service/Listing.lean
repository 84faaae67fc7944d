/-
# Walks through the pages of `ListKeys`

A caller follows `next_page_token` from the empty token until it is empty.  The token is the
creation time of the page's last key, and the next page is of what was created BEFORE that time.

* In a store that stays as it is, a key is missed exactly when the end of a page falls between it
  and a key that was created at the same time, or when its row cannot be scanned
  (`listing_complete_iff`).
* Whatever is committed between the pages, no key comes twice, the keys come in the order of their
  creation, and the walk ends (`listing_once`).  A key that is rotated during the walk gets a new
  place, but one that the walk has left behind: nothing is inserted below the cursor.

The query gives no order to rows created at the same time, and a row that cannot be scanned is
logged and left out.  `Lists` allows for both; `PSQLAdapter.listKeys` is the case in which the rows
lie in the order of the table and all of them scan (`lists_listKeys`).
-/
import Polykey.Lib.Pages
import Polykey.Service.Reads
import Polykey.Service.Scenario

namespace Polykey

open Lib

/-! ## 1. What the query may answer -/

namespace Table

/-- `latest_keys`: of each id the row with its highest version. -/
def latestRows (t : Table) : List Row := t.rows.filter fun r => t.latest r.id = some r

/-- The ids that have rows. -/
def ids (t : Table) : List KeyID := (t.rows.map Row.id).dedup

variable {t : Table} {r r' : Row}

theorem mem_latestRows : r ∈ t.latestRows ↔ t.latest r.id = some r := by
  simp only [latestRows, List.mem_filter, decide_eq_true_eq]
  exact ⟨fun h => h.2, fun h => ⟨(latest_eq_some.mp h).1, h⟩⟩

theorem latestRows_unique (hr : r ∈ t.latestRows) (hr' : r' ∈ t.latestRows) (hid : r.id = r'.id) :
    r = r' := by
  have h := mem_latestRows.mp hr
  rw [hid, mem_latestRows.mp hr'] at h
  exact (Option.some.inj h).symm

theorem nodup_latestRows (t : Table) : t.latestRows.Nodup :=
  (List.Nodup.of_map Row.key t.primaryKey).filter _

end Table

theorem timestamptz_le (c : Time) : timestamptz c ≤ c := Int.ediv_mul_le c (by decide)

/-- What `PSQLAdapter.ListKeys` may answer when the database works; `reads` are the rows that scan.
-/
def PSQLAdapter.Lists (reads : Row → Bool) (t : Table) (lastCreatedAt : Option Time) (limit : Int)
    (keys : List Key) : Prop :=
  0 ≤ limit ∧ ∃ rows, Top Row.createdAt limit.toNat
    (beneath Row.createdAt timestamptz lastCreatedAt t.latestRows) rows ∧
      keys = (rows.filter reads).map Row.scan

theorem lists_listKeys {t : Table} {cursor : Option Time} {limit : Int} {keys : List Key}
    (h : PSQLAdapter.listKeys t cursor limit = .ok keys) :
    PSQLAdapter.Lists (fun _ => true) t cursor limit keys := by
  unfold PSQLAdapter.listKeys at h
  split at h
  · cases h
  · rename_i hlimit
    cases h
    refine ⟨by omega, _, exists_top _ _ _, ?_⟩
    rw [List.filter_true]
    rfl

section Lists

variable {reads : Row → Bool} {t : Table} {cursor : Option Time} {limit : Int} {keys : List Key}

/-- The keys of a page are latest rows, from below the cursor. -/
theorem PSQLAdapter.Lists.mem (h : PSQLAdapter.Lists reads t cursor limit keys) {k : Key}
    (hk : k ∈ keys) : ∃ r ∈ t.latestRows, k = r.scan ∧ reads r = true ∧
      ∀ c, cursor = some c → r.createdAt < timestamptz c := by
  obtain ⟨-, rows, htop, rfl⟩ := h
  obtain ⟨r, hr, rfl⟩ := List.mem_map.mp hk
  have hin := htop.subset (List.mem_of_mem_filter hr)
  refine ⟨r, List.mem_of_mem_filter hin, rfl, (List.mem_filter.mp hr).2, fun c hc => ?_⟩
  rw [hc] at hin
  exact (mem_beneath.mp hin).2

theorem PSQLAdapter.Lists.pairwise (h : PSQLAdapter.Lists reads t cursor limit keys) :
    keys.Pairwise fun a b => b.createdAt ≤ a.createdAt := by
  obtain ⟨-, rows, htop, rfl⟩ := h
  exact List.pairwise_map.mpr (htop.pairwise.filter _)

theorem PSQLAdapter.Lists.nodup (h : PSQLAdapter.Lists reads t cursor limit keys) :
    (keys.map (·.id)).Nodup := by
  obtain ⟨-, rows, htop, rfl⟩ := h
  have hrows : rows.Nodup := htop.nodup (t.nodup_latestRows.filter _)
  rw [List.map_map]
  refine (hrows.filter _).map_on fun r hr r' hr' hid => ?_
  have hlatest : ∀ x ∈ rows.filter reads, x ∈ t.latestRows := fun x hx =>
    List.mem_of_mem_filter (htop.subset (List.mem_of_mem_filter hx))
  exact Table.latestRows_unique (hlatest r hr) (hlatest r' hr') hid

end Lists

/-! ## 2. One page -/

/-- The world as `ListKeys` sees it, in which the query answers the given keys. -/
def listingSem (uuid : UUIDPkg) (kms : KMS) (reads : Row → Bool) (keys : List Key) :
    Sem Effect World
  | .repo (.listKeys cursor limit), w, r, w' =>
    r = .ok keys ∧ PSQLAdapter.Lists reads w.table cursor limit keys ∧
      ∃ now, w.clock ≤ now ∧ w' = { w with clock := now }
  | op, w, r, w' => worldSem uuid kms op w r w'

/-- A page: the keys that the query has answered, and the response made of them. -/
structure Page where
  keys : List Key
  response : ListKeysResponse

/-- The key of a row is on the page, and the row's metadata is what is returned for it. -/
def Page.Returns (page : Page) (r : Row) : Prop :=
  (r.scan, r.metadata) ∈ page.keys.zip page.response.keys

namespace KeyService

/-- `ListKeys` returns the page. -/
def Fetches (s : KeyService) (kms : KMS) (reads : Row → Bool) (req : ListKeysRequest) (w : World)
    (page : Page) (w' : World) : Prop :=
  Act.Runs (listingSem s.uuid kms reads page.keys) (s.listKeys req) w (.ok page.response) w'

/-- The text of a time is read back as the time, and is not the empty token. -/
structure TokensExact (s : KeyService) : Prop where
  parse : ∀ t, s.parseTime (s.formatTime t) = some t
  ne_empty : ∀ t, s.formatTime t ≠ ""

/-- The cursor that a page token stands for. -/
inductive Cursor (s : KeyService) : String → Option Time → Prop
  | start : Cursor s "" none
  | after {token : String} {c : Time} (hne : token ≠ "") (hparse : s.parseTime token = some c) :
      Cursor s token (some c)

end KeyService

section Fetch

variable {s : KeyService} {kms : KMS} {reads : Row → Bool} {token : String} {n : Int}
  {reqContext : Option RequesterContext} {w w' : World} {page : Page}

/-- **What a page is.** -/
theorem fetches_facts (hn : 1 ≤ n) (h : s.Fetches kms reads ⟨token, n, reqContext⟩ w page w') :
    w'.table = w.table ∧ page.response.keys = page.keys.map (·.metadata) ∧
      (∃ cursor, s.Cursor token cursor ∧
        PSQLAdapter.Lists reads w.table cursor n page.keys) ∧
      ((page.keys.length : Int) = n ∧ (∃ k, page.keys.getLast? = some k ∧
          page.response.nextPageToken = s.formatTime k.createdAt) ∨
        (page.keys.length : Int) ≠ n ∧ page.response.nextPageToken = "") := by
  have hlimit : (if n = 0 then (100 : Int) else n) = n := if_neg (by omega)
  unfold KeyService.Fetches KeyService.listKeys at h
  simp only [hlimit, Act.runs_bind_ok, Act.runs_pure] at h
  obtain ⟨cursor, w₁, hcursor, keys, w₂, hrepo, now, w₃, hnow, hresp, hw'⟩ := h
  obtain ⟨x, ⟨hanswer, hlists, t, -, hw₂⟩, hok⟩ := Act.runs_tryCall.mp hrepo
  obtain ⟨t', -, -, hw₃⟩ : worldSem s.uuid kms .timeNow w₂ now w₃ := Act.runs_call.mp hnow
  cases hok.trans hanswer
  rw [hlimit] at hlists
  have hpos : w₁ = w ∧ s.Cursor token cursor := by
    split at hcursor
    · rename_i htoken
      cases hcursor.1
      exact ⟨hcursor.2, htoken ▸ .start⟩
    · rename_i htoken
      split at hcursor
      · cases hcursor.1
      · rename_i c hparse
        cases hcursor.1
        exact ⟨hcursor.2, .after htoken hparse⟩
  obtain ⟨rfl, hc⟩ := hpos
  rw [Except.ok.inj hresp, hw', hw₃, hw₂]
  refine ⟨rfl, rfl, ⟨cursor, hc, hlists⟩, ?_⟩
  cases hlast : page.keys.getLast? with
  | none =>
    have hnil : page.keys = [] := List.getLast?_eq_none_iff.mp hlast
    refine .inr ⟨?_, rfl⟩
    rw [hnil]
    exact fun hzero => absurd hzero (by simp; omega)
  | some k =>
    by_cases hfull : (page.keys.length : Int) = n
    · exact .inl ⟨hfull, k, rfl, if_pos hfull⟩
    · exact .inr ⟨hfull, if_neg hfull⟩

/-- Where the token stands for a cursor, there is a page. -/
theorem exists_fetches (kms : KMS) (reads : Row → Bool) (reqContext : Option RequesterContext)
    (w : World) (hn : 1 ≤ n) {cursor : Option Time} (hcursor : s.Cursor token cursor) :
    ∃ page w', s.Fetches kms reads ⟨token, n, reqContext⟩ w page w' := by
  have hlimit : (if n = 0 then (100 : Int) else n) = n := if_neg (by omega)
  let rows := ((beneath Row.createdAt timestamptz cursor w.table.latestRows).insertionSort
    fun a b => b.createdAt ≤ a.createdAt).take n.toNat
  let keys := (rows.filter reads).map Row.scan
  have hlists : PSQLAdapter.Lists reads w.table cursor (if n = 0 then 100 else n) keys := by
    rw [hlimit]
    exact ⟨by omega, rows, exists_top _ _ _, rfl⟩
  have hrepo : Act.Runs (listingSem s.uuid kms reads keys)
      (repo (.listKeys cursor (if n = 0 then 100 else n))) w (.ok keys) w :=
    Act.runs_tryCall.mpr ⟨.ok keys, ⟨rfl, hlists, w.clock, le_rfl, rfl⟩, rfl⟩
  have hnow : Act.Runs (listingSem s.uuid kms reads keys)
    (Act.call (I := Effect) .timeNow : Svc Time) w
      (.ok w.clock) w := Act.runs_call.mpr ⟨w.clock, le_rfl, rfl, rfl⟩
  suffices hrun : ∃ resp w', Act.Runs (listingSem s.uuid kms reads keys)
      (s.listKeys ⟨token, n, reqContext⟩) w (.ok resp) w' ∧ True by
    obtain ⟨resp, w', hrun, -⟩ := hrun
    exact ⟨⟨keys, resp⟩, w', hrun⟩
  unfold KeyService.listKeys
  refine Act.exists_runs_bind (?_ : Act.Runs _ _ w (.ok cursor) w)
    (Act.exists_runs_bind hrepo (Act.exists_runs_bind hnow ⟨_, _, ⟨rfl, rfl⟩, trivial⟩))
  cases hcursor with
  | start => exact ⟨rfl, rfl⟩
  | after hne hparse =>
    rw [if_neg hne, hparse]
    exact ⟨rfl, rfl⟩

/-- The pages of the modelled repository are such pages. -/
theorem exists_fetches_of_runs {req : ListKeysRequest} {resp : ListKeysResponse}
    (h : Act.Runs (worldSem s.uuid kms) (s.listKeys req) w (.ok resp) w') :
    ∃ keys, s.Fetches kms (fun _ => true) req w ⟨keys, resp⟩ w' := by
  unfold KeyService.listKeys at h
  simp only [Act.runs_bind_ok] at h
  obtain ⟨cursor, w₁, hcursor, keys, w₂, hrepo, now, w₃, hnow, hresp⟩ := h
  refine ⟨keys, ?_⟩
  obtain ⟨t, t', ht, hexec, hw₂⟩ := runs_repo_ok.mp hrepo
  obtain ⟨hlist, rfl⟩ := Prod.mk.inj hexec
  unfold KeyService.Fetches KeyService.listKeys
  refine Act.runs_bind_ok.mpr ⟨cursor, w₁, ?_, Act.runs_bind_ok.mpr ⟨keys, w₂, ?_,
    Act.runs_bind_ok.mpr ⟨now, w₃, ?_, hresp⟩⟩⟩
  · by_cases htoken : req.pageToken = ""
    · rw [if_pos htoken] at hcursor ⊢
      exact hcursor
    · rw [if_neg htoken] at hcursor ⊢
      cases hparse : s.parseTime req.pageToken with
      | none =>
        rw [hparse] at hcursor
        exact hcursor
      | some c =>
        rw [hparse] at hcursor
        exact hcursor
  · exact Act.runs_tryCall.mpr ⟨.ok keys, ⟨rfl, lists_listKeys hlist, t, ht, hw₂⟩, rfl⟩
  · exact Act.runs_call.mpr (Act.runs_call.mp hnow)

theorem KeyService.Cursor.unique {cursor cursor' : Option Time} (h : s.Cursor token cursor)
    (h' : s.Cursor token cursor') : cursor = cursor' := by
  cases h with
  | start =>
    cases h' with
    | start => rfl
    | after hne _ => exact absurd rfl hne
  | after hne hparse =>
    cases h' with
    | start => exact absurd rfl hne
    | after _ hparse' => exact hparse.symm.trans hparse'

theorem returns_iff {r : Row} (hresponse : page.response.keys = page.keys.map (·.metadata)) :
    page.Returns r ↔ r.scan ∈ page.keys := by
  unfold Page.Returns
  rw [hresponse, ← List.map_prod_left_eq_zip, List.mem_map]
  constructor
  · rintro ⟨k, hk, heq⟩
    exact (Prod.mk.inj heq).1 ▸ hk
  · intro hr
    exact ⟨r.scan, hr, rfl⟩

end Fetch

/-! ## 3. Walks

A walk is the pages a caller has got so far. The token of a page stands for the time of its last
key, and the lemmas here turn tokens into cursors. -/

/-- The pages of a caller who asks for `n` keys at a time and follows the tokens; between two pages
the world may go on.  The caller may break off. -/
inductive Walk (fetches : ListKeysRequest → World → Page → World → Prop)
    (between : World → World → Prop) (n : Int) (reqContext : Option RequesterContext) :
    String → World → List Page → Prop
  | stop {token : String} {w : World} : Walk fetches between n reqContext token w []
  | last {token : String} {w w' : World} {page : Page}
      (hpage : fetches ⟨token, n, reqContext⟩ w page w')
      (hend : page.response.nextPageToken = "") : Walk fetches between n reqContext token w [page]
  | next {token : String} {w w' w'' : World} {page : Page} {rest : List Page}
      (hpage : fetches ⟨token, n, reqContext⟩ w page w')
      (hgo : page.response.nextPageToken ≠ "") (hbetween : between w' w'')
      (hrest : Walk fetches between n reqContext page.response.nextPageToken w'' rest) :
      Walk fetches between n reqContext token w (page :: rest)

/-- The walk has come to an empty token. -/
def Finished (pages : List Page) : Prop :=
  ∃ page, pages.getLast? = some page ∧ page.response.nextPageToken = ""

section Walk

variable {fetches fetches' : ListKeysRequest → World → Page → World → Prop}
  {between between' : World → World → Prop} {s : KeyService} {kms : KMS} {n : Int}
  {reqContext : Option RequesterContext} {token : String} {w : World} {pages : List Page}

/-- A page that has a token does not finish a walk. -/
theorem finished_cons {page : Page} (hgo : page.response.nextPageToken ≠ "") :
    Finished (page :: pages) ↔ Finished pages := by
  unfold Finished
  cases pages with
  | nil => simp [hgo]
  | cons q rest => rw [List.getLast?_cons_cons]

theorem Walk.mono (hfetches : ∀ req w page w', fetches req w page w' → fetches' req w page w')
    (hbetween : ∀ w w', between w w' → between' w w')
    (h : Walk fetches between n reqContext token w pages) :
    Walk fetches' between' n reqContext token w pages := by
  induction h with
  | stop => exact .stop
  | last hpage hend => exact .last (hfetches _ _ _ _ hpage) hend
  | next hpage hgo hsteps _ ih => exact .next (hfetches _ _ _ _ hpage) hgo (hbetween _ _ hsteps) ih

/-- What holds of every page that is fetched holds of every page of a walk. -/
theorem Walk.forall_page {P : Page → Prop}
    (hP : ∀ token w page w', fetches ⟨token, n, reqContext⟩ w page w' → P page)
    (h : Walk fetches between n reqContext token w pages) : ∀ page ∈ pages, P page := by
  induction h with
  | stop => exact fun page hpage => absurd hpage List.not_mem_nil
  | last hpage _ => exact List.forall_mem_singleton.mpr (hP _ _ _ _ hpage)
  | next hpage _ _ _ ih => exact List.forall_mem_cons.mpr ⟨hP _ _ _ _ hpage, ih⟩

/-- **The token of a page** that is not the last one is the time of its last key. -/
theorem next_cursor (htokens : s.TokensExact) (hn : 1 ≤ n) {reads : Row → Bool} {page : Page}
    {w' : World} (h : s.Fetches kms reads ⟨token, n, reqContext⟩ w page w')
    (hgo : page.response.nextPageToken ≠ "") :
    (page.keys.length : Int) = n ∧ ∃ k, page.keys.getLast? = some k ∧
      s.Cursor page.response.nextPageToken (some k.createdAt) := by
  obtain ⟨-, -, -, ⟨hfull, k, hk, hnext⟩ | ⟨-, hend⟩⟩ := fetches_facts hn h
  · refine ⟨hfull, k, hk, .after hgo ?_⟩
    rw [hnext]
    exact htokens.parse k.createdAt
  · exact absurd hend hgo

/-- **A walk can go on** until it is finished. -/
theorem Walk.finished_or_extends (htokens : s.TokensExact) (hn : 1 ≤ n)
    (hsound : ∀ req w page w', fetches req w page w' → ∃ reads, s.Fetches kms reads req w page w')
    (hfetch : ∀ token cursor w, s.Cursor token cursor →
      ∃ page w', fetches ⟨token, n, reqContext⟩ w page w')
    (hbetween : ∀ w, between w w) (h : Walk fetches between n reqContext token w pages)
    {cursor : Option Time} (hcursor : s.Cursor token cursor) :
    Finished pages ∨ ∃ page, Walk fetches between n reqContext token w (pages ++ [page]) := by
  induction h generalizing cursor with
  | @stop token w =>
    obtain ⟨page, w', hpage⟩ := hfetch token cursor w hcursor
    refine .inr ⟨page, ?_⟩
    by_cases hend : page.response.nextPageToken = ""
    · exact .last hpage hend
    · exact .next hpage hend (hbetween w') .stop
  | last _ hend => exact .inl ⟨_, rfl, hend⟩
  | next hpage hgo hsteps _ ih =>
    obtain ⟨reads, hfetched⟩ := hsound _ _ _ _ hpage
    obtain ⟨-, k, -, hk⟩ := next_cursor htokens hn hfetched hgo
    rcases ih hk with hfinished | ⟨q, hq⟩
    · exact .inl ((finished_cons hgo).mpr hfinished)
    · exact .inr ⟨q, .next hpage hgo hsteps hq⟩

/-- Walks that can go on until they are finished, and cannot go on for ever, can be finished. -/
theorem exists_finished {walk : List Page → Prop} {N : Nat} (hnil : walk [])
    (hbound : ∀ pages, walk pages → pages.length ≤ N)
    (hextends : ∀ pages, walk pages → Finished pages ∨ ∃ page, walk (pages ++ [page])) :
    ∃ pages, walk pages ∧ Finished pages := by
  have hlong : ∀ k : Nat, ∃ pages, walk pages ∧ (Finished pages ∨ pages.length = k) := by
    intro k
    induction k with
    | zero => exact ⟨[], hnil, .inr rfl⟩
    | succ k ih =>
      obtain ⟨pages, hwalk, hfinished | hlength⟩ := ih
      · exact ⟨pages, hwalk, .inl hfinished⟩
      · rcases hextends pages hwalk with hfinished | ⟨page, hnext⟩
        · exact ⟨pages, hwalk, .inl hfinished⟩
        · exact ⟨_, hnext, .inr (by simp [hlength])⟩
  obtain ⟨pages, hwalk, hfinished | hlength⟩ := hlong (N + 1)
  · exact ⟨pages, hwalk, hfinished⟩
  · have := hbound pages hwalk
    omega

end Walk

/-! ## 4. What is committed between two pages

Rows are never deleted, and no statement changes an id, a version or a creation time.  So the
latest row of an id stays where it is in the order, or another row becomes the latest; and that one
is later than every row there was. -/

/-- A call of the repository, by anyone, whose inserted rows are later than all stored ones. -/
def Commits (uuid : UUIDPkg) (t t' : Table) : Prop :=
  (∃ now op r, PSQLAdapter.Answers uuid now op t r t') ∧
    ∀ r' ∈ t'.rows, r'.key ∉ t.rows.map Row.key → ∀ r ∈ t.rows, r.createdAt < r'.createdAt

/-- Any number of commits; the rest of the world does as it likes. -/
def CommitsBetween (uuid : UUIDPkg) (w w' : World) : Prop :=
  Relation.ReflTransGen (Commits uuid) w.table w'.table

/-- Every row is still there, under its key and with its creation time. -/
def KeepsRows (t t' : Table) : Prop :=
  ∀ r ∈ t.rows, ∃ r' ∈ t'.rows, r'.key = r.key ∧ r'.createdAt = r.createdAt

/-- The rows are kept, and the new ones are later than all of them. -/
structure Grows (t t' : Table) : Prop where
  kept : KeepsRows t t'
  later : ∀ r' ∈ t'.rows, r'.key ∉ t.rows.map Row.key → ∀ r ∈ t.rows, r.createdAt < r'.createdAt

section Grows

variable {t t' t'' : Table}

theorem KeepsRows.refl (t : Table) : KeepsRows t t := fun r hr => ⟨r, hr, rfl, rfl⟩

theorem KeepsRows.trans (h : KeepsRows t t') (h' : KeepsRows t' t'') : KeepsRows t t'' := by
  intro r hr
  obtain ⟨r', hr', hkey', hcreated'⟩ := h r hr
  obtain ⟨r'', hr'', hkey'', hcreated''⟩ := h' r' hr'
  exact ⟨r'', hr'', hkey''.trans hkey', hcreated''.trans hcreated'⟩

theorem keepsRows_mapRows {f : Row → Row} {hf : ∀ r, (f r).key = r.key}
    (h : ∀ r, (f r).createdAt = r.createdAt) : KeepsRows t (t.mapRows f hf) :=
  fun r hr => ⟨f r, Table.mem_mapRows.mpr ⟨r, hr, rfl⟩, hf r, h r⟩

theorem keepsRows_append {new : List Row} (hrows : t'.rows = t.rows ++ new) : KeepsRows t t' :=
  fun r hr => ⟨r, hrows ▸ List.mem_append_left _ hr, rfl, rfl⟩

theorem keepsRows_updateEach (now : Time) (t : Table)
    (updates : List (KeyID × Option KeyMetadata)) :
    KeepsRows t (PSQLAdapter.updateEach now t updates) := by
  induction updates generalizing t with
  | nil => exact .refl t
  | cons u us ih =>
    have hfirst : KeepsRows t (t.updateMetadata u.1 u.2 (timestamptz now)) := by
      refine keepsRows_mapRows fun r => ?_
      split <;> rfl
    exact hfirst.trans (ih _)

/-- No call deletes a row or moves it in time. -/
theorem keepsRows_change {now : Time} {op : RepoOp} (h : PSQLAdapter.Change now op t t') :
    KeepsRows t t' := by
  cases h with
  | same => exact .refl t
  | create hins => exact keepsRows_append (Table.insert_eq_some hins)
  | update _ => exact keepsRows_updateEach now t _
  | revoke =>
    refine keepsRows_mapRows fun r => ?_
    split <;> rfl
  | @rotate id _ _ _ _ _ hrot =>
    have hmarked : KeepsRows t (t.markRotated id (timestamptz now)) := by
      refine keepsRows_mapRows fun r => ?_
      split <;> rfl
    exact hmarked.trans (keepsRows_append hrot.rows)

theorem Grows.refl (t : Table) : Grows t t := by
  refine ⟨.refl t, fun r hr hkey => ?_⟩
  exact absurd (List.mem_map_of_mem hr) hkey

/-- A row under a key that was there has the creation time it had. -/
theorem KeepsRows.createdAt_eq (h : KeepsRows t t') {r r' : Row} (hr : r ∈ t.rows)
    (hr' : r' ∈ t'.rows) (hkey : r'.key = r.key) : r'.createdAt = r.createdAt := by
  obtain ⟨x, hx, hxkey, hxcreated⟩ := h r hr
  have hsame : x = r' := List.inj_on_of_nodup_map t'.primaryKey hx hr' (hxkey.trans hkey.symm)
  rw [← hsame, hxcreated]

theorem Grows.trans (h : Grows t t') (h' : Grows t' t'') : Grows t t'' := by
  refine ⟨h.kept.trans h'.kept, fun r'' hr'' hkey r hr => ?_⟩
  by_cases hmid : r''.key ∈ t'.rows.map Row.key
  · obtain ⟨r', hr', hkey'⟩ := List.mem_map.mp hmid
    rw [h'.kept.createdAt_eq hr' hr'' hkey'.symm]
    exact h.later r' hr' (hkey' ▸ hkey) r hr
  · obtain ⟨r', hr', -, hcreated⟩ := h.kept r hr
    rw [← hcreated]
    exact h'.later r'' hr'' hmid r' hr'

theorem grows_of_commits {uuid : UUIDPkg} (h : Relation.ReflTransGen (Commits uuid) t t') :
    Grows t t' := by
  induction h with
  | refl => exact .refl t
  | tail _ hstep ih =>
    obtain ⟨⟨now, op, r, hanswers⟩, hlater⟩ := hstep
    exact ih.trans ⟨keepsRows_change hanswers.change, hlater⟩

/-- **Nothing new comes below a stored row.** A latest row that is not later than some row there
was is, in its id and its time, the latest row there was. -/
theorem Grows.latest (h : Grows t t') {id : KeyID} {r' x : Row} (hr' : t'.latest id = some r')
    (hx : x ∈ t.rows) (hle : r'.createdAt ≤ x.createdAt) :
    ∃ r, t.latest id = some r ∧ r.createdAt = r'.createdAt := by
  obtain ⟨hmem', hid', hmax'⟩ := Table.latest_eq_some.mp hr'
  have hold : r'.key ∈ t.rows.map Row.key := by
    by_contra hnew
    exact absurd (h.later r' hmem' hnew x hx) (not_lt.mpr hle)
  obtain ⟨r, hr, hkey⟩ := List.mem_map.mp hold
  have hid : r.id = r'.id := congrArg Prod.fst hkey
  have hversion : r.version = r'.version := congrArg Prod.snd hkey
  refine ⟨r, Table.latest_eq_some.mpr ⟨hr, hid.trans hid', fun y hy hyid => ?_⟩, ?_⟩
  · obtain ⟨y', hy', hykey, -⟩ := h.kept y hy
    have hyid' : y'.id = y.id := congrArg Prod.fst hykey
    have hyversion : y'.version = y.version := congrArg Prod.snd hykey
    have := hmax' y' hy' (hyid'.trans hyid)
    omega
  · exact (h.kept.createdAt_eq hr hmem' hkey.symm).symm

end Grows

/-! ## 5. No key comes twice, and the walk ends

By induction on the walk: what the rest of it lists lies below the cursor, in a table that has
only grown above it. So it can be said in terms of the table at the cursor (`Onward`). -/

namespace KeyService

/-- `ListKeys` returns the page, whichever rows scan this time. -/
def FetchesSome (s : KeyService) (kms : KMS) (req : ListKeysRequest) (w : World) (page : Page)
    (w' : World) : Prop :=
  ∃ reads, s.Fetches kms reads req w page w'

end KeyService

/-- The keys on the pages, in the order in which they come. -/
def listed (pages : List Page) : List Key := pages.flatMap (·.keys)

/-- What the rest of a walk lists, from a cursor in a table: latest rows of THAT table, as to their
ids and times, from below the cursor; each id once, and in order. -/
structure Onward (t : Table) (cursor : Option Time) (pages : List Page) : Prop where
  latest : ∀ k ∈ listed pages, ∃ r, t.latest k.id = some r ∧ r.createdAt = k.createdAt
  below : ∀ k ∈ listed pages, ∀ c, cursor = some c → k.createdAt < timestamptz c
  sorted : (listed pages).Pairwise fun a b => b.createdAt ≤ a.createdAt
  once : ((listed pages).map (·.id)).Nodup
  short : pages.length ≤ (listed pages).length + 1

section Onward

variable {s : KeyService} {kms : KMS} {n : Int} {reqContext : Option RequesterContext}
  {token : String} {w w' : World} {t t' : Table} {pages : List Page} {page : Page}
  {reads : Row → Bool} {cursor : Option Time}

theorem onward_nil (t : Table) (cursor : Option Time) : Onward t cursor [] where
  latest _ hk := absurd hk List.not_mem_nil
  below _ hk := absurd hk List.not_mem_nil
  sorted := .nil
  once := List.nodup_nil
  short := Nat.zero_le _

theorem onward_single (h : PSQLAdapter.Lists reads t cursor n page.keys) :
    Onward t cursor [page] := by
  have hlisted : listed [page] = page.keys := by simp [listed]
  constructor
  · intro k hk
    obtain ⟨r, hr, rfl, -⟩ := h.mem (hlisted ▸ hk)
    exact ⟨r, Table.mem_latestRows.mp hr, rfl⟩
  · intro k hk
    obtain ⟨r, -, rfl, -, hbelow⟩ := h.mem (hlisted ▸ hk)
    exact hbelow
  · rw [hlisted]
    exact h.pairwise
  · rw [hlisted]
    exact h.nodup
  · exact Nat.le_add_left 1 _

/-- **One page more.** Behind a page that ends in `k` comes what lies below the time of `k`, in a
table that has grown. -/
theorem onward_cons (h : PSQLAdapter.Lists reads t cursor n page.keys) {k : Key}
    (hk : page.keys.getLast? = some k) (hgrows : Grows t t')
    (hrest : Onward t' (some k.createdAt) pages) : Onward t cursor (page :: pages) := by
  have hlisted : listed (page :: pages) = page.keys ++ listed pages := by simp [listed]
  have hfirst := onward_single h
  have hsingle : listed [page] = page.keys := by simp [listed]
  have hkmem : k ∈ page.keys := List.mem_of_getLast? hk
  obtain ⟨x, hx, hkx, hkbelow⟩ := h.mem hkmem
  have hxrows : x ∈ t.rows := (Table.latest_eq_some.mp (Table.mem_latestRows.mp hx)).1
  have hlow : ∀ q ∈ listed pages, q.createdAt < k.createdAt := fun q hq =>
    (hrest.below q hq _ rfl).trans_le (timestamptz_le _)
  have hhigh : ∀ p ∈ page.keys, k.createdAt ≤ p.createdAt := fun p hp =>
    le_of_getLast? h.pairwise hk hp
  -- the rest lists rows that were there already
  have hback : ∀ q ∈ listed pages, ∃ r, t.latest q.id = some r ∧ r.createdAt = q.createdAt := by
    intro q hq
    obtain ⟨r', hr', hcreated'⟩ := hrest.latest q hq
    have hle : r'.createdAt ≤ x.createdAt := by
      have := hlow q hq
      rw [hkx] at this
      exact hcreated' ▸ this.le
    obtain ⟨r, hr, hcreated⟩ := hgrows.latest hr' hxrows hle
    exact ⟨r, hr, hcreated.trans hcreated'⟩
  rw [hsingle.symm] at hhigh hlisted hkmem
  constructor
  · rw [hlisted]
    exact List.forall_mem_append.mpr ⟨hfirst.latest, hback⟩
  · rw [hlisted]
    refine List.forall_mem_append.mpr ⟨hfirst.below, fun q hq c hc => ?_⟩
    exact (hlow q hq).trans (hfirst.below k hkmem c hc)
  · rw [hlisted]
    refine List.pairwise_append.mpr ⟨hfirst.sorted, hrest.sorted, fun p hp q hq => ?_⟩
    exact (hlow q hq).le.trans (hhigh p hp)
  · rw [hlisted, List.map_append]
    refine List.nodup_append.mpr ⟨hfirst.once, hrest.once, fun i hi j hj hij => ?_⟩
    obtain ⟨p, hp, rfl⟩ := List.mem_map.mp hi
    obtain ⟨q, hq, rfl⟩ := List.mem_map.mp hj
    obtain ⟨r, hr, hcreated⟩ := hfirst.latest p hp
    obtain ⟨r', hr', hcreated'⟩ := hback q hq
    rw [hij, hr'] at hr
    cases hr
    have := (hlow q hq).trans_le (hhigh p hp)
    rw [← hcreated, ← hcreated'] at this
    exact absurd this (lt_irrefl _)
  · rw [hlisted, List.length_append, List.length_cons]
    have := List.length_pos_of_mem hkmem
    have := hrest.short
    omega

/-- **What a walk lists**, whatever is committed on the way. -/
theorem Walk.onward (htokens : s.TokensExact) (hn : 1 ≤ n)
    (h : Walk (s.FetchesSome kms) (CommitsBetween s.uuid) n reqContext token w pages)
    (hcursor : s.Cursor token cursor) : Onward w.table cursor pages := by
  induction h generalizing cursor with
  | @stop token w => exact onward_nil w.table cursor
  | last hpage hend =>
    obtain ⟨reads, hfetched⟩ := hpage
    obtain ⟨-, -, ⟨cursor', hcursor', hlists⟩, -⟩ := fetches_facts hn hfetched
    rw [hcursor.unique hcursor']
    exact onward_single hlists
  | next hpage hgo hsteps _ ih =>
    obtain ⟨reads, hfetched⟩ := hpage
    obtain ⟨htable, -, ⟨cursor', hcursor', hlists⟩, -⟩ := fetches_facts hn hfetched
    obtain ⟨-, k, hk, hnext⟩ := next_cursor htokens hn hfetched hgo
    rw [hcursor.unique hcursor']
    exact onward_cons hlists hk (htable ▸ grows_of_commits hsteps) (ih hnext)

/-- A walk has at most one page more than there were ids. -/
theorem Walk.length_le (htokens : s.TokensExact) (hn : 1 ≤ n)
    (h : Walk (s.FetchesSome kms) (CommitsBetween s.uuid) n reqContext "" w pages) :
    pages.length ≤ w.table.ids.length + 1 := by
  have honward := h.onward htokens hn .start
  have hsub : (listed pages).map (·.id) ⊆ w.table.ids := by
    intro id hid
    obtain ⟨k, hk, rfl⟩ := List.mem_map.mp hid
    obtain ⟨r, hr, -⟩ := honward.latest k hk
    obtain ⟨hmem, hrid, -⟩ := Table.latest_eq_some.mp hr
    exact List.mem_dedup.mpr (List.mem_map.mpr ⟨r, hmem, hrid⟩)
  have hcount := (honward.once.subperm hsub).length_le
  rw [List.length_map] at hcount
  exact honward.short.trans (Nat.add_le_add_right hcount 1)

end Onward

/-- **Listing never repeats a key and always ends.** For a walk from the empty token, whatever is
committed between its pages: what the responses show is the metadata of the keys listed; no id is
listed twice; the keys come in the order of their creation, the newest first; the walk has at most
one page more than there were ids at its start; and it is finished, or has fewer pages and can go
on. -/
theorem listing_once (s : KeyService) (kms : KMS) {n : Int} (reqContext : Option RequesterContext)
    (w : World) (htokens : s.TokensExact) (hn : 1 ≤ n) {pages : List Page}
    (hwalk : Walk (s.FetchesSome kms) (CommitsBetween s.uuid) n reqContext "" w pages) :
    (∀ page ∈ pages, page.response.keys = page.keys.map (·.metadata)) ∧
      ((listed pages).map (·.id)).Nodup ∧
      ((listed pages).Pairwise fun a b => b.createdAt ≤ a.createdAt) ∧
      pages.length ≤ w.table.ids.length + 1 ∧
      (Finished pages ∨ pages.length ≤ w.table.ids.length ∧ ∃ page,
        Walk (s.FetchesSome kms) (CommitsBetween s.uuid) n reqContext "" w (pages ++ [page])) := by
  have honward := hwalk.onward htokens hn .start
  refine ⟨?_, honward.once, honward.sorted, hwalk.length_le htokens hn, ?_⟩
  · refine hwalk.forall_page fun token w page w' hpage => ?_
    obtain ⟨reads, hfetched⟩ := hpage
    exact (fetches_facts hn hfetched).2.1
  · have hfetch : ∀ token cursor w, s.Cursor token cursor →
        ∃ page w', s.FetchesSome kms ⟨token, n, reqContext⟩ w page w' := by
      intro token cursor w hcursor
      obtain ⟨page, w', hpage⟩ := exists_fetches kms (fun _ => true) reqContext w hn hcursor
      exact ⟨page, w', _, hpage⟩
    rcases hwalk.finished_or_extends htokens hn (fun _ _ _ _ h => h) hfetch (fun _ => .refl)
      .start with hfinished | ⟨page, hlonger⟩
    · exact .inl hfinished
    · have hlength := hlonger.length_le htokens hn
      rw [List.length_append, List.length_singleton] at hlength
      exact .inr ⟨by omega, page, hlonger⟩

/-- The texts of the deployment's times are exact. -/
theorem sampleService_tokensExact : sampleService.TokensExact where
  parse t := Int.toInt?_repr t
  ne_empty t := by
    change toString t ≠ ""
    cases t with
    | ofNat m => exact Nat.repr_ne_empty
    | negSucc m =>
      change "-" ++ Nat.repr (m + 1) ≠ ""
      simp

/-- The first version of a key. -/
def firstVersion (id : Nat) (createdAt : Time) : Row where
  id := ⟨BitVec.ofNat 128 id⟩
  version := 1
  metadata := some { KeyMetadata.zero with version := 1 }
  encryptedDEK := [1]
  status := .active
  storageType := .standard
  createdAt := createdAt
  updatedAt := createdAt
  revokedAt := none

/-- A store of two keys. -/
def keyPair (created created' : Time) : World :=
  { (emptyPool 0).state with
    table := ⟨[firstVersion 1 created, firstVersion 2 created'], by simp [firstVersion, Row.key]⟩ }

/-- The second key has been rotated at time 3000. -/
def keyPairRotated : World :=
  { keyPair 2000 1000 with
    table := (PSQLAdapter.rotateKey googleUUID 3000 (keyPair 2000 1000).table
      ⟨BitVec.ofNat 128 2⟩ [2]).2 }

theorem rotated_commits : Commits googleUUID (keyPair 2000 1000).table keyPairRotated.table := by
  refine ⟨⟨3000, .rotateKey ⟨BitVec.ofNat 128 2⟩ [2], _, .inl rfl⟩, ?_⟩
  decide +kernel

/-- A page behind the last key is empty, and the last one. -/
theorem exists_empty_page {s : KeyService} (kms : KMS) {token : String} {c : Time} {w : World}
    (hcursor : s.Cursor token (some c))
    (hlate : ∀ r ∈ w.table.latestRows, ¬ r.createdAt < timestamptz c) :
    ∃ page w', s.Fetches kms (fun _ => true) ⟨token, 1, none⟩ w page w' ∧
      page.response.keys = [] ∧ page.response.nextPageToken = "" := by
  have hn : (1 : Int) ≤ 1 := le_rfl
  obtain ⟨page, w', hpage⟩ := exists_fetches kms (fun _ => true) none w hn hcursor
  obtain ⟨-, hresponse, ⟨cursor, hcursor', hlists⟩, hnext⟩ := fetches_facts hn hpage
  have hnone : page.keys = [] := by
    refine List.eq_nil_iff_forall_not_mem.mpr fun k hk => ?_
    obtain ⟨r, hr, -, -, hbelow⟩ := hlists.mem hk
    exact hlate r hr (hbelow c (hcursor'.unique hcursor))
  rw [hnone] at hresponse hnext
  refine ⟨page, w', hpage, hresponse, ?_⟩
  rcases hnext with ⟨-, k, hk, -⟩ | ⟨-, hend⟩
  · cases hk
  · exact hend

theorem keyPair_firstPage : ∃ page w', sampleService.Fetches sampleKMS (fun _ => true)
    ⟨"", 1, none⟩ (keyPair 2000 1000) page w' ∧ page.response.nextPageToken = "2000" ∧
      page.response.keys.length = 1 := by
  obtain ⟨resp, w', hrun, hcheck⟩ := exists_run (sampleService.listKeys ⟨"", 1, none⟩)
    (keyPair 2000 1000)
    (fun resp => decide (resp.nextPageToken = "2000" ∧ resp.keys.length = 1)) (by decide +kernel)
  obtain ⟨keys, hpage⟩ := exists_fetches_of_runs (s := sampleService) hrun
  exact ⟨⟨keys, resp⟩, w', hpage, of_decide_eq_true hcheck⟩

/-- Two pages of one key, with a rotation of the key that is still to come: it is not listed at all,
and the other one is not listed again. -/
theorem listing_once_rotated :
    ∃ p q : Page, Walk (sampleService.FetchesSome sampleKMS) (CommitsBetween googleUUID) 1 none ""
        (keyPair 2000 1000) [p, q] ∧ Finished [p, q] ∧ p.response.keys.length = 1 ∧
      q.response.keys = [] ∧ ((listed [p, q]).map (·.id)).Nodup := by
  have hn : (1 : Int) ≤ 1 := le_rfl
  have hlate : ∀ r ∈ keyPairRotated.table.latestRows, ¬ r.createdAt < timestamptz 2000 := by
    decide +kernel
  have hcursor : sampleService.Cursor "2000" (some 2000) :=
    .after (by decide) (sampleService_tokensExact.parse 2000)
  obtain ⟨p, w', hp, htoken, hlength⟩ := keyPair_firstPage
  obtain ⟨q, w'', hq, hnone, hend⟩ := exists_empty_page sampleKMS hcursor hlate
  have hsteps : CommitsBetween googleUUID w' keyPairRotated := by
    unfold CommitsBetween
    rw [(fetches_facts hn hp).1]
    exact .single rotated_commits
  have hwalk : Walk (sampleService.FetchesSome sampleKMS) (CommitsBetween googleUUID) 1 none ""
      (keyPair 2000 1000) [p, q] := by
    have hlast : Walk (sampleService.FetchesSome sampleKMS) (CommitsBetween googleUUID) 1 none
        "2000" keyPairRotated [q] := .last ⟨_, hq⟩ hend
    refine .next ⟨_, hp⟩ ?_ hsteps (htoken ▸ hlast)
    rw [htoken]
    decide
  have hresult := listing_once sampleService sampleKMS none _ sampleService_tokensExact hn hwalk
  exact ⟨p, q, hwalk, ⟨q, rfl, hend⟩, hlength, hnone, hresult.2.1⟩

/-! ## 6. What a walk through a fixed store misses

A finished walk through a fixed store is a listing in the sense of `Lib.Pages`, of the latest
rows by the time of their creation. When it is complete is a fact about such listings. -/

/-- The table stays. -/
def Still (w w' : World) : Prop := w'.table = w.table

/-- Every key of the store is on some page, with the metadata of its latest version. -/
def LosesNothing (t : Table) (pages : List Page) : Prop :=
  ∀ id r, t.latest id = some r → ∃ page ∈ pages, page.Returns r

section Fixed

variable {s : KeyService} {kms : KMS} {reads : Row → Bool} {n : Int}
  {reqContext : Option RequesterContext} {token : String} {w : World} {pages : List Page}

theorem commits_of_still {w w' : World} (h : Still w w') : CommitsBetween s.uuid w w' := by
  unfold CommitsBetween
  rw [h]

/-- A finished walk through a fixed store is a listing of its latest rows. -/
theorem Walk.paging (htokens : s.TokensExact) (hn : 1 ≤ n)
    (h : Walk (s.Fetches kms reads) Still n reqContext token w pages) (hfinished : Finished pages)
    {cursor : Option Time} (hcursor : s.Cursor token cursor) :
    ∃ rows, Paging Row.createdAt timestamptz reads n.toNat
        (beneath Row.createdAt timestamptz cursor w.table.latestRows) rows ∧
      pages.map (·.keys) = rows.map (·.map Row.scan) := by
  induction h generalizing cursor with
  | stop =>
    obtain ⟨page, hlast, -⟩ := hfinished
    cases hlast
  | last hpage hend =>
    obtain ⟨-, -, ⟨cursor', hcursor', -, rows, htop, hkeys⟩, hnext⟩ := fetches_facts hn hpage
    rw [hcursor.unique hcursor']
    have hshort : (rows.filter reads).length ≠ n.toNat := by
      rcases hnext with ⟨-, k, -, htoken⟩ | ⟨hlength, -⟩
      · exact absurd (htoken.symm.trans hend) (htokens.ne_empty _)
      · rw [hkeys, List.length_map] at hlength
        omega
    exact ⟨_, .last htop hshort, by simp [hkeys]⟩
  | @next token w w' w'' page rest hpage hgo hstill _ ih =>
    obtain ⟨htable, -, ⟨cursor', hcursor', -, rows, htop, hkeys⟩, -⟩ := fetches_facts hn hpage
    obtain ⟨hfull, k, hk, hnext⟩ := next_cursor htokens hn hpage hgo
    rw [hcursor.unique hcursor']
    obtain ⟨restRows, hpaging, hrestKeys⟩ := ih ((finished_cons hgo).mp hfinished) hnext
    rw [hkeys, List.getLast?_map, Option.map_eq_some_iff] at hk
    obtain ⟨b, hb, rfl⟩ := hk
    have hmem := htop.subset (List.mem_of_mem_filter (List.mem_of_getLast? hb))
    have hrows : w''.table = w.table := hstill.trans htable
    change Paging _ _ _ _ (beneath _ _ (some (Row.createdAt b)) _) _ at hpaging
    rw [hrows, ← beneath_beneath timestamptz_le hmem] at hpaging
    rw [hkeys, List.length_map] at hfull
    exact ⟨_, .more htop (by omega) hb hpaging, by simp [hkeys, hrestKeys]⟩

/-- **When a walk misses nothing.** -/
theorem Walk.losesNothing_iff (htokens : s.TokensExact) (hn : 1 ≤ n)
    (h : Walk (s.Fetches kms reads) Still n reqContext "" w pages) (hfinished : Finished pages) :
    LosesNothing w.table pages ↔ (∀ r ∈ w.table.latestRows, reads r = true) ∧
      Unsplit Row.createdAt timestamptz n.toNat w.table.latestRows := by
  obtain ⟨rows, hpaging, hkeys⟩ := h.paging htokens hn hfinished .start
  rw [beneath_none] at hpaging
  have hresponse := h.forall_page fun _ _ _ _ hpage => (fetches_facts hn hpage).2.1
  rw [← hpaging.complete_iff timestamptz_le w.table.nodup_latestRows]
  constructor
  · intro hall r hr
    obtain ⟨page, hpage, hreturns⟩ := hall r.id r (Table.mem_latestRows.mp hr)
    have hscan := (returns_iff (hresponse page hpage)).mp hreturns
    have hmem : page.keys ∈ rows.map (·.map Row.scan) := hkeys ▸ List.mem_map_of_mem hpage
    obtain ⟨l, hl, hpageKeys⟩ := List.mem_map.mp hmem
    rw [← hpageKeys] at hscan
    obtain ⟨r', hr', hsame⟩ := List.mem_map.mp hscan
    have hflat : r' ∈ rows.flatten := List.mem_flatten.mpr ⟨l, hl, hr'⟩
    have hid : r'.id = r.id := congrArg Key.id hsame
    exact Table.latestRows_unique (hpaging.subset hflat) hr hid ▸ hflat
  · intro hall id r hr
    have hid : r.id = id := (Table.latest_eq_some.mp hr).2.1
    obtain ⟨l, hl, hrl⟩ := List.mem_flatten.mp (hall r (Table.mem_latestRows.mpr (hid ▸ hr)))
    have hmem : l.map Row.scan ∈ pages.map (·.keys) := hkeys ▸ List.mem_map_of_mem hl
    obtain ⟨page, hpage, hpageKeys⟩ := List.mem_map.mp hmem
    refine ⟨page, hpage, (returns_iff (hresponse page hpage)).mpr ?_⟩
    rw [hpageKeys]
    exact List.mem_map_of_mem hrl

/-- A fixed store can be walked to the end. -/
theorem exists_finished_walk (htokens : s.TokensExact) (hn : 1 ≤ n) (kms : KMS)
    (reads : Row → Bool) (reqContext : Option RequesterContext) (w : World) :
    ∃ pages, Walk (s.Fetches kms reads) Still n reqContext "" w pages ∧ Finished pages := by
  have hbound : ∀ pages, Walk (s.Fetches kms reads) Still n reqContext "" w pages →
      pages.length ≤ w.table.ids.length + 1 := by
    intro pages hwalk
    have hmono : Walk (s.FetchesSome kms) (CommitsBetween s.uuid) n reqContext "" w pages :=
      hwalk.mono (fun _ _ _ _ hpage => ⟨reads, hpage⟩) fun _ _ => commits_of_still
    exact hmono.length_le htokens hn
  refine exists_finished .stop hbound fun pages hwalk => ?_
  refine hwalk.finished_or_extends htokens hn (fun _ _ _ _ hpage => ⟨reads, hpage⟩)
    (fun token cursor w hcursor => ?_) (fun _ => rfl) .start
  exact exists_fetches kms reads reqContext w hn hcursor

end Fixed

/-- **When listing loses no key.** A store that stays as it is can be walked to the end, and a walk
to the end returns every key with the metadata of its latest version if and only if every latest
row can be scanned and no page ends between rows that the cursor does not tell apart. -/
theorem listing_complete_iff (s : KeyService) (kms : KMS) (reads : Row → Bool) {n : Int}
    (reqContext : Option RequesterContext) (w : World) (htokens : s.TokensExact) (hn : 1 ≤ n) :
    (∃ pages, Walk (s.Fetches kms reads) Still n reqContext "" w pages ∧ Finished pages) ∧
      ∀ pages, Walk (s.Fetches kms reads) Still n reqContext "" w pages → Finished pages →
        (LosesNothing w.table pages ↔ (∀ r ∈ w.table.latestRows, reads r = true) ∧
          Unsplit Row.createdAt timestamptz n.toNat w.table.latestRows) :=
  ⟨exists_finished_walk htokens hn kms reads reqContext w,
    fun _ hwalk hfinished => hwalk.losesNothing_iff htokens hn hfinished⟩

/-- Two keys created at the same time are both listed where a page has room for more than two. -/
theorem listing_complete_iff_three :
    (1 : Int) ≤ 3 ∧ ∀ pages, Walk (sampleService.Fetches sampleKMS fun _ => true) Still 3 none ""
      (keyPair 1000 1000) pages → Finished pages →
        LosesNothing (keyPair 1000 1000).table pages := by
  have hn : (1 : Int) ≤ 3 := by decide
  refine ⟨hn, fun pages hwalk hfinished => ?_⟩
  refine ((listing_complete_iff sampleService sampleKMS _ none _ sampleService_tokensExact hn).2
    pages hwalk hfinished).mpr ⟨fun _ _ => rfl, unsplit_of_length_lt ?_⟩
  decide +kernel

/-- Two keys created at the same time, and pages of one key: however they come, one is lost. -/
theorem listing_loses_key :
    (∃ pages, Walk (sampleService.Fetches sampleKMS fun _ => true) Still 1 none ""
      (keyPair 1000 1000) pages ∧ Finished pages) ∧
    ∀ pages, Walk (sampleService.Fetches sampleKMS fun _ => true) Still 1 none ""
      (keyPair 1000 1000) pages → Finished pages →
        ¬ LosesNothing (keyPair 1000 1000).table pages := by
  have hn : (1 : Int) ≤ 1 := le_rfl
  refine ⟨exists_finished_walk sampleService_tokensExact hn _ _ _ _, ?_⟩
  intro pages hwalk hfinished hall
  obtain ⟨-, hunsplit⟩ := (hwalk.losesNothing_iff sampleService_tokensExact hn hfinished).mp hall
  have hout := hunsplit (firstVersion 1 1000) (by decide +kernel) 1 (by decide +kernel)
    (by decide +kernel)
  revert hout
  decide +kernel

end Polykey
