/-
# Pages below a key

A collection is handed out page by page, in descending order of a key.  What comes after a page is
what lies below the key of the page's last element, and a page that is not full ends the listing.
Keys need not be distinct, and the elements of one key come in any order, another one each time.

An element is lost when it lies below a full page and not below the KEY of that page's last
element.  `Unsplit` says of a collection that this happens nowhere, by counting: no page ends
before the last of the elements that the next page leaves out.  A listing is complete exactly then,
where every element can be handed out (`Paging.complete_iff`).

The key is compared as `cut` makes it, which may be less than it was.
-/
import Mathlib.Data.List.Sort
import Mathlib.Data.List.Perm.Subperm
import Mathlib.Data.List.Nodup

namespace Lib

section Pages

variable {α β : Type} [LinearOrder β] (key : α → β) (cut : β → β)

/-! ## 1. One page -/

/-- What a cursor leaves; no cursor leaves everything. -/
def beneath (cursor : Option β) (xs : List α) : List α :=
  xs.filter fun x => cursor.all fun c => decide (key x < cut c)

/-- The first elements, in one of the orders of descending keys. -/
def Top (n : Nat) (xs page : List α) : Prop :=
  ∃ sorted : List α, sorted.Perm xs ∧ sorted.Pairwise (fun a b => key b ≤ key a) ∧
    page = sorted.take n

variable {key cut} {n : Nat} {xs page : List α} {b : α}

theorem mem_beneath {c : β} {x : α} :
    x ∈ beneath key cut (some c) xs ↔ x ∈ xs ∧ key x < cut c := by
  simp [beneath]

theorem beneath_none (xs : List α) : beneath key cut none xs = xs := by
  simp [beneath]

/-- A cursor taken from beneath another one leaves what it leaves of that. -/
theorem beneath_beneath (hcut : ∀ c, cut c ≤ c) {cursor : Option β}
    (hb : b ∈ beneath key cut cursor xs) :
    beneath key cut (some (key b)) (beneath key cut cursor xs)
      = beneath key cut (some (key b)) xs := by
  cases cursor with
  | none => rw [beneath_none]
  | some c =>
    have hbc := (mem_beneath.mp hb).2
    simp only [beneath, Option.all_some, List.filter_filter]
    refine List.filter_congr fun x _ => ?_
    have himp : key x < cut (key b) → key x < cut c := by
      intro hx
      exact (hx.trans_le (hcut _)).trans hbc
    simpa using himp

/-- A page, and the elements it leaves. -/
theorem Top.split (h : Top key n xs page) :
    ∃ rest, (page ++ rest).Perm xs ∧ (∀ x ∈ page, ∀ y ∈ rest, key y ≤ key x) ∧
      page.length ≤ n ∧ (page.length < n → rest = []) := by
  obtain ⟨sorted, hperm, hsorted, rfl⟩ := h
  refine ⟨sorted.drop n, ?_, ?_, List.length_take_le n sorted, fun hshort => ?_⟩
  · rw [List.take_append_drop]
    exact hperm
  · rw [← List.take_append_drop n sorted, List.pairwise_append] at hsorted
    exact hsorted.2.2
  · rw [List.length_take] at hshort
    exact List.drop_eq_nil_of_le (by omega)

theorem Top.pairwise (h : Top key n xs page) : page.Pairwise fun a b => key b ≤ key a := by
  obtain ⟨sorted, -, hsorted, rfl⟩ := h
  exact hsorted.sublist (List.take_sublist n sorted)

theorem Top.subset (h : Top key n xs page) : page ⊆ xs := by
  obtain ⟨sorted, hperm, -, rfl⟩ := h
  exact fun x hx => hperm.subset (List.mem_of_mem_take hx)

theorem Top.nodup (h : Top key n xs page) (hxs : xs.Nodup) : page.Nodup := by
  obtain ⟨sorted, hperm, -, rfl⟩ := h
  exact (hperm.nodup_iff.mpr hxs).sublist (List.take_sublist n sorted)

/-- There is a page of any length. -/
theorem exists_top (key : α → β) (n : Nat) (xs : List α) :
    Top key n xs ((xs.insertionSort fun a b => key b ≤ key a).take n) := by
  have htotal : Std.Total fun a b : α => key b ≤ key a := ⟨fun a b => le_total (key b) (key a)⟩
  have htrans : IsTrans α fun a b => key b ≤ key a := ⟨fun _ _ _ hab hbc => hbc.trans hab⟩
  exact ⟨_, List.perm_insertionSort _ _, List.pairwise_insertionSort _ _, rfl⟩

/-- The last element of a page has its least key. -/
theorem le_of_getLast? (hsorted : page.Pairwise fun a b => key b ≤ key a)
    (hb : page.getLast? = some b) {x : α} (hx : x ∈ page) : key b ≤ key x := by
  obtain ⟨front, rfl⟩ := List.getLast?_eq_some_iff.mp hb
  rcases List.mem_append.mp hx with hfront | hlast
  · exact (List.pairwise_append.mp hsorted).2.2 x hfront b (List.mem_singleton_self b)
  · rw [List.mem_singleton.mp hlast]

/-! ## 2. Listings -/

variable (key cut)

/-- A listing: pages of what `reads` lets through, until one is not full. -/
inductive Paging (reads : α → Bool) (n : Nat) : List α → List (List α) → Prop
  | last {xs page : List α} (hpage : Top key n xs page)
      (hshort : (page.filter reads).length ≠ n) : Paging reads n xs [page.filter reads]
  | more {xs page : List α} {b : α} {rest : List (List α)} (hpage : Top key n xs page)
      (hfull : (page.filter reads).length = n) (hb : (page.filter reads).getLast? = some b)
      (hrest : Paging reads n (beneath key cut (some (key b)) xs) rest) :
      Paging reads n xs (page.filter reads :: rest)

/-- No page of `n` elements ends before the last element that is not below its key: where the end
of a page falls on elements with the key of `b`, what is not below that key is already out. -/
def Unsplit (n : Nat) (xs : List α) : Prop :=
  ∀ b ∈ xs, ∀ j : Nat, xs.countP (fun x => decide (key b < key x)) < j * n →
    j * n ≤ xs.countP (fun x => decide (key b ≤ key x)) →
    xs.countP (fun x => decide (cut (key b) ≤ key x)) ≤ j * n

variable {key cut} {reads : α → Bool}

/-- Nothing is handed out that is not there. -/
theorem Paging.subset {pages : List (List α)} (h : Paging key cut reads n xs pages) :
    pages.flatten ⊆ xs := by
  induction h with
  | last hpage _ =>
    intro x hx
    rw [List.flatten_singleton] at hx
    exact hpage.subset (List.mem_of_mem_filter hx)
  | more hpage _ _ _ ih =>
    intro x hx
    rcases List.mem_append.mp (List.flatten_cons ▸ hx) with hfirst | hrest
    · exact hpage.subset (List.mem_of_mem_filter hfirst)
    · exact (mem_beneath.mp (ih hrest)).1

/-- A page is full only where everything on it is let through. -/
theorem Top.filter_full (h : Top key n xs page) (hfull : (page.filter reads).length = n) :
    page.filter reads = page := by
  obtain ⟨-, -, -, hle, -⟩ := h.split
  refine List.filter_eq_self.mpr (List.length_filter_eq_length_iff.mp ?_)
  exact le_antisymm (List.length_filter_le _ _) (by omega)

/-! ## 3. A full page

Around a full page that ends in `b` the counts of `Unsplit` are known: it has room for what comes
before `b`, and it lacks nothing that is not below the key of `b` exactly when there are `n` such
elements. -/

section Full

variable (hpage : Top key n xs page) (hlength : page.length = n) (hb : page.getLast? = some b)

include hpage hlength hb

theorem countP_lt_full : xs.countP (fun x => decide (key b < key x)) < n := by
  obtain ⟨rest, hperm, hrest, -, -⟩ := hpage.split
  have hmem : b ∈ page := List.mem_of_getLast? hb
  have hnone : rest.countP (fun x => decide (key b < key x)) = 0 := by
    refine List.countP_eq_zero.mpr fun y hy => ?_
    simpa using hrest b hmem y hy
  rw [← hperm.countP_eq, List.countP_append, hnone, ← hlength, Nat.add_zero]
  refine lt_of_le_of_ne List.countP_le_length fun hall => ?_
  exact absurd (List.countP_eq_length.mp hall b hmem) (by simp)

theorem le_countP_full : n ≤ xs.countP (fun x => decide (key b ≤ key x)) := by
  obtain ⟨rest, hperm, -, -, -⟩ := hpage.split
  have hall : page.countP (fun x => decide (key b ≤ key x)) = page.length :=
    List.countP_eq_length.mpr fun x hx => by simpa using le_of_getLast? hpage.pairwise hb hx
  rw [← hperm.countP_eq, List.countP_append, hall, hlength]
  exact Nat.le_add_right n _

variable (hcut : ∀ c, cut c ≤ c)

include hcut

omit hlength in
theorem page_subset_out : page ⊆ xs.filter fun x => decide (cut (key b) ≤ key x) := by
  intro x hx
  have hle := le_of_getLast? hpage.pairwise hb hx
  exact List.mem_filter.mpr ⟨hpage.subset hx, by simpa using (hcut _).trans hle⟩

theorem le_countP_out : n ≤ xs.countP (fun x => decide (cut (key b) ≤ key x)) := by
  refine (le_countP_full hpage hlength hb).trans (List.countP_mono_left fun x _ hx => ?_)
  simp only [decide_eq_true_eq] at hx ⊢
  exact (hcut _).trans hx

/-- **What a full page lacks.** -/
theorem out_iff (hnodup : xs.Nodup) :
    (∀ x ∈ xs, cut (key b) ≤ key x → x ∈ page) ↔
      xs.countP (fun x => decide (cut (key b) ≤ key x)) ≤ n := by
  rw [List.countP_eq_length_filter]
  constructor
  · intro hall
    have hsub : (xs.filter fun x => decide (cut (key b) ≤ key x)) ⊆ page := by
      intro x hx
      obtain ⟨hmem, hle⟩ := List.mem_filter.mp hx
      exact hall x hmem (of_decide_eq_true hle)
    rw [← hlength]
    exact ((hnodup.filter _).subperm hsub).length_le
  · intro hle x hx hkey
    have hsubperm := (hpage.nodup hnodup).subperm (page_subset_out hpage hb hcut)
    have hperm := hsubperm.perm_of_length_le (by omega)
    exact hperm.mem_iff.mpr (List.mem_filter.mpr ⟨hx, by simpa using hkey⟩)

omit hpage hlength hb hcut in
/-- What holds of everything that is out is counted apart from what is beneath. -/
theorem countP_beneath {c : β} {p : α → Bool} (hp : ∀ x, cut c ≤ key x → p x = true) :
    xs.countP p = xs.countP (fun x => decide (cut c ≤ key x)) +
      (beneath key cut (some c) xs).countP p := by
  have hout : (xs.filter fun x => decide (cut c ≤ key x)).countP p
      = xs.countP fun x => decide (cut c ≤ key x) := by
    rw [List.countP_eq_length_filter, List.countP_eq_length_filter, List.filter_filter]
    refine congrArg List.length (List.filter_congr fun x _ => ?_)
    simpa using hp x
  have hbelow : (xs.filter fun x => !decide (cut c ≤ key x)) = beneath key cut (some c) xs := by
    refine List.filter_congr fun x _ => ?_
    simp [← not_lt]
  rw [List.countP_eq_countP_filter_add xs p fun x => decide (cut c ≤ key x), hout, hbelow]

/-- **One page off.**  A collection is unsplit when its first page lacks nothing and what is beneath
that page is unsplit. -/
theorem unsplit_iff (hnodup : xs.Nodup) :
    Unsplit key cut n xs ↔ xs.countP (fun x => decide (cut (key b) ≤ key x)) ≤ n ∧
      Unsplit key cut n (beneath key cut (some (key b)) xs) := by
  have hlt := countP_lt_full hpage hlength hb
  have hle := le_countP_full hpage hlength hb
  have hout := le_countP_out hpage hlength hb hcut
  have hmem : b ∈ page := List.mem_of_getLast? hb
  -- the three counts of an element beneath the page, which all the elements that are out go into
  have hcounts : ∀ x, key x < cut (key b) → ∀ p : α → Bool,
      (∀ y, key x < key y → p y = true) → xs.countP p =
        xs.countP (fun y => decide (cut (key b) ≤ key y)) +
          (beneath key cut (some (key b)) xs).countP p := by
    intro x hx p hp
    exact countP_beneath fun y hy => hp y (hx.trans_le hy)
  have hpred : ∀ x y, key x < key y → decide (key x < key y) = true ∧
      decide (key x ≤ key y) = true ∧ decide (cut (key x) ≤ key y) = true := by
    intro x y hxy
    simp [hxy, hxy.le, (hcut (key x)).trans hxy.le]
  constructor
  · intro h
    have hfirst : xs.countP (fun x => decide (cut (key b) ≤ key x)) ≤ n := by
      have hone := h b (hpage.subset hmem) 1
      rw [Nat.one_mul] at hone
      exact hone hlt hle
    refine ⟨hfirst, fun x hx j hlow hhigh => ?_⟩
    obtain ⟨hxs, hkey⟩ := mem_beneath.mp hx
    have hnext := h x hxs (j + 1)
    rw [hcounts x hkey _ fun y hy => (hpred x y hy).1,
      hcounts x hkey _ fun y hy => (hpred x y hy).2.1,
      hcounts x hkey _ fun y hy => (hpred x y hy).2.2, Nat.succ_mul] at hnext
    have := hnext (by omega) (by omega)
    omega
  · rintro ⟨hfirst, hrest⟩ x hx j hlow hhigh
    have hj : j ≠ 0 := by
      rintro rfl
      omega
    obtain ⟨i, rfl⟩ := Nat.exists_eq_succ_of_ne_zero hj
    rw [Nat.succ_mul] at hlow hhigh ⊢
    rcases lt_or_ge (key x) (cut (key b)) with hbelow | hge
    · rw [hcounts x hbelow _ fun y hy => (hpred x y hy).1] at hlow
      rw [hcounts x hbelow _ fun y hy => (hpred x y hy).2.1] at hhigh
      rw [hcounts x hbelow _ fun y hy => (hpred x y hy).2.2]
      have := hrest x (mem_beneath.mpr ⟨hx, hbelow⟩) i (by omega) (by omega)
      omega
    · -- an element of the page: the page ends with it only if it has the key of `b`
      have hpageAll := (out_iff hpage hlength hb hcut hnodup).mpr hfirst
      have hbx : key b ≤ key x := le_of_getLast? hpage.pairwise hb (hpageAll x hx hge)
      rcases hbx.eq_or_lt with heq | hgt
      · rw [← heq]
        omega
      · have hmono : xs.countP (fun y => decide (key x ≤ key y)) ≤
            xs.countP fun y => decide (key b < key y) := by
          refine List.countP_mono_left fun y _ hy => ?_
          simp only [decide_eq_true_eq] at hy ⊢
          exact hgt.trans_le hy
        omega

end Full

/-! ## 4. Complete listings

By induction on the listing: the first page takes off its elements and what is out, and the rest
is a listing of what is beneath. -/

/-- Less than a page is never split. -/
theorem unsplit_of_length_lt (h : xs.length < n) : Unsplit key cut n xs := by
  intro b _ j hlow hhigh
  have hle := List.countP_le_length (l := xs) (p := fun x => decide (key b ≤ key x))
  have hj : j = 0 := by
    by_contra hne
    have := Nat.le_mul_of_pos_left n (Nat.pos_of_ne_zero hne)
    omega
  rw [hj, Nat.zero_mul] at hlow
  omega

/-- **A listing is complete** exactly when everything is let through and no page is ended between
elements that the next one leaves out together. -/
theorem Paging.complete_iff (hcut : ∀ c, cut c ≤ c) {pages : List (List α)}
    (h : Paging key cut reads n xs pages) (hnodup : xs.Nodup) :
    (∀ x ∈ xs, x ∈ pages.flatten) ↔ (∀ x ∈ xs, reads x = true) ∧ Unsplit key cut n xs := by
  induction h with
  | @last xs page hpage hshort =>
    obtain ⟨rest, hperm, -, hle, hrest⟩ := hpage.split
    simp only [List.flatten_singleton]
    constructor
    · intro hall
      have hreads : ∀ x ∈ xs, reads x = true := fun x hx => (List.mem_filter.mp (hall x hx)).2
      have hsub : xs ⊆ page.filter reads := fun x hx => hall x hx
      have hlength := (hnodup.subperm hsub).length_le
      have := List.length_filter_le reads page
      exact ⟨hreads, unsplit_of_length_lt (by omega)⟩
    · rintro ⟨hreads, -⟩ x hx
      have hpageReads : page.filter reads = page :=
        List.filter_eq_self.mpr fun y hy => hreads y (hpage.subset hy)
      rw [hpageReads] at hshort ⊢
      rw [hrest (by omega), List.append_nil] at hperm
      exact hperm.mem_iff.mpr hx
  | @more xs page b rest hpage hfull hb hmore ih =>
    have hsame := hpage.filter_full hfull
    rw [hsame] at hfull hb ⊢
    have hpageReads := List.filter_eq_self.mp hsame
    rw [unsplit_iff hpage hfull hb hcut hnodup, ← out_iff hpage hfull hb hcut hnodup]
    have hrest := ih (hnodup.filter _)
    constructor
    · intro hall
      have hfirst : ∀ x ∈ xs, cut (key b) ≤ key x → x ∈ page := by
        intro x hx hge
        rcases List.mem_append.mp (List.flatten_cons ▸ hall x hx) with hout | hlater
        · exact hout
        · exact absurd (mem_beneath.mp (hmore.subset hlater)).2 (not_lt.mpr hge)
      have hbeneath : ∀ x ∈ beneath key cut (some (key b)) xs, x ∈ rest.flatten := by
        intro x hx
        obtain ⟨hxs, hlt⟩ := mem_beneath.mp hx
        rcases List.mem_append.mp (List.flatten_cons ▸ hall x hxs) with hout | hlater
        · have hle := (hcut _).trans (le_of_getLast? hpage.pairwise hb hout)
          exact absurd hlt (not_lt.mpr hle)
        · exact hlater
      obtain ⟨hreads, hunsplit⟩ := hrest.mp hbeneath
      refine ⟨fun x hx => ?_, hfirst, hunsplit⟩
      rcases lt_or_ge (key x) (cut (key b)) with hlt | hge
      · exact hreads x (mem_beneath.mpr ⟨hx, hlt⟩)
      · exact hpageReads x (hfirst x hx hge)
    · rintro ⟨hreads, hfirst, hunsplit⟩ x hx
      rw [List.flatten_cons]
      refine List.mem_append.mpr ?_
      rcases lt_or_ge (key x) (cut (key b)) with hlt | hge
      · have hin := mem_beneath.mpr ⟨hx, hlt⟩
        exact .inr (hrest.mpr ⟨fun y hy => hreads y (mem_beneath.mp hy).1, hunsplit⟩ x hin)
      · exact .inl (hfirst x hx hge)

end Pages

end Lib
