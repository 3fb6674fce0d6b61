import VerdantBackend.Farmers.Search
import VerdantBackend.Lib.Ties
import VerdantBackend.Routes.ProjectionPages

/-!
# Pages of a farmer search

Each page is read by a query of its own, and farmers created at one instant come in
any order. The pages are the rows that match exactly when farmers of one instant are
on one page.
-/

namespace VerdantBackend

open Paging (Sorter TiesOnOnePage pagesOf)

/-! ## One page -/

/-- The pattern that is searched for. -/
def likePattern (q : Option String) : String := "%" ++ q.getD "" ++ "%"

/-- What a search binds beside the page. -/
def searchBinds (q : Option String) : List (Option String) :=
  if (q.getD "").isEmpty then [] else [some (likePattern q)]

/-- The rows that a search selects: all if nothing is searched. -/
def SearchText.selects (text : SearchText) (q : Option String) (row : FarmerSearchRow) : Bool :=
  (q.getD "").isEmpty || text.matching (likePattern q) row

/-- Page `n`, from 0, of the rows in order. -/
def searchPage (text : SearchText) (size n : Nat) (sorted : List FarmerSearchRow) :
    FarmerSearchResponse where
  items := (Paging.page size n sorted).map (·.toItem text)
  pagination := (pageResponse size n sorted).pagination

section
variable {text : SearchText} {sorter : Sorter FarmerSearchRow.ListedBefore}
  {table : FarmersTable} {q : Option String} {page pageSize : Int64} {n : Nat}

theorem storable_searchBinds_iff : Storable (searchBinds q) ↔ hasNul (q.getD "") = false := by
  rw [Storable, searchBinds]
  split
  · next h =>
    rw [String.isEmpty_iff.mp h]
    decide
  · have hpattern : hasNul (likePattern q) = hasNul (q.getD "") := by
      rw [likePattern, hasNul_append, hasNul_append]
      simp [show hasNul "%" = false by decide]
    simp [hpattern]

/-- **A search is a list** whose rows become items: its two branches issue the same
statements, of other binds. -/
theorem searchFarmers_eq :
    searchFarmers text sorter table q page pageSize =
      (listHandler sorter table (searchBinds q) (text.selects q) page pageSize).map
        fun r => ⟨r.items.map (·.toItem text), r.pagination⟩ := by
  have hselects : text.selects q = fun row =>
      (q.getD "").isEmpty || text.matching (likePattern q) row := rfl
  have hbranches : searchFarmers text sorter table q page pageSize = (do
      let total ← (selectCount table (searchBinds q) (text.selects q)).mapError .database
      let rows ← (selectPage sorter table (searchBinds q) (text.selects q)
        (normalizePageSize pageSize)
        ((normalizePage page - 1) * normalizePageSize pageSize)).mapError .database
      return ⟨rows.map (·.toItem text), normalizePage page, normalizePageSize pageSize, total,
        max ((total + normalizePageSize pageSize - 1) / normalizePageSize pageSize) 1⟩) := by
    rw [searchFarmers, searchBinds, hselects]
    cases (q.getD "").isEmpty with
    | true => simp [normalizePage, normalizePageSize]
    | false => simp [normalizePage, normalizePageSize, likePattern]
  -- counting first or last makes no difference: what cannot be bound fails both
  rw [hbranches, listHandler, selectCount]
  by_cases hnul : ((searchBinds q).any fun bind => bind.any hasNul) = true
  · rw [if_pos hnul, selectPage, if_pos hnul]
    rfl
  · rw [if_neg hnul]
    cases selectPage sorter table (searchBinds q) (text.selects q) (normalizePageSize pageSize)
      ((normalizePage page - 1) * normalizePageSize pageSize) <;> rfl

/-- What a search answers to a request for page `n + 1`. -/
theorem searchFarmers_ofNat (hq : hasNul (q.getD "") = false) (hn : n + 1 < 2 ^ 63)
    (hoffset : n * clampedSize pageSize < 2 ^ 63) :
    searchFarmers text sorter table q (.ofNat (n + 1)) pageSize =
      .ok (searchPage text (clampedSize pageSize) n
        (sorter.sort (table.rows.filter (text.selects q)))) := by
  have hindex : pageIndex (.ofNat (n + 1)) = n := pageIndex_ofNat_succ hn
  rw [searchFarmers_eq, listHandler_eq (storable_searchBinds_iff.mpr hq) (hindex.symm ▸ hoffset),
    hindex]
  rfl

/-- What the database refuses. -/
theorem searchFarmers_of_nul (hq : hasNul (q.getD "") = true) :
    searchFarmers text sorter table q page pageSize = .error (.database nulByte) := by
  have hbinds : ¬ Storable (searchBinds q) := by
    intro hstorable
    rw [storable_searchBinds_iff.mp hstorable] at hq
    cases hq
  rw [searchFarmers_eq, listHandler_refused hbinds]
  rfl

end

/-! ## All pages -/

/-- Pages 1 to `totalPages` are answered, and together list each row once. -/
structure SearchPartition (text : SearchText) (rows : List FarmerSearchRow)
    (answer : Int64 → Except AppError FarmerSearchResponse) (pages : List FarmerSearchResponse) :
    Prop where
  answered : ∀ n (h : n < pages.length), answer (.ofNat (n + 1)) = .ok (pages.get ⟨n, h⟩)
  nonempty : pages ≠ []
  totalPages : ∀ p ∈ pages, p.pagination.totalPages.toInt = pages.length
  items : (pages.flatMap ListResponse.items).Perm (rows.map (·.toItem text))
  once : ((pages.flatMap ListResponse.items).map FarmerSearchItem.address).Nodup

instance : Std.Total FarmerSearchRow.ListedBefore where
  total a b := Int.le_total b.createdAt a.createdAt

instance : IsTrans FarmerSearchRow FarmerSearchRow.ListedBefore where
  trans _ _ _ hab hbc := Int.le_trans hbc hab

section
variable {text : SearchText} {table : FarmersTable} {q : Option String} {pageSize : Int64}

/-- The rows that a search counts. -/
def matchingRows (text : SearchText) (table : FarmersTable) (q : Option String) :
    List FarmerSearchRow :=
  table.rows.filter (text.selects q)

theorem addresses_nodup (text : SearchText) (table : FarmersTable) (q : Option String) :
    ((matchingRows text table q).map FarmerSearchRow.address).Nodup :=
  (List.filter_sublist.map FarmerSearchRow.address).nodup table.ids

theorem length_matchingRows_lt (text : SearchText) (table : FarmersTable) (q : Option String) :
    (matchingRows text table q).length < 2 ^ 48 :=
  (List.length_filter_le _ _).trans_lt table.length_lt

/-- The pages that are answered. -/
def searchPages (text : SearchText) (table : FarmersTable) (q : Option String) (pageSize : Int64)
    (sorters : Nat → Sorter FarmerSearchRow.ListedBefore) : List FarmerSearchResponse :=
  (List.range (Paging.pageCount (clampedSize pageSize) (matchingRows text table q).length)).map
    fun n => searchPage text (clampedSize pageSize) n
      ((sorters n).sort (matchingRows text table q))

theorem items_searchPages (sorters : Nat → Sorter FarmerSearchRow.ListedBefore) :
    (searchPages text table q pageSize sorters).flatMap ListResponse.items =
      (pagesOf sorters (clampedSize pageSize) (matchingRows text table q)).map (·.toItem text) := by
  rw [searchPages, pagesOf, List.flatMap_map, List.map_flatMap]
  rfl

theorem totalPages_searchPage {size n : Nat} {rows : List FarmerSearchRow} (hsize : 0 < size)
    (hlen : rows.length < 2 ^ 48) :
    (searchPage text size n rows).pagination.totalPages.toInt =
      Paging.pageCount size rows.length := by
  have hcount := pageCount_lt hsize hlen
  exact Int64.toInt_ofNat_of_lt (by omega)

/-- The pages are answered, whatever is on them. -/
theorem searchPages_answered (hq : hasNul (q.getD "") = false)
    (sorters : Int64 → Sorter FarmerSearchRow.ListedBefore) {n : Nat}
    (hn : n < Paging.pageCount (clampedSize pageSize) (matchingRows text table q).length) :
    searchFarmers text (sorters (.ofNat (n + 1))) table q (.ofNat (n + 1)) pageSize =
      .ok (searchPage text (clampedSize pageSize) n
        ((sorters (.ofNat (n + 1))).sort (matchingRows text table q))) := by
  have hcount := pageCount_lt (clampedSize_pos pageSize) (length_matchingRows_lt text table q)
  exact searchFarmers_ofNat hq (by omega) (offset_lt (by omega) pageSize)

theorem length_searchPages (sorters : Nat → Sorter FarmerSearchRow.ListedBefore) :
    (searchPages text table q pageSize sorters).length =
      Paging.pageCount (clampedSize pageSize) (matchingRows text table q).length := by
  rw [searchPages, List.length_map, List.length_range]

theorem totalPages_searchPages {sorters : Nat → Sorter FarmerSearchRow.ListedBefore} {n : Nat} :
    (searchPage text (clampedSize pageSize) n
      ((sorters n).sort (matchingRows text table q))).pagination.totalPages.toInt =
        (searchPages text table q pageSize sorters).length := by
  have hlen := ((sorters n).perm (matchingRows text table q)).length_eq
  rw [totalPages_searchPage (clampedSize_pos pageSize)
    (hlen ▸ length_matchingRows_lt text table q), hlen, length_searchPages]

/-- No page is answered if the text cannot be bound. -/
theorem SearchPartition.bindable {sorters : Int64 → Sorter FarmerSearchRow.ListedBefore}
    {rows : List FarmerSearchRow} {pages : List FarmerSearchResponse}
    (h : SearchPartition text rows
      (fun page => searchFarmers text (sorters page) table q page pageSize) pages) :
    hasNul (q.getD "") = false := by
  rw [← Bool.not_eq_true]
  intro hnul
  have hfirst := h.answered 0 (List.length_pos_iff.mpr h.nonempty)
  rw [searchFarmers_of_nul hnul] at hfirst
  cases hfirst

/-- There is only one list of pages that are answered. -/
theorem SearchPartition.eq_searchPages {sorters : Int64 → Sorter FarmerSearchRow.ListedBefore}
    {rows : List FarmerSearchRow} {pages : List FarmerSearchResponse}
    (hq : hasNul (q.getD "") = false)
    (h : SearchPartition text rows
      (fun page => searchFarmers text (sorters page) table q page pageSize) pages) :
    pages = searchPages text table q pageSize fun n => sorters (.ofNat (n + 1)) := by
  have hpos : 0 < pages.length := List.length_pos_iff.mpr h.nonempty
  have hlength : pages.length =
      (searchPages text table q pageSize fun n => sorters (.ofNat (n + 1))).length := by
    have hfirst := h.answered 0 hpos
    rw [searchPages_answered hq sorters (Paging.pageCount_pos _ _), Except.ok.injEq] at hfirst
    have htotal := h.totalPages _ (List.get_mem pages ⟨0, hpos⟩)
    rw [← hfirst] at htotal
    have hfirstTotal := @totalPages_searchPages text table q pageSize
      (fun n => sorters (.ofNat (n + 1))) 0
    exact Int.ofNat_inj.mp (htotal.symm.trans hfirstTotal)
  refine List.ext_getElem hlength ?_
  intro n hn hn'
  rw [length_searchPages] at hn'
  have hanswer := h.answered n hn
  rw [searchPages_answered hq sorters hn', Except.ok.injEq] at hanswer
  simp only [searchPages, List.getElem_map, List.getElem_range]
  exact hanswer.symm

/-- What the queries read has to be the rows. -/
theorem searchPartition_of_perm (hq : hasNul (q.getD "") = false)
    (sorters : Int64 → Sorter FarmerSearchRow.ListedBefore)
    (h : (pagesOf (fun n => sorters (.ofNat (n + 1))) (clampedSize pageSize)
      (matchingRows text table q)).Perm (matchingRows text table q)) :
    SearchPartition text (matchingRows text table q)
      (fun page => searchFarmers text (sorters page) table q page pageSize)
      (searchPages text table q pageSize fun n => sorters (.ofNat (n + 1))) := by
  refine ⟨?_, ?_, ?_, ?_, ?_⟩
  · intro n hn
    rw [length_searchPages] at hn
    rw [searchPages_answered hq sorters hn]
    simp [searchPages]
  · rw [← List.length_pos_iff, length_searchPages]
    exact Paging.pageCount_pos _ _
  · intro p hp
    obtain ⟨n, _, rfl⟩ := List.mem_map.mp hp
    exact @totalPages_searchPages text table q pageSize (fun n => sorters (.ofNat (n + 1))) n
  · rw [items_searchPages]
    exact h.map _
  · rw [items_searchPages, List.map_map]
    exact (h.map _).nodup_iff.mpr (addresses_nodup text table q)

/-- **Search pages.** Whatever way each query takes, the pages list each farmer that
matches once, exactly when the text can be bound and no page boundary parts farmers
created at one instant. -/
theorem search_pages_partition_iff (text : SearchText) (table : FarmersTable)
    (q : Option String) (pageSize : Int64) :
    (∀ sorters : Int64 → Sorter FarmerSearchRow.ListedBefore, ∃ pages,
      SearchPartition text (matchingRows text table q)
        (fun page => searchFarmers text (sorters page) table q page pageSize) pages) ↔
      hasNul (q.getD "") = false ∧
        TiesOnOnePage FarmerSearchRow.ListedBefore (clampedSize pageSize)
          (matchingRows text table q) := by
  constructor
  · intro h
    have hq : hasNul (q.getD "") = false := by
      obtain ⟨pages, hpages⟩ := h fun _ => Sorter.insertion _
      exact hpages.bindable
    refine ⟨hq, ?_⟩
    by_contra hties
    obtain ⟨sorters, hrepeated⟩ := Paging.exists_repeated (clampedSize_pos pageSize) hties
    obtain ⟨pages, hpages⟩ := h fun page => sorters (page.toNatClampNeg - 1)
    -- page `n + 1` is asked for as an `i64`
    have hsame : pagesOf (fun n => sorters ((Int64.ofNat (n + 1)).toNatClampNeg - 1))
        (clampedSize pageSize) (matchingRows text table q) =
          pagesOf sorters (clampedSize pageSize) (matchingRows text table q) := by
      refine List.flatMap_congr fun n hn => ?_
      have hcount := pageCount_lt (clampedSize_pos pageSize) (length_matchingRows_lt text table q)
      rw [List.mem_range] at hn
      have hindex : (Int64.ofNat (n + 1)).toNatClampNeg - 1 = n := by
        rw [Int64.toNatClampNeg_ofNat_of_lt (by omega), Nat.add_sub_cancel]
      simp only [hindex]
    have honce := hpages.once
    rw [hpages.eq_searchPages hq, items_searchPages, hsame] at honce
    exact hrepeated honce.of_map.of_map
  · intro h
    obtain ⟨hq, hties⟩ := h
    intro sorters
    exact ⟨_, searchPartition_of_perm hq sorters (hties.perm (clampedSize_pos pageSize) _)⟩

end

/-! Two farmers created at one instant, one on a page. -/

/-- Texts in a database of collation `C`. -/
def sampleSearchText : SearchText where
  serde := ⟨fun _ => "0.0", fun s => s⟩
  lowering := .ascii
  render _ := "0"

def farmerCreated (address name : String) (createdAt : Int) : FarmerSearchRow :=
  ⟨address, farmerId address, (FarmerMetadata.mk name none none none none).toJson, .arr [],
    createdAt⟩

def twoFarmers : FarmersTable where
  rows :=
    [farmerCreated "GAAAAAAAAAAAAAAAAAAAAAAAAAAAAAAAAAAAAAAAAAAAAAAAAAAAAWHF" "Ada"
      1700000000000000,
    farmerCreated "GCATS5YOVB6ROX2WUNKGNQ2MP3GMXDMKSG2O4N5CLX3A6W4PZGZZI55U" "Bola"
      1700000000000000]
  ids := by decide
  length_lt := by decide

/-- Ties in the opposite order of the table. -/
def lastFirst : Sorter FarmerSearchRow.ListedBefore where
  sort l := l.reverse.insertionSort FarmerSearchRow.ListedBefore
  perm l := (List.perm_insertionSort _ _).trans l.reverse_perm
  sorted _ := List.pairwise_insertionSort _ _

/-- The query of the second page puts them the other way round. -/
def secondTurned (page : Int64) : Sorter FarmerSearchRow.ListedBefore :=
  if page = 2 then lastFirst else .insertion _

/-- Of two pages, both list the one and none the other. -/
theorem tied_farmers_repeat :
    (∀ page ∈ [(1 : Int64), 2],
      (searchFarmers sampleSearchText (secondTurned page) twoFarmers none page 1).map
          (fun r => (r.items.map FarmerSearchItem.name, r.pagination)) =
        .ok (["Ada"], ⟨page, 1, 2, 2⟩)) ∧
    ¬ ∃ pages, SearchPartition sampleSearchText twoFarmers.rows
      (fun page => searchFarmers sampleSearchText (secondTurned page) twoFarmers none page 1)
      pages := by
  refine ⟨List.forall_mem_cons.mpr ⟨by decide, List.forall_mem_singleton.mpr (by decide)⟩, ?_⟩
  intro h
  obtain ⟨pages, hpages⟩ := h
  have honce := hpages.once
  rw [hpages.eq_searchPages (by decide)] at honce
  exact absurd honce (by decide)

end VerdantBackend
