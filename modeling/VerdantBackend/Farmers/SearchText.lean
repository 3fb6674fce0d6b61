import VerdantBackend.Farmers.SearchPages

/-!
# The text of a farmer search

What is searched becomes part of a pattern as it is. A search finds the farmers whose
name, region or district contains it exactly when it holds no character that `LIKE`
gives a meaning.
-/

namespace VerdantBackend

open Paging (Sorter TiesOnOnePage pagesOf)

/-- The name, region or district of the farmer contains the text, whatever the case; an
empty text is contained in all. -/
def SearchText.Contains (text : SearchText) (q : String) (row : FarmerSearchRow) : Prop :=
  q = "" ∨ ∃ key ∈ ["name", "region", "district"], ∃ value ∈ text.field row.metadata key,
    text.lowering.Contains q.toList value.toList

instance (text : SearchText) (q : String) : DecidablePred (text.Contains q) := fun row =>
  inferInstanceAs (Decidable (q = "" ∨ ∃ key ∈ ["name", "region", "district"],
    ∃ value ∈ text.field row.metadata key, _))

/-- The rows that a substring search is to find. -/
def containingRows (text : SearchText) (table : FarmersTable) (q : String) :
    List FarmerSearchRow :=
  table.rows.filter (text.Contains q ·)

/-- The rows that are counted, and listed on the pages, are those that contain what is
searched. -/
def SubstringSearch (text : SearchText) (table : FarmersTable) (q : Option String) : Prop :=
  ∀ (sorter : Sorter FarmerSearchRow.ListedBefore) (pageSize : Int64), ∃ pages,
    SearchPartition text (containingRows text table (q.getD ""))
      (fun page => searchFarmers text sorter table q page pageSize) pages ∧
    ∀ p ∈ pages, p.pagination.total.toInt = (containingRows text table (q.getD "")).length

/-! ## Fields of a profile -/

/-- The fields of a stored profile are its texts. -/
theorem field_toJson (text : SearchText) (m : FarmerMetadata) :
    text.field m.toJson "name" = some m.name ∧ text.field m.toJson "region" = m.region ∧
      text.field m.toJson "district" = m.district := by
  rcases m with ⟨name, _ | region, _ | district, _ | bio, _ | image⟩ <;> exact ⟨rfl, rfl, rfl⟩

/-- What a row with a stored profile contains. -/
theorem contains_profile_iff {text : SearchText} {q : String} {row : FarmerSearchRow}
    {m : FarmerMetadata} (h : row.metadata = m.toJson) :
    text.Contains q row ↔ q = "" ∨ text.lowering.Contains q.toList m.name.toList ∨
      (∃ region ∈ m.region, text.lowering.Contains q.toList region.toList) ∨
      ∃ district ∈ m.district, text.lowering.Contains q.toList district.toList := by
  obtain ⟨hname, hregion, hdistrict⟩ := field_toJson text m
  rw [SearchText.Contains, h]
  simp [hname, hregion, hdistrict]

/-! ## Plain texts -/

section
variable {text : SearchText} {table : FarmersTable} {q : Option String}

theorem toList_likePattern (q : Option String) :
    (likePattern q).toList = Like.Lowering.searchPattern (q.getD "").toList := by
  rw [likePattern, String.toList_append, String.toList_append]
  rfl

theorem selects_iff {row : FarmerSearchRow} :
    text.selects q row = true ↔ q.getD "" = "" ∨
      ∃ key ∈ ["name", "region", "district"], ∃ value ∈ text.field row.metadata key,
        text.lowering.ilike (Like.Lowering.searchPattern (q.getD "").toList) value.toList =
          some true := by
  rw [SearchText.selects, SearchText.matching, Bool.or_eq_true, String.isEmpty_iff,
    toList_likePattern]
  simp only [List.any_eq_true, Option.any_eq_true, decide_eq_true_iff]
  rfl

theorem selects_iff_contains (h : Like.Plain (q.getD "").toList) {row : FarmerSearchRow} :
    text.selects q row = true ↔ text.Contains (q.getD "") row := by
  rw [selects_iff, SearchText.Contains]
  simp only [text.lowering.finds_substrings_iff.mpr h]

theorem matchingRows_eq_containingRows (h : Like.Plain (q.getD "").toList) :
    matchingRows text table q = containingRows text table (q.getD "") := by
  refine List.filter_congr fun row _ => ?_
  rw [Bool.eq_iff_iff, selects_iff_contains h, decide_eq_true_iff]

/-- The total of every page is the number of rows that match. -/
theorem total_searchPages {pageSize : Int64}
    {sorters : Nat → Sorter FarmerSearchRow.ListedBefore} {p : FarmerSearchResponse}
    (h : p ∈ searchPages text table q pageSize sorters) :
    p.pagination.total.toInt = (matchingRows text table q).length := by
  obtain ⟨n, _, rfl⟩ := List.mem_map.mp h
  have hlen := ((sorters n).perm (matchingRows text table q)).length_eq
  have hlt := length_matchingRows_lt text table q
  rw [← hlen]
  exact Int64.toInt_ofNat_of_lt (by omega)

/-- The queries of all pages take one way through ties, or no page boundary parts
farmers that tie. -/
def TiesTogether (sorters : Int64 → Sorter FarmerSearchRow.ListedBefore) (pageSize : Int64)
    (rows : List FarmerSearchRow) : Prop :=
  (∀ page, sorters page = sorters 1) ∨
    TiesOnOnePage FarmerSearchRow.ListedBefore (clampedSize pageSize) rows

/-- A plain text is searched for as a substring. -/
theorem exists_searchPartition (hq : hasNul (q.getD "") = false)
    (h : Like.Plain (q.getD "").toList) {sorters : Int64 → Sorter FarmerSearchRow.ListedBefore}
    {pageSize : Int64}
    (hties : TiesTogether sorters pageSize (containingRows text table (q.getD ""))) :
    ∃ pages, SearchPartition text (containingRows text table (q.getD ""))
      (fun page => searchFarmers text (sorters page) table q page pageSize) pages ∧
    ∀ p ∈ pages, p.pagination.total.toInt = (containingRows text table (q.getD "")).length := by
  rw [← matchingRows_eq_containingRows h] at hties ⊢
  have hsize := clampedSize_pos pageSize
  have hperm : (pagesOf (fun n => sorters (.ofNat (n + 1))) (clampedSize pageSize)
      (matchingRows text table q)).Perm (matchingRows text table q) := by
    rcases hties with hone | hties
    · rw [show (fun n => sorters (.ofNat (n + 1))) = fun _ => sorters 1 from
        funext fun n => hone _]
      exact Paging.pagesOf_const_perm _ hsize _
    · exact hties.perm hsize _
  exact ⟨_, searchPartition_of_perm hq sorters hperm, fun p hp => total_searchPages hp⟩

theorem substringSearch_of_plain (hq : hasNul (q.getD "") = false)
    (h : Like.Plain (q.getD "").toList) : SubstringSearch text table q :=
  fun _ _ => exists_searchPartition hq h (.inl fun _ => rfl)

/-- A table with one farmer of the given name. -/
def oneFarmer (name : String) : FarmersTable where
  rows := [farmerCreated "GAAAAAAAAAAAAAAAAAAAAAAAAAAAAAAAAAAAAAAAAAAAAAAAAAAAAWHF" name
    1700000000000000]
  ids := List.nodup_singleton _
  length_lt := Nat.one_lt_two_pow (by decide)

/-- What a pattern finds beyond substrings, some farmer may be called. -/
theorem not_substringSearch (hq : hasNul (q.getD "") = false)
    (h : ¬ Like.Plain (q.getD "").toList) : ∃ table, ¬ SubstringSearch text table q := by
  obtain ⟨t, hfound, hnot⟩ := text.lowering.exists_of_not_plain h
  have hne : q.getD "" ≠ "" := by
    intro hempty
    rw [hempty] at h
    exact h (by decide)
  set row := farmerCreated "GAAAAAAAAAAAAAAAAAAAAAAAAAAAAAAAAAAAAAAAAAAAAAAAAAAAAWHF"
    (String.ofList t) 1700000000000000 with hrow
  have hprofile : row.metadata = (FarmerMetadata.mk (String.ofList t) none none none none).toJson :=
    rfl
  have hselected : text.selects q row = true := by
    refine selects_iff.mpr (.inr ⟨"name", List.mem_cons_self, String.ofList t, ?_, ?_⟩)
    · rw [hprofile]
      exact (field_toJson text _).1
    · rwa [String.toList_ofList]
  have hcontains : ¬ text.Contains (q.getD "") row := by
    rw [contains_profile_iff hprofile]
    simp [hne, hnot]
  refine ⟨oneFarmer (String.ofList t), ?_⟩
  intro hsearch
  obtain ⟨pages, hpages, htotal⟩ := hsearch (Sorter.insertion _) 1
  obtain ⟨p, hp⟩ := List.exists_mem_of_ne_nil pages hpages.nonempty
  have hcount := htotal p hp
  rw [hpages.eq_searchPages hq] at hp
  rw [total_searchPages hp] at hcount
  simp [matchingRows, containingRows, oneFarmer, ← hrow, hselected, hcontains] at hcount

/-- **Substring search.** On every table the rows that are counted and returned are those
that contain what is searched, exactly when that can be bound and holds no `%`, `_` or
`\`. -/
theorem substring_search_iff (text : SearchText) (q : Option String) :
    (∀ table, SubstringSearch text table q) ↔
      hasNul (q.getD "") = false ∧ Like.Plain (q.getD "").toList := by
  constructor
  · intro h
    have hq : hasNul (q.getD "") = false := by
      obtain ⟨pages, hpages, _⟩ := h (oneFarmer "") (Sorter.insertion _) 1
      exact hpages.bindable
    refine ⟨hq, ?_⟩
    by_contra hplain
    obtain ⟨table, hnot⟩ : ∃ table, ¬ SubstringSearch text table q :=
      not_substringSearch hq hplain
    exact hnot (h table)
  · intro h table
    exact substringSearch_of_plain h.1 h.2

end

/-- A wildcard finds what does not contain it, and an escape character misses what
does. -/
theorem wildcard_search_is_no_substring_search :
    ((searchFarmers sampleSearchText (.insertion _) (oneFarmer "Ada") (some "_") 1 20).map
        fun r => (r.items.map FarmerSearchItem.name, r.pagination.total)) = .ok (["Ada"], 1) ∧
    ¬ sampleSearchText.Contains "_" ((oneFarmer "Ada").rows.get ⟨0, by decide⟩) ∧
    ((searchFarmers sampleSearchText (.insertion _) (oneFarmer "Kano\\Jigawa") (some "\\") 1
        20).map fun r => (r.items.map FarmerSearchItem.name, r.pagination.total)) =
      .ok ([], 0) ∧
    sampleSearchText.Contains "\\" ((oneFarmer "Kano\\Jigawa").rows.get ⟨0, by decide⟩) := by
  decide

end VerdantBackend
