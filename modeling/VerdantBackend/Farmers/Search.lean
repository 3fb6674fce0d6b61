import VerdantBackend.Farmers.Model
import VerdantBackend.Lib.Like
import VerdantBackend.Routes.Projections

/-!
# Farmer search

`search_farmers` of `src/farmers/service.rs`. It counts the rows and then reads a
page of them, like the projection lists; its order is the instant of creation alone.
What the database makes of texts is the parameter `text`.
-/

namespace VerdantBackend

open Paging (Sorter)

structure SearchText where
  serde : SerdeText
  /-- `LOWER` -/
  lowering : Like.Lowering
  /-- `->>` of a value that is no string -/
  render : Json → String

/-- A row of `farmers`, the columns that a search reads. Instants count microseconds. -/
structure FarmerSearchRow where
  address : String
  id : String
  metadata : Json
  verificationMarkers : Json
  createdAt : Int

abbrev FarmersTable : Type := ProjectionTable FarmerSearchRow.address

structure FarmerSearchItem where
  address : String
  id : String
  name : String
  region : Option String
  district : Option String
  verificationCount : Int
deriving DecidableEq

abbrev FarmerSearchResponse : Type := ListResponse FarmerSearchItem

instance : Inhabited FarmerMetadata := ⟨"", none, none, none, none⟩

/-- What becomes of a row: a profile or markers that are not read are empty. -/
def FarmerSearchRow.toItem (text : SearchText) (row : FarmerSearchRow) : FarmerSearchItem :=
  let metadata := (FarmerMetadata.decode text.serde row.metadata).toOption.getD default
  let markers := (Decoder.vec text.serde (VerificationMarker.decode text.serde)
    row.verificationMarkers).toOption.getD []
  { address := row.address
    id := row.id
    name := metadata.name
    region := metadata.region
    district := metadata.district
    verificationCount := markers.length }

/-- `ORDER BY created_at DESC`. -/
def FarmerSearchRow.ListedBefore (a b : FarmerSearchRow) : Prop := b.createdAt ≤ a.createdAt

instance : DecidableRel FarmerSearchRow.ListedBefore :=
  fun a b => inferInstanceAs (Decidable (b.createdAt ≤ a.createdAt))

/-- `metadata ->> key`. -/
def SearchText.field (text : SearchText) (metadata : Json) (key : String) : Option String :=
  match metadata.get key with
  | none | some .null => none
  | some (.str s) => some s
  | some value => some (text.render value)

/-- `(metadata ->> 'name') ILIKE $1 OR ..`: a field that is NULL does not match. -/
def SearchText.matching (text : SearchText) (likePattern : String) (row : FarmerSearchRow) :
    Bool :=
  ["name", "region", "district"].any fun key => (text.field row.metadata key).any fun value =>
    text.lowering.ilike likePattern.toList value.toList = some true

/-- `search_farmers`. -/
def searchFarmers (text : SearchText) (sorter : Sorter FarmerSearchRow.ListedBefore)
    (table : FarmersTable) (q : Option String) (page pageSize : Int64) :
    Except AppError FarmerSearchResponse := do
  let page := max page 1
  let pageSize := min (max pageSize 1) 100
  let offset := (page - 1) * pageSize
  let searchPattern := q.getD ""
  let likePattern := "%" ++ searchPattern ++ "%"
  let (total, rows) ←
    if searchPattern.isEmpty then do
      let total ← (selectCount table [] fun _ => true).mapError .database
      let rows ← (selectPage sorter table [] (fun _ => true) pageSize offset).mapError .database
      pure (total, rows)
    else do
      let total ← (selectCount table [some likePattern] (text.matching likePattern)).mapError
        .database
      let rows ← (selectPage sorter table [some likePattern] (text.matching likePattern)
        pageSize offset).mapError .database
      pure (total, rows)
  let totalPages := max ((total + pageSize - 1) / pageSize) 1
  return ⟨rows.map (·.toItem text), page, pageSize, total, totalPages⟩

end VerdantBackend
