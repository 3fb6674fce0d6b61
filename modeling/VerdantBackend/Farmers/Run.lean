import VerdantBackend.Farmers.Profile
import VerdantBackend.Indexer.Identity
import VerdantBackend.Lib.Calls

/-!
# Runs over the table `farmers`

Calls of `register_farmer` and `update_metadata` and the identity events of the
indexer, one after the other, from an empty table and an empty chain. What one
step does to the row of an address is said once; every invariant of the table
follows from it.
-/

namespace VerdantBackend

open Prog

/-- A step that has ended: a call with its request and result, or an identity
event, which the database applied or refused. -/
inductive FarmerEvent where
  | registered (req : RegisterFarmerRequest) (actor : String) (r : Except AppError Farmer)
  | updated (input : String) (req : UpdateMetadataRequest) (actor : String)
      (r : Except AppError Farmer)
  | applied (c : IdentityChange)
  | refused (c : IdentityChange)

/-- The farmer that a call returned. -/
def FarmerEvent.returned : FarmerEvent → Option Farmer
  | .registered _ _ r | .updated _ _ _ r => r.toOption
  | .applied _ | .refused _ => none

section
variable (crypto : FarmerCrypto) (F : Failures farmerStmts FarmerWorld)
  (G : FarmerWorld → IdentityChange → Prop)

/-- One step. `F` are the failures from outside, and `G` is what is assumed of an
identity event and the world it comes to. -/
inductive FarmerCall : FarmerWorld → FarmerEvent → FarmerWorld → Prop where
  | register {w w' req actor r} : Ends execFarmers F (registerFarmer crypto req actor) w r w' →
      FarmerCall w (.registered req actor r) w'
  | update {w w' input req actor r} :
      Ends execFarmers F (updateMetadata crypto input req actor) w r w' →
      FarmerCall w (.updated input req actor r) w'
  | apply {w c farmers} : G w c → c.build w.farmers = .ok farmers →
      FarmerCall w (.applied c) { w with farmers }
  | refuse {w c} : FarmerCall w (.refused c) w

/-- Steps from empty tables on, the latest first. -/
abbrev FarmerRun : List FarmerEvent → FarmerWorld → Prop :=
  Trail (FarmerCall crypto F G) .empty

/-- What a step may make of the row of the address `a`. -/
inductive RowEffect (w : FarmerWorld) (a : String) : FarmerEvent → Option FarmerRow → Prop where
  | same {e} : (∀ farmer, e.returned = some farmer → farmer.address ≠ a) →
      RowEffect w a e (w.farmers.lookup a)
  | inserted {req actor farmer} : checkRegister crypto req actor = .ok a →
      w.farmers.lookup a = none →
      RowEffect w a (.registered req actor (.ok (registeredFarmer crypto req.metadata a farmer)))
        (some (registeredRow crypto req.metadata a farmer))
  | profiled {input req actor r row ledger} : checkUpdate crypto input req actor = .ok a →
      w.farmers.lookup a = some row →
      RowEffect w a (.updated input req actor r)
        (some (updatedRow crypto req.metadata ledger row))
  | identity {c} : G w c → c.address = a → RowEffect w a (.applied c) (c.after (w.farmers.lookup a))

end

section
variable {crypto : FarmerCrypto} {F : Failures farmerStmts FarmerWorld}
  {G : FarmerWorld → IdentityChange → Prop} {w w' : FarmerWorld} {a : String}

theorem readFarmer_address {address : String} {row : Option FarmerRow} {farmer : Farmer}
    (h : readFarmer crypto address row = .ok farmer) :
    farmer.address = address ∧ row ≠ none := by
  cases row with
  | none => cases h
  | some row =>
      rw [readFarmer] at h
      cases hm : FarmerMetadata.decode crypto.text row.metadata with
      | error e =>
          rw [hm] at h
          cases h
      | ok metadata =>
          rw [hm] at h
          cases hv : Decoder.vec crypto.text (VerificationMarker.decode crypto.text)
              row.verificationMarkers with
          | error e =>
              rw [hv] at h
              cases h
          | ok markers =>
              rw [hv] at h
              cases h
              exact ⟨rfl, Option.some_ne_none row⟩

theorem RowEffect.of_error {e : FarmerEvent} (h : e.returned = none) :
    RowEffect crypto G w a e (w.farmers.lookup a) := by
  refine .same fun farmer hf => ?_
  rw [h] at hf
  cases hf

theorem register_row {req : RegisterFarmerRequest} {actor : String} {r : Except AppError Farmer}
    (h : RegisterOutcome crypto F req actor w r w') :
    RowEffect crypto G w a (.registered req actor r) (w'.farmers.lookup a) := by
  cases h with
  | refused | chainFailed | insertFailed => exact .of_error rfl
  | @registered address farmer chain farmers hc hchain hinsert =>
      obtain ⟨hnew, rfl⟩ := insertFarmer_ok hinsert
      show RowEffect crypto G w a _ ((w.farmers.insert address _).lookup a)
      by_cases ha : a = address
      · subst ha
        rw [Finmap.lookup_insert]
        exact .inserted hc (Finmap.lookup_eq_none.mpr hnew)
      · rw [Finmap.lookup_insert_of_ne _ ha]
        refine .same fun farmer hf => ?_
        cases hf
        exact fun heq => ha heq.symm

/-- The `UPDATE`, with what is returned after it. -/
theorem updateFarmer_row {input address : String} {req : UpdateMetadataRequest} {actor : String}
    {r : Except AppError Farmer} {ledger : Int} {farmers : Table String FarmerRow}
    (hc : checkUpdate crypto input req actor = .ok address)
    (hupdate : updateFarmer w.farmers address req.metadata.toJson
      (metadataHash crypto req.metadata) ledger = .ok farmers)
    (hr : ∀ farmer, r = .ok farmer →
      farmer.address = address ∧ farmers.lookup address ≠ none) :
    RowEffect crypto G w a (.updated input req actor r) (farmers.lookup a) := by
  have haddress := address_noNul (parse_ok (checkUpdate_ok hc).1)
  obtain ⟨_, rfl⟩ := (updateFarmer_ok_iff haddress).mp hupdate
  have hreturned : ∀ farmer, (FarmerEvent.updated input req actor r).returned = some farmer →
      r = .ok farmer := by
    intro farmer hf
    cases r with
    | error e => cases hf
    | ok f =>
        cases hf
        rfl
  cases hrow : w.farmers.lookup address with
  | none =>
      rw [hrow] at hr
      show RowEffect crypto G w a _ (w.farmers.lookup a)
      exact .same fun farmer hf => absurd hrow (hr farmer (hreturned farmer hf)).2
  | some row =>
      show RowEffect crypto G w a _ ((w.farmers.insert address _).lookup a)
      by_cases ha : a = address
      · subst ha
        rw [Finmap.lookup_insert]
        exact .profiled hc hrow
      · rw [Finmap.lookup_insert_of_ne _ ha]
        refine .same fun farmer hf heq => ha ?_
        rw [← heq, (hr farmer (hreturned farmer hf)).1]

theorem update_row {input : String} {req : UpdateMetadataRequest} {actor : String}
    {r : Except AppError Farmer} (h : UpdateOutcome crypto F input req actor w r w') :
    RowEffect crypto G w a (.updated input req actor r) (w'.farmers.lookup a) := by
  cases h with
  | refused | chainFailed | updateFailed => exact .of_error rfl
  | selectFailed hc _ hupdate _ =>
      refine updateFarmer_row hc hupdate fun farmer hf => ?_
      cases hf
  | read hc _ hupdate => exact updateFarmer_row hc hupdate fun farmer => readFarmer_address

/-- **What a step may make of a row.** -/
theorem FarmerCall.row {e : FarmerEvent} (h : FarmerCall crypto F G w e w') (a : String) :
    RowEffect crypto G w a e (w'.farmers.lookup a) := by
  cases h with
  | register h => exact register_row (register_ends_iff.mp h)
  | update h => exact update_row (update_ends_iff.mp h)
  | @apply c farmers hG hbuild =>
      show RowEffect crypto G w a _ (farmers.lookup a)
      rw [IdentityChange.build_lookup hbuild a, RowChange.on]
      show RowEffect crypto G w a _ (if c.address = a then _ else _)
      by_cases ha : c.address = a
      · rw [if_pos ha]
        exact .identity hG ha
      · rw [if_neg ha]
        exact .of_error rfl
  | refuse => exact .of_error rfl

/-- **Invariants of one address**: what holds without a row and is kept by every
effect on the row holds in every state of a run. -/
theorem FarmerRun.row_invariant {P : List FarmerEvent → Option FarmerRow → Prop}
    {past : List FarmerEvent} (h : FarmerRun crypto F G past w) (a : String)
    (hstart : P [] none)
    (hstep : ∀ past w e row, P past (w.farmers.lookup a) → RowEffect crypto G w a e row →
      P (e :: past) row) :
    P past (w.farmers.lookup a) :=
  h.invariant (P := fun past w => P past (w.farmers.lookup a)) hstart
    fun past w e _ hP hcall => hstep past w e _ hP (hcall.row a)

end

end VerdantBackend
