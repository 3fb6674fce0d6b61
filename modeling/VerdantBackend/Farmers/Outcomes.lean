import VerdantBackend.Farmers.Service

/-!
# Outcomes of the farmer service

All that `register_farmer`, `update_metadata` and `get_farmer` can do when any
of their statements may fail: the checks, then one outcome for each place at
which they stop.
-/

namespace VerdantBackend

open Prog

/-! ## What comes before and after the statements -/

/-- The checks of `register_farmer`: the address, or the first error. -/
def checkRegister (crypto : FarmerCrypto) (req : RegisterFarmerRequest) (actor : String) :
    Except AppError String := do
  let address ← parseFarmerIdentifier crypto req.address
  if actor ≠ address then .error (.unauthorized ERR_UNAUTHORIZED_ACTOR)
  else if (trim req.metadata.name.toList).isEmpty then
    .error (.badRequest "metadata.name must be non-empty")
  else if req.metadataHash.any fun provided => provided ≠ metadataHash crypto req.metadata then
    .error (.badRequest "provided metadataHash does not match canonical hash")
  else .ok address

/-- The checks of `update_metadata`. -/
def checkUpdate (crypto : FarmerCrypto) (address : String) (req : UpdateMetadataRequest)
    (actor : String) : Except AppError String := do
  let address ← parseFarmerIdentifier crypto address
  if actor ≠ address then .error (.unauthorized ERR_UNAUTHORIZED_ACTOR)
  else if (trim req.metadata.name.toList).isEmpty then
    .error (.badRequest "metadata.name must be non-empty")
  else .ok address

/-- The row `register_farmer` inserts. -/
def registeredRow (crypto : FarmerCrypto) (metadata : FarmerMetadata) (address : String)
    (chainFarmer : ChainFarmer) : FarmerRow where
  id := farmerId address
  metadata := metadata.toJson
  metadataHash := metadataHash crypto metadata
  registered := true
  createdLedger := some chainFarmer.createdLedger
  updatedLedger := some chainFarmer.updatedLedger
  verificationMarkers := .arr []

/-- The value `register_farmer` returns. -/
def registeredFarmer (crypto : FarmerCrypto) (metadata : FarmerMetadata) (address : String)
    (chainFarmer : ChainFarmer) : Farmer where
  address := address
  id := farmerId address
  registered := true
  createdLedger := some chainFarmer.createdLedger
  updatedLedger := some chainFarmer.updatedLedger
  metadata := metadata
  metadataHash := metadataHash crypto metadata
  verificationMarkers := []

/-- What `get_farmer` makes of the row it finds. -/
def readFarmer (crypto : FarmerCrypto) (address : String) :
    Option FarmerRow → Except AppError Farmer
  | none => .error (.notFound s!"farmer {address} not found")
  | some row => do
    let metadata ← (FarmerMetadata.decode crypto.text row.metadata).mapError fun e =>
      AppError.internal s!"metadata decode: {e}"
    let markers ← (Decoder.vec crypto.text (VerificationMarker.decode crypto.text)
      row.verificationMarkers).mapError fun e => AppError.internal s!"markers decode: {e}"
    return {
      address
      id := row.id
      registered := row.registered
      createdLedger := row.createdLedger
      updatedLedger := row.updatedLedger
      metadata
      metadataHash := row.metadataHash
      verificationMarkers := markers }

/-! ## The programs after their checks -/

theorem registerFarmer_eq (crypto : FarmerCrypto) (req : RegisterFarmerRequest)
    (actor : String) :
    registerFarmer crypto req actor =
      (.done (checkRegister crypto req actor)) >>= fun address =>
        (call (I := farmerStmts)
          (.chainRegister address (metadataHash crypto req.metadata))).mapErr mapChainError >>=
            fun chainFarmer =>
        (call (I := farmerStmts) (.insertFarmer address
          (registeredRow crypto req.metadata address chainFarmer))).mapErr .database >>=
            fun _ => pure (registeredFarmer crypto req.metadata address chainFarmer) := by
  rw [registerFarmer, checkRegister]
  cases parseFarmerIdentifier crypto req.address with
  | error e => rfl
  | ok address =>
      show (if actor ≠ address then _ else _) =
        Prog.done (if actor ≠ address then _ else _) >>= _
      by_cases hactor : actor ≠ address
      · rw [if_pos hactor, if_pos hactor]
        rfl
      rw [if_neg hactor, if_neg hactor]
      by_cases hname : (trim req.metadata.name.toList).isEmpty
      · rw [if_pos hname, if_pos hname]
        rfl
      rw [if_neg hname, if_neg hname]
      show (if Option.any _ req.metadataHash = true then _ else _) = _
      split
      · rfl
      · rfl

theorem getFarmer_eq (crypto : FarmerCrypto) (address : String) :
    getFarmer crypto address =
      (.done (parseFarmerIdentifier crypto address)) >>= fun address =>
        (call (I := farmerStmts) (.selectFarmer address)).mapErr .database >>= fun found =>
          .done (readFarmer crypto address found) := by
  rw [getFarmer]
  cases parseFarmerIdentifier crypto address with
  | error e => rfl
  | ok address =>
      show Prog.stmt _ _ = Prog.stmt _ _
      congr 1
      funext found
      rcases found with e | _ | row
      · rfl
      · rfl
      show (Prog.done ((FarmerMetadata.decode crypto.text row.metadata).mapError _) >>= _ :
        Prog farmerStmts AppError Farmer) = .done (readFarmer crypto address (some row))
      rw [readFarmer]
      cases FarmerMetadata.decode crypto.text row.metadata with
      | error e => rfl
      | ok metadata =>
          show (Prog.done (Except.mapError _ (Decoder.vec crypto.text
            (VerificationMarker.decode crypto.text) row.verificationMarkers)) >>= _ :
              Prog farmerStmts AppError Farmer) = _
          cases Decoder.vec crypto.text (VerificationMarker.decode crypto.text)
            row.verificationMarkers <;> rfl

theorem updateMetadata_eq (crypto : FarmerCrypto) (address : String)
    (req : UpdateMetadataRequest) (actor : String) :
    updateMetadata crypto address req actor =
      (.done (checkUpdate crypto address req actor)) >>= fun address =>
        (call (I := farmerStmts)
          (.chainUpdate address (metadataHash crypto req.metadata))).mapErr mapChainError >>=
            fun chainFarmer =>
        (call (I := farmerStmts) (.updateFarmer address req.metadata.toJson
          (metadataHash crypto req.metadata) chainFarmer.updatedLedger)).mapErr .database >>=
            fun _ => getFarmer crypto address := by
  rw [updateMetadata, checkUpdate]
  cases parseFarmerIdentifier crypto address with
  | error e => rfl
  | ok address =>
      show (if actor ≠ address then _ else _) =
        Prog.done (if actor ≠ address then _ else _) >>= _
      by_cases hactor : actor ≠ address
      · rw [if_pos hactor, if_pos hactor]
        rfl
      rw [if_neg hactor, if_neg hactor]
      by_cases hname : (trim req.metadata.name.toList).isEmpty
      · rw [if_pos hname, if_pos hname]
        rfl
      · rw [if_neg hname, if_neg hname]
        rfl

/-! ## Outcomes -/

section
variable (crypto : FarmerCrypto) (F : Failures farmerStmts FarmerWorld)

/-- What `register_farmer` may end with, from the world `w`. -/
inductive RegisterOutcome (req : RegisterFarmerRequest) (actor : String) (w : FarmerWorld) :
    Except AppError Farmer → FarmerWorld → Prop where
  | refused {e} : checkRegister crypto req actor = .error e →
      RegisterOutcome req actor w (.error e) w
  | chainFailed {address e} : checkRegister crypto req actor = .ok address →
      F (.chainRegister address (metadataHash crypto req.metadata)) w e →
      RegisterOutcome req actor w (.error (mapChainError e)) w
  | insertFailed {address farmer chain e} : checkRegister crypto req actor = .ok address →
      w.chain.registerFarmer address = .ok (farmer, chain) →
      F (.insertFarmer address (registeredRow crypto req.metadata address farmer))
        { w with chain } e →
      RegisterOutcome req actor w (.error (.database e)) { w with chain }
  | registered {address farmer chain farmers} : checkRegister crypto req actor = .ok address →
      w.chain.registerFarmer address = .ok (farmer, chain) →
      insertFarmer w.farmers address (registeredRow crypto req.metadata address farmer) =
        .ok farmers →
      RegisterOutcome req actor w (.ok (registeredFarmer crypto req.metadata address farmer))
        ⟨chain, farmers⟩

/-- What `update_metadata` may end with. The last two outcomes are those of the
`get_farmer` it ends with. -/
inductive UpdateOutcome (input : String) (req : UpdateMetadataRequest) (actor : String)
    (w : FarmerWorld) : Except AppError Farmer → FarmerWorld → Prop where
  | refused {e} : checkUpdate crypto input req actor = .error e →
      UpdateOutcome input req actor w (.error e) w
  | chainFailed {address e} : checkUpdate crypto input req actor = .ok address →
      F (.chainUpdate address (metadataHash crypto req.metadata)) w e →
      UpdateOutcome input req actor w (.error (mapChainError e)) w
  | updateFailed {address farmer chain e} : checkUpdate crypto input req actor = .ok address →
      w.chain.updateMetadata address = .ok (farmer, chain) →
      F (.updateFarmer address req.metadata.toJson (metadataHash crypto req.metadata)
        farmer.updatedLedger) { w with chain } e →
      UpdateOutcome input req actor w (.error (.database e)) { w with chain }
  | selectFailed {address farmer chain farmers e} :
      checkUpdate crypto input req actor = .ok address →
      w.chain.updateMetadata address = .ok (farmer, chain) →
      updateFarmer w.farmers address req.metadata.toJson (metadataHash crypto req.metadata)
        farmer.updatedLedger = .ok farmers →
      F (.selectFarmer address) ⟨chain, farmers⟩ e →
      UpdateOutcome input req actor w (.error (.database e)) ⟨chain, farmers⟩
  | read {address farmer chain farmers} : checkUpdate crypto input req actor = .ok address →
      w.chain.updateMetadata address = .ok (farmer, chain) →
      updateFarmer w.farmers address req.metadata.toJson (metadataHash crypto req.metadata)
        farmer.updatedLedger = .ok farmers →
      UpdateOutcome input req actor w (readFarmer crypto address (farmers.lookup address))
        ⟨chain, farmers⟩

/-- What `get_farmer` may end with: the world is left as it is. -/
inductive GetOutcome (input : String) (w : FarmerWorld) : Except AppError Farmer → Prop where
  | refused {e} : parseFarmerIdentifier crypto input = .error e → GetOutcome input w (.error e)
  | selectFailed {address e} : parseFarmerIdentifier crypto input = .ok address →
      F (.selectFarmer address) w e → GetOutcome input w (.error (.database e))
  | read {address} : parseFarmerIdentifier crypto input = .ok address →
      GetOutcome input w (readFarmer crypto address (w.farmers.lookup address))

end

section
variable {crypto : FarmerCrypto} {F : Failures farmerStmts FarmerWorld} {w w' : FarmerWorld}
  {r : Except AppError Farmer}

theorem execFarmers_chainRegister {address hash : String} {farmer : ChainFarmer} :
    execFarmers (.chainRegister address hash) w = .ok (farmer, w') ↔
      ∃ chain, w.chain.registerFarmer address = .ok (farmer, chain) ∧ w' = { w with chain } := by
  rw [execFarmers]
  exact Interface.answered_part_iff (f := fun chain => { w with chain })

theorem execFarmers_chainUpdate {address hash : String} {farmer : ChainFarmer} :
    execFarmers (.chainUpdate address hash) w = .ok (farmer, w') ↔
      ∃ chain, w.chain.updateMetadata address = .ok (farmer, chain) ∧ w' = { w with chain } := by
  rw [execFarmers]
  exact Interface.answered_part_iff (f := fun chain => { w with chain })

theorem execFarmers_insertFarmer {address : String} {row : FarmerRow} {u : Unit} :
    execFarmers (.insertFarmer address row) w = .ok (u, w') ↔
      ∃ farmers, insertFarmer w.farmers address row = .ok farmers ∧ w' = { w with farmers } := by
  rw [execFarmers]
  exact Interface.done_part_iff (f := fun farmers => { w with farmers })

theorem execFarmers_updateFarmer {address hash : String} {metadata : Json} {ledger : Int}
    {u : Unit} :
    execFarmers (.updateFarmer address metadata hash ledger) w = .ok (u, w') ↔
      ∃ farmers, updateFarmer w.farmers address metadata hash ledger = .ok farmers ∧
        w' = { w with farmers } := by
  rw [execFarmers]
  exact Interface.done_part_iff (f := fun farmers => { w with farmers })

/-- A valid address is base32, so it can be asked for. -/
theorem execFarmers_selectFarmer {address : String} (h : hasNul address = false) :
    execFarmers (.selectFarmer address) w = .ok (w.farmers.lookup address, w) := by
  simp [execFarmers, h]

/-- **All outcomes of `register_farmer`.** -/
theorem register_ends_iff {req : RegisterFarmerRequest} {actor : String} :
    Ends execFarmers F (registerFarmer crypto req actor) w r w' ↔
      RegisterOutcome crypto F req actor w r w' := by
  rw [registerFarmer_eq]
  constructor
  · intro h
    rcases ends_done_bind_iff.mp h with ⟨e, hc, rfl, rfl⟩ | ⟨address, hc, h⟩
    · exact .refused hc
    rcases ends_call_bind_iff.mp h with ⟨e, hF, rfl, rfl⟩ | ⟨farmer, _, hx, h⟩
    · exact .chainFailed hc hF
    obtain ⟨chain, hchain, rfl⟩ := execFarmers_chainRegister.mp hx
    rcases ends_call_bind_iff.mp h with ⟨e, hF, rfl, rfl⟩ | ⟨_, _, hi, h⟩
    · exact .insertFailed hc hchain hF
    obtain ⟨farmers, hinsert, rfl⟩ := execFarmers_insertFarmer.mp hi
    obtain ⟨rfl, rfl⟩ := ends_done_iff.mp h
    exact .registered hc hchain hinsert
  · intro h
    refine ends_done_bind_iff.mpr ?_
    cases h with
    | refused hc => exact .inl ⟨_, hc, rfl, rfl⟩
    | chainFailed hc hF =>
        exact .inr ⟨_, hc, ends_call_bind_iff.mpr (.inl ⟨_, hF, rfl, rfl⟩)⟩
    | insertFailed hc hx hF =>
        refine .inr ⟨_, hc, ends_call_bind_iff.mpr (.inr ⟨_, _,
          execFarmers_chainRegister.mpr ⟨_, hx, rfl⟩, ?_⟩)⟩
        exact ends_call_bind_iff.mpr (.inl ⟨_, hF, rfl, rfl⟩)
    | registered hc hx hi =>
        refine .inr ⟨_, hc, ends_call_bind_iff.mpr (.inr ⟨_, _,
          execFarmers_chainRegister.mpr ⟨_, hx, rfl⟩, ?_⟩)⟩
        refine ends_call_bind_iff.mpr (.inr ⟨(), _,
          execFarmers_insertFarmer.mpr ⟨_, hi, rfl⟩, ?_⟩)
        exact ends_done_iff.mpr ⟨rfl, rfl⟩

/-! A valid identifier, read back. -/

theorem address_noNul {address : String} (h : crypto.isPublicKey address = true) :
    hasNul address = false := by
  rw [hasNul_eq_false_iff]
  intro hc
  rcases crypto.base32 address h _ hc with hup | hdig
  · exact absurd hup (by decide)
  · exact absurd hdig (by decide)

theorem parse_ok {input address : String} (h : parseFarmerIdentifier crypto input = .ok address) :
    crypto.isPublicKey address = true := by
  rw [parseFarmerIdentifier] at h
  split at h
  · next hkey =>
    cases h
    exact hkey
  · cases h

/-- A public key has no prefix to strip: it holds no colon. -/
theorem parse_address {address : String} (h : crypto.isPublicKey address = true) :
    parseFarmerIdentifier crypto address = .ok address := by
  have hstrip : stripFarmerPrefix address = address := by
    rw [stripFarmerPrefix, if_neg]
    intro hprefix
    have hcolon : ':' ∈ address.toList := hprefix.subset (by decide)
    rcases crypto.base32 address h ':' hcolon with hup | hdig
    · exact absurd hup (by decide)
    · exact absurd hdig (by decide)
  rw [parseFarmerIdentifier, hstrip]
  exact if_pos h

/-- The presentation form stands for the address. -/
theorem parse_farmerId {address : String} (h : crypto.isPublicKey address = true) :
    parseFarmerIdentifier crypto (farmerId address) = .ok address := by
  have hlist : (farmerId address).toList = FARMER_ID_PREFIX.toList ++ address.toList :=
    String.toList_append
  have hstrip : stripFarmerPrefix (farmerId address) = address := by
    rw [stripFarmerPrefix, hlist, if_pos (List.prefix_append _ _), List.drop_left,
      String.ofList_toList]
  rw [parseFarmerIdentifier, hstrip]
  exact if_pos h

theorem checkRegister_ok {req : RegisterFarmerRequest} {actor address : String}
    (h : checkRegister crypto req actor = .ok address) :
    parseFarmerIdentifier crypto req.address = .ok address ∧ actor = address := by
  rw [checkRegister] at h
  cases hp : parseFarmerIdentifier crypto req.address with
  | error e =>
      rw [hp] at h
      cases h
  | ok a =>
      rw [hp] at h
      change (if actor ≠ a then _ else _) = _ at h
      split at h
      · cases h
      split at h
      · cases h
      split at h
      · cases h
      · next hactor _ _ =>
        cases h
        exact ⟨rfl, not_not.mp hactor⟩

theorem checkUpdate_ok {input : String} {req : UpdateMetadataRequest} {actor address : String}
    (h : checkUpdate crypto input req actor = .ok address) :
    parseFarmerIdentifier crypto input = .ok address ∧ actor = address := by
  rw [checkUpdate] at h
  cases hp : parseFarmerIdentifier crypto input with
  | error e =>
      rw [hp] at h
      cases h
  | ok a =>
      rw [hp] at h
      change (if actor ≠ a then _ else _) = _ at h
      split at h
      · cases h
      split at h
      · cases h
      · next hactor _ =>
        cases h
        exact ⟨rfl, not_not.mp hactor⟩

/-- A request of the farmer's own, with a name, passes. -/
theorem checkRegister_own {address : String} {metadata : FarmerMetadata}
    (hkey : crypto.isPublicKey address = true)
    (hname : (trim metadata.name.toList).isEmpty = false) :
    checkRegister crypto ⟨address, metadata, none⟩ address = .ok address := by
  rw [checkRegister, parse_address hkey]
  show (if address ≠ address then _ else _) = _
  rw [if_neg (not_not.mpr rfl), hname]
  rfl

theorem checkUpdate_own {input address : String} {metadata : FarmerMetadata}
    (hparse : parseFarmerIdentifier crypto input = .ok address)
    (hname : (trim metadata.name.toList).isEmpty = false) :
    checkUpdate crypto input ⟨metadata⟩ address = .ok address := by
  rw [checkUpdate, hparse]
  show (if address ≠ address then _ else _) = _
  rw [if_neg (not_not.mpr rfl), hname]
  rfl

/-- **All outcomes of `get_farmer`.** -/
theorem get_ends_iff {input : String} :
    Ends execFarmers F (getFarmer crypto input) w r w' ↔
      GetOutcome crypto F input w r ∧ w' = w := by
  rw [getFarmer_eq]
  constructor
  · intro h
    rcases ends_done_bind_iff.mp h with ⟨e, hc, rfl, rfl⟩ | ⟨address, hc, h⟩
    · exact ⟨.refused hc, rfl⟩
    rcases ends_call_bind_iff.mp h with ⟨e, hF, rfl, rfl⟩ | ⟨found, _, hx, h⟩
    · exact ⟨.selectFailed hc hF, rfl⟩
    rw [execFarmers_selectFarmer (address_noNul (parse_ok hc))] at hx
    cases hx
    obtain ⟨rfl, rfl⟩ := ends_done_iff.mp h
    exact ⟨.read hc, rfl⟩
  · rintro ⟨h, rfl⟩
    refine ends_done_bind_iff.mpr ?_
    cases h with
    | refused hc => exact .inl ⟨_, hc, rfl, rfl⟩
    | selectFailed hc hF =>
        exact .inr ⟨_, hc, ends_call_bind_iff.mpr (.inl ⟨_, hF, rfl, rfl⟩)⟩
    | read hc =>
        refine .inr ⟨_, hc, ends_call_bind_iff.mpr (.inr ⟨_, _,
          execFarmers_selectFarmer (address_noNul (parse_ok hc)), ?_⟩)⟩
        exact ends_done_iff.mpr ⟨rfl, rfl⟩

/-- **All outcomes of `update_metadata`.** -/
theorem update_ends_iff {input : String} {req : UpdateMetadataRequest} {actor : String} :
    Ends execFarmers F (updateMetadata crypto input req actor) w r w' ↔
      UpdateOutcome crypto F input req actor w r w' := by
  rw [updateMetadata_eq]
  constructor
  · intro h
    rcases ends_done_bind_iff.mp h with ⟨e, hc, rfl, rfl⟩ | ⟨address, hc, h⟩
    · exact .refused hc
    rcases ends_call_bind_iff.mp h with ⟨e, hF, rfl, rfl⟩ | ⟨farmer, _, hx, h⟩
    · exact .chainFailed hc hF
    obtain ⟨chain, hchain, rfl⟩ := execFarmers_chainUpdate.mp hx
    rcases ends_call_bind_iff.mp h with ⟨e, hF, rfl, rfl⟩ | ⟨_, _, hu, h⟩
    · exact .updateFailed hc hchain hF
    obtain ⟨farmers, hupdate, rfl⟩ := execFarmers_updateFarmer.mp hu
    have hparse := parse_address (parse_ok (checkUpdate_ok hc).1)
    obtain ⟨hget, rfl⟩ := get_ends_iff.mp h
    cases hget with
    | refused hp =>
        rw [hparse] at hp
        cases hp
    | selectFailed hp hF =>
        rw [hparse] at hp
        cases hp
        exact .selectFailed hc hchain hupdate hF
    | read hp =>
        rw [hparse] at hp
        cases hp
        exact .read hc hchain hupdate
  · intro h
    refine ends_done_bind_iff.mpr ?_
    cases h with
    | refused hc => exact .inl ⟨_, hc, rfl, rfl⟩
    | chainFailed hc hF =>
        exact .inr ⟨_, hc, ends_call_bind_iff.mpr (.inl ⟨_, hF, rfl, rfl⟩)⟩
    | updateFailed hc hx hF =>
        refine .inr ⟨_, hc, ends_call_bind_iff.mpr (.inr ⟨_, _,
          execFarmers_chainUpdate.mpr ⟨_, hx, rfl⟩, ?_⟩)⟩
        exact ends_call_bind_iff.mpr (.inl ⟨_, hF, rfl, rfl⟩)
    | selectFailed hc hx hu hF =>
        refine .inr ⟨_, hc, ends_call_bind_iff.mpr (.inr ⟨_, _,
          execFarmers_chainUpdate.mpr ⟨_, hx, rfl⟩, ?_⟩)⟩
        refine ends_call_bind_iff.mpr (.inr ⟨(), _,
          execFarmers_updateFarmer.mpr ⟨_, hu, rfl⟩, ?_⟩)
        exact get_ends_iff.mpr
          ⟨.selectFailed (parse_address (parse_ok (checkUpdate_ok hc).1)) hF, rfl⟩
    | read hc hx hu =>
        refine .inr ⟨_, hc, ends_call_bind_iff.mpr (.inr ⟨_, _,
          execFarmers_chainUpdate.mpr ⟨_, hx, rfl⟩, ?_⟩)⟩
        refine ends_call_bind_iff.mpr (.inr ⟨(), _,
          execFarmers_updateFarmer.mpr ⟨_, hu, rfl⟩, ?_⟩)
        exact get_ends_iff.mpr ⟨.read (parse_address (parse_ok (checkUpdate_ok hc).1)), rfl⟩

end

end VerdantBackend
