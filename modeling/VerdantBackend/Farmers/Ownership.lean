import VerdantBackend.Auth.SingleUse
import VerdantBackend.Farmers.ProfileHash
import VerdantBackend.Farmers.Routes

/-!
# Profile ownership

Who can change the profile of a farmer: nobody but the owner of a session for the
address, by `update_metadata`. A registration is refused where there is a row, and
identity events leave profile and hash as they are.
-/

namespace VerdantBackend

open Prog

/-- Profile and hash of a row. -/
def FarmerRow.profile (row : FarmerRow) : Json × String := (row.metadata, row.metadataHash)

/-- An `update_metadata` request that names the address `a`, in either form, with
a bearer token for a session of `a`. -/
def ServerEvent.UpdatesAsOwner (authCrypto : AuthCrypto) (crypto : FarmerCrypto)
    (w : ServerWorld) (a : String) (e : ServerEvent) : Prop :=
  ∃ authorization input body r, e = .request (.updateMetadata authorization input body) r ∧
    parseFarmerIdentifier crypto input = .ok a ∧ w.1.HasSession authCrypto authorization a

section
variable {crypto : FarmerCrypto} {F : Failures farmerStmts FarmerWorld}

/-- **The effects that change a profile**: a row that is there keeps it, unless it
is updated as the checks of `update_metadata` allow. -/
theorem RowEffect.profile {G : FarmerWorld → IdentityChange → Prop} {w : FarmerWorld}
    {a : String} {e : FarmerEvent} {after : Option FarmerRow} {row : FarmerRow}
    (h : RowEffect crypto G w a e after) (hrow : w.farmers.lookup a = some row) :
    ∃ row', after = some row' ∧ (row'.profile ≠ row.profile →
      ∃ input req actor r, e = .updated input req actor r ∧
        checkUpdate crypto input req actor = .ok a) := by
  cases h with
  | same => exact ⟨row, hrow, fun hne => absurd rfl hne⟩
  | inserted _ hnone =>
      rw [hrow] at hnone
      cases hnone
  | profiled hc _ => exact ⟨_, rfl, fun _ => ⟨_, _, _, _, rfl, hc⟩⟩
  | @identity c =>
      rw [hrow]
      exact ⟨c.onRow row, rfl, fun hne => absurd rfl hne⟩

variable {authCrypto : AuthCrypto} {random : Nat → String} {Fa : Failures auth AuthWorld}
  {w w' : ServerWorld} {a : String} {row : FarmerRow}

/-- A handler behind the extractor: it stops there and changes nothing, or goes on
as the owner of a session. -/
theorem ends_handler {p : AuthUser → Prog farmerStmts AppError Farmer}
    {authorization : Option HeaderValue} {r : Except AppError Farmer}
    (h : Ends ((execAuth random).sum execFarmers) (Failures.sum Fa F)
      ((authUser authCrypto authorization).inl >>= fun actor => (p actor).inr) w r w') :
    w' = w ∨ ∃ user farmerWorld, w.1.HasSession authCrypto authorization user.address ∧
      Ends execFarmers F (p user) w.2 r farmerWorld ∧ w' = (w.1, farmerWorld) := by
  rcases ends_bind_iff.mp h with ⟨e, _, hlost⟩ | ⟨user, w₁, huser, hnext⟩
  · obtain ⟨authWorld, hends, rfl⟩ := ends_inl_iff.mp hlost
    exact .inl (by rw [(authUser_ends hends).1])
  · obtain ⟨authWorld, hends, rfl⟩ := ends_inl_iff.mp huser
    obtain ⟨rfl, hsession⟩ := authUser_ends hends
    obtain ⟨farmerWorld, hends, rfl⟩ := ends_inr_iff.mp hnext
    exact .inr ⟨user, farmerWorld, hsession user rfl, hends, rfl⟩

/-- **One step** keeps the row, and its profile but for an update by the owner. -/
theorem ServerCall.profile {e : ServerEvent}
    (h : ServerCall authCrypto random crypto Fa F w e w')
    (hrow : w.2.farmers.lookup a = some row) :
    ∃ row', w'.2.farmers.lookup a = some row' ∧
      (row'.profile ≠ row.profile → e.UpdatesAsOwner authCrypto crypto w a) := by
  -- a step that leaves the table, or has an effect other than an update
  have hsame : w' = w → ∃ row', w'.2.farmers.lookup a = some row' ∧
      (row'.profile ≠ row.profile → e.UpdatesAsOwner authCrypto crypto w a) := by
    intro hw
    exact ⟨row, by rw [hw, hrow], fun hne => absurd rfl hne⟩
  have hother : ∀ {e' : FarmerEvent} {farmerWorld : FarmerWorld},
      FarmerCall crypto F (fun _ _ => True) w.2 e' farmerWorld → w'.2 = farmerWorld →
      (∀ input req actor r, e' ≠ .updated input req actor r) →
      ∃ row', w'.2.farmers.lookup a = some row' ∧
        (row'.profile ≠ row.profile → e.UpdatesAsOwner authCrypto crypto w a) := by
    intro e' farmerWorld hcall hw hnot
    obtain ⟨row', hrow', hne⟩ := (hcall.row a).profile hrow
    rw [hw]
    refine ⟨row', hrow', fun hchanged => ?_⟩
    obtain ⟨input, req, actor, r, rfl, _⟩ := hne hchanged
    exact absurd rfl (hnot input req actor r)
  cases h with
  | @request req r _ h =>
      cases req with
      | getFarmer address =>
          obtain ⟨farmerWorld, hends, rfl⟩ := ends_inr_iff.mp h
          exact hsame (by rw [(get_ends_iff.mp hends).2])
      | registerFarmer authorization body =>
          rcases ends_handler h with hw | ⟨user, farmerWorld, _, hends, rfl⟩
          · exact hsame hw
          · refine hother (.register hends) rfl ?_
            intro input req actor r heq
            cases heq
      | updateMetadata authorization input body =>
          rcases ends_handler h with hw | ⟨user, farmerWorld, hsession, hends, rfl⟩
          · exact hsame hw
          have hcall : FarmerCall crypto F (fun _ _ => True) w.2
              (.updated input body user.address r) farmerWorld := .update hends
          obtain ⟨row', hrow', hne⟩ := (hcall.row a).profile hrow
          refine ⟨row', hrow', fun hchanged => ?_⟩
          obtain ⟨_, _, _, _, heq, hcheck⟩ := hne hchanged
          cases heq
          obtain ⟨hparse, rfl⟩ := checkUpdate_ok hcheck
          exact ⟨authorization, input, body, r, rfl, hparse, hsession⟩
  | apply h =>
      refine hother (.apply trivial h) rfl ?_
      intro input req actor r heq
      cases heq
  | refuse => exact hsame rfl
  | sessions => exact ⟨row, hrow, fun hne => absurd rfl hne⟩

/-- Over a whole run: a profile that has changed was updated by its owner on the way. -/
theorem ServerRun.profile {w₀ : ServerWorld} {past : List ServerEvent}
    (h : ServerRun authCrypto random crypto Fa F w₀ past w)
    (hrow : w₀.2.farmers.lookup a = some row) :
    ∃ row', w.2.farmers.lookup a = some row' ∧ (row'.profile ≠ row.profile →
      ∃ later e earlier w₁ w₂, past = later ++ e :: earlier ∧
        ServerRun authCrypto random crypto Fa F w₀ earlier w₁ ∧
        ServerCall authCrypto random crypto Fa F w₁ e w₂ ∧
        ServerRun authCrypto random crypto Fa F w₂ later w ∧
        e.UpdatesAsOwner authCrypto crypto w₁ a) := by
  induction h with
  | start => exact ⟨row, hrow, fun hne => absurd rfl hne⟩
  | @step past w e w' hrun hcall ih =>
      obtain ⟨row₁, hrow₁, hbefore⟩ := ih
      obtain ⟨row₂, hrow₂, hnow⟩ := hcall.profile hrow₁
      refine ⟨row₂, hrow₂, fun hne => ?_⟩
      by_cases hkept : row₁.profile = row.profile
      · rw [← hkept] at hne
        exact ⟨[], e, past, w, w', rfl, hrun, hcall, .start, hnow hne⟩
      · obtain ⟨later, e', earlier, w₁, w₂, rfl, h₁, h₂, h₃, howner⟩ := hbefore hkept
        exact ⟨e :: later, e', earlier, w₁, w₂, rfl, h₁, h₂, h₃.step hcall, howner⟩

end

/-- **Profile ownership**: at every point of a run, a step changes profile or hash of
a row only as an update by the owner of a session for the address; and so does the
run as a whole. -/
theorem profile_changes_by_owner (authCrypto : AuthCrypto) (random : Nat → String)
    (crypto : FarmerCrypto) (Fa : Failures auth AuthWorld) (F : Failures farmerStmts FarmerWorld)
    (w₀ w : ServerWorld) (past : List ServerEvent)
    (h : ServerRun authCrypto random crypto Fa F w₀ past w) :
    (∀ e w', ServerCall authCrypto random crypto Fa F w e w' →
      ∀ a row, w.2.farmers.lookup a = some row →
        ∃ row', w'.2.farmers.lookup a = some row' ∧
          (row'.metadata ≠ row.metadata ∨ row'.metadataHash ≠ row.metadataHash →
            e.UpdatesAsOwner authCrypto crypto w a)) ∧
    ∀ a row, w₀.2.farmers.lookup a = some row →
      ∃ row', w.2.farmers.lookup a = some row' ∧
        (row'.metadata ≠ row.metadata ∨ row'.metadataHash ≠ row.metadataHash →
          ∃ later e earlier w₁ w₂, past = later ++ e :: earlier ∧
            ServerRun authCrypto random crypto Fa F w₀ earlier w₁ ∧
            ServerCall authCrypto random crypto Fa F w₁ e w₂ ∧
            ServerRun authCrypto random crypto Fa F w₂ later w ∧
            e.UpdatesAsOwner authCrypto crypto w₁ a) := by
  have hprofile : ∀ {row row' : FarmerRow},
      row'.metadata ≠ row.metadata ∨ row'.metadataHash ≠ row.metadataHash →
        row'.profile ≠ row.profile := by
    intro row row' hne heq
    obtain ⟨hmetadata, hhash⟩ := Prod.mk.inj heq
    exact hne.elim (fun h => h hmetadata) fun h => h hhash
  constructor
  · intro e w' hcall a row hrow
    obtain ⟨row', hrow', howner⟩ := hcall.profile hrow
    exact ⟨row', hrow', fun hne => howner (hprofile hne)⟩
  · intro a row hrow
    obtain ⟨row', hrow', howner⟩ := ServerRun.profile h hrow
    exact ⟨row', hrow', fun hne => howner (hprofile hne)⟩

/-! A registered farmer with a session. -/

def adaSession : SessionRow where
  tokenHash := hashToken walletCrypto (sampleRandom 1)
  address := sampleAddress
  roles := ["farmer"]
  expiresAt := 1000000

def adaAuth : AuthWorld :=
  { AuthWorld.empty 0 with authSessions := UniqueRows.empty.insert adaSession }

/-- `Authorization: Bearer …` with the token of the session. -/
def adaHeader : HeaderValue :=
  (BEARER_PREFIX ++ sampleRandom 1).toList.map fun c => UInt8.ofNat c.toNat

def adaRenames : HttpRequest :=
  .updateMetadata (some adaHeader) (farmerId sampleAddress) ⟨named "Ada Grain Cooperative"⟩

def renamedRow : FarmerRow :=
  updatedRow sampleCrypto (named "Ada Grain Cooperative") 100001 adaRow

def renamedRecord : ChainFarmer := { adaRecord with updatedLedger := 100001 }

def renamedAda : FarmerWorld where
  chain := registeredAda.chain.insert sampleAddress renamedRecord
  farmers := registeredAda.farmers.insert sampleAddress renamedRow

theorem adaRow_lookup : registeredAda.farmers.lookup sampleAddress = some adaRow :=
  Finmap.lookup_insert _

theorem ada_authorized :
    Ends (execAuth sampleRandom) (ownFailures (execAuth sampleRandom))
      (authUser walletCrypto (some adaHeader)) adaAuth (.ok ⟨sampleAddress, ["farmer"]⟩)
      adaAuth := by
  have hsession : Ends (execAuth sampleRandom) (ownFailures (execAuth sampleRandom))
      (sessionByToken walletCrypto (sampleRandom 1)) adaAuth (.ok adaSession) adaAuth := by
    refine ends_call_bind_iff.mpr (.inr ⟨some adaSession, adaAuth, ?_, ?_⟩)
    · show Except.ok ([adaSession].find? fun row => decide (row.tokenHash = adaSession.tokenHash),
        adaAuth) = _
      simp
    · exact ends_utcNow_bind_iff.mpr (ends_done_iff.mpr ⟨rfl, rfl⟩)
  refine ends_done_bind_iff.mpr (.inr ⟨sampleRandom 1, by rfl, ?_⟩)
  exact ends_bind_iff.mpr (.inr ⟨adaSession, adaAuth, hsession, ends_done_iff.mpr ⟨rfl, rfl⟩⟩)

theorem ada_updates :
    Ends execFarmers (ownFailures execFarmers)
      (updateMetadata sampleCrypto (farmerId sampleAddress) ⟨named "Ada Grain Cooperative"⟩
        sampleAddress) registeredAda
      (readFarmer sampleCrypto sampleAddress (renamedAda.farmers.lookup sampleAddress))
      renamedAda := by
  have hcheck : checkUpdate sampleCrypto (farmerId sampleAddress)
      ⟨named "Ada Grain Cooperative"⟩ sampleAddress = .ok sampleAddress :=
    checkUpdate_own (parse_farmerId sampleAddress_isPublicKey) (by decide)
  have hchain : registeredAda.chain.updateMetadata sampleAddress =
      .ok (renamedRecord, renamedAda.chain) :=
    StubChain.updateMetadata_ok_iff.mpr ⟨adaRecord, Finmap.lookup_insert _, rfl, rfl⟩
  refine update_ends_iff.mpr (.read hcheck hchain ?_)
  refine (updateFarmer_ok_iff (address_noNul sampleAddress_isPublicKey)).mpr ⟨by decide, ?_⟩
  rw [adaRow_lookup]
  rfl

theorem ada_renames :
    ∃ r, ServerCall walletCrypto sampleRandom sampleCrypto (ownFailures (execAuth sampleRandom))
      (ownFailures execFarmers) (adaAuth, registeredAda) (.request adaRenames r)
      (adaAuth, renamedAda) := by
  exact ⟨_, .request (ends_bind_iff.mpr
    (.inr ⟨_, _, ada_authorized.inl registeredAda, ada_updates.inr adaAuth⟩))⟩

/-- The profile changes, so the token is one of the farmer's own. -/
theorem owner_changes_profile :
    ∃ r, (ServerEvent.request adaRenames r).UpdatesAsOwner walletCrypto sampleCrypto
      (adaAuth, registeredAda) sampleAddress := by
  obtain ⟨r, hcall⟩ := ada_renames
  have hstep := (profile_changes_by_owner _ _ _ _ _ _ _ _ Trail.start).1 _ _ hcall
  obtain ⟨row', hrow', howner⟩ := hstep _ _ adaRow_lookup
  refine ⟨r, howner (.inl fun heq => ?_)⟩
  have hrow : renamedRow = row' := Option.some.inj ((Finmap.lookup_insert _).symm.trans hrow')
  rw [← hrow] at heq
  have hname := congrArg (fun j => j.get "name" >>= Json.asStr) heq
  revert hname
  decide

end VerdantBackend
