import VerdantBackend.Auth.Lifetime
import VerdantBackend.Farmers.Ownership

/-!
# The server

The routes of `src/routes/auth.rs` and `src/routes/farmers.rs` on one database, beside
the indexer: challenges are issued and answered, sessions are looked up, and requests
that carry a token write profiles. What each side says of its own runs holds of the
whole, and together they lead from a profile back to a signature.
-/

namespace VerdantBackend

open Prog

/-! ## Runs of the server -/

/-- A step of the server that has ended. -/
inductive AppEvent where
  | auth (e : AuthEvent)
  | farmers (time : Int) (req : HttpRequest) (r : Except AppError Farmer)
  | indexed (c : IdentityChange)

/-- The calls of the authentication service among the steps. -/
def authPast (past : List AppEvent) : List AuthEvent :=
  past.filterMap fun
    | .auth e => some e
    | _ => none

section
variable (authCrypto : AuthCrypto) (random : Nat → String) (crypto : FarmerCrypto)
  (Fa : Failures auth AuthWorld) (F : Failures farmerStmts FarmerWorld) (domain : String)
  (sessionTtl : Nat)

/-- One step: a call of the authentication service, a request about farmers, or an
identity event that the indexer applies. Time passes in between. -/
inductive AppCall : ServerWorld → AppEvent → ServerWorld → Prop where
  | auth {w : ServerWorld} {e authWorld} :
      AuthCall authCrypto random Fa domain sessionTtl w.1 e authWorld →
      AppCall w (.auth e) (authWorld, w.2)
  | farmers {w : ServerWorld} {authWorld req r w'} : w.1.Waits authWorld →
      Ends ((execAuth random).sum execFarmers) (Failures.sum Fa F)
        (req.handle authCrypto crypto) (authWorld, w.2) r w' →
      AppCall w (.farmers authWorld.clock req r) w'
  | indexed {w : ServerWorld} {c farmers} : c.build w.2.farmers = .ok farmers →
      AppCall w (.indexed c) (w.1, { w.2 with farmers })

/-- Steps from empty tables on, the latest first. -/
abbrev AppRun (clock : Int) : List AppEvent → ServerWorld → Prop :=
  Trail (AppCall authCrypto random crypto Fa F domain sessionTtl) (.empty clock, .empty)

end

/-! ## The side of the sessions -/

section
variable {authCrypto : AuthCrypto} {random : Nat → String} {crypto : FarmerCrypto}
  {Fa : Failures auth AuthWorld} {F : Failures farmerStmts FarmerWorld} {domain : String}
  {sessionTtl : Nat} {clock : Int} {w w' : ServerWorld} {past : List AppEvent} {e : AppEvent}

/-- A call may wait longer. -/
theorem AuthCall.after_waits {w w₁ w' : AuthWorld} {e : AuthEvent} (hwait : w.Waits w₁)
    (h : AuthCall authCrypto random Fa domain sessionTtl w₁ e w') :
    AuthCall authCrypto random Fa domain sessionTtl w e w' := by
  cases h with
  | issue hw h => exact .issue (hwait.trans hw) h
  | verify hw h => exact .verify (hwait.trans hw) h
  | look hw h => exact .look (hwait.trans hw) h

/-- A request about farmers only reads the sessions. -/
theorem handle_ends_auth {req : HttpRequest} {r : Except AppError Farmer}
    (h : Ends ((execAuth random).sum execFarmers) (Failures.sum Fa F)
      (req.handle authCrypto crypto) w r w') : w'.1 = w.1 := by
  cases req with
  | getFarmer address =>
      obtain ⟨farmerWorld, _, rfl⟩ := ends_inr_iff.mp h
      rfl
  | registerFarmer authorization body | updateMetadata authorization address body =>
      rcases ends_handler h with rfl | ⟨user, farmerWorld, _, _, rfl⟩
      · rfl
      · rfl

/-- **The calls of the authentication service are a run of their own**, but for the time
that has passed since. -/
theorem AppRun.authRun
    (h : AppRun authCrypto random crypto Fa F domain sessionTtl clock past w) :
    ∃ w₀, AuthRun authCrypto random Fa domain sessionTtl clock (authPast past) w₀ ∧
      w₀.Waits w.1 := by
  induction h with
  | start => exact ⟨_, .start, .refl _⟩
  | step _ hcall ih =>
      obtain ⟨w₀, hrun, hwaits⟩ := ih
      cases hcall with
      | auth h => exact ⟨_, hrun.step (h.after_waits hwaits), .refl _⟩
      | farmers hw h =>
          refine ⟨w₀, hrun, ?_⟩
          rw [handle_ends_auth h]
          exact hwaits.trans hw
      | indexed => exact ⟨w₀, hrun, hwaits⟩

/-! ## From a profile to a signature -/

/-- At `time` the header stands for the address `a`: its token has the digest of one that
a `verify` returned, not `sessionTtl` before, for a request signed by `a` on a challenge
issued for `a`, not five minutes before it was checked. -/
def ActsFor (authCrypto : AuthCrypto) (domain : String) (sessionTtl : Nat)
    (past : List AuthEvent) (time : Int) (authorization : Option HeaderValue) (a : String) :
    Prop :=
  ∃ token between checkTime verifyTime req s earlier,
    bearerToken authCrypto authorization = .ok token ∧
    past = between ++ .verified [checkTime, verifyTime] req (.ok s) :: earlier ∧
    hashToken authCrypto s.token = hashToken authCrypto token ∧ req.address = a ∧
    checkTime.micros ≤ verifyTime.micros ∧ verifyTime.micros ≤ time ∧
    time < verifyTime.micros + sessionTtl ∧
    SignedFor authCrypto domain earlier checkTime.micros req

/-- The request carries the profile `m` for the address `a` and passes its checks when
it acts for `a`. -/
def HttpRequest.Offers (crypto : FarmerCrypto) (authorization : Option HeaderValue) (a : String)
    (m : FarmerMetadata) : HttpRequest → Prop
  | .getFarmer _ => False
  | .registerFarmer header body =>
    header = authorization ∧ checkRegister crypto body a = .ok a ∧ body.metadata = m
  | .updateMetadata header input body =>
    header = authorization ∧ checkUpdate crypto input body a = .ok a ∧ body.metadata = m

/-- The profile of the row is the one of a request of the past that acted for `a`. -/
def ProfileSigned (authCrypto : AuthCrypto) (crypto : FarmerCrypto) (domain : String)
    (sessionTtl : Nat) (past : List AppEvent) (a : String) (row : FarmerRow) : Prop :=
  ∃ later time req r earlier authorization m,
    past = later ++ .farmers time req r :: earlier ∧ req.Offers crypto authorization a m ∧
    row.profile = (m.toJson, metadataHash crypto m) ∧
    ActsFor authCrypto domain sessionTtl (authPast earlier) time authorization a

/-- What holds of a row: the indexer made it and nobody wrote a profile, or its profile
is signed for. -/
def RowSigned (authCrypto : AuthCrypto) (crypto : FarmerCrypto) (domain : String)
    (sessionTtl : Nat) (past : List AppEvent) (a : String) (row : FarmerRow) : Prop :=
  row.profile = (.obj [], "") ∨ ProfileSigned authCrypto crypto domain sessionTtl past a row

theorem RowSigned.cons {a : String} {row row' : FarmerRow}
    (h : RowSigned authCrypto crypto domain sessionTtl past a row)
    (hprofile : row'.profile = row.profile) :
    RowSigned authCrypto crypto domain sessionTtl (e :: past) a row' := by
  rcases h with h | ⟨later, time, req, r, earlier, authorization, m, rfl, hoffers, hm, hacts⟩
  · exact .inl (hprofile.trans h)
  · exact .inr ⟨e :: later, time, req, r, earlier, authorization, m, rfl, hoffers,
      hprofile.trans hm, hacts⟩

/-- Who has a session acts for its address. -/
theorem AppRun.actsFor
    (h : AppRun authCrypto random crypto Fa F domain sessionTtl clock past w)
    {authWorld : AuthWorld} (hwait : w.1.Waits authWorld) {authorization : Option HeaderValue}
    {a : String} (hsession : authWorld.HasSession authCrypto authorization a) :
    ActsFor authCrypto domain sessionTtl (authPast past) authWorld.clock authorization a := by
  obtain ⟨w₀, hrun, hwaits⟩ := h.authRun
  obtain ⟨token, session, htoken, hrow, hhash, hexp, rfl⟩ := hsession
  have hall := hwaits.trans hwait
  rw [hall.passes.2] at hrow
  obtain ⟨between, checkTime, verifyTime, req, s, earlier, hsplit, rfl, hle, htime, hsigned⟩ :=
    (AuthRun.accounted hrun).session session hrow
  have hclock := hall.clock
  exact ⟨token, between, checkTime, verifyTime, req, s, earlier, htoken, hsplit, hhash, rfl, hle,
    by omega, hexp, hsigned⟩

/-- What a request makes of a row: its profile is what it was, or what the request
carries for the owner of a session. -/
theorem handle_row {req : HttpRequest} {r : Except AppError Farmer}
    (h : Ends ((execAuth random).sum execFarmers) (Failures.sum Fa F)
      (req.handle authCrypto crypto) w r w') {a : String} {row : FarmerRow}
    (hrow : w'.2.farmers.lookup a = some row) :
    (∃ old, w.2.farmers.lookup a = some old ∧ row.profile = old.profile) ∨
      ∃ authorization m, req.Offers crypto authorization a m ∧
        row.profile = (m.toJson, metadataHash crypto m) ∧
        w.1.HasSession authCrypto authorization a := by
  have hsame (hw : w' = w) : ∃ old, w.2.farmers.lookup a = some old ∧
      row.profile = old.profile := ⟨row, hw ▸ hrow, rfl⟩
  cases req with
  | getFarmer address =>
      obtain ⟨farmerWorld, hends, rfl⟩ := ends_inr_iff.mp h
      exact .inl (hsame (by rw [(get_ends_iff.mp hends).2]))
  | registerFarmer authorization body =>
      rcases ends_handler h with hw | ⟨user, farmerWorld, hsession, hends, rfl⟩
      · exact .inl (hsame hw)
      have heffect := (FarmerCall.register (G := fun _ _ => True) hends).row a
      rw [show farmerWorld.farmers.lookup a = some row from hrow] at heffect
      generalize hafter : some row = after at heffect
      cases heffect with
      | same _ => exact .inl ⟨row, hafter.symm, rfl⟩
      | inserted hcheck hnone =>
          cases hafter
          have hactor := (checkRegister_ok hcheck).2
          rw [hactor] at hcheck hsession
          exact .inr ⟨authorization, body.metadata, ⟨rfl, hcheck, rfl⟩, rfl, hsession⟩
  | updateMetadata authorization input body =>
      rcases ends_handler h with hw | ⟨user, farmerWorld, hsession, hends, rfl⟩
      · exact .inl (hsame hw)
      have heffect := (FarmerCall.update (G := fun _ _ => True) hends).row a
      rw [show farmerWorld.farmers.lookup a = some row from hrow] at heffect
      generalize hafter : some row = after at heffect
      cases heffect with
      | same _ => exact .inl ⟨row, hafter.symm, rfl⟩
      | profiled hcheck hold =>
          cases hafter
          have hactor := (checkUpdate_ok hcheck).2
          rw [hactor] at hcheck hsession
          exact .inr ⟨authorization, body.metadata, ⟨rfl, hcheck, rfl⟩, rfl, hsession⟩

/-- **One step** keeps every row signed. -/
theorem AppRun.rows_step
    (hrun : AppRun authCrypto random crypto Fa F domain sessionTtl clock past w)
    (hcall : AppCall authCrypto random crypto Fa F domain sessionTtl w e w') {a : String}
    (h : ∀ row, w.2.farmers.lookup a = some row →
      RowSigned authCrypto crypto domain sessionTtl past a row) {row : FarmerRow}
    (hrow : w'.2.farmers.lookup a = some row) :
    RowSigned authCrypto crypto domain sessionTtl (e :: past) a row := by
  cases hcall with
  | auth _ => exact (h row hrow).cons rfl
  | @farmers authWorld req r _ hwait hends =>
      rcases handle_row hends hrow with ⟨old, hold, hprofile⟩ |
        ⟨authorization, m, hoffers, hprofile, hsession⟩
      · exact (h old hold).cons hprofile
      · exact .inr ⟨[], _, req, r, past, authorization, m, rfl, hoffers, hprofile,
          hrun.actsFor hwait hsession⟩
  | @indexed c farmers hbuild =>
      have hlookup := IdentityChange.build_lookup hbuild a
      rw [RowChange.on, show farmers.lookup a = some row from hrow] at hlookup
      by_cases ha : c.address = a
      · replace hlookup : some row = c.after (w.2.farmers.lookup a) :=
          hlookup.trans (if_pos ha)
        cases hold : w.2.farmers.lookup a with
        | some old =>
            rw [hold] at hlookup
            cases hlookup
            exact (h old hold).cons rfl
        | none =>
            rw [hold] at hlookup
            cases c with
            | registered address data =>
                cases hlookup
                exact .inl rfl
            | metadataUpdated address data | markerSet address data => cases hlookup
      · exact (h row (hlookup.trans (if_neg ha)).symm).cons rfl

/-- **Every profile was signed for.** In every run of the server from empty tables, with
any requests, identity events and failures: a row is as the indexer made it, or its
profile and hash are those of a request of the past whose token was returned, within
the session's time, for a signature of the row's address on a challenge issued for it. -/
theorem profile_signed_by_owner
    (hrun : AppRun authCrypto random crypto Fa F domain sessionTtl clock past w) {a : String}
    {row : FarmerRow} (hrow : w.2.farmers.lookup a = some row) :
    row.profile = (.obj [], "") ∨
      ProfileSigned authCrypto crypto domain sessionTtl past a row := by
  induction hrun generalizing row with
  | start => simp [FarmerWorld.empty] at hrow
  | step hrun hcall ih => exact AppRun.rows_step hrun hcall (fun row => ih) hrow

/-! ## Errors of the client -/

/-- The error that a step answered its client with. -/
def AppEvent.error : AppEvent → Option AppError
  | .auth (.issued _ _ (.error (.err e))) | .auth (.verified _ _ (.error (.err e)))
  | .auth (.looked _ _ (.error e)) | .farmers _ _ (.error e) => some e
  | _ => none

/-- A registration that ended in a database error; the chain may have taken it. -/
def AppEvent.LosesRow (e : AppEvent) : Prop :=
  ∃ time authorization body err,
    e = .farmers time (.registerFarmer authorization body) (.error (.database err))

/-- Nobody is on the chain without a row. -/
def FarmerWorld.RowsKept (w : FarmerWorld) : Prop := ∀ a ∈ w.chain, a ∈ w.farmers

section
variable {farmerWorld farmerWorld' : FarmerWorld} {err : AppError}

/-- A row that cannot be read is no fault of the client. -/
theorem readFarmer_status {address : String} {row : FarmerRow}
    (h : readFarmer crypto address (some row) = .error err) : err.status = 500 := by
  rw [readFarmer] at h
  cases hm : FarmerMetadata.decode crypto.text row.metadata with
  | error e =>
      rw [hm] at h
      cases h
      rfl
  | ok m =>
      rw [hm] at h
      cases hv : Decoder.vec crypto.text (VerificationMarker.decode crypto.text)
          row.verificationMarkers with
      | error e =>
          rw [hv] at h
          cases h
          rfl
      | ok markers =>
          rw [hv] at h
          cases h

theorem RegisterOutcome.client_error {req : RegisterFarmerRequest} {actor : String}
    (h : RegisterOutcome crypto F req actor farmerWorld (.error err) farmerWorld')
    (hclient : err.status < 500) : farmerWorld' = farmerWorld := by
  cases h with
  | refused | chainFailed => rfl
  | insertFailed => exact absurd hclient (lt_irrefl 500)

theorem RegisterOutcome.keeps_rows {req : RegisterFarmerRequest} {actor : String}
    {r : Except AppError Farmer} (h : RegisterOutcome crypto F req actor farmerWorld r farmerWorld')
    (hrows : farmerWorld.RowsKept) (hr : ∀ e, r ≠ .error (.database e)) :
    farmerWorld'.RowsKept := by
  cases h with
  | refused | chainFailed => exact hrows
  | insertFailed => exact absurd rfl (hr _)
  | @registered address _ _ _ _ hchain hinsert =>
      obtain ⟨_, rfl⟩ := insertFarmer_ok hinsert
      obtain ⟨_, _, rfl⟩ := StubChain.registerFarmer_ok_iff.mp hchain
      intro a ha
      rcases Finmap.mem_insert.mp ha with rfl | ha
      · exact Finmap.mem_insert.mpr (.inl rfl)
      · exact Finmap.mem_insert.mpr (.inr (hrows a ha))

theorem updateFarmer_keeps {address : String} {m : FarmerMetadata} {ledger : Int}
    {farmers farmers' : Table String FarmerRow} (haddress : hasNul address = false)
    (h : updateFarmer farmers address m.toJson (metadataHash crypto m) ledger = .ok farmers')
    {a : String} (ha : a ∈ farmers) : a ∈ farmers' := by
  obtain ⟨_, rfl⟩ := (updateFarmer_ok_iff haddress).mp h
  cases farmers.lookup address with
  | none => exact ha
  | some row => exact Finmap.mem_insert.mpr (.inr ha)

theorem StubChain.mem_of_update {chain chain' : StubChain} {address : String}
    {farmer : ChainFarmer} (h : chain.updateMetadata address = .ok (farmer, chain')) :
    address ∈ chain ∧ ∀ a ∈ chain', a ∈ chain := by
  obtain ⟨old, hold, _, rfl⟩ := StubChain.updateMetadata_ok_iff.mp h
  have hin : address ∈ chain := Finmap.mem_of_lookup_eq_some hold
  refine ⟨hin, fun a ha => ?_⟩
  rcases Finmap.mem_insert.mp ha with rfl | ha
  · exact hin
  · exact ha

theorem UpdateOutcome.keeps_rows {input : String} {req : UpdateMetadataRequest} {actor : String}
    {r : Except AppError Farmer}
    (h : UpdateOutcome crypto F input req actor farmerWorld r farmerWorld')
    (hrows : farmerWorld.RowsKept) : farmerWorld'.RowsKept := by
  cases h with
  | refused | chainFailed => exact hrows
  | updateFailed _ hchain _ =>
      intro a ha
      exact hrows a ((StubChain.mem_of_update hchain).2 a ha)
  | selectFailed hcheck hchain hupdate _ | read hcheck hchain hupdate =>
      have haddress := address_noNul (parse_ok (checkUpdate_ok hcheck).1)
      intro a ha
      exact updateFarmer_keeps haddress hupdate
        (hrows a ((StubChain.mem_of_update hchain).2 a ha))

theorem UpdateOutcome.client_error {input : String} {req : UpdateMetadataRequest}
    {actor : String} {r : Except AppError Farmer}
    (h : UpdateOutcome crypto F input req actor farmerWorld r farmerWorld')
    (hrows : farmerWorld.RowsKept) (hr : r = .error err) (hclient : err.status < 500) :
    farmerWorld' = farmerWorld := by
  cases h with
  | refused | chainFailed => rfl
  | updateFailed | selectFailed =>
      cases hr
      exact absurd hclient (lt_irrefl 500)
  | @read address farmer chain farmers hcheck hchain hupdate =>
      -- the row is there, so what cannot be read is the row
      have haddress := address_noNul (parse_ok (checkUpdate_ok hcheck).1)
      have hin := updateFarmer_keeps haddress hupdate
        (hrows address (StubChain.mem_of_update hchain).1)
      obtain ⟨row, hrow⟩ := Finmap.mem_iff.mp hin
      rw [hrow] at hr
      rw [readFarmer_status hr] at hclient
      exact absurd hclient (lt_irrefl 500)

end

section
variable {err : AppError}

/-- A request about farmers that its client is to blame for. -/
theorem handle_client_error {req : HttpRequest}
    (h : Ends ((execAuth random).sum execFarmers) (Failures.sum Fa F)
      (req.handle authCrypto crypto) w (.error err) w') (hrows : w.2.RowsKept)
    (hclient : err.status < 500) : w' = w := by
  cases req with
  | getFarmer address =>
      obtain ⟨farmerWorld, hends, rfl⟩ := ends_inr_iff.mp h
      rw [(get_ends_iff.mp hends).2]
  | registerFarmer authorization body =>
      rcases ends_handler h with hw | ⟨user, farmerWorld, _, hends, rfl⟩
      · exact hw
      · rw [(register_ends_iff.mp hends).client_error hclient]
  | updateMetadata authorization input body =>
      rcases ends_handler h with hw | ⟨user, farmerWorld, _, hends, rfl⟩
      · exact hw
      · rw [(update_ends_iff.mp hends).client_error hrows rfl hclient]

theorem handle_keeps_rows {req : HttpRequest} {r : Except AppError Farmer}
    (h : Ends ((execAuth random).sum execFarmers) (Failures.sum Fa F)
      (req.handle authCrypto crypto) w r w') {time : Int}
    (hlost : ¬ (AppEvent.farmers time req r).LosesRow) (hrows : w.2.RowsKept) :
    w'.2.RowsKept := by
  cases req with
  | getFarmer address =>
      obtain ⟨farmerWorld, hends, rfl⟩ := ends_inr_iff.mp h
      rwa [(get_ends_iff.mp hends).2]
  | registerFarmer authorization body =>
      rcases ends_handler h with rfl | ⟨user, farmerWorld, _, hends, rfl⟩
      · exact hrows
      · refine (register_ends_iff.mp hends).keeps_rows hrows ?_
        rintro err rfl
        exact hlost ⟨time, authorization, body, err, rfl⟩
  | updateMetadata authorization input body =>
      rcases ends_handler h with rfl | ⟨user, farmerWorld, _, hends, rfl⟩
      · exact hrows
      · exact (update_ends_iff.mp hends).keeps_rows hrows

/-- As long as no registration is lost between the chain and the table, nobody is on the
chain without a row. -/
theorem AppRun.rowsKept
    (hrun : AppRun authCrypto random crypto Fa F domain sessionTtl clock past w)
    (hlost : ∀ e ∈ past, ¬ e.LosesRow) : w.2.RowsKept := by
  induction hrun with
  | start =>
      intro a ha
      exact absurd ha Finmap.notMem_empty
  | step _ hcall ih =>
      rw [List.forall_mem_cons] at hlost
      have hrows := ih hlost.2
      cases hcall with
      | auth _ => exact hrows
      | farmers _ hends => exact handle_keeps_rows hends hlost.1 hrows
      | @indexed c farmers hbuild =>
          intro a ha
          obtain ⟨row, hrow⟩ := Finmap.mem_iff.mp (hrows a ha)
          have hlookup := IdentityChange.build_lookup hbuild a
          rw [RowChange.on, hrow] at hlookup
          refine Finmap.mem_iff.mpr ?_
          by_cases hc : c.address = a
          · exact ⟨_, hlookup.trans (if_pos hc)⟩
          · exact ⟨_, hlookup.trans (if_neg hc)⟩

/-- A call of the authentication service that its client is to blame for. -/
theorem AuthCall.client_error {w w' : AuthWorld} {e : AuthEvent}
    (h : AuthCall authCrypto random Fa domain sessionTtl w e w')
    (he : (AppEvent.auth e).error = some err) (hclient : err.status < 500) : w.Passes w' := by
  obtain ⟨_, _, _, heffect⟩ := h.effect
  cases heffect with
  | notIssued hpasses | notVerified hpasses | notFound hpasses | found hpasses => exact hpasses
  | issued | verified => cases he
  | @used _ _ _ s _ _ _ hinternal =>
      cases s with
      | err e =>
          cases he
          exact absurd hclient (by rw [show err.status = 500 from hinternal]; exact lt_irrefl 500)
      | panic message => cases he

/-- **An error of the client changes nothing.** In every run of the server in which no
registration was lost between the chain and the table, a step that answers its client
with a status below 500 leaves the tables and the chain as they are. -/
theorem client_error_changes_nothing
    (hrun : AppRun authCrypto random crypto Fa F domain sessionTtl clock past w)
    (hlost : ∀ e ∈ past, ¬ e.LosesRow)
    (hcall : AppCall authCrypto random crypto Fa F domain sessionTtl w e w')
    (he : e.error = some err) (hclient : err.intoResponse.1 < 500) :
    w.1.Passes w'.1 ∧ w'.2 = w.2 := by
  cases hcall with
  | auth h => exact ⟨h.client_error he hclient, rfl⟩
  | @farmers authWorld req r _ hwait h =>
      cases r with
      | ok farmer => cases he
      | error e =>
          cases he
          rw [handle_client_error h (hrun.rowsKept hlost) hclient]
          exact ⟨hwait.passes, rfl⟩
  | indexed => cases he

end

end

/-! The wallet signs in and registers. -/

/-- The packages, on the wallet's address. -/
def walletFarmerCrypto : FarmerCrypto :=
  { sampleCrypto with
    isPublicKey := fun address => address = walletAddress
    base32 := by
      intro s hs
      rw [of_decide_eq_true hs]
      exact chars_of_all (by decide) }

def walletRegisters : HttpRequest :=
  .registerFarmer (some walletHeader) ⟨walletAddress, named "Ada Farm Cooperative", none⟩

def walletRecord : ChainFarmer := ⟨walletAddress, 100000, 100000, []⟩

def walletFarmer : FarmerRow :=
  registeredRow walletFarmerCrypto (named "Ada Farm Cooperative") walletAddress walletRecord

def registeredWallet : FarmerWorld where
  chain := (∅ : StubChain).insert walletAddress walletRecord
  farmers := (∅ : Table String FarmerRow).insert walletAddress walletFarmer

abbrev WalletAppCall : ServerWorld → AppEvent → ServerWorld → Prop :=
  AppCall signerCrypto sampleRandom walletFarmerCrypto (ownFailures (execAuth sampleRandom))
    (ownFailures execFarmers) "app.verdant.example" 604800000000

set_option maxRecDepth 20000 in
theorem wallet_authorized :
    Ends (execAuth sampleRandom) (ownFailures (execAuth sampleRandom))
      (authUser signerCrypto (some walletHeader)) signedIn (.ok ⟨walletAddress, ["farmer"]⟩)
      signedIn :=
  ends_of_run rfl

theorem wallet_registers : ∃ r, WalletAppCall (signedIn, .empty)
    (.farmers 1767225600000000 walletRegisters r) (signedIn, registeredWallet) := by
  have hkey : walletFarmerCrypto.isPublicKey walletAddress = true :=
    decide_eq_true (p := walletAddress = walletAddress) rfl
  have hinsert : insertFarmer ∅ walletAddress walletFarmer =
      .ok ((∅ : Table String FarmerRow).insert walletAddress walletFarmer) := by
    refine insertFarmer_new (address_noNul hkey) (by decide) Finmap.notMem_empty ?_
    intro entry hentry
    exact absurd hentry (Multiset.notMem_zero entry)
  have hname : (trim (named "Ada Farm Cooperative").name.toList).isEmpty = false := by decide
  have hchain : (∅ : StubChain).registerFarmer walletAddress =
      .ok (walletRecord, registeredWallet.chain) :=
    StubChain.registerFarmer_ok_iff.mpr ⟨Finmap.lookup_empty _, rfl, rfl⟩
  have hregister : Ends execFarmers (ownFailures execFarmers)
      (registerFarmer walletFarmerCrypto ⟨walletAddress, named "Ada Farm Cooperative", none⟩
        walletAddress) .empty
      (.ok (registeredFarmer walletFarmerCrypto (named "Ada Farm Cooperative") walletAddress
        walletRecord)) registeredWallet :=
    register_ends_iff.mpr (.registered (checkRegister_own hkey hname) hchain hinsert)
  exact ⟨_, .farmers (.refl _) (ends_bind_iff.mpr
    (.inr ⟨_, _, wallet_authorized.inl _, hregister.inr _⟩))⟩

theorem wallet_challenged_app : WalletAppCall (.empty 1767225600000000, .empty)
    (.auth (.issued [firstInstant] ⟨walletAddress⟩ (.ok walletChallenge)))
    (challenged, .empty) :=
  .auth wallet_challenged

theorem wallet_signs_in_app : WalletAppCall (challenged, .empty)
    (.auth (.verified [firstInstant, firstInstant] walletRequest (.ok walletToken)))
    (signedIn, .empty) :=
  .auth wallet_signs_in

theorem profile_signed_by_owner_wallet :
    ∃ past, ProfileSigned signerCrypto walletFarmerCrypto "app.verdant.example" 604800000000 past
      walletAddress walletFarmer := by
  obtain ⟨r, hregister⟩ := wallet_registers
  have hrun := ((Trail.start.step wallet_challenged_app).step wallet_signs_in_app).step hregister
  have hsigned := profile_signed_by_owner hrun (a := walletAddress) (Finmap.lookup_insert _)
  refine ⟨_, hsigned.resolve_left fun heq => ?_⟩
  have hhash := congrArg Prod.snd heq
  revert hhash
  decide

set_option maxRecDepth 20000 in
/-- The wallet sends its request twice. -/
theorem client_error_changes_nothing_wallet :
    ∃ w' : ServerWorld, WalletAppCall (signedIn, .empty) (.auth (.verified []
        walletRequest (.error (.err (.conflict ERR_NONCE_UNUSED_OR_EXPIRED))))) w' ∧
      signedIn.Passes w'.1 ∧ w'.2 = .empty := by
  have hcall : WalletAppCall (signedIn, .empty) (.auth (.verified []
      walletRequest (.error (.err (.conflict ERR_NONCE_UNUSED_OR_EXPIRED)))))
      (signedIn, .empty) := .auth (.verify_alone (.refl _) rfl rfl)
  have hrun := (Trail.start.step wallet_challenged_app).step wallet_signs_in_app
  exact ⟨_, hcall, client_error_changes_nothing hrun (by simp [AppEvent.LosesRow]) hcall rfl
    (by decide)⟩

end VerdantBackend
