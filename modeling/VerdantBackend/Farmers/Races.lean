import VerdantBackend.Farmers.ProfileHash
import VerdantBackend.Lib.Guarantee

/-!
# Farmer requests that race

Any number of `register_farmer`, `update_metadata` and `get_farmer` requests, statement
by statement in any order, with crashes and failed statements, while the indexer applies
identity events. A profile and its hash go into a row in one statement, behind the
chain: whatever the order, a row holds a profile that one request of its owner carried,
whole, and the owner is registered on the chain.
-/

namespace VerdantBackend

open Prog

/-! ## The requests -/

inductive FarmerOp where
  | register (req : RegisterFarmerRequest) (actor : String)
  | update (input : String) (req : UpdateMetadataRequest) (actor : String)
  | get (input : String)

def FarmerOp.prog (crypto : FarmerCrypto) : FarmerOp → Prog farmerStmts Unit Unit
  | .register req actor => (registerFarmer crypto req actor).erase
  | .update input req actor => (updateMetadata crypto input req actor).erase
  | .get input => (getFarmer crypto input).erase

/-- The request passes its checks for the address `a` and carries the profile `m`. -/
def FarmerOp.Offers (crypto : FarmerCrypto) (a : String) (m : FarmerMetadata) :
    FarmerOp → Prop
  | .register req actor => checkRegister crypto req actor = .ok a ∧ req.metadata = m
  | .update input req actor => checkUpdate crypto input req actor = .ok a ∧ req.metadata = m
  | .get _ => False

/-- The indexer applies an identity event. -/
def FarmerWorld.Indexed (w w' : FarmerWorld) : Prop :=
  ∃ (c : IdentityChange) (farmers : Table String FarmerRow),
    c.build w.farmers = .ok farmers ∧ w' = { w with farmers }

/-! ## What a statement does -/

/-- The answer of a statement and what it leaves. -/
def FarmerStmt.Effect (w w' : FarmerWorld) : (q : FarmerStmt) → q.Res → Prop
  | .chainRegister address _, farmer =>
    address ∉ w.chain ∧ w' = { w with chain := w.chain.insert address farmer }
  | .chainUpdate address _, farmer =>
    address ∈ w.chain ∧ w' = { w with chain := w.chain.insert address farmer }
  | .insertFarmer address row, _ =>
    address ∉ w.farmers ∧ w' = { w with farmers := w.farmers.insert address row }
  | .updateFarmer address metadata metadataHash ledger, _ =>
    w'.chain = w.chain ∧ ∀ a, w'.farmers.lookup a =
      if address = a then (w.farmers.lookup a).map fun row =>
        { row with metadata, metadataHash, updatedLedger := some ledger }
      else w.farmers.lookup a
  | .selectFarmer _, _ => w' = w

section
variable {w w' : FarmerWorld} {q : FarmerStmt} {a : q.Res}

theorem execFarmers_effect (hx : execFarmers q w = .ok (a, w')) : q.Effect w w' a := by
  cases q with
  | chainRegister address hash =>
      obtain ⟨chain, hchain, rfl⟩ := execFarmers_chainRegister.mp hx
      obtain ⟨hnew, _, rfl⟩ := StubChain.registerFarmer_ok_iff.mp hchain
      exact ⟨Finmap.lookup_eq_none.mp hnew, rfl⟩
  | chainUpdate address hash =>
      obtain ⟨chain, hchain, rfl⟩ := execFarmers_chainUpdate.mp hx
      obtain ⟨old, hold, _, rfl⟩ := StubChain.updateMetadata_ok_iff.mp hchain
      exact ⟨Finmap.mem_of_lookup_eq_some hold, rfl⟩
  | insertFarmer address row =>
      obtain ⟨farmers, hinsert, rfl⟩ := execFarmers_insertFarmer.mp hx
      obtain ⟨hnew, rfl⟩ := insertFarmer_ok hinsert
      exact ⟨hnew, rfl⟩
  | updateFarmer address metadata hash ledger =>
      obtain ⟨farmers, hupdate, rfl⟩ := execFarmers_updateFarmer.mp hx
      refine ⟨rfl, fun a => ?_⟩
      rw [updateFarmer] at hupdate
      split at hupdate
      · cases hupdate
      split at hupdate
      · cases hupdate
      apply Table.lookup_update_of_total hupdate
      intro row row' hset
      cases hset
      rfl
  | selectFarmer address =>
      rw [execFarmers] at hx
      split at hx
      · cases hx
      · cases hx
        exact rfl

/-- The chain forgets nobody. -/
theorem FarmerStmt.Effect.chain (h : q.Effect w w' a) {address : String}
    (hin : address ∈ w.chain) : address ∈ w'.chain := by
  cases q with
  | chainRegister _ _ | chainUpdate _ _ =>
      obtain ⟨_, rfl⟩ := h
      exact Finmap.mem_insert.mpr (.inr hin)
  | insertFarmer _ _ =>
      obtain ⟨_, rfl⟩ := h
      exact hin
  | updateFarmer _ _ _ _ =>
      rw [h.1]
      exact hin
  | selectFarmer _ =>
      cases h
      exact hin

end

/-! ## Who wrote a profile -/

section
variable (crypto : FarmerCrypto) {ι : Type} (ops : ι → FarmerOp)

/-- The row is the indexer's, or its profile is one that a request carried for its own
address, which the chain has registered. -/
structure FarmerWorld.Backs (w : FarmerWorld) (a : String) (row : FarmerRow) : Prop where
  id : row.id = farmerId a
  profile : (row.metadata = .obj [] ∧ row.metadataHash = "") ∨
    a ∈ w.chain ∧ ∃ i m, (ops i).Offers crypto a m ∧ row.metadata = m.toJson ∧
      row.metadataHash = metadataHash crypto m

/-- Whoever writes a profile has been to the chain before. -/
def chainFirst : Pool.Guarantee farmerStmts FarmerWorld ι where
  inv w := ∀ a row, w.farmers.lookup a = some row → w.Backs crypto ops a row
  later w w' := ∀ a ∈ w.chain, a ∈ w'.chain
  allowed w i
    | .insertFarmer address row =>
      address ∈ w.chain ∧ row.id = farmerId address ∧ ∃ m, (ops i).Offers crypto address m ∧
        row.metadata = m.toJson ∧ row.metadataHash = metadataHash crypto m
    | .updateFarmer address metadata hash _ =>
      address ∈ w.chain ∧ ∃ m, (ops i).Offers crypto address m ∧
        metadata = m.toJson ∧ hash = metadataHash crypto m
    | _ => True
  promised w
    | .chainRegister address _, _ | .chainUpdate address _, _ => address ∈ w.chain
    | _, _ => True

end

section
variable {crypto : FarmerCrypto} {ι : Type} {ops : ι → FarmerOp} {w w' : FarmerWorld}
  {a : String} {row : FarmerRow}

theorem FarmerWorld.Backs.later (h : w.Backs crypto ops a row)
    (hlater : ∀ a ∈ w.chain, a ∈ w'.chain) : w'.Backs crypto ops a row where
  id := h.id
  profile := by
    rcases h.profile with hnone | ⟨hin, hoffered⟩
    · exact .inl hnone
    · exact .inr ⟨hlater a hin, hoffered⟩

/-- An identity event writes no profile. -/
theorem FarmerWorld.Backs.after {c : IdentityChange} (hc : c.address = a)
    (hold : ∀ row, w.farmers.lookup a = some row → w.Backs crypto ops a row)
    (hrow : c.after (w.farmers.lookup a) = some row) : w.Backs crypto ops a row := by
  cases hlookup : w.farmers.lookup a with
  | some old =>
      rw [hlookup] at hrow
      cases hrow
      exact ⟨(hold old hlookup).id, (hold old hlookup).profile⟩
  | none =>
      rw [hlookup] at hrow
      cases c with
      | registered address data =>
          cases hrow
          exact ⟨congrArg farmerId hc, .inl ⟨rfl, rfl⟩⟩
      | metadataUpdated address data | markerSet address data => cases hrow

theorem chainFirst_sound (crypto : FarmerCrypto) (ops : ι → FarmerOp) :
    (chainFirst crypto ops).Sound execFarmers FarmerWorld.Indexed where
  refl _ _ h := h
  trans _ _ _ h h' a ha := h' a (h a ha)
  answers i q w r w' hinv hallowed hx := by
    have heffect := execFarmers_effect hx
    have hlater : ∀ a ∈ w.chain, a ∈ w'.chain := fun a => heffect.chain
    refine ⟨fun a row hrow => ?_, hlater⟩
    cases q with
    | chainRegister _ _ | chainUpdate _ _ =>
        obtain ⟨_, rfl⟩ := heffect
        exact (hinv a row hrow).later hlater
    | insertFarmer address new =>
        obtain ⟨_, rfl⟩ := heffect
        obtain ⟨hchain, hid, m, hm⟩ := hallowed
        by_cases ha : a = address
        · subst ha
          rw [Finmap.lookup_insert, Option.some.injEq] at hrow
          subst hrow
          exact ⟨hid, .inr ⟨hchain, i, m, hm⟩⟩
        · rw [Finmap.lookup_insert_of_ne _ ha] at hrow
          exact (hinv a row hrow).later hlater
    | updateFarmer address metadata hash ledger =>
        obtain ⟨_, hrows⟩ := heffect
        obtain ⟨hchain, m, hm⟩ := hallowed
        rw [hrows a] at hrow
        by_cases ha : address = a
        · subst ha
          rw [if_pos rfl] at hrow
          obtain ⟨old, hold, rfl⟩ := Option.map_eq_some_iff.mp hrow
          exact ⟨(hinv _ old hold).id, .inr ⟨hlater _ hchain, i, m, hm⟩⟩
        · rw [if_neg ha] at hrow
          exact (hinv a row hrow).later hlater
    | selectFarmer _ =>
        cases heffect
        exact hinv a row hrow
  env w w' hinv henv := by
    obtain ⟨c, farmers, hbuild, rfl⟩ := henv
    refine ⟨fun a row hrow => ?_, fun _ h => h⟩
    have hlookup := IdentityChange.build_lookup hbuild a
    rw [RowChange.on] at hlookup
    replace hlookup : farmers.lookup a =
        if c.address = a then c.after (w.farmers.lookup a) else w.farmers.lookup a := hlookup
    replace hrow : farmers.lookup a = some row := hrow
    rw [hlookup] at hrow
    by_cases ha : c.address = a
    · rw [if_pos ha] at hrow
      exact (FarmerWorld.Backs.after ha (hinv a) hrow).later fun _ h => h
    · rw [if_neg ha] at hrow
      exact (hinv a row hrow).later fun _ h => h
  promises i q w r w' w'' _ _ hx hlater := by
    have heffect := execFarmers_effect hx
    cases q with
    | chainRegister address _ | chainUpdate address _ =>
        obtain ⟨_, rfl⟩ := heffect
        exact hlater address (Finmap.mem_insert.mpr (.inl rfl))
    | insertFarmer _ _ | updateFarmer _ _ _ _ | selectFarmer _ => trivial

/-! ## What a request writes -/

theorem registerFarmer_chainFirst (w : FarmerWorld) {i : ι} {req : RegisterFarmerRequest}
    {actor : String} (hop : ops i = .register req actor) :
    Issues ((chainFirst crypto ops).allowed w i) ((chainFirst crypto ops).promised w)
      (fun _ => True) (registerFarmer crypto req actor) := by
  rw [registerFarmer_eq]
  apply (issues_done (R := fun address => checkRegister crypto req actor = .ok address)
    fun _ h => h).bind
  intro address hcheck
  have hregister : (chainFirst crypto ops).allowed w i
      (.chainRegister address (metadataHash crypto req.metadata)) := trivial
  apply ((issues_call (I := farmerStmts) hregister).mapErr mapChainError).bind
  intro chainFarmer hchain
  have hinsert : (chainFirst crypto ops).allowed w i
      (.insertFarmer address (registeredRow crypto req.metadata address chainFarmer)) := by
    refine ⟨hchain, rfl, req.metadata, ?_, rfl, rfl⟩
    rw [hop]
    exact ⟨hcheck, rfl⟩
  apply ((issues_call (I := farmerStmts) hinsert).mapErr AppError.database).bind
  intro _ _
  trivial

theorem getFarmer_chainFirst (w : FarmerWorld) (i : ι) (input : String) :
    Issues ((chainFirst crypto ops).allowed w i) ((chainFirst crypto ops).promised w)
      (fun _ => True) (getFarmer crypto input) := by
  rw [getFarmer_eq]
  apply (issues_done (R := fun _ => True) fun _ _ => trivial).bind
  intro address _
  have hselect : (chainFirst crypto ops).allowed w i (.selectFarmer address) := trivial
  apply ((issues_call (I := farmerStmts) hselect).mapErr AppError.database).bind
  intro found _
  exact issues_done fun _ _ => trivial

theorem updateMetadata_chainFirst (w : FarmerWorld) {i : ι} {input : String}
    {req : UpdateMetadataRequest} {actor : String} (hop : ops i = .update input req actor) :
    Issues ((chainFirst crypto ops).allowed w i) ((chainFirst crypto ops).promised w)
      (fun _ => True) (updateMetadata crypto input req actor) := by
  rw [updateMetadata_eq]
  apply (issues_done (R := fun address => checkUpdate crypto input req actor = .ok address)
    fun _ h => h).bind
  intro address hcheck
  have hchainUpdate : (chainFirst crypto ops).allowed w i
      (.chainUpdate address (metadataHash crypto req.metadata)) := trivial
  apply ((issues_call (I := farmerStmts) hchainUpdate).mapErr mapChainError).bind
  intro chainFarmer hchain
  have hupdate : (chainFirst crypto ops).allowed w i (.updateFarmer address req.metadata.toJson
      (metadataHash crypto req.metadata) chainFarmer.updatedLedger) := by
    refine ⟨hchain, req.metadata, ?_, rfl, rfl⟩
    rw [hop]
    exact ⟨hcheck, rfl⟩
  apply ((issues_call (I := farmerStmts) hupdate).mapErr AppError.database).bind
  intro _ _
  exact getFarmer_chainFirst w i address

theorem FarmerOp.keeps_chainFirst (crypto : FarmerCrypto) (ops : ι → FarmerOp)
    (w : FarmerWorld) (i : ι) :
    Issues ((chainFirst crypto ops).allowed w i) ((chainFirst crypto ops).promised w)
      (fun _ => True) ((ops i).prog crypto) := by
  cases hop : ops i with
  | register req actor => exact (registerFarmer_chainFirst w hop).erase
  | update input req actor => exact (updateMetadata_chainFirst w hop).erase
  | get input => exact (getFarmer_chainFirst w i input).erase

/-! ## In the pool -/

/-- The requests that the chain has registered the address `a` for. -/
def registeredBy (a : String) : List (Happening farmerStmts ι) → List ι
  | [] => []
  | h :: past =>
    match h.answered with
    | some (i, .chainRegister address _) =>
      if address = a then i :: registeredBy a past else registeredBy a past
    | _ => registeredBy a past

theorem registeredBy_unanswered {h : Happening farmerStmts ι} (hh : h.answered = none)
    (past : List (Happening farmerStmts ι)) :
    registeredBy a (h :: past) = registeredBy a past := by
  rw [registeredBy, hh]

theorem registeredBy_register {i : ι} {hash : String} {r : ChainFarmer}
    (past : List (Happening farmerStmts ι)) :
    registeredBy a (.did i ⟨FarmerStmt.chainRegister a hash, .ok r⟩ :: past) =
      i :: registeredBy a past :=
  if_pos rfl

theorem registeredBy_answered {i : ι} {q : FarmerStmt} {r : q.Res}
    (hq : ∀ hash, q ≠ .chainRegister a hash) (past : List (Happening farmerStmts ι)) :
    registeredBy a (.did i ⟨q, .ok r⟩ :: past) = registeredBy a past := by
  cases q with
  | chainRegister address hash => exact if_neg fun heq => hq hash (by rw [heq])
  | _ => rfl

variable [DecidableEq ι] {past : List (Happening farmerStmts ι)}
  {pool pool' : Pool farmerStmts ι FarmerWorld} {F : Failures farmerStmts FarmerWorld}
  {G : List (Happening farmerStmts ι) → Pool farmerStmts ι FarmerWorld →
    Happening farmerStmts ι → Prop}

/-- Nobody is registered twice: who is, is on the chain. -/
structure RegisteredOnce (a : String) (past : List (Happening farmerStmts ι))
    (pool : Pool farmerStmts ι FarmerWorld) : Prop where
  once : (registeredBy a past).length ≤ 1
  onChain : registeredBy a past ≠ [] → a ∈ pool.store.chain

theorem RegisteredOnce.step (h : RegisteredOnce a past pool) {e : Happening farmerStmts ι}
    (hs : Pool.Step execFarmers F FarmerWorld.Indexed pool e pool') :
    RegisteredOnce a (e :: past) pool' := by
  have hkept (hsame : registeredBy a (e :: past) = registeredBy a past)
      (hchain : a ∈ pool.store.chain → a ∈ pool'.store.chain) :
      RegisteredOnce a (e :: past) pool' :=
    ⟨hsame ▸ h.once, fun hne => hchain (h.onChain (hsame ▸ hne))⟩
  cases hs with
  | @ok i q k r s hp hx =>
      have heffect := execFarmers_effect hx
      by_cases hq : ∃ hash, q = .chainRegister a hash
      · obtain ⟨hash, rfl⟩ := hq
        obtain ⟨hnew, rfl⟩ := heffect
        -- who was registered before would be on the chain
        have hnone : registeredBy a past = [] := by
          by_contra hne
          exact hnew (h.onChain hne)
        refine ⟨?_, fun _ => Finmap.mem_insert.mpr (.inl rfl)⟩
        rw [registeredBy_register, hnone, List.length_singleton]
      · rw [not_exists] at hq
        exact hkept (registeredBy_answered hq past) heffect.chain
  | fail hp hF => exact hkept (registeredBy_unanswered rfl past) id
  | crash => exact hkept (registeredBy_unanswered rfl past) id
  | outside henv =>
      obtain ⟨c, farmers, _, rfl⟩ := henv
      exact hkept (registeredBy_unanswered rfl past) id

/-- **Races write whole profiles, behind the chain.** In every state that any requests
reach in any order of their statements, with any crashes and failures, beside any
identity events: a row is the indexer's, or it holds a profile that one request of its
owner carried, with its hash, and the chain has registered the owner. Of all
registrations of an address, the chain takes at most one. -/
theorem profiles_behind_chain
    (hrun : Pool.Run execFarmers F FarmerWorld.Indexed G
      (Pool.start .empty fun i => (ops i).prog crypto) past pool) (a : String) :
    (∀ row, pool.store.farmers.lookup a = some row → pool.store.Backs crypto ops a row) ∧
      (registeredBy a past).length ≤ 1 := by
  constructor
  · have hfirst : (chainFirst crypto ops).KeptBy
        (Pool.start .empty fun i => (ops i).prog crypto) := by
      intro i p hp w _
      cases hp
      exact FarmerOp.keeps_chainFirst crypto ops w i
    have hempty : (chainFirst crypto ops).inv FarmerWorld.empty := by
      intro b row hrow
      simp [FarmerWorld.empty] at hrow
    intro row hrow
    exact ((chainFirst_sound crypto ops).run hfirst hempty hrun).2.1 a row hrow
  · have hstart : RegisteredOnce a ([] : List (Happening farmerStmts ι))
        (Pool.start .empty fun i => (ops i).prog crypto) :=
      ⟨Nat.zero_le 1, fun hne => absurd rfl hne⟩
    have hinv := hrun.invariant (P := RegisteredOnce a) hstart
      fun past pool e pool' h _ hs => h.step hs
    exact hinv.once

end

/-! Two requests register one farmer. -/

def racingOps : Bool → FarmerOp
  | true => .register (registerNamed "Ada Farm Cooperative") sampleAddress
  | false => .register (registerNamed "Ada Grain Cooperative") sampleAddress

def racingPool : Pool farmerStmts Bool FarmerWorld :=
  .start .empty fun i => (racingOps i).prog sampleCrypto

/-- The second one asks the chain before the first one has its row. -/
theorem profiles_behind_chain_race :
    (∃ row, (Pool.runSchedule execFarmers racingPool [true, false, true]).store.farmers.lookup
        sampleAddress = some row ∧
      (Pool.runSchedule execFarmers racingPool [true, false, true]).store.Backs sampleCrypto
        racingOps sampleAddress row) ∧
    (registeredBy sampleAddress
      (Pool.traceSchedule execFarmers [] racingPool [true, false, true])).length ≤ 1 := by
  have hstart : Pool.Run execFarmers (ownFailures execFarmers) FarmerWorld.Indexed
      (fun _ _ _ => True) racingPool [] racingPool := .start
  have hrun := hstart.schedule (fun _ _ _ h => h) [true, false, true]
  obtain ⟨hrows, honce⟩ := profiles_behind_chain hrun sampleAddress
  have hrow : ((Pool.runSchedule execFarmers racingPool [true, false, true]).store.farmers.lookup
      sampleAddress).isSome = true := by
    decide +kernel
  obtain ⟨row, hrow⟩ := Option.isSome_iff_exists.mp hrow
  exact ⟨⟨row, hrow, hrows row hrow⟩, honce⟩

end VerdantBackend
