import VerdantBackend.Auth.Authenticity
import VerdantBackend.Auth.FailedVerify

/-!
# The signed text

`sep40_message` puts the texts of a request between fixed lines. What the checks in
front of the signature guarantee, an address and a nonce without a line break, makes it
uniquely readable, whatever the client sends as the timestamp.
-/

namespace VerdantBackend

open Prog

/-- The text that the signature of a request is checked on. -/
def VerifyRequest.signedText (req : VerifyRequest) : String :=
  sep40Message req.domain req.address req.nonce req.timestamp

/-- The request passes the checks of `verify` in front of that of its signature. -/
structure ReachesSignature (crypto : AuthCrypto) (domain : String) (req : VerifyRequest)
    (w : AuthWorld) (row : ChallengeRow) : Prop where
  address : validateAddress crypto req.address = .ok ()
  storable : req.Storable
  found : w.challengeFor req = some row
  unused : row.used = false
  fresh : w.clock < row.expiresAt
  domain : row.domain = domain

/-! ## Reading the text back -/

/-- Lines are told apart by where they end. -/
theorem line_inj {l m x y : List Char} (hl : '\n' ∉ l) (hm : '\n' ∉ m)
    (h : l ++ '\n' :: x = m ++ '\n' :: y) : l = m ∧ x = y := by
  induction l generalizing m with
  | nil =>
      cases m with
      | nil => exact ⟨rfl, (List.cons.inj h).2⟩
      | cons d m => exact absurd ((List.cons.inj h).1 ▸ List.mem_cons_self) hm
  | cons c l ih =>
      cases m with
      | nil => exact absurd ((List.cons.inj h).1 ▸ List.mem_cons_self) hl
      | cons d m =>
          obtain ⟨hcd, htail⟩ := List.cons.inj h
          obtain ⟨hlm, hxy⟩ := ih (fun hc => hl (List.mem_cons_of_mem _ hc))
            (fun hd => hm (List.mem_cons_of_mem _ hd)) htail
          exact ⟨by rw [hcd, hlm], hxy⟩

/-- **The text is read in one way**: neither address nor nonce breaks a line. -/
theorem sep40Message_inj {domain address nonce timestamp address' nonce' timestamp' : String}
    (haddress : '\n' ∉ address.toList) (haddress' : '\n' ∉ address'.toList)
    (hnonce : '\n' ∉ nonce.toList) (hnonce' : '\n' ∉ nonce'.toList)
    (h : sep40Message domain address nonce timestamp =
      sep40Message domain address' nonce' timestamp') :
    address = address' ∧ nonce = nonce' ∧ timestamp = timestamp' := by
  have hlist : ∀ address nonce timestamp : String,
      (sep40Message domain address nonce timestamp).toList =
        (domain ++ " wants you to sign in with your Stellar account:\n").toList ++
          (address.toList ++ '\n' :: ("\nNonce: ".toList ++ (nonce.toList ++ '\n' ::
            ("Issued At: ".toList ++ (timestamp.toList ++ ['\n']))))) := by
    intro address nonce timestamp
    have hnonceLine : "\n\nNonce: ".toList = '\n' :: "\nNonce: ".toList := by decide
    have hissuedLine : "\nIssued At: ".toList = '\n' :: "Issued At: ".toList := by decide
    show (domain ++ _ ++ address ++ "\n\nNonce: " ++ nonce ++ "\nIssued At: " ++ timestamp ++
      "\n").toList = _
    simp only [String.toList_append, List.append_assoc, hnonceLine, hissuedLine, List.cons_append]
    rfl
  rw [← String.toList_inj, hlist, hlist, List.append_cancel_left_eq] at h
  obtain ⟨h₁, h⟩ := line_inj haddress haddress' h
  rw [List.append_cancel_left_eq] at h
  obtain ⟨h₂, h⟩ := line_inj hnonce hnonce' h
  rw [List.append_cancel_left_eq, List.append_cancel_right_eq] at h
  exact ⟨String.toList_inj.mp h₁, String.toList_inj.mp h₂, String.toList_inj.mp h⟩

/-! ## What the checks guarantee -/

section
variable {crypto : AuthCrypto} {random : Nat → String} {F : Failures auth AuthWorld}
variable {domain : String} {sessionTtl : Nat} {w w' : AuthWorld} {clock clock' : Int}
variable {past past' : List AuthEvent} {req req' : VerifyRequest} {row row' : ChallengeRow}

namespace ReachesSignature

theorem reqDomain (h : ReachesSignature crypto domain req w row) : req.domain = domain :=
  (AuthWorld.challengeFor_eq_some_iff.mp h.found).2.2.symm.trans h.domain

/-- The nonce was drawn. -/
theorem nonce_drawn (h : ReachesSignature crypto domain req w row)
    (hrun : AuthRun crypto random F domain sessionTtl clock past w) :
    ∃ n, req.nonce = random n := by
  obtain ⟨_, _, c, hissued, hnonce, _⟩ := (AuthRun.accounted hrun).challenge
    (AuthWorld.challengeFor_eq_some_iff.mp h.found).1
  obtain ⟨hanswers, _⟩ := (AuthRun.accounted hrun).issued hissued
  rw [← hnonce]
  exact hanswers.drawn

end ReachesSignature

/-- An accepted request went through the other checks first. -/
theorem PassesChecks.reachesSignature (h : PassesChecks crypto domain req w row) :
    ReachesSignature crypto domain req w row ∧
      verifySignature crypto req.address req.signature req.signedText = .ok () := by
  obtain ⟨_, hunused, haccepted⟩ := checkVerify_ok h.found h.checks
  exact ⟨⟨h.address, h.storable, h.found, hunused, haccepted.fresh, haccepted.rowDomain⟩,
    haccepted.signed⟩

/-- The signature is one over the text: it is good for no other. -/
def SignatureOver (crypto : AuthCrypto) (signature text : String) : Prop :=
  ∀ address message, verifySignature crypto address signature message = .ok () → message = text

/-- **The signed text identifies the request.** Of two requests that reach the check of
their signature, at any times, a common text means one address, one nonce and one
timestamp; a signature over the text of the one is accepted for no other challenge. -/
theorem signed_text_identifies_request
    (hstrkey : ∀ address, validateAddress crypto address = .ok () → '\n' ∉ address.toList)
    (hhex : ∀ n, '\n' ∉ (random n).toList)
    (hrun : AuthRun crypto random F domain sessionTtl clock past w)
    (hrun' : AuthRun crypto random F domain sessionTtl clock' past' w')
    (h : ReachesSignature crypto domain req w row)
    (h' : ReachesSignature crypto domain req' w' row') :
    (req.signedText = req'.signedText →
      req.address = req'.address ∧ req.nonce = req'.nonce ∧ req.timestamp = req'.timestamp) ∧
    (SignatureOver crypto req'.signature req.signedText →
      PassesChecks crypto domain req' w' row' →
      req.address = req'.address ∧ req.nonce = req'.nonce ∧ req.timestamp = req'.timestamp) := by
  have hidentifies : req.signedText = req'.signedText →
      req.address = req'.address ∧ req.nonce = req'.nonce ∧ req.timestamp = req'.timestamp := by
    intro htext
    obtain ⟨n, hn⟩ := h.nonce_drawn hrun
    obtain ⟨n', hn'⟩ := h'.nonce_drawn hrun'
    rw [VerifyRequest.signedText, VerifyRequest.signedText, h.reqDomain, h'.reqDomain] at htext
    exact sep40Message_inj (hstrkey _ h.address) (hstrkey _ h'.address) (hn ▸ hhex n)
      (hn' ▸ hhex n') htext
  refine ⟨hidentifies, ?_⟩
  intro hover hpasses
  exact hidentifies (hover _ _ hpasses.reachesSignature.2).symm

end

/-! The wallet's request, and one whose timestamp imitates the lines around it. -/

def imitatingRequest : VerifyRequest :=
  { walletRequest with
    timestamp := "2026-01-01T00:00:00+00:00\n\nNonce: 00\nIssued At: 2026-01-01T00:00:00+00:00" }

theorem signerCrypto_address {address : String}
    (h : validateAddress signerCrypto address = .ok ()) : '\n' ∉ address.toList := by
  by_cases hstranger : address = strangerAddress
  · rw [hstranger]
    decide
  by_cases hwallet : address = walletAddress
  · rw [hwallet]
    decide
  have hinvalid : signerCrypto.publicKey address = .error "the strkey is invalid" :=
    (if_neg hstranger).trans (if_neg hwallet)
  rw [validateAddress, hinvalid] at h
  cases h

theorem sampleRandom_one_line (n : Nat) : '\n' ∉ (sampleRandom n).toList := by
  rw [sampleRandom, String.toList_ofList, List.mem_append, not_or]
  refine ⟨fun h => absurd (List.eq_of_mem_replicate h) (by decide), fun h => ?_⟩
  exact absurd (Decimal.digits_padded 12 n _ h) (by decide)

theorem walletRequest_reaches :
    ReachesSignature signerCrypto "app.verdant.example" walletRequest challenged
      (walletRow false) :=
  ⟨rfl, ⟨by decide, by decide, by decide⟩, rfl, rfl, by decide, rfl⟩

theorem imitatingRequest_reaches :
    ReachesSignature signerCrypto "app.verdant.example" imitatingRequest challenged
      (walletRow false) :=
  ⟨rfl, ⟨by decide, by decide, by decide⟩, rfl, rfl, by decide, rfl⟩

theorem imitated_lines_are_another_text :
    walletRequest.signedText ≠ imitatingRequest.signedText := by
  intro h
  have hrun := Trail.start.step wallet_challenged
  have hsame := (signed_text_identifies_request (fun _ => signerCrypto_address)
    sampleRandom_one_line hrun hrun walletRequest_reaches imitatingRequest_reaches).1 h
  exact absurd hsame.2.2 (by decide)

end VerdantBackend
