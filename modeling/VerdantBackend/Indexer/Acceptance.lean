import VerdantBackend.Indexer.Run

/-!
# When a pass is accepted

A pass fails at the first event that does not apply. Whether an event applies
is settled by its payload, by the rows before the pass and by the events
before it, in plain integers: the rows that earlier events leave are their
replay. The identity builders never refuse, because every farmer row carries
the id of its own address.
-/

namespace VerdantBackend

/-! ## Farmer ids -/

theorem farmerId_injective : Function.Injective farmerId := by
  intro a b h
  exact (String.append_right_inj FARMER_ID_PREFIX).mp h

/-- Every farmer row carries the id of its address. -/
def FarmerIds (farmers : Table String FarmerRow) : Prop :=
  ∀ address row, farmers.lookup address = some row → row.id = farmerId address

theorem FarmerIds.empty : FarmerIds ∅ := by
  intro address row h
  simp at h

theorem FarmerIds.upsert {farmers : Table String FarmerRow} (h : FarmerIds farmers)
    {address : String} {row : FarmerRow} {onConflict : FarmerRow → FarmerRow}
    (hrow : row.id = farmerId address) (hset : ∀ old, (onConflict old).id = old.id) :
    FarmerIds (farmers.upsert address row onConflict) := by
  intro a r hr
  rw [Table.lookup_upsert] at hr
  split at hr
  · next ha =>
    subst ha
    cases hl : farmers.lookup address with
    | none =>
        rw [hl] at hr
        cases hr
        exact hrow
    | some old =>
        rw [hl] at hr
        cases hr
        exact (hset old).trans (h address old hl)
  · exact h a r hr

theorem FarmerIds.update {ε : Type} {farmers farmers' : Table String FarmerRow}
    (h : FarmerIds farmers) {address : String} {set : FarmerRow → Except ε FarmerRow}
    (hset : ∀ old new, set old = .ok new → new.id = old.id)
    (hu : farmers.update address set = .ok farmers') : FarmerIds farmers' := by
  intro a r hr
  have hl := Table.lookup_update hu a
  split at hl
  · next ha =>
    subst ha
    rcases hl with ⟨_, hnone⟩ | ⟨old, new, hold, hs, hnew⟩
    · rw [hnone] at hr
      cases hr
    · rw [hnew] at hr
      cases hr
      rw [hset old r hs]
      exact h address old hold
  · rw [hl] at hr
    exact h a r hr

theorem FarmerIds.not_taken {farmers : Table String FarmerRow} (h : FarmerIds farmers)
    {address : String} :
    ¬ (farmers.lookup address = none ∧
      ∃ entry ∈ farmers.entries, entry.2.id = farmerId address) := by
  intro h
  obtain ⟨hnone, ⟨a, row⟩, hmem, hid⟩ := h
  have hl := Finmap.lookup_eq_some_iff.mpr hmem
  have ha := farmerId_injective ((h a row hl).symm.trans hid)
  rw [ha, hnone] at hl
  cases hl

theorem FarmerIds.build {farmers : Table String FarmerRow} (h : FarmerIds farmers)
    (c : IdentityChange) : ∃ farmers', c.build farmers = .ok farmers' ∧ FarmerIds farmers' := by
  cases c with
  | registered address data =>
      rw [IdentityChange.build, upsertIdentityFarmer, if_neg h.not_taken]
      exact ⟨_, rfl, h.upsert rfl fun _ => rfl⟩
  | metadataUpdated address data =>
      obtain ⟨t, ht⟩ := (Table.update_isOk_iff farmers address fun row =>
        (.ok { row with updatedLedger := objI64 data "updated_ledger" <|> row.updatedLedger } :
          Except SqlxError FarmerRow)).mpr fun row _ => ⟨_, rfl⟩
      refine ⟨t, ht, h.update (fun old new hn => ?_) ht⟩
      cases hn
      rfl
  | markerSet address data =>
      obtain ⟨t, ht⟩ := (Table.update_isOk_iff farmers address fun row =>
        (.ok { row with verificationMarkers := row.verificationMarkers.concat data } :
          Except SqlxError FarmerRow)).mpr fun row _ => ⟨_, rfl⟩
      refine ⟨t, ht, h.update (fun old new hn => ?_) ht⟩
      cases hn
      rfl

/-! ## Sound events -/

variable {uuid : String → Option String}

theorem applyEvent_farmerIds {db db' : Db} {e : ChainEvent} {consumed : Bool}
    (hf : FarmerIds db.farmers) (h : applyEvent uuid db e = .ok (consumed, db')) :
    FarmerIds db'.farmers := by
  rcases applyEvent_ok_iff.mp h with ⟨_, _, rfl⟩ | ⟨c, _, _, hb⟩
  · exact hf
  · cases c with
    | identity c =>
        obtain ⟨t, ht, rfl⟩ := Change.build_ok_iff.mp hb
        obtain ⟨t', ht', hids⟩ := hf.build c
        rw [ht] at ht'
        cases ht'
        exact hids
    | verification c | escrow c | financing c =>
        obtain ⟨t, _, rfl⟩ := Change.build_ok_iff.mp hb
        exact hf

variable (uuid) in
/-- The increment of the change stays in `BIGINT` on the row that `earlier`
leaves. -/
def Change.FitsAfter (db : Db) (earlier : List ChainEvent) : Change → Prop
  | .escrow c =>
    (c.toRow uuid).Fits (RowChange.replay (escrowChange uuid) (c.toRow uuid).key earlier
      (db.escrowProjection.lookup (c.toRow uuid).key))
  | .financing c =>
    c.toRow.Fits (RowChange.replay financingChange c.toRow.key earlier
      (db.financingProjection.lookup c.toRow.key))
  | _ => True

variable (uuid) in
/-- After `earlier`, the event applies: its payload decodes and its increment
fits. -/
def Sound (db : Db) (earlier : List ChainEvent) (e : ChainEvent) : Prop :=
  ∃ o, decodeEvent e = .ok o ∧ ∀ c, o = some c → c.FitsAfter uuid db earlier

theorem applyAll_farmerIds {db db' : Db} {l : List ChainEvent} (hf : FarmerIds db.farmers)
    (h : applyAll uuid db l = .ok db') : FarmerIds db'.farmers :=
  Replay.foldlM_invariant (P := fun db => FarmerIds db.farmers)
    (fun _ _ _ _ hs hP => applyEvent_farmerIds hP (applied_ok_iff.mp hs).choose_spec) h hf

/-- **An event after an accepted history** applies exactly when it is sound. -/
theorem applies_iff_sound {db db' : Db} {l : List ChainEvent} (hf : FarmerIds db.farmers)
    (h : applyAll uuid db l = .ok db') (e : ChainEvent) :
    Applies uuid db' e ↔ Sound uuid db l e := by
  have hrow := (escrows uuid).applyAll h
  have hfin := (financings uuid).applyAll h
  refine exists_congr fun o => and_congr_right fun _ => forall_congr' fun c => imp_congr_right ?_
  intro _
  cases c with
  | verification c => exact Iff.rfl
  | escrow c =>
      rw [Change.Fits, Change.FitsAfter]
      exact iff_of_eq (congrArg _ (hrow _))
  | financing c =>
      rw [Change.Fits, Change.FitsAfter]
      exact iff_of_eq (congrArg _ (hfin _))
  | identity c =>
      obtain ⟨t, ht, _⟩ := (applyAll_farmerIds hf h).build c
      exact ⟨fun _ => trivial, fun _ => ⟨t, ht⟩⟩

theorem applyAll_append_ok {db db₁ db₂ : Db} {l₁ l₂ : List ChainEvent}
    (h₁ : applyAll uuid db l₁ = .ok db₁) (h₂ : applyAll uuid db₁ l₂ = .ok db₂) :
    applyAll uuid db (l₁ ++ l₂) = .ok db₂ := by
  rw [applyAll, List.foldlM_append]
  rw [applyAll] at h₁
  rw [h₁]
  exact h₂

/-- **A pass is accepted** exactly when every event is sound after the events
before it. -/
theorem applyAll_isOk_iff {db : Db} (hf : FarmerIds db.farmers) (l : List ChainEvent) :
    (∃ db', applyAll uuid db l = .ok db') ↔
      ∀ l₁ e l₂, l = l₁ ++ e :: l₂ → Sound uuid db l₁ e := by
  constructor
  · rintro ⟨db', h⟩ l₁ e l₂ heq
    subst heq
    obtain ⟨db₁, h₁, h₂⟩ := Replay.foldlM_append_ok h
    obtain ⟨db₂, hs, _⟩ := Replay.foldlM_cons_ok h₂
    obtain ⟨consumed, hs⟩ := applied_ok_iff.mp hs
    exact (applies_iff_sound hf h₁ e).mp ((applyEvent_isOk_iff db₁ e).mp ⟨_, hs⟩)
  · intro h
    -- from the front: what is accepted so far, and one event more
    induction l using List.reverseRecOn with
    | nil => exact ⟨db, rfl⟩
    | append_singleton l e ih =>
        obtain ⟨db₁, h₁⟩ := ih fun l₁ x l₂ heq => h l₁ x (l₂ ++ [e]) (by rw [heq]; simp)
        have happ := (applies_iff_sound hf h₁ e).mpr (h l e [] rfl)
        obtain ⟨⟨consumed, db₂⟩, hs⟩ := (applyEvent_isOk_iff db₁ e).mpr happ
        exact ⟨db₂, applyAll_append_ok h₁ (applyAll_cons_ok hs (applyAll_nil db₂))⟩

/-! ## Over a run -/

theorem IngestEffect.farmerIds {source : EventSource} {F : Prog.Failures indexer Db} {c : String}
    {db db' : Db} {tr : List indexer.Obs} {r : Except ChainEventsError Nat}
    (h : IngestEffect uuid source F c db tr r db') (hf : FarmerIds db.farmers) :
    FarmerIds db'.farmers := by
  cases h with
  | unpulled | idle | stored | unprojected => exact hf
  | aborted _ _ _ _ hall _ | completed _ _ _ _ hall =>
      exact applyAll_farmerIds (show FarmerIds (db.pulled c _ _).farmers from hf) hall

theorem IngestRun.farmerIds {F : EventSource → Prog.Failures indexer Db}
    {calls : List IngestCall} {db : Db} (hrun : IngestRun uuid F calls db) :
    FarmerIds db.farmers ∧ ∀ call ∈ calls, FarmerIds call.before.farmers := by
  induction hrun with
  | start => exact ⟨.empty, by simp⟩
  | call _ hout ih =>
      refine ⟨(ingest_effect hout).farmerIds ih.1, ?_⟩
      intro call hcall
      rcases List.mem_append.mp hcall with hcall | hcall
      · exact ih.2 call hcall
      · rw [List.mem_singleton.mp hcall]
        exact ih.1

end VerdantBackend
