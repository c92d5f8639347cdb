import MiniJam.Bulletin.Store

/-!
# `MiniJam.Proofs.Bulletin`: which errors of the bulletin store have no effect

Both calls that write charge the account first and check the rest afterwards. An error before the
charge leaves the store as it was, and there are two reasons for one: the CID configuration or the
authorization of the account. A renewal that does not find its content, and a store whose blob could
not be written, keep the charge and the transaction index. The second one undoes its entry, which
was not there before it: no stored entry is lost.
-/

set_option autoImplicit false

namespace MiniJam.Bulletin

/-- A call that writes, with the error the file system reports. -/
inductive Call where
  | store (io : Option String) (account : PublicKey) (config : CidConfig) (data : Bytes)
  | renew (account : PublicKey) (reference : RenewalRef)

def Call.run (c : Crypto) (retentionPeriod : BlockNumber) : Call → M StorageReceipt
  | .store io account config data => storeWithCidConfig c retentionPeriod io account config data
  | .renew account reference => Bulletin.renew retentionPeriod account reference

/-- What the errors are about is as it was. -/
structure Unchanged (s s' : State) : Prop where
  authorizations : s'.authorizations = s.authorizations
  entries : s'.entries = s.entries
  locations : s'.locations = s.locations
  nextIndex : s'.nextIndex = s.nextIndex

/-- The configuration has a CID. -/
def CidConfig.Supported (config : CidConfig) : Prop :=
  config.codec = rawCodec ∧ config.hashing = .blake2b256

/-- The account can be charged for these bytes in the present block. -/
def Authorized (s : State) (account : PublicKey) (bytes : UInt64) : Prop :=
  ∃ authorization, s.authorizations.lookup account = some authorization ∧
    s.blockNumber < authorization.expiresAt ∧ authorization.transactionsLeft ≠ 0 ∧
    bytes ≤ authorization.bytesLeft

/-- The call comes as far as its charge. -/
def Call.Charges (s : State) : Call → Prop
  | .store _ account config data =>
    config.Supported ∧ Authorized s account (UInt64.ofNat data.length)
  | .renew account _ => Authorized s account 0

variable {c : Crypto} {retentionPeriod : BlockNumber} {s s' : State} {e : BulletinError}
  {account : PublicKey} {config : CidConfig} {data : Bytes}

/-- A CID is made of the hash of the content, for a supported configuration. -/
theorem cidFor_ok_iff {hash : Hash} {cid : Bytes} :
    cidFor c config data = .ok (hash, cid) ↔ config.Supported ∧ c.blake2_256 data = hash ∧
      c.cidV1 rawCodec blake2b256Multihash hash.toList = .ok cid := by
  unfold cidFor
  constructor
  · intro h
    obtain ⟨hsupported, h⟩ := Except.ensure_bind_ok_iff.mp h
    obtain ⟨cid', hcid, h⟩ := Except.bind_ok_iff.mp h
    cases h
    rw [hsupported.1] at hcid
    exact ⟨hsupported, rfl, Except.mapError_ok_iff.mp hcid⟩
  · rintro ⟨hsupported, rfl, hcid⟩
    refine Except.ensure_bind_ok_iff.mpr ⟨hsupported, Except.bind_ok_iff.mpr ⟨cid, ?_, rfl⟩⟩
    rw [hsupported.1]
    exact Except.mapError_ok_iff.mpr hcid

/-- An account that is refused is not charged. -/
theorem checkAuthorization_err {bytes : UInt64}
    (h : checkAuthorization account bytes s = .err e s') :
    s' = s ∧ ¬ Authorized s account bytes := by
  unfold checkAuthorization at h
  rw [Tx.read_bind_apply] at h
  cases hlookup : s.authorizations.lookup account with
  | none =>
    rw [hlookup] at h
    cases h
    exact ⟨rfl, fun ⟨_, hsome, _⟩ => by cases hlookup.symm.trans hsome⟩
  | some authorization =>
    rw [hlookup, Tx.okOr_some_bind_apply, Tx.ensure_bind_apply] at h
    split_ifs at h with hexpires
    · rw [Tx.ensure_bind_apply] at h
      split_ifs at h with hquota
      · cases h
      · cases h
        refine ⟨rfl, fun ⟨_, hsome, _, hleft⟩ => ?_⟩
        cases hlookup.symm.trans hsome
        exact hquota hleft
    · cases h
      refine ⟨rfl, fun ⟨_, hsome, hunexpired, _⟩ => ?_⟩
      cases hlookup.symm.trans hsome
      exact hexpires hunexpired

/-- A charge is seen in the authorizations, and nothing else changes. -/
theorem checkAuthorization_ok {bytes : UInt64}
    (h : checkAuthorization account bytes s = .ok () s') : Authorized s account bytes ∧
      s'.authorizations ≠ s.authorizations ∧
      s' = { s with authorizations := s'.authorizations } := by
  unfold checkAuthorization at h
  rw [Tx.read_bind_apply] at h
  obtain ⟨authorization, hlookup, h⟩ := Tx.okOr_bind_ok.mp h
  obtain ⟨hexpires, h⟩ := Tx.ensure_bind_ok.mp h
  obtain ⟨hquota, h⟩ := Tx.ensure_bind_ok.mp h
  cases h
  refine ⟨⟨authorization, hlookup, hexpires, hquota⟩, fun hsame => ?_, rfl⟩
  have hleft := hquota.1
  have hcharged := congrArg (AList.lookup account) hsame
  rw [hlookup, AList.lookup_insert, Option.some.injEq] at hcharged
  have hone := congrArg Authorization.transactionsLeft hcharged
  grind

/-- The first part of a store. -/
theorem storeMetadata_ok {receipt : StorageReceipt} {shouldWrite : Bool}
    (h : storeMetadata c retentionPeriod account config data s = .ok (receipt, shouldWrite) s') :
    (config.Supported ∧ Authorized s account (UInt64.ofNat data.length)) ∧
      s'.authorizations ≠ s.authorizations ∧
      cidFor c {} data = .ok (receipt.content.contentHash, receipt.content.cidV1.toList) ∧
      receipt.content.size = UInt64.ofNat data.length ∧
      receipt.retentionUntil = s.blockNumber.satAdd retentionPeriod ∧
      shouldWrite = !s.entries.contains receipt.content.contentHash ∧
      s' = { s with
        authorizations := s'.authorizations
        nextIndex := s.nextIndex.satAdd 1
        locations := s.locations.insert (s.blockNumber, s.nextIndex) receipt.content.contentHash
        entries := s.entries.insert receipt.content.contentHash receipt } := by
  unfold storeMetadata at h
  obtain ⟨⟨hash, cid⟩, hcid, h⟩ := Tx.lift_bind_ok.mp h
  obtain ⟨cidV1, hbounded, h⟩ := Tx.okOr_bind_ok.mp h
  obtain ⟨u, s₁, hcharge, h⟩ := Tx.bind_ok.mp h
  obtain ⟨hauthorized, hcharged, hs₁⟩ := checkAuthorization_ok hcharge
  obtain ⟨hsupported, hhash, hcid⟩ := cidFor_ok_iff.mp hcid
  cases h
  refine ⟨⟨hsupported, hauthorized⟩, hcharged, cidFor_ok_iff.mpr ⟨⟨rfl, rfl⟩, hhash, ?_⟩, rfl, ?_⟩
  · rw [BoundedVec.tryFrom_eq_some.mp hbounded]
    exact hcid
  · rw [hs₁]
    exact ⟨rfl, rfl, rfl⟩

/-- A store that ends in its first part has no effect. It did not come as far as the charge. -/
theorem storeMetadata_err (h : storeMetadata c retentionPeriod account config data s = .err e s') :
    s' = s ∧ (c.LawfulCid → config.Supported →
      ¬ Authorized s account (UInt64.ofNat data.length)) := by
  unfold storeMetadata at h
  rcases Tx.bind_err.mp h with h | ⟨⟨hash, cid⟩, s₁, hcid, h⟩
  · cases hcid : cidFor c config data <;> rw [hcid] at h <;> cases h
    refine ⟨rfl, fun hc hsupported => ?_⟩
    obtain ⟨cid, hok, -⟩ := hc (c.blake2_256 data)
    cases hcid.symm.trans (cidFor_ok_iff.mpr ⟨hsupported, rfl, hok⟩)
  · obtain ⟨hmade, rfl⟩ := Tx.lift_ok.mp hcid
    rcases Tx.bind_err.mp h with h | ⟨cidV1, s₁, hbounded, h⟩
    · cases hbounded : (BoundedVec.tryFrom cid : Option (BoundedVec UInt8 128)) <;>
        rw [hbounded] at h <;> cases h
      refine ⟨rfl, fun hc _ => ?_⟩
      obtain ⟨-, -, hok⟩ := cidFor_ok_iff.mp hmade
      obtain ⟨cid', hok', -, hlength⟩ := hc hash
      cases hok.symm.trans hok'
      exact absurd hlength (BoundedVec.tryFrom_eq_none.mp hbounded).not_ge
    · obtain ⟨-, rfl⟩ := Tx.okOr_ok.mp hbounded
      rcases Tx.bind_err.mp h with h | ⟨u, s₁, -, h⟩
      · obtain ⟨rfl, hrefused⟩ := checkAuthorization_err h
        exact ⟨rfl, fun _ _ => hrefused⟩
      · cases h

/-- Only a blob that is not there yet is written. -/
theorem writeBlobAtomic_apply (io : Option String) (hash : Hash) (data : Bytes) (s : State) :
    writeBlobAtomic io hash data s =
      if s.blobs.contains hash = true then .ok () s
      else io.elim (.ok () { s with blobs := s.blobs.insert hash data })
        fun message => .err (.io message) s := by
  unfold writeBlobAtomic
  rw [Tx.read_bind_apply]
  split_ifs
  · rfl
  · cases io <;> rfl

/-- A store that fails: it was refused, or it has undone all but its charge. -/
theorem storeWithCidConfig_err (hc : c.LawfulCid) {io : Option String}
    (h : storeWithCidConfig c retentionPeriod io account config data s = .err e s') :
    s' = s ∧ ¬ (Call.store io account config data).Charges s ∨
      (Call.store io account config data).Charges s ∧
        s'.authorizations ≠ s.authorizations ∧ s'.entries = s.entries := by
  unfold storeWithCidConfig at h
  rcases Tx.bind_err.mp h with h | ⟨⟨receipt, shouldWrite⟩, s₁, hmeta, h⟩
  · obtain ⟨rfl, hrefused⟩ := storeMetadata_err h
    exact Or.inl ⟨rfl, fun hcharges => hrefused hc hcharges.1 hcharges.2⟩
  · obtain ⟨hcharges, hcharged, -, -, -, hwrite, hs₁⟩ := storeMetadata_ok hmeta
    refine Or.inr ⟨hcharges, ?_⟩
    dsimp only at h
    split_ifs at h with hshould
    · -- The content had no entry, so the cleanup leaves the entries there were.
      have hnew : s.entries.lookup receipt.content.contentHash = none := by
        rw [hshould] at hwrite
        exact StorageMap.lookup_of_not_contains (by simpa using hwrite.symm)
      obtain ⟨result, s₂, hresult, h⟩ := (Tx.bind_err.mp h).resolve_left fun hattempt => by
        unfold Tx.attempt at hattempt
        split at hattempt <;> cases hattempt
      rcases Tx.attempt_ok.mp hresult with ⟨u, -, rfl⟩ | ⟨e', hfailed, rfl⟩
      · cases h
      · rw [writeBlobAtomic_apply] at hfailed
        split_ifs at hfailed
        cases io with
        | none => cases hfailed
        | some message =>
          cases hfailed
          cases h
          refine ⟨hcharged, ?_⟩
          show s₁.entries.erase receipt.content.contentHash = s.entries
          rw [hs₁]
          exact StorageMap.erase_insert_of_none hnew receipt
    · cases h

/-- A renewal that fails: it was refused, or it has the charge and a new transaction index. -/
theorem renew_err {reference : RenewalRef}
    (h : renew retentionPeriod account reference s = .err e s') :
    s' = s ∧ ¬ Authorized s account 0 ∨
      Authorized s account 0 ∧ s'.authorizations ≠ s.authorizations ∧
        s' = { s with authorizations := s'.authorizations, nextIndex := s'.nextIndex } := by
  unfold renew at h
  rcases Tx.bind_err.mp h with h | ⟨u, s₁, hcharge, h⟩
  · exact Or.inl (checkAuthorization_err h)
  · obtain ⟨hauthorized, hcharged, hs₁⟩ := checkAuthorization_ok hcharge
    refine Or.inr ⟨hauthorized, ?_⟩
    rw [Tx.read_bind_apply] at h
    rcases Tx.bind_err.mp h with h | ⟨hash, s₂, hhash, h⟩
    · cases hlocate : locateHash s₁ reference <;> rw [hlocate] at h <;> cases h
      exact ⟨hcharged, by rw [hs₁]⟩
    · obtain ⟨-, rfl⟩ := Tx.okOr_ok.mp hhash
      rw [Tx.modify_bind_apply] at h
      cases hentry : s₁.entries.lookup hash <;> rw [hentry] at h <;> cases h
      exact ⟨hcharged, by rw [hs₁]⟩

/-- A failed call has no effect exactly when it does not come as far as its charge: the CID
configuration is not supported, or the account is not authorized for the bytes. No failed call
removes an entry. -/
theorem bulletin_error_without_effect_iff {c : Crypto} (hc : c.LawfulCid)
    (retentionPeriod : BlockNumber) (call : Call) (h : call.run c retentionPeriod s = .err e s') :
    (Unchanged s s' ↔ ¬ call.Charges s) ∧ s'.entries = s.entries := by
  have hcases : s' = s ∧ ¬ call.Charges s ∨
      call.Charges s ∧ s'.authorizations ≠ s.authorizations ∧ s'.entries = s.entries := by
    cases call with
    | store io account config data => exact storeWithCidConfig_err hc h
    | renew account reference =>
      refine (renew_err h).imp_right fun ⟨hauthorized, hcharged, hs'⟩ => ?_
      exact ⟨hauthorized, hcharged, by rw [hs']⟩
  rcases hcases with ⟨rfl, hrefused⟩ | ⟨hcharges, hcharged, hentries⟩
  · exact ⟨iff_of_true ⟨rfl, rfl, rfl, rfl⟩ hrefused, rfl⟩
  · exact ⟨iff_of_false (fun hsame => hcharged hsame.authorizations) fun h => h hcharges, hentries⟩

/-! ### Samples -/

namespace Sample

/-- A hash function with one value, and an identifier. -/
def crypto : Crypto := ⟨fun _ => FixedBytes.fill 32 7, fun _ _ _ => true, fun _ _ _ => .ok [1]⟩

def user : PublicKey := FixedBytes.fill 32 1

end Sample

open Sample

/-- A user may store once. Its second store is refused, and the first one stays as it is. -/
theorem bulletin_error_without_effect_iff_quota : ∃ receipt s s',
    (authorize user 1 8 10 >>= fun _ => storeWithCidConfig crypto 5 none user {} [42])
      State.new = .ok receipt s ∧
    s.entries.contains receipt.content.contentHash = true ∧
    (Call.store none user {} [43]).run crypto 5 s = .err .quotaExhausted s' ∧
    Unchanged s s' := by
  refine ⟨_, _, _, rfl, by decide +kernel, rfl, ?_⟩
  have hc : crypto.LawfulCid := fun _ => ⟨[1], rfl, by decide⟩
  refine (bulletin_error_without_effect_iff hc 5 (.store none user {} [43]) rfl).1.mpr ?_
  rintro ⟨-, authorization, hlookup, -, hleft, -⟩
  cases hlookup
  exact hleft rfl

/-- A renewal of content that was never stored is charged. -/
theorem failed_renewal_charged :
    let s : State := { State.new with
      authorizations := (∅ : StorageMap PublicKey Authorization).insert user ⟨1, 0, 10⟩ }
    ∃ s', renew 5 user (.byContentHash (FixedBytes.fill 32 2)) s = .err .missing s' ∧
      (s'.authorizations.lookup user).map Authorization.transactionsLeft = some 0 ∧
      s'.nextIndex = 1 := by
  refine ⟨_, rfl, ?_, ?_⟩
  · decide +kernel
  · decide +kernel

end MiniJam.Bulletin
