import MiniJam.Bulletin.Concurrent
import MiniJam.Proofs.Bulletin

/-!
# `MiniJam.Proofs.BulletinReceipts`: when a receipt of the bulletin store is durable

A store that finds an entry for its content does not write the blob. It returns its receipt at
once, although the store that made the entry may still be writing. Until then the content cannot
be fetched, and when the write fails the cleanup removes the entry that both of them use. So a
receipt is durable exactly when the blob is there at the moment it is returned
(`receipts_durable_iff`).

`Sane` is what holds in every run. A content has one writer at most, which keeps the entry in
place: only a writer that failed removes an entry, and then no blob is there. Entries only gain
retention, because the block number does not go down.
-/

set_option autoImplicit false

namespace MiniJam.Bulletin

variable {c : Crypto} {retentionPeriod : BlockNumber} {contents : Set Bytes} {s s' : State}
  {y y' : System}

/-! ### What a step does to the entries -/

/-- Entries stay or get the retention of the present block. -/
structure Refreshes (retentionPeriod : BlockNumber) (s s' : State) : Prop where
  faults : s'.faults = s.faults
  blobs : s'.blobs = s.blobs
  block : s.blockNumber ≤ s'.blockNumber
  entries : ∀ k, s'.entries.lookup k = s.entries.lookup k ∨
    ∃ e, s'.entries.lookup k = some e ∧ s.blockNumber.satAdd retentionPeriod ≤ e.retentionUntil

/-- No entry changes. -/
theorem Refreshes.keep (hfaults : s'.faults = s.faults) (hblobs : s'.blobs = s.blobs)
    (hblock : s.blockNumber ≤ s'.blockNumber) (hentries : s'.entries = s.entries) :
    Refreshes retentionPeriod s s' :=
  ⟨hfaults, hblobs, hblock, fun _ => Or.inl (by rw [hentries])⟩

variable {receipt : StorageReceipt} {data : Bytes}

/-- One entry is written. -/
theorem Refreshes.insert {k : Hash} (hfaults : s'.faults = s.faults) (hblobs : s'.blobs = s.blobs)
    (hblock : s'.blockNumber = s.blockNumber) (hentries : s'.entries = s.entries.insert k receipt)
    (hretention : receipt.retentionUntil = s.blockNumber.satAdd retentionPeriod) :
    Refreshes retentionPeriod s s' := by
  refine ⟨hfaults, hblobs, hblock ▸ UInt32.le_refl _, fun k' => ?_⟩
  rw [hentries, StorageMap.lookup_insert_eq]
  split_ifs
  · exact Or.inr ⟨receipt, rfl, hretention ▸ UInt32.le_refl _⟩
  · exact Or.inl rfl

/-- A renewal only adds retention, also when it fails. -/
theorem renew_refreshes {account : PublicKey} {reference : RenewalRef}
    (h : (∃ receipt, renew retentionPeriod account reference s = .ok receipt s') ∨
      ∃ e, renew retentionPeriod account reference s = .err e s') :
    Refreshes retentionPeriod s s' := by
  rcases h with ⟨receipt, h⟩ | ⟨e, h⟩
  · unfold renew at h
    obtain ⟨u, s₁, hcharge, h⟩ := Tx.bind_ok.mp h
    have hs₁ := (checkAuthorization_ok hcharge).2.2
    rw [Tx.read_bind_apply] at h
    obtain ⟨hash, -, h⟩ := Tx.okOr_bind_ok.mp h
    rw [Tx.modify_bind_apply] at h
    obtain ⟨entry, -, h⟩ := Tx.okOr_bind_ok.mp h
    cases h
    rw [hs₁]
    exact .insert (k := hash) rfl rfl rfl rfl rfl
  · rcases renew_err h with ⟨rfl, -⟩ | ⟨-, -, hs'⟩
    · exact .keep rfl rfl (UInt32.le_refl _) rfl
    · rw [hs']
      exact .keep rfl rfl (UInt32.le_refl _) rfl

/-! ### What holds in every run -/

/-- A store with this receipt and these bytes is running or has returned. -/
def System.Issued (y : System) (receipt : StorageReceipt) (data : Bytes) : Prop :=
  (∃ id phase, y.running id = some ⟨receipt, data, phase⟩) ∨ (receipt, data) ∈ y.returned

/-- The running store has made the entry of its content and has not written the blob. -/
def Running.Writes (call : Running) (k : Hash) : Prop :=
  call.phase ≠ .returning ∧ call.receipt.content.contentHash = k

/-- What an issued receipt says about the store. -/
structure Valid (c : Crypto) (retentionPeriod : BlockNumber) (contents : Set Bytes) (s : State)
    (receipt : StorageReceipt) (data : Bytes) : Prop where
  content : cidFor c {} data =
    .ok (receipt.content.contentHash, receipt.content.cidV1.toList)
  size : receipt.content.size = UInt64.ofNat data.length
  mem : data ∈ contents
  retention : receipt.retentionUntil ≤ s.blockNumber.satAdd retentionPeriod
  entry : ∀ e, s.entries.lookup receipt.content.contentHash = some e →
    receipt.retentionUntil ≤ e.retentionUntil

structure Sane (c : Crypto) (retentionPeriod : BlockNumber) (contents : Set Bytes) (y : System) :
    Prop where
  faults : y.store.faults = ∅
  issued : ∀ receipt data, y.Issued receipt data →
    Valid c retentionPeriod contents y.store receipt data
  entry : ∀ id call k, y.running id = some call → call.Writes k → y.store.entries.lookup k ≠ none
  one : ∀ id call id' call' k, y.running id = some call → call.Writes k →
    y.running id' = some call' → call'.Writes k → id = id'
  failing : ∀ id receipt data e, y.running id = some ⟨receipt, data, .failing e⟩ →
    y.store.blobs.lookup receipt.content.contentHash = none
  blob : ∀ k data, y.store.blobs.lookup k = some data →
    y.store.entries.lookup k ≠ none ∧ data ∈ contents ∧ c.blake2_256 data = k

theorem Refreshes.lookup_ne_none (h : Refreshes retentionPeriod s s') {k : Hash}
    (hk : s.entries.lookup k ≠ none) : s'.entries.lookup k ≠ none := by
  rcases h.entries k with hsame | ⟨e, he, -⟩
  · rwa [hsame]
  · simp [he]

theorem Valid.refresh (h : Valid c retentionPeriod contents s receipt data)
    (hs : Refreshes retentionPeriod s s') :
    Valid c retentionPeriod contents s' receipt data where
  content := h.content
  size := h.size
  mem := h.mem
  retention := UInt32.le_trans h.retention (UInt32.satAdd_le_satAdd hs.block _)
  entry e he := by
    rcases hs.entries receipt.content.contentHash with hsame | ⟨e', he', hlater⟩
    · exact h.entry e (hsame ▸ he)
    · rw [he'] at he
      cases he
      exact UInt32.le_trans h.retention hlater

theorem Sane.refresh (h : Sane c retentionPeriod contents y)
    (hs : Refreshes retentionPeriod y.store s') :
    Sane c retentionPeriod contents { y with store := s' } where
  faults := hs.faults.trans h.faults
  issued receipt data hissued := (h.issued receipt data hissued).refresh hs
  entry id call k hcall hwrites := hs.lookup_ne_none (h.entry id call k hcall hwrites)
  one := h.one
  failing id receipt data e hcall := by
    rw [hs.blobs]
    exact h.failing id receipt data e hcall
  blob k data hblob := by
    rw [hs.blobs] at hblob
    obtain ⟨hentry, hdata⟩ := h.blob k data hblob
    exact ⟨hs.lookup_ne_none hentry, hdata⟩

/-! ### One step -/

variable {id : Nat}

/-- The other calls are where they were. -/
theorem System.running_set {id' : Nat} {call : Option Running} {call' : Running}
    (h : (y.set s' id call).running id' = some call') :
    id' = id ∧ call = some call' ∨ id' ≠ id ∧ y.running id' = some call' := by
  have h : Function.update y.running id call id' = some call' := h
  rw [Function.update_apply] at h
  split_ifs at h with hid
  · exact Or.inl ⟨hid, h⟩
  · exact Or.inr ⟨hid, h⟩

theorem running_update_none {running : Nat → Option Running} {id' : Nat} {call : Running}
    (h : Function.update running id none id' = some call) : id' ≠ id ∧ running id' = some call := by
  rw [Function.update_apply] at h
  split_ifs at h with hid
  exact ⟨hid, h⟩

/-- A call goes on, in a store that its receipt is valid in. -/
theorem Sane.set (h : Sane c retentionPeriod contents { y with store := s' }) {call : Running}
    (hvalid : Valid c retentionPeriod contents s' call.receipt call.data)
    (hentry : ∀ k, call.Writes k → s'.entries.lookup k ≠ none)
    (hone : ∀ id' call' k, id' ≠ id → y.running id' = some call' → call'.Writes k → ¬ call.Writes k)
    (hfailing : ∀ e, call.phase = .failing e →
      s'.blobs.lookup call.receipt.content.contentHash = none) :
    Sane c retentionPeriod contents (y.set s' id (some call)) where
  faults := h.faults
  issued receipt data hissued := by
    rcases hissued with ⟨id', phase, hrunning⟩ | hreturned
    · rcases System.running_set hrunning with ⟨-, hcall⟩ | ⟨-, hrunning⟩
      · cases hcall
        exact hvalid
      · exact h.issued receipt data (Or.inl ⟨id', phase, hrunning⟩)
    · exact h.issued receipt data (Or.inr hreturned)
  entry id' call' k hrunning hwrites := by
    rcases System.running_set hrunning with ⟨-, hcall⟩ | ⟨-, hrunning⟩
    · cases hcall
      exact hentry k hwrites
    · exact h.entry id' call' k hrunning hwrites
  one id₁ call₁ id₂ call₂ k h₁ hwrites₁ h₂ hwrites₂ := by
    rcases System.running_set h₁ with ⟨rfl, hcall₁⟩ | ⟨hne₁, hrunning₁⟩
    · cases hcall₁
      rcases System.running_set h₂ with ⟨rfl, -⟩ | ⟨hne₂, hrunning₂⟩
      · rfl
      · exact absurd hwrites₁ (hone id₂ call₂ k hne₂ hrunning₂ hwrites₂)
    · rcases System.running_set h₂ with ⟨rfl, hcall₂⟩ | ⟨-, hrunning₂⟩
      · cases hcall₂
        exact absurd hwrites₂ (hone id₁ call₁ k hne₁ hrunning₁ hwrites₁)
      · exact h.one id₁ call₁ id₂ call₂ k hrunning₁ hwrites₁ hrunning₂ hwrites₂
  failing id' receipt data e hrunning := by
    rcases System.running_set hrunning with ⟨-, hcall⟩ | ⟨-, hrunning⟩
    · cases hcall
      exact hfailing e rfl
    · exact h.failing id' receipt data e hrunning
  blob := h.blob

theorem Sane.start (h : Sane c retentionPeriod contents y) {account : PublicKey}
    {config : CidConfig} {shouldWrite : Bool} (hdata : data ∈ contents)
    (hmeta : storeMetadata c retentionPeriod account config data y.store =
      .ok (receipt, shouldWrite) s') :
    Sane c retentionPeriod contents
      (y.set s' id
        (some ⟨receipt, data, if shouldWrite = true then .writing else .returning⟩)) := by
  obtain ⟨-, -, hcontent, hsize, hretention, hwrite, hs'⟩ := storeMetadata_ok hmeta
  have hentries : s'.entries = y.store.entries.insert receipt.content.contentHash receipt := by
    rw [hs']
  have hblock : s'.blockNumber = y.store.blockNumber := by rw [hs']
  have hlookup : s'.entries.lookup receipt.content.contentHash = some receipt := by
    rw [hentries, AList.lookup_insert]
  refine (h.refresh (.insert (by rw [hs']) (by rw [hs']) hblock hentries hretention)).set
    ⟨hcontent, hsize, hdata, ?_, fun e he => ?_⟩ (fun k hk => ?_)
    (fun id' call' k _ hrunning hwrites hk => ?_) fun e he => ?_
  · rw [hretention, hblock]
    exact UInt32.le_refl _
  · rw [hlookup] at he
    cases he
    exact UInt32.le_refl _
  · rw [← hk.2, hlookup]
    simp
  · -- A store that writes has found no entry, so there was no writer.
    have hshould : shouldWrite = true := by
      by_contra hreturns
      exact hk.1 (if_neg hreturns)
    rw [hshould] at hwrite
    have hnone := StorageMap.lookup_of_not_contains (by simpa using hwrite.symm)
    exact h.entry id' call' k hrunning hwrites (hk.2 ▸ hnone)
  · dsimp only at he
    split_ifs at he

/-- A blob that is written belongs to the entry of its writer. -/
theorem Sane.written (h : Sane c retentionPeriod contents y)
    (hcall : y.running id = some ⟨receipt, data, .writing⟩) :
    Sane c retentionPeriod contents { y with store := { y.store with
      blobs := y.store.blobs.insert receipt.content.contentHash data } } := by
  have hwrites : Running.Writes ⟨receipt, data, .writing⟩ receipt.content.contentHash :=
    ⟨by simp, rfl⟩
  have hvalid := h.issued receipt data (Or.inl ⟨id, _, hcall⟩)
  refine ⟨h.faults, fun receipt' data' hissued => ?_, h.entry, h.one, ?_, ?_⟩
  · obtain ⟨hcontent, hsize, hmem, hretention, hentry⟩ := h.issued receipt' data' hissued
    exact ⟨hcontent, hsize, hmem, hretention, hentry⟩
  · intro id' receipt' data' e hrunning
    -- A failing call of the same content would be a second writer.
    have hne : receipt'.content.contentHash ≠ receipt.content.contentHash := by
      intro hsame
      obtain rfl := h.one id _ id' _ _ hcall hwrites hrunning ⟨by simp, hsame⟩
      rw [hcall] at hrunning
      cases hrunning
    show (y.store.blobs.insert receipt.content.contentHash data).lookup _ = none
    rw [AList.lookup_insert_ne hne]
    exact h.failing id' receipt' data' e hrunning
  · intro k data' hblob
    have hblob : (y.store.blobs.insert receipt.content.contentHash data).lookup k = some data' :=
      hblob
    rw [StorageMap.lookup_insert_eq] at hblob
    split_ifs at hblob with hk
    · cases hblob
      rw [hk]
      refine ⟨h.entry id _ _ hcall hwrites, hvalid.mem, ?_⟩
      exact (cidFor_ok_iff.mp hvalid.content).2.1
    · exact h.blob k data' hblob

theorem Sane.cleanup (h : Sane c retentionPeriod contents y) {e : BulletinError}
    (hcall : y.running id = some ⟨receipt, data, .failing e⟩)
    (hclean : storeCleanup receipt y.store = .ok () s') :
    Sane c retentionPeriod contents (y.set s' id none) := by
  have hwrites : Running.Writes ⟨receipt, data, .failing e⟩ receipt.content.contentHash :=
    ⟨by simp, rfl⟩
  obtain rfl : { y.store with
      entries := y.store.entries.erase receipt.content.contentHash
      locations := y.store.locations.erase
        (receipt.location.blockNumber, receipt.location.transactionIndex) } = s' := by
    cases hclean
    rfl
  have hother : ∀ {k : Hash}, k ≠ receipt.content.contentHash →
      (y.store.entries.erase receipt.content.contentHash).lookup k = y.store.entries.lookup k :=
    fun hk => AList.lookup_erase_ne hk
  refine ⟨h.faults, fun receipt' data' hissued => ?_, fun id' call' k hcall' hwrites' => ?_, ?_,
    fun id' receipt' data' e' hcall' =>
      h.failing id' receipt' data' e' (running_update_none hcall').2,
    fun k data' hblob => ?_⟩
  · have hissued : y.Issued receipt' data' :=
      hissued.imp_left fun ⟨id', phase, hcall'⟩ => ⟨id', phase, (running_update_none hcall').2⟩
    obtain ⟨hcontent, hsize, hmem, hretention, hentry⟩ := h.issued receipt' data' hissued
    refine ⟨hcontent, hsize, hmem, hretention, fun entry hlookup => hentry entry ?_⟩
    have hlookup : (y.store.entries.erase receipt.content.contentHash).lookup
        receipt'.content.contentHash = some entry := hlookup
    rw [StorageMap.lookup_erase_eq] at hlookup
    split_ifs at hlookup
    exact hlookup
  · obtain ⟨hne, hcall'⟩ := running_update_none hcall'
    -- Another writer of this content would be a second one.
    have hk : k ≠ receipt.content.contentHash := by
      rintro rfl
      exact hne (h.one id' call' id _ _ hcall' hwrites' hcall hwrites)
    exact hother hk ▸ h.entry id' call' k hcall' hwrites'
  · intro id₁ call₁ id₂ call₂ k h₁ hwrites₁ h₂ hwrites₂
    exact h.one id₁ call₁ id₂ call₂ k (running_update_none h₁).2 hwrites₁
      (running_update_none h₂).2 hwrites₂
  · obtain ⟨hentry, hdata⟩ := h.blob k data' hblob
    -- The content of a failing writer has no blob.
    have hk : k ≠ receipt.content.contentHash := by
      rintro rfl
      cases hblob.symm.trans (h.failing id receipt data e hcall)
    exact ⟨hother hk ▸ hentry, hdata⟩

theorem Sane.returns (h : Sane c retentionPeriod contents y)
    (hcall : y.running id = some ⟨receipt, data, .returning⟩) :
    Sane c retentionPeriod contents
      { y.set y.store id none with returned := (receipt, data) :: y.returned } := by
  refine ⟨h.faults, ?_,
    fun id' call' k hcall' => h.entry id' call' k (running_update_none hcall').2, ?_,
    fun id' receipt' data' e' hcall' =>
      h.failing id' receipt' data' e' (running_update_none hcall').2, h.blob⟩
  · intro receipt' data' hissued
    refine h.issued receipt' data' ?_
    rcases hissued with ⟨id', phase, hcall'⟩ | hreturned
    · exact Or.inl ⟨id', phase, (running_update_none hcall').2⟩
    · rcases List.mem_cons.mp hreturned with hnew | hold
      · cases hnew
        exact Or.inl ⟨id, _, hcall⟩
      · exact Or.inr hold
  · intro id₁ call₁ id₂ call₂ k h₁ hwrites₁ h₂ hwrites₂
    exact h.one id₁ call₁ id₂ call₂ k (running_update_none h₁).2 hwrites₁
      (running_update_none h₂).2 hwrites₂

theorem Sane.step (h : Sane c retentionPeriod contents y) {event : Event}
    (hstep : Step c retentionPeriod contents y event y') : Sane c retentionPeriod contents y' := by
  cases hstep with
  | start id account config data receipt shouldWrite s' hfree hdata hmeta =>
    exact h.start hdata hmeta
  | refuse id account config data e s' hmeta =>
    rw [(storeMetadata_err hmeta).1]
    exact h
  | write id io receipt data s' hcall hwrite =>
    have hvalid := h.issued receipt data (Or.inl ⟨id, _, hcall⟩)
    have hs' : Sane c retentionPeriod contents { y with store := s' } ∧
        Valid c retentionPeriod contents s' receipt data := by
      rw [writeBlobAtomic_apply] at hwrite
      split_ifs at hwrite
      · cases hwrite
        exact ⟨h, hvalid⟩
      · cases io with
        | none =>
          cases hwrite
          exact ⟨h.written hcall, hvalid.content, hvalid.size, hvalid.mem, hvalid.retention,
            hvalid.entry⟩
        | some message => cases hwrite
    exact hs'.1.set hs'.2 (fun k hk => absurd rfl hk.1) (fun _ _ _ _ _ _ hk => hk.1 rfl)
      fun e he => by cases he
  | fail id io receipt data e s' hcall hwrite =>
    rw [writeBlobAtomic_apply] at hwrite
    split_ifs at hwrite with hblob
    cases io with
    | none => cases hwrite
    | some message =>
      cases hwrite
      -- The failing call counts as the writer of its content until the cleanup.
      refine Sane.set h (h.issued receipt data (Or.inl ⟨id, _, hcall⟩)) (fun k hk => ?_)
        (fun id' call' k hne hrunning hwrites hk => ?_) fun e he => ?_
      · exact h.entry id _ k hcall ⟨by simp, hk.2⟩
      · exact hne (h.one id' call' id _ k hrunning hwrites hcall ⟨by simp, hk.2⟩)
      · exact StorageMap.lookup_of_not_contains (Bool.eq_false_iff.mpr hblob)
  | cleanup id receipt data e s' hcall hclean => exact h.cleanup hcall hclean
  | returns id receipt data hcall => exact h.returns hcall
  | renew account reference s' hrenew => exact h.refresh (renew_refreshes hrenew)
  | advanceBlocks blocks s' hadvance =>
    cases hadvance
    exact h.refresh (.keep rfl rfl (UInt32.le_satAdd _ _) rfl)
  | authorize account transactions bytes expiresAt s' hauthorize =>
    cases hauthorize
    exact h.refresh (.keep rfl rfl (UInt32.le_refl _) rfl)

variable {h : List (Transition System Event)}

theorem sane_of_run (hr : Run c retentionPeriod contents h y) :
    Sane c retentionPeriod contents y := by
  refine hr.invariant_state (fun y hy => ?_) fun _ _ _ hsane => hsane.step
  subst hy
  refine ⟨rfl, ?_, ?_, ?_, ?_, ?_⟩
  · rintro receipt data (⟨id, phase, hrunning⟩ | hreturned)
    · cases hrunning
    · cases hreturned
  · intro id call k hrunning
    cases hrunning
  · intro id call id' call' k hrunning
    cases hrunning
  · intro id receipt data e hrunning
    cases hrunning
  · intro k data hblob
    cases hblob

/-! ### Receipts -/

theorem fetch_ok_iff {content : ContentRef} :
    fetch c s content = .ok data ↔ checkFault s content.contentHash = .ok () ∧
      ∃ entry, s.entries.lookup content.contentHash = some entry ∧
        s.blockNumber < entry.retentionUntil ∧ s.blobs.lookup content.contentHash = some data ∧
        cidFor c {} data = .ok (content.contentHash, content.cidV1.toList) ∧
        UInt64.ofNat data.length = content.size := by
  unfold fetch
  constructor
  · intro h
    obtain ⟨u, hfault, h⟩ := Except.bind_ok_iff.mp h
    obtain ⟨entry, hentry, h⟩ := Except.bind_ok_iff.mp h
    obtain ⟨hretained, h⟩ := Except.ensure_bind_ok_iff.mp h
    obtain ⟨data', hblob, h⟩ := Except.bind_ok_iff.mp h
    obtain ⟨⟨hash, cid⟩, hcid, h⟩ := Except.bind_ok_iff.mp h
    obtain ⟨⟨rfl, hsize, rfl⟩, hdata⟩ := Except.ensure_bind_ok_iff.mp h
    cases hdata
    exact ⟨hfault, entry, Except.okOr_ok_iff.mp hentry, hretained,
      Except.okOr_ok_iff.mp hblob, hcid,
      hsize⟩
  · rintro ⟨hfault, entry, hentry, hretained, hblob, hcid, hsize⟩
    refine Except.bind_ok_iff.mpr ⟨(), hfault, Except.bind_ok_iff.mpr
      ⟨entry, Except.okOr_ok_iff.mpr hentry, Except.ensure_bind_ok_iff.mpr ⟨hretained, ?_⟩⟩⟩
    refine Except.bind_ok_iff.mpr ⟨data, Except.okOr_ok_iff.mpr hblob, Except.bind_ok_iff.mpr
      ⟨_, hcid, Except.ensure_bind_ok_iff.mpr ⟨⟨rfl, hsize, rfl⟩, rfl⟩⟩⟩

/-- A receipt in its retention can be used exactly when the blob is there. -/
theorem Sane.fetch_iff (h : Sane c retentionPeriod contents y)
    (hcollisions : Set.InjOn c.blake2_256 contents) (hreturned : (receipt, data) ∈ y.returned)
    (hretained : y.store.blockNumber < receipt.retentionUntil) :
    fetch c y.store receipt.content = .ok data ↔
      y.store.blobs.contains receipt.content.contentHash = true := by
  obtain ⟨hcontent, hsize, hmem, -, hentry⟩ := h.issued receipt data (Or.inr hreturned)
  rw [fetch_ok_iff]
  constructor
  · rintro ⟨-, entry, -, -, hblob, -⟩
    rw [StorageMap.contains, hblob]
    rfl
  · intro hcontains
    obtain ⟨data', hblob⟩ := Option.isSome_iff_exists.mp hcontains
    obtain ⟨hpresent, hmem', hhash⟩ := h.blob _ data' hblob
    obtain ⟨entry, hlookup⟩ := Option.ne_none_iff_exists'.mp hpresent
    -- The blob has the hash of the stored bytes.
    have hdigest : c.blake2_256 data = receipt.content.contentHash :=
      (cidFor_ok_iff.mp hcontent).2.1
    obtain rfl : data' = data := hcollisions hmem' hmem (hhash.trans hdigest.symm)
    have hunexpired := UInt32.lt_of_lt_of_le hretained (hentry entry hlookup)
    refine ⟨?_, entry, hlookup, hunexpired, hblob, hcontent, hsize.symm⟩
    rw [checkFault, h.faults]
    rfl

/-- Every receipt that was returned and is in its retention can be used. -/
def System.Durable (c : Crypto) (y : System) : Prop :=
  ∀ receipt data, (receipt, data) ∈ y.returned → y.store.blockNumber < receipt.retentionUntil →
    fetch c y.store receipt.content = .ok data

/-- A receipt is returned when its blob is there, unless its retention is over. -/
def ReturnsWritten (t : Transition System Event) : Prop :=
  ∀ id receipt data, t.label = .returns id receipt data →
    t.pre.store.blockNumber < receipt.retentionUntil →
    t.pre.store.blobs.contains receipt.content.contentHash = true

theorem Refreshes.keeps (h : Refreshes retentionPeriod s s') :
    s.blockNumber ≤ s'.blockNumber ∧
      ∀ k, s.blobs.contains k = true → s'.blobs.contains k = true :=
  ⟨h.block, fun k hk => by rwa [h.blobs]⟩

/-- Blocks and blobs stay, and only a return adds a receipt. -/
theorem step_keeps {event : Event} (hstep : Step c retentionPeriod contents y event y') :
    (y.store.blockNumber ≤ y'.store.blockNumber ∧
      ∀ k, y.store.blobs.contains k = true → y'.store.blobs.contains k = true) ∧
      ∀ receipt data, (receipt, data) ∈ y'.returned → (receipt, data) ∈ y.returned ∨
        ∃ id, event = .returns id receipt data := by
  have hsame : ∀ s : State, s.blockNumber ≤ s.blockNumber ∧
      ∀ k, s.blobs.contains k = true → s.blobs.contains k = true :=
    fun s => ⟨UInt32.le_refl _, fun _ => id⟩
  -- Blobs are only added, and a receipt is new only where a store returns it.
  cases hstep with
  | start id account config data receipt shouldWrite s' hfree hdata hmeta =>
    obtain ⟨-, -, -, -, -, -, hs'⟩ := storeMetadata_ok hmeta
    refine ⟨?_, fun _ _ => Or.inl⟩
    show y.store.blockNumber ≤ s'.blockNumber ∧ _
    rw [hs']
    exact hsame _
  | refuse id account config data e s' hmeta =>
    rw [(storeMetadata_err hmeta).1]
    exact ⟨hsame _, fun _ _ => Or.inl⟩
  | write id io receipt data s' hcall hwrite =>
    refine ⟨?_, fun _ _ => Or.inl⟩
    rw [writeBlobAtomic_apply] at hwrite
    split_ifs at hwrite
    · cases hwrite
      exact hsame _
    · cases io with
      | none =>
        cases hwrite
        refine ⟨UInt32.le_refl _, fun k hk => ?_⟩
        show StorageMap.contains (y.store.blobs.insert receipt.content.contentHash data) k = true
        rw [StorageMap.contains, StorageMap.lookup_insert_eq]
        split_ifs
        · rfl
        · exact hk
      | some message => cases hwrite
  | fail id io receipt data e s' hcall hwrite =>
    rw [writeBlobAtomic_apply] at hwrite
    split_ifs at hwrite
    cases io with
    | none => cases hwrite
    | some message =>
      cases hwrite
      exact ⟨hsame _, fun _ _ => Or.inl⟩
  | cleanup id receipt data e s' hcall hclean =>
    cases hclean
    exact ⟨hsame _, fun _ _ => Or.inl⟩
  | returns id receipt data hcall =>
    refine ⟨hsame _, fun receipt' data' hreturned => ?_⟩
    rcases List.mem_cons.mp hreturned with hnew | hold
    · cases hnew
      exact Or.inr ⟨id, rfl⟩
    · exact Or.inl hold
  | renew account reference s' hrenew =>
    exact ⟨(renew_refreshes hrenew).keeps, fun _ _ => Or.inl⟩
  | advanceBlocks blocks s' hadvance =>
    cases hadvance
    exact ⟨⟨UInt32.le_satAdd _ _, fun _ => id⟩, fun _ _ => Or.inl⟩
  | authorize account transactions bytes expiresAt s' hauthorize =>
    cases hauthorize
    exact ⟨hsame _, fun _ _ => Or.inl⟩

/-- When receipts were returned with their blobs, the blobs are still there. -/
theorem blobs_of_returnsWritten (hr : Run c retentionPeriod contents h y)
    (hwritten : ∀ t ∈ h, ReturnsWritten t) :
    ∀ receipt data, (receipt, data) ∈ y.returned → y.store.blockNumber < receipt.retentionUntil →
      y.store.blobs.contains receipt.content.contentHash = true := by
  induction hr with
  | start hs =>
    intro receipt data hreturned
    rw [hs] at hreturned
    cases hreturned
  | extend hr hstep ih =>
    intro receipt data hreturned hretained
    obtain ⟨⟨hblock, hblobs⟩, honly⟩ := step_keeps hstep
    have hretained := UInt32.lt_of_le_of_lt hblock hretained
    refine hblobs _ ?_
    rcases honly receipt data hreturned with hold | ⟨id, rfl⟩
    · exact ih (fun t ht => hwritten t (List.mem_cons_of_mem _ ht)) receipt data hold hretained
    · exact hwritten _ List.mem_cons_self id receipt data rfl hretained

/-- Receipts are durable in a run exactly when each of them is returned with its blob written. A
store that joins the entry of another store which is still writing breaks this. -/
theorem receipts_durable_iff (c : Crypto) (retentionPeriod : BlockNumber) (contents : Set Bytes)
    (hcollisions : Set.InjOn c.blake2_256 contents) (h : List (Transition System Event))
    (y : System)
    (hr : Run c retentionPeriod contents h y) :
    (y.Durable c ∧ ∀ t ∈ h, t.pre.Durable c) ↔ ∀ t ∈ h, ReturnsWritten t := by
  constructor
  · induction hr with
    | start _ => simp
    | extend hr hstep ih =>
      rintro ⟨hlast, hbefore⟩
      obtain ⟨hpre, hbefore⟩ := List.forall_mem_cons.mp hbefore
      refine List.forall_mem_cons.mpr ⟨?_, ih ⟨hpre, hbefore⟩⟩
      rintro id receipt data rfl hretained
      -- The receipt can be used right after it was returned, so its blob is there.
      have hsane := sane_of_run (hr.extend hstep)
      cases hstep with
      | returns _ _ _ hcall =>
        exact (hsane.fetch_iff hcollisions List.mem_cons_self hretained).mp
          (hlast receipt data List.mem_cons_self hretained)
  · intro hwritten
    have hdurable : ∀ {h' : List (Transition System Event)} {y' : System},
        Run c retentionPeriod contents h' y' → (∀ t ∈ h', ReturnsWritten t) → y'.Durable c :=
      fun hr' hwritten' receipt data hreturned hretained =>
        ((sane_of_run hr').fetch_iff hcollisions hreturned hretained).mpr
          (blobs_of_returnsWritten hr' hwritten' receipt data hreturned hretained)
    refine ⟨hdurable hr hwritten, fun t ht => ?_⟩
    obtain ⟨later, earlier, rfl⟩ := List.append_of_mem ht
    exact hdurable hr.before.1 fun t' ht' => hwritten t' (by simp [ht'])

/-! ### Two stores of one content -/

open Sample

/-- A second store of the same content returns its receipt. Then the write of the first one fails,
and the receipt is worth nothing, within its retention. -/
theorem joined_receipt_lost : ∃ h y receipt, Run crypto 5 {[42]} h y ∧
    (receipt, [42]) ∈ y.returned ∧ y.store.blockNumber < receipt.retentionUntil ∧
      fetch crypto y.store receipt.content = .error .missing := by
  have hstart : Run crypto 5 {[42]} [] System.new := .start rfl
  have hauthorize : Run crypto 5 {[42]} _ _ := hstart.extend
    (Step.authorize _ user 10 100 50 _ rfl)
  have hfirst : Run crypto 5 {[42]} _ _ := hauthorize.extend
    (Step.start _ 1 user {} [42] _ true _ rfl rfl rfl)
  have hsecond : Run crypto 5 {[42]} _ _ := hfirst.extend
    (Step.start _ 2 user {} [42] _ false _ rfl rfl rfl)
  have hreturn : Run crypto 5 {[42]} _ _ := hsecond.extend (Step.returns _ 2 _ _ rfl)
  have hfail : Run crypto 5 {[42]} _ _ := hreturn.extend
    (Step.fail _ 1 (some "disk full") _ _ _ _ rfl rfl)
  have hcleanup : Run crypto 5 {[42]} _ _ := hfail.extend (Step.cleanup _ 1 _ _ _ _ rfl rfl)
  exact ⟨_, _, _, hcleanup, List.mem_cons_self, by decide, rfl⟩

/-- The second store returns after the first one has written the blob. -/
theorem receipts_durable_iff_written : ∃ h y receipt receipt', Run crypto 5 {[42]} h y ∧
    (receipt, [42]) ∈ y.returned ∧ (receipt', [42]) ∈ y.returned ∧
    receipt.location ≠ receipt'.location ∧ y.Durable crypto := by
  have hstart : Run crypto 5 {[42]} [] System.new := .start rfl
  have hauthorize : Run crypto 5 {[42]} _ _ := hstart.extend
    (Step.authorize _ user 10 100 50 _ rfl)
  have hfirst : Run crypto 5 {[42]} _ _ := hauthorize.extend
    (Step.start _ 1 user {} [42] _ true _ rfl rfl rfl)
  have hsecond : Run crypto 5 {[42]} _ _ := hfirst.extend
    (Step.start _ 2 user {} [42] _ false _ rfl rfl rfl)
  have hwrite : Run crypto 5 {[42]} _ _ := hsecond.extend (Step.write _ 1 none _ _ _ rfl rfl)
  have hreturn : Run crypto 5 {[42]} _ _ := hwrite.extend (Step.returns _ 2 _ _ rfl)
  have hboth : Run crypto 5 {[42]} _ _ := hreturn.extend (Step.returns _ 1 _ _ rfl)
  have hiff := receipts_durable_iff crypto 5 {[42]} (Set.injOn_singleton _ _) _ _ hboth
  refine ⟨_, _, _, _, hboth, List.mem_cons_self, List.mem_cons_of_mem _ List.mem_cons_self,
    by decide, (hiff.mpr fun t ht => ?_).1⟩
  intro id receipt data hlabel _
  simp only [List.mem_cons, List.not_mem_nil, or_false] at ht
  -- Only the two returns have a receipt.
  rcases ht with rfl | rfl | rfl | rfl | rfl | rfl
  · cases hlabel
    rfl
  · cases hlabel
    rfl
  all_goals cases hlabel

end MiniJam.Bulletin
