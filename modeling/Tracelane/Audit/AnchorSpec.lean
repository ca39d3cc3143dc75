import Mathlib.Order.Bounds.Basic
import Tracelane.Audit.Anchors
import Tracelane.Audit.ChainSpec

/-
  What an accepted anchor record means.

  A turn without an error has all the batch's rows, the Merkle root of their hashes, and an
  attestation under a trusted key; one that counts as included also has a verified inclusion proof.
  The tables of the loop are read back to the turns that fill them.
-/

namespace Tracelane.Verifier

open List Nat Option
open Std

variable (C : Crypto) (S : Serde)

--
-- Rows of a Batch
--

theorem append_sep_inj {α : Type} {c : α} {xs ys ds es : List α}
    (hDs : c ∉ ds) (hEs : c ∉ es) (h : xs ++ c :: ds = ys ++ c :: es) :
    xs = ys ∧ ds = es := by
  rcases append_eq_append_iff.mp h with ⟨zs, hXs, hDs'⟩ | ⟨zs, hYs, hEs'⟩
  · cases zs with
    | nil => simp_all
    | cons z zs =>
      simp only [cons_append, cons.injEq] at hDs'
      exact absurd (by simp [hDs'.2]) hDs
  · cases zs with
    | nil => simp_all
    | cons z zs =>
      simp only [cons_append, cons.injEq] at hEs'
      exact absurd (by simp [hEs'.2]) hEs

variable {T : String} {tenantPubkey : Hash} {signer : Signer}

/- A decimal number has no slash, so keys do not collide. -/
theorem rowKey_inj {T' : String} {n n' : Nat} :
    rowKey T n = rowKey T' n' ↔ T = T' ∧ n = n' := by
  have hDigits : ∀ n, '/' ∉ toDigits 10 n := by
    intro n hMem
    have := isDigit_of_mem_toDigits (by decide) (by decide) hMem
    exact absurd this (by decide)
  have hList : ∀ (T : String) (n : Nat),
      (rowKey T n).toList = T.toList ++ '/' :: toDigits 10 n := by
    intro T n
    simp [rowKey, toString]
  constructor
  · intro hKey
    have hChars := congrArg String.toList hKey
    rw [hList, hList] at hChars
    rcases append_sep_inj (hDigits n) (hDigits n') hChars with ⟨hT, hN⟩
    refine ⟨String.toList_injective hT, ?_⟩
    rw [← ofDigitChars_ten_toDigits (n := n), hN, ofDigitChars_ten_toDigits]
  · rintro ⟨rfl, rfl⟩
    rfl

variable {rows : List AuditRow}

/- The hash kept for a key is that of a row with the key. -/
theorem rowHashByKey_mem {seq : Nat} {h : Hash}
    (hKey : (rowHashByKey rows)[rowKey T seq]? = some h) :
    ∃ row ∈ rows, row.tenantId = T ∧ row.seq = seq ∧ hexDecode32 row.rowHash = .ok h := by
  have hFold :
      ∀ (l : List AuditRow) (o : Option Hash),
        l.foldl recordRowHash o = some h →
          o = some h ∨ ∃ row ∈ l, hexDecode32 row.rowHash = .ok h := by
    intro l
    induction l with
    | nil =>
      intro o hSome
      exact .inl hSome
    | cons row l ih =>
      intro o hSome
      rcases ih _ hSome with hHead | ⟨r, hMem, hDecode⟩
      · cases hDecode : hexDecode32 row.rowHash with
        | ok h' =>
          simp only [recordRowHash, hDecode] at hHead
          rw [some.inj hHead] at hDecode
          exact .inr ⟨row, by simp, hDecode⟩
        | error e =>
          simp only [recordRowHash, hDecode] at hHead
          exact .inl hHead
      · exact .inr ⟨r, mem_cons_of_mem _ hMem, hDecode⟩
  rw [rowHashByKey, KeyedFold.getElem?_table, TreeMap.getElem?_emptyc] at hKey
  rcases hFold _ _ hKey with hNone | ⟨row, hMem, hDecode⟩
  · cases hNone
  · rw [mem_filter, decide_eq_true_eq, rowKey_inj] at hMem
    exact ⟨row, hMem.1, hMem.2.1, hMem.2.2, hDecode⟩

/-
  The batch's rows, one per covered seq, are in the file, and
  the record's root is the Merkle root of their hashes.
-/
def BatchPresent (rows : List AuditRow) (a : AnchorRecord) (root : Hash) : Prop :=
  ∃ (batch : List AuditRow) (leaves : List Hash),
    (∀ row ∈ batch, row ∈ rows ∧ row.tenantId = a.tenantId) ∧
      batch.map AuditRow.seq = a.seqs ∧
      batch.map (fun row => hexDecode32 row.rowHash) = leaves.map .ok ∧
      hexDecode32 a.merkleRoot = .ok root ∧
      root = merkleRootV2 C leaves

theorem exists_batch {seqs : List Nat} {leaves : List Hash}
    (hLeaves : seqs.mapM (fun seq => (rowHashByKey rows)[rowKey T seq]?) = some leaves) :
    ∃ batch : List AuditRow,
      (∀ row ∈ batch, row ∈ rows ∧ row.tenantId = T) ∧
        batch.map AuditRow.seq = seqs ∧
        batch.map (fun row => hexDecode32 row.rowHash) = leaves.map .ok := by
  induction seqs generalizing leaves with
  | nil =>
    refine ⟨[], by simp, rfl, ?_⟩
    simp only [mapM_nil] at hLeaves
    cases hLeaves
    rfl
  | cons seq seqs ih =>
    simp only [mapM_cons, bind_eq_bind, Option.pure_def, Option.bind_eq_some_iff, Option.some.injEq]
      at hLeaves
    rcases hLeaves with ⟨h, hKey, rest, hRest, rfl⟩
    rcases rowHashByKey_mem hKey with ⟨row, hMem, hTenant, hSeq, hDecode⟩
    rcases ih hRest with ⟨batch, hBatch, hSeqs, hHashes⟩
    refine ⟨row :: batch, ?_, by simp [hSeq, hSeqs], ?_⟩
    · intro r hR
      rcases mem_cons.mp hR with rfl | hR
      · exact ⟨hMem, hTenant⟩
      · exact hBatch r hR
    · simp [hDecode, hHashes]

variable {a : AnchorRecord}

theorem batchRoot_present {root : Hash} (hRoot : batchRoot C (rowHashByKey rows) a = .ok root) :
    BatchPresent C rows a root := by
  unfold batchRoot at hRoot
  by_cases hStripped : a.stripped = true
  · simp [hStripped] at hRoot
  · simp only [hStripped, Bool.false_eq_true, if_false] at hRoot
    cases hLeaves : batchLeaves (rowHashByKey rows) a with
    | none => simp [hLeaves] at hRoot
    | some leaves =>
      cases hClaimed : hexDecode32 a.merkleRoot with
      | error e => simp [hLeaves, hClaimed] at hRoot
      | ok claimedRoot =>
        simp only [hLeaves, hClaimed] at hRoot
        split at hRoot <;> cases hRoot
        rename_i hEq
        rcases exists_batch hLeaves with ⟨batch, hBatch, hSeqs, hHashes⟩
        exact ⟨batch, leaves, hBatch, hSeqs, hHashes, hClaimed, hEq.symm⟩

--
-- Attestations
--

/- The trusted key a signer stands for. -/
def TrustedKey (opts : VerifyOptions) (tenantPubkey key : Hash) : Signer → Prop
| .workspace => key = tenantPubkey
| .platform =>
    key ≠ tenantPubkey ∧ key ∈ opts.platformPubkeys

theorem signingKey_eq_some_iff (opts : VerifyOptions) (tenantPubkey bundlePubkey key : Hash)
    (signer : Signer) :
    signingKey opts tenantPubkey bundlePubkey = some (key, signer) ↔
      key = bundlePubkey ∧ TrustedKey opts tenantPubkey key signer := by
  unfold signingKey
  by_cases hWorkspace : bundlePubkey = tenantPubkey
  · cases signer with
    | workspace => simp [hWorkspace, TrustedKey, eq_comm]
    | platform =>
      simp only [hWorkspace, if_true, TrustedKey]
      constructor
      · intro h
        cases h
      · rintro ⟨hKey, hNe, _⟩
        exact absurd hKey hNe
  · simp only [hWorkspace, if_false, map_eq_some_iff, Prod.mk.injEq]
    constructor
    · rintro ⟨platform, hFind, rfl, rfl⟩
      have hEq := find?_some hFind
      have hMem := mem_of_find?_eq_some hFind
      simp only [decide_eq_true_eq] at hEq
      subst hEq
      exact ⟨rfl, hWorkspace, hMem⟩
    · rintro ⟨rfl, hTrusted⟩
      cases signer with
      | workspace => exact absurd hTrusted hWorkspace
      | platform =>
        refine ⟨key, ?_, rfl, rfl⟩
        cases hFind : opts.platformPubkeys.find? (fun p => key = p) with
        | none =>
          rw [find?_eq_none] at hFind
          exact absurd (by simp) (hFind key hTrusted.2)
        | some p =>
          have hEq := find?_some hFind
          simp only [decide_eq_true_eq] at hEq
          rw [hEq]

/-
  The record carries a valid Ed25519 attestation over the root and its commitment, under the key it
  names, which is trusted as `signer`.
-/
def Attested (opts : VerifyOptions) (tenantPubkey root : Hash)
    (a : AnchorRecord) (signer : Signer) (entry : Option AnchorEntry) : Prop :=
  ∃ key sig,
    base64Arr 32 a.ed25519.pubkey = some key ∧
      TrustedKey opts tenantPubkey key signer ∧
      anchoredEntry C S root a = .ok entry ∧
      base64Arr 64 a.ed25519.signature = some sig ∧
      C.verifyEd25519Raw key (attestMsg C root a entry) sig = .ok ()

variable {opts : VerifyOptions}

/- A key is trusted in one way at most. -/
theorem trustedKey_unique {key : Hash} {signer' : Signer}
    (hFirst : TrustedKey opts tenantPubkey key signer)
    (hSecond : TrustedKey opts tenantPubkey key signer') :
    signer = signer' := by
  cases signer <;> cases signer' <;> simp_all [TrustedKey]

theorem attest_eq_ok_iff (opts : VerifyOptions) (tenantPubkey root : Hash) (a : AnchorRecord)
    (signer : Signer) (entry : Option AnchorEntry) :
    attest C S opts tenantPubkey root a = .ok (signer, entry) ↔
      Attested C S opts tenantPubkey root a signer entry := by
  constructor
  · intro hAttest
    unfold attest at hAttest
    split at hAttest
    · cases hAttest
    · rename_i bundlePubkey hKey
      split at hAttest
      · cases hAttest
      · rename_i key signer' hSigning
        rcases (signingKey_eq_some_iff opts tenantPubkey bundlePubkey key signer').mp hSigning
          with ⟨rfl, hTrusted⟩
        split at hAttest
        · cases hAttest
        · rename_i entry' hEntry
          split at hAttest
          · cases hAttest
          · rename_i sig hSig
            split at hAttest <;> cases hAttest
            rename_i hVerify
            exact ⟨key, sig, hKey, hTrusted, hEntry, hSig, hVerify⟩
  · rintro ⟨key, sig, hKey, hTrusted, hEntry, hSig, hVerify⟩
    have hSigning := (signingKey_eq_some_iff opts tenantPubkey key key signer).mpr ⟨rfl, hTrusted⟩
    simp [attest, hKey, hSigning, hEntry, hSig, hVerify]

--
-- One Turn
--

/- The record's Rekor entry and inclusion proof verify. -/
def PubliclyIncluded (root : Hash) (a : AnchorRecord) : Prop :=
  ∃ rekor entry,
    a.rekor = some rekor ∧
      anchoredEntry C S root a = .ok (some entry) ∧
      C.ecdsaP256Verify entry.point entry.digest entry.sig = true ∧
      verifyInclusion C rekor = .ok ()

theorem publicLayers_clean {rekor : RekorBlock} {entry : AnchorEntry}
    (hClean : (publicLayers C a signer rekor entry).error = none) :
    C.ecdsaP256Verify entry.point entry.digest entry.sig = true ∧
      verifyInclusion C rekor = .ok () ∧
      (publicLayers C a signer rekor entry).included = true ∧
      (publicLayers C a signer rekor entry).signer = some signer := by
  unfold publicLayers at hClean ⊢
  split at hClean
  · rename_i hEcdsa
    cases hInclusion : verifyInclusion C rekor with
    | error e => simp [hInclusion] at hClean
    | ok _ => simp [hEcdsa]
  · simp at hClean

/- What a turn without an error establishes. -/
theorem verifyAnchor_clean (hKey : opts.tenantPubkey = some tenantPubkey)
    (hClean : (verifyAnchor C S opts (rowHashByKey rows) a).error = none) :
    ∃ root signer entry,
      BatchPresent C rows a root ∧
        Attested C S opts tenantPubkey root a signer entry ∧
        (verifyAnchor C S opts (rowHashByKey rows) a).signer = some signer ∧
        ((verifyAnchor C S opts (rowHashByKey rows) a).included =
            true ↔ PubliclyIncluded C S root a) := by
  unfold verifyAnchor at hClean ⊢
  cases hRoot : batchRoot C (rowHashByKey rows) a with
  | error e => simp [hRoot] at hClean
  | ok root =>
    simp only [hRoot, hKey] at hClean ⊢
    cases hAttest : attest C S opts tenantPubkey root a with
    | error e => simp [hAttest] at hClean
    | ok attested =>
      rcases attested with ⟨signer, entry⟩
      have hPresent := batchRoot_present C hRoot
      have hAttested := (attest_eq_ok_iff C S opts tenantPubkey root a signer entry).mp hAttest
      rcases hAttested with ⟨key, sig, hPubkey, hTrusted, hEntry, hRest⟩
      refine ⟨root, signer, entry, hPresent, ⟨key, sig, hPubkey, hTrusted, hEntry, hRest⟩, ?_⟩
      simp only [hAttest] at hClean ⊢
      cases hRekor : a.rekor with
      | none => simp [PubliclyIncluded, hRekor]
      | some rekor =>
        cases entry with
        | none => simp [PubliclyIncluded, hEntry]
        | some entry =>
          simp only [hRekor] at hClean
          rcases publicLayers_clean C hClean with ⟨hEcdsa, hInclusion, hIncluded, hSigner⟩
          simp only [hIncluded, hSigner, true_and, true_iff]
          exact ⟨rekor, entry, hRekor, hEntry, hEcdsa, hInclusion⟩

--
-- Tables
--

/- The turns of one tenant's records. -/
def turnsOf (tenant : String) (turns : List Turn) : List Turn :=
  turns.filter (fun turn => turn.1.tenantId = tenant)

/- The turn may root a window. -/
def roots (turn : Turn) : Bool :=
  turn.2.included && turn.2.signer = some .workspace

variable (turns : List Turn)

/- A tenant's earliest root. -/
theorem getElem?_includedStarts (tenant : String) :
    (includedStarts turns)[tenant]? =
      (((turnsOf tenant turns).filter roots).map (fun turn => turn.1.batchStartSeq)).min? := by
  have hFold :
      ∀ l : List Turn,
        (l.filter roots).foldl (KeyedFold.keepMin (fun turn : Turn => turn.1.batchStartSeq)) none =
          l.foldl recordIncluded none := by
    intro l
    simp only [foldl_filter, roots, Bool.and_eq_true, decide_eq_true_eq]
    rfl
  rw [includedStarts, KeyedFold.getElem?_table,
    TreeMap.getElem?_emptyc, ← KeyedFold.foldl_keepMin, hFold]
  rfl

def signedBy (signer : Signer) (turn : Turn) : Bool :=
  turn.2.signer = some signer

/- The smallest workspace-signed start, `u64::MAX` if none. -/
def workspaceMinStart (turns : List Turn) : Nat :=
  ((turns.filter (signedBy .workspace)).map
    (fun turn => turn.1.batchStartSeq)).foldl min (u64Size - 1)

def platformSigned (turns : List Turn) : List SeqRange :=
  (turns.filter (signedBy .platform)).map (fun turn => turn.1.range)

theorem foldl_recordSigner_some (m : Nat) (platform : List SeqRange) :
    turns.foldl recordSigner (some (m, platform)) =
      some
        (((turns.filter (signedBy .workspace)).map (fun turn => turn.1.batchStartSeq)).foldl min m,
        platform ++ platformSigned turns) := by
  induction turns generalizing m platform with
  | nil => simp [platformSigned]
  | cons turn turns ih =>
    rw [foldl_cons]
    cases hSigner : turn.2.signer with
    | none =>
      simp [recordSigner, hSigner, ih, signedBy, platformSigned]
    | some signer =>
      cases signer with
      | platform =>
        simp [recordSigner, hSigner, ih, signedBy, platformSigned]
      | workspace =>
        have hStep :
            recordSigner (some (m, platform)) turn =
              some (min m turn.1.batchStartSeq, platform) := by
          simp only [recordSigner, hSigner, Option.getD_some]
          split
          · rw [Nat.min_eq_right (by omega)]
          · rw [Nat.min_eq_left (by omega)]
        simp [hStep, hSigner, ih, signedBy, platformSigned]

/- A tenant's signers, once one of its attestations verified. -/
theorem getElem?_signersByTenant (tenant : String) :
    (signersByTenant turns)[tenant]? =
      if (turnsOf tenant turns).all (fun turn => turn.2.signer.isNone) then none
      else
        some (workspaceMinStart (turnsOf tenant turns), platformSigned (turnsOf tenant turns)) := by
  have hNone :
      ∀ l : List Turn,
        l.foldl recordSigner none =
          if l.all (fun turn => turn.2.signer.isNone) then none
          else some (workspaceMinStart l, platformSigned l) := by
    intro l
    induction l with
    | nil => rfl
    | cons turn l ih =>
      cases hSigner : turn.2.signer with
      | none =>
        have hStep : recordSigner none turn = none := by simp [recordSigner, hSigner]
        have hAll :
            (turn :: l).all (fun turn => turn.2.signer.isNone) =
              l.all (fun turn => turn.2.signer.isNone) := by
          simp [hSigner]
        rw [foldl_cons, hStep, ih, hAll]
        simp [workspaceMinStart, platformSigned, signedBy, hSigner]
      | some signer =>
        -- The first signer inserts the default entry.
        have hStep : recordSigner none turn = recordSigner (some (u64Size - 1, [])) turn := by
          simp [recordSigner, hSigner]
        have hSome := foldl_recordSigner_some (turn :: l) (u64Size - 1) []
        rw [foldl_cons] at hSome
        simpa [hStep, hSigner, workspaceMinStart] using hSome
  rw [signersByTenant, KeyedFold.getElem?_table, TreeMap.getElem?_emptyc, hNone]
  rfl

theorem foldl_min_le (xs : List Nat) (m : Nat) :
    xs.foldl min m ≤ m ∧ ∀ x ∈ xs, xs.foldl min m ≤ x := by
  induction xs generalizing m with
  | nil => simp
  | cons y xs ih =>
    rcases ih (min m y) with ⟨hInit, hRest⟩
    simp only [foldl_cons, forall_mem_cons]
    exact ⟨by omega, by omega, hRest⟩

/-
  The downgrade rule: a platform-signed batch lies below the published takeover seq and below every
  workspace-signed batch of its tenant.
-/
theorem platformRanges_below {turns : List Turn}
    (hBelow : (platformRanges opts turns).all platformOk = true) {turn : Turn}
    (hTurn : turn ∈ turns) (hSigner : turn.2.signer = some .platform) :
    (∀ since ∈ opts.workspaceKeySinceSeq,
        turn.1.batchStartSeq < since ∧ turn.1.batchEndSeq < since) ∧
      ∀ other ∈ turns,
        other.1.tenantId = turn.1.tenantId →
          other.2.signer = some .workspace →
          turn.1.batchStartSeq < other.1.batchStartSeq ∧
            turn.1.batchEndSeq < other.1.batchStartSeq := by
  have hOwn : turn ∈ turnsOf turn.1.tenantId turns := by simp [turnsOf, hTurn]
  have hEntry :
      (signersByTenant turns)[turn.1.tenantId]? =
        some
          (workspaceMinStart (turnsOf turn.1.tenantId turns),
            platformSigned (turnsOf turn.1.tenantId turns)) := by
    rw [getElem?_signersByTenant, if_neg]
    simp only [List.all_eq_true, not_forall]
    exact ⟨turn, hOwn, by simp [hSigner]⟩
  have hRange : turn.1.range ∈ platformSigned (turnsOf turn.1.tenantId turns) := by
    refine mem_map.mpr ⟨turn, ?_, rfl⟩
    simp [hOwn, signedBy, hSigner]
  have hOk :
      platformOk
        (platformBoundary opts
          (workspaceMinStart (turnsOf turn.1.tenantId turns)),
          turn.1.range) = true := by
    refine all_eq_true.mp hBelow _ ?_
    refine mem_flatMap.mpr ⟨_, TreeMap.mem_toList_iff_getElem?_eq_some.mpr hEntry, ?_⟩
    exact mem_map.mpr ⟨_, hRange, rfl⟩
  simp only [platformOk, Bool.and_eq_true, decide_eq_true_eq] at hOk
  simp only [AnchorRecord.range, platformBoundary] at hOk
  refine ⟨?_, ?_⟩
  · intro since hSince
    simp only [Option.mem_def] at hSince
    simp only [hSince] at hOk
    omega
  · intro other hOther hTenant hWorkspace
    have hLeast : workspaceMinStart (turnsOf turn.1.tenantId turns) ≤ other.1.batchStartSeq := by
      refine (foldl_min_le _ _).2 _ (mem_map.mpr ⟨other, ?_, rfl⟩)
      simp [turnsOf, hOther, hTenant, signedBy, hWorkspace]
    cases hSince : opts.workspaceKeySinceSeq with
    | none | some _ =>
      simp only [hSince] at hOk
      omega

end Tracelane.Verifier
