import Tracelane.Audit.ChainSpec
import Tracelane.Audit.Deserialize
import Tracelane.Audit.PortDecode

/-
  The chain passes of the ports next to the Rust one, on rows of format v2.1.

  A tenant's rows pass the Rust verifier exactly when they pass a port's and every text the port
  decoded on the way is one the Rust decoders read as well.
-/

namespace Tracelane.Verifier

open List
open Std
open Transition

variable (C : Crypto) (S : Serde)

namespace Port

variable (P : Port)

--
-- One Tenant
--

/- A row that raises no error moves the chain entry on. -/
structure RowLinks (opts : VerifyOptions) (tenantUuid : Bytes) (entry : Entry)
    (row : AuditRow) (next : Entry) : Prop where
  seq : row.seq = entry.1
  prevHash : P.prevHashOk (resolveFormat row opts.formatVersion) entry.2 row = true
  hash :
    ∃ canon,
      P.canonPayload (resolveFormat row opts.formatVersion) row = some canon ∧
        P.recomputeHash C (resolveFormat row opts.formatVersion)
            entry.2 tenantUuid row canon = next.2
  stored : P.hexBytes row.rowHash = some next.2
  nextSeq : next.1 = entry.1 + 1

variable (opts : VerifyOptions)

theorem chainPass_links (tenantUuid : Bytes) :
    (P.chainPass C).Links opts tenantUuid = P.RowLinks C opts tenantUuid := by
  funext entry row next
  apply propext
  constructor
  · rintro ⟨hSeq, hPrev, hHash, hNext, hSucc⟩
    exact ⟨hSeq, hPrev, hHash, hNext, hSucc⟩
  · rintro ⟨hSeq, hPrev, hHash, hNext, hSucc⟩
    exact ⟨hSeq, hPrev, hHash, hNext, hSucc⟩

/- The first in-scope row roots the chain of them all. -/
def ChainFrom (opts : VerifyOptions) (tenant : String) (start : Option Nat)
    (rows : List AuditRow) : Prop :=
  ∀ s, start = some s →
    ∀ first ∈ (inScope s rows).head?,
      ∃ tenantUuid final,
        P.uuidBytes tenant = .ok tenantUuid ∧
          Run (P.RowLinks C opts tenantUuid)
            (P.rootEntry C s (resolveFormat first opts.formatVersion) tenantUuid first)
            (inScope s rows) final

--
-- All Tenants
--

theorem replay_clean_iff (starts : Dict String (Option Nat)) (rows : List AuditRow) :
    (P.replay C opts starts rows).all List.isEmpty = true ↔
      ∀ tenant, P.ChainFrom C opts tenant (starts.get? tenant).join (rowsOf tenant rows) := by
  rw [replay, ChainPass.replay_clean_iff]
  simp only [ChainPass.ChainFrom, chainPass_links]
  rfl

variable (rows : List AuditRow)

/- A port finds the least seqs the Rust verifier finds. -/
theorem get?_minSeqByTenant (tenant : String) :
    (minSeqByTenant rows).get? tenant = (Verifier.minSeqByTenant rows)[tenant]? := by
  rw [getElem?_minSeqByTenant, minSeqByTenant, Dict.get?_tally, ← KeyedFold.foldl_keepMin]
  change foldl _ none (rowsOf tenant rows) = _
  congr 1
  funext least row
  cases least with
  | none => rfl
  | some m => rfl

variable (includedStarts : TreeMap String Nat)

theorem get?_startByTenant (rows : List AuditRow) (tenant : String) :
    ((startByTenant includedStarts rows).get? tenant).join =
      startOf (Verifier.startByTenant includedStarts rows) tenant := by
  rw [startByTenant, Dict.get?_mapValues, get?_minSeqByTenant,
    startOf, Verifier.startByTenant, TreeMap.getElem?_map]

/- The tenants, in the order of another dictionary. -/
theorem minSeqByTenant_perm :
    (minSeqByTenant rows).entries.Perm (Verifier.minSeqByTenant rows).toList := by
  apply Dict.perm_of_get?
  · have hKeys := TreeMap.distinct_keys_toList (t := Verifier.minSeqByTenant rows)
    refine hKeys.imp (fun hNe hSame => ?_)
    rw [hSame] at hNe
    exact hNe Std.ReflCmp.compare_self
  · intro tenant seq
    rw [TreeMap.mem_toList_iff_getElem?_eq_some, get?_minSeqByTenant]

/- A port writes what the Rust pass writes but the errors. -/
theorem verifyChain_report (report : VerifyReport) :
    let ported := P.verifyChain C opts rows includedStarts report
    let rust := Verifier.verifyChain C S opts rows includedStarts report
    ported.trustEstablished = rust.trustEstablished ∧
      ported.verifiedFromSeq = rust.verifiedFromSeq ∧
      ported.hashChainValid =
        (report.hashChainValid &&
          (P.replay C opts (startByTenant includedStarts rows) rows).all isEmpty) := by
  intro ported rust
  have hPerm := minSeqByTenant_perm rows
  rcases foldl_recordStart includedStarts
    (minSeqByTenant rows).entries report none with
    ⟨hReport, hLatest⟩
  have hTrust :
      ported.trustEstablished =
        (report.trustEstablished &&
          (minSeqByTenant rows).entries.all (fun entry =>
            (selectStart includedStarts entry.1 entry.2).isSome)) := by
    simp only [ported, verifyChain, foldl_recordChainErrors, selectStarts, hReport]
  have hFrom :
      ported.verifiedFromSeq = latestStart includedStarts (minSeqByTenant rows).entries := by
    simp [ported, verifyChain, foldl_recordChainErrors, selectStarts, hLatest, latestStart,
      Option.getD_none]
  have hRust := Verifier.verifyChain_report C S opts rows includedStarts report
  simp only at hRust
  refine ⟨?_, ?_, ?_⟩
  · simp only [hTrust, rust, hRust]
    rw [hPerm.all_eq]
  · simp only [hFrom, rust, hRust]
    unfold latestStart
    exact (hPerm.filterMap _).foldl_eq 0
  · simp only [ported, verifyChain, foldl_recordChainErrors, selectStarts, hReport]

end Port

--
-- One Row, Twice
--

variable {C S} {P : Port} {plain sound : String → Bool} {opts : VerifyOptions}
variable {tenantUuid : ByteArr 16} {row : AuditRow}

/- The texts of a row that are decoded. -/
def plainRow (plain : String → Bool) (row : AuditRow) : Bool :=
  plain row.prevHash && plain row.rowHash

theorem resolveFormat_v2_1 (opts : VerifyOptions) (hFormat : row.format = some "v2.1") :
    resolveFormat row opts.formatVersion = .v2_1 := by
  unfold resolveFormat
  rw [hFormat]
  rfl

variable {entry next : ChainEntry}

section

variable (hReads : Reads P plain sound)
include hReads

/- A row the Rust pass accepts. -/
theorem RowLinks.ported (hFormat : row.format = some "v2.1")
    (hLinks : RowLinks C S opts tenantUuid entry row next) :
    P.RowLinks C opts tenantUuid.bytes
        (entry.1, entry.2.bytes) row
        (entry.1 + 1, next.2.bytes) ∧
      plainRow plain row = true := by
  have hV21 := resolveFormat_v2_1 opts hFormat
  rcases (hReads.hash _ _).mp hLinks.stored with ⟨hPlainRow, hStored⟩
  have hPrev := hLinks.prevHash
  rcases hLinks.hash with ⟨canon, hCanon, hHash⟩
  rw [hV21] at hPrev hCanon hHash
  have hPorted : P.prevHashOk .v2_1 entry.2.bytes row = true ∧ plain row.prevHash = true := by
    unfold prevHashOk at hPrev
    unfold Port.prevHashOk
    simp only [FormatVersion.isV2Family, if_true] at hPrev ⊢
    split at hPrev
    · rename_i hGenesis
      rw [if_pos hGenesis]
      refine ⟨rfl, ?_⟩
      rw [String.isEmpty_iff.mp hGenesis.2]
      exact hReads.empty
    · rename_i hOther
      rw [if_neg hOther]
      split at hPrev
      · rename_i h hOk
        rcases (hReads.hash _ _).mp hOk with ⟨hPlain, hBytes⟩
        rw [of_decide_eq_true hPrev] at hBytes
        exact ⟨decide_eq_true hBytes, hPlain⟩
      · cases hPrev
  refine ⟨⟨hLinks.seq, ?_, ⟨canon, ?_, ?_⟩, hStored, rfl⟩, ?_⟩
  · rw [hV21]
    exact hPorted.1
  · rw [hV21]
    exact hCanon
  · rw [hV21, ← hHash]
    rfl
  · unfold plainRow
    rw [hPorted.2, hPlainRow]
    rfl

/- A row a port accepts, all of whose texts are plain. -/
theorem Port.RowLinks.unported (hFormat : row.format = some "v2.1")
    (hPlain : plainRow plain row = true) {seq : Nat} {h : Hash} {next : Port.Entry}
    (hLinks : P.RowLinks C opts tenantUuid.bytes (seq, h.bytes) row next) :
    ∃ g : Hash,
      next = (seq + 1, g.bytes) ∧
        Verifier.RowLinks C S opts tenantUuid (seq, h) row ((seq + 1) % u64Size, g) := by
  have hV21 := resolveFormat_v2_1 opts hFormat
  unfold plainRow at hPlain
  rw [Bool.and_eq_true] at hPlain
  have hPrev := hLinks.prevHash
  rcases hLinks.hash with ⟨canon, hCanon, hHash⟩
  rw [hV21] at hPrev hCanon hHash
  have hG :
      next.2 =
        (Verifier.rowHashV2 C h tenantUuid row.seq
          row.eventType.bytes row.actor.bytes
          (utf8 canon)).bytes :=
    hHash.symm
  have hStored := hLinks.stored
  rw [hG] at hStored
  refine ⟨_, Prod.ext hLinks.nextSeq hG, hLinks.seq, ?_, ⟨canon, ?_, ?_⟩,
    (hReads.hash _ _).mpr ⟨hPlain.2, hStored⟩, rfl⟩
  · rw [hV21]
    unfold Port.prevHashOk at hPrev
    unfold Verifier.prevHashOk
    simp only [FormatVersion.isV2Family, if_true] at hPrev ⊢
    split at hPrev
    · rename_i hGenesis
      rw [if_pos hGenesis]
    · rename_i hOther
      rw [if_neg hOther, (hReads.hash _ _).mpr ⟨hPlain.1, of_decide_eq_true hPrev⟩]
      exact decide_eq_true rfl
  · rw [hV21]
    exact hCanon
  · rw [hV21]
    rfl

end

--
-- One Chain, Twice
--

/- The expected seq does not come round to a row's. -/
def NoWrap (rows : List AuditRow) : Prop :=
  ∀ row ∈ rows, ∀ row' ∈ rows, row.seq + 1 = u64Size → row'.seq ≠ 0

variable {rows : List AuditRow} {entry final : ChainEntry}

section

variable (hReads : Reads P plain sound) (hFormat : ∀ row ∈ rows, row.format = some "v2.1")
include hReads hFormat

theorem run_ported (hNoWrap : NoWrap rows)
    (hRun : Run (RowLinks C S opts tenantUuid) entry rows final) :
    (∃ last, Run (P.RowLinks C opts tenantUuid.bytes) (entry.1, entry.2.bytes) rows last) ∧
      ∀ row ∈ rows, plainRow plain row = true := by
  induction hRun with
  | nil entry => exact ⟨⟨_, .nil _⟩, by simp⟩
  | @cons entry next final row rows hLinks hRest ih =>
    rcases hLinks.ported hReads (hFormat row (by simp)) with
      ⟨hPorted, hPlain⟩
    rcases ih (fun r hMem => hFormat r (by simp [hMem]))
      (fun r hMem r' hMem' => hNoWrap r (by simp [hMem]) r' (by simp [hMem']))
      with ⟨⟨last, hTail⟩, hPlains⟩
    refine ⟨?_, ?_⟩
    · cases hRest with
      | nil => exact ⟨_, .cons hPorted (.nil _)⟩
      | @cons _ after _ row' rows' hLinks' hRest' =>
        -- A row follows, so the expected seq is its seq.
        have hNext : next.1 = entry.1 + 1 := by
          have hSeq' := hLinks'.seq
          have hFits := row.seq_lt
          rw [hLinks.seq] at hFits
          rw [hLinks.nextSeq] at hSeq' ⊢
          apply Nat.mod_eq_of_lt
          by_contra hWrap
          have hTop : row.seq + 1 = u64Size := by
            rw [hLinks.seq]
            omega
          apply hNoWrap row (by simp) row' (by simp) hTop
          rw [hSeq', ← hLinks.seq, hTop, Nat.mod_self]
        rw [hNext] at hTail
        exact ⟨last, .cons hPorted hTail⟩
    · simp only [forall_mem_cons]
      exact ⟨hPlain, hPlains⟩

theorem run_unported
    (hPlain : ∀ row ∈ rows, plainRow plain row = true) {seq : Nat} {h : Hash} {last : Port.Entry}
    (hRun : Run (P.RowLinks C opts tenantUuid.bytes) (seq, h.bytes) rows last) :
    ∃ final, Run (RowLinks C S opts tenantUuid) (seq, h) rows final := by
  induction rows generalizing seq h with
  | nil => exact ⟨_, .nil _⟩
  | cons row rows ih =>
    rcases Run.cons_iff.mp hRun with ⟨next, hLinks, hRest⟩
    rcases hLinks.unported (S := S) hReads
      (hFormat row (by simp)) (hPlain row (by simp)) with
      ⟨g, rfl, hRust⟩
    cases rows with
    | nil => exact ⟨_, .cons hRust (.nil _)⟩
    | cons row' rows =>
      rcases ih (fun r hMem => hFormat r (by simp [hMem]))
        (fun r hMem => hPlain r (by simp [hMem]))
        hRest with ⟨final, hTail⟩
      have hFits : seq + 1 < u64Size := by
        rcases Run.cons_iff.mp hRest with ⟨_, hLinks', _⟩
        have hSeq' : row'.seq = seq + 1 := hLinks'.seq
        rw [← hSeq']
        exact row'.seq_lt
      rw [Nat.mod_eq_of_lt hFits] at hRust
      exact ⟨final, .cons hRust hTail⟩

end

/- Every text decoded for the rows in scope is plain, and a window is rooted at a hash. -/
def Legible (plain sound : String → Bool) (start : Option Nat) (rows : List AuditRow) : Prop :=
  ∀ s, start = some s →
    (∀ row ∈ inScope s rows, plain row.tenantId = true ∧ plainRow plain row = true) ∧
      (s ≠ 0 → ∀ first ∈ (inScope s rows).head?, sound first.prevHash = true)

variable {s : Nat}

/- Rooted at the same hash, where the window declares one. -/
theorem rootEntry_ported (hReads : Reads P plain sound) {first : AuditRow}
    (hDeclared : s ≠ 0 → ∃ h, hexDecode32 first.prevHash = .ok h) :
    P.rootEntry C s .v2_1 tenantUuid.bytes first =
        ((rootEntry C s .v2_1 tenantUuid first).1, (rootEntry C s .v2_1 tenantUuid first).2.bytes) ∧
      (s ≠ 0 → sound first.prevHash = true) := by
  unfold Port.rootEntry rootEntry
  by_cases hGenesis : s = 0
  · rw [if_pos hGenesis, if_pos hGenesis]
    exact ⟨rfl, fun hWindow => absurd hGenesis hWindow⟩
  · rcases hDeclared hGenesis with ⟨h, hOk⟩
    rcases hReads.seed _ h hOk with ⟨hSound, hSeed⟩
    rw [if_neg hGenesis, if_neg hGenesis, hOk, hSeed]
    exact ⟨rfl, fun _ => hSound⟩

/- The first row of a window declares the hash it roots at. -/
theorem RowLinks.declares (hFormat : row.format = some "v2.1")
    (hWindow : s ≠ 0) (hSeq : entry.1 = s) (hLinks : RowLinks C S opts tenantUuid entry row next) :
    ∃ h, hexDecode32 row.prevHash = .ok h := by
  have hPrev := hLinks.prevHash
  rw [resolveFormat_v2_1 opts hFormat] at hPrev
  unfold prevHashOk at hPrev
  have hNonzero : ¬ (row.seq = 0 ∧ row.prevHash.isEmpty) :=
    fun hGenesis => hWindow ((hLinks.seq.trans hSeq).symm.trans hGenesis.1)
  simp only [FormatVersion.isV2Family, if_true, if_neg hNonzero] at hPrev
  split at hPrev
  · rename_i h hOk
    exact ⟨h, hOk⟩
  · cases hPrev

theorem Port.RowLinks.declares (hFormat : row.format = some "v2.1")
    (hWindow : s ≠ 0) {b seed : Bytes} {entry next : Port.Entry}
    (hEntry : entry = (s, seed)) (hLinks : P.RowLinks C opts b entry row next) :
    P.hexBytes row.prevHash = some seed := by
  have hPrev := hLinks.prevHash
  have hSeq := hLinks.seq
  rw [hEntry] at hPrev hSeq
  rw [resolveFormat_v2_1 opts hFormat] at hPrev
  unfold Port.prevHashOk at hPrev
  have hNonzero : ¬ (row.seq = 0 ∧ row.prevHash.isEmpty) :=
    fun hGenesis => hWindow (hSeq.symm.trans hGenesis.1)
  simp only [FormatVersion.isV2Family, if_true, if_neg hNonzero] at hPrev
  exact of_decide_eq_true hPrev

theorem rootEntry_seq (s : Nat) (first : AuditRow) :
    (rootEntry C s .v2_1 tenantUuid first).1 = s := by
  unfold rootEntry
  split
  · rename_i hGenesis
    exact hGenesis.symm
  · rfl

/- No file has rows enough for the expected seq to wrap. -/
theorem noWrap_of_run (hScope : ∀ row ∈ rows, s ≤ row.seq)
    (hFits : rows.length < u64Size ∨ ∀ row ∈ rows, row.seq + 1 < u64Size) (hSeq : entry.1 = s)
    (hRun : Run (RowLinks C S opts tenantUuid) entry rows final) :
    NoWrap rows := by
  intro row hRow row' hRow' hTop hZero
  rcases hFits with hLen | hSmall
  · have hGenesis : s = 0 := by
      have hIn := hScope row' hRow'
      omega
    have hSeqs := run_seqs C S opts tenantUuid hRun hScope (.inr (by omega))
    have hIndex : row.seq ∈ range' entry.1 rows.length := by
      rw [← hSeqs]
      exact mem_map_of_mem hRow
    rw [mem_range'_1] at hIndex
    omega
  · have hLt := hSmall row hRow
    omega

theorem mem_inScope_iff :
    row ∈ inScope s rows ↔ row ∈ rows ∧ s ≤ row.seq := by
  unfold inScope
  rw [mem_filter, decide_eq_true_eq]

section Tenant

variable {tenant : String} {start : Option Nat} {rows : List AuditRow}
variable (hReads : Reads P plain sound) (hTenant : ∀ row ∈ rows, row.tenantId = tenant)
variable (hFormat : ∀ row ∈ rows, row.format = some "v2.1")
include hReads hTenant hFormat

/- A tenant whose rows pass the Rust verifier. -/
theorem ChainFrom.ported (hFits : rows.length < u64Size ∨ ∀ row ∈ rows, row.seq + 1 < u64Size)
    (hChain : ChainFrom C S opts tenant start rows) {s : Nat}
    (hStart : start = some s) {first : AuditRow} (hFirst : first ∈ (inScope s rows).head?) :
    (∃ b last,
        P.uuidBytes tenant = .ok b ∧
          Run (P.RowLinks C opts b)
            (P.rootEntry C s (resolveFormat first opts.formatVersion) b first)
            (inScope s rows) last) ∧
      (∀ row ∈ inScope s rows, plain row.tenantId = true ∧ plainRow plain row = true) ∧
      (s ≠ 0 → sound first.prevHash = true) := by
  rcases hChain s hStart first hFirst with ⟨tenantUuid, final, hUuid, hRun⟩
  rcases (hReads.uuid _ _).mp hUuid with ⟨hPlain, hBytes⟩
  have hFormats : ∀ row ∈ inScope s rows, row.format = some "v2.1" :=
    fun row hMem => hFormat row (mem_inScope_iff.mp hMem).1
  have hMem := mem_of_mem_head? hFirst
  have hV21 := resolveFormat_v2_1 opts (hFormats first hMem)
  rw [hV21] at hRun ⊢
  have hNoWrap : NoWrap (inScope s rows) := by
    apply noWrap_of_run (fun row hRow => (mem_inScope_iff.mp hRow).2) _ (rootEntry_seq s first) hRun
    rcases hFits with hLen | hSmall
    · exact .inl (Nat.lt_of_le_of_lt (length_filter_le _ _) hLen)
    · exact .inr (fun row hRow => hSmall row (mem_inScope_iff.mp hRow).1)
  have hDeclared : s ≠ 0 → ∃ h, hexDecode32 first.prevHash = .ok h := by
    intro hWindow
    rcases eq_cons_of_mem_head? hFirst with hCons
    rw [hCons] at hRun
    rcases Run.cons_iff.mp hRun with ⟨next, hLinks, _⟩
    exact hLinks.declares (hFormats first hMem) hWindow (rootEntry_seq s first)
  rcases rootEntry_ported hReads hDeclared with ⟨hRoot, hSound⟩
  rcases run_ported hReads hFormats hNoWrap hRun with ⟨⟨last, hPorted⟩, hPlains⟩
  refine ⟨⟨tenantUuid.bytes, last, hBytes, ?_⟩, ?_, hSound⟩
  · rw [hRoot]
    exact hPorted
  · intro row hRow
    rw [hTenant row (mem_inScope_iff.mp hRow).1]
    exact ⟨hPlain, hPlains row hRow⟩

/- A tenant whose legible rows pass a port. -/
theorem Port.ChainFrom.unported
    (hChain : P.ChainFrom C opts tenant start rows) (hLegible : Legible plain sound start rows) :
    Verifier.ChainFrom C S opts tenant start rows := by
  intro s hStart first hFirst
  rcases hChain s hStart first hFirst with ⟨b, last, hBytes, hRun⟩
  rcases hLegible s hStart with ⟨hPlains, hSound⟩
  have hFormats : ∀ row ∈ inScope s rows, row.format = some "v2.1" :=
    fun row hMem => hFormat row (mem_inScope_iff.mp hMem).1
  have hMem := mem_of_mem_head? hFirst
  have hPlain : plain tenant = true := by
    rw [← hTenant first (mem_inScope_iff.mp hMem).1]
    exact (hPlains first hMem).1
  have hV21 := resolveFormat_v2_1 opts (hFormats first hMem)
  rw [hV21] at hRun ⊢
  have hArr : ∃ u : ByteArr 16, u.bytes = b := ⟨⟨b, hReads.uuidLength _ _ hPlain hBytes⟩, rfl⟩
  rcases hArr with ⟨tenantUuid, rfl⟩
  have hUuid : uuidStrToBytes tenant = .ok tenantUuid := (hReads.uuid _ _).mpr ⟨hPlain, hBytes⟩
  have hDeclared : s ≠ 0 → ∃ h, hexDecode32 first.prevHash = .ok h := by
    intro hWindow
    rw [eq_cons_of_mem_head? hFirst] at hRun
    rcases Run.cons_iff.mp hRun with ⟨next, hLinks, _⟩
    have hSeed : P.hexBytes first.prevHash = some (P.windowSeed first.prevHash) :=
      hLinks.declares (hFormats first hMem) hWindow (if_neg hWindow)
    have hLen := hReads.seedLength _ hSeed (hSound hWindow first hFirst)
    refine ⟨⟨P.windowSeed first.prevHash, hLen⟩, ?_⟩
    apply (hReads.hash _ _).mpr
    refine ⟨?_, hSeed⟩
    have hPlainRow := (hPlains first hMem).2
    unfold plainRow at hPlainRow
    rw [Bool.and_eq_true] at hPlainRow
    exact hPlainRow.1
  rw [(rootEntry_ported hReads hDeclared).1] at hRun
  rcases run_unported (S := S) hReads hFormats
    (fun row hRow => (hPlains row hRow).2) hRun with
    ⟨final, hRust⟩
  exact ⟨tenantUuid, final, hUuid, hRust⟩

/- Rows pass the Rust verifier exactly when they pass a port and are legible. -/
theorem chainFrom_iff (hFits : rows.length < u64Size ∨ ∀ row ∈ rows, row.seq + 1 < u64Size) :
    ChainFrom C S opts tenant start rows ↔
      P.ChainFrom C opts tenant start rows ∧ Legible plain sound start rows := by
  constructor
  · intro hChain
    refine ⟨?_, ?_⟩
    · intro s hStart first hFirst
      exact (hChain.ported hReads hTenant hFormat hFits hStart hFirst).1
    · intro s hStart
      refine ⟨?_, ?_⟩
      · intro row hRow
        cases hFirst : (inScope s rows).head? with
        | none =>
          rw [head?_eq_none_iff.mp hFirst] at hRow
          cases hRow
        | some first =>
          exact (hChain.ported hReads hTenant hFormat hFits hStart hFirst).2.1 row hRow
      · intro hWindow first hFirst
        exact (hChain.ported hReads hTenant hFormat hFits hStart hFirst).2.2 hWindow
  · rintro ⟨hChain, hLegible⟩
    exact hChain.unported hReads hTenant hFormat hLegible

end Tenant

--
-- Agreement
--

variable (rows : List AuditRow) (includedStarts : TreeMap String Nat)
variable (report : VerifyReport)

/- The seq a tenant of the file is verified from. -/
def startIn (tenant : String) : Option Nat :=
  startOf (startByTenant includedStarts rows) tenant

/-
  A port and the Rust verifier differ in `hash_chain_valid` only, and there exactly on rows that
  link for the port and are not all legible.
-/
theorem Port.agrees_iff (hReads : Reads P plain sound)
    (hFormat : ∀ row ∈ rows, row.format = some "v2.1")
    (hFits : rows.length < u64Size ∨ ∀ row ∈ rows, row.seq + 1 < u64Size) :
    let ported := P.verifyChain C opts rows includedStarts report
    let rust := Verifier.verifyChain C S opts rows includedStarts report
    ported.trustEstablished = rust.trustEstablished ∧
      ported.verifiedFromSeq = rust.verifiedFromSeq ∧
      (ported.hashChainValid = rust.hashChainValid ↔
        (report.hashChainValid = true →
          (∀ tenant,
            P.ChainFrom C opts tenant (startIn rows includedStarts tenant) (rowsOf tenant rows)) →
          ∀ tenant,
            Legible plain sound (startIn rows includedStarts tenant) (rowsOf tenant rows))) := by
  intro ported rust
  rcases P.verifyChain_report C S opts rows includedStarts report with ⟨hTrust, hFrom, hPorted⟩
  refine ⟨hTrust, hFrom, ?_⟩
  have hRust :
      rust.hashChainValid =
        (report.hashChainValid &&
          (Verifier.replay C S opts
            (Verifier.startByTenant includedStarts rows)
            rows).all isEmpty) := by
    have hReport := Verifier.verifyChain_report C S opts rows includedStarts report
    simp only at hReport
    simp only [rust, hReport]
  have hClean :
      (P.replay C opts (Port.startByTenant includedStarts rows) rows).all isEmpty = true ↔
        ∀ tenant,
          P.ChainFrom C opts tenant (startIn rows includedStarts tenant) (rowsOf tenant rows) := by
    rw [Port.replay_clean_iff]
    simp only [Port.get?_startByTenant]
    rfl
  have hRustClean :
      (Verifier.replay C S opts
          (Verifier.startByTenant includedStarts rows)
          rows).all isEmpty = true ↔
        (∀ tenant,
          P.ChainFrom C opts tenant (startIn rows includedStarts tenant) (rowsOf tenant rows)) ∧
          ∀ tenant,
            Legible plain sound (startIn rows includedStarts tenant) (rowsOf tenant rows) := by
    rw [Verifier.replay_clean_iff, ← forall_and]
    refine forall_congr' (fun tenant => ?_)
    have hRows : ∀ row ∈ rowsOf tenant rows, row ∈ rows ∧ row.tenantId = tenant := by
      intro row hMem
      rcases mem_filter.mp hMem with ⟨hRow, hKey⟩
      exact ⟨hRow, of_decide_eq_true hKey⟩
    apply chainFrom_iff hReads (fun row hRow => (hRows row hRow).2)
      (fun row hRow => hFormat row (hRows row hRow).1)
    rcases hFits with hLen | hSmall
    · exact .inl (Nat.lt_of_le_of_lt (length_filter_le _ _) hLen)
    · exact .inr (fun row hRow => hSmall row (hRows row hRow).1)
  rw [Bool.eq_iff_iff, hPorted, hRust, Bool.and_eq_true, Bool.and_eq_true, hClean, hRustClean]
  constructor
  · intro hSame hReport hChains
    exact (hSame.mp ⟨hReport, hChains⟩).2.2
  · intro hLegible
    constructor
    · rintro ⟨hReport, hChains⟩
      exact ⟨hReport, hChains, hLegible hReport hChains⟩
    · rintro ⟨hReport, hChains, _⟩
      exact ⟨hReport, hChains⟩

--
-- Python
--

/- No text of a row in scope has ASCII white space. -/
def SpaceFree : Prop :=
  ∀ row ∈ rows, ∀ s,
    startIn rows includedStarts row.tenantId = some s →
      s ≤ row.seq →
        spaceFree row.tenantId = true ∧
          spaceFree row.prevHash = true ∧
          spaceFree row.rowHash = true

theorem spaceFree_iff_legible :
    SpaceFree rows includedStarts ↔
      ∀ tenant,
        Legible spaceFree (fun _ => true)
          (startIn rows includedStarts tenant)
          (rowsOf tenant rows) := by
  unfold SpaceFree Legible plainRow
  constructor
  · intro hFree tenant s hStart
    refine ⟨?_, fun _ _ _ => rfl⟩
    intro row hScope
    rcases mem_inScope_iff.mp hScope with ⟨hMem, hIn⟩
    rcases mem_filter.mp hMem with ⟨hRow, hKey⟩
    rcases hFree row hRow s
      (by rw [of_decide_eq_true hKey]; exact hStart) hIn with
      ⟨hTenant, hPrev, hHash⟩
    exact ⟨hTenant, by rw [hPrev, hHash]; rfl⟩
  · intro hLegible row hRow s hStart hIn
    have hScope : row ∈ inScope s (rowsOf row.tenantId rows) :=
      mem_inScope_iff.mpr ⟨mem_filter.mpr ⟨hRow, decide_eq_true rfl⟩, hIn⟩
    rcases (hLegible row.tenantId s hStart).1 row hScope with ⟨hTenant, hPlain⟩
    rw [Bool.and_eq_true] at hPlain
    exact ⟨hTenant, hPlain⟩

variable (C S opts)

/-
  The Python verifier passes over white space between the digits of a hash and of a tenant id;
  nothing else sets the two apart.  A list has fewer than `2 ^ 63` rows.
-/
theorem python_agrees_iff (L : PyLib) (hFormat : ∀ row ∈ rows, row.format = some "v2.1")
    (hFits : rows.length < 2 ^ 63) :
    let py := (python L).verifyChain C opts rows includedStarts report
    let rust := verifyChain C S opts rows includedStarts report
    py.trustEstablished = rust.trustEstablished ∧
      py.verifiedFromSeq = rust.verifiedFromSeq ∧
      (py.hashChainValid = rust.hashChainValid ↔
        (report.hashChainValid = true →
          (∀ tenant,
            (python L).ChainFrom C opts tenant (startIn rows includedStarts tenant)
              (rowsOf tenant rows)) →
          SpaceFree rows includedStarts)) := by
  rw [spaceFree_iff_legible]
  have hLen : rows.length < u64Size := Nat.lt_trans hFits (by decide)
  exact Port.agrees_iff rows includedStarts report (python_reads L) hFormat (.inl hLen)

def samplePyLib : PyLib where
  fromhexError _ := "non-hexadecimal number found in fromhex() arg at position 0"
  dumpsUnicode := Value.canonical
  dumpsAscii := Value.canonical

theorem emptyObject_fits :
    "\x7b\x7d".utf8ByteSize < 2 ^ 63 := by
  decide

/- The first row of a ledger, with its hash as given. -/
def sampleRow (rowHash : String) : AuditRow where
  format := some "v2.1"
  tenantId := "00000000000000000000000000000000"
  seq := 0
  seq_lt := u64Size_pos
  eventTime := ""
  eventType := ⟨"e", by decide⟩
  actor := ⟨"a", by decide⟩
  payload := .string ⟨"\x7b\x7d", emptyObject_fits⟩
  prevHash := ""
  rowHash := rowHash
  rekorEntryId := none

def sampleHash : String :=
  "bdaa4c90eafccb41c0d9cf666f1c5c339c24cc90ab5f9da0c1d615bf02470c75"

def sampleReport : VerifyReport :=
  .emptyLabeled "ledger.ndjson"

/- A hash with a blank before it. -/
theorem spacedHash_disagrees :
    ((python samplePyLib).verifyChain sha256Only {}
        [sampleRow (" " ++ sampleHash)] ∅
        sampleReport).hashChainValid = true ∧
      (verifyChain sha256Only jsonSerde {}
        [sampleRow (" " ++ sampleHash)] ∅
        sampleReport).hashChainValid = false := by
  decide +kernel

theorem plainHash_agrees :
    ((python samplePyLib).verifyChain sha256Only {}
        [sampleRow sampleHash] ∅ sampleReport).hashChainValid =
      (verifyChain sha256Only jsonSerde {}
        [sampleRow sampleHash] ∅
        sampleReport).hashChainValid := by
  have hFree : SpaceFree [sampleRow sampleHash] ∅ := by
    intro row hRow s _ _
    rw [mem_singleton.mp hRow]
    decide
  exact
    (python_agrees_iff sha256Only jsonSerde {} [sampleRow sampleHash] ∅ sampleReport samplePyLib
      (by
        intro row hRow
        rw [mem_singleton.mp hRow]
        rfl)
      (by decide)).2.2.mpr (fun _ _ => hFree)

end Tracelane.Verifier
