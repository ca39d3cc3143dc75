import Mathlib.Data.Set.Function
import Tracelane.Audit.ChainSpec

/-
  Tamper evidence of the row hashes.

  The v2 framing can be read back in one way only, so where SHA-256 does not collide, a chain's last
  hash fixes every row before it, and a row hashed in one format never passes for different content
  in another.
-/

namespace Tracelane.Verifier

open List Option
open Std
open Transition

variable (C : Crypto) (S : Serde)

--
-- Framing
--

theorem rowBufV2_inj {prev prev' : Hash} {u u' : ByteArr 16} {seq seq' : Nat}
    {et et' ac ac' pl pl' : Text} (hSeq : seq < u64Size) (hSeq' : seq' < u64Size)
    (h :
      rowBufV2 prev u seq et.bytes ac.bytes pl.bytes =
        rowBufV2 prev' u' seq' et'.bytes ac'.bytes pl'.bytes) :
    prev = prev' ∧ u = u' ∧ seq = seq' ∧ et = et' ∧ ac = ac' ∧ pl = pl' := by
  simp only [rowBufV2, writeLp, append_assoc, append_cancel_left_eq] at h
  rcases lengthPrefixed_append_inj (by simp) (by simp) h with
    ⟨hU, h⟩
  rcases append_inj h (by simp) with ⟨hSeqs, h⟩
  rcases lengthPrefixed_append_inj et.length_bytes_lt et'.length_bytes_lt h with ⟨hEt, h⟩
  rcases lengthPrefixed_append_inj ac.length_bytes_lt ac'.length_bytes_lt h with ⟨hAc, h⟩
  rcases lengthPrefixed_append_inj pl.length_bytes_lt pl'.length_bytes_lt h with ⟨hPl, h⟩
  have hPrev : prev.bytes = prev'.bytes :=
    (lengthPrefixed_append_inj (x := []) (y := []) (by simp) (by simp) (by simpa using h)).1
  exact ⟨ByteArr.bytes_injective hPrev, ByteArr.bytes_injective hU, u64Be_injOn hSeq hSeq' hSeqs,
    Text.bytes_injective hEt, Text.bytes_injective hAc, Text.bytes_injective hPl⟩

/- Only `t` encodes to a text that starts with its byte. -/
theorem utf8EncodeChar_head {c : Char} {rest tail : Bytes}
    (h : String.utf8EncodeChar c ++ rest = 116 :: tail) :
    c = 't' := by
  have hMem : 116 ∈ String.utf8EncodeChar c := by
    cases hBytes : String.utf8EncodeChar c with
    | nil => exact absurd hBytes String.utf8EncodeChar_ne_nil
    | cons x xs =>
      rw [hBytes] at h
      exact (cons.inj h).1 ▸ mem_cons_self
  exact Char.toNat_inj.mp (toNat_eq_of_mem_utf8EncodeChar (by decide) hMem)

/- An accepted tenant id is not empty, nor starts with `t`. -/
theorem uuidStrToBytes_head {s : String} {u : ByteArr 16}
    (hUuid : uuidStrToBytes s = .ok u) :
    ∃ c cs, s.toList = c :: cs ∧ c ≠ 't' := by
  unfold uuidStrToBytes at hUuid
  simp only [chars_eq_toList] at hUuid
  cases hList : s.toList with
  | nil =>
    exfalso
    simp [hList] at hUuid
  | cons c cs =>
    refine ⟨c, cs, rfl, ?_⟩
    rintro rfl
    have hBad : hexPairs (utf8 (String.ofList (('t' :: cs).filter (· ≠ '-')))) = none := by
      rw [utf8_ofList]
      have hKeep : ('t' :: cs).filter (· ≠ '-') = 't' :: cs.filter (· ≠ '-') := by simp
      rw [hKeep, flatMap_cons]
      have hT : String.utf8EncodeChar 't' = [116] := by decide
      rw [hT]
      cases (cs.filter (· ≠ '-')).flatMap String.utf8EncodeChar with
      | nil => rfl
      | cons b rest => simp [hexPairs, hexNibble]
    rw [hList] at hUuid
    simp only [hBad, bind_none] at hUuid
    split at hUuid <;> cases hUuid

/- A v1 preimage starts with its tenant id, a v2 one does not. -/
theorem rowBufV2_ne_rowInputV1 (prev : Hash) (u : ByteArr 16) (seq : Nat) (et ac pl : Bytes)
    (prevHashHex tenantIdStr : String) (seq' : Nat) (et' ac' pl' : String) {u' : ByteArr 16}
    (hTenant : uuidStrToBytes tenantIdStr = .ok u') :
    rowBufV2 prev u seq et ac pl ≠ utf8 (rowInputV1 prevHashHex tenantIdStr seq' et' ac' pl') := by
  rcases uuidStrToBytes_head hTenant with ⟨c, cs, hList, hC⟩
  intro h
  have hV2 : ∃ tail, rowBufV2 prev u seq et ac pl = 116 :: tail := ⟨_, rfl⟩
  have hV1 :
      ∃ rest,
        utf8 (rowInputV1 prevHashHex tenantIdStr seq' et' ac'
          pl') = String.utf8EncodeChar c ++ rest := by
    have hId : utf8 tenantIdStr = String.utf8EncodeChar c ++ cs.flatMap String.utf8EncodeChar := by
      rw [← String.ofList_toList (s := tenantIdStr), hList, utf8_ofList, flatMap_cons]
    simp only [rowInputV1, toString, utf8_append, hId, append_assoc]
    exact ⟨_, rfl⟩
  rcases hV2 with ⟨tail, hV2⟩
  rcases hV1 with ⟨rest, hV1⟩
  rw [hV2, hV1] at h
  exact hC (utf8EncodeChar_head h.symm)

--
-- Re-marked Rows
--

/- The bytes a row's hash is taken over in a format. -/
def preimage (fmt : FormatVersion) (prev : Hash) (tenantUuid : ByteArr 16)
    (row : AuditRow) (canon : Text) : Bytes :=
  if fmt.isV2Family then
    rowBufV2 prev tenantUuid row.seq row.eventType.bytes row.actor.bytes canon.bytes
  else
    utf8 (rowInputV1 row.prevHash row.tenantId row.seq row.eventType.str row.actor.str canon.str)

theorem recomputeHash_eq (fmt : FormatVersion) (prev : Hash) (tenantUuid : ByteArr 16)
    (row : AuditRow) (canon : Text) :
    recomputeHash C fmt prev tenantUuid row canon.str =
      C.sha256 (preimage fmt prev tenantUuid row canon) := by
  unfold recomputeHash preimage
  split
  · rfl
  · rw [rowHashV1, hexDecode32_hexEncode]

/- The row carries this payload text and hashes to `h`. -/
structure HashesTo (fmt : FormatVersion) (prev : Hash) (row : AuditRow)
    (tenantUuid : ByteArr 16) (canon : Text) (h : Hash) : Prop where
  tenant : uuidStrToBytes row.tenantId = .ok tenantUuid
  payload : canonPayload S fmt row = some canon.str
  hash : recomputeHash C fmt prev tenantUuid row canon.str = h

variable {h : Hash}

/- Two rows that hash to the same bytes in different formats have the same content. -/
theorem remarked_same_content {fmt fmt' : FormatVersion} {prev prev' : Hash} {row row' : AuditRow}
    {u u' : ByteArr 16} {canon canon' : Text} (hRow : HashesTo C S fmt prev row u canon h)
    (hRow' : HashesTo C S fmt' prev' row' u' canon' h) (hMark : fmt ≠ fmt')
    (hSha :
      Set.InjOn C.sha256
        { preimage fmt prev u row canon,
          preimage fmt' prev' u' row' canon' }) :
    prev = prev' ∧ u = u' ∧ row.seq = row'.seq ∧
      row.eventType = row'.eventType ∧ row.actor = row'.actor ∧
      canon = canon' := by
  have hDigest :
      C.sha256 (preimage fmt prev u row canon) = C.sha256 (preimage fmt' prev' u' row' canon') := by
    rw [← recomputeHash_eq, ← recomputeHash_eq, hRow.hash, hRow'.hash]
  have hPre := hSha (by simp) (by simp) hDigest
  unfold preimage at hPre
  by_cases hV2 : fmt.isV2Family = true
  · by_cases hV2' : fmt'.isV2Family = true
    · simp only [hV2, hV2', if_true] at hPre
      exact rowBufV2_inj row.seq_lt row'.seq_lt hPre
    · simp only [hV2, hV2', if_true] at hPre
      exact absurd hPre (rowBufV2_ne_rowInputV1 prev u row.seq _ _ _ _ _ _ _ _ _ hRow'.tenant)
  · by_cases hV2' : fmt'.isV2Family = true
    · simp only [hV2, hV2', if_true] at hPre
      exact absurd hPre.symm
        (rowBufV2_ne_rowInputV1 prev' u' row'.seq _ _ _ _ _ _ _ _ _ hRow.tenant)
    · cases fmt <;> cases fmt' <;> simp_all [FormatVersion.isV2Family]

--
-- Chains
--

/- Rows of one tenant, all marked v2.1. -/
def MarkedV21 (tenant : String) (rows : List AuditRow) : Prop :=
  ∀ row ∈ rows, row.tenantId = tenant ∧ row.format = some "v2.1"

/- The pass keeps `hash_chain_valid`, from the genesis row. -/
def AcceptedFromGenesis (opts : VerifyOptions) (rows : List AuditRow) : Prop :=
  (∃ row ∈ rows, row.seq = 0) ∧
    ∃ includedStarts report, (verifyChain C S opts rows includedStarts report).hashChainValid = true

/- The hashes a row of the chain can follow. -/
def PrevIn (tenantUuid : ByteArr 16) (rows : List AuditRow) (prev : Hash) : Prop :=
  prev = genesisV2 C tenantUuid ∨ ∃ before ∈ rows, hexDecode32 before.rowHash = .ok prev

/- The bytes hashed along a chain of v2.1 rows. -/
def chainPreimages (tenant : String) (rows : List AuditRow) : Set Bytes :=
  { b | ∃ tenantUuid prev canon, ∃ row ∈ rows,
      uuidStrToBytes tenant = .ok tenantUuid ∧
        PrevIn C tenantUuid rows prev ∧
        row.payload.asStr = some canon ∧
        b = preimage .v2_1 prev tenantUuid row canon }

/- What a chain's last hash fixes of each of its rows. -/
def evidence (row : AuditRow) :
    Nat × Text × Text × Option Text × Except String Hash :=
  (row.seq, row.eventType, row.actor, row.payload.asStr, hexDecode32 row.rowHash)

variable {opts : VerifyOptions} {rows : List AuditRow}

/- An accepted list is one run from the genesis seed. -/
theorem accepted_run {tenant : String} (hMarked : MarkedV21 tenant rows)
    (hAccepted : AcceptedFromGenesis C S opts rows) :
    ∃ tenantUuid final,
      uuidStrToBytes tenant = .ok tenantUuid ∧
        Run (RowLinks C S opts tenantUuid) (0, genesisV2 C tenantUuid) rows final := by
  rcases hAccepted with ⟨⟨zero, hZero, hSeq⟩, includedStarts, report, hValid⟩
  rw [verifyChain_report] at hValid
  simp only [Bool.and_eq_true] at hValid
  have hChain := (replay_clean_iff C S opts _ _).mp hValid.2 tenant
  have hOwn : rowsOf tenant rows = rows := by
    refine filter_eq_self.mpr (fun row hMem => ?_)
    simp [(hMarked row hMem).1]
  have hMin : (rows.map AuditRow.seq).min? = some 0 := by
    rw [min?_eq_some_iff]
    exact ⟨mem_map.mpr ⟨zero, hZero, hSeq⟩, by simp⟩
  have hScope : inScope 0 rows = rows := by simp [inScope]
  rw [startOf_startByTenant, hOwn, hMin] at hChain
  rcases exists_cons_of_ne_nil (ne_nil_of_mem hZero) with ⟨first, rest, hRows⟩
  rcases hChain 0 rfl first (by rw [hScope, hRows]; rfl) with
    ⟨tenantUuid, final, hUuid, hRun⟩
  have hFirst : first.format = some "v2.1" := (hMarked first (by simp [hRows])).2
  refine ⟨tenantUuid, final, hUuid, ?_⟩
  simpa [hScope, rootEntry, resolveFormat, hFirst, FormatVersion.isV2Family] using hRun

variable {tenantUuid : ByteArr 16}

/- A link of a v2.1 row, in terms of its preimage. -/
theorem rowLinks_preimage {entry next : ChainEntry} {row : AuditRow}
    (hMark : row.format = some "v2.1") (hLinks : RowLinks C S opts tenantUuid entry row next) :
    ∃ canon,
      row.payload.asStr = some canon ∧
        C.sha256 (preimage .v2_1 entry.2 tenantUuid row canon) = next.2 := by
  rcases hLinks.hash with ⟨canon, hCanon, hHash⟩
  simp only [resolveFormat, hMark, canonPayload, map_eq_some_iff] at hCanon hHash
  rcases hCanon with ⟨text, hText, rfl⟩
  rw [recomputeHash_eq] at hHash
  exact ⟨text, hText, hHash⟩

variable {entry final : ChainEntry}

/- The seq expected after a run counts its rows. -/
theorem run_final_seq
    (hRun : Run (RowLinks C S opts tenantUuid) entry rows final) (hEntry : entry.1 < u64Size) :
    final.1 = (entry.1 + rows.length) % u64Size := by
  induction hRun with
  | nil => simpa using (Nat.mod_eq_of_lt hEntry).symm
  | cons hLinks _ ih =>
    have hNext := hLinks.nextSeq
    rw [ih (by rw [hNext]; exact Nat.mod_lt _ (by decide)), hNext, length_cons, Nat.mod_add_mod]
    congr 1
    omega

theorem run_final_hash (hRun : Run (RowLinks C S opts tenantUuid) entry rows final)
    (hLast : rows.getLast?.map (fun row => hexDecode32 row.rowHash) = some (.ok h)) :
    final.2 = h := by
  rcases eq_nil_or_concat rows with rfl | ⟨init, last, hRows⟩
  · simp at hLast
  · rw [hRows, concat_eq_append] at hRun hLast
    rcases Run.append_iff.mp hRun with ⟨_, _, hStep⟩
    rcases Run.cons_iff.mp hStep with ⟨next, hLinks, hEnd⟩
    rw [Run.nil_iff] at hEnd
    have hStored := hLinks.stored
    rw [hEnd] at hStored
    simp only [getLast?_append, getLast?_singleton, some_or, map_some, hStored, some.injEq,
      Except.ok.injEq] at hLast
    exact hLast

/- The last hash of an accepted chain fixes all its rows. -/
theorem chain_tamper_evident {opts opts' : VerifyOptions} {tenant : String}
    {rows rows' : List AuditRow} (hMarked : MarkedV21 tenant rows)
    (hMarked' : MarkedV21 tenant rows') (hAccepted : AcceptedFromGenesis C S opts rows)
    (hAccepted' : AcceptedFromGenesis C S opts' rows') (hLen : rows.length = rows'.length)
    (hLast : rows.getLast?.map (fun row => hexDecode32 row.rowHash) = some (.ok h))
    (hLast' : rows'.getLast?.map (fun row => hexDecode32 row.rowHash) = some (.ok h))
    (hSha : Set.InjOn C.sha256 (chainPreimages C tenant rows ∪ chainPreimages C tenant rows')) :
    rows.map evidence = rows'.map evidence := by
  rcases accepted_run C S hMarked hAccepted with ⟨u, final, hUuid, hRun⟩
  rcases accepted_run C S hMarked' hAccepted' with ⟨u', final', hUuid', hRun'⟩
  rw [hUuid] at hUuid'
  cases hUuid'
  have hFinal : final = final' := by
    refine Prod.ext ?_ ?_
    · have hZero : 0 < u64Size := by decide
      rw [run_final_seq C S hRun hZero, run_final_seq C S hRun' hZero, hLen]
    · rw [run_final_hash C S hRun hLast, run_final_hash C S hRun' hLast']
  subst hFinal
  -- Carry membership along, for the preimages each link hashes.
  have hMem :
      Run (fun e row n => RowLinks C S opts u e row n ∧ row ∈ rows) (0, genesisV2 C u) rows final :=
    hRun.mono (fun _ _ _ hIn hLinks => ⟨hLinks, hIn⟩)
  have hMem' :
      Run (fun e row n =>
        RowLinks C S opts' u e row n ∧ row ∈ rows')
        (0, genesisV2 C u) rows' final :=
    hRun'.mono (fun _ _ _ hIn hLinks => ⟨hLinks, hIn⟩)
  refine (Run.backward_unique (fun e => PrevIn C u rows e.2) (fun e => PrevIn C u rows' e.2)
    ?_ ?_ ?_ hMem hMem' (.inl rfl) (.inl rfl) hLen).2
  · rintro e row n _ ⟨hLinks, hIn⟩
    exact .inr ⟨row, hIn, hLinks.stored⟩
  · rintro e row n _ ⟨hLinks, hIn⟩
    exact .inr ⟨row, hIn, hLinks.stored⟩
  · rintro a b x y n hPrev hPrev' ⟨hLinks, hIn⟩ ⟨hLinks', hIn'⟩
    rcases rowLinks_preimage C S (hMarked x hIn).2 hLinks with ⟨canon, hCanon, hHash⟩
    rcases rowLinks_preimage C S (hMarked' y hIn').2 hLinks' with ⟨canon', hCanon', hHash'⟩
    have hPre :=
      hSha (.inl ⟨u, a.2, canon, x, hIn, hUuid, hPrev, hCanon, rfl⟩)
        (.inr ⟨u, b.2, canon', y, hIn', hUuid, hPrev', hCanon', rfl⟩) (hHash.trans hHash'.symm)
    rcases rowBufV2_inj x.seq_lt y.seq_lt hPre with ⟨hPrevs, _, hSeqs, hTypes, hActors, hCanons⟩
    refine ⟨Prod.ext ?_ hPrevs, ?_⟩
    · rw [← hLinks.seq, ← hLinks'.seq, hSeqs]
    · simp [evidence, hSeqs, hTypes, hActors, hCanon, hCanon', hCanons, hLinks.stored,
        hLinks'.stored]

/-
  A chain's last hash fixes its rows; the v2 and v1 preimages
  are disjoint; a re-marked row keeps its content.
-/
theorem tamper_evidence :
    (∀ (opts opts' : VerifyOptions) (tenant : String) (rows rows' : List AuditRow) (h : Hash),
      MarkedV21 tenant rows → MarkedV21 tenant rows' →
      AcceptedFromGenesis C S opts rows →
      AcceptedFromGenesis C S opts' rows' →
      rows.length = rows'.length →
      rows.getLast?.map (fun row => hexDecode32 row.rowHash) = some (.ok h) →
      rows'.getLast?.map (fun row => hexDecode32 row.rowHash) = some (.ok h) →
      Set.InjOn C.sha256 (chainPreimages C tenant rows ∪ chainPreimages C tenant rows') →
      rows.map evidence = rows'.map evidence) ∧
    (∀ (prev : Hash) (u : ByteArr 16) (seq : Nat)
        (et ac pl : Bytes) (prevHashHex tenantIdStr : String)
        (seq' : Nat) (et' ac' pl' : String) (u' : ByteArr 16),
      uuidStrToBytes tenantIdStr = .ok u' →
      rowBufV2 prev u seq et ac pl ≠ utf8 (rowInputV1 prevHashHex tenantIdStr seq' et' ac' pl')) ∧
    ∀ (fmt fmt' : FormatVersion) (prev prev' h : Hash)
        (row row' : AuditRow) (u u' : ByteArr 16)
        (canon canon' : Text),
      HashesTo C S fmt prev row u canon h →
      HashesTo C S fmt' prev' row' u' canon' h →
      fmt ≠ fmt' →
      Set.InjOn C.sha256
        { preimage fmt prev u row canon,
          preimage fmt' prev' u' row' canon' } →
      prev = prev' ∧ u = u' ∧ row.seq = row'.seq ∧
        row.eventType = row'.eventType ∧
        row.actor = row'.actor ∧ canon = canon' := by
  refine ⟨?_, ?_, ?_⟩
  · intro opts opts' tenant rows rows' h hMarked hMarked'
      hAccepted hAccepted' hLen hLast hLast' hSha
    exact chain_tamper_evident C S hMarked hMarked' hAccepted hAccepted' hLen hLast hLast' hSha
  · intro prev u seq et ac pl prevHashHex tenantIdStr seq' et' ac' pl' u' hTenant
    exact rowBufV2_ne_rowInputV1 prev u seq et ac pl prevHashHex
      tenantIdStr seq' et' ac' pl' hTenant
  · intro fmt fmt' prev prev' h row row' u u' canon canon' hRow hRow' hMark hSha
    exact remarked_same_content C S hRow hRow' hMark hSha

--
-- One Chain in Two Cases
--

def noSerde : Serde where
  fromStr _ := .error "no text"
  fromSlice _ := .error "no text"
  auditRow _ := .error "no row"
  anchorRecord _ := .error "no record"
  toString _ := ""

def chainTenant : String :=
  "00000000-0000-0000-0000-0000000000a1"

def chainUuid : ByteArr 16 :=
  ⟨[0, 0, 0, 0, 0, 0, 0, 0, 0, 0, 0, 0, 0, 0, 0, 0xa1], by decide⟩

def chainPayload : Text :=
  ⟨"\x7b\"action\":\"call\",\"step\":0\x7d", by decide⟩

def chainRow (seq : Fin 2) (prevHash rowHash : String) : AuditRow where
  format := some "v2.1"
  tenantId := chainTenant
  seq
  seq_lt := seq.isLt.trans_le (Nat.pow_le_pow_right Nat.two_pos (Nat.le_add_left 1 63))
  eventTime := "2026-07-12T00:00:00.000000Z"
  eventType := ⟨"chat.completions.request", by decide⟩
  actor := ⟨"user1", by decide⟩
  payload := .string chainPayload
  prevHash
  rowHash
  rekorEntryId := none

def lowerHashes : String × String :=
  ("f4a7c1f3a07efef68f1b385812b008195c752661da76831eb578cea24e8c0920",
    "bc23991cd895254f68c36de96e23b9344c83fac756980f422945c4fd33ba9bac")

def upperHashes : String × String :=
  ("F4A7C1F3A07EFEF68F1B385812B008195C752661DA76831EB578CEA24E8C0920",
    "BC23991CD895254F68C36DE96E23B9344C83FAC756980F422945C4FD33BA9BAC")

/- Two rows from the genesis, with their hashes written as given. -/
def chainOf (hashes : String × String) : List AuditRow :=
  [chainRow 0 "585e70f50ce1f27ed206a669e882743eba4dd565c4f61906fe1b3186f322ddf0" hashes.1,
    chainRow 1 lowerHashes.1 hashes.2]

def chainPreimage (prev : Hash) (seq : Fin 2) : Bytes :=
  preimage .v2_1 prev chainUuid (chainRow seq "" "") chainPayload

theorem preimage_chainRow (prev : Hash) (seq : Fin 2) (prevHash rowHash : String) :
    preimage .v2_1 prev chainUuid (chainRow seq prevHash rowHash) chainPayload =
      chainPreimage prev seq := by
  simp only [chainPreimage, preimage, chainRow, FormatVersion.isV2Family, if_true]

def firstHash : Hash :=
  Sha256.digest (chainPreimage (genesisV2 sha256Only chainUuid) 0)

def lastHash : Hash :=
  Sha256.digest (chainPreimage firstHash 1)

/- The texts stand for the chain's hashes. -/
structure Spells (hashes : String × String) : Prop where
  first : hexDecode32 hashes.1 = .ok firstHash
  last : hexDecode32 hashes.2 = .ok lastHash
  valid :
    (verifyChain sha256Only noSerde {} (chainOf hashes) ∅ (.emptyLabeled "")).hashChainValid = true

theorem spells_lower :
    Spells lowerHashes where
  first := by decide +kernel
  last := by decide +kernel
  valid := by decide +kernel

theorem spells_upper :
    Spells upperHashes where
  first := by decide +kernel
  last := by decide +kernel
  valid := by decide +kernel

section

variable {hashes : String × String}

theorem chainOf_marked :
    MarkedV21 chainTenant (chainOf hashes) := by
  simp [MarkedV21, chainOf, chainRow]

theorem Spells.accepted (hSpells : Spells hashes) :
    AcceptedFromGenesis sha256Only noSerde {} (chainOf hashes) :=
  ⟨⟨_, .head _, rfl⟩, ∅, _, hSpells.valid⟩

/- Either row after either hash or the genesis. -/
def knownPreimages : List Bytes :=
  [genesisV2 sha256Only chainUuid, firstHash, lastHash].flatMap
    (fun prev => [chainPreimage prev 0, chainPreimage prev 1])

theorem Spells.preimages (hSpells : Spells hashes) :
    chainPreimages sha256Only chainTenant (chainOf hashes) ⊆ { b | b ∈ knownPreimages } := by
  rintro b ⟨u, prev, canon, row, hRow, hUuid, hPrev, hCanon, rfl⟩
  have hKnown : uuidStrToBytes chainTenant = .ok chainUuid := by decide
  cases hKnown.symm.trans hUuid
  have hPrevs : prev ∈ [genesisV2 sha256Only chainUuid, firstHash, lastHash] := by
    rcases hPrev with rfl | ⟨before, hBefore, hStored⟩
    · exact .head _
    · rcases mem_pair.mp hBefore with rfl | rfl
      · cases hSpells.first.symm.trans hStored
        exact .tail _ (.head _)
      · cases hSpells.last.symm.trans hStored
        exact .tail _ (.tail _ (.head _))
  refine mem_flatMap.mpr ⟨prev, hPrevs, ?_⟩
  rcases mem_pair.mp hRow with rfl | rfl <;> cases hCanon
  · exact mem_pair.mpr (.inl (preimage_chainRow _ _ _ _))
  · exact mem_pair.mpr (.inr (preimage_chainRow _ _ _ _))

end

theorem chain_injOn :
    Set.InjOn sha256Only.sha256 { b | b ∈ knownPreimages } := by
  have hNodup : (knownPreimages.map Sha256.digest).Nodup := by decide +kernel
  intro a hA b hB hEq
  exact inj_on_of_nodup_map hNodup hA hB hEq

/- The theorem at two rows whose hashes are written in both cases. -/
theorem tamper_evidence_two_cases :
    (chainOf lowerHashes).map evidence = (chainOf upperHashes).map evidence :=
  (tamper_evidence sha256Only noSerde).1 {} {} chainTenant _ _ lastHash chainOf_marked
    chainOf_marked spells_lower.accepted spells_upper.accepted rfl
    (congrArg some spells_lower.last) (congrArg some spells_upper.last)
    (chain_injOn.mono (Set.union_subset spells_lower.preimages spells_upper.preimages))

/- The text of a row hash is not fixed: the verifier reads hex digits in either case. -/
theorem rowHash_text_not_fixed :
    ∃ (rows rows' : List AuditRow) (h : Hash),
      MarkedV21 chainTenant rows ∧
        MarkedV21 chainTenant rows' ∧
        AcceptedFromGenesis sha256Only noSerde {} rows ∧
        AcceptedFromGenesis sha256Only noSerde {} rows' ∧
        rows.length = rows'.length ∧
        rows.getLast?.map (fun row => hexDecode32 row.rowHash) = some (.ok h) ∧
        rows'.getLast?.map (fun row => hexDecode32 row.rowHash) = some (.ok h) ∧
        Set.InjOn sha256Only.sha256
          (chainPreimages sha256Only chainTenant rows ∪
            chainPreimages sha256Only chainTenant rows') ∧
        rows.map AuditRow.rowHash ≠ rows'.map AuditRow.rowHash :=
  ⟨_, _, lastHash, chainOf_marked, chainOf_marked, spells_lower.accepted, spells_upper.accepted,
    rfl, congrArg some spells_lower.last, congrArg some spells_upper.last,
    chain_injOn.mono (Set.union_subset spells_lower.preimages spells_upper.preimages), by decide⟩

end Tracelane.Verifier
