import Tracelane.Lib.RootedChain
import Tracelane.Audit.Chain

/-
  What a clean replay means.

  A tenant's in-scope rows replay without an error exactly when they form a run of `RowLinks` from
  the root entry: each row has the expected seq, continues the previous stored hash, and stores its
  own recomputed hash.
-/

namespace Tracelane.Verifier

open Std List
open Transition

variable (C : Crypto) (S : Serde)

--
-- One Row
--

/- A row that raises no error moves the chain entry on. -/
structure RowLinks (opts : VerifyOptions) (tenantUuid : ByteArr 16)
    (entry : ChainEntry) (row : AuditRow) (next : ChainEntry) : Prop where
  seq : row.seq = entry.1
  prevHash : prevHashOk (resolveFormat row opts.formatVersion) entry.2 row = true
  hash :
    ∃ canon,
      canonPayload S (resolveFormat row opts.formatVersion) row = some canon ∧
        recomputeHash C (resolveFormat row opts.formatVersion) entry.2 tenantUuid row canon = next.2
  stored : hexDecode32 row.rowHash = .ok next.2
  nextSeq : next.1 = (entry.1 + 1) % u64Size

/- The same, of any verifier. -/
def ChainPass.Links {η ι : Type} (pass : ChainPass η ι) (opts : VerifyOptions) (id : ι)
    (entry : Nat × η) (row : AuditRow) (next : Nat × η) : Prop :=
  row.seq = entry.1 ∧
    pass.prevHashOk (resolveFormat row opts.formatVersion) entry.2 row = true ∧
    (∃ canon,
      pass.canonPayload (resolveFormat row opts.formatVersion) row = some canon ∧
        pass.recomputeHash (resolveFormat row opts.formatVersion) entry.2 id row canon = next.2) ∧
    pass.decodeHash row.rowHash = some next.2 ∧ next.1 = pass.nextSeq entry.1

variable (opts : VerifyOptions) (tenantUuid : ByteArr 16)

theorem chainPass_links :
    (chainPass C S).Links opts tenantUuid = RowLinks C S opts tenantUuid := by
  funext entry row next
  have hStored :
      (hexDecode32 row.rowHash).toOption = some next.2 ↔ hexDecode32 row.rowHash = .ok next.2 := by
    cases hexDecode32 row.rowHash <;> simp [Except.toOption]
  apply propext
  constructor
  · rintro ⟨hSeq, hPrev, hHash, hNext, hSucc⟩
    exact ⟨hSeq, hPrev, hHash, hStored.mp hNext, hSucc⟩
  · rintro ⟨hSeq, hPrev, hHash, hNext, hSucc⟩
    exact ⟨hSeq, hPrev, hHash, hStored.mpr hNext, hSucc⟩

/- The in-scope check is clean exactly on a link. -/
theorem ChainPass.checkInScope_clean_iff {η ι : Type} [DecidableEq η] (pass : ChainPass η ι)
    (id : ι) (entry next : Nat × η) (row : AuditRow) :
    pass.checkInScope (resolveFormat row opts.formatVersion) id entry row = (next, []) ↔
      pass.Links opts id entry row next := by
  unfold checkInScope
  cases hStored : pass.decodeHash row.rowHash with
  | none => simp [Links, hStored]
  | some stored =>
    simp only [Prod.mk.injEq, append_eq_nil_iff, linkErrors, errorUnless_eq_nil, decide_eq_true_eq,
      Option.isSome_iff_exists]
    constructor
    · rintro ⟨hNext, ⟨⟨hSeq, hPrev⟩, canon, hCanon⟩, hHash⟩
      subst hNext
      simp only [hashErrors, hCanon, errorUnless_eq_nil, decide_eq_true_eq] at hHash
      exact ⟨hSeq, hPrev, ⟨canon, hCanon, hHash⟩, hStored, by rw [hSeq]⟩
    · rintro ⟨hSeq, hPrev, ⟨canon, hCanon, hHash⟩, hNext, hSucc⟩
      have hSame : stored = next.2 := by simpa [hStored] using hNext
      refine ⟨Prod.ext (by rw [hSucc, hSeq]) hSame, ⟨⟨hSeq, hPrev⟩, canon, hCanon⟩, ?_⟩
      simp [hashErrors, hCanon, hHash, hSame]

--
-- One Tenant
--

/- The rows of a tenant that the replay checks. -/
def inScope (s : Nat) (rows : List AuditRow) : List AuditRow :=
  rows.filter (fun row => s ≤ row.seq)

/- The rows of one tenant, in file order. -/
def rowsOf (tenant : String) (rows : List AuditRow) :
    List AuditRow :=
  rows.filter (fun row => row.tenantId = tenant)

namespace ChainPass

variable {η ι : Type} [DecidableEq η] (pass : ChainPass η ι)

/- The chain of one tenant's rows, from its start on. -/
def tenantChain (tenant : String) (start : Option Nat) :
    RootedChain AuditRow (Nat × η) ι VerifyError where
  scope row := start.any (fun s => s ≤ row.seq)
  identity := (pass.identity tenant).toOption
  bad row :=
    rowError row "bad_tenant_id"
      (match pass.identity tenant with
        | .error e => e
        | .ok _ => "")
  root id row := pass.rootEntry (start.getD 0) (resolveFormat row opts.formatVersion) id row
  check id entry row := pass.checkInScope (resolveFormat row opts.formatVersion) id entry row

theorem turn_tenantChain (start : Option Nat) (entry : Option (Nat × η)) (row : AuditRow) :
    (pass.tenantChain opts row.tenantId start).turn entry row =
      pass.checkRow opts start entry row := by
  unfold RootedChain.turn tenantChain checkRow
  cases start with
  | none => rfl
  | some s =>
    by_cases hBelow : row.seq < s
    · simp [hBelow]
    · cases pass.identity row.tenantId <;>
        simp [hBelow, Nat.le_of_not_lt hBelow, Except.toOption]

/- The first in-scope row roots the chain of them all. -/
def ChainFrom (tenant : String) (start : Option Nat) (rows : List AuditRow) : Prop :=
  ∀ s, start = some s →
    ∀ first ∈ (inScope s rows).head?,
      ∃ id final,
        pass.identity tenant = .ok id ∧
          Run (pass.Links opts id)
            (pass.rootEntry s (resolveFormat first opts.formatVersion) id first)
            (inScope s rows) final

theorem tenantChain_clean_iff (tenant : String) (start : Option Nat) (rows : List AuditRow) :
    (pass.tenantChain opts tenant start).Clean rows ↔ pass.ChainFrom opts tenant start rows := by
  unfold RootedChain.Clean ChainFrom
  cases start with
  | none => simp [tenantChain]
  | some s =>
    have hScope : rows.filter (pass.tenantChain opts tenant (some s)).scope = inScope s rows := by
      simp [tenantChain, inScope]
    have hLinks : (pass.tenantChain opts tenant (some s)).Links = pass.Links opts := by
      funext id entry row next
      exact propext (pass.checkInScope_clean_iff opts id entry next row)
    simp only [hScope, hLinks, Option.some.injEq, forall_eq']
    cases hId : pass.identity tenant <;> simp [tenantChain, hId, Except.toOption]

/- Whatever the interleaving, each tenant's chain decides. -/
theorem replay_clean_iff (startOf : String → Option Nat) (rows : List AuditRow) :
    (pass.replay opts startOf rows).all isEmpty = true ↔
      ∀ tenant, pass.ChainFrom opts tenant (startOf tenant) (rowsOf tenant rows) := by
  rw [all_eq_true]
  simp only [List.isEmpty_iff, replay, ← turn_tenantChain]
  rw [RootedChain.run_clean_iff (fun row => row.tenantId)
    (fun tenant => pass.tenantChain opts tenant (startOf tenant))]
  exact forall_congr' (fun tenant => pass.tenantChain_clean_iff opts tenant _ _)

end ChainPass

/- The first in-scope row roots the chain of them all. -/
def ChainFrom (opts : VerifyOptions) (tenant : String) (start : Option Nat)
    (rows : List AuditRow) : Prop :=
  ∀ s, start = some s →
    ∀ first ∈ (inScope s rows).head?,
      ∃ tenantUuid final,
        uuidStrToBytes tenant = .ok tenantUuid ∧
          Run (RowLinks C S opts tenantUuid)
            (rootEntry C s (resolveFormat first opts.formatVersion) tenantUuid first)
            (inScope s rows) final

theorem replay_clean_iff (starts : TreeMap String (Option Nat)) (rows : List AuditRow) :
    (replay C S opts starts rows).all isEmpty = true ↔
      ∀ tenant, ChainFrom C S opts tenant (startOf starts tenant) (rowsOf tenant rows) := by
  rw [replay, ChainPass.replay_clean_iff]
  simp only [ChainPass.ChainFrom, chainPass_links]
  rfl

theorem getElem?_minSeqByTenant (rows : List AuditRow) (tenant : String) :
    (minSeqByTenant rows)[tenant]? = ((rowsOf tenant rows).map AuditRow.seq).min? := by
  rw [minSeqByTenant, KeyedFold.getElem?_table, TreeMap.getElem?_emptyc, KeyedFold.foldl_keepMin]
  rfl

/- A tenant's start depends on its own rows only. -/
theorem startOf_startByTenant (includedStarts : TreeMap String Nat) (rows : List AuditRow)
    (tenant : String) :
    startOf (startByTenant includedStarts rows) tenant =
      ((rowsOf tenant rows).map AuditRow.seq).min?.bind (selectStart includedStarts tenant) := by
  rw [startOf, startByTenant, TreeMap.getElem?_map, getElem?_minSeqByTenant]
  cases ((rowsOf tenant rows).map AuditRow.seq).min? <;> rfl

--
-- Seqs of a Chain
--

/-
  The seqs of a chain are consecutive.  The expected seq wraps past `u64::MAX`; a window never meets
  seq 0 again, and a chain from genesis would need `2 ^ 64` rows to.
-/
theorem run_seqs {s : Nat} {rows : List AuditRow} {entry final : ChainEntry}
    (hRun : Run (RowLinks C S opts tenantUuid) entry rows final)
    (hScope : ∀ row ∈ rows, s ≤ row.seq) (hFits : 0 < s ∨ entry.1 + rows.length ≤ u64Size) :
    rows.map AuditRow.seq = range' entry.1 rows.length := by
  induction hRun with
  | nil => rfl
  | @cons entry next final row rows hLinks hRest ih =>
    have hTail : ∀ r ∈ rows, s ≤ r.seq := fun r hMem => hScope r (mem_cons_of_mem _ hMem)
    have hSeqLt := row.seq_lt
    rw [hLinks.seq] at hSeqLt
    simp only [map_cons, length_cons, range'_succ, hLinks.seq, cons.injEq, true_and]
    cases rows with
    | nil => rfl
    | cons row' rows =>
      -- The next row exists, so the expected seq did not
      -- wrap to 0.
      have hNext : next.1 = entry.1 + 1 := by
        rcases Run.cons_iff.mp hRest with ⟨_, hLinks', _⟩
        have hSeq' := hLinks'.seq
        have hScope' := hTail row' (by simp)
        rw [hLinks.nextSeq] at hSeq' ⊢
        rw [Nat.mod_eq_of_lt]
        by_contra hWrap
        have hTop : entry.1 + 1 = u64Size := by omega
        rw [hTop, Nat.mod_self] at hSeq'
        rcases hFits with hPos | hLen
        · omega
        · simp only [length_cons] at hLen
          omega
      rw [← hNext]
      refine ih hTail ?_
      rcases hFits with hPos | hLen
      · exact .inl hPos
      · refine .inr ?_
        simp only [length_cons] at hLen ⊢
        omega

end Tracelane.Verifier
