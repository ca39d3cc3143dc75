import Tracelane.Gateway.Export

/-
  The uncapped export over any reader: the rows, then the anchors, and an error that ends the
  transfer.

  The cursor of a stream is the end of its last page and never goes back, so every stream ends.
  What it has streamed by a good end is the whole table, for a reader whose pages are parts of the
  table in order and that says the table is at its end only where it is.
-/

namespace Tracelane.Gateway

open List Option

namespace ExportStream

--
-- The Body
--

section Body

variable {α β : Type}

/-
  The rows and the anchors of the body, with how it ends: the
  transfer is broken off at the first error.
-/
def exportStream (rowKey : α → Nat) (anchorKey : β → Nat)
    (readRangePage : Option Nat → Except String (List α))
    (readAnchorPage : Option Nat → Except String (List β))
    (fuel : Nat) : Option (List (α ⊕ β) × Except String Unit) := do
  let (rows, rowsEnd) ←
    exportPages "audit_log" rowKey readRangePage fuel none
  match rowsEnd with
  | .error e => some (rows.map .inl, .error e)
  | .ok () =>
      let (anchors, anchorsEnd) ←
        exportPages "audit_anchor_records" anchorKey readAnchorPage fuel none
      some (rows.map .inl ++ anchors.map .inr, anchorsEnd)

end Body

/- The export of a ledger is this stream, line by line. -/
theorem exportHandler_eq (S : Verifier.Serde) (microsToIso8601 : Int → String) (wire : Wire)
    (fuel : Nat) (ledger : Ledger) {window : Window}
    (hWindow : ¬window.untilTime < window.sinceTime) :
    exportHandler S microsToIso8601 wire fuel ledger window =
      (exportStream AuditLogRow.seq
        AuditAnchorRecordRow.batchStartSeq
        (readRangePage ledger window maxLimit)
        (readAnchorPage ledger window maxLimit) fuel).map
        (fun body => .ok
          (body.1.map (Sum.elim
            (fun row => wire.rowLine (exportRow microsToIso8601 row))
            (fun a => wire.anchorLine (anchorRecord S a))),
            body.2)) := by
  unfold exportHandler exportStream
  rw [if_neg hWindow]
  cases exportPages "audit_log" AuditLogRow.seq
      (readRangePage ledger window maxLimit) fuel none with
  | none => rfl
  | some rows =>
    rcases rows with ⟨rows, rowsEnd⟩
    cases rowsEnd with
    | error e => simp [Function.comp_def]
    | ok _ =>
      cases exportPages "audit_anchor_records" AuditAnchorRecordRow.batchStartSeq
          (readAnchorPage ledger window maxLimit) fuel
          none with
      | none => rfl
      | some anchors => simp [Function.comp_def]

--
-- One Page
--

section Stream

variable {α : Type} {table : String} {key : α → Nat}
variable {readPage : Option Nat → Except String (List α)} {after : Option Nat}
variable {fuel : Nat}

/- What one page makes of the stream. -/
theorem exportPages_cases {r : List α × Except String Unit}
    (hRun : exportPages table key readPage (fuel + 1) after = some r) :
    (∃ e m, readPage after = .error e ∧ r = ([], .error m)) ∨
      (readPage after = .ok [] ∧ r = ([], .ok ())) ∨
      (∃ page last a m, readPage after = .ok page ∧
        page.getLast? = some last ∧ after = some a ∧
        key last ≤ a ∧ r = ([], .error m)) ∨
      ∃ page last rest, readPage after = .ok page ∧
        page.getLast? = some last ∧
        (∀ a ∈ after, a < key last) ∧
        exportPages table key readPage fuel (some (key last)) = some rest ∧
        r = (page ++ rest.1, rest.2) := by
  unfold exportPages at hRun
  cases hPage : readPage after with
  | error e =>
    rw [hPage] at hRun
    cases hRun
    exact .inl ⟨_, _, rfl, rfl⟩
  | ok page =>
    simp only [hPage] at hRun
    cases hLast : page.getLast? with
    | none =>
      simp only [hLast] at hRun
      cases hRun
      rw [getLast?_eq_none_iff] at hLast
      exact .inr (.inl ⟨by rw [hLast], rfl⟩)
    | some last =>
      simp only [hLast] at hRun
      cases hStuck : after.filter (key last ≤ ·) with
      | some a =>
        rw [hStuck] at hRun
        cases hRun
        rcases filter_eq_some_iff.mp hStuck with ⟨hAfter, hLe⟩
        exact .inr (.inr (.inl ⟨page, last, a, _, rfl, hLast, hAfter, by simpa using hLe, rfl⟩))
      | none =>
        rw [hStuck] at hRun
        rcases map_eq_some_iff.mp hRun with ⟨rest, hRest, rfl⟩
        refine .inr (.inr (.inr ⟨page, last, rest, rfl, hLast, ?_, hRest, rfl⟩))
        intro a hA
        have hPast := filter_eq_none_iff.mp hStuck a hA
        simpa using hPast

/- The pages a cursor can still be moved by. -/
def room (after : Option Nat) : Nat :=
  match after with
  | none => u64Size + 1
  | some a => u64Size - a

/- Every stream ends, whatever the reader answers. -/
theorem exportPages_ends (table : String) (readPage : Option Nat → Except String (List α))
    (hKeys : ∀ x, key x < u64Size) (hAfter : ∀ a ∈ after, a < u64Size) (hFuel : room after ≤ fuel) :
    ∃ r, exportPages table key readPage fuel after = some r := by
  induction fuel generalizing after with
  | zero =>
    cases after with
    | none => simp [room] at hFuel
    | some a =>
      have hA := hAfter a rfl
      simp only [room] at hFuel
      omega
  | succ fuel ih =>
    unfold exportPages
    split
    · exact ⟨_, rfl⟩
    · split
      · exact ⟨_, rfl⟩
      · rename_i last _
        split
        · exact ⟨_, rfl⟩
        · rename_i hStuck
          have hLast := hKeys last
          have hRoom : room (some (key last)) ≤ fuel := by
            cases after with
            | none =>
              simp only [room] at hFuel ⊢
              omega
            | some a =>
              have hPast := filter_eq_none_iff.mp hStuck a rfl
              simp only [decide_eq_true_eq] at hPast
              simp only [room] at hFuel ⊢
              omega
          rcases ih (fun a hA => by
            rw [← some.inj hA]
            exact hLast) hRoom with ⟨rest, hRest⟩
          exact ⟨_, by rw [hRest]; rfl⟩

--
-- Readers of a Table
--

/- The rows past the cursor. -/
def remaining (t : KeyTable α key) (after : Option Nat) : List α :=
  t.rows.filter (fun x => after.all (· < key x))

/-
  The reader answers with some of the rows past the cursor, in order and from the first on, and with
  none only when there are none.
-/
def Pages (t : KeyTable α key) (readPage : Option Nat → Except String (List α)) : Prop :=
  ∀ after, ∃ k, readPage after = .ok ((remaining t after).take k) ∧ (remaining t after ≠ [] → 0 < k)

/- The same of every page that is no error and does not end at or before the cursor. -/
def Truthful (t : KeyTable α key) (readPage : Option Nat → Except String (List α)) : Prop :=
  ∀ after page, readPage after = .ok page →
    (∀ a last, after = some a → page.getLast? = some last → a < key last) →
    ∃ k, page = (remaining t after).take k ∧ (remaining t after ≠ [] → 0 < k)

variable {t : KeyTable α key}

theorem Pages.truthful (hPages : Pages t readPage) :
    Truthful t readPage := by
  intro after page hPage _
  rcases hPages after with ⟨k, hRead, hPos⟩
  rw [hRead] at hPage
  exact ⟨k, (Except.ok.inj hPage).symm, hPos⟩

/- What a page leaves is what is past its last row. -/
theorem remaining_next (t : KeyTable α key) {k : Nat} {last : α}
    (hLast : ((remaining t after).take k).getLast? = some last) :
    remaining t (some (key last)) = (remaining t after).drop k := by
  have hMem := mem_of_mem_take (mem_of_getLast? hLast)
  have hPast := (mem_filter.mp hMem).2
  unfold remaining at hLast ⊢
  rw [← KeyTable.filter_lt_eq_drop (t.sorted.filter _) hLast, List.filter_filter]
  apply filter_congr
  intro x _
  cases after with
  | none => simp
  | some a =>
    simp only [Option.all_some, decide_eq_true_eq] at hPast ⊢
    rw [← Bool.decide_and, decide_eq_decide]
    omega

/- A good end is the end of the table. -/
theorem exportPages_whole (hTruthful : Truthful t readPage) {items : List α}
    (hRun : exportPages table key readPage fuel after = some (items, .ok ())) :
    items = remaining t after := by
  induction fuel generalizing after items with
  | zero => cases hRun
  | succ fuel ih =>
    rcases exportPages_cases hRun with
      ⟨e, m, _, hR⟩ | ⟨hPage, hR⟩ |
      ⟨page, last, a, m, _, _, _, _, hR⟩ |
      ⟨page, last, rest, hPage, hLast, hPast, hRest, hR⟩
    · cases hR
    · cases hR
      rcases hTruthful after [] hPage (by simp) with
        ⟨k, hNil, hPos⟩
      by_contra hSome
      have hK := hPos (Ne.symm hSome)
      rcases take_eq_nil_iff.mp hNil.symm with hZero | hEmpty
      · omega
      · exact hSome hEmpty.symm
    · cases hR
    · rcases rest with ⟨more, restEnd⟩
      cases hR
      rcases hTruthful after page hPage
        (fun a last' hA hLast' => by
          rw [hLast] at hLast'
          cases hLast'
          exact hPast a hA) with ⟨k, rfl, _⟩
      rw [ih hRest, remaining_next t hLast, take_append_drop]

/- A reader of pages never brings a stream to a bad end. -/
theorem exportPages_good (hPages : Pages t readPage) {items : List α} {ending : Except String Unit}
    (hRun : exportPages table key readPage fuel after = some (items, ending)) :
    ending = .ok () := by
  induction fuel generalizing after items with
  | zero => cases hRun
  | succ fuel ih =>
    rcases hPages after with ⟨k, hRead, _⟩
    rcases exportPages_cases hRun with
      ⟨e, m, hPage, _⟩ | ⟨_, hR⟩ |
      ⟨page, last, a, m, hPage, hLast, hAfter, hLe, _⟩ |
      ⟨page, last, rest, _, _, _, hRest, hR⟩
    · rw [hRead] at hPage
      cases hPage
    · cases hR
      rfl
    · rw [hRead] at hPage
      cases hPage
      have hMem := mem_of_mem_take (mem_of_getLast? hLast)
      have hPast := (mem_filter.mp hMem).2
      rw [hAfter] at hPast
      simp only [all_some, decide_eq_true_eq] at hPast
      omega
    · cases hR
      exact ih hRest

end Stream

--
-- The Whole Window or an Error
--

section Whole

variable {α β : Type} {rowKey : α → Nat} {anchorKey : β → Nat}

/- Every row in order, then every anchor in order. -/
def window (rows : KeyTable α rowKey) (anchors : KeyTable β anchorKey) : List (α ⊕ β) :=
  rows.rows.map .inl ++ anchors.rows.map .inr

theorem remaining_none (t : KeyTable α rowKey) :
    remaining t none = t.rows := by
  simp [remaining]

/-
  Over a reader of pages the export is the whole window; over any truthful reader it is the whole
  window or ends with an error; and over every reader it ends.
-/
theorem exportStream_whole (hRowKeys : ∀ x, rowKey x < u64Size)
    (hAnchorKeys : ∀ x, anchorKey x < u64Size) (rows : KeyTable α rowKey)
    (anchors : KeyTable β anchorKey) (readRows : Option Nat → Except String (List α))
    (readAnchors : Option Nat → Except String (List β)) {fuel : Nat} (hFuel : u64Size < fuel) :
    ∃ items ending,
      exportStream rowKey anchorKey readRows readAnchors fuel = some (items, ending) ∧
        (Pages rows readRows → Pages anchors readAnchors →
          items = window rows anchors ∧ ending = .ok ()) ∧
        (Truthful rows readRows →
          Truthful anchors readAnchors →
          ending = .ok () → items = window rows anchors) := by
  have hRoom : room none ≤ fuel := hFuel
  rcases exportPages_ends "audit_log" readRows hRowKeys
    (by simp) hRoom with ⟨⟨rowItems, rowsEnd⟩, hRows⟩
  rcases exportPages_ends "audit_anchor_records" readAnchors
    hAnchorKeys (by simp) hRoom with
    ⟨⟨anchorItems, anchorsEnd⟩, hAnchors⟩
  have hBoth :
      Truthful rows readRows → Truthful anchors readAnchors →
      rowsEnd = .ok () → anchorsEnd = .ok () →
      rowItems.map Sum.inl ++ anchorItems.map Sum.inr = window rows anchors := by
    rintro hRowsTrue hAnchorsTrue rfl rfl
    rw [exportPages_whole hRowsTrue hRows, exportPages_whole hAnchorsTrue hAnchors,
      remaining_none, remaining_none]
    rfl
  unfold exportStream
  rw [hRows, hAnchors]
  cases rowsEnd with
  | error e =>
    refine ⟨_, _, rfl, ?_, ?_⟩
    · intro hRowPages _
      cases exportPages_good hRowPages hRows
    · intro _ _ hGood
      cases hGood
  | ok u =>
    cases u
    refine ⟨_, _, rfl, ?_, ?_⟩
    · intro hRowPages hAnchorPages
      have hGood := exportPages_good hAnchorPages hAnchors
      exact ⟨hBoth hRowPages.truthful hAnchorPages.truthful rfl hGood, hGood⟩
    · intro hRowsTrue hAnchorsTrue hGood
      exact hBoth hRowsTrue hAnchorsTrue rfl hGood

/- A ledger of three rows, by their seqs. -/
def threeRows : KeyTable (Fin u64Size) Fin.val where
  rows := [⟨2, by decide⟩, ⟨11, by decide⟩, ⟨17, by decide⟩]
  sorted := by decide

def oneAnchor : KeyTable (Fin u64Size) Fin.val where
  rows := [⟨2, by decide⟩]
  sorted := pairwise_singleton _ _

/- Pages of two rows. -/
def pairsOf (t : KeyTable (Fin u64Size) Fin.val) (after : Option Nat) :
    Except String (List (Fin u64Size)) :=
  .ok ((remaining t after).take 2)

theorem pages_pairsOf (t : KeyTable (Fin u64Size) Fin.val) :
    Pages t (pairsOf t) :=
  fun _ => ⟨2, rfl, fun _ => Nat.two_pos⟩

theorem three_rows_exported :
    ∃ items ending,
      exportStream Fin.val Fin.val (pairsOf threeRows) (pairsOf oneAnchor) (u64Size + 1) =
        some (items, ending) ∧
      items = window threeRows oneAnchor ∧ ending = .ok () := by
  rcases exportStream_whole Fin.isLt Fin.isLt threeRows oneAnchor (pairsOf threeRows)
    (pairsOf oneAnchor) (Nat.lt_succ_self u64Size) with
    ⟨items, ending, hRun, hPages, _⟩
  exact ⟨items, ending, hRun, hPages (pages_pairsOf threeRows) (pages_pairsOf oneAnchor)⟩

/-
  A reader that answers with an empty page while a row remains
  is believed: the export ends well without the row.
-/
theorem early_empty_page_believed :
    (∀ fuel,
        exportStream (α := Fin u64Size) (β := Fin u64Size)
          Fin.val Fin.val (fun _ => .ok []) (fun _ => .ok [])
          (fuel + 1) = some ([], .ok ())) ∧
      [] ≠ window threeRows oneAnchor := by
  refine ⟨fun fuel => rfl, ?_⟩
  simp [window, threeRows]

end Whole

end ExportStream

end Tracelane.Gateway
