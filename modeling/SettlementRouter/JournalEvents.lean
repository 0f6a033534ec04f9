import SettlementRouter.SystemRuns

/-! # Journals and status agree

The unique index on `(settlement_id, event)` alone would let a settlement be
consumed and released.  That no settlement ever is follows from the lifecycle:
a journal that ends a settlement is written with the status that ends it, and
an ended settlement is not moved again.
-/
namespace SettlementRouter

variable {settings : Settings} {law : ProviderLaw} {s : State} {id : UUID} {row : Settlement id}

/-- The journals a sound settlement has, by its status. -/
theorem Lifecycle.Sound.journals {l : Lifecycle} {status : SettlementStatus} (h : l.Sound)
    (hstatus : l.status = some status) :
    l.HasJournals 1 (if status = .success then 1 else 0) (if status = .failed then 1 else 0) := by
  unfold Sound at h
  rw [hstatus] at h
  cases status with
  | reserved => exact h.2
  | payoutInProgress => exact h.2
  | success => exact h.2
  | failed => exact h.2
  | pendingReconciliation => exact h.2

theorem Lifecycle.Sound.no_journals {l : Lifecycle} (h : l.Sound) (hstatus : l.status = none) :
    l.HasJournals 0 0 0 := by
  unfold Sound at h
  rw [hstatus] at h
  exact h.2

/-- Funds leave the reservation in the two final states only. -/
theorem Lifecycle.Sound.ended {l : Lifecycle} (h : l.Sound) :
    (0 < l.journals .consume → l.status = some .success) ∧
      (0 < l.journals .release → l.status = some .failed) := by
  cases hstatus : l.status with
  | none =>
    obtain ⟨-, hconsume, hrelease⟩ := h.no_journals hstatus
    omega
  | some status =>
    obtain ⟨-, hconsume, hrelease⟩ := h.journals hstatus
    rw [hconsume, hrelease]
    constructor
    · intro hpos
      split at hpos
      · rw [‹status = .success›]
      · omega
    · intro hpos
      split at hpos
      · rw [‹status = .failed›]
      · omega

theorem status_of_lookup {db : Database} (h : db.settlements.lookup id = some row) :
    (db.lifecycle id).status = some row.status := by
  rw [Database.lifecycle, Database.status, h, Option.map_some]

/-- **Journals match status.**  Whatever runs, crashes, times out or fails to be
acknowledged, a committed settlement has one `RESERVE` journal, one `CONSUME`
journal exactly when it is `SUCCESS`, one `RELEASE` journal exactly when it is
`FAILED`, and never both. -/
theorem journals_match_status (h : (system settings law Database.Unused).Reachable s)
    (hrow : s.db.settlements.lookup id = some row) :
    s.db.journalCount id .reserve = 1 ∧
      s.db.journalCount id .consume = (if row.status = .success then 1 else 0) ∧
      s.db.journalCount id .release = (if row.status = .failed then 1 else 0) ∧
      ¬ (0 < s.db.journalCount id .consume ∧ 0 < s.db.journalCount id .release) := by
  obtain ⟨hreserve, hconsume, hrelease⟩ :=
    (sound_of_reachable h id).journals (status_of_lookup hrow)
  refine ⟨hreserve, hconsume, hrelease, ?_⟩
  rintro ⟨hc, hr⟩
  change 0 < (s.db.lifecycle id).journals .consume at hc
  change 0 < (s.db.lifecycle id).journals .release at hr
  rw [hconsume] at hc
  rw [hrelease] at hr
  cases hstatus : row.status <;> simp [hstatus] at hc hr

theorem journals_match_status_paid :
    ∃ s, (system sampleSettings .contract Database.Unused).Reachable s ∧
      s.db.journalCount 7 .reserve = 1 ∧ s.db.journalCount 7 .consume = 1 ∧
      s.db.journalCount 7 .release = 0 := by
  obtain ⟨s, h, hdb, -, -⟩ := sample_run sampleStart_unused
  have hrow : s.db.settlements.lookup 7 = some (sampleRow .success) := by
    rw [hdb]
    rfl
  obtain ⟨hreserve, hconsume, hrelease, -⟩ := journals_match_status h hrow
  exact ⟨s, h, hreserve, hconsume, hrelease⟩

end SettlementRouter
