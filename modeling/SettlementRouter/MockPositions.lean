import SettlementRouter.MockContract

/-! # Positions in memory and in the database

One call after the other, on empty storage.  In memory an id is given the number of
ids recorded before it.  In the database it is given the value its insert drew, and
every call draws one, also a replay.  So the two agree exactly when, at each first
call of an id, the number of calls before it and the number of ids before it have the
same outcome (`durable_agrees_iff`).
-/
namespace SettlementRouter

section Replies
variable {σ ρ : Type}

/-- The storage after these calls. -/
def after (initiate : σ → UUID → ρ × σ) (storage : σ) : List UUID → σ
  | [] => storage
  | id :: ids => after initiate (initiate storage id).2 ids

/-- What these calls answer. -/
def replies (initiate : σ → UUID → ρ × σ) (storage : σ) : List UUID → List ρ
  | [] => []
  | id :: ids => (initiate storage id).1 :: replies initiate (initiate storage id).2 ids

variable {initiate : σ → UUID → ρ × σ} {storage : σ} {ids : List UUID} {id : UUID}

theorem after_concat : after initiate storage (ids ++ [id]) =
    (initiate (after initiate storage ids) id).2 := by
  induction ids generalizing storage with
  | nil => rfl
  | cons _ _ ih => exact ih

theorem replies_concat : replies initiate storage (ids ++ [id]) =
    replies initiate storage ids ++ [(initiate (after initiate storage ids) id).1] := by
  induction ids generalizing storage with
  | nil => rfl
  | cons _ _ ih => exact congrArg (_ :: ·) ih

theorem length_replies : (replies initiate storage ids).length = ids.length := by
  induction ids generalizing storage with
  | nil => rfl
  | cons _ _ ih => exact congrArg (· + 1) ih

end Replies

/-! ## One call in the database -/

section Calls
variable {provider : MockPayoutProvider} {position position' : ℕ} {outcome : MockOutcome}
  {error : MockError} {table : MockTable} {memory : MockMemory} {id : UUID} {ids : List UUID}

theorem outcomeForPosition_timesOut_iff
    (h : provider.outcomeForPosition position = .ok outcome) :
    outcome.timesOut = true ↔ outcome.submission = none := by
  unfold MockPayoutProvider.outcomeForPosition at h
  split_ifs at h
  · cases h
    simp
  · cases h
    simp
  · cases h
    simp
  · split at h <;> dsimp only at h <;> split_ifs at h <;> cases h <;> simp

/-- Only load mode runs out of positions. -/
theorem outcomeForPosition_eq_error_iff : provider.outcomeForPosition position = .error error ↔
    provider.loadMode = true ∧ 1000 ≤ position ∧
      error = .runtimeError "load provider supports exactly 1000 unique operations" := by
  unfold MockPayoutProvider.outcomeForPosition
  constructor
  · intro h
    split_ifs at h with hload
    · cases h
      exact ⟨hload, by omega, rfl⟩
    · split at h <;> dsimp only at h <;> split_ifs at h
  · rintro ⟨hload, hposition, rfl⟩
    rw [if_pos hload, if_neg (by omega), if_neg (by omega), if_neg (by omega)]

/-- Once there is no outcome for a position, there is none for any later one. -/
theorem outcomeForPosition_error_mono (hle : position ≤ position')
    (h : provider.outcomeForPosition position = .error error) :
    provider.outcomeForPosition position' = .error error := by
  obtain ⟨hload, hposition, herror⟩ := outcomeForPosition_eq_error_iff.mp h
  exact outcomeForPosition_eq_error_iff.mpr ⟨hload, hposition.trans hle, herror⟩

/-! The statements of a transaction with no other beside it. -/

section Statements
variable {rows draft : MockRows} {sequence : ℕ} {row : MockProviderOperation}
  {submission authority : String}

theorem transact_call {statement : MockStatement} {k : statement.Reply → MockProgram MockOutcome} :
    table.transact draft (Program.call statement >>= k) = (table.draw statement).transact
      (statement.run (table.draw statement).sequence table.rows draft).2
      (k (statement.run (table.draw statement).sequence table.rows draft).1) := by
  cases statement <;> rfl

theorem transact_insert_known {k : Option ℕ → MockProgram MockOutcome}
    (h : draft.over table.rows id = some row) :
    table.transact draft (Program.call (MockStatement.insert id submission authority) >>= k) =
      MockTable.transact ⟨table.rows, table.sequence + 1⟩ draft (k none) := by
  rw [transact_call]
  simp [MockStatement.run, h, MockTable.draw]

theorem transact_insert_new {k : Option ℕ → MockProgram MockOutcome} (h : table.rows id = none) :
    table.transact (fun _ => none)
        (Program.call (MockStatement.insert id submission authority) >>= k) =
      MockTable.transact ⟨table.rows, table.sequence + 1⟩
        (wrote id ⟨table.sequence + 1, submission, authority⟩) (k (some (table.sequence + 1))) := by
  rw [transact_call]
  simp [MockStatement.run, over_none, h, MockTable.draw, wrote]

theorem transact_update {k : Unit → MockProgram MockOutcome} :
    MockTable.transact ⟨rows, sequence⟩ (wrote id row)
        (Program.call (MockStatement.update id submission authority) >>= k) =
      MockTable.transact ⟨rows, sequence⟩ (wrote id ⟨row.ordinal, submission, authority⟩)
        (k ()) := by
  have hover : (wrote id row).over rows id = some row := by rw [over_wrote, Function.update_self]
  rw [transact_call]
  simp only [MockStatement.run, hover, MockTable.draw]
  rw [wrote, wrote, Function.update_idem]

theorem transact_readBack (h : draft.over rows id = some row) (hread : row.outcome = .ok outcome) :
    MockTable.transact ⟨rows, sequence⟩ draft (readBack id) =
      (.ok outcome, ⟨draft.over rows, sequence⟩) := by
  unfold readBack
  rw [transact_call]
  simp only [MockStatement.run, h, hread]
  rfl

end Statements

/-- A replay draws a value all the same. -/
theorem initiate_replayed {row : MockProviderOperation} (hrow : table.rows id = some row)
    (hread : row.outcome = .ok outcome) :
    table.initiate provider id = (.ok outcome, ⟨table.rows, table.sequence + 1⟩) := by
  have hover : MockRows.over (fun _ => none) table.rows id = some row := by rw [over_none, hrow]
  unfold MockTable.initiate durableOutcome
  rw [transact_insert_known hover]
  dsimp only
  rw [transact_readBack hover hread, over_none]

/-- A first call is given the value it drew, less one. -/
theorem initiate_allocated (hrow : table.rows id = none)
    (houtcome : provider.outcomeForPosition table.sequence = .ok outcome) :
    ∃ row, row.outcome = .ok outcome ∧ table.initiate provider id =
      (.ok outcome, ⟨Function.update table.rows id (some row), table.sequence + 1⟩) := by
  obtain ⟨value, hvalue, hread⟩ :=
    MockOutcome.submissionValue_ok (outcomeForPosition_timesOut_iff houtcome)
  have hupdated : MockRows.over (wrote id ⟨table.sequence + 1, value, outcome.authority.value⟩)
      table.rows id = some ⟨table.sequence + 1, value, outcome.authority.value⟩ := by
    rw [over_wrote, Function.update_self]
  refine ⟨_, hread (table.sequence + 1), ?_⟩
  unfold MockTable.initiate durableOutcome
  rw [transact_insert_new hrow]
  dsimp only
  unfold allocate
  rw [Nat.add_sub_cancel, houtcome]
  simp only [Program.ofExcept, Program.ret_bind, hvalue]
  rw [transact_update, transact_readBack hupdated (hread _), over_wrote]

theorem initiate_unallocated (hrow : table.rows id = none)
    (herror : provider.outcomeForPosition table.sequence = .error error) :
    table.initiate provider id = (.error error, ⟨table.rows, table.sequence + 1⟩) := by
  unfold MockTable.initiate durableOutcome
  rw [transact_insert_new hrow]
  dsimp only
  unfold allocate
  rw [Nat.add_sub_cancel, herror]
  rfl

/-! ## Memory and database in step -/

/-- After the same calls, with the same answers: the same ids are known, with the same
outcomes, and an id that was called but is not known never will be. -/
structure InStep (provider : MockPayoutProvider) (ids : List UUID) (memory : MockMemory)
    (table : MockTable) : Prop where
  sequence : table.sequence = ids.length
  stored : ∀ id, (table.rows id).map (·.outcome) = (memory.operations id).map .ok
  known : ∀ id, memory.operations id ≠ none → id ∈ ids
  count : memory.operationCount = ids.dedup.length ∨ memory.operationCount ≤ ids.dedup.length ∧
    ∃ error, provider.outcomeForPosition memory.operationCount = .error error
  rejected : ∀ id ∈ ids, memory.operations id = none →
    (∃ error, provider.outcomeForPosition memory.operationCount = .error error) ∧
    ∃ error, provider.outcomeForPosition table.sequence = .error error

theorem InStep.next_position (h : InStep provider ids memory table) :
    provider.outcomeForPosition memory.operationCount =
      provider.outcomeForPosition ids.dedup.length := by
  obtain heq | ⟨hle, error, herror⟩ := h.count
  · rw [heq]
  · rw [herror, outcomeForPosition_error_mono hle herror]

theorem length_dedup_concat (h : id ∉ ids) : (ids ++ [id]).dedup.length = ids.dedup.length + 1 := by
  rw [← List.card_toFinset, ← List.card_toFinset, List.toFinset_append]
  simp [h]

theorem length_dedup_concat_of_mem (h : id ∈ ids) :
    (ids ++ [id]).dedup.length = ids.dedup.length := by
  rw [← List.card_toFinset, ← List.card_toFinset, List.toFinset_append]
  simp [h]

/-- A call of an id that was called before. -/
theorem InStep.replay (h : InStep provider ids memory table) (hid : id ∈ ids) :
    InStep provider (ids ++ [id]) memory ⟨table.rows, table.sequence + 1⟩ where
  sequence := by simp [h.sequence]
  stored := h.stored
  known id' hknown := List.mem_append_left _ (h.known id' hknown)
  count := by
    rw [length_dedup_concat_of_mem hid]
    exact h.count
  rejected := by
    intro id' hid' hnone
    have hbefore : id' ∈ ids := by
      obtain hbefore | hlast := List.mem_append.mp hid'
      · exact hbefore
      · rwa [List.mem_singleton.mp hlast]
    obtain ⟨hcount, error, herror⟩ := h.rejected id' hbefore hnone
    exact ⟨hcount, error, outcomeForPosition_error_mono (Nat.le_succ _) herror⟩

/-- A first call that is given an outcome. -/
theorem InStep.record (h : InStep provider ids memory table) (hid : id ∉ ids)
    (houtcome : provider.outcomeForPosition memory.operationCount = .ok outcome)
    {row : MockProviderOperation} (hread : row.outcome = .ok outcome) :
    InStep provider (ids ++ [id])
      ⟨Function.update memory.operations id (some outcome), memory.operationCount + 1⟩
      ⟨Function.update table.rows id (some row), table.sequence + 1⟩ where
  sequence := by simp [h.sequence]
  stored := by
    intro id'
    by_cases hid' : id' = id
    · subst hid'
      simp [hread]
    · simpa [hid'] using h.stored id'
  known := by
    intro id' hknown
    by_cases hid' : id' = id
    · simp [hid']
    · dsimp only at hknown
      rw [Function.update_of_ne hid'] at hknown
      exact List.mem_append_left _ (h.known id' hknown)
  count := by
    rw [length_dedup_concat hid]
    obtain heq | ⟨-, error, herror⟩ := h.count
    · exact .inl (congrArg (· + 1) heq)
    · rw [houtcome] at herror
      cases herror
  rejected := by
    intro id' hid' hnone
    obtain hbefore | hlast := List.mem_append.mp hid'
    · have hne : id' ≠ id := by
        rintro rfl
        exact hid hbefore
      dsimp only at hnone
      rw [Function.update_of_ne hne] at hnone
      obtain ⟨⟨error, herror⟩, -⟩ := h.rejected id' hbefore hnone
      rw [houtcome] at herror
      cases herror
    · dsimp only at hnone
      rw [List.mem_singleton.mp hlast, Function.update_self] at hnone
      cases hnone

/-- A first call that is refused by both. -/
theorem InStep.refuse (h : InStep provider ids memory table) (hid : id ∉ ids)
    (hcount : provider.outcomeForPosition memory.operationCount = .error error)
    (hsequence : provider.outcomeForPosition table.sequence = .error error) :
    InStep provider (ids ++ [id]) memory ⟨table.rows, table.sequence + 1⟩ where
  sequence := by simp [h.sequence]
  stored := h.stored
  known id' hknown := List.mem_append_left _ (h.known id' hknown)
  count := by
    rw [length_dedup_concat hid]
    refine .inr ⟨?_, error, hcount⟩
    obtain heq | ⟨hle, -⟩ := h.count <;> omega
  rejected _ _ _ :=
    ⟨⟨error, hcount⟩, error, outcomeForPosition_error_mono (Nat.le_succ _) hsequence⟩

/-- One more call.  The answers agree if the id was called before, and otherwise when
the two positions have the same outcome. -/
theorem InStep.call (h : InStep provider ids memory table) (id : UUID) :
    ((table.initiate provider id).1 = (memory.initiate provider id).1 ↔
      (id ∉ ids → provider.outcomeForPosition ids.length =
        provider.outcomeForPosition ids.dedup.length)) ∧
    ((table.initiate provider id).1 = (memory.initiate provider id).1 →
      InStep provider (ids ++ [id]) (memory.initiate provider id).2
        (table.initiate provider id).2) := by
  have hstored := h.stored id
  cases hoperation : memory.operations id with
  | some stored =>
    have hid := h.known id (by simp [hoperation])
    rw [hoperation, Option.map_some, Option.map_eq_some_iff] at hstored
    obtain ⟨row, hrow, hread⟩ := hstored
    rw [initiate_replayed hrow hread, initiate_known hoperation]
    exact ⟨iff_of_true rfl fun hnew => absurd hid hnew, fun _ => h.replay hid⟩
  | none =>
    rw [hoperation, Option.map_none, Option.map_eq_none_iff] at hstored
    by_cases hid : id ∈ ids
    · -- it was refused, and is refused again on both sides
      obtain ⟨⟨error, hcount⟩, error', hsequence⟩ := h.rejected id hid hoperation
      obtain ⟨-, -, rfl⟩ := outcomeForPosition_eq_error_iff.mp hcount
      obtain ⟨-, -, rfl⟩ := outcomeForPosition_eq_error_iff.mp hsequence
      rw [initiate_unallocated hstored hsequence, initiate_rejected hoperation hcount]
      exact ⟨iff_of_true rfl fun hnew => absurd hid hnew, fun _ => h.replay hid⟩
    · -- a new id: the identity value is the number of calls, the count that of the ids
      rw [← h.sequence, ← h.next_position, imp_iff_right hid]
      cases hsequence : provider.outcomeForPosition table.sequence with
      | ok outcome =>
        obtain ⟨row, hread, hallocated⟩ := initiate_allocated hstored hsequence
        rw [hallocated]
        cases hcount : provider.outcomeForPosition memory.operationCount with
        | ok outcome' =>
          rw [initiate_new hoperation hcount]
          refine ⟨Iff.rfl, fun heq => ?_⟩
          cases heq
          exact h.record hid hcount hread
        | error error =>
          rw [initiate_rejected hoperation hcount]
          exact ⟨Iff.rfl, fun heq => by cases heq⟩
      | error error =>
        rw [initiate_unallocated hstored hsequence]
        cases hcount : provider.outcomeForPosition memory.operationCount with
        | ok outcome =>
          rw [initiate_new hoperation hcount]
          exact ⟨Iff.rfl, fun heq => by cases heq⟩
        | error error' =>
          rw [initiate_rejected hoperation hcount]
          refine ⟨Iff.rfl, fun heq => ?_⟩
          cases heq
          exact h.refuse hid hcount hsequence

end Calls

/-- At each first call of an id, the number of calls before it and the number of ids
before it have the same outcome. -/
def SamePositions (provider : MockPayoutProvider) (ids : List UUID) : Prop :=
  ∀ before id later, ids = before ++ id :: later → id ∉ before →
    provider.outcomeForPosition before.length = provider.outcomeForPosition before.dedup.length

theorem samePositions_concat {provider : MockPayoutProvider} {ids : List UUID} {id : UUID} :
    SamePositions provider (ids ++ [id]) ↔ SamePositions provider ids ∧
      (id ∉ ids → provider.outcomeForPosition ids.length =
        provider.outcomeForPosition ids.dedup.length) := by
  constructor
  · intro h
    refine ⟨?_, h ids id [] rfl⟩
    rintro before id' later rfl
    exact h before id' (later ++ [id]) (by simp)
  · rintro ⟨hids, hid⟩ before id' later heq
    rcases List.eq_nil_or_concat later with rfl | ⟨later, last, rfl⟩
    · obtain ⟨rfl, hlast⟩ := List.append_inj' heq rfl
      cases hlast
      exact hid
    · rw [List.concat_eq_append, ← List.cons_append, ← List.append_assoc] at heq
      obtain ⟨rfl, -⟩ := List.append_inj' heq rfl
      exact hids before id' later rfl

theorem inStep_empty (provider : MockPayoutProvider) : InStep provider [] .empty .empty where
  sequence := rfl
  stored _ := rfl
  known _ hknown := absurd rfl hknown
  count := .inl rfl
  rejected _ hmem := absurd hmem List.not_mem_nil

/-- The answers agree so far exactly when the positions do, and then memory and
database are in step. -/
theorem replies_agree (provider : MockPayoutProvider) (ids : List UUID) :
    (replies (MockTable.initiate provider) .empty ids =
      replies (MockMemory.initiate provider) .empty ids ↔ SamePositions provider ids) ∧
    (SamePositions provider ids → InStep provider ids
      (after (MockMemory.initiate provider) .empty ids)
      (after (MockTable.initiate provider) .empty ids)) := by
  induction ids using List.reverseRecOn with
  | nil =>
    have hnil : SamePositions provider [] := by
      intro before id later heq
      simp at heq
    exact ⟨iff_of_true rfl hnil, fun _ => inStep_empty provider⟩
  | append_singleton ids id ih =>
    obtain ⟨hiff, hinStep⟩ := ih
    have hsplit : replies (MockTable.initiate provider) .empty (ids ++ [id]) =
        replies (MockMemory.initiate provider) .empty (ids ++ [id]) ↔
        SamePositions provider ids ∧
        ((after (MockTable.initiate provider) .empty ids).initiate provider id).1 =
          ((after (MockMemory.initiate provider) .empty ids).initiate provider id).1 := by
      rw [replies_concat, replies_concat, ← hiff]
      constructor
      · intro heq
        obtain ⟨hids, hlast⟩ := List.append_inj' heq rfl
        exact ⟨hids, (List.cons.inj hlast).1⟩
      · rintro ⟨hids, hlast⟩
        rw [hids, hlast]
    rw [hsplit, samePositions_concat, after_concat, after_concat]
    refine ⟨and_congr_right fun hids => ((hinStep hids).call id).1, ?_⟩
    rintro ⟨hids, hid⟩
    exact ((hinStep hids).call id).2 (((hinStep hids).call id).1.mpr hid)

/-- These calls are a run of the system, each call after the end of the one before. -/
theorem replies_reachable (provider : MockPayoutProvider) (ids : List UUID) :
    ∃ s, (durable {provider}).Reachable s ∧
      s.table = after (MockTable.initiate provider) .empty ids ∧
      (∀ c, (s.calls c).Outside) ∧ (∀ c, ids.length ≤ c → s.calls c = .idle) ∧
      ∀ c id reply, ids[c]? = some id →
        (replies (MockTable.initiate provider) .empty ids)[c]? = some reply →
        .initiated c id (callAnswer reply) ∈ s.trace := by
  induction ids using List.reverseRecOn with
  | nil =>
    refine ⟨_, .init rfl, rfl, ?_, fun _ _ => rfl, by simp⟩
    intro c id program drawn draft heq
    cases heq
  | append_singleton ids id ih =>
    obtain ⟨s, hreachable, htable, houtside, hidle, hanswers⟩ := ih
    obtain ⟨t, hlater, htable', hcalls, htrace, hanswer⟩ := initiate_later
      (Set.mem_singleton provider) (hidle ids.length le_rfl) (fun c _ => houtside c) id
    refine ⟨t, hreachable.later hlater, ?_, ?_, ?_, ?_⟩
    · rw [htable', htable, after_concat]
    · intro c
      rw [hcalls]
      by_cases hc : c = ids.length
      · subst hc
        rw [Function.update_self]
        exact outside_done
      · rw [Function.update_of_ne hc]
        exact houtside c
    · intro c hc
      rw [List.length_append, List.length_singleton] at hc
      rw [hcalls, Function.update_of_ne (by omega)]
      exact hidle c (by omega)
    · intro c id' reply hid hreply
      rw [replies_concat] at hreply
      rcases Nat.lt_trichotomy c ids.length with hc | rfl | hc
      · rw [List.getElem?_append_left hc] at hid
        rw [List.getElem?_append_left (by rwa [length_replies])] at hreply
        exact htrace (hanswers c id' reply hid hreply)
      · rw [List.getElem?_concat_length] at hid
        have hlength : (replies (MockTable.initiate provider) .empty ids).length = ids.length :=
          length_replies
        rw [← hlength, List.getElem?_concat_length] at hreply
        cases hid
        cases hreply
        rw [← htable]
        exact hanswer
      · rw [List.getElem?_eq_none (by simp; omega)] at hid
        cases hid

/-- **When the durable provider agrees with the one in memory.**  On empty storage, with
the same arguments and any sequence of calls, each call has the same outcome exactly
when each id first called has the same outcome at the number of calls before it as at
the number of ids before it. -/
theorem durable_agrees_iff (provider : MockPayoutProvider) (ids : List UUID) :
    replies (MockTable.initiate provider) .empty ids =
      replies (MockMemory.initiate provider) .empty ids ↔ SamePositions provider ids :=
  (replies_agree provider ids).1

/-- Fourteen calls of one id, and one of another: in memory the second operation is
paid like the first, in the database it is the first of the ambiguous ones. -/
theorem durable_disagrees :
    replies (MockTable.initiate defaultProvider) .empty (List.replicate 14 1 ++ [2]) =
      List.replicate 14 (.ok ⟨some .paid, .paid, false⟩) ++
        [.ok ⟨some .ambiguous, .paid, false⟩] ∧
    replies (MockMemory.initiate defaultProvider) .empty (List.replicate 14 1 ++ [2]) =
      List.replicate 15 (.ok ⟨some .paid, .paid, false⟩) ∧
    replies (MockTable.initiate defaultProvider) .empty (List.replicate 14 1 ++ [2]) ≠
      replies (MockMemory.initiate defaultProvider) .empty (List.replicate 14 1 ++ [2]) := by
  decide +kernel

end SettlementRouter
