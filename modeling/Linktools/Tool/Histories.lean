import Linktools.Tool.Updates

namespace Linktools.Tool

open Linktools.Core Library ToolRepository ToolOperationRecord

variable {repo : ToolRepository} {store after : ToolStore} {now : Time} {call : ToolCall}
  {row result : Observed ToolOperationRecord} {record value : ToolOperationRecord}
  {observed : Option (Observed ToolOperationRecord)} {toolOperationId : String}

theorem requireToolClaim_ok (claim : requireToolClaim record owner fence allowUnknown = .ok done) :
    (record.status = .claimed ∨ allowUnknown = true ∧ record.status = .effectUnknown) ∧
      record.owner = some owner ∧ record.fence = fence := by
  unfold requireToolClaim at claim
  obtain ⟨status, held⟩ := not_or.mp (refuse_eq_ok.mp claim)
  obtain ⟨owned, fenced⟩ := not_or.mp held
  exact ⟨not_not.mp status, not_not.mp owned, not_not.mp fenced⟩

section Admission

variable {request : ToolOperationAdmission} {resolved : Option String} {knownNew : Bool}

theorem admissionSource_faithful (keyed : Keyed store)
    (receipts : ∀ receipt ∈ observed, Faithful store receipt)
    (done : admissionSource store request observed knownNew = .ok (some row, resolved)) :
    Faithful store row := by
  unfold admissionSource at done
  split at done
  case isTrue => cases done
  case isFalse =>
    split at done
    case h_1 receipt =>
      simp only [bind_eq_ok, refuse_eq_ok, pair_eq_ok, Option.some.injEq] at done
      obtain ⟨_, _, rfl, _⟩ := done
      exact receipts receipt rfl
    case h_2 =>
      simp only [bind_eq_ok, refuse_eq_ok, pair_eq_ok] at done
      obtain ⟨_, _, _, _, found, _⟩ := done
      exact keyed.faithful found

theorem admitNew_changes (done : admitNew store now request = .ok (result, after)) :
    Changes now call store after := by
  simp only [admitNew, bind_eq_ok] at done
  obtain ⟨record, built, inserted, insertion, done⟩ := done
  obtain ⟨absent, rfl⟩ := insertRecord_ok insertion
  have inserts : Changes now call store (store.putOperation ⟨record, 0⟩) := by
    apply Changes.of_put
    rw [absent]
    exact .inserted record rfl
  split at done
  case h_1 =>
    cases done
    exact inserts
  case h_2 =>
    simp only [bind_eq_ok, pair_eq_ok] at done
    obtain ⟨aliased, linked, _, rfl⟩ := done
    intro toolOperationId
    rw [insertAlias_ok linked]
    exact inserts toolOperationId

theorem recordAlias_holds (faithful : Faithful store row)
    (done : recordAlias store request row resolved = .ok (result, middle)) :
    result.value = row.value ∧ Faithful middle result ∧
    ∀ toolOperationId, store.operations toolOperationId = middle.operations toolOperationId ∨
      ∃ row revision, store.operations toolOperationId = some row ∧ row.storageRevision < revision ∧
        middle.operations toolOperationId = some ⟨row.value, revision⟩ := by
  unfold recordAlias at done
  split at done
  case h_1 callAlias _ _ =>
    simp only [bind_eq_ok, pair_eq_ok, Prod.exists] at done
    obtain ⟨revision, guarded, guards, aliased, linked, rfl, rfl⟩ := done
    obtain ⟨held, others⟩ := guardRecord_holds faithful guards
    refine ⟨rfl, ?_, ?_⟩
    · intro current stored _
      rw [insertAlias_ok linked, held] at stored
      exact (Option.some.inj stored).symm
    · rw [insertAlias_ok linked]
      exact others
  case h_2 =>
    cases done
    exact ⟨rfl, faithful, fun toolOperationId => .inl rfl⟩

theorem admitStored_changes (admits : call.request? = some request) (faithful : Faithful store row)
    (done : admitStored store now request row = .ok (result, after)) :
    Changes now call store after := by
  unfold admitStored at done
  split at done
  case h_1 =>
    cases done
    exact .refl
  case h_2 =>
    cases done
    exact .refl
  case h_3 =>
    cases done
    exact .refl
  case h_4 => cases done
  case h_5 =>
    split at done
    case isTrue =>
      cases done
      exact .refl
    case isFalse => cases done
  case h_6 pending =>
    simp only [bind_eq_ok, pair_eq_ok] at done
    obtain ⟨value, built, replaced, replacement, _, rfl⟩ := done
    have fields := build_eq_ok.mp built
    exact replaceTool_changes faithful (.claimed admits pending fields) replacement

theorem admitInTransaction_changes (admits : call.request? = some request)
    (keyed : Keyed store) (receipts : ∀ receipt ∈ observed, Faithful store receipt)
    (done : admitInTransaction store now request observed knownNew = .ok (result, after)) :
    Changes now call store after := by
  simp only [admitInTransaction, bind_eq_ok, Prod.exists] at done
  obtain ⟨_, _, _, _, found, resolved, source, done⟩ := done
  split at done
  case h_1 => exact admitNew_changes done
  case h_2 row =>
    simp only [bind_eq_ok, Prod.exists] at done
    obtain ⟨_, _, current, middle, links, done⟩ := done
    have faithful := admissionSource_faithful keyed receipts source
    obtain ⟨_, still, guards⟩ := recordAlias_holds faithful links
    exact .trans_guarded guards (admitStored_changes admits still done)

end Admission

theorem reserve_changes (keyed : Keyed store)
    (done : reserve store record = .ok (value, after)) : Changes now call store after := by
  simp only [reserve, bind_eq_ok] at done
  obtain ⟨_, _, aliasKey, _, done⟩ := done
  split at done
  case h_1 absent =>
    simp only [bind_eq_ok, pair_eq_ok] at done
    obtain ⟨inserted, insertion, aliased, linked, _, rfl⟩ := done
    obtain ⟨absent, rfl⟩ := insertRecord_ok insertion
    intro toolOperationId
    rw [insertAlias_ok linked]
    refine Changes.of_put ?_ toolOperationId
    rw [absent]
    exact .inserted record rfl
  case h_2 existing found =>
    simp only [bind_eq_ok] at done
    obtain ⟨_, _, done⟩ := done
    split at done
    case h_1 =>
      cases done
      exact .refl
    case h_2 =>
      simp only [bind_eq_ok, pair_eq_ok, Prod.exists] at done
      obtain ⟨revision, guarded, guards, aliased, linked, _, rfl⟩ := done
      have others := (guardRecord_holds (keyed.faithful found) guards).2
      exact .trans_guarded others (.of_operations (insertAlias_ok linked))

section Owners

variable {tenantId owner : String} {fence : Nat}

theorem deferInTransaction_changes (keyed : Keyed store)
    (done : repo.deferInTransaction store now tenantId toolOperationId owner fence =
      .ok (value, after)) :
    Changes now (.defer tenantId toolOperationId owner fence) store after := by
  simp only [deferInTransaction, bind_eq_ok, orRaise_eq_ok] at done
  obtain ⟨_, _, _, _, row, found, done⟩ := done
  split at done
  case isTrue =>
    simp only [bind_eq_ok, pair_eq_ok] at done
    obtain ⟨_, _, _, rfl⟩ := done
    exact .refl
  case isFalse =>
    simp only [bind_eq_ok, pair_eq_ok] at done
    obtain ⟨_, claim, next, built, replaced, replacement, _, rfl⟩ := done
    obtain ⟨status, owned, rfl⟩ := requireToolClaim_ok claim
    have held : row.value.status = .claimed := by simpa using status
    have fields := build_eq_ok.mp built
    obtain rfl := keyed _ _ found
    exact replaceTool_changes (keyed.faithful found) (.deferred held owned fields) replacement

theorem markEffectUnknown_changes (keyed : Keyed store)
    (done : repo.markEffectUnknown store now tenantId toolOperationId owner fence errorCode
      write = .ok (value, after)) :
    Changes now (.markEffectUnknown tenantId toolOperationId owner fence errorCode write) store
      after := by
  simp only [markEffectUnknown, bind_eq_ok, orRaise_eq_ok] at done
  obtain ⟨_, _, _, _, row, found, done⟩ := done
  split at done
  case isTrue =>
    simp only [bind_eq_ok] at done
    obtain ⟨_, _, done⟩ := done
    split at done
    case h_1 =>
      cases done
      exact .refl
    case h_2 =>
      simp only [bind_eq_ok, pair_eq_ok, Prod.exists] at done
      obtain ⟨revision, guarded, guards, _, _, _, rfl⟩ := done
      exact .trans_guarded (guardRecord_holds (keyed.faithful found) guards).2 .refl
  case isFalse =>
    simp only [bind_eq_ok, pair_eq_ok] at done
    obtain ⟨_, claim, next, built, replaced, replacement, _, _, _, rfl⟩ := done
    obtain ⟨status, owned, rfl⟩ := requireToolClaim_ok claim
    have held : row.value.status = .claimed := by simpa using status
    have fields := build_eq_ok.mp built
    obtain rfl := keyed _ _ found
    exact replaceTool_changes (keyed.faithful found) (.marked held fields) replacement

theorem finishSource_faithful (keyed : Keyed store)
    (receipts : ∀ receipt ∈ observed, Faithful store receipt)
    (done : finishSource store toolOperationId observed = .ok row) : Faithful store row := by
  unfold finishSource at done
  split at done
  case h_1 receipt =>
    simp only [bind_eq_ok, pure_eq_ok] at done
    obtain ⟨_, _, rfl⟩ := done
    exact receipts receipt rfl
  case h_2 => exact keyed.faithful (orRaise_eq_ok.mp done)

theorem finishTool_changes (reports : call.Reports)
    (keyed : Keyed store) (receipts : ∀ receipt ∈ observed, Faithful store receipt)
    (done : repo.finishTool store now tenantId toolOperationId owner fence outcome observed =
      .ok (result, after)) : Changes now call store after := by
  simp only [finishTool, bind_eq_ok] at done
  obtain ⟨_, _, _, _, _, _, row, source, done⟩ := done
  split at done
  case isTrue =>
    simp only [bind_eq_ok, pair_eq_ok] at done
    obtain ⟨_, _, _, rfl⟩ := done
    exact .refl
  case isFalse =>
    simp only [bind_eq_ok, pair_eq_ok] at done
    obtain ⟨_, _, _, claim, next, built, replaced, replacement, _, rfl⟩ := done
    have active : row.value.status = .claimed ∨ row.value.status = .effectUnknown := by
      simpa using (requireToolClaim_ok claim).1
    have fields := build_eq_ok.mp built
    exact replaceTool_changes (finishSource_faithful keyed receipts source)
      (.finished reports active fields) replacement

end Owners

section Operators

variable {resultPayload errorPayload : Option StoredPayload} {errorCode : Option String}
  {executionId : String}

theorem settleDeferredResult_changes (keyed : Keyed store)
    (done : settleDeferredResult store now record resultPayload errorCode errorPayload =
      .ok (value, after)) :
    Changes now (.settleDeferredResult record resultPayload errorCode errorPayload) store
      after := by
  simp only [settleDeferredResult, bind_eq_ok, orRaise_eq_ok] at done
  obtain ⟨row, found, _, _, _, _, done⟩ := done
  split at done
  case isTrue =>
    simp only [bind_eq_ok, pair_eq_ok] at done
    obtain ⟨_, _, _, rfl⟩ := done
    exact .refl
  case isFalse =>
    simp only [bind_eq_ok, pair_eq_ok, refuse_eq_ok, not_or, not_not] at done
    obtain ⟨_, ⟨pending, released⟩, next, built, replaced, replacement, _, rfl⟩ := done
    have fields := build_eq_ok.mp built
    exact replaceTool_changes (keyed.faithful found) (.settled pending released fields) replacement

theorem reconcileTurnClaim_changes (keyed : Keyed store)
    (done : reconcileTurnClaim store now toolOperationId executionId producerGeneration
      producerClaimId turnStopping = .ok (value, after)) :
    Changes now (.reconcileTurnClaim toolOperationId executionId producerGeneration
      producerClaimId turnStopping) store after := by
  simp only [reconcileTurnClaim, bind_eq_ok, orRaise_eq_ok] at done
  obtain ⟨row, found, _, _, done⟩ := done
  split at done
  case isTrue =>
    cases done
    exact .refl
  case isFalse held =>
    simp only [bind_eq_ok, pair_eq_ok] at done
    obtain ⟨_, _, next, built, replaced, replacement, _, rfl⟩ := done
    have claimed : row.value.status = .claimed := not_not.mp (not_or.mp held).1
    have fields := build_eq_ok.mp built
    obtain rfl := keyed _ _ found
    by_cases retry : row.value.replaySafe = true ∧ turnStopping = false
    case pos =>
      obtain ⟨safe, rfl⟩ := retry
      refine replaceTool_changes (keyed.faithful found) (.retried claimed safe ?_) replacement
      simpa [safe] using fields
    case neg =>
      refine replaceTool_changes (keyed.faithful found) (.abandoned claimed ?_) replacement
      simpa [retry] using fields

theorem resolveEffect_changes (keyed : Keyed store)
    (done : resolveEffect store now toolOperationId executionId expectedFence targetStatus
      resultPayload errorCode errorPayload admitted = .ok (value, after)) :
    Changes now (.resolveEffect toolOperationId executionId expectedFence targetStatus
      resultPayload errorCode errorPayload admitted) store after := by
  simp only [resolveEffect, bind_eq_ok, orRaise_eq_ok, pair_eq_ok, refuse_eq_ok,
    not_or, not_not] at done
  obtain ⟨row, found, _, _, _, ⟨unknown, rfl⟩, fields, resolves, updated, built, _, _, replaced,
    replacement, _, rfl⟩ := done
  obtain rfl := build_eq_ok.mp built
  obtain rfl := keyed _ _ found
  exact replaceTool_changes (keyed.faithful found) (.resolved unknown resolves) replacement

variable {recoveryAgentRunId : Option String} {effect : ToolEffectRecord}

theorem effectSource_faithful
    (keyed : Keyed store) (receipts : ∀ receipt ∈ observed, Faithful store receipt)
    (done : effectSource store effect toolOperationId recoveryAgentRunId observed = .ok row) :
    Faithful store row := by
  unfold effectSource at done
  split at done
  case h_1 receipt _ _ =>
    cases done
    exact receipts row rfl
  case h_2 found =>
    cases done
    exact keyed.faithful found
  case h_3 => cases done
  case h_4 =>
    simp only [bind_eq_ok, orRaise_eq_ok, Option.bind_eq_some_iff] at done
    obtain ⟨_, _, _, _, found⟩ := done
    exact keyed.faithful found

theorem recordToolEffect_changes (reports : call.Reports)
    (keyed : Keyed store) (receipts : ∀ receipt ∈ observed, Faithful store receipt)
    (done : recordToolEffect store now effect executionId toolOperationId bindingDigest
      recoveryAgentRunId observed = .ok (result, after)) : Changes now call store after := by
  simp only [recordToolEffect, bind_eq_ok] at done
  obtain ⟨row, source, _, _, done⟩ := done
  split at done
  case isTrue =>
    cases done
    exact .refl
  case isFalse =>
    simp only [bind_eq_ok, pair_eq_ok] at done
    obtain ⟨next, built, replaced, replacement, _, rfl⟩ := done
    have fields := build_eq_ok.mp built
    exact replaceTool_changes (effectSource_faithful keyed receipts source)
      (.annotated reports fields) replacement

end Operators

theorem run_changes (keyed : Keyed store)
    (receipts : ∀ receipt ∈ call.receipt?, Faithful store receipt)
    (done : call.run repo store now = .ok (answer, after)) :
    Changes now call store after := by
  cases call <;> simp only [ToolCall.run, receipted_eq_ok, recorded_eq_ok] at done <;>
    obtain ⟨_, done, _⟩ := done
  case admitTool => exact admitInTransaction_changes rfl keyed receipts done
  case admitInTransaction => exact admitInTransaction_changes rfl keyed receipts done
  case reserve => exact reserve_changes keyed done
  case defer => exact deferInTransaction_changes keyed done
  case markEffectUnknown => exact markEffectUnknown_changes keyed done
  case complete => exact finishTool_changes trivial keyed receipts done
  case fail => exact finishTool_changes trivial keyed receipts done
  case settleDeferredResult => exact settleDeferredResult_changes keyed done
  case reconcileTurnClaim => exact reconcileTurnClaim_changes keyed done
  case resolveEffect => exact resolveEffect_changes keyed done
  case recordToolEffect => exact recordToolEffect_changes trivial keyed receipts done

/-- What every later version of a record keeps: its identity and its replay safety, a fence
that never falls, an owner for each fence, and the outcome once it is settled. -/
structure Succeeds (old next : ToolOperationRecord) : Prop where
  toolOperationId : next.toolOperationId = old.toolOperationId
  replaySafe : next.replaySafe = old.replaySafe
  fence_le : old.fence ≤ next.fence
  owner : next.fence = old.fence → next.owner = old.owner ∨ next.owner = none
  settled : old.status.Settled → next.status = old.status ∧ next.owner = old.owner ∧
    next.fence = old.fence ∧ next.resultPayload = old.resultPayload ∧
    next.errorCode = old.errorCode ∧ next.errorPayload = old.errorPayload

section Succession

variable {old middle next : ToolOperationRecord}

theorem Succeeds.refl : Succeeds old old where
  toolOperationId := rfl
  replaySafe := rfl
  fence_le := le_refl _
  owner _ := .inl rfl
  settled _ := ⟨rfl, rfl, rfl, rfl, rfl, rfl⟩

theorem Succeeds.trans (left : Succeeds old middle) (right : Succeeds middle next) :
    Succeeds old next where
  toolOperationId := right.toolOperationId.trans left.toolOperationId
  replaySafe := right.replaySafe.trans left.replaySafe
  fence_le := le_trans left.fence_le right.fence_le
  owner same := by
    have rises := left.fence_le
    have further := right.fence_le
    cases right.owner (by omega) with
    | inl kept => exact (left.owner (by omega)).imp kept.trans kept.trans
    | inr released => exact .inr released
  settled settles := by
    obtain ⟨status, owner, fence, result, code, payload⟩ := left.settled settles
    obtain ⟨status', owner', fence', result', code', payload'⟩ := right.settled (status ▸ settles)
    exact ⟨status'.trans status, owner'.trans owner, fence'.trans fence, result'.trans result,
      code'.trans code, payload'.trans payload⟩

theorem not_settled_of_open {status : ToolOperationStatus}
    (active : status = .pending ∨ status = .claimed ∨ status = .effectUnknown) :
    ¬status.Settled := by
  rcases active with rfl | rfl | rfl <;> decide

theorem Succeeds.of_open
    (active : old.status = .pending ∨ old.status = .claimed ∨ old.status = .effectUnknown)
    (same : next.toToolOperationFields = fields)
    (named : fields.toolOperationId = old.toolOperationId)
    (safety : fields.replaySafe = old.replaySafe) (fence : fields.fence = old.fence)
    (owner : fields.owner = old.owner ∨ fields.owner = none) : Succeeds old next where
  toolOperationId := same ▸ named
  replaySafe := same ▸ safety
  fence_le := le_of_eq (same ▸ fence.symm)
  owner _ := same ▸ owner
  settled settles := absurd settles (not_settled_of_open active)

theorem Update.succeeds (update : Update now call old next) : Succeeds old next := by
  cases update with
  | claimed _ pending fields =>
    refine ⟨by rw [fields], by rw [fields], by simp [fields], fun same => ?_, fun settles =>
      absurd settles (not_settled_of_open (.inl pending))⟩
    rw [fields] at same
    exact absurd same (Nat.succ_ne_self _)
  | deferred held _ fields => exact .of_open (.inr (.inl held)) fields rfl rfl rfl (.inr rfl)
  | marked held fields => exact .of_open (.inr (.inl held)) fields rfl rfl rfl (.inl rfl)
  | @finished _ outcome _ _ _ active fields =>
    cases outcome with
    | completed => exact .of_open (.inr active) fields rfl rfl rfl (.inl rfl)
    | failed => exact .of_open (.inr active) fields rfl rfl rfl (.inl rfl)
  | settled pending _ fields => exact .of_open (.inl pending) fields rfl rfl rfl (.inl rfl)
  | retried held _ fields => exact .of_open (.inr (.inl held)) fields rfl rfl rfl (.inr rfl)
  | abandoned held fields => exact .of_open (.inr (.inl held)) fields rfl rfl rfl (.inl rfl)
  | @resolved _ targetStatus _ _ _ _ _ _ unknown fields =>
    cases targetStatus with
    | completed =>
      exact .of_open (.inr (.inr unknown)) (Except.ok.inj fields).symm rfl rfl rfl (.inl rfl)
    | pending =>
      exact .of_open (.inr (.inr unknown)) (Except.ok.inj fields).symm rfl rfl rfl (.inr rfl)
    | failed =>
      exact .of_open (.inr (.inr unknown)) (Except.ok.inj fields).symm rfl rfl rfl (.inl rfl)
    | claimed => cases fields
    | cancelled => cases fields
    | effectUnknown => cases fields
  | annotated _ fields =>
    cases next with
    | mk =>
      subst fields
      exact ⟨rfl, rfl, le_refl _, fun _ => .inl rfl, fun _ => ⟨rfl, rfl, rfl, rfl, rfl, rfl⟩⟩

end Succession

namespace ToolStore

def Precedes (store after : ToolStore) : Prop :=
  ∀ toolOperationId row, store.operations toolOperationId = some row →
    ∃ later, after.operations toolOperationId = some later ∧ Observed.Follows Succeeds row later

variable {middle : ToolStore}

theorem Precedes.refl : Precedes store store := fun _ row found => ⟨row, found, .refl⟩

theorem Precedes.trans (left : Precedes store middle) (right : Precedes middle after) :
    Precedes store after := by
  intro toolOperationId row found
  obtain ⟨between, kept, first⟩ := left toolOperationId row found
  obtain ⟨later, stored, second⟩ := right toolOperationId between kept
  exact ⟨later, stored, first.trans (fun _ _ _ => Succeeds.trans) second⟩

theorem Precedes.of_changes (changes : Changes now call store after) : Precedes store after := by
  intro toolOperationId row found
  have change := changes toolOperationId
  rw [found] at change
  generalize after.operations toolOperationId = next at change
  cases change with
  | same => exact ⟨row, rfl, .refl⟩
  | guarded _ revision grows => exact ⟨_, rfl, .inr ⟨grows, .refl⟩⟩
  | updated _ next revision grows update => exact ⟨_, rfl, .inr ⟨grows, update.succeeds⟩⟩

end ToolStore

theorem Changes.keyed (keyed : Keyed store) (changes : Changes now call store after) :
    Keyed after := by
  intro toolOperationId later found
  have change := changes toolOperationId
  have named := keyed toolOperationId
  rw [found] at change
  generalize store.operations toolOperationId = row at change named
  cases change with
  | same => exact named later rfl
  | guarded row => exact named row rfl
  | inserted _ here => exact here
  | updated row _ _ _ update => exact update.toolOperationId_eq.trans (named row rfl)

namespace ToolSystem

variable {system : ToolSystem} {answer : ToolAnswer}

theorem Genuine.faithful (genuine : ToolSystem.Genuine system call)
    (since : system.Since ToolStore.Precedes) :
    ∀ receipt ∈ call.receipt?, Faithful system.store receipt := by
  intro receipt held row found same
  obtain ⟨earlier, member, stored⟩ := genuine receipt held
  obtain ⟨later, present, follows⟩ :=
    since.of_seen (fun _ => .refl) member receipt.value.toolOperationId receipt stored
  cases found.symm.trans present
  exact (follows.eq_of_storageRevision same.symm).symm

section

variable (reachable : (toolMachine repo).Reachable system)
include reachable

theorem recorded_of_reachable : system.Since ToolStore.Precedes ∧ Keyed system.store := by
  have empty : Keyed {} := by rintro _ _ ⟨⟩
  refine Recording.since_of_reachable empty (fun _ _ _ => ToolStore.Precedes.trans) ?_ reachable
  intro recording since keyed label genuine answer after done
  have changes := run_changes keyed (genuine.faithful since) done
  exact ⟨.of_changes changes, changes.keyed keyed⟩

theorem changes_of_reachable (genuine : ToolSystem.Genuine system call)
    (done : call.run repo system.store now = .ok (answer, after)) :
    Changes now call system.store after := by
  obtain ⟨since, keyed⟩ := recorded_of_reachable reachable
  exact run_changes keyed (genuine.faithful since) done

theorem respond_changes (genuine : ToolSystem.Genuine system call) (now : Time) :
    (∃ raised, call.run repo system.store now = .error raised ∧
      system.respond repo call now = system) ∨
    ∃ answer after, call.run repo system.store now = .ok (answer, after) ∧
      system.respond repo call now = system.advance after ∧
      Changes now call system.store after := by
  cases Recording.respond_cases (fun store label => label.1.run repo store label.2) system
      (call, now) with
  | inl raises => exact .inl raises
  | inr commits =>
    obtain ⟨answer, after, done, same⟩ := commits
    exact .inr ⟨answer, after, done, same, changes_of_reachable reachable genuine done⟩

end

theorem step_changes (reachable : (toolMachine repo).Reachable first)
    (step : (toolMachine repo).step first label last) :
    Changes label.2 label.1 first.store last.store := by
  obtain ⟨genuine, rfl⟩ := step
  cases respond_changes reachable genuine label.2 with
  | inl raises =>
    obtain ⟨_, _, same⟩ := raises
    rw [ToolSystem.respond] at same
    rw [same]
    exact .refl
  | inr commits =>
    obtain ⟨answer, after, _, same, changes⟩ := commits
    rw [ToolSystem.respond] at same
    rw [same]
    exact changes

theorem reachable_respond (reachable : (toolMachine repo).Reachable system)
    (genuine : ToolSystem.Genuine system call) :
    (toolMachine repo).Reachable (system.respond repo call now) := by
  have step : (toolMachine repo).step system (call, now)
      (system.respond repo call now) := ⟨genuine, rfl⟩
  exact reachable.step step

theorem genuine_of_silent (silent : call.receipt? = none) : ToolSystem.Genuine system call := by
  intro receipt held
  cases silent.symm.trans held

end ToolSystem

end Linktools.Tool
