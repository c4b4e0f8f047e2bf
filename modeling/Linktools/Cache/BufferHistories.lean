import Linktools.Cache.BufferChanges

namespace Linktools.Cache

open Linktools.Core Library StorageBuffer Function List

variable {Key : Type} [DecidableEq Key] {batchSize : Nat} {maxAge : ViewId → Time}
  {origin : Key → Payload} {buffer after : StorageBuffer Key} {get : BufferGet Key} {key : Key}
  {hot : ReadSystem} {label : ReadLabel} {value : Payload}

omit [DecidableEq Key] in
theorem GetSound.cached (sound : GetSound buffer get)
    (step : ReadStep maxAge buffer.hot label hot) : GetSound (buffer.cached hot [label]) get := by
  refine ⟨sound.past, sound.assigned, fun fill filling => ?_⟩
  obtain ⟨known, own⟩ := sound.own fill filling
  refine ⟨step.fills_mono fill known, fun other member owner token began => ?_⟩
  cases mem_cons.mp member with
  | inl same => exact absurd known (step.fill_new (same ▸ began))
  | inr earlier => exact own other earlier owner token began

theorem GetLive.cached (live : GetLive origin buffer get) (sound : GetSound buffer get)
    (step : ReadStep maxAge buffer.hot label hot) :
    GetLive origin (buffer.cached hot [label]) get := by
  refine ⟨live.settled, live.seen, fun fill value loading hot begun => ?_⟩
  cases begun.of_cons with
  | inl began =>
    obtain ⟨owner, began⟩ := began
    exact absurd (sound.own fill (by rw [loading]; rfl)).1 (step.fill_new began)
  | inr begun => exact live.loads fill value loading hot begun.2

section

variable (sound : BufferSound batchSize maxAge origin buffer)
include sound

theorem BufferSound.cached (step : ReadStep maxAge buffer.hot label hot)
    (unasked : ∀ view key, label.event ≠ .asked view key)
    (loads : ∀ fill view key value captured, label.event ≠ .put fill view key value captured)
    (began : ∀ fill view token, label.event = .began fill view token →
      token ∈ buffer.assigned.map Prod.snd)
    (returned : buffer.failure = false → ∀ fill value, label.event = .returned fill value →
      ∀ key token, (key, token) ∈ buffer.hotKeys → Begun buffer.labels fill token →
        key ∉ buffer.inflight.map Entry.key → value = lastValue origin buffer.consumed key) :
    BufferSound batchSize maxAge origin (buffer.cached hot [label]) := by
  refine ⟨sound.scope, sound.sink, sound.busy, sound.hot.step step unasked loads began, ?_,
    fun unfailed => ?_⟩
  · exact fun get member => (sound.gets get member).cached step
  · have live := sound.live unfailed
    refine ⟨live.handed, live.pending, live.store, live.resolved, ?_, ?_⟩
    · exact fun get member => (live.gets get member).cached (sound.gets get member) step
    · intro key token hot fill time value begun member
      cases begun.of_cons with
      | inl began =>
        obtain ⟨owner, began⟩ := began
        cases mem_cons.mp member with
        | inl same =>
          rw [← same] at began
          cases began
        | inr earlier => exact absurd (sound.hot.known _ earlier fill rfl) (step.fill_new began)
      | inr begun =>
        cases mem_cons.mp member with
        | inl same => exact returned unfailed fill value (by rw [← same]) key token hot begun.2
        | inr earlier => exact live.loads key token hot fill time value begun.2 earlier

theorem BufferSound.setGet (getSound : GetSound buffer get)
    (getLive : buffer.failure = false → GetLive origin buffer get) :
    BufferSound batchSize maxAge origin (buffer.setGet get) := by
  refine ⟨sound.scope, sound.sink, sound.busy, sound.hot, ?_, fun unfailed => ?_⟩
  · intro other member
    cases mem_rewriteAt member with
    | inl same =>
      rw [same]
      exact ⟨getSound.past, getSound.assigned, getSound.own⟩
    | inr kept =>
      have otherSound := sound.gets other kept.1
      exact ⟨otherSound.past, otherSound.assigned, otherSound.own⟩
  · have live := sound.live unfailed
    refine ⟨live.handed, live.pending, live.store, live.resolved, ?_, live.loads⟩
    intro other member
    cases mem_rewriteAt member with
    | inl same =>
      rw [same]
      have own := getLive unfailed
      exact ⟨own.settled, own.seen, own.loads⟩
    | inr kept =>
      have otherLive := live.gets other kept.1
      exact ⟨otherLive.settled, otherLive.seen, otherLive.loads⟩

section

variable (past : get.mutation ≤ (buffer.keys get.key).mutation)
include past

theorem BufferSound.rest
    (resting : get.stage.waits = false ∧ get.stage.value = none ∧ get.stage.fill = none) :
    BufferSound batchSize maxAge origin (buffer.setGet get) := by
  obtain ⟨waits, value, fill⟩ := resting
  refine sound.setGet ⟨past, ?_, ?_⟩ fun _ => ⟨?_, ?_, ?_⟩
  · rw [waits]
    nofun
  · rw [fill]
    nofun
  · rw [waits]
    nofun
  · rw [value]
    nofun
  · intro filling seen loading
    rw [loading] at waits
    cases waits

theorem BufferSound.finish :
    BufferSound batchSize maxAge origin (buffer.finish get value) := by
  refine sound.rest past ?_
  dsimp only
  split <;> exact ⟨rfl, rfl, rfl⟩

end

end

variable {now : Time}

theorem BufferSound.served (sound : BufferSound batchSize maxAge origin buffer)
    (member : get ∈ buffer.gets)
    (step : ReadStep maxAge buffer.hot ⟨now, .served 0 get.token value⟩ hot) :
    BufferSound batchSize maxAge origin
      ((buffer.cached hot [⟨now, .served 0 get.token value⟩]).finish get value) := by
  have cached : BufferSound batchSize maxAge origin
      (buffer.cached hot [⟨now, .served 0 get.token value⟩]) :=
    sound.cached step nofun nofun nofun nofun
  exact cached.finish (sound.gets get member).past

variable {fill id : Nat}

section

variable (sound : BufferSound batchSize maxAge origin buffer) (member : get ∈ buffer.gets)
include sound member

theorem BufferSound.published (loaded : get.stage = .loaded fill value)
    (step : ReadStep maxAge buffer.hot ⟨now, .finished fill⟩ hot) :
    BufferSound batchSize maxAge origin ((buffer.cached hot [⟨now, .finished fill⟩]).setGet
      { get with stage := .answered value }) := by
  have cached : BufferSound batchSize maxAge origin (buffer.cached hot [⟨now, .finished fill⟩]) :=
    sound.cached step nofun nofun nofun nofun
  refine cached.setGet ⟨(sound.gets get member).past, nofun, nofun⟩ fun unfailed =>
    ⟨nofun, ?_, nofun⟩
  intro other seen
  cases seen
  exact ((sound.live unfailed).gets get member).seen value (by rw [loaded]; rfl)

theorem BufferSound.missed {generation : ReadGeneration} (asking : get.stage = .asking generation)
    (step : ReadStep maxAge buffer.hot ⟨now, .began fill 0 get.token⟩ hot) :
    BufferSound batchSize maxAge origin
      ((buffer.cached hot [⟨now, .began fill 0 get.token⟩]).setGet
        { get with stage := .loading fill none }) := by
  have getSound := sound.gets get member
  have waits : get.stage.waits = true := by
    rw [asking]
    rfl
  have assigned := getSound.assigned waits
  have cached : BufferSound batchSize maxAge origin
      (buffer.cached hot [⟨now, .began fill 0 get.token⟩]) := by
    refine sound.cached step nofun nofun ?_ nofun
    intro _ _ token began
    cases began
    exact mem_map_of_mem (f := Prod.snd) assigned
  refine cached.setGet ⟨getSound.past, fun _ => assigned, ?_⟩ fun unfailed => ⟨?_, nofun, nofun⟩
  · intro other filling
    cases filling
    refine ⟨step.fill_mem rfl, fun label labelled owner token began => ?_⟩
    cases mem_cons.mp labelled with
    | inl same =>
      rw [same] at began
      cases began
      rfl
    | inr earlier =>
      have known := sound.hot.known label earlier fill (by rw [began]; rfl)
      exact absurd known (step.fill_new rfl)
  · exact fun _ => ((sound.live unfailed).gets get member).settled waits

theorem BufferSound.looked (loading : get.stage = .loading fill none) :
    BufferSound batchSize maxAge origin
      (buffer.setGet { get with stage := .loading fill (some (buffer.store get.key)) }) := by
  have getSound := sound.gets get member
  have waits : get.stage.waits = true := by
    rw [loading]
    rfl
  refine sound.setGet ⟨getSound.past, fun _ => getSound.assigned waits, ?_⟩
    fun unfailed => ⟨?_, ?_, ?_⟩
  · intro other filling
    cases filling
    exact getSound.own fill (by rw [loading]; rfl)
  · exact fun _ => ((sound.live unfailed).gets get member).settled waits
  · intro value seen unchanged
    cases seen
    have live := sound.live unfailed
    obtain ⟨absent, same⟩ :=
      live.settled_of_none sound.scope ((live.gets get member).settled waits unchanged)
    rw [same]
    exact live.store_of_absent absent
  · intro other value seen _ _ absent
    cases seen
    exact (sound.live unfailed).store_of_absent absent

theorem BufferSound.returned (loading : get.stage = .loading fill (some value))
    (step : ReadStep maxAge buffer.hot ⟨now, .returned fill value⟩ hot) :
    BufferSound batchSize maxAge origin
      ((buffer.cached hot [⟨now, .returned fill value⟩]).setGet
        { get with stage := .loaded fill value }) := by
  have getSound := sound.gets get member
  have waits : get.stage.waits = true := by
    rw [loading]
    rfl
  have filling : get.stage.fill = some fill := by
    rw [loading]
    rfl
  have cached : BufferSound batchSize maxAge origin
      (buffer.cached hot [⟨now, .returned fill value⟩]) := by
    refine sound.cached step nofun nofun nofun ?_
    intro unfailed other given returned key token stored begun absent
    cases returned
    obtain ⟨label, labelled, owner, began⟩ := begun.exists_mem
    have own : token = get.token := (getSound.own fill filling).2 label labelled owner token began
    subst own
    have same := sound.hot.owner key get.key get.token (sound.hot.indexed _ stored)
      (getSound.assigned waits)
    subst same
    exact ((sound.live unfailed).gets get member).loads fill value loading stored begun absent
  have next := getSound.cached step
  refine cached.setGet ⟨next.past, fun _ => next.assigned waits, ?_⟩ fun unfailed => ⟨?_, ?_, nofun⟩
  · intro other same
    cases same
    exact next.own fill filling
  · exact fun _ => ((sound.live unfailed).gets get member).settled waits
  · intro other seen
    cases seen
    exact ((sound.live unfailed).gets get member).seen value (by rw [loading]; rfl)

end

variable {token : String}

theorem StorageBuffer.tokenOf_eq_some (distinct : (buffer.hotKeys.map Prod.fst).Nodup)
    (stored : (key, token) ∈ buffer.hotKeys) : buffer.tokenOf key = some token := by
  rw [tokenOf, rowAt_of_mem distinct stored]
  rfl

theorem StorageBuffer.mem_of_tokenOf (found : buffer.tokenOf key = some token) :
    (key, token) ∈ buffer.hotKeys := by
  obtain ⟨entry, row, rfl⟩ := Option.map_eq_some_iff.mp found
  have own : entry.1 = key := rowAt_key row
  exact own ▸ rowAt_mem row

omit [DecidableEq Key] in
theorem Begun.of_asked {fresh labels : List ReadLabel} {tokens : List String}
    (events : fresh.map ReadLabel.event = tokens.map (.invalidated 0) ++ [.asked 0 asked])
    (begun : Begun (fresh.reverse ++ labels) id token) : Begun labels id token := by
  obtain ⟨earlier, latest, rfl, invalidated, question⟩ := map_eq_append_iff.mp events
  obtain ⟨label, rfl, asks⟩ := map_eq_singleton_iff.mp question
  rw [reverse_append, append_assoc] at begun
  cases begun.of_cons with
  | inl began =>
    obtain ⟨owner, began⟩ := began
    rw [asks] at began
    cases began
  | inr kept => exact (kept.2.of_invalidated invalidated).2

/-- The index of tokens with the key at its end, and what it pushed out. -/
structure BufferIndexed (buffer : StorageBuffer Key) (key : Key) (token : String)
    (evicted : Option (Key × String)) (kept : List (Key × String)) : Prop where
  split : buffer.indexed key token = evicted.toList ++ kept
  here : (key, token) ∈ kept

theorem indexed_of_index (index : if hotKeyLimit < (buffer.indexed key token).length then
        buffer.indexed key token = evicted.toList ++ kept ∧ evicted.isSome = true
      else evicted = none ∧ kept = buffer.indexed key token) :
    BufferIndexed buffer key token evicted kept := by
  split at index
  case isTrue full =>
    obtain ⟨split, pushed⟩ := index
    refine ⟨split, ?_⟩
    obtain ⟨entry, rfl⟩ := Option.isSome_iff_exists.mp pushed
    cases front : buffer.hotKeys.filter fun entry => entry.1 ≠ key with
    | nil =>
      rw [indexed, front] at full
      have single : hotKeyLimit < 1 := full
      exact absurd single (by decide)
    | cons first rest =>
      rw [indexed, front] at split
      have rest : rest ++ [(key, token)] = kept := (List.cons.inj split).2
      rw [← rest]
      exact mem_append_right _ mem_cons_self
  case isFalse =>
    obtain ⟨rfl, rfl⟩ := index
    exact ⟨rfl, mem_append_right _ mem_cons_self⟩

section Asked

variable {fresh : String} {evicted : Option (Key × String)} {kept : List (Key × String)}
  {labels : List ReadLabel}

section

variable (index : BufferIndexed buffer key token evicted kept)
include index

theorem BufferIndexed.known : ∀ entry ∈ kept, entry ∈ buffer.hotKeys ∨ entry = (key, token) := by
  intro entry member
  have within : entry ∈ buffer.indexed key token := by
    rw [index.split]
    exact mem_append_right _ member
  cases mem_append.mp within with
  | inl earlier => exact .inl (mem_of_mem_filter earlier)
  | inr last => exact .inr (mem_singleton.mp last)

theorem BufferIndexed.distinct
    (distinct : (buffer.hotKeys.map Prod.fst).Nodup) : (kept.map Prod.fst).Nodup := by
  have whole : ((buffer.indexed key token).map Prod.fst).Nodup := by
    rw [indexed, map_append]
    apply List.Nodup.append
    · exact distinct.sublist (filter_sublist.map Prod.fst)
    · exact nodup_singleton _
    · intro other earlier last
      obtain ⟨entry, member, rfl⟩ := mem_map.mp earlier
      have different := of_decide_eq_true (mem_filter.mp member).2
      exact different (mem_singleton.mp last)
  rw [index.split, map_append] at whole
  exact (nodup_append.mp whole).2.1

theorem BufferIndexed.others (distinct : (buffer.hotKeys.map Prod.fst).Nodup)
    (tokenEq : token = (buffer.tokenOf key).getD fresh) :
    ∀ entry ∈ buffer.hotKeys, entry ∈ evicted.toList ++ kept := by
  intro entry member
  rw [← index.split, indexed]
  by_cases own : entry.1 = key
  case pos =>
    have stored : (key, entry.2) ∈ buffer.hotKeys := own ▸ member
    rw [tokenOf_eq_some distinct stored] at tokenEq
    apply mem_append_right
    rw [mem_singleton, ← own, tokenEq]
    rfl
  case neg =>
    apply mem_append_left
    exact mem_filter.mpr ⟨member, decide_eq_true own⟩

end

theorem token_known (tokenEq : token = (buffer.tokenOf key).getD fresh)
    (unused : fresh ∉ buffer.assigned.map Prod.snd) :
    (key, token) ∈ buffer.hotKeys ∨ token ∉ buffer.assigned.map Prod.snd := by
  cases found : buffer.tokenOf key with
  | none =>
    rw [tokenEq, found]
    exact .inr unused
  | some stored =>
    rw [tokenEq, found]
    exact .inl (mem_of_tokenOf found)

section

variable (sound : BufferSound batchSize maxAge origin buffer)
include sound

theorem BufferSound.indexed (unused : fresh ∉ buffer.assigned.map Prod.snd)
    (tokenEq : token = (buffer.tokenOf key).getD fresh)
    (index : BufferIndexed buffer key token evicted kept)
    (run : (readMachine maxAge).Run buffer.hot labels hot) (events : labels.map ReadLabel.event =
      evicted.toList.map (.invalidated 0 ·.2) ++ [.asked 0 token]) :
    BufferSound batchSize maxAge origin { buffer.cached hot labels with
      hotKeys := kept, assigned := (key, token) :: buffer.assigned } := by
  have hotSound := sound.hot
  have known := token_known tokenEq unused
  have split : labels.map ReadLabel.event =
      (evicted.toList.map Prod.snd).map (.invalidated 0) ++ [.asked 0 token] := by
    rw [events, map_map]
    rfl
  have before {other : Key} {name : String} (member : (other, name) ∈ kept)
      (used : name ∈ buffer.assigned.map Prod.snd) : (other, name) ∈ buffer.hotKeys := by
    cases index.known _ member with
    | inl earlier => exact earlier
    | inr own =>
      cases own
      exact known.resolve_right (absurd used)
  have unasked : ∀ label ∈ labels, ∀ fill owner name, label.event ≠ .began fill owner name := by
    intro label member fill owner name began
    have event := mem_map_of_mem (f := ReadLabel.event) member
    rw [events, began] at event
    cases mem_append.mp event with
    | inl invalidated =>
      obtain ⟨_, _, impossible⟩ := mem_map.mp invalidated
      cases impossible
    | inr asked => cases mem_singleton.mp asked
  refine ⟨sound.scope, sound.sink, sound.busy, ?_, ?_, fun unfailed => ?_⟩
  · apply hotSound.asked run events (index.distinct hotSound.distinct) _ index.here
      (index.others hotSound.distinct tokenEq)
    · intro other owned
      cases known with
      | inl stored => exact hotSound.owner other key token owned (hotSound.indexed _ stored)
      | inr unknown => exact absurd (mem_map_of_mem (f := Prod.snd) owned) unknown
    · intro entry member
      cases index.known entry member with
      | inl earlier => exact mem_cons_of_mem _ (hotSound.indexed entry earlier)
      | inr own => exact own ▸ mem_cons_self
  · intro get member
    have getSound := sound.gets get member
    refine ⟨getSound.past, fun waits => mem_cons_of_mem _ (getSound.assigned waits), ?_⟩
    intro fill filling
    obtain ⟨stored, own⟩ := getSound.own fill filling
    refine ⟨fills_of_run run fill stored, fun label labelled owner name began => ?_⟩
    cases mem_append.mp labelled with
    | inl new => exact absurd began (unasked label (mem_reverse.mp new) fill owner name)
    | inr earlier => exact own label earlier owner name began
  · have live := sound.live unfailed
    refine ⟨live.handed, live.pending, live.store, live.resolved, ?_, ?_⟩
    · intro get member
      have getLive := live.gets get member
      refine ⟨getLive.settled, getLive.seen, fun fill value loading stored begun absent => ?_⟩
      have used := (sound.gets get member).assigned (by rw [loading]; rfl)
      exact getLive.loads fill value loading
        (before stored (mem_map_of_mem (f := Prod.snd) used)) (begun.of_asked split) absent
    · intro other name stored fill time value begun returned absent
      have begun : Begun buffer.labels fill name := begun.of_asked split
      have earlier : ⟨time, .returned fill value⟩ ∈ buffer.labels := by
        cases mem_append.mp returned with
        | inl new =>
          have event := mem_map_of_mem (f := ReadLabel.event) (mem_reverse.mp new)
          rw [events] at event
          cases mem_append.mp event with
          | inl invalidated =>
            obtain ⟨_, _, impossible⟩ := mem_map.mp invalidated
            cases impossible
          | inr asked => cases mem_singleton.mp asked
        | inr earlier => exact earlier
      obtain ⟨label, labelled, owner, began⟩ := begun.exists_mem
      have used := hotSound.began label labelled fill owner name began
      exact live.loads other name (before stored used) fill time value begun earlier absent

theorem BufferSound.asked {generation : ReadGeneration}
    (pending : (buffer.keys get.key).pending = none) (unused : fresh ∉ buffer.assigned.map Prod.snd)
    (tokenEq : token = (buffer.tokenOf get.key).getD fresh)
    (index : BufferIndexed buffer get.key token evicted kept)
    (run : (readMachine maxAge).Run buffer.hot labels hot) (events : labels.map ReadLabel.event =
      evicted.toList.map (.invalidated 0 ·.2) ++ [.asked 0 token]) :
    BufferSound batchSize maxAge origin
      { (buffer.cached hot labels).setGet { get with
          mutation := (buffer.keys get.key).mutation
          token := token
          stage := .asking generation } with
        hotKeys := kept, assigned := (get.key, token) :: buffer.assigned } := by
  have indexed := sound.indexed unused tokenEq index run events
  refine @BufferSound.setGet _ _ _ _ _ _ { get with
    mutation := (buffer.keys get.key).mutation
    token := token
    stage := .asking generation } indexed ?_ fun _ => ?_
  · exact ⟨le_refl _, fun _ => mem_cons_self, nofun⟩
  · exact ⟨fun _ _ => pending, nofun, nofun⟩

end

end Asked

/-- Only a buffer that has failed reads its store without the cache. -/
def Detached (buffer : StorageBuffer Key) : Prop :=
  ∀ get ∈ buffer.gets, ∀ seen, get.stage = .reading seen → buffer.failure = true

omit [DecidableEq Key] in
theorem Detached.setGet (detached : Detached buffer)
    (reading : ∀ seen, get.stage = .reading seen → buffer.failure = true) :
    Detached (buffer.setGet get) := by
  intro other member seen stage
  cases mem_rewriteAt member with
  | inl same =>
    rw [same] at stage
    exact reading seen stage
  | inr kept => exact detached other kept.1 seen stage

omit [DecidableEq Key] in
theorem Detached.finish (detached : Detached buffer) : Detached (buffer.finish get value) := by
  refine detached.setGet fun seen stage => ?_
  dsimp only at stage
  split at stage <;> cases stage

omit [DecidableEq Key] in
theorem Detached.of_same (detached : Detached buffer) (gets : after.gets = buffer.gets)
    (failure : buffer.failure = true → after.failure = true) : Detached after := by
  intro get member seen stage
  rw [gets] at member
  exact failure (detached get member seen stage)

omit [DecidableEq Key] in
theorem gets_fail : buffer.fail.gets = buffer.gets := by
  rw [fail]
  split <;> rfl

theorem Detached.change (detached : Detached buffer)
    (step : ChangeStep batchSize maxAge buffer after) : Detached after := by
  cases step with
  | admission | admitted | writer | handed | refused | stored | consumed | confirmed
  | writeFailed => exact detached.of_same rfl id
  | failed => exact detached.of_same gets_fail fun _ => fail_failure

theorem Detached.round (detached : Detached buffer) (step : GetStep maxAge buffer event after) :
    Detached after := by
  cases step with
  | called =>
    intro other member seen stage
    cases mem_cons.mp member with
    | inl new =>
      rw [new] at stage
      cases stage
    | inr earlier => exact detached other earlier seen stage
  | pending => exact detached.setGet nofun
  | @asked get fresh token evicted kept hot labels generation =>
    have cached : Detached (buffer.cached hot labels) := detached.of_same rfl id
    have moved : Detached ((buffer.cached hot labels).setGet { get with
        mutation := (buffer.keys get.key).mutation
        token := token
        stage := .asking generation }) := cached.setGet nofun
    exact moved.of_same rfl id
  | served => exact Detached.finish (detached.of_same rfl id)
  | missed | returned | published => exact Detached.setGet (detached.of_same rfl id) nofun
  | looked => exact detached.setGet nofun
  | sourced _ _ failed => exact detached.setGet fun _ _ => failed
  | sourceLooked member reading => exact detached.setGet fun _ _ => detached _ member _ reading
  | answered | sourceReturned => exact detached.finish
  | closed =>
    intro other member seen stage
    exact detached other (mem_of_mem_filter member) seen stage

omit [DecidableEq Key] in
theorem Detached.flush (detached : Detached buffer) (step : FlushStep buffer event after) :
    Detached after := by
  cases step with
  | called | returned | left => exact detached.of_same rfl id
  | noticed => exact detached.of_same gets_fail fun _ => fail_failure

theorem BufferSound.called (sound : BufferSound batchSize maxAge origin buffer) :
    BufferSound batchSize maxAge origin
      { buffer with gets := ⟨id, key, 0, "", .starting⟩ :: buffer.gets } := by
  refine ⟨sound.scope, sound.sink, sound.busy, sound.hot, ?_, fun unfailed => ?_⟩
  · intro get member
    cases mem_cons.mp member with
    | inl new =>
      rw [new]
      exact ⟨Nat.zero_le _, nofun, nofun⟩
    | inr earlier =>
      have getSound := sound.gets get earlier
      exact ⟨getSound.past, getSound.assigned, getSound.own⟩
  · have live := sound.live unfailed
    refine ⟨live.handed, live.pending, live.store, live.resolved, ?_, live.loads⟩
    intro get member
    cases mem_cons.mp member with
    | inl new =>
      rw [new]
      exact ⟨nofun, nofun, nofun⟩
    | inr earlier =>
      have getLive := live.gets get earlier
      exact ⟨getLive.settled, getLive.seen, getLive.loads⟩

theorem closeGet_keys_of_mem (member : other ∈ (buffer.closeGet get).gets) :
    (buffer.closeGet get).keys other.key = buffer.keys other.key := by
  change update buffer.keys get.key _ other.key = _
  by_cases same : other.key = get.key
  case pos =>
    rw [same, update_self, released, if_neg fun gone => gone.2 other member same]
  case neg => rw [update_of_ne same]

theorem closeGet_pending :
    ((buffer.closeGet get).keys key).pending = (buffer.keys key).pending := by
  change (update buffer.keys get.key _ key).pending = _
  by_cases same : key = get.key
  case pos =>
    rw [same, update_self, released]
    split
    case isTrue gone => exact gone.1.symm
    case isFalse => rfl
  case neg => rw [update_of_ne same]

section

variable (sound : BufferSound batchSize maxAge origin buffer)
include sound

theorem BufferSound.closed : BufferSound batchSize maxAge origin (buffer.closeGet get) := by
  refine ⟨sound.scope, sound.sink, sound.busy, sound.hot, ?_, fun unfailed => ?_⟩
  · intro other member
    have getSound := sound.gets other (mem_of_mem_filter member)
    refine ⟨?_, getSound.assigned, getSound.own⟩
    rw [closeGet_keys_of_mem member]
    exact getSound.past
  · have live := sound.live unfailed
    refine ⟨live.handed, fun key => closeGet_pending.trans (live.pending key), live.store,
      live.resolved, ?_, live.loads⟩
    intro other member
    have getLive := live.gets other (mem_of_mem_filter member)
    refine ⟨?_, ?_, getLive.loads⟩
    · rw [StorageBuffer.Unchanged, closeGet_keys_of_mem member]
      exact getLive.settled
    · rw [StorageBuffer.Unchanged, closeGet_keys_of_mem member]
      exact getLive.seen

theorem BufferSound.round
    (step : GetStep maxAge buffer event after) : BufferSound batchSize maxAge origin after := by
  cases step with
  | called => exact sound.called
  | pending member => exact sound.rest (sound.gets _ member).past ⟨rfl, rfl, rfl⟩
  | asked _ _ _ pending unused tokenEq index run events =>
    exact sound.asked pending unused tokenEq (indexed_of_index index) run events
  | served member _ step => exact sound.served member step
  | missed member asking step => exact sound.missed member asking step
  | looked member loading => exact sound.looked member loading
  | returned member loading step => exact sound.returned member loading step
  | published member loaded step => exact sound.published member loaded step
  | sourced => exact sound.rest (le_refl _) ⟨rfl, rfl, rfl⟩
  | sourceLooked member => exact sound.rest (sound.gets _ member).past ⟨rfl, rfl, rfl⟩
  | answered member | sourceReturned member => exact sound.finish (sound.gets _ member).past
  | closed => exact sound.closed

theorem BufferSound.flushes {flushes : List Nat} :
    BufferSound batchSize maxAge origin { buffer with flushes := flushes } := by
  refine ⟨sound.scope, sound.sink, sound.busy, sound.hot, ?_, fun unfailed => ?_⟩
  · exact fun get member => ⟨(sound.gets get member).past, (sound.gets get member).assigned,
      (sound.gets get member).own⟩
  · have live := sound.live unfailed
    refine ⟨live.handed, live.pending, live.store, live.resolved, ?_, live.loads⟩
    exact fun get member => ⟨(live.gets get member).settled, (live.gets get member).seen,
      (live.gets get member).loads⟩

theorem BufferSound.flush
    (step : FlushStep buffer event after) : BufferSound batchSize maxAge origin after := by
  cases step with
  | called =>
    have asked : AdmissionStep buffer.scope (buffer.scope.requestFlush buffer.scope.accepted) :=
      .flushed (le_refl _)
    exact (sound.admission asked rfl).flushes
  | returned | left => exact sound.flushes
  | noticed => exact sound.fail

end

theorem bufferSound_initial : BufferSound batchSize maxAge origin
      { scope := { scheduled := scheduled }, hot := { clock := clock }, store := origin } where
  scope := .of_initial ⟨scheduled, rfl⟩
  sink := .inr rfl
  busy _ _ := nofun
  hot := {
    history := historySound_initial
    loaded := nofun
    known := nofun
    began := nofun
    distinct := nodup_nil
    indexed := nofun
    owner := nofun
    readers := nofun }
  gets := nofun
  live _ := {
    handed := rfl
    pending _ := rfl
    store _ := .inl rfl
    resolved := le_refl _
    gets := nofun
    loads := nofun }

theorem bufferSound_of_reachable
    (reachable : (bufferMachine batchSize maxAge origin).Reachable buffer) :
    BufferSound batchSize maxAge origin buffer ∧ Detached buffer := by
  refine @Machine.Reachable.invariant _ _ _
    (fun buffer => BufferSound batchSize maxAge origin buffer ∧ Detached buffer) ?_ ?_ _ reachable
  · intro buffer start
    obtain ⟨scheduled, clock, rfl⟩ := start
    exact ⟨bufferSound_initial, nofun⟩
  · intro before event after _ sound step
    cases step with
    | change step => exact ⟨sound.1.change step, sound.2.change step⟩
    | get step => exact ⟨sound.1.round step, sound.2.round step⟩
    | flush step => exact ⟨sound.1.flush step, sound.2.flush step⟩

theorem BufferSound.read (sound : BufferSound batchSize maxAge origin buffer)
    (detached : Detached buffer) (step : GetStep maxAge buffer (.read id key value) after)
    (unfailed : buffer.failure = false) :
    value = lastValue origin buffer.scope.observed.admitted key := by
  have live := sound.live unfailed
  have unchanged {get : BufferGet Key} {seen : Payload}
      (read : BufferEvent.read id key value = buffer.observed get seen) :
      buffer.Unchanged get ∧ key = get.key ∧ value = seen := by
    rw [observed] at read
    split at read
    case isTrue unchanged =>
      cases read
      exact ⟨unchanged, rfl, rfl⟩
    case isFalse => cases read
  generalize read : BufferEvent.read id key value = event at step
  cases step with
  | @pending get change member _ _ pending =>
    cases read
    rw [live.pending] at pending
    rw [live.order sound.scope, lastValue_append, pending]
    rfl
  | @served get generation now seen hot member asking step =>
    obtain ⟨same, rfl, rfl⟩ := unchanged read
    have waits : get.stage.waits = true := by
      rw [asking]
      rfl
    obtain ⟨absent, confirmed⟩ :=
      live.settled_of_none sound.scope ((live.gets get member).settled waits same)
    obtain ⟨indexed, fill, time, begun, returned⟩ := sound.hot.served step
    obtain ⟨other, stored⟩ := indexed
    have own : other = get.key := sound.hot.owner other get.key get.token
      (sound.hot.indexed _ stored) ((sound.gets get member).assigned waits)
    rw [confirmed]
    exact live.loads get.key get.token (own ▸ stored) fill time _ begun returned absent
  | @answered get seen member answered =>
    obtain ⟨same, rfl, rfl⟩ := unchanged read
    exact (live.gets get member).seen _ (by rw [answered]; rfl) same
  | @sourceReturned get seen member reading =>
    have failed := detached get member _ reading
    rw [unfailed] at failed
    cases failed
  | called | asked | missed | looked | returned | published | sourced | sourceLooked | closed =>
    cases read

theorem GetStep.scope (step : GetStep maxAge buffer event after) : after.scope = buffer.scope := by
  cases step <;> rfl

theorem GetStep.not_flushed (step : GetStep maxAge buffer event after) (target : Nat) :
    event ≠ .flushed target := by
  cases step with
  | called | pending | asked | missed | looked | returned | published | sourced | sourceLooked
  | closed => nofun
  | served | answered | sourceReturned =>
    rw [observed]
    split <;> nofun

theorem BufferSound.flushed (sound : BufferSound batchSize maxAge origin buffer) {target : Nat}
    (step : FlushStep buffer (.flushed target) after) :
    ∃ applied, applied <+: buffer.scope.observed.admitted ∧ target ≤ applied.length ∧
      buffer.store key = lastValue origin applied key := by
  cases step with
  | returned member resolved confirmed unfailed =>
    have live := sound.live unfailed
    have enough := le_trans resolved live.resolved
    have handed := (batchSound_of_reachable sound.scope).order
    cases live.store key with
    | inl same =>
      refine ⟨buffer.consumed, ?_, enough, same⟩
      rw [live.order sound.scope]
      exact prefix_append _ _
    | inr same =>
      refine ⟨_, handed, ?_, same⟩
      rw [live.handed, length_append]
      exact Nat.le_add_right_of_le enough

theorem admitted_prefix_of_step (step : BufferStep batchSize maxAge buffer event after) :
    buffer.scope.observed.admitted <+: after.scope.observed.admitted := by
  cases step with
  | change step =>
    cases step with
    | admission _ same => exact same ▸ prefix_rfl
    | admitted => exact prefix_append _ _
    | writer step same => exact (step.quiet same).1 ▸ prefix_rfl
    | handed | refused | stored | consumed | confirmed | writeFailed => exact prefix_rfl
    | failed =>
      change _ <+: buffer.fail.scope.observed.admitted
      rw [fail]
      split <;> exact prefix_rfl
  | get step => cases step <;> exact prefix_rfl
  | flush step =>
    cases step with
    | called | returned | left => exact prefix_rfl
    | noticed =>
      rw [fail]
      split <;> exact prefix_rfl

/-- While nothing has failed a read returns what was admitted last for its key, wherever the
change is by then; and a flush that succeeds has brought the store, key by key, to what had been
admitted when it was called or to something later. -/
theorem storage_buffer_reads_its_writes :
    (∀ {buffer after : StorageBuffer Key} {id : Nat} {key : Key} {value : Payload},
      (bufferMachine batchSize maxAge origin).Reachable buffer →
      (bufferMachine batchSize maxAge origin).step buffer (.read id key value) after →
      buffer.failure = false → value = lastValue origin after.scope.observed.admitted key) ∧
    (∀ {called buffer after : StorageBuffer Key} {events : List (BufferEvent Key)},
      (bufferMachine batchSize maxAge origin).Reachable called →
      (bufferMachine batchSize maxAge origin).Run called.flushCalled events buffer →
      (bufferMachine batchSize maxAge origin).step buffer (.flushed called.scope.accepted) after →
        ∀ key, ∃ applied, called.scope.observed.admitted <+: applied ∧
          applied <+: after.scope.observed.admitted ∧
          after.store key = lastValue origin applied key) := by
  refine ⟨?_, ?_⟩
  · intro buffer after id key value reachable step unfailed
    obtain ⟨sound, detached⟩ := bufferSound_of_reachable reachable
    have taken : BufferStep batchSize maxAge buffer (.read id key value) after := step
    cases taken with
    | get round =>
      rw [round.scope]
      exact sound.read detached round unfailed
    | flush step => cases step
  · intro called buffer after events reachable run step key
    have call : (bufferMachine batchSize maxAge origin).step called .quiet called.flushCalled :=
      .flush .called
    have waiting := reachable.step call
    obtain ⟨sound, _⟩ := bufferSound_of_reachable (waiting.run run)
    have grown : called.flushCalled.scope.observed.admitted <+:
        buffer.scope.observed.admitted := by
      refine @Machine.Run.relates _ _ _ (fun first last : StorageBuffer Key =>
        first.scope.observed.admitted <+: last.scope.observed.admitted) ?_ ?_ ?_ _ _ _ waiting run
      · exact fun _ => prefix_rfl
      · exact fun _ _ _ => List.IsPrefix.trans
      · exact fun _ _ _ _ step => admitted_prefix_of_step step
    have taken : BufferStep batchSize maxAge buffer (.flushed called.scope.accepted) after := step
    cases taken with
    | get round => exact absurd rfl (round.not_flushed _)
    | flush step =>
      obtain ⟨applied, front, enough, stored⟩ :=
        @BufferSound.flushed _ _ _ _ _ _ _ key sound _ step
      have before := (bufferSound_of_reachable reachable).1
      have accepted := (batchSound_of_reachable before.scope).accepted
      have same : after.scope = buffer.scope ∧ after.store = buffer.store := by
        cases step
        exact ⟨rfl, rfl⟩
      rw [same.1, same.2]
      refine ⟨applied, ?_, front, stored⟩
      exact prefix_of_prefix_length_le grown front (accepted ▸ enough)

def earlierChange : Entry Nat := ⟨0, 0, some [1]⟩

def laterChange : Entry Nat := ⟨1, 0, some [2]⟩

def sampleBuffer : StorageBuffer Nat :=
  { scope :=
      { scheduled := true
        accepted := 1
        highWatermark := 1
        writer := .looping
        queue := [earlierChange]
        observed := { admitted := [earlierChange] } }
    hot := { clock := 0 }
    store := fun _ => none
    keys := update (fun _ => {}) 0 ⟨1, some earlierChange⟩ }

abbrev sampleMachine : Machine (StorageBuffer Nat) (BufferEvent Nat) :=
  bufferMachine 64 (fun _ => 3) (fun _ => none)

theorem sampleBuffer_reachable : sampleMachine.Reachable sampleBuffer := by
  have start : sampleMachine.Reachable _ := .of_initial ⟨true, 0, rfl⟩
  have began := start.step
    (.change (.admission (@AdmissionStep.began _ _ earlierChange rfl rfl nofun) rfl))
  have published := began.step (.change (.admission (.published rfl) rfl))
  exact published.step (.change (.admitted rfl))

theorem sample_read : ∃ buffer after, sampleMachine.Reachable buffer ∧
    sampleMachine.step buffer (.read 0 0 (some [1])) after ∧ buffer.failure = false :=
  have called := sampleBuffer_reachable.step (.get (@GetStep.called _ _ _ _ 0 0 nofun))
  have read : sampleMachine.step _ (.read 0 0 (some [1])) _ :=
    .get (@GetStep.pending _ _ _ _ ⟨0, 0, 0, "", .starting⟩ earlierChange
      mem_cons_self rfl ⟨rfl, rfl⟩ rfl)
  ⟨_, _, called, read, rfl⟩

theorem stored_of_earlierChange {store : Nat → Payload} (stored : store 0 = some [1]) :
    ∀ key change, lastEntry key [earlierChange] = some change → store key = change.content := by
  intro key change last
  obtain ⟨member, rfl⟩ := lastEntry_mem last
  cases mem_singleton.mp member
  exact stored

theorem sample_flush : ∃ events buffer after,
    sampleMachine.Run sampleBuffer.flushCalled events buffer ∧
      sampleMachine.step buffer (.flushed 1) after ∧
      after.scope.observed.admitted = [earlierChange, laterChange] ∧ after.store 0 = some [1] := by
  have start : sampleMachine.Run sampleBuffer.flushCalled [] _ := .nil _
  have asked := start.append (.single (.change (.writer
    (.asked rfl rfl (by decide) fun _ => by decide) fun _ => ⟨nofun, nofun⟩)))
  have began := asked.append (.single (.change (.admission
    (@AdmissionStep.began _ _ laterChange rfl rfl (by unfold FreshEntry; decide)) rfl)))
  have published := began.append (.single (.change (.admission (.published rfl) rfl)))
  have handed := published.append (.single (.change (.handed
    (@WriterStep.handed _ _ _ 1 [earlierChange] rfl ⟨[laterChange], rfl⟩ ⟨nofun, by decide⟩ rfl)
    nofun rfl)))
  have stored := handed.append (.single (.change
    (@ChangeStep.stored _ _ _ _ _ [earlierChange] 0 earlierChange rfl rfl rfl)))
  have consumed := stored.append (.single (.change
    (@ChangeStep.consumed _ _ _ _ _ [earlierChange] _ _ rfl rfl (stored_of_earlierChange rfl)
      (.nil _) rfl)))
  have admitted := consumed.append (.single (.change
    (@ChangeStep.admitted _ _ _ _ _ laterChange rfl)))
  have confirmed := admitted.append (.single (.change
    (@ChangeStep.confirmed _ _ _ _ _ [earlierChange] rfl rfl)))
  have acked := confirmed.append (.single (.change (.writer
    (@WriterStep.acked _ _ _ [earlierChange] rfl) fun _ => ⟨nofun, nofun⟩)))
  exact ⟨_, _, _, acked, .flush (.returned mem_cons_self (by decide) ⟨rfl, rfl⟩ rfl), rfl, rfl⟩

/-- A flush says nothing about what is admitted while it waits. -/
theorem flush_leaves_later_changes :
    ¬∀ {called buffer after : StorageBuffer Nat} {events : List (BufferEvent Nat)},
      sampleMachine.Reachable called → sampleMachine.Run called.flushCalled events buffer →
      sampleMachine.step buffer (.flushed called.scope.accepted) after →
        ∀ key, after.store key = lastValue (fun _ => none) after.scope.observed.admitted key := by
  intro claim
  obtain ⟨events, buffer, after, run, step, admitted, stored⟩ := sample_flush
  have written := claim sampleBuffer_reachable run step 0
  rw [admitted, stored] at written
  exact absurd written (by decide)

theorem sample_buffer_reads_its_writes :
    (∃ buffer after, sampleMachine.step buffer (.read 0 0 (some [1])) after ∧
      some [1] = lastValue (fun _ => none) after.scope.observed.admitted 0) ∧
    ∃ events buffer after, sampleMachine.Run sampleBuffer.flushCalled events buffer ∧
      sampleMachine.step buffer (.flushed 1) after ∧
      ∃ applied, [earlierChange] <+: applied ∧ applied <+: [earlierChange, laterChange] ∧
        after.store 0 = lastValue (fun _ => none) applied 0 := by
  constructor
  · obtain ⟨buffer, after, reachable, step, unfailed⟩ := sample_read
    exact ⟨buffer, after, step, storage_buffer_reads_its_writes.1 reachable step unfailed⟩
  · obtain ⟨events, buffer, after, run, step, admitted, _⟩ := sample_flush
    have flushed := storage_buffer_reads_its_writes.2 sampleBuffer_reachable run step 0
    rw [admitted] at flushed
    exact ⟨events, buffer, after, run, step, flushed⟩

end Linktools.Cache
