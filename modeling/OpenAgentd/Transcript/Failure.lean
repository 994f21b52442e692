import OpenAgentd.Lib.Run
import OpenAgentd.Transcript.Flush

/-!
# Persistence across failing syncs

A run appends messages, changes their pins and syncs; a sync may fail at its flush or commit. `Exact` is
what has to hold after a sync that succeeds: the rows written since the start are the messages appended
since, one for each and in their order, and the pins of the rows are those of the messages.

`sync` marks what it writes before the transaction is committed, so a failing sync that has something to
write loses it for good (`failed_sync_loses_result`). The runs without such a sync are exact
(`exactly_once`); `Tracked` is their invariant.
-/

namespace OpenAgentd.Transcript
open OpenAgentd.Lib OpenAgentd.Store

/-- What happens in a run. -/
inductive Act where
  | append (m : ChatMessage)
  | pin (oid : Nat) (v : Bool)
  | sync (fails : Bool)

/-- The message under a changed pin. -/
def setPin (oid : Nat) (v : Bool) (m : ChatMessage) : ChatMessage :=
  if m.oid = oid then { m with pinned := v } else m

/-- The steps of a run. An appended message is a new object without a row. -/
inductive Step : Session → Act → Session → Prop where
  | append {s m} :
    m.oid ∉ s.messages.map ChatMessage.oid →
    m.dbId = none →
    (m.role = .tool → m.isSummary = false) →
    Step s (.append m) { s with messages := s.messages ++ [m] }
  | pin {s oid v} :
    Step s (.pin oid v) { s with messages := s.messages.map (setPin oid v) }
  | sync {s fails} :
    Step s (.sync fails) (sync fails s)

/-- A sync does not fail while it has something to write. -/
def Harmless (s : Session) : Act → Prop
  | .sync true => (∀ m ∈ newMessages s, storable m = false) ∧ pinUpdates s.cp s.messages = []
  | _ => True

/-- A history loaded from the database. -/
structure Loaded (s : Session) : Prop where
  cp : s.cp = markLoaded {} s.messages
  oids : (s.messages.map ChatMessage.oid).Nodup
  ids : (s.messages.filterMap ChatMessage.dbId).Nodup
  roles : ∀ m ∈ s.messages, m.role ≠ .system
  rows : ∀ m ∈ s.messages, ∃ r ∈ s.table.rows, Stores r m

/-- The rows written since the start `s₀`, in position order. -/
def writtenSince (s₀ s : Session) : List Row :=
  orderByPos (s.table.rows.filter fun r => s₀.table.clock ≤ r.id)

/-- Exactly once: the rows written since the start are one for each storable message appended since, in
the order of the list; the rows of before are still there, one for each loaded message; and the pins of
the rows are those of the messages. -/
structure Exact (s₀ s : Session) : Prop where
  appended : List.Forall₂ Stores (writtenSince s₀ s)
    ((s.messages.drop s₀.messages.length).filter storable)
  before : (s.table.rows.filter fun r => r.id < s₀.table.clock).map Row.id = s₀.table.rows.map Row.id
  loaded : ∀ m ∈ s.messages.take s₀.messages.length, ∃ r ∈ s.table.rows, Stores r m
  pinned : ∀ m ∈ s.messages, ∀ r ∈ s.table.rows, m.dbId = some r.id → r.pinned = m.pinned

/-- The row `r` stores the message up to its pin. -/
def StoresUnpinned (r : Row) (m : ChatMessage) : Prop := Stores { r with pinned := m.pinned } m

/-- The invariant of a run: the messages are split into those the last sync has dealt with and those
appended since. -/
structure Tracked (s₀ s : Session) (front back : List ChatMessage) : Prop where
  split : s.messages = front ++ back
  oids : (s.messages.map ChatMessage.oid).Nodup
  ids : (s.messages.filterMap ChatMessage.dbId).Nodup
  known : ∀ o ∈ s.cp.persisted, o ∈ s.messages.map ChatMessage.oid
  length : s₀.messages.length ≤ front.length
  clock : s₀.table.clock ≤ s.table.clock
  before : (s.table.rows.filter fun r => r.id < s₀.table.clock).map Row.id = s₀.table.rows.map Row.id
  linked : ∀ m ∈ front, ∀ i, m.dbId = some i → m.role ≠ .system ∧ m.oid ∈ s.cp.persisted ∧
    ∃ r ∈ s.table.rows, StoresUnpinned r m ∧ s.cp.flushedPinned r.id = some r.pinned
  loaded : ∀ m ∈ front.take s₀.messages.length, m.dbId ≠ none
  written : List.Forall₂ StoresUnpinned (writtenSince s₀ s)
    ((front.drop s₀.messages.length).filter storable)
  pending : ∀ m ∈ back, m.dbId = none ∧ (m.role = .tool → m.isSummary = false) ∧
    (storable m = true → m.oid ∉ s.cp.persisted)

section
variable {s₀ s : Session} {front back : List ChatMessage} {m : ChatMessage} {r : Row}

/-- What the last sync has dealt with and is not marked has no row and gets none. -/
lemma Tracked.front_unseen (T : Tracked s₀ s front back) (hm : m ∈ front)
    (new : m.oid ∉ s.cp.persisted) : m.dbId = none ∧ storable m = false := by
  have noRow : m.dbId = none := by
    cases h : m.dbId with
    | none => rfl
    | some i => exact absurd (T.linked m hm i h).2.1 new
  refine ⟨noRow, ?_⟩
  cases h : storable m with
  | false => rfl
  | true =>
    rw [← List.take_append_drop s₀.messages.length front] at hm
    rcases List.mem_append.mp hm with hm | hm
    · exact absurd noRow (T.loaded m hm)
    · have mem : m ∈ (front.drop s₀.messages.length).filter storable := List.mem_filter.mpr ⟨hm, h⟩
      obtain ⟨r, -, hr⟩ := forall₂_left T.written mem
      exact absurd (noRow.symm.trans hr.dbId) (by simp)

/-- Messages that a run is tracked with can be given to the loop of `sync`. -/
lemma Tracked.fresh (T : Tracked s₀ s front back) : ∀ m ∈ s.messages, Fresh s.cp.persisted
    (fun oid => (resolveSummarySeqs s.table
      (summaryAnchorIds s.cp.persisted s.messages)).lookup oid) m := by
  intro m hm new
  rw [T.split] at hm
  rcases List.mem_append.mp hm with hf | hb
  · obtain ⟨noRow, st⟩ := T.front_unseen hf new
    refine ⟨noRow, by simp [st], ?_⟩
    intro h
    simp [storable, h] at st
  · obtain ⟨noRow, tool, -⟩ := T.pending m hb
    refine ⟨noRow, ?_, tool⟩
    intro st
    -- an anchor would be a row behind the summary, where no message has one
    rw [List.lookup_eq_none_iff]
    rintro ⟨o, q⟩ h
    obtain ⟨⟨o', a⟩, ha, hq⟩ := List.mem_filterMap.mp h
    obtain ⟨row, -, e'⟩ := Option.map_eq_some_iff.mp hq
    obtain ⟨rfl, -⟩ := Prod.mk.inj e'
    obtain ⟨pre, k, post, split, rfl, -, -, anchor⟩ := mem_summaryAnchorIds ha
    rw [bne_iff_ne]
    intro e
    have nd := T.oids
    have hk : k = m := by
      refine List.inj_on_of_nodup_map nd ?_ ?_ e.symm
      · simp [split]
      · simp [T.split, hb]
    subst hk
    obtain ⟨b₁, b₂, rfl⟩ := List.append_of_mem hb
    have split' : s.messages = (front ++ b₁) ++ k :: b₂ := by rw [T.split, List.append_assoc]
    have post_eq : post = b₂ := by
      have nd' := nd.of_map
      rw [split', List.nodup_append] at nd'
      have out : k ∉ front ++ b₁ := fun h => nd'.2.2 k h k List.mem_cons_self rfl
      have out' : k ∉ b₂ := (List.nodup_cons.mp nd'.2.1).1
      exact (((List.append_cons_inj_of_notMem out out').mp (split'.symm.trans split)).2.2).symm
    have none : firstAnchor post = none := by
      refine firstAnchor_eq_none ?_
      intro j hj
      refine (T.pending j ?_).1
      rw [post_eq] at hj
      simp [hj]
    rw [none] at anchor
    cases anchor

/-- The pins of the rows are those of the messages. -/
def Synced (s : Session) : Prop :=
  ∀ m ∈ s.messages, ∀ r ∈ s.table.rows, m.dbId = some r.id → r.pinned = m.pinned

/-- Ordering rows whose pins have changed. -/
lemma orderByPos_map_pinRow {pins : List (Nat × Bool)} {rows : List Row}
    (nd : (rows.map Row.id).Nodup) :
    orderByPos (rows.map (pinRow pins)) = (orderByPos rows).map (pinRow pins) := by
  have nd' : ((rows.map (pinRow pins)).map Row.id).Nodup := by
    rw [List.map_map]
    exact nd
  rw [orderByPos, sortOn_eq_iff (pos_nodup nd')]
  refine ⟨List.pairwise_map.mpr (sortOn_pairwise (pos_nodup nd)), ?_⟩
  intro r
  simp [orderByPos]

/-- Rows behind all others stay behind when ordered. -/
lemma orderByPos_append {rows ns : List Row} (nd : ((rows ++ ns).map Row.id).Nodup)
    (sorted : ns.Pairwise (fun a b => a.pos < b.pos)) (behind : ∀ r ∈ rows, ∀ n ∈ ns, r.pos < n.pos) :
    orderByPos (rows ++ ns) = orderByPos rows ++ ns := by
  have nd' : (rows.map Row.id).Nodup := nd.sublist ((List.sublist_append_left _ _).map _)
  rw [orderByPos, sortOn_eq_iff (pos_nodup nd), List.pairwise_append]
  refine ⟨⟨sortOn_pairwise (pos_nodup nd'), sorted, ?_⟩, ?_⟩
  · intro a ha b hb
    exact behind a (mem_sortOn.mp ha) b hb
  · intro r
    simp [orderByPos]

/-- The transaction of a tracked session. -/
lemma Tracked.transaction (T : Tracked s₀ s front back) :
    ∃ ns back', (syncTransaction s).2 = front ++ back' ∧
      List.Forall₂ (Keeps s.cp.persisted) back back' ∧
      List.Forall₂ Stores ns (back'.filter storable) ∧
      Flushed s.cp.persisted
        { table := s.table.update (pinRow (pinUpdates s.cp s.messages)) (fun _ => rfl),
          cp := flushPins s.cp (pinUpdates s.cp s.messages) }
        s.messages (syncTransaction s).1 (syncTransaction s).2 ns := by
  obtain ⟨ns, F⟩ := flushNew_spec
    (f := { table := s.table.update (pinRow (pinUpdates s.cp s.messages)) (fun _ => rfl),
            cp := flushPins s.cp (pinUpdates s.cp s.messages) }) (.start rfl) T.fresh
  have old : ∀ m ∈ front, unsaved s.cp.persisted m = false := by
    intro m hm
    by_cases new : m.oid ∈ s.cp.persisted
    · simp [unsaved, new]
    · simp [unsaved, (T.front_unseen hm new).2]
  have K : List.Forall₂ (Keeps s.cp.persisted) s.messages (syncTransaction s).2 := F.keeps
  rw [T.split] at K
  obtain ⟨back', e, hb⟩ := keeps_prefix K old
  refine ⟨ns, back', e, hb, ?_, F⟩
  have S : List.Forall₂ Stores ns ((syncTransaction s).2.filter (unsaved s.cp.persisted)) := F.stores
  rw [e, List.filter_append, List.filter_eq_nil_iff.mpr (by simpa using old), List.nil_append] at S
  have same : back'.filter (unsaved s.cp.persisted) = back'.filter storable := by
    apply List.filter_congr
    intro m' hm'
    obtain ⟨m, hm, k⟩ := forall₂_left hb hm'
    rw [unsaved, k.storable, k.oid]
    cases st : storable m with
    | false => simp
    | true => simp [(T.pending m hm).2.2 st]
  rwa [same] at S

/-- The rows of a message and of its stored form have one id. -/
lemma stores_ids {ns : List Row} {ms : List ChatMessage} (h : List.Forall₂ Stores ns ms) :
    ms.filterMap ChatMessage.dbId = ns.map Row.id := by
  induction h with
  | nil => rfl
  | cons hs _ ih => rw [List.filterMap_cons_some hs.dbId, List.map_cons, ih]

/-- Messages without a row that is new have none. -/
lemma filterMap_storable {ms : List ChatMessage} (h : ∀ m ∈ ms, storable m = false → m.dbId = none) :
    (ms.filter storable).filterMap ChatMessage.dbId = ms.filterMap ChatMessage.dbId := by
  induction ms with
  | nil => rfl
  | cons m ms ih =>
    have ih := ih (fun k hk => h k (List.mem_cons_of_mem _ hk))
    cases st : storable m with
    | true => simp [st, ih, List.filterMap_cons]
    | false => simp [st, ih, h m List.mem_cons_self st]

/-- A transaction that is committed leaves a tracked session with nothing pending. -/
lemma Tracked.commit (T : Tracked s₀ s front back) :
    ∃ front', Tracked s₀ ⟨(syncTransaction s).1.table, (syncTransaction s).1.cp, (syncTransaction s).2⟩
      front' [] ∧
      Synced ⟨(syncTransaction s).1.table, (syncTransaction s).1.cp, (syncTransaction s).2⟩ := by
  obtain ⟨ns, back', e, K, S, F⟩ := T.transaction
  generalize syncTransaction s = t at e K S F
  obtain ⟨⟨tb, cp, tail⟩, ms'⟩ := t
  simp only at e F ⊢
  subst e
  have rows : tb.rows = s.table.rows.map (pinRow (pinUpdates s.cp s.messages)) ++ ns := F.rows
  have newer : ∀ n ∈ ns, s.table.clock ≤ n.id := F.ids
  have oids : (front ++ back').map ChatMessage.oid = s.messages.map ChatMessage.oid :=
    keeps_oids F.keeps
  have noRow : ∀ m ∈ back', storable m = false → m.dbId = none := by
    intro m' hm' st
    obtain ⟨m, hm, k⟩ := forall₂_left K hm'
    rw [k.storable] at st
    rw [k.2 (by simp [unsaved, st])]
    exact (T.pending m hm).1
  have ids : back'.filterMap ChatMessage.dbId = ns.map Row.id := by
    rw [← filterMap_storable noRow, stores_ids S]
  -- the row and the pin of a message that had one, after the pin updates
  have front_link : ∀ m ∈ front, ∀ i, m.dbId = some i → m.role ≠ .system ∧ m.oid ∈ cp.persisted ∧
      ∃ r ∈ tb.rows, StoresUnpinned r m ∧ cp.flushedPinned r.id = some r.pinned ∧
        r.pinned = m.pinned := by
    intro m hm i hi
    obtain ⟨role, seen, r, hr, hs, hf⟩ := T.linked m hm i hi
    refine ⟨role, (F.persisted _).mpr (.inl seen), pinRow (pinUpdates s.cp s.messages) r, ?_, hs, ?_, ?_⟩
    · rw [rows]
      exact List.mem_append_left _ (List.mem_map_of_mem hr)
    · have old : ns.reverse.find? (fun n => n.id = r.id) = none := by
        rw [List.find?_eq_none]
        intro n hn
        have := newer n (List.mem_reverse.mp hn)
        have := s.table.fresh r hr
        simp only [decide_eq_true_eq]
        omega
      have h := F.pins r.id
      rw [old, Option.map_none, Option.none_or] at h
      rw [show (pinRow (pinUpdates s.cp s.messages) r).id = r.id from rfl, h]
      simp only [flushPins, hf, pinRow]
      cases pinOf (pinUpdates s.cp s.messages) r.id with
      | none => rfl
      | some v => rfl
    · exact pinOf_message T.ids (by rw [T.split]; exact List.mem_append_left _ hm) hs.dbId seen role hf
  have back_link : ∀ m ∈ back', ∀ i, m.dbId = some i → m.role ≠ .system ∧ m.oid ∈ cp.persisted ∧
      ∃ r ∈ tb.rows, Stores r m ∧ cp.flushedPinned r.id = some r.pinned := by
    intro m' hm' i hi
    have st : storable m' = true := by
      cases st : storable m' with
      | true => rfl
      | false => exact absurd hi (by simp [noRow m' hm' st])
    obtain ⟨n, hn, hs⟩ := forall₂_left S (List.mem_filter.mpr ⟨hm', st⟩)
    obtain ⟨m, hm, k⟩ := forall₂_left K hm'
    refine ⟨?_, ?_, n, ?_, hs, ?_⟩
    · intro h
      simp [storable, h] at st
    · refine (F.persisted _).mpr (.inr ⟨m, ?_, k.oid.symm, ?_, .inl ?_⟩)
      · rw [T.split]
        exact List.mem_append_right _ hm
      · rw [k.oid]
        exact (T.pending m hm).2.2 (k.storable ▸ st)
      · exact k.storable ▸ st
    · rw [rows]
      exact List.mem_append_right _ hn
    · have nd : (ns.reverse.map Row.id).Nodup := by
        rw [List.map_reverse, List.nodup_reverse]
        exact tb.distinct.sublist (rows ▸ (List.sublist_append_right _ _).map _)
      have h := F.pins n.id
      rwa [find?_id nd (List.mem_reverse.mpr hn)] at h
  have link : ∀ m ∈ front ++ back', ∀ i, m.dbId = some i → m.role ≠ .system ∧ m.oid ∈ cp.persisted ∧
      ∃ r ∈ tb.rows, Stores r m ∧ cp.flushedPinned r.id = some r.pinned := by
    intro m hm i hi
    rcases List.mem_append.mp hm with hf | hb
    · obtain ⟨role, seen, r, hr, hs, hp, e⟩ := front_link m hf i hi
      refine ⟨role, seen, r, hr, ?_, hp⟩
      rwa [StoresUnpinned, ← e] at hs
    · exact back_link m hb i hi
  refine ⟨front ++ back', ⟨by simp, ?_, ?_, ?_, ?_, ?_, ?_, ?_, ?_, ?_, by simp⟩, ?_⟩
  · rw [oids]
    exact T.oids
  · show ((front ++ back').filterMap ChatMessage.dbId).Nodup
    rw [List.filterMap_append, ids, List.nodup_append]
    have nd := T.ids
    rw [T.split, List.filterMap_append, List.nodup_append] at nd
    refine ⟨nd.1, tb.distinct.sublist (rows ▸ (List.sublist_append_right _ _).map _), ?_⟩
    intro a ha b hb
    obtain ⟨m, hm, hma⟩ := List.mem_filterMap.mp ha
    obtain ⟨n, hn, rfl⟩ := List.mem_map.mp hb
    obtain ⟨-, -, r, hr, hs, -⟩ := T.linked m hm a hma
    have e : r.id = a := Option.some.inj (hs.dbId.symm.trans hma)
    have := newer n hn
    have := s.table.fresh r hr
    omega
  · intro o ho
    rw [oids]
    rcases (F.persisted o).mp ho with h | ⟨m, hm, rfl, -⟩
    · exact T.known o h
    · exact List.mem_map_of_mem hm
  · simpa using Nat.le_add_right_of_le T.length
  · exact T.clock.trans F.clock
  · have none : ns.filter (fun r => r.id < s₀.table.clock) = [] := by
      rw [List.filter_eq_nil_iff]
      intro n hn
      have := newer n hn
      have := T.clock
      simp only [decide_eq_true_eq]
      omega
    rw [rows, List.filter_append, none, List.append_nil, List.filter_map, List.map_map, ← T.before]
    rfl
  · intro m hm i hi
    obtain ⟨role, seen, r, hr, hs, hp⟩ := link m hm i hi
    refine ⟨role, seen, r, hr, ?_, hp⟩
    rwa [StoresUnpinned, hs.pinned]
  · intro m hm
    rw [List.take_append_of_le_length T.length] at hm
    exact T.loaded m hm
  · have all : ns.filter (fun r => s₀.table.clock ≤ r.id) = ns := by
      rw [List.filter_eq_self]
      intro n hn
      simpa using T.clock.trans (newer n hn)
    have split : tb.rows.filter (fun r => s₀.table.clock ≤ r.id) =
        (s.table.rows.filter fun r => s₀.table.clock ≤ r.id).map
          (pinRow (pinUpdates s.cp s.messages)) ++ ns := by
      rw [rows, List.filter_append, all, List.filter_map]
      rfl
    have nd := nodup_map_filter (p := fun r => s₀.table.clock ≤ r.id) tb.distinct
    rw [split] at nd
    rw [writtenSince, split, orderByPos_append nd F.sorted, orderByPos_map_pinRow,
      List.drop_append_of_le_length T.length, List.filter_append]
    · refine List.rel_append ?_ (S.imp ?_)
      · exact List.forall₂_map_left_iff.mpr T.written
      · intro r m h
        rwa [StoresUnpinned, h.pinned]
    · exact nodup_map_filter s.table.distinct
    · intro r hr n hn
      obtain ⟨k, hk, rfl⟩ := List.mem_map.mp hr
      refine F.behind _ ?_ n hn
      exact List.mem_map_of_mem (List.mem_of_mem_filter hk)
  · intro m hm r hr e
    obtain ⟨-, -, r', hr', hs, -⟩ := link m hm r.id e
    have hid : r.id = r'.id := Option.some.inj (e.symm.trans hs.dbId)
    rw [List.inj_on_of_nodup_map tb.distinct hr hr' hid]
    exact hs.pinned.symm

/-- A sync that has nothing to write finds nothing pending. -/
lemma Tracked.idle (T : Tracked s₀ s front back) (new : newMessages s = [])
    (pins : pinUpdates s.cp s.messages = []) : Tracked s₀ s (front ++ back) [] ∧ Synced s := by
  have seen : ∀ m ∈ s.messages, m.oid ∈ s.cp.persisted := by
    intro m hm
    have h := List.filter_eq_nil_iff.mp new m hm
    simpa using h
  have none : back.filter storable = [] := by
    rw [List.filter_eq_nil_iff]
    intro m hm st
    exact (T.pending m hm).2.2 st (seen m (by rw [T.split]; exact List.mem_append_right _ hm))
  have link : ∀ m ∈ front ++ back, ∀ i, m.dbId = some i → m.role ≠ .system ∧ m.oid ∈ s.cp.persisted ∧
      ∃ r ∈ s.table.rows, StoresUnpinned r m ∧ s.cp.flushedPinned r.id = some r.pinned := by
    intro m hm i hi
    rcases List.mem_append.mp hm with hf | hb
    · exact T.linked m hf i hi
    · exact absurd hi (by simp [(T.pending m hb).1])
  refine ⟨⟨by simpa using T.split, T.oids, T.ids, T.known, ?_, T.clock, T.before, link, ?_, ?_,
    by simp⟩, ?_⟩
  · simpa using Nat.le_add_right_of_le T.length
  · intro m hm
    rw [List.take_append_of_le_length T.length] at hm
    exact T.loaded m hm
  · rw [List.drop_append_of_le_length T.length, List.filter_append, none, List.append_nil]
    exact T.written
  · intro m hm r hr e
    obtain ⟨role, hseen, r', hr', hs, hf⟩ := link m (T.split ▸ hm) r.id e
    have hid : r'.id = r.id := Option.some.inj (hs.dbId.symm.trans e)
    rw [List.inj_on_of_nodup_map s.table.distinct hr' hr hid] at hf
    have h := pinOf_message T.ids hm e hseen role hf
    rwa [pins] at h

/-- A sync that succeeds. -/
lemma Tracked.sync_ok (T : Tracked s₀ s front back) :
    ∃ front', Tracked s₀ (sync false s) front' [] ∧ Synced (sync false s) := by
  unfold sync
  split
  · rename_i h
    exact ⟨_, T.idle h.1 h.2⟩
  · exact T.commit

/-- A sync that fails and has nothing to write. -/
lemma Tracked.sync_fails (T : Tracked s₀ s front back) (ok : Harmless s (.sync true)) :
    Tracked s₀ (sync true s) front back := by
  unfold sync
  split
  · exact T
  obtain ⟨new, pins⟩ := ok
  have unstorable : ∀ m ∈ back, storable m = false := by
    intro m hm
    cases st : storable m with
    | false => rfl
    | true =>
      have mem : m ∈ newMessages s := by
        refine List.mem_filter.mpr ⟨by rw [T.split]; exact List.mem_append_right _ hm, ?_⟩
        simpa using (T.pending m hm).2.2 st
      exact absurd (new m mem) (by simp [st])
  obtain ⟨ns, back', e, K, S, F⟩ := T.transaction
  obtain rfl : back' = back := keeps_eq K (fun m hm => by simp [unsaved, unstorable m hm])
  have msgs : (syncTransaction s).2 = s.messages := e.trans T.split.symm
  rw [List.filter_eq_nil_iff.mpr (by simpa using unstorable), List.forall₂_nil_right_iff] at S
  subst S
  have flushed : ∀ i, (syncTransaction s).1.cp.flushedPinned i = s.cp.flushedPinned i := by
    intro i
    rw [F.pins, pins]
    rfl
  refine ⟨e, ?_, ?_, ?_, T.length, T.clock.trans (clock_le_syncTransaction s), T.before, ?_, T.loaded,
    T.written, ?_⟩
  · show ((syncTransaction s).2.map ChatMessage.oid).Nodup
    rw [msgs]
    exact T.oids
  · show ((syncTransaction s).2.filterMap ChatMessage.dbId).Nodup
    rw [msgs]
    exact T.ids
  · intro o ho
    show o ∈ (syncTransaction s).2.map ChatMessage.oid
    rw [msgs]
    rcases (F.persisted o).mp ho with h | ⟨m, hm, rfl, -⟩
    · exact T.known o h
    · exact List.mem_map_of_mem hm
  · intro m hm i hi
    obtain ⟨role, seen, r, hr, hs, hf⟩ := T.linked m hm i hi
    exact ⟨role, (F.persisted _).mpr (.inl seen), r, hr, hs, by rw [flushed]; exact hf⟩
  · intro m hm
    refine ⟨(T.pending m hm).1, (T.pending m hm).2.1, ?_⟩
    intro st
    exact absurd (unstorable m hm) (by simp [st])

/-- A new message is pending. -/
lemma Tracked.append (T : Tracked s₀ s front back) (new : m.oid ∉ s.messages.map ChatMessage.oid)
    (noRow : m.dbId = none) (tool : m.role = .tool → m.isSummary = false) :
    Tracked s₀ { s with messages := s.messages ++ [m] } front (back ++ [m]) := by
  refine ⟨by simp [T.split], ?_, ?_, ?_, T.length, T.clock, T.before, T.linked, T.loaded, T.written, ?_⟩
  · simp only [List.map_append, List.nodup_append]
    refine ⟨T.oids, by simp, ?_⟩
    intro a ha b hb e
    rw [List.map_singleton, List.mem_singleton] at hb
    exact new (hb ▸ e ▸ ha)
  · show ((s.messages ++ [m]).filterMap ChatMessage.dbId).Nodup
    rw [List.filterMap_append, List.filterMap_cons_none noRow, List.filterMap_nil, List.append_nil]
    exact T.ids
  · intro o ho
    rw [List.map_append]
    exact List.mem_append_left _ (T.known o ho)
  · intro k hk
    rcases List.mem_append.mp hk with hk | hk
    · exact T.pending k hk
    · rw [List.mem_singleton.mp hk]
      exact ⟨noRow, tool, fun _ h => new (T.known _ h)⟩

/-- A change of a pin changes nothing else of a message. -/
lemma setPin_eq {oid : Nat} {v : Bool} :
    setPin oid v m = { m with pinned := (setPin oid v m).pinned } := by
  unfold setPin
  split
  · rfl
  · rfl

/-- Rows store messages up to their pins whatever the pins are. -/
lemma StoresUnpinned.setPin {oid : Nat} {v : Bool} (h : StoresUnpinned r m) :
    StoresUnpinned r (setPin oid v m) := by
  rw [setPin_eq]
  exact Stores.setPinned h _

/-- The pin of a message is changed. -/
lemma Tracked.pin {oid : Nat} {v : Bool} (T : Tracked s₀ s front back) :
    Tracked s₀ { s with messages := s.messages.map (setPin oid v) } (front.map (setPin oid v))
      (back.map (setPin oid v)) := by
  have hoid : ∀ m, (setPin oid v m).oid = m.oid := fun m => by rw [setPin_eq]
  have hid : ∀ m, (setPin oid v m).dbId = m.dbId := fun m => by rw [setPin_eq]
  have hst : ∀ m, storable (setPin oid v m) = storable m := fun m => by rw [setPin_eq]; rfl
  have hrole : ∀ m, (setPin oid v m).role = m.role := fun m => by rw [setPin_eq]
  have hsum : ∀ m, (setPin oid v m).isSummary = m.isSummary := fun m => by rw [setPin_eq]
  have oids : (s.messages.map (setPin oid v)).map ChatMessage.oid =
      s.messages.map ChatMessage.oid := by
    rw [List.map_map]
    exact List.map_congr_left (fun m _ => hoid m)
  refine ⟨by simp [T.split], ?_, ?_, ?_, ?_, T.clock, T.before, ?_, ?_, ?_, ?_⟩
  · rw [oids]
    exact T.oids
  · show ((s.messages.map (setPin oid v)).filterMap ChatMessage.dbId).Nodup
    rw [List.filterMap_map,
      show ChatMessage.dbId ∘ setPin oid v = ChatMessage.dbId from funext hid]
    exact T.ids
  · rw [oids]
    exact T.known
  · simpa using T.length
  · intro m hm i hi
    obtain ⟨k, hk, rfl⟩ := List.mem_map.mp hm
    rw [hid] at hi
    obtain ⟨role, seen, r, hr, hs, hf⟩ := T.linked k hk i hi
    exact ⟨by rwa [hrole], by rwa [hoid], r, hr, hs.setPin, hf⟩
  · intro m hm
    rw [← List.map_take] at hm
    obtain ⟨k, hk, rfl⟩ := List.mem_map.mp hm
    rw [hid]
    exact T.loaded k hk
  · rw [← List.map_drop, List.filter_map, show storable ∘ setPin oid v = storable from funext hst,
      List.forall₂_map_right_iff]
    exact T.written.imp (fun _ _ h => h.setPin)
  · intro m hm
    obtain ⟨k, hk, rfl⟩ := List.mem_map.mp hm
    rw [hid, hrole, hsum, hst, hoid]
    exact T.pending k hk

/-- Every step of a run without a harmful failure is tracked. -/
lemma Tracked.step {a : Act} {t : Session} (T : ∃ front back, Tracked s₀ s front back)
    (ok : Harmless s a) (st : Step s a t) : ∃ front back, Tracked s₀ t front back := by
  obtain ⟨front, back, T⟩ := T
  cases st with
  | append new noRow tool => exact ⟨_, _, T.append new noRow tool⟩
  | pin => exact ⟨_, _, T.pin⟩
  | @sync fails =>
    cases fails with
    | false =>
      obtain ⟨front', T', -⟩ := T.sync_ok
      exact ⟨_, _, T'⟩
    | true => exact ⟨_, _, T.sync_fails ok⟩

/-- A loaded history is tracked. -/
lemma Loaded.tracked (L : Loaded s₀) : Tracked s₀ s₀ s₀.messages [] := by
  refine ⟨by simp, L.oids, L.ids, ?_, le_rfl, le_rfl, ?_, ?_, ?_, ?_, by simp⟩
  · intro o ho
    rw [L.cp, markLoaded_persisted] at ho
    simpa using ho
  · rw [List.filter_eq_self.mpr]
    intro r hr
    simpa using s₀.table.fresh r hr
  · intro m hm i hi
    obtain ⟨r, hr, hs⟩ := L.rows m hm
    refine ⟨L.roles m hm, ?_, r, hr, ?_, ?_⟩
    · rw [L.cp, markLoaded_persisted]
      exact .inr (List.mem_map_of_mem hm)
    · rwa [StoresUnpinned, hs.pinned]
    · rw [L.cp, markLoaded_pin L.ids hm hs.dbId, hs.pinned]
  · intro m hm
    obtain ⟨r, -, hs⟩ := L.rows m (List.mem_of_mem_take hm)
    simp [hs.dbId]
  · have none : s₀.table.rows.filter (fun r => s₀.table.clock ≤ r.id) = [] := by
      rw [List.filter_eq_nil_iff]
      intro r hr
      simpa using s₀.table.fresh r hr
    simp [writtenSince, none, orderByPos]

end

/-- Exactly once: in every run from a loaded history in which no sync fails while it has something to
write, a sync that succeeds leaves exactly one row for each storable message. -/
theorem exactly_once {s₀ s t : Session} {as : List Act} (L : Loaded s₀)
    (rn : Run (Guarded Harmless Step) s₀ as s) (st : Step s (.sync false) t) : Exact s₀ t := by
  obtain ⟨front, back, T⟩ : ∃ front back, Tracked s₀ s front back :=
    rn.invariant (I := fun s => ∃ front back, Tracked s₀ s front back) ⟨_, _, L.tracked⟩
      (fun T st => Tracked.step T st.1 st.2)
  cases st
  obtain ⟨front', T', sync⟩ := T.sync_ok
  generalize Transcript.sync false s = t at T' sync
  obtain rfl : t.messages = front' := by simpa using T'.split
  have exact_row : ∀ m ∈ t.messages, ∀ r ∈ t.table.rows, StoresUnpinned r m → Stores r m := by
    intro m hm r hr h
    have e := sync m hm r hr h.dbId
    rwa [StoresUnpinned, ← e] at h
  refine ⟨?_, T'.before, ?_, sync⟩
  · refine forall₂_imp_mem T'.written ?_
    intro r hr m hm
    exact exact_row m (List.mem_of_mem_drop (List.mem_of_mem_filter hm)) r
      (List.mem_of_mem_filter (mem_sortOn.mp hr))
  · intro m hm
    cases h : m.dbId with
    | none => exact absurd h (T'.loaded m hm)
    | some i =>
      obtain ⟨-, -, r, hr, hs, -⟩ := T'.linked m (List.mem_of_mem_take hm) i h
      exact ⟨r, hr, exact_row m (List.mem_of_mem_take hm) r hr hs⟩

/-- No rows are fresh. -/
lemma noRows_fresh : ∀ r ∈ ([] : List Row), r.id < 0 := by simp

/-- No rows are distinct. -/
lemma noRows_distinct : (([] : List Row).map Row.id).Nodup := .nil

/-- A session without rows, loaded. -/
def emptySession : Session where
  table := { rows := [], clock := 0, fresh := noRows_fresh, distinct := noRows_distinct }
  cp := {}
  messages := []

/-- The result of a tool call. -/
def toolResult (oid : Nat) : ChatMessage :=
  { oid, role := .tool, content := some "done", toolCallId := "call_1", name := some "shell" }

/-- An empty session is loaded. -/
lemma emptySession_loaded : Loaded emptySession :=
  ⟨rfl, by decide, by decide, by decide, by decide⟩

/-- Two results, synced one after the other with a failure in between that has nothing to write. -/
def twoResults : List Act :=
  [.append (toolResult 1), .sync false, .sync true, .append (toolResult 2)]

/-- Both results are stored exactly once. -/
theorem exactly_once_twoResults :
    ∃ s t : Session, Run (Guarded Harmless Step) emptySession twoResults s ∧
      Step s (.sync false) t ∧ t.table.rows.length = 2 ∧ Exact emptySession t := by
  have rn : ∃ s : Session, Run (Guarded Harmless Step) emptySession twoResults s ∧
      (sync false s).table.rows.length = 2 :=
    ⟨_, .cons ⟨trivial, .append (by decide) rfl (by decide)⟩ (.cons ⟨trivial, .sync⟩
      (.cons ⟨⟨by decide, by decide⟩, .sync⟩
        (.cons ⟨trivial, .append (by decide) rfl (by decide)⟩ .nil))), by decide⟩
  obtain ⟨s, rn, len⟩ := rn
  exact ⟨s, _, rn, .sync, len, exactly_once emptySession_loaded rn .sync⟩

/-- A tool result is appended, the sync fails, and the next one succeeds. -/
def lostResult : List Act := [.append (toolResult 1), .sync true]

/-- The result has no row after the sync that succeeds. -/
theorem failed_sync_loses_result :
    Loaded emptySession ∧ ∃ s t : Session, Run Step emptySession lostResult s ∧
      Step s (.sync false) t ∧ ¬ Exact emptySession t := by
  refine ⟨emptySession_loaded, sync true { emptySession with messages := [toolResult 1] }, _,
    .cons (.append (by decide) rfl (by decide)) (.cons .sync .nil), .sync, ?_⟩
  intro h
  have len := h.appended.length_eq
  revert len
  decide

end OpenAgentd.Transcript
