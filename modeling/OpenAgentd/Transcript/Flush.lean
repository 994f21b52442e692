import OpenAgentd.Transcript.Sync

/-!
# What a sync writes

The facts about the checkpointer that its users share: the rows the loop of `sync` appends (`Flushed`,
`flushNew_spec`), the anchors of new summaries, and the pins that are updated and loaded.
-/

namespace OpenAgentd.Transcript
open OpenAgentd.Lib OpenAgentd.Store

/-- The loop of `sync` wants to write the message. -/
def unsaved (seen : List Nat) (m : ChatMessage) : Bool := decide (m.oid ∉ seen) && storable m

/-- The messages that a list can be given to `sync` with: what is not seen has no row, no anchor, and a
tool message is no summary. -/
def Fresh (seen : List Nat) (anchored : Nat → Option Nat) (m : ChatMessage) : Prop :=
  m.oid ∉ seen → m.dbId = none ∧ (storable m = true → anchored m.oid = none) ∧
    (m.role = .tool → m.isSummary = false)

/-- What the loop of `sync` makes of the messages `ms`. -/
structure Flushed (seen : List Nat) (f : Flush) (ms : List ChatMessage) (f' : Flush)
    (ms' : List ChatMessage) (ns : List Row) : Prop where
  rows : f'.table.rows = f.table.rows ++ ns
  clock : f.table.clock ≤ f'.table.clock
  sorted : ns.Pairwise (fun a b => a.pos < b.pos)
  behind : ∀ r ∈ f.table.rows, ∀ n ∈ ns, r.pos < n.pos
  ids : ∀ n ∈ ns, f.table.clock ≤ n.id
  kinds : ∀ n ∈ ns, n.kind = .chat ∨ n.kind = .note ∨ n.kind = .summary
  stores : List.Forall₂ Stores ns (ms'.filter (unsaved seen))
  keeps : List.Forall₂ (fun m m' => m' = { m with dbId := m'.dbId } ∧
    (unsaved seen m = false → m' = m)) ms ms'
  persisted : ∀ o, o ∈ f'.cp.persisted ↔ o ∈ f.cp.persisted ∨
    ∃ m ∈ ms, m.oid = o ∧ o ∉ seen ∧ (storable m = true ∨ m.role = .user)
  pins : ∀ i, f'.cp.flushedPinned i =
    ((ns.reverse.find? (fun n => n.id = i)).map Row.pinned).or (f.cp.flushedPinned i)

section
variable {seen : List Nat} {anchored : Nat → Option Nat} {f : Flush} {m : ChatMessage}
  {ms : List ChatMessage}

/-- The branches of `sync` that write a row. -/
lemma flushMessage_storable (h : storable m = true) (an : anchored m.oid = none)
    (tool : m.role = .tool → m.isSummary = false) :
    flushMessage anchored f m = f.save m m.isSummary none := by
  unfold flushMessage
  unfold storable at h
  cases e : m.role with
  | assistant => simp_all
  | tool => simp_all
  | user => simp_all
  | system => simp_all

/-- The branches of `sync` that write none. -/
lemma flushMessage_unstorable (h : storable m = false) :
    flushMessage anchored f m =
      ({ f with cp := if m.role = .user then f.cp.mark m else f.cp }, m) := by
  unfold flushMessage
  unfold storable at h
  cases e : m.role with
  | assistant => simp_all
  | tool => simp_all
  | user => simp_all
  | system => simp_all

/-- The positions given out are behind the last one. -/
def TailOk (f : Flush) : Prop := ∀ r ∈ f.table.rows, r.seq < f.nextTail

/-- No tail is in order. -/
lemma TailOk.start (h : f.tail = none) : TailOk f := by
  intro r hr
  simp only [Flush.nextTail, h]
  exact lt_nextSeq hr

/-- What a list without unsaved messages comes to. -/
lemma Flushed.skip {cp : Checkpointer} (old : unsaved seen m = false)
    (persisted : ∀ o, o ∈ cp.persisted ↔ o ∈ f.cp.persisted ∨
      ∃ k ∈ [m], k.oid = o ∧ o ∉ seen ∧ (storable k = true ∨ k.role = .user))
    (pins : cp.flushedPinned = f.cp.flushedPinned) :
    Flushed seen f [m] { f with cp } [m] [] where
  rows := by simp
  clock := le_rfl
  sorted := .nil
  behind := by simp
  ids := by simp
  kinds := by simp
  stores := by simp [old]
  keeps := by simp
  persisted := persisted
  pins := by simp [pins]

/-- What one saved message comes to. -/
lemma Flushed.save (ok : TailOk f) (new : unsaved seen m = true) :
    Flushed seen f [m] (f.save m m.isSummary none).1 [(f.save m m.isSummary none).2]
      [{ messageRow m m.isSummary f.nextTail with id := f.table.clock }] := by
  simp only [unsaved, Bool.and_eq_true, decide_eq_true_eq] at new
  refine ⟨rfl, Nat.le_succ _, by simp, ?_, by simp, ?_, ?_, ?_, ?_, ?_⟩
  · intro r hr n hn
    rw [List.mem_singleton.mp hn, Row.pos_lt]
    exact .inl (ok r hr)
  · intro n hn
    rw [List.mem_singleton.mp hn]
    exact savedKind_cases
  · have h : unsaved seen { m with dbId := some f.table.clock } = true := by
      rw [show unsaved seen { m with dbId := some f.table.clock } = unsaved seen m from rfl, unsaved]
      simpa using new
    simp only [Flush.save, List.filter_cons, h, if_true, List.filter_nil, List.forall₂_cons,
      List.forall₂_nil_left_iff, and_true]
    exact stores_messageRow rfl
  · simp [Flush.save, unsaved, new]
  · intro o
    simp only [Flush.save, Checkpointer.mark, Checkpointer.flushPin, List.mem_singleton, exists_eq_left]
    constructor
    · intro h
      rcases List.mem_cons.mp h with rfl | h
      · exact .inr ⟨rfl, new.1, .inl new.2⟩
      · exact .inl h
    · rintro (h | ⟨rfl, -⟩)
      · exact List.mem_cons_of_mem _ h
      · exact List.mem_cons_self
  · intro i
    simp only [Flush.save, Checkpointer.mark, Checkpointer.flushPin, List.reverse_singleton]
    by_cases h : i = f.table.clock
    · simp [h, messageRow]
    · simp [h, Ne.symm h]

/-- A save keeps the tail in order. -/
lemma TailOk.save {isSummary : Bool} (ok : TailOk f) : TailOk (f.save m isSummary none).1 := by
  intro r hr
  have next : (f.save m isSummary none).1.nextTail = f.nextTail + seqStep := rfl
  rw [next]
  simp only [Flush.save, Table.insert_rows, List.mem_append, List.mem_singleton] at hr
  rcases hr with hr | rfl
  · exact (ok r hr).trans (Nat.lt_add_of_pos_right (by decide))
  · exact Nat.lt_add_of_pos_right (by decide)

/-- What two lists in a row come to. -/
lemma Flushed.append {f₁ f₂ : Flush} {ms₁ ks ks₁ : List ChatMessage} {ns ns' : List Row}
    (h : Flushed seen f ms f₁ ms₁ ns) (h' : Flushed seen f₁ ks f₂ ks₁ ns') :
    Flushed seen f (ms ++ ks) f₂ (ms₁ ++ ks₁) (ns ++ ns') where
  rows := by rw [h'.rows, h.rows, List.append_assoc]
  clock := h.clock.trans h'.clock
  sorted := by
    rw [List.pairwise_append]
    refine ⟨h.sorted, h'.sorted, ?_⟩
    intro a ha b hb
    exact h'.behind a (by rw [h.rows]; exact List.mem_append_right _ ha) b hb
  behind := by
    intro r hr n hn
    rcases List.mem_append.mp hn with hn | hn
    · exact h.behind r hr n hn
    · exact h'.behind r (by rw [h.rows]; exact List.mem_append_left _ hr) n hn
  ids := by
    intro n hn
    rcases List.mem_append.mp hn with hn | hn
    · exact h.ids n hn
    · exact h.clock.trans (h'.ids n hn)
  kinds := by
    intro n hn
    rcases List.mem_append.mp hn with hn | hn
    · exact h.kinds n hn
    · exact h'.kinds n hn
  stores := by
    rw [List.filter_append]
    exact List.rel_append h.stores h'.stores
  keeps := List.rel_append h.keeps h'.keeps
  persisted := by
    intro o
    rw [h'.persisted, h.persisted]
    simp only [List.mem_append, or_and_right, exists_or, or_assoc]
  pins := by
    intro i
    rw [h'.pins, h.pins, List.reverse_append, List.find?_append, Option.map_or, Option.or_assoc]

/-- The loop of `sync`. -/
lemma flushNew_spec (ok : TailOk f) (fresh : ∀ m ∈ ms, Fresh seen anchored m) :
    ∃ ns, Flushed seen f ms (flushNew seen anchored f ms).1 (flushNew seen anchored f ms).2 ns := by
  induction ms generalizing f with
  | nil =>
    refine ⟨[], ?_, ?_, ?_, ?_, ?_, ?_, ?_, ?_, ?_, ?_⟩
    all_goals simp [flushNew]
  | cons m ms ih =>
    have fresh' : ∀ m ∈ ms, Fresh seen anchored m := fun m' h => fresh m' (List.mem_cons_of_mem _ h)
    have fm := fresh m List.mem_cons_self
    have one : ∃ ns, TailOk (if m.oid ∈ seen then (f, m) else flushMessage anchored f m).1 ∧
        Flushed seen f [m] (if m.oid ∈ seen then (f, m) else flushMessage anchored f m).1
          [(if m.oid ∈ seen then (f, m) else flushMessage anchored f m).2] ns := by
      by_cases old : m.oid ∈ seen
      · rw [if_pos old]
        exact ⟨[], ok, .skip (by simp [unsaved, old]) (by simp [old]) rfl⟩
      · rw [if_neg old]
        obtain ⟨noRow, an, tool⟩ := fm old
        cases st : storable m with
        | true =>
          rw [flushMessage_storable st (an st) tool]
          exact ⟨_, ok.save, .save ok (by simp [unsaved, old, st])⟩
        | false =>
          rw [flushMessage_unstorable st]
          refine ⟨[], ok, .skip (by simp [unsaved, st]) ?_ ?_⟩
          · intro o
            by_cases hu : m.role = .user
            · simp only [hu, if_true, Checkpointer.mark, noRow, List.mem_cons, List.not_mem_nil,
                or_false, exists_eq_left, or_true, and_true]
              constructor
              · rintro (rfl | h)
                · exact .inr ⟨rfl, old⟩
                · exact .inl h
              · rintro (h | ⟨rfl, -⟩)
                · exact .inr h
                · exact .inl rfl
            · simp [hu, st]
          · by_cases hu : m.role = .user
            · simp [hu, Checkpointer.mark, noRow]
            · simp [hu]
    obtain ⟨ns, ok', F⟩ := one
    obtain ⟨ns', F'⟩ := ih ok' fresh'
    exact ⟨ns ++ ns', F.append F'⟩

/-- The keys of the anchors are new summaries with an anchor behind them. -/
lemma mem_summaryAnchorIds {o a : Nat} (h : (o, a) ∈ summaryAnchorIds seen ms) :
    ∃ pre m post, ms = pre ++ m :: post ∧ m.oid = o ∧ m.isSummary = true ∧ o ∉ seen ∧ firstAnchor post = some a := by
  induction ms with
  | nil => cases h
  | cons m ms ih =>
    have step : (o, a) ∈ summaryAnchorIds seen ms →
        ∃ pre k post, m :: ms = pre ++ k :: post ∧ k.oid = o ∧ k.isSummary = true ∧ o ∉ seen ∧
          firstAnchor post = some a := by
      intro h
      obtain ⟨pre, k, post, rfl, hk⟩ := ih h
      exact ⟨m :: pre, k, post, rfl, hk⟩
    rw [summaryAnchorIds] at h
    split at h
    · exact step h
    · rename_i b hb
      rcases List.mem_cons.mp h with e | h
      · obtain ⟨rfl, rfl⟩ := Prod.mk.inj e
        split at hb
        · rename_i new
          simp only [Bool.and_eq_true, decide_eq_true_eq] at new
          exact ⟨[], m, ms, rfl, rfl, new.1, new.2, hb⟩
        · cases hb
      · exact step h

/-- Nothing without a row is an anchor. -/
lemma firstAnchor_eq_none (h : ∀ m ∈ ms, m.dbId = none) : firstAnchor ms = none := by
  rw [firstAnchor, List.findSome?_eq_none_iff]
  intro m hm
  simp [h m hm]

end

/-! ## The messages after the loop -/

/-- What `sync` keeps of a message. -/
def Keeps (seen : List Nat) (m m' : ChatMessage) : Prop :=
  m' = { m with dbId := m'.dbId } ∧ (unsaved seen m = false → m' = m)

/-- The object is kept. -/
lemma Keeps.oid {seen : List Nat} {m m' : ChatMessage} (h : Keeps seen m m') : m'.oid = m.oid := by
  rw [h.1]

/-- Storability is kept. -/
lemma Keeps.storable {seen : List Nat} {m m' : ChatMessage} (h : Keeps seen m m') :
    storable m' = storable m := by
  rw [h.1]
  rfl

/-- The objects are kept. -/
lemma keeps_oids {seen : List Nat} {ms ms' : List ChatMessage} (h : List.Forall₂ (Keeps seen) ms ms') :
    ms'.map ChatMessage.oid = ms.map ChatMessage.oid := by
  induction h with
  | nil => rfl
  | cons hk _ ih => rw [List.map_cons, List.map_cons, hk.oid, ih]

/-- Saved messages are left alone. -/
lemma keeps_eq {seen : List Nat} {ms ms' : List ChatMessage} (h : List.Forall₂ (Keeps seen) ms ms')
    (old : ∀ m ∈ ms, unsaved seen m = false) : ms' = ms := by
  induction h with
  | nil => rfl
  | cons hk _ ih =>
    rw [ih (fun m h => old m (List.mem_cons_of_mem _ h)), hk.2 (old _ List.mem_cons_self)]

/-- A prefix without unsaved messages stays as it is. -/
lemma keeps_prefix {seen : List Nat} {front back ms' : List ChatMessage}
    (h : List.Forall₂ (Keeps seen) (front ++ back) ms') (old : ∀ m ∈ front, unsaved seen m = false) :
    ∃ back', ms' = front ++ back' ∧ List.Forall₂ (Keeps seen) back back' := by
  induction front generalizing ms' with
  | nil => exact ⟨ms', rfl, h⟩
  | cons m front ih =>
    cases h with
    | cons hm h =>
      obtain ⟨back', rfl, hb⟩ := ih h (fun m h => old m (List.mem_cons_of_mem _ h))
      rw [hm.2 (old m List.mem_cons_self)]
      exact ⟨back', rfl, hb⟩

/-! ## The pins -/

section
variable {m : ChatMessage} {ms : List ChatMessage}

/-- A dict with different keys. -/
lemma pinOf_eq_some {pins : List (Nat × Bool)} {id : Nat} {v : Bool}
    (nd : (pins.map Prod.fst).Nodup) : pinOf pins id = some v ↔ (id, v) ∈ pins := by
  rw [pinOf, List.lookup_eq_some_iff]
  constructor
  · rintro ⟨l₁, l₂, e, -⟩
    rw [← List.mem_reverse, e]
    simp
  · intro h
    obtain ⟨l₁, l₂, e⟩ := List.append_of_mem (List.mem_reverse.mpr h)
    refine ⟨l₁, l₂, e, ?_⟩
    have nd' : (pins.reverse.map Prod.fst).Nodup := by
      rw [List.map_reverse]
      exact List.nodup_reverse.mpr nd
    rw [e, List.map_append, List.nodup_append] at nd'
    intro a ha
    have := nd'.2.2 a.1 (List.mem_map_of_mem ha) id (by simp)
    simpa using Ne.symm this

/-- The messages whose pin is updated. -/
lemma pinUpdate_eq_some {cp : Checkpointer} {id : Nat} {v : Bool} :
    pinUpdate cp m = some (id, v) ↔ m.dbId = some id ∧ m.pinned = v ∧ m.oid ∈ cp.persisted ∧
      m.role ≠ .system ∧ (cp.flushedPinned id).getD false ≠ v := by
  unfold pinUpdate
  cases m.dbId with
  | none => simp
  | some i =>
    simp only [Option.ite_none_right_eq_some, Option.some.injEq, Prod.mk.injEq]
    constructor
    · rintro ⟨h, rfl, rfl⟩
      exact ⟨rfl, rfl, h⟩
    · rintro ⟨rfl, rfl, h⟩
      exact ⟨h, rfl, rfl⟩

/-- Every row has at most one pin update. -/
lemma pinUpdates_nodup {cp : Checkpointer} (nd : (ms.filterMap ChatMessage.dbId).Nodup) :
    ((pinUpdates cp ms).map Prod.fst).Nodup := by
  refine nd.sublist ?_
  clear nd
  induction ms with
  | nil => exact .slnil
  | cons m ms ih =>
    simp only [pinUpdates] at ih ⊢
    cases h : pinUpdate cp m with
    | none =>
      rw [List.filterMap_cons_none h]
      exact ih.trans ((List.sublist_cons_self m ms).filterMap _)
    | some a =>
      rw [List.filterMap_cons_some h, List.filterMap_cons_some (pinUpdate_eq_some.mp h).1]
      exact ih.cons_cons _

/-- The pin of the row of a message after the pin updates. -/
lemma pinOf_message {cp : Checkpointer} {id : Nat} {v : Bool}
    (nd : (ms.filterMap ChatMessage.dbId).Nodup) (hm : m ∈ ms) (hid : m.dbId = some id)
    (seen : m.oid ∈ cp.persisted) (role : m.role ≠ .system) (flushed : cp.flushedPinned id = some v) :
    (pinOf (pinUpdates cp ms) id).getD v = m.pinned := by
  by_cases e : v = m.pinned
  · cases h : pinOf (pinUpdates cp ms) id with
    | none => exact e
    | some w =>
      rw [pinOf_eq_some (pinUpdates_nodup nd)] at h
      obtain ⟨k, hk, h⟩ := List.mem_filterMap.mp h
      obtain ⟨hkid, rfl, -⟩ := pinUpdate_eq_some.mp h
      rw [eq_of_filterMap_nodup nd hk hm hkid hid, Option.getD_some]
  · have h : pinOf (pinUpdates cp ms) id = some m.pinned := by
      rw [pinOf_eq_some (pinUpdates_nodup nd)]
      refine List.mem_filterMap.mpr ⟨m, hm, pinUpdate_eq_some.mpr ⟨hid, rfl, seen, role, ?_⟩⟩
      simpa [flushed] using e
    rw [h, Option.getD_some]

/-- What `mark_loaded` has persisted. -/
lemma markLoaded_persisted {cp : Checkpointer} {ms : List ChatMessage} {o : Nat} :
    o ∈ (markLoaded cp ms).persisted ↔ o ∈ cp.persisted ∨ o ∈ ms.map ChatMessage.oid := by
  induction ms generalizing cp with
  | nil => simp [markLoaded]
  | cons m ms ih =>
    rw [markLoaded, ih]
    have h : ∀ cp' : Checkpointer, cp'.persisted = m.oid :: cp.persisted →
        (o ∈ cp'.persisted ∨ o ∈ ms.map ChatMessage.oid ↔
          o ∈ cp.persisted ∨ o ∈ (m :: ms).map ChatMessage.oid) := by
      intro cp' e
      rw [e, List.map_cons, List.mem_cons, List.mem_cons]
      tauto
    apply h
    split
    · rfl
    · split
      · rfl
      · rfl

/-- The pins `mark_loaded` notes. -/
lemma markLoaded_pins {cp : Checkpointer} {ms : List ChatMessage} {i : Nat} :
    (markLoaded cp ms).flushedPinned i =
      (cp.flushedPinned i).or ((ms.find? fun m => m.dbId = some i).map ChatMessage.pinned) := by
  induction ms generalizing cp with
  | nil => simp [markLoaded]
  | cons m ms ih =>
    rw [markLoaded, ih]
    cases hm : m.dbId with
    | none => simp [hm]
    | some id =>
      simp only
      by_cases e : id = i
      · subst e
        cases h : cp.flushedPinned id with
        | none => simp [Checkpointer.flushPin, hm]
        | some w => simp [h]
      · have skip : decide ((some id : Option Nat) = some i) = false := by simpa using e
        simp only [List.find?_cons, hm, skip]
        split
        · rfl
        · simp [Checkpointer.flushPin, Ne.symm e]

/-- The pin `mark_loaded` notes for the row of a message. -/
lemma markLoaded_pin {id : Nat} (nd : (ms.filterMap ChatMessage.dbId).Nodup) (hm : m ∈ ms)
    (hid : m.dbId = some id) : (markLoaded {} ms).flushedPinned id = some m.pinned := by
  rw [markLoaded_pins]
  cases h : ms.find? (fun m => m.dbId = some id) with
  | none =>
    have := List.find?_eq_none.mp h m hm
    simp [hid] at this
  | some k =>
    have hk : k.dbId = some id := by simpa using List.find?_some h
    rw [eq_of_filterMap_nodup nd (List.mem_of_find?_eq_some h) hm hk hid]
    rfl

end

end OpenAgentd.Transcript
