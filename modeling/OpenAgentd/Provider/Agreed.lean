import OpenAgentd.Lib.Numbered
import OpenAgentd.Provider.Responses
import Mathlib.Data.List.Pairwise

/-!
# The stream and the completed reply

What stands in the alias maps and in the assembler behind some events of a stream (`Tracked`): every identifier that
was carried leads to its call (`Knows`), and the calls are numbered in the order of their first fragments
(`Buffers`). `agreed_iff` compares the assembled message with the parsed reply.
-/

namespace OpenAgentd.Provider
open OpenAgentd.Lib OpenAgentd.Loop

section
variable {output : List OutputItem} {events before : List ResponseEvent} {e : ResponseEvent} {p q : PlacedCall}
  {st : ResponsesStream} {s : Assembly} {x : Ident}

/-! ## The calls of a reply -/

/-- What identifies a call. -/
lemma mem_identsOf {callId itemId : String} {index : Option Int} :
    x ∈ identsOf callId itemId index ↔
      (∃ n, x = .name n ∧ n ≠ "" ∧ (n = callId ∨ n = itemId)) ∨ ∃ i, x = .index i ∧ index = some i := by
  rw [identsOf, List.mem_append, List.mem_map, List.mem_map]
  refine or_congr ⟨?_, ?_⟩ ⟨?_, ?_⟩
  · rintro ⟨n, mem, rfl⟩
    obtain ⟨known, truthy⟩ := List.mem_filter.mp mem
    exact ⟨n, rfl, of_decide_eq_true truthy, by simpa using known⟩
  · rintro ⟨n, rfl, truthy, known⟩
    exact ⟨n, List.mem_filter.mpr ⟨by simpa using known, decide_eq_true truthy⟩, rfl⟩
  · rintro ⟨i, mem, rfl⟩
    exact ⟨i, rfl, Option.mem_toList.mp mem⟩
  · rintro ⟨i, rfl, known⟩
    exact ⟨i, Option.mem_toList.mpr known, rfl⟩

/-- The places of the calls ascend. -/
lemma calls_ascending (output : List OutputItem) : (calls output).Pairwise fun p q => p.1 < q.1 := by
  have asc : output.zipIdx.Pairwise fun a b => a.2 < b.2 := by
    rw [List.pairwise_iff_getElem]
    intro i j hi hj lt
    simpa using lt
  refine List.Pairwise.filterMap placedCall (fun a b lt p hp q hq => ?_) asc
  obtain ⟨item, k⟩ := a
  obtain ⟨item', k'⟩ := b
  cases item with
  | functionCall c =>
    cases item' with
    | functionCall c' =>
      cases hp
      cases hq
      exact Int.ofNat_lt.mpr lt
    | _ => cases hq
  | _ => cases hp

/-- Calls have places of their own. -/
lemma places_distinct (output : List OutputItem) : ((calls output).map Prod.fst).Nodup := by
  rw [List.Nodup, List.pairwise_map]
  exact (calls_ascending output).imp fun {a b} lt => ne_of_lt lt

/-- The id of a call is one of its identifiers. -/
lemma id_mem_idents (W : WellStreamed output events) (mem : p ∈ calls output) (k : Option Int) :
    Ident.name p.2.toolCall.id ∈ p.2.idents k := by
  obtain ⟨given, truthy⟩ := W.named p mem
  refine mem_identsOf.mpr (.inl ⟨_, rfl, truthy, ?_⟩)
  rw [FunctionItem.toolCall]
  cases p.2.callId with
  | none => exact .inr rfl
  | some c => exact .inl rfl

/-- Calls that share an identifier are one. -/
lemma eq_of_ident (W : WellStreamed output events) (hp : p ∈ calls output) (hq : q ∈ calls output)
    (inP : x ∈ p.2.idents (some p.1)) (inQ : x ∈ q.2.idents (some q.1)) : p = q := by
  cases mem_identsOf.mp inP with
  | inl named =>
    obtain ⟨n, rfl, truthy, known⟩ := named
    by_contra ne
    have mine : Ident.name n ∈ p.2.idents none := mem_identsOf.mpr (.inl ⟨n, rfl, truthy, known⟩)
    have other : Ident.name n ∈ q.2.idents none := by
      cases mem_identsOf.mp inQ with
      | inl h => exact mem_identsOf.mpr (.inl h)
      | inr h => exact absurd h (by simp)
    have symm : Std.Symm fun a b : PlacedCall =>
        ∀ s, Ident.name s ∈ a.2.idents none → Ident.name s ∉ b.2.idents none :=
      ⟨fun a b apart s hb ha => apart s ha hb⟩
    exact W.apart.forall hp hq ne n mine other
  | inr indexed =>
    obtain ⟨i, rfl, e⟩ := indexed
    have e' : q.1 = i := by
      cases mem_identsOf.mp inQ with
      | inl h => exact absurd h (by simp)
      | inr h =>
        obtain ⟨j, hj, k⟩ := h
        rw [Option.some.inj k]
        exact (Ident.index.inj hj).symm
    exact List.inj_on_of_nodup_map (places_distinct output) hp hq ((Option.some.inj e).trans e'.symm)

/-- The identifiers of an event are those of its call. -/
lemma idents_ofCall (W : WellStreamed output events) (hp : p ∈ calls output) (own : e.ofCall p = true) :
    e.idents ≠ [] ∧ ∀ x ∈ e.idents, x ∈ p.2.idents (some p.1) := by
  have fragment : ∀ ids : EventIds, ids.ofCall p = true →
      identsOf ids.callId ids.itemId ids.outputIndex ≠ [] ∧
        ∀ x ∈ identsOf ids.callId ids.itemId ids.outputIndex, x ∈ p.2.idents (some p.1) := by
    intro ids ok
    simp only [EventIds.ofCall, Bool.and_eq_true, Bool.or_eq_true, decide_eq_true_eq] at ok
    obtain ⟨⟨⟨⟨call, item⟩, index⟩, -⟩, ne⟩ := ok
    refine ⟨ne, fun x hx => mem_identsOf.mpr ?_⟩
    cases mem_identsOf.mp hx with
    | inl named =>
      obtain ⟨n, rfl, truthy, known⟩ := named
      refine .inl ⟨n, rfl, truthy, ?_⟩
      cases known with
      | inl known =>
        subst known
        rw [← call.resolve_left truthy]
        exact .inl rfl
      | inr known =>
        subst known
        rw [← item.resolve_left truthy]
        exact .inr rfl
    | inr indexed =>
      obtain ⟨i, rfl, known⟩ := indexed
      rw [known] at index
      exact .inr ⟨i, rfl, congrArg some (of_decide_eq_true index).symm⟩
  cases e with
  | itemAdded index item =>
    cases item with
    | functionCall c =>
      simp only [ResponseEvent.ofCall, ResponseEvent.isHeader, ResponseEvent.isFragment, Bool.or_false,
        Bool.and_eq_true, decide_eq_true_eq] at own
      obtain ⟨⟨⟨place, id⟩, callId⟩, -⟩ := own
      have same : c.idents index = p.2.idents index := by rw [FunctionItem.idents, id, callId, FunctionItem.idents]
      rw [ResponseEvent.idents, same]
      refine ⟨List.ne_nil_of_mem (id_mem_idents W hp index), fun x hx => mem_identsOf.mpr ?_⟩
      cases mem_identsOf.mp hx with
      | inl named => exact .inl named
      | inr indexed =>
        obtain ⟨i, rfl, known⟩ := indexed
        rw [known] at place
        exact .inr ⟨i, rfl, congrArg some (of_decide_eq_true place).symm⟩
    | _ => cases own
  | argumentsDelta ids delta => exact fragment ids own
  | argumentsDone ids arguments => exact fragment ids own
  | _ => cases own

/-- An event is of one call. -/
lemma owner_unique (W : WellStreamed output events) (hp : p ∈ calls output) (hq : q ∈ calls output)
    (ownP : e.ofCall p = true) (ownQ : e.ofCall q = true) : p = q := by
  obtain ⟨ne, ofP⟩ := idents_ofCall W hp ownP
  obtain ⟨x, hx⟩ := List.exists_mem_of_ne_nil _ ne
  exact eq_of_ident W hp hq (ofP x hx) ((idents_ofCall W hq ownQ).2 x hx)

/-! ## The alias maps -/

/-- A name set when it says something. -/
lemma get?_setTruthy {d : Dict String String} {k v n : String} :
    (setTruthy d k v).get? n = if n = k ∧ k ≠ "" then some v else d.get? n := by
  rw [setTruthy]
  split
  next none =>
    rw [if_neg fun h => h.2 none]
  next some =>
    rw [Dict.get?_set]
    exact if_congr ⟨fun same => ⟨same, some⟩, fun h => h.1⟩ rfl rfl

/-- An index set when there is one. -/
lemma get?_setIndex {d : Dict Int String} {k : Option Int} {v : String} {i : Int} :
    (setIndex d k v).get? i = if k = some i then some v else d.get? i := by
  cases k with
  | none => rfl
  | some j =>
    rw [setIndex, Dict.get?_set]
    exact if_congr ⟨fun same => congrArg some same.symm, fun same => (Option.some.inj same).symm⟩ rfl rfl

/-- Every identifier that was carried leads to its call. -/
structure Knows (output : List OutputItem) (before : List ResponseEvent) (st : ResponsesStream) : Prop where
  names : ∀ n c, st.idToCanonical.get? n = some c ↔
    ∃ p ∈ calls output, c = p.2.toolCall.id ∧ ∃ e ∈ before, e.ofCall p = true ∧ Ident.name n ∈ e.idents
  indexes : ∀ i c, st.indexToCanonical.get? i = some c ↔
    ∃ p ∈ calls output, c = p.2.toolCall.id ∧ ∃ e ∈ before, e.ofCall p = true ∧ Ident.index i ∈ e.idents
  functions : ∀ p ∈ calls output,
    (st.toolNames.get? p.2.toolCall.id = none ∨ st.toolNames.get? p.2.toolCall.id = some p.2.toolCall.name) ∧
      ((∃ e ∈ before, e.isHeader p = true) → (st.toolNames.get? p.2.toolCall.id).getD "" = p.2.toolCall.name)

/-- The identifiers behind an event of a call. -/
lemma carried_snoc (W : WellStreamed output events) (hp : p ∈ calls output) (own : e.ofCall p = true) (x : Ident)
    (c : String) :
    (∃ q ∈ calls output, c = q.2.toolCall.id ∧ ∃ e' ∈ before ++ [e], e'.ofCall q = true ∧ x ∈ e'.idents) ↔
      if x ∈ e.idents then p.2.toolCall.id = c
      else ∃ q ∈ calls output, c = q.2.toolCall.id ∧ ∃ e' ∈ before, e'.ofCall q = true ∧ x ∈ e'.idents := by
  split
  next carried =>
    constructor
    · rintro ⟨q, hq, rfl, e', -, ownQ, known⟩
      have same : p = q := eq_of_ident W hp hq ((idents_ofCall W hp own).2 x carried) ((idents_ofCall W hq ownQ).2 x known)
      rw [same]
    · rintro rfl
      exact ⟨p, hp, rfl, e, List.mem_concat_self, own, carried⟩
  next other =>
    constructor
    · rintro ⟨q, hq, rfl, e', mem, ownQ, known⟩
      cases List.mem_append.mp mem with
      | inl mem => exact ⟨q, hq, rfl, e', mem, ownQ, known⟩
      | inr last =>
        rw [List.mem_singleton.mp last] at known
        exact absurd known other
    · rintro ⟨q, hq, rfl, e', mem, ownQ, known⟩
      exact ⟨q, hq, rfl, e', List.mem_append_left _ mem, ownQ, known⟩

/-- An event of a call sets its identifiers. -/
lemma Knows.call {st' : ResponsesStream} (K : Knows output before st) (W : WellStreamed output events)
    (hp : p ∈ calls output) (own : e.ofCall p = true)
    (names : ∀ n, st'.idToCanonical.get? n =
      if Ident.name n ∈ e.idents then some p.2.toolCall.id else st.idToCanonical.get? n)
    (indexes : ∀ i, st'.indexToCanonical.get? i =
      if Ident.index i ∈ e.idents then some p.2.toolCall.id else st.indexToCanonical.get? i)
    (functions : ∀ q ∈ calls output,
      (st'.toolNames.get? q.2.toolCall.id = none ∨ st'.toolNames.get? q.2.toolCall.id = some q.2.toolCall.name) ∧
        ((∃ e' ∈ before ++ [e], e'.isHeader q = true) →
          (st'.toolNames.get? q.2.toolCall.id).getD "" = q.2.toolCall.name)) :
    Knows output (before ++ [e]) st' := by
  refine ⟨fun n c => ?_, fun i c => ?_, functions⟩
  · rw [carried_snoc W hp own, names]
    split
    · exact Option.some_inj
    · exact K.names n c
  · rw [carried_snoc W hp own, indexes]
    split
    · exact Option.some_inj
    · exact K.indexes i c

/-- A header that is not the last event stands before it. -/
lemma header_of_snoc (header : ∃ e' ∈ before ++ [e], e'.isHeader p = true) (not : e.isHeader p = true → False) :
    ∃ e' ∈ before, e'.isHeader p = true := by
  obtain ⟨e', mem, is⟩ := header
  cases List.mem_append.mp mem with
  | inl mem => exact ⟨e', mem, is⟩
  | inr last =>
    rw [List.mem_singleton.mp last] at is
    exact (not is).elim

/-- An event of no call leaves the maps. -/
lemma Knows.silent {st' : ResponsesStream} (K : Knows output before st) (none : ∀ p, e.ofCall p = false)
    (names : st'.idToCanonical = st.idToCanonical) (indexes : st'.indexToCanonical = st.indexToCanonical)
    (functions : st'.toolNames = st.toolNames) : Knows output (before ++ [e]) st' := by
  have same : ∀ (q : PlacedCall) (x : Ident), (∃ e' ∈ before ++ [e], e'.ofCall q = true ∧ x ∈ e'.idents) ↔
      ∃ e' ∈ before, e'.ofCall q = true ∧ x ∈ e'.idents := by
    intro q x
    constructor
    · rintro ⟨e', mem, own, known⟩
      cases List.mem_append.mp mem with
      | inl mem => exact ⟨e', mem, own, known⟩
      | inr last =>
        rw [List.mem_singleton.mp last, none] at own
        cases own
    · rintro ⟨e', mem, own, known⟩
      exact ⟨e', List.mem_append_left _ mem, own, known⟩
  refine ⟨fun n c => ?_, fun i c => ?_, fun p hp => ?_⟩
  · rw [names, K.names]
    exact exists_congr fun q => and_congr_right fun _ => and_congr_right fun _ => (same q _).symm
  · rw [indexes, K.indexes]
    exact exists_congr fun q => and_congr_right fun _ => and_congr_right fun _ => (same q _).symm
  · rw [functions]
    refine ⟨(K.functions p hp).1, fun header => (K.functions p hp).2 (header_of_snoc header fun is => ?_)⟩
    have own : e.ofCall p = true := by rw [ResponseEvent.ofCall, is, Bool.true_or]
    rw [none] at own
    cases own

/-- The names of a call. -/
lemma mem_names {callId itemId n : String} {index : Option Int} :
    Ident.name n ∈ identsOf callId itemId index ↔ n ≠ "" ∧ (n = callId ∨ n = itemId) := by
  rw [mem_identsOf]
  constructor
  · intro h
    cases h with
    | inl named =>
      obtain ⟨m, e, truthy, known⟩ := named
      cases e
      exact ⟨truthy, known⟩
    | inr indexed => exact absurd indexed (by simp)
  · exact fun h => .inl ⟨n, rfl, h⟩

/-- The index of a call. -/
lemma mem_indexes {callId itemId : String} {i : Int} {index : Option Int} :
    Ident.index i ∈ identsOf callId itemId index ↔ index = some i := by
  rw [mem_identsOf]
  constructor
  · intro h
    cases h with
    | inl named => exact absurd named (by simp)
    | inr indexed =>
      obtain ⟨j, e, known⟩ := indexed
      cases e
      exact known
  · exact fun h => .inr ⟨i, rfl, h⟩

/-- An empty name is skipped. -/
lemma firstTruthy_skip {o : Option String} {rest : List (Option String)} (empty : o.getD "" = "") :
    firstTruthy (o :: rest) = firstTruthy rest := if_pos empty

/-- The first name counts. -/
lemma firstTruthy_take {o : Option String} {rest : List (Option String)} (truthy : o.getD "" ≠ "") :
    firstTruthy (o :: rest) = o.getD "" := if_neg truthy

/-- Among lookups that find one value or nothing, the value is found. -/
lemma firstTruthy_found (front : List (Option String)) {rest : List (Option String)} {v : String} (truthy : v ≠ "")
    (only : ∀ o ∈ front, o = none ∨ o = some v) (found : some v ∈ front) : firstTruthy (front ++ rest) = v := by
  induction front with
  | nil => cases found
  | cons o front ih =>
    cases only o List.mem_cons_self with
    | inl none =>
      subst none
      have later : some v ∈ front := (List.mem_cons.mp found).resolve_left (Option.some_ne_none v)
      exact (firstTruthy_skip rfl).trans (ih (fun o mem => only o (List.mem_cons_of_mem _ mem)) later)
    | inr some =>
      subst some
      exact firstTruthy_take truthy

/-- The id of a call, as the header finds it. -/
lemma header_canon (W : WellStreamed output events) (hp : p ∈ calls output) (k : Option Int) :
    firstTruthy [some (p.2.callId.getD ""), some (p.2.id.getD ""), indexId k] = p.2.toolCall.id := by
  obtain ⟨given, truthy⟩ := W.named p hp
  rw [FunctionItem.toolCall] at truthy ⊢
  cases e : p.2.callId with
  | none =>
    rw [e] at truthy
    exact (firstTruthy_skip rfl).trans (firstTruthy_take truthy)
  | some c =>
    have ne : c ≠ "" := fun empty => given (e.trans (congrArg some empty))
    exact firstTruthy_take ne

/-- The names a call is known by are of no other call. -/
lemma id_not_mem (W : WellStreamed output events) (hp : p ∈ calls output) (hq : q ∈ calls output) (ne : p ≠ q)
    {n : String} (known : Ident.name n ∈ p.2.idents none) : q.2.toolCall.id ≠ n := by
  rintro rfl
  have carried : Ident.name q.2.toolCall.id ∈ p.2.idents (some p.1) := mem_names.mpr (mem_names.mp known)
  exact ne (eq_of_ident W hp hq carried (id_mem_idents W hq (some q.1)))

/-- A header makes its call known. -/
lemma Knows.header {index : Option Int} {c : FunctionItem} (K : Knows output before st) (W : WellStreamed output events)
    (hp : p ∈ calls output) (own : (ResponseEvent.itemAdded index (.functionCall c)).isHeader p = true) :
    Knows output (before ++ [.itemAdded index (.functionCall c)]) (st.header index c) := by
  have own' : (ResponseEvent.itemAdded index (.functionCall c)).ofCall p = true := by
    rw [ResponseEvent.ofCall, own, Bool.true_or]
  simp only [ResponseEvent.isHeader, Bool.and_eq_true, decide_eq_true_eq] at own
  obtain ⟨⟨⟨-, id⟩, callId⟩, name⟩ := own
  have canon := header_canon W hp index
  have fn : c.name.getD "" = p.2.toolCall.name := by rw [name, FunctionItem.toolCall]
  refine K.call W hp own' (fun n => ?_) (fun i => ?_) fun q hq => ?_
  · rw [ResponsesStream.header, id, callId]
    simp only [get?_setTruthy, canon, ResponseEvent.idents, FunctionItem.idents, mem_names, id, callId]
    by_cases first : n = p.2.callId.getD "" ∧ p.2.callId.getD "" ≠ ""
    · rw [if_pos first, if_pos ⟨first.1 ▸ first.2, .inl first.1⟩]
    · rw [if_neg first]
      refine if_congr ⟨fun h => ⟨h.1 ▸ h.2, .inr h.1⟩, fun h => ?_⟩ rfl rfl
      cases h.2 with
      | inl known => exact absurd ⟨known, known ▸ h.1⟩ first
      | inr known => exact ⟨known, known ▸ h.1⟩
  · rw [ResponsesStream.header, id, callId]
    simp only [get?_setIndex, canon, ResponseEvent.idents, FunctionItem.idents, mem_indexes]
  · rw [ResponsesStream.header, id, callId]
    simp only [canon, fn]
    by_cases same : p = q
    · subst same
      split
      next unnamed =>
        have value : (st.toolNames.get? p.2.toolCall.id).getD "" = p.2.toolCall.name := by
          cases (K.functions p hp).1 with
          | inl none => rw [none, unnamed]; rfl
          | inr some => rw [some]; rfl
        exact ⟨(K.functions p hp).1, fun _ => value⟩
      next =>
        have value : (setTruthy (setTruthy (st.toolNames.set p.2.toolCall.id p.2.toolCall.name) (p.2.id.getD "")
            p.2.toolCall.name) (p.2.callId.getD "") p.2.toolCall.name).get? p.2.toolCall.id =
              some p.2.toolCall.name := by
          rw [get?_setTruthy, get?_setTruthy, Dict.get?_set, if_pos rfl, ite_self, ite_self]
        exact ⟨.inr value, fun _ => by rw [value]; rfl⟩
    · have stays : (if p.2.toolCall.name = "" then st.toolNames
          else setTruthy (setTruthy (st.toolNames.set p.2.toolCall.id p.2.toolCall.name) (p.2.id.getD "")
            p.2.toolCall.name) (p.2.callId.getD "") p.2.toolCall.name).get? q.2.toolCall.id =
              st.toolNames.get? q.2.toolCall.id := by
        split
        · rfl
        · rw [get?_setTruthy, get?_setTruthy, Dict.get?_set, if_neg, if_neg, if_neg]
          · exact id_not_mem W hp hq same (id_mem_idents W hp none)
          · exact fun h => id_not_mem W hp hq same (mem_names.mpr ⟨h.2, .inr rfl⟩) h.1
          · exact fun h => id_not_mem W hp hq same (mem_names.mpr ⟨h.2, .inl rfl⟩) h.1
      rw [stays]
      refine ⟨(K.functions q hq).1, fun header => (K.functions q hq).2 (header_of_snoc header fun is => ?_)⟩
      have ownQ : (ResponseEvent.itemAdded index (.functionCall c)).ofCall q = true := by
        rw [ResponseEvent.ofCall, is, Bool.true_or]
      exact same (owner_unique W hp hq own' ownQ)

variable {ids : EventIds}

/-- What a fragment says about its call. -/
inductive Fragment (ids : EventIds) : ResponseEvent → Prop where
  | delta (delta : String) : Fragment ids (.argumentsDelta ids delta)
  | done (arguments : Option String) : Fragment ids (.argumentsDone ids arguments)

/-- What a fragment is known by. -/
lemma Fragment.idents (F : Fragment ids e) : e.idents = identsOf ids.callId ids.itemId ids.outputIndex := by
  cases F with
  | _ => rfl

/-- A fragment is no header. -/
lemma Fragment.isHeader (F : Fragment ids e) (q : PlacedCall) : e.isHeader q = false := by
  cases F with
  | _ => rfl

/-- A fragment finds its call. -/
lemma Knows.canon (K : Knows output before st) (W : WellStreamed output events) (hp : p ∈ calls output)
    (F : Fragment ids e) (own : e.ofCall p = true) (resolvable : Resolvable p before e) :
    st.canonId ids = p.2.toolCall.id := by
  have ofP := (idents_ofCall W hp own).2
  rw [F.idents] at ofP
  have named : ∀ n, n = ids.callId ∨ n = ids.itemId →
      st.idToCanonical.get? n = none ∨ st.idToCanonical.get? n = some p.2.toolCall.id := by
    intro n known
    cases found : st.idToCanonical.get? n with
    | none => exact .inl rfl
    | some c =>
      obtain ⟨q, hq, rfl, e', -, ownQ, carried⟩ := (K.names n c).mp found
      have ofQ := (idents_ofCall W hq ownQ).2 _ carried
      have mine := ofP (.name n) (mem_names.mpr ⟨(mem_names.mp ofQ).1, known⟩)
      rw [eq_of_ident W hp hq mine ofQ]
      exact .inr rfl
  have ext : ids.extId = ids.callId ∨ ids.extId = ids.itemId := by
    rw [EventIds.extId]
    split
    · exact .inr rfl
    · exact .inl rfl
  have indexed : ids.outputIndex.bind st.indexToCanonical.get? = none ∨
      ids.outputIndex.bind st.indexToCanonical.get? = some p.2.toolCall.id := by
    cases found : ids.outputIndex.bind st.indexToCanonical.get? with
    | none => exact .inl rfl
    | some c =>
      obtain ⟨i, place, known⟩ := Option.bind_eq_some_iff.mp found
      obtain ⟨q, hq, rfl, e', -, ownQ, carried⟩ := (K.indexes i c).mp known
      have mine := ofP (.index i) (mem_indexes.mpr place)
      rw [eq_of_ident W hp hq mine ((idents_ofCall W hq ownQ).2 _ carried)]
      exact .inr rfl
  refine firstTruthy_found [_, _, _, _] (W.named p hp).2 (fun o mem => ?_) ?_
  · simp only [List.mem_cons, List.not_mem_nil, or_false] at mem
    obtain rfl | rfl | rfl | rfl := mem
    · exact named _ (.inl rfl)
    · exact named _ (.inr rfl)
    · exact named _ ext
    · exact indexed
  · -- the identifier that was carried before is looked up
    obtain ⟨e', mem, own', x, hx, carried⟩ := resolvable
    rw [F.idents] at hx
    simp only [List.mem_cons, List.not_mem_nil, or_false]
    cases x with
    | name n =>
      have found : st.idToCanonical.get? n = some p.2.toolCall.id :=
        (K.names n _).mpr ⟨p, hp, rfl, e', mem, own', carried⟩
      cases (mem_names.mp hx).2 with
      | inl known => exact .inl (known ▸ found.symm)
      | inr known => exact .inr (.inl (known ▸ found.symm))
    | index i =>
      have found : st.indexToCanonical.get? i = some p.2.toolCall.id :=
        (K.indexes i _).mpr ⟨p, hp, rfl, e', mem, own', carried⟩
      rw [mem_indexes.mp hx]
      exact .inr (.inr (.inr found.symm))

/-- A fragment makes its identifiers known. -/
lemma Knows.learn (K : Knows output before st) (W : WellStreamed output events) (hp : p ∈ calls output)
    (F : Fragment ids e) (own : e.ofCall p = true) :
    Knows output (before ++ [e]) (st.learn ids p.2.toolCall.id) := by
  rw [ResponsesStream.learn, if_neg (W.named p hp).2]
  refine K.call W hp own (fun n => ?_) (fun i => ?_) fun q hq => ⟨(K.functions q hq).1, fun header => ?_⟩
  · simp only [get?_setTruthy, F.idents, mem_names]
    by_cases carried : n ≠ "" ∧ (n = ids.callId ∨ n = ids.itemId)
    · rw [if_pos carried]
      obtain ⟨truthy, known⟩ := carried
      split
      · rfl
      · split
        · rfl
        next other =>
          have call : n = ids.callId := known.resolve_right fun item => other ⟨item, item ▸ truthy⟩
          rw [if_pos ⟨call, call ▸ truthy⟩]
    · have call : ¬ (n = ids.callId ∧ ids.callId ≠ "") := fun h => carried ⟨h.1 ▸ h.2, .inl h.1⟩
      have item : ¬ (n = ids.itemId ∧ ids.itemId ≠ "") := fun h => carried ⟨h.1 ▸ h.2, .inr h.1⟩
      have ext : ¬ (n = ids.extId ∧ ids.extId ≠ "") := by
        rw [EventIds.extId]
        split
        · exact item
        · exact call
      rw [if_neg carried, if_neg ext, if_neg item, if_neg call]
  · simp only [get?_setIndex, F.idents, mem_indexes]
  · exact (K.functions q hq).2 (header_of_snoc header fun is => Bool.false_ne_true ((F.isHeader q).symm.trans is))

/-- The header of a call stands before its fragments. -/
lemma header_before {after : List ResponseEvent} (W : WellStreamed output events) (split : events = before ++ e :: after)
    (hp : p ∈ calls output) (resolvable : Resolvable p before e) : ∃ e' ∈ before, e'.isHeader p = true := by
  obtain ⟨index, item, pieces, last, shape, -⟩ := (W.streams p hp).parts
  obtain ⟨e', mem, own, -⟩ := resolvable
  rw [split, List.filter_append] at shape
  cases front : before.filter (ResponseEvent.ofCall p) with
  | nil =>
    have here : e' ∈ before.filter (ResponseEvent.ofCall p) := List.mem_filter.mpr ⟨mem, own⟩
    rw [front] at here
    cases here
  | cons h rest =>
    rw [front] at shape
    obtain ⟨rfl, -⟩ := List.cons.inj shape
    have here : ResponseEvent.itemAdded index item ∈ before.filter (ResponseEvent.ofCall p) :=
      front ▸ List.mem_cons_self
    obtain ⟨mem', own'⟩ := List.mem_filter.mp here
    exact ⟨_, mem', (Bool.or_false _).symm.trans own'⟩

/-- The name of a call, at its fragments. -/
lemma Knows.fnName (K : Knows output before st) (hp : p ∈ calls output) (own : ids.ofCall p = true)
    (header : ∃ e' ∈ before, e'.isHeader p = true) : st.fnName ids p.2.toolCall.id = p.2.toolCall.name := by
  rw [ResponsesStream.fnName]
  split
  · exact (K.functions p hp).2 header
  next inline =>
    simp only [EventIds.ofCall, Bool.and_eq_true, Bool.or_eq_true, decide_eq_true_eq] at own
    have named := own.1.2.resolve_left inline
    rw [FunctionItem.toolCall, ← named]
    rfl

/-- A call with a name has it kept. -/
lemma Knows.keepName (K : Knows output before st) (hp : p ∈ calls output)
    (header : ∃ e' ∈ before, e'.isHeader p = true) : st.keepName p.2.toolCall.id p.2.toolCall.name = st := by
  refine if_neg fun h => h.2.2 ?_
  have value := (K.functions p hp).2 header
  cases found : st.toolNames.get? p.2.toolCall.id with
  | none =>
    rw [found] at value
    exact absurd value.symm h.1
  | some name => exact Dict.mem_keys.mpr ⟨name, found⟩

/-! ## The calls of the assembler -/

/-- The call of a fragment. -/
def fragmentCall (output : List OutputItem) (e : ResponseEvent) : Option PlacedCall :=
  (calls output).find? fun p => e.isFragment p

/-- The calls in the order of their first fragments. -/
def firstFragments (output : List OutputItem) (events : List ResponseEvent) : List PlacedCall :=
  firsts (sameKey Prod.fst) (events.filterMap (fragmentCall output))

/-- What a fragment adds to the arguments, and whether deltas have come. -/
def argumentStep : Bool × String → ResponseEvent → Bool × String
  | (_, text), .argumentsDelta _ delta => (true, text ++ delta)
  | (had, text), .argumentsDone _ arguments => (had, if had then text else text ++ arguments.getD "\x7b\x7d")
  | at_, _ => at_

def argumentState (p : PlacedCall) (before : List ResponseEvent) : Bool × String :=
  (before.filter (ResponseEvent.ofCall p)).foldl argumentStep (false, "")

/-- A call as the assembler holds it. -/
def heldCall (before : List ResponseEvent) (p : PlacedCall) : CallBuffer where
  id := p.2.toolCall.id
  name := p.2.toolCall.name
  arguments := (argumentState p before).2

/-- The calls are numbered in the order of their first fragments, and hold what has come. -/
structure Buffers (output : List OutputItem) (before : List ResponseEvent) (st : ResponsesStream)
    (buffer : Dict Int CallBuffer) : Prop where
  numbers : Numbers st.toolCallMap ((firstFragments output before).map fun p => p.2.toolCall.id)
  current : st.currentToolCallIndex = ((firstFragments output before).length : Int) - 1
  had : ∀ p ∈ calls output, p.2.toolCall.id ∈ st.toolHadDeltas ↔ (argumentState p before).1 = true
  filled : Filled buffer ((firstFragments output before).map (heldCall before))

/-- One more event. -/
lemma argumentState_snoc (p : PlacedCall) (before : List ResponseEvent) (e : ResponseEvent) :
    argumentState p (before ++ [e]) =
      if e.ofCall p then argumentStep (argumentState p before) e else argumentState p before := by
  rw [argumentState, List.filter_append, List.foldl_append]
  split
  next own => rw [List.filter_cons_of_pos own]; rfl
  next other => rw [List.filter_cons_of_neg other]; rfl

/-- Fragments are of calls. -/
lemma mem_calls_of_fragments (mem : p ∈ firstFragments output before) : p ∈ calls output := by
  obtain ⟨e, -, found⟩ := List.mem_filterMap.mp ((firsts_sublist _).subset mem)
  exact List.mem_of_find?_eq_some found

/-- A fragment is of its call. -/
lemma ofCall_of_fragment (frag : e.isFragment p = true) : e.ofCall p = true := by
  rw [ResponseEvent.ofCall, frag, Bool.or_true]

/-- A fragment finds its call. -/
lemma fragmentCall_eq (W : WellStreamed output events) (hp : p ∈ calls output) (frag : e.isFragment p = true) :
    fragmentCall output e = some p := by
  cases found : fragmentCall output e with
  | none => exact absurd frag (List.find?_eq_none.mp found p hp)
  | some q =>
    have frag' : e.isFragment q = true := List.find?_some (p := fun q => e.isFragment q) found
    have own := ofCall_of_fragment frag'
    rw [owner_unique W (List.mem_of_find?_eq_some found) hp own (ofCall_of_fragment frag)]

/-- An event that is no fragment leaves the order of the calls. -/
lemma firstFragments_silent (before : List ResponseEvent) (none : ∀ p ∈ calls output, e.isFragment p = false) :
    firstFragments output (before ++ [e]) = firstFragments output before := by
  have absent : fragmentCall output e = Option.none :=
    List.find?_eq_none.mpr fun p hp => Bool.eq_false_iff.mp (none p hp)
  rw [firstFragments, List.filterMap_append, List.filterMap_cons_none absent, List.filterMap_nil, List.append_nil]
  rfl

/-- A fragment puts its call at the end, unless the call is there. -/
lemma firstFragments_snoc (before : List ResponseEvent) (W : WellStreamed output events) (hp : p ∈ calls output) (frag : e.isFragment p = true) :
    firstFragments output (before ++ [e]) = joinNew (sameKey Prod.fst) (firstFragments output before) p := by
  rw [firstFragments, List.filterMap_append, List.filterMap_cons_some (fragmentCall_eq W hp frag), List.filterMap_nil,
    firsts_snoc]
  rfl

/-- Without fragments nothing has come. -/
lemma argumentState_of_not_mem (W : WellStreamed output events) (hp : p ∈ calls output)
    (new : p.1 ∉ (firstFragments output before).map Prod.fst) : argumentState p before = (false, "") := by
  have headers : ∀ e ∈ before, e.ofCall p = true → e.isFragment p = false := by
    intro e mem own
    by_contra frag
    have found := fragmentCall_eq W hp (Bool.eq_true_of_not_eq_false frag)
    have fragments : p ∈ before.filterMap (fragmentCall output) := List.mem_filterMap.mpr ⟨e, mem, found⟩
    exact new (mem_firsts fragments)
  have quiet : ∀ own : List ResponseEvent, (∀ e ∈ own, e.ofCall p = true ∧ e.isFragment p = false) →
      own.foldl argumentStep (false, "") = (false, "") := by
    intro own all
    induction own with
    | nil => rfl
    | cons e own ih =>
      obtain ⟨own', frag⟩ := all e List.mem_cons_self
      have same : argumentStep (false, "") e = (false, "") := by
        cases e with
        | argumentsDelta ids delta =>
          rw [ResponseEvent.ofCall, frag] at own'
          cases own'
        | argumentsDone ids arguments =>
          rw [ResponseEvent.ofCall, frag] at own'
          cases own'
        | _ => rfl
      rw [List.foldl_cons, same]
      exact ih fun e mem => all e (List.mem_cons_of_mem _ mem)
  refine quiet _ fun e mem => ?_
  obtain ⟨mem, own⟩ := List.mem_filter.mp mem
  exact ⟨own, headers e mem own⟩

/-- Calls are told by id. -/
lemma id_injective (W : WellStreamed output events) (hp : p ∈ calls output) (hq : q ∈ calls output)
    (same : p.2.toolCall.id = q.2.toolCall.id) : p = q :=
  eq_of_ident W hp hq (id_mem_idents W hp (some p.1)) (same ▸ id_mem_idents W hq (some q.1))

/-- Each call comes once. -/
lemma firstFragments_nodup (output : List OutputItem) (before : List ResponseEvent) :
    (firstFragments output before).Nodup := (firsts_distinct _).of_map

/-- An event that is no fragment leaves the calls. -/
lemma Buffers.silent {st' : ResponsesStream} {buffer : Dict Int CallBuffer} (B : Buffers output before st buffer)
    (none : ∀ p ∈ calls output, e.isFragment p = false) (arguments : ∀ at_, argumentStep at_ e = at_)
    (map : st'.toolCallMap = st.toolCallMap) (current : st'.currentToolCallIndex = st.currentToolCallIndex)
    (had : st'.toolHadDeltas = st.toolHadDeltas) : Buffers output (before ++ [e]) st' buffer := by
  have order := firstFragments_silent before none
  have state : ∀ p, argumentState p (before ++ [e]) = argumentState p before := by
    intro p
    rw [argumentState_snoc, arguments, ite_self]
  have held : heldCall (before ++ [e]) = heldCall before := by
    funext p
    rw [heldCall, heldCall, state]
  refine ⟨?_, ?_, fun p hp => ?_, ?_⟩
  · rw [map, order]
    exact B.numbers
  · rw [current, order]
    exact B.current
  · rw [had, state]
    exact B.had p hp
  · rw [order, held]
    exact B.filled

/-- A call that is extended. -/
lemma extend_callDelta {buf : CallBuffer} {index : Option Int} {id name arguments : Option String}
    (named : buf.id ≠ "") : buf.extend (callDelta index id name arguments) =
      { buf with
        name := if buf.name = "" then name.getD "" else buf.name
        arguments := buf.arguments ++ arguments.getD "" } := by
  rw [CallBuffer.extend, if_neg named]
  rfl

/-- A slot that opens. -/
lemma bufferCall_open {buffer : Dict Int CallBuffer} {i : Int} {id name arguments : Option String}
    (free : buffer.get? i = none) : bufferCall buffer (callDelta (some i) id name arguments) =
      buffer.set i { id := id.getD "", name := name.getD "", arguments := arguments.getD "" } := by
  rw [bufferCall]
  simp only [callDelta, Option.getD_some, free]
  rfl

/-- A slot that is extended. -/
lemma bufferCall_extend {buffer : Dict Int CallBuffer} {buf : CallBuffer} {i : Int} {id name arguments : Option String}
    (found : buffer.get? i = some buf) : bufferCall buffer (callDelta (some i) id name arguments) =
      buffer.set i (buf.extend (callDelta (some i) id name arguments)) := by
  rw [bufferCall]
  simp only [callDelta, Option.getD_some, found]

/-- A fragment numbers its call and adds to its arguments. -/
lemma Buffers.fragment {st' : ResponsesStream} {buffer : Dict Int CallBuffer} {name arguments : Option String}
    (B : Buffers output before st buffer) (W : WellStreamed output events) (hp : p ∈ calls output)
    (frag : e.isFragment p = true)
    (map : st'.toolCallMap = (st.number p.2.toolCall.id).toolCallMap)
    (current : st'.currentToolCallIndex = (st.number p.2.toolCall.id).currentToolCallIndex)
    (had : ∀ q ∈ calls output, q.2.toolCall.id ∈ st'.toolHadDeltas ↔ (argumentState q (before ++ [e])).1 = true)
    (first : p.2.toolCall.id ∉ st.toolCallMap.keys → name.getD "" = p.2.toolCall.name)
    (unnamed : p.2.toolCall.name = "" → name.getD "" = "")
    (more : (argumentState p (before ++ [e])).2 = (argumentState p before).2 ++ arguments.getD "") :
    Buffers output (before ++ [e]) st'
      (bufferCall buffer
        (callDelta (st'.toolCallMap.get? p.2.toolCall.id) (some p.2.toolCall.id) name arguments)) := by
  have order' := firstFragments_snoc before W hp frag
  have others : ∀ q ∈ firstFragments output before, q ≠ p → heldCall (before ++ [e]) q = heldCall before q := by
    intro q mem ne
    have notOwn : ¬ e.ofCall q = true := fun own =>
      ne (owner_unique W (mem_calls_of_fragments mem) hp own (ofCall_of_fragment frag))
    rw [heldCall, argumentState_snoc, if_neg notOwn, heldCall]
  by_cases new : p.1 ∈ (firstFragments output before).map Prod.fst
  · -- the call has a number
    rw [joinNew_of_mem new] at order'
    obtain ⟨p', mem, same⟩ := List.mem_map.mp new
    obtain rfl : p' = p := List.inj_on_of_nodup_map (places_distinct output) (mem_calls_of_fragments mem) hp same
    obtain ⟨i, lt, place⟩ := List.mem_iff_getElem.mp mem
    have known : st.toolCallMap.get? p'.2.toolCall.id = some (i : Int) :=
      B.numbers.known (by rw [List.getElem?_map, List.getElem?_eq_getElem lt, place]; rfl)
    have same : st.number p'.2.toolCall.id = st := by rw [ResponsesStream.number, known]
    rw [same] at map current
    have found : buffer.get? (i : Int) = some (heldCall before p') := by
      rw [B.filled.get?_eq, List.getElem?_map, List.getElem?_eq_getElem lt, place]
      rfl
    have extended : (heldCall before p').extend (callDelta (some (i : Int)) (some p'.2.toolCall.id) name arguments) =
        heldCall (before ++ [e]) p' := by
      have named : (heldCall before p').id ≠ "" := (W.named p' hp).2
      rw [extend_callDelta named, heldCall, heldCall, more]
      congr 1
      split
      next none => exact (unnamed none).trans none.symm
      next => rfl
    refine ⟨?_, ?_, had, ?_⟩
    · rw [map, order']
      exact B.numbers
    · rw [current, order']
      exact B.current
    · rw [map, known, bufferCall_extend found, extended, order']
      have values : ((firstFragments output before).map (heldCall before)).set i (heldCall (before ++ [e]) p') =
          (firstFragments output before).map (heldCall (before ++ [e])) := by
        refine List.ext_getElem (by simp) fun j hj _ => ?_
        rw [List.getElem_set, List.getElem_map, List.getElem_map]
        split
        next here => subst here; rw [place]
        next elsewhere =>
          refine (others _ (List.getElem_mem _) fun same => elsewhere ?_).symm
          rw [List.length_set, List.length_map] at hj
          exact (List.getElem_inj (firstFragments_nodup output before)).mp (place.trans same.symm)
      rw [← values]
      exact B.filled.set (by rw [List.length_map]; exact lt) _
  · rw [joinNew_of_not_mem new] at order'
    have fresh : p.2.toolCall.id ∉ (firstFragments output before).map fun q => q.2.toolCall.id := by
      intro mem
      obtain ⟨q, hq, same⟩ := List.mem_map.mp mem
      rw [id_injective W (mem_calls_of_fragments hq) hp same] at hq
      exact new (List.mem_map_of_mem hq)
    have unknown := B.numbers.unknown fresh
    have count : st.currentToolCallIndex + 1 = ((firstFragments output before).length : Int) := by
      rw [B.current]
      omega
    have map' : st'.toolCallMap = st.toolCallMap.set p.2.toolCall.id (firstFragments output before).length := by
      rw [map, ResponsesStream.number, unknown, ← count]
    have current' : st'.currentToolCallIndex = (firstFragments output before).length := by
      rw [current, ResponsesStream.number, unknown, ← count]
    have opened : ({ id := p.2.toolCall.id, name := name.getD "", arguments := arguments.getD "" } : CallBuffer) =
        heldCall (before ++ [e]) p := by
      rw [argumentState_of_not_mem W hp new] at more
      have whole : "" ++ arguments.getD "" = arguments.getD "" := String.empty_append
      rw [heldCall, more, whole, first (Dict.get?_eq_none.mp unknown)]
    refine ⟨?_, ?_, had, ?_⟩
    · rw [map', order', List.map_append]
      have next := B.numbers.snoc fresh
      rw [List.length_map] at next
      exact next
    · rw [current', order', List.length_append, List.length_singleton]
      omega
    · have place : st'.toolCallMap.get? p.2.toolCall.id = some ((firstFragments output before).length : Int) := by
        rw [map', Dict.get?_set, if_pos rfl]
      have free : buffer.get? ((firstFragments output before).length : Int) = none := by
        rw [B.filled.get?_eq]
        exact List.getElem?_eq_none (by rw [List.length_map])
      rw [place, bufferCall_open free, Option.getD_some, opened, order', List.map_append]
      have old : (firstFragments output before).map (heldCall (before ++ [e])) =
          (firstFragments output before).map (heldCall before) := by
        refine List.map_congr_left fun q mem => others q mem fun same => ?_
        rw [same] at mem
        exact new (List.mem_map_of_mem mem)
      have next := B.filled.snoc (heldCall (before ++ [e]) p)
      rw [List.length_map] at next
      rw [old]
      exact next

/-! ## The run -/

/-- The separators are put before every part but the first. -/
def reasoningStep : Nat × String → Option String → Nat × String
  | (seen, text), none => (seen + 1, if seen + 1 > 1 then text ++ "\n\n" else text)
  | (seen, text), some delta => (seen, text ++ delta)

/-- The state of the stream and of the assembler behind some events. -/
structure Tracked (output : List OutputItem) (before : List ResponseEvent) (st : ResponsesStream) (s : Assembly) :
    Prop where
  knows : Knows output before st
  buffers : Buffers output before st s.buffer
  content : s.fullContent = String.join (before.filterMap ResponseEvent.text)
  reasoning : (st.reasoningPartsSeen, s.reasoning) =
    (before.filterMap ResponseEvent.reasoning).foldl reasoningStep (0, "")
  items : s.reasoningItems = before.filterMap ResponseEvent.encrypted

/-- One more at the end. -/
lemma filterMap_snoc {α β : Type*} (f : α → Option β) (l : List α) (a : α) :
    (l ++ [a]).filterMap f = l.filterMap f ++ (f a).toList := by
  rw [List.filterMap_append]
  cases e : f a with
  | none => rw [List.filterMap_cons_none e, List.filterMap_nil, Option.toList_none]
  | some b => rw [List.filterMap_cons_some e, List.filterMap_nil, Option.toList_some]

/-- Numbering keeps the rest. -/
lemma number_fields (st : ResponsesStream) (id : String) :
    (st.number id).idToCanonical = st.idToCanonical ∧ (st.number id).indexToCanonical = st.indexToCanonical ∧
      (st.number id).toolNames = st.toolNames ∧ (st.number id).toolHadDeltas = st.toolHadDeltas ∧
      (st.number id).reasoningPartsSeen = st.reasoningPartsSeen := by
  rw [ResponsesStream.number]
  split
  · exact ⟨rfl, rfl, rfl, rfl, rfl⟩
  · exact ⟨rfl, rfl, rfl, rfl, rfl⟩

/-- Learning keeps the rest. -/
lemma learn_fields (st : ResponsesStream) (ids : EventIds) (id : String) :
    (st.learn ids id).toolCallMap = st.toolCallMap ∧
      (st.learn ids id).currentToolCallIndex = st.currentToolCallIndex ∧
      (st.learn ids id).toolHadDeltas = st.toolHadDeltas ∧
      (st.learn ids id).reasoningPartsSeen = st.reasoningPartsSeen := by
  rw [ResponsesStream.learn]
  split
  · exact ⟨rfl, rfl, rfl, rfl⟩
  · exact ⟨rfl, rfl, rfl, rfl⟩

/-- A name keeps the parts seen. -/
lemma keepName_seen (st : ResponsesStream) (id name : String) :
    (st.keepName id name).reasoningPartsSeen = st.reasoningPartsSeen := by
  rw [ResponsesStream.keepName]
  split
  · rfl
  · rfl

/-- Numbering keeps what is known. -/
lemma Knows.number (K : Knows output before st) (id : String) : Knows output before (st.number id) := by
  obtain ⟨names, indexes, functions, -, -⟩ := number_fields st id
  refine ⟨?_, ?_, ?_⟩
  · rw [names]
    exact K.names
  · rw [indexes]
    exact K.indexes
  · rw [functions]
    exact K.functions

/-- Learning keeps the buffers. -/
lemma Buffers.learn {buffer : Dict Int CallBuffer} (B : Buffers output before st buffer) (ids : EventIds) (id : String) :
    Buffers output before (st.learn ids id) buffer := by
  obtain ⟨map, current, had, -⟩ := learn_fields st ids id
  refine ⟨?_, ?_, ?_, B.filled⟩
  · rw [map]
    exact B.numbers
  · rw [current]
    exact B.current
  · rw [had]
    exact B.had

/-- The arguments of the other calls stay. -/
lemma argumentState_other (W : WellStreamed output events) (hp : p ∈ calls output) (hq : q ∈ calls output) (ne : q ≠ p)
    (own : e.ofCall p = true) : argumentState q (before ++ [e]) = argumentState q before := by
  rw [argumentState_snoc, if_neg fun own' => ne (owner_unique W hq hp own' own)]

/-- A delta of the arguments. -/
lemma Tracked.argumentsDelta {after : List ResponseEvent} {delta : String} (F : Tracked output before st s)
    (W : WellStreamed output events) (split : events = before ++ .argumentsDelta ids delta :: after) :
    Knows output (before ++ [.argumentsDelta ids delta]) (st.argumentsDelta ids delta).1 ∧
      Buffers output (before ++ [.argumentsDelta ids delta]) (st.argumentsDelta ids delta).1
        ((st.argumentsDelta ids delta).2.foldl Assembly.step s).buffer := by
  obtain ⟨p, hp, own, resolves⟩ := W.owned _ _ _ split rfl
  have fragment : Fragment ids (.argumentsDelta ids delta) := .delta delta
  have frag : (ResponseEvent.argumentsDelta ids delta).isFragment p = true := own
  have resolvable := resolves frag
  obtain ⟨e', mem, is⟩ := header_before W split hp resolvable
  have header : ∃ e' ∈ before ++ [.argumentsDelta ids delta], e'.isHeader p = true :=
    ⟨e', List.mem_append_left _ mem, is⟩
  have K := (F.knows.learn W hp fragment own).number p.2.toolCall.id
  have B := F.buffers.learn ids p.2.toolCall.id
  have canon := F.knows.canon W hp fragment own resolvable
  have truthy := (W.named p hp).2
  have some_id : orNone p.2.toolCall.id = some p.2.toolCall.id := if_neg truthy
  simp only [ResponsesStream.argumentsDelta, canon, K.fnName hp own header, K.keepName hp header, some_id]
  refine ⟨⟨K.names, K.indexes, K.functions⟩, B.fragment W hp frag rfl rfl (fun q hq => ?_) (fun new => ?_)
    (fun none => ?_) ?_⟩
  · by_cases same : q = p
    · subst same
      rw [argumentState_snoc, if_pos own]
      exact iff_of_true List.mem_cons_self rfl
    · rw [argumentState_other W hp hq same own, ← B.had q hq, (number_fields _ _).2.2.2.1, List.mem_cons]
      exact or_iff_right fun e => same (id_injective W hq hp e)
  · by_cases none : p.2.toolCall.name = ""
    · rw [if_neg fun h => h.2 none, none]
      rfl
    · rw [if_pos ⟨new, none⟩]
      rfl
  · rw [if_neg fun h => h.2 none]
    rfl
  · rw [argumentState_snoc, if_pos own]
    rfl

/-- The arguments of a call, once they are whole. -/
lemma Tracked.argumentsDone {after : List ResponseEvent} {arguments : Option String} (F : Tracked output before st s)
    (W : WellStreamed output events) (split : events = before ++ .argumentsDone ids arguments :: after) :
    Knows output (before ++ [.argumentsDone ids arguments]) (st.argumentsDone ids arguments).1 ∧
      Buffers output (before ++ [.argumentsDone ids arguments]) (st.argumentsDone ids arguments).1
        ((st.argumentsDone ids arguments).2.foldl Assembly.step s).buffer := by
  obtain ⟨p, hp, own, resolves⟩ := W.owned _ _ _ split rfl
  have fragment : Fragment ids (.argumentsDone ids arguments) := .done arguments
  have frag : (ResponseEvent.argumentsDone ids arguments).isFragment p = true := own
  have resolvable := resolves frag
  obtain ⟨e', mem, is⟩ := header_before W split hp resolvable
  have header : ∃ e' ∈ before ++ [.argumentsDone ids arguments], e'.isHeader p = true :=
    ⟨e', List.mem_append_left _ mem, is⟩
  have K := F.knows.learn W hp fragment own
  have K' := K.number p.2.toolCall.id
  have B := F.buffers.learn ids p.2.toolCall.id
  have canon := F.knows.canon W hp fragment own resolvable
  have had := B.had p hp
  have hadN := (number_fields (st.learn ids p.2.toolCall.id) p.2.toolCall.id).2.2.2.1
  simp only [ResponsesStream.argumentsDone, canon, K.fnName hp own header, K'.keepName hp header]
  refine ⟨K', B.fragment W hp frag rfl rfl (fun q hq => ?_) (fun _ => rfl) (fun none => none) ?_⟩
  · rw [hadN, B.had q hq]
    by_cases same : q = p
    · subst same
      rw [argumentState_snoc, if_pos own]
      rfl
    · rw [argumentState_other W hp hq same own]
  · rw [argumentState_snoc, if_pos own, hadN, argumentStep]
    split
    next h =>
      rw [if_neg fun fresh => fresh (had.mpr h)]
      exact String.append_empty.symm
    next h => rw [if_pos fun mem => h (had.mp mem)]; rfl

/-- An event of no call leaves the calls. -/
lemma Tracked.silent {st' : ResponsesStream} {s' : Assembly} (F : Tracked output before st s)
    (other : e.isCall = false) (kept : ∃ n, st' = { st with reasoningPartsSeen := n })
    (buffer : s'.buffer = s.buffer) : Knows output (before ++ [e]) st' ∧ Buffers output (before ++ [e]) st' s'.buffer := by
  have none : ∀ p, e.ofCall p = false := by
    intro p
    cases e with
    | itemAdded index item =>
      cases item with
      | functionCall c => cases other
      | _ => rfl
    | argumentsDelta ids delta => cases other
    | argumentsDone ids arguments => cases other
    | _ => rfl
  have still : ∀ at_, argumentStep at_ e = at_ := by
    intro at_
    cases e with
    | argumentsDelta ids delta => cases other
    | argumentsDone ids arguments => cases other
    | _ => rfl
  obtain ⟨n, rfl⟩ := kept
  rw [buffer]
  exact ⟨F.knows.silent none rfl rfl rfl,
    F.buffers.silent (fun p _ => (Bool.or_eq_false_iff.mp (none p)).2) still rfl rfl rfl⟩

/-- Arguments keep the parts seen. -/
lemma argumentsDelta_seen (st : ResponsesStream) (ids : EventIds) (delta : String) :
    (st.argumentsDelta ids delta).1.reasoningPartsSeen = st.reasoningPartsSeen := by
  simp only [ResponsesStream.argumentsDelta, keepName_seen]
  exact (number_fields _ _).2.2.2.2.trans (learn_fields st ids _).2.2.2

/-- Arguments keep the parts seen. -/
lemma argumentsDone_seen (st : ResponsesStream) (ids : EventIds) (arguments : Option String) :
    (st.argumentsDone ids arguments).1.reasoningPartsSeen = st.reasoningPartsSeen := by
  simp only [ResponsesStream.argumentsDone, keepName_seen]
  exact (number_fields _ _).2.2.2.2.trans (learn_fields st ids _).2.2.2

/-- What an event adds to the texts. -/
lemma event_texts {r : ResponsesStream × List StreamItem} (h : st.event e = some r) (s : Assembly) :
    (r.2.foldl Assembly.step s).fullContent = s.fullContent ++ e.text.getD "" ∧
      (r.1.reasoningPartsSeen, (r.2.foldl Assembly.step s).reasoning) =
        e.reasoning.toList.foldl reasoningStep (st.reasoningPartsSeen, s.reasoning) ∧
      (r.2.foldl Assembly.step s).reasoningItems = s.reasoningItems ++ e.encrypted.toList := by
  have still : s.fullContent = s.fullContent ++ "" ∧ s.reasoningItems = s.reasoningItems ++ [] :=
    ⟨String.append_empty.symm, (List.append_nil _).symm⟩
  cases e with
  | itemAdded index item =>
    cases item with
    | _ =>
      cases h
      exact ⟨still.1, rfl, still.2⟩
  | itemDone item =>
    cases h
    rw [ResponseEvent.encrypted]
    cases item.encrypted with
    | none => exact ⟨still.1, rfl, still.2⟩
    | some item => exact ⟨rfl, congrArg (Prod.mk _) String.append_empty, rfl⟩
  | summaryPartAdded =>
    cases h
    simp only [ResponseEvent.reasoning, Option.toList_some, List.foldl_cons, List.foldl_nil, reasoningStep]
    split
    next => exact ⟨rfl, rfl, rfl⟩
    next => exact ⟨still.1, rfl, still.2⟩
  | reasoningDelta delta =>
    cases h
    simp only [ResponseEvent.reasoning, Option.toList_some, List.foldl_cons, List.foldl_nil, reasoningStep]
    split
    next none => exact ⟨still.1, by rw [none, String.append_empty]; rfl, still.2⟩
    next => exact ⟨rfl, rfl, rfl⟩
  | textDelta delta =>
    cases h
    simp only [ResponseEvent.text, Option.getD_some]
    split
    next none => exact ⟨by rw [none]; exact still.1, rfl, still.2⟩
    next => exact ⟨rfl, congrArg (Prod.mk _) String.append_empty, rfl⟩
  | failed => cases h
  | argumentsDelta ids delta =>
    cases h
    refine ⟨rfl, ?_, rfl⟩
    rw [argumentsDelta_seen]
    exact congrArg (Prod.mk _) String.append_empty
  | argumentsDone ids arguments =>
    cases h
    refine ⟨rfl, ?_, rfl⟩
    rw [argumentsDone_seen]
    exact congrArg (Prod.mk _) String.append_empty
  | textDone =>
    cases h
    exact ⟨rfl, congrArg (Prod.mk _) String.append_empty, rfl⟩
  | completed usage =>
    cases usage with
    | _ =>
      cases h
      exact ⟨still.1, rfl, still.2⟩
  | other =>
    cases h
    exact ⟨still.1, rfl, still.2⟩

/-- One more event is tracked. -/
lemma Tracked.event {after : List ResponseEvent} (F : Tracked output before st s) (W : WellStreamed output events)
    (split : events = before ++ e :: after) :
    ∃ r, st.event e = some r ∧ Tracked output (before ++ [e]) r.1 (r.2.foldl Assembly.step s) := by
  have succeeds : ∃ r, st.event e = some r := by
    cases e with
    | failed => exact absurd (split ▸ List.mem_append_right _ List.mem_cons_self) W.succeeds
    | itemAdded index item =>
      cases item with
      | _ => exact ⟨_, rfl⟩
    | _ => exact ⟨_, rfl⟩
  obtain ⟨r, h⟩ := succeeds
  obtain ⟨content, reasoning, items⟩ := event_texts h s
  have held : Knows output (before ++ [e]) r.1 ∧
      Buffers output (before ++ [e]) r.1 (r.2.foldl Assembly.step s).buffer := by
    cases e with
    | itemAdded index item =>
      cases item with
      | functionCall c =>
        cases h
        obtain ⟨p, hp, own, -⟩ := W.owned _ _ _ split rfl
        have is : (ResponseEvent.itemAdded index (.functionCall c)).isHeader p = true :=
          (Bool.or_false _).symm.trans own
        exact ⟨F.knows.header W hp is, F.buffers.silent (fun _ _ => rfl) (fun _ => rfl) rfl rfl rfl⟩
      | _ =>
        cases h
        exact F.silent rfl ⟨_, rfl⟩ rfl
    | itemDone item =>
      cases h
      refine F.silent rfl ⟨_, rfl⟩ ?_
      cases item.encrypted with
      | _ => rfl
    | summaryPartAdded =>
      cases h
      refine F.silent rfl ⟨_, rfl⟩ ?_
      dsimp only
      split
      · rfl
      · rfl
    | reasoningDelta delta =>
      cases h
      refine F.silent rfl ⟨_, rfl⟩ ?_
      dsimp only
      split
      · rfl
      · rfl
    | textDelta delta =>
      cases h
      refine F.silent rfl ⟨_, rfl⟩ ?_
      dsimp only
      split
      · rfl
      · rfl
    | failed => cases h
    | argumentsDelta ids delta =>
      cases h
      exact F.argumentsDelta W split
    | argumentsDone ids arguments =>
      cases h
      exact F.argumentsDone W split
    | textDone =>
      cases h
      exact F.silent rfl ⟨_, rfl⟩ rfl
    | completed usage =>
      cases usage with
      | _ =>
        cases h
        exact F.silent rfl ⟨_, rfl⟩ rfl
    | other =>
      cases h
      exact F.silent rfl ⟨_, rfl⟩ rfl
  refine ⟨r, h, held.1, held.2, ?_, ?_, ?_⟩
  · rw [content, F.content, filterMap_snoc, String.join_append]
    cases e.text with
    | none => rfl
    | some text => rw [Option.toList_some, String.join_cons, String.join_nil, String.append_empty]; rfl
  · rw [reasoning, F.reasoning, filterMap_snoc, List.foldl_append]
  · rw [items, F.items, filterMap_snoc]

/-- A whole stream is tracked. -/
lemma Tracked.run {after : List ResponseEvent} (F : Tracked output before st s) (W : WellStreamed output events)
    (split : events = before ++ after) :
    ∃ chunks st', st.items after = some chunks ∧ Tracked output events st' (chunks.foldl Assembly.step s) := by
  induction after generalizing before st s with
  | nil =>
    rw [List.append_nil] at split
    subst split
    exact ⟨[], st, rfl, F⟩
  | cons e after ih =>
    obtain ⟨⟨st', new⟩, h, F'⟩ := F.event W split
    obtain ⟨chunks, st'', rest, F''⟩ := ih F' (split.trans (List.append_cons before e after))
    refine ⟨new ++ chunks, st'', ?_, ?_⟩
    · rw [ResponsesStream.items, h]
      exact congrArg (Option.map (new ++ ·)) rest
    · rw [List.foldl_append]
      exact F''

/-! ## The texts -/

variable {loads : String → Option Json}

/-- A well-formed stream is tracked to its end. -/
lemma tracked (loads : String → Option Json) (W : WellStreamed output events) : ∃ st s, streamResponse loads events = some (s.message loads) ∧
    Tracked output events st s := by
  have start : Tracked output [] {} {} := by
    refine ⟨⟨fun n c => ?_, fun i c => ?_, fun p hp => ⟨.inl rfl, fun h => ?_⟩⟩,
      ⟨rfl, rfl, fun p hp => ?_, rfl⟩, rfl, rfl, rfl⟩
    · exact iff_of_false (Option.some_ne_none c ·.symm) fun ⟨p, _, _, e, mem, _⟩ => List.not_mem_nil mem
    · exact iff_of_false (Option.some_ne_none c ·.symm) fun ⟨p, _, _, e, mem, _⟩ => List.not_mem_nil mem
    · obtain ⟨e, mem, -⟩ := h
      cases mem
    · exact iff_of_false List.not_mem_nil Bool.false_ne_true
  obtain ⟨chunks, st, h, F⟩ := start.run W rfl
  refine ⟨st, _, ?_, F⟩
  rw [streamResponse, h]
  rfl

end

end OpenAgentd.Provider
