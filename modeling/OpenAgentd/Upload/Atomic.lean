import OpenAgentd.Upload.Names

/-!
# All or nothing

Attachments are checked and stored one after the other. What is stored has a name of its own and changes no other
file (`persistAll_ok`), but when an attachment fails its check the ones in front of it have been written
(`persistAll_ne`). The uploads are all or nothing, and served, under the exact conditions of `allOrNothing_iff`.
-/

namespace OpenAgentd.Upload
open Lib

/-- The attachments with a name, each with its category. -/
def named (attachments : List RawAttachment) : List (RawAttachment × Category) :=
  (attachments.filter (·.filename ≠ [])).map fun att => (att, (categorize att.filename att.contentType).getD .file)

/-- The size of the attachments with a name. -/
def totalSize : List RawAttachment → Nat
  | [] => 0
  | att :: atts => (if att.filename = [] then 0 else att.data.length) + totalSize atts

/-- The attachments are stored under the names: new names, all different and short, that lead to the content. -/
structure Stored (d d' : Uploads) (atts : List RawAttachment) (names : List (List Char)) : Prop where
  fresh : ∀ name ∈ names, d.node? name = none
  distinct : names.Nodup
  bytes : List.Forall₂ (fun att name => d'.node? name = some (.file att.data)) atts names
  short : ∀ name ∈ names, name.length ≤ maxFilenameLen
  served : List.Forall₂ (fun att name => getUploadedFile d' name = .ok att.data) atts names
  kept : ∀ name, d.node? name ≠ none → d'.node? name = d.node? name

/-- Everything is stored, or nothing has changed. -/
structure AllOrNothing (uploads sessionId : String) (d : Uploads) (attachments : List RawAttachment) : Prop where
  stored : ∀ id metas, (validateAndPersistAttachments uploads sessionId d attachments).2 = .ok (id, metas) →
    Stored d (validateAndPersistAttachments uploads sessionId d attachments).1
      (attachments.filter (·.filename ≠ [])) (metas.map (·.filename))
  unchanged : ∀ e, (validateAndPersistAttachments uploads sessionId d attachments).2 = .error e →
    (validateAndPersistAttachments uploads sessionId d attachments).1 = d

/-- The name with the number `index` is short enough and does not begin like a drive. For the name itself it is the
extension that leaves room, for a numbered one number and extension do. -/
def Servable (att : RawAttachment) (category : Category) : Nat → Prop
  | 0 => Roomy att.filename category ∧ (safeStorageName att category)[1]? ≠ some ':'
  | index + 1 =>
    let k := tailLength (safeStorageName att category) (index + 1)
    let stem := numberedStem (safeStorageName att category)
    (k < maxFilenameLen ∧
      (k + uploadWord.length ≤ maxFilenameLen ∨ ∃ c ∈ stem.take (maxFilenameLen - k), pyIsSpace c = false)) ∧
        ¬ (stem[1]? = some ':' ∧ k + 2 ≤ maxFilenameLen)

/-- For each attachment in turn the first variant of its name that is not taken is servable. -/
def AllServable : (List Char → Bool) → List (RawAttachment × Category) → Prop
  | _, [] => True
  | taken, (att, category) :: valid =>
    ∀ index, IsFirstFree taken (variant (safeStorageName att category)) index →
      Servable att category index ∧
        AllServable (fun name => name = variant (safeStorageName att category) index || taken name) valid

/-- What the attachments must be like: too large together, or the first of them refused, or none of them refused and
all their names servable. -/
def Orderly (d : Uploads) (attachments : List RawAttachment) : Prop :=
  globalSizeLimit < totalSize attachments ∨
    (∃ att category valid, named attachments = (att, category) :: valid ∧ checkAttachment att category ≠ none) ∨
      (∀ v ∈ named attachments, checkAttachment v.1 v.2 = none) ∧ AllServable d.exists (named attachments)

section
variable {uploads sessionId : String} {d d' : Uploads} {att : RawAttachment} {attachments : List RawAttachment}
  {category : Category} {valid : List (RawAttachment × Category)} {name : List Char} {data : List UInt8} {index : Nat}

/-! ## One attachment -/

/-- A file that is written. -/
lemma node?_set {made : Dict (List Char) Entry} {x : Entry} {key : List Char} :
    Uploads.node? (some (made.set key x)) name = if name = key then some x else Uploads.node? (some made) name :=
  Dict.get?_set

/-- Making the directory changes no entry. -/
lemma node?_made : Uploads.node? (some (d.getD .empty)) = d.node? := by
  cases d with
  | none => rfl
  | some made => rfl

/-- A directory that is made. -/
lemma exists_made : Uploads.exists (some (d.getD .empty)) = d.exists := by
  funext name
  rw [Uploads.exists, node?_made, Uploads.exists]

/-- The name of a file is the first free variant. -/
lemma dedupeUploadFilename_spec (d : Uploads) (filename : List Char) :
    ∃ index, IsFirstFree d.exists (variant filename) index ∧
      dedupeUploadFilename d filename = variant filename index := by
  refine ⟨_, ?_, rfl⟩
  cases d with
  | none =>
    have none : ∀ x, Uploads.exists none x = true → x ∈ ([] : List (List Char)) := by
      intro x there
      cases there
    exact firstFree_spec none fun i j => variant_inj
  | some made =>
    have keys : ∀ x, Uploads.exists (some made) x = true → x ∈ made.keys :=
      fun x there => Dict.mem_keys.mpr (Option.isSome_iff_exists.mp there)
    exact firstFree_spec keys fun i j => variant_inj

/-- A given name is sanitised. -/
lemma safeStorageName_eq (named : att.filename ≠ []) :
    safeStorageName att category = sanitizeUploadFilename att.filename category := by
  rw [safeStorageName, orElse_eq_left named]

/-- The names that are servable. -/
lemma servable_iff (named : att.filename ≠ []) : Servable att category index ↔
    (variant (safeStorageName att category) index).length ≤ maxFilenameLen ∧
      (variant (safeStorageName att category) index)[1]? ≠ some ':' := by
  cases index with
  | zero =>
    rw [variant, safeStorageName_eq named, length_sanitize_iff, Servable, safeStorageName_eq named]
  | succ index =>
    rw [length_variant_iff, Ne, colon_variant_iff]
    rfl

/-- An attachment that is refused is not stored. -/
lemma persistAttachment_error {e : AttachmentError} (refused : checkAttachment att category = some e) :
    persistAttachment uploads sessionId d att category = (d, .error e) := by
  rw [persistAttachment, refused]

/-- An attachment that is not refused is stored under the first free variant of its name. -/
lemma persistAttachment_ok (uploads sessionId : String) (d : Uploads) (passed : checkAttachment att category = none) :
    ∃ index metadata, IsFirstFree d.exists (variant (safeStorageName att category)) index ∧
      persistAttachment uploads sessionId d att category =
        (some ((d.getD .empty).set (variant (safeStorageName att category) index) (.file att.data)), .ok metadata) ∧
      metadata.filename = variant (safeStorageName att category) index := by
  obtain ⟨index, first, same⟩ := dedupeUploadFilename_spec (some (d.getD .empty)) (safeStorageName att category)
  rw [exists_made] at first
  rw [persistAttachment, passed]
  dsimp only
  rw [same]
  exact ⟨index, _, first, rfl, rfl⟩

/-! ## All attachments -/

/-- What the attachments leave behind when all of them are stored. -/
structure Written (d d' : Uploads) (valid : List (RawAttachment × Category)) (names : List (List Char)) : Prop where
  fresh : ∀ name ∈ names, d.node? name = none
  distinct : names.Nodup
  bytes : List.Forall₂ (fun v name => d'.node? name = some (.file v.1.data)) valid names
  forms : List.Forall₂ (fun v name => ∃ index, name = variant (safeStorageName v.1 v.2) index) valid names
  kept : ∀ name, d.node? name ≠ none → d'.node? name = d.node? name

/-- The directory behind one more file. -/
lemma exists_set (d : Uploads) (data : List UInt8) (index : Nat) (safe : List Char) :
    Uploads.exists (some ((d.getD .empty).set (variant safe index) (.file data))) =
      fun name => name = variant safe index || d.exists name := by
  funext name
  rw [Uploads.exists, node?_set, node?_made]
  split
  next here => rw [decide_eq_true here, Bool.true_or]; rfl
  next other => rw [decide_eq_false other, Bool.false_or]; rfl

/-- A new file leaves the others as they are. -/
lemma node?_stored (data : List UInt8) (fresh : d.exists (variant (safeStorageName att category) index) = false)
    (there : d.node? name ≠ none) :
    Uploads.node? (some ((d.getD .empty).set (variant (safeStorageName att category) index) (.file data))) name =
      d.node? name := by
  rw [node?_set, node?_made, if_neg]
  rintro rfl
  rw [Uploads.exists, Option.isSome_eq_false_iff, Option.isNone_iff_eq_none] at fresh
  exact there fresh

/-- One file, then the others. -/
lemma persistAll_fst {d₁ : Uploads} {metadata : Meta}
    (stored : persistAttachment uploads sessionId d att category = (d₁, .ok metadata)) :
    (persistAll uploads sessionId d ((att, category) :: valid)).1 = (persistAll uploads sessionId d₁ valid).1 := by
  rw [persistAll, stored]
  dsimp only
  cases persistAll uploads sessionId d₁ valid with
  | mk d' result =>
    cases result with
    | error e => rfl
    | ok metas => rfl

/-- No attachment changes a file that is there. -/
lemma persistAll_kept (there : d.node? name ≠ none) :
    (persistAll uploads sessionId d valid).1.node? name = d.node? name := by
  induction valid generalizing d with
  | nil => rfl
  | cons v valid ih =>
    obtain ⟨att, category⟩ := v
    cases check : checkAttachment att category with
    | some e => rw [persistAll, persistAttachment_error check]
    | none =>
      obtain ⟨index, metadata, first, stored, _⟩ :=
        persistAttachment_ok uploads sessionId d check
      have old := node?_stored att.data first.free there
      rw [persistAll_fst stored, ih (by rw [old]; exact there), old]

/-- The attachments in front of a refused one have been written. -/
lemma persistAll_ne (uploads sessionId : String) (d : Uploads) (valid : List (RawAttachment × Category))
    (passed : checkAttachment att category = none) :
    (persistAll uploads sessionId d ((att, category) :: valid)).1 ≠ d := by
  obtain ⟨index, metadata, first, stored, _⟩ := persistAttachment_ok uploads sessionId d passed
  have own : Uploads.node? (some ((d.getD .empty).set (variant (safeStorageName att category) index) (.file att.data)))
      (variant (safeStorageName att category) index) = some (.file att.data) := by rw [node?_set, if_pos rfl]
  intro same
  rw [persistAll_fst stored] at same
  have later : d.node? (variant (safeStorageName att category) index) = some (.file att.data) := by
    rw [← same, persistAll_kept (by rw [own]; exact Option.some_ne_none _), own]
  have free := first.free
  rw [Uploads.exists, later] at free
  cases free

/-- When none is refused all are stored, and their names are servable if the first free variants are. -/
lemma persistAll_ok (all : ∀ v ∈ valid, v.1.filename ≠ [] ∧ checkAttachment v.1 v.2 = none) :
    ∃ d' metas, persistAll uploads sessionId d valid = (d', .ok metas) ∧ Written d d' valid (metas.map (·.filename)) ∧
      (AllServable d.exists valid ↔
        ∀ name ∈ metas.map (·.filename), name.length ≤ maxFilenameLen ∧ name[1]? ≠ some ':') := by
  induction valid generalizing d with
  | nil =>
    refine ⟨d, [], rfl, ⟨?_, List.nodup_nil, .nil, .nil, fun _ _ => rfl⟩, ?_⟩
    · exact fun name mem => absurd mem List.not_mem_nil
    · exact iff_of_true trivial fun name mem => absurd mem List.not_mem_nil
  | cons v valid ih =>
    obtain ⟨att, category⟩ := v
    rw [List.forall_mem_cons] at all
    obtain ⟨⟨named, passed⟩, others⟩ := all
    obtain ⟨index, metadata, first, stored, filename⟩ := persistAttachment_ok uploads sessionId d passed
    obtain ⟨d', metas, rest, W, servable⟩ := @ih
      (some ((d.getD .empty).set (variant (safeStorageName att category) index) (.file att.data))) others
    have new : ∀ name, Uploads.node?
        (some ((d.getD .empty).set (variant (safeStorageName att category) index) (.file att.data))) name =
          if name = variant (safeStorageName att category) index then some (.file att.data) else d.node? name :=
      fun name => by rw [node?_set, node?_made]
    have own := new (variant (safeStorageName att category) index)
    rw [if_pos rfl] at own
    refine ⟨d', metadata :: metas, ?_, ?_, ?_⟩
    · rw [persistAll, stored]
      dsimp only
      rw [rest]
    · rw [List.map_cons, filename]
      refine ⟨?_, ?_, ?_, ?_, ?_⟩
      · rw [List.forall_mem_cons]
        refine ⟨?_, fun name mem => ?_⟩
        · have free := first.free
          rwa [Uploads.exists, Option.isSome_eq_false_iff, Option.isNone_iff_eq_none] at free
        · have fresh := W.fresh name mem
          rw [new] at fresh
          split at fresh
          next => cases fresh
          next => exact fresh
      · rw [List.nodup_cons]
        refine ⟨fun mem => ?_, W.distinct⟩
        have fresh := W.fresh _ mem
        rw [own] at fresh
        cases fresh
      · refine .cons ?_ W.bytes
        rw [W.kept _ (by rw [own]; exact Option.some_ne_none _), own]
      · exact .cons ⟨index, rfl⟩ W.forms
      · intro name there
        have old := node?_stored att.data first.free there
        rw [W.kept name (by rw [old]; exact there), old]
    · rw [List.map_cons, filename, List.forall_mem_cons, ← servable, exists_set, ← servable_iff named]
      constructor
      · intro all
        exact all index first
      · intro both other first'
        rw [← first.unique first']
        exact both

/-! ## Everything or nothing -/

/-- One attachment more. -/
lemma named_cons : named (att :: attachments) =
    if att.filename = [] then named attachments
    else (att, (categorize att.filename att.contentType).getD .file) :: named attachments := by
  unfold named
  rw [List.filter_cons]
  by_cases none : att.filename = []
  · rw [if_pos none, if_neg (by simpa using none)]
  · rw [if_neg none, if_pos (by simpa using none), List.map_cons]

/-- The first pass leaves the attachments with a name, unless they are too large together. -/
lemma selectAttachments_eq {t : Nat} (small : t ≤ globalSizeLimit) :
    (∃ e, selectAttachments t attachments = .error e ∧ globalSizeLimit < t + totalSize attachments) ∨
      selectAttachments t attachments = .ok (named attachments) ∧ t + totalSize attachments ≤ globalSizeLimit := by
  induction attachments generalizing t with
  | nil => exact .inr ⟨rfl, small⟩
  | cons att atts ih =>
    rw [selectAttachments, totalSize, named_cons]
    by_cases none : att.filename = []
    · rw [if_pos none, if_pos none, if_pos none, Nat.zero_add]
      exact ih small
    · rw [if_neg none, if_neg none, if_neg none]
      dsimp only
      split
      next large => exact .inl ⟨_, rfl, by omega⟩
      next fits =>
        cases ih (Nat.not_lt.mp fits) with
        | inl large =>
          obtain ⟨e, failed, large⟩ := large
          rw [failed]
          exact .inl ⟨e, rfl, by omega⟩
        | inr rest =>
          rw [rest.1]
          exact .inr ⟨rfl, by omega⟩

/-- They have names. -/
lemma filename_of_mem_named {v : RawAttachment × Category} (mem : v ∈ named attachments) : v.1.filename ≠ [] := by
  obtain ⟨att, kept, rfl⟩ := List.mem_map.mp mem
  simpa using (List.mem_filter.mp kept).2

/-- The attachments with names. -/
lemma map_fst_named : (named attachments).map Prod.fst = attachments.filter (·.filename ≠ []) := by
  unfold named
  rw [List.map_map]
  exact List.map_id'' (fun _ => rfl) _

/-- One refused attachment, and the whole fails. -/
lemma persistAll_error (uploads sessionId : String) (d : Uploads)
    (refused : ∃ v ∈ valid, checkAttachment v.1 v.2 ≠ none) :
    ∃ e, (persistAll uploads sessionId d valid).2 = .error e := by
  induction valid generalizing d with
  | nil =>
    obtain ⟨v, mem, _⟩ := refused
    exact absurd mem List.not_mem_nil
  | cons v valid ih =>
    obtain ⟨att, category⟩ := v
    rw [persistAll]
    cases check : checkAttachment att category with
    | some e =>
      rw [persistAttachment_error check]
      exact ⟨e, rfl⟩
    | none =>
      obtain ⟨index, metadata, _, stored, _⟩ := persistAttachment_ok uploads sessionId d check
      rw [stored]
      dsimp only
      have later : ∃ v ∈ valid, checkAttachment v.1 v.2 ≠ none := by
        obtain ⟨v, mem, other⟩ := refused
        cases List.mem_cons.mp mem with
        | inl here => exact absurd (here ▸ check) other
        | inr mem => exact ⟨v, mem, other⟩
      obtain ⟨e, failed⟩ := ih
        (some ((d.getD .empty).set (variant (safeStorageName att category) index) (.file att.data))) later
      cases rest : persistAll uploads sessionId
        (some ((d.getD .empty).set (variant (safeStorageName att category) index) (.file att.data))) valid with
      | mk d' result =>
        rw [rest] at failed
        dsimp only at failed
        rw [failed]
        exact ⟨e, rfl⟩

/-- The stored files are served if and only if no name begins like a drive. -/
lemma served_iff {names : List (List Char)} (all : ∀ v ∈ valid, v.1.filename ≠ [])
    (bytes : List.Forall₂ (fun v name => d.node? name = some (.file v.1.data)) valid names)
    (forms : List.Forall₂ (fun v name => ∃ index, name = variant (safeStorageName v.1 v.2) index) valid names) :
    List.Forall₂ (fun v name => getUploadedFile d name = .ok v.1.data) valid names ↔
      ∀ name ∈ names, name[1]? ≠ some ':' := by
  induction bytes with
  | nil => exact iff_of_true .nil fun name mem => absurd mem List.not_mem_nil
  | @cons v name valid names file _ ih =>
    obtain ⟨⟨index, rfl⟩, rest⟩ := List.forall₂_cons.mp forms
    rw [List.forall_mem_cons] at all
    rw [List.forall₂_cons, List.forall_mem_cons, ih all.2 rest]
    rw [safeStorageName_eq all.1] at file ⊢
    rw [getUploadedFile_variant_iff file]

/-- When all are stored. -/
lemma stored_iff {names : List (List Char)} (all : ∀ v ∈ valid, v.1.filename ≠ []) (W : Written d d' valid names) :
    Stored d d' (valid.map Prod.fst) names ↔ ∀ name ∈ names, name.length ≤ maxFilenameLen ∧ name[1]? ≠ some ':' := by
  have served := served_iff all W.bytes W.forms
  constructor
  · intro S name mem
    have all := S.served
    rw [List.forall₂_map_left_iff] at all
    exact ⟨S.short name mem, served.mp all name mem⟩
  · intro good
    refine ⟨W.fresh, W.distinct, ?_, fun name mem => (good name mem).1, ?_, W.kept⟩
    · rw [List.forall₂_map_left_iff]
      exact W.bytes
    · rw [List.forall₂_map_left_iff]
      exact served.mpr fun name mem => (good name mem).2

/-- When it works. -/
lemma allOrNothing_ok {metas : List Meta}
    (run : validateAndPersistAttachments uploads sessionId d attachments = (d', .ok (sessionId, metas))) :
    AllOrNothing uploads sessionId d attachments ↔
      Stored d d' (attachments.filter (·.filename ≠ [])) (metas.map (·.filename)) := by
  constructor
  · intro h
    have stored := h.stored sessionId metas (by rw [run])
    rwa [run] at stored
  · intro stored
    constructor
    · intro id metas' result
      rw [run] at result
      cases result
      rwa [run]
    · intro e result
      rw [run] at result
      cases result

/-- When it fails. -/
lemma allOrNothing_error {e : AttachmentError}
    (run : validateAndPersistAttachments uploads sessionId d attachments = (d', .error e)) :
    AllOrNothing uploads sessionId d attachments ↔ d' = d := by
  constructor
  · intro h
    have same := h.unchanged e (by rw [run])
    rwa [run] at same
  · intro same
    constructor
    · intro id metas result
      rw [run] at result
      cases result
    · intro _ _
      rwa [run]

/-- Uploads are all or nothing, and served, if and only if the attachments are orderly. -/
theorem allOrNothing_iff (uploads sessionId : String) (d : Uploads) (attachments : List RawAttachment) :
    AllOrNothing uploads sessionId d attachments ↔ Orderly d attachments := by
  have filenames : ∀ v ∈ named attachments, v.1.filename ≠ [] := fun v => filename_of_mem_named
  cases @selectAttachments_eq attachments 0 (Nat.zero_le globalSizeLimit) with
  | inl large =>
    obtain ⟨e, failed, large⟩ := large
    have run : validateAndPersistAttachments uploads sessionId d attachments = (d, .error e) := by
      rw [validateAndPersistAttachments, failed]
    rw [allOrNothing_error run]
    exact iff_of_true rfl (.inl (by omega))
  | inr selected =>
    obtain ⟨selected, small⟩ := selected
    have fits : ¬ globalSizeLimit < totalSize attachments := by omega
    by_cases all : ∀ v ∈ named attachments, checkAttachment v.1 v.2 = none
    · obtain ⟨d', metas, stored, W, servable⟩ :=
        @persistAll_ok uploads sessionId d _ fun v mem => ⟨filenames v mem, all v mem⟩
      have run : validateAndPersistAttachments uploads sessionId d attachments = (d', .ok (sessionId, metas)) := by
        rw [validateAndPersistAttachments, selected]
        dsimp only
        rw [stored]
      rw [allOrNothing_ok run, ← map_fst_named, stored_iff filenames W, ← servable]
      refine ⟨fun good => .inr (.inr ⟨all, good⟩), fun either => ?_⟩
      rcases either with large | ⟨att, category, valid, first, refused⟩ | ⟨_, good⟩
      · exact absurd large fits
      · exact absurd (all (att, category) (first ▸ List.mem_cons_self)) refused
      · exact good
    · have refused : ∃ v ∈ named attachments, checkAttachment v.1 v.2 ≠ none := by
        by_contra none
        refine all fun v mem => ?_
        by_contra other
        exact none ⟨v, mem, other⟩
      obtain ⟨e, failed⟩ := persistAll_error uploads sessionId d refused
      have run : validateAndPersistAttachments uploads sessionId d attachments =
          ((persistAll uploads sessionId d (named attachments)).1, .error e) := by
        rw [validateAndPersistAttachments, selected]
        dsimp only
        generalize persistAll uploads sessionId d (named attachments) = result at failed
        obtain ⟨d', result⟩ := result
        dsimp only at failed
        rw [failed]
      rw [allOrNothing_error run]
      cases list : named attachments with
      | nil =>
        obtain ⟨v, mem, _⟩ := refused
        rw [list] at mem
        exact absurd mem List.not_mem_nil
      | cons v valid =>
        obtain ⟨att, category⟩ := v
        cases check : checkAttachment att category with
        | some e =>
          refine iff_of_true ?_ (.inr (.inl ⟨att, category, valid, list, ?_⟩))
          · rw [persistAll, persistAttachment_error check]
          · rw [check]
            exact Option.some_ne_none e
        | none =>
          refine iff_of_false (persistAll_ne uploads sessionId d valid check) ?_
          rintro (large | ⟨att', category', valid', first, refused⟩ | ⟨passed, _⟩)
          · exact fits large
          · rw [list] at first
            obtain ⟨same, _⟩ := List.cons.inj first
            obtain ⟨rfl, rfl⟩ := Prod.mk.inj same
            exact refused check
          · exact all passed

/-- Failed, nothing is stored. -/
lemma AllOrNothing.of_failed (h : AllOrNothing uploads sessionId d attachments)
    (failed : (validateAndPersistAttachments uploads sessionId d attachments).2.isOk = false) :
    (validateAndPersistAttachments uploads sessionId d attachments).1 = d := by
  cases result : (validateAndPersistAttachments uploads sessionId d attachments).2 with
  | error e => exact h.unchanged e result
  | ok stored =>
    rw [result] at failed
    cases failed

end

/-- A good upload in front of an empty one stays. -/
theorem first_stays : ¬ ∀ uploads sessionId d attachments, AllOrNothing uploads sessionId d attachments := by
  intro all
  have nothing := all "uploads" "session" none
    [⟨['a', '.', 't', 'x', 't'], none, [104, 105], none⟩, ⟨['b', '.', 't', 'x', 't'], none, [], none⟩]
  have same := nothing.of_failed (by decide)
  exact absurd (congrArg Option.isSome same) (by decide)

end OpenAgentd.Upload
