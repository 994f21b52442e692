import OpenAgentd.Lib.Dict
import OpenAgentd.Lib.Firsts
import OpenAgentd.Lib.Listed
import OpenAgentd.Schemas.Chat

/-!
# The task list

`todo_manage` (`agent/tools/builtin/todo.py`): the store on disk is a counter and a list of items, and each call loads
it, works off its actions and saves it. What it is for is a table of tasks by number, numbers given in order and never
twice (`Tasks`). A call whose arguments do not all mean an action (`TodoAction.Means`) is refused; of another the reply
lists the table, or says what became of the actions, each verb with its subjects (`Says`). The items are that table
listed, and the replies are such replies (`store_run`).
-/

namespace OpenAgentd.Tools.Todo
open OpenAgentd.Lib

abbrev Text := List Char

inductive Status where
  | pending
  | inProgress
  | completed
  | cancelled
  deriving DecidableEq

def Status.text : Status → Text
  | .pending => "pending".toList
  | .inProgress => "in_progress".toList
  | .completed => "completed".toList
  | .cancelled => "cancelled".toList

/-- What `clear` takes away. -/
inductive Cleared where
  | completed
  | cancelled
  | finished
  deriving DecidableEq

/-- `i.get("status") not in ("completed", "cancelled")`, and the comparison with one of them. -/
def Cleared.keeps (c : Cleared) (status : Status) : Bool :=
  match c with
  | .completed => status != .completed
  | .cancelled => status != .cancelled
  | .finished => status != .completed && status != .cancelled

/-! ### Arguments -/

inductive ActionKind where
  | create
  | update
  | delete
  | read
  | clear
  deriving DecidableEq

/-- The status of an argument. -/
inductive ArgStatus where
  | status (status : Status)
  | finished
  deriving DecidableEq

/-- `TodoAction` before its validators. -/
structure TodoAction where
  action : ActionKind
  taskId : Option Text
  content : Option Text
  status : Option ArgStatus

/-- An action that is valid, with the arguments that it needs. -/
inductive Action where
  | create (content : Text) (status : Status)
  | update (taskId : Text) (content : Option Text) (status : Option Status)
  | delete (taskId : Text)
  | read
  | clear (status : Cleared)
  deriving DecidableEq

/-- `if not value` -/
def given (value : Option Text) : Option Text := value.filter (· ≠ [])

/-- `_not_blank` raises for it: nothing is left of the content when it is stripped. -/
def TodoAction.blank (a : TodoAction) : Bool := a.content.any fun content => content.all pyIsSpace

/-- `_validate_action` -/
def TodoAction.validateAction (a : TodoAction) : Except String Action :=
  match a.action with
  | .create =>
    match given a.content with
    | none => .error "content is required for create action"
    | some content =>
      match a.status with
      | none => .ok (.create content .pending)
      | some .finished => .error "status 'finished' is only valid for clear action"
      | some (.status status) => .ok (.create content status)
  | .update =>
    match given a.taskId with
    | none => .error "task_id is required for update action"
    | some taskId =>
      match a.status with
      | none => .ok (.update taskId a.content none)
      | some .finished => .error "status 'finished' is only valid for clear action"
      | some (.status status) => .ok (.update taskId a.content (some status))
  | .delete =>
    match given a.taskId with
    | none => .error "task_id is required for delete action"
    | some taskId => .ok (.delete taskId)
  | .read => .ok .read
  | .clear =>
    match a.status with
    | none => .ok (.clear .finished)
    | some .finished => .ok (.clear .finished)
    | some (.status .completed) => .ok (.clear .completed)
    | some (.status .cancelled) => .ok (.clear .cancelled)
    | some (.status _) => .error "status for clear must be 'completed', 'cancelled', or 'finished'"

/-- Both validators, that of the field first. -/
def TodoAction.validate (a : TodoAction) : Except String Action :=
  if a.blank then .error "content must not be blank" else a.validateAction

/-! ### The store -/

structure Item where
  taskId : Text
  content : Text
  status : Status
  deriving DecidableEq

structure Store where
  counter : Nat
  items : List Item

/-- `f"task_{n}"` -/
def taskId (n : Nat) : Text := "task_".toList ++ Nat.toDigits 10 n

def word (verb subject : Text) : Text := verb ++ ' ' :: subject

/-- The fields that an update gives. -/
def Item.updated (content : Option Text) (status : Option Status) (i : Item) : Item :=
  { i with content := content.getD i.content, status := status.getD i.status }

/-- One action, with what it adds to the log. -/
def applyAction (store : Store) : Action → Store × List Text
  | .read => (store, [])
  | .create content status =>
    let newId := taskId (store.counter + 1)
    (⟨store.counter + 1, store.items ++ [⟨newId, content, status⟩]⟩, [word "created".toList newId])
  | .update taskId content status =>
    match changeFirst (fun i : Item => i.taskId = taskId) (Item.updated content status) store.items with
    | some items => ({ store with items }, [word "updated".toList taskId])
    | none => (store, [word "unknown".toList taskId])
  | .delete taskId =>
    let items := store.items.filter fun i => i.taskId ≠ taskId
    ({ store with items },
      [word (if items.length < store.items.length then "deleted".toList else "unknown".toList) taskId])
  | .clear status =>
    let items := store.items.filter fun i => status.keeps i.status
    let cleared := store.items.length - items.length
    ({ store with items }, [word "cleared".toList (Nat.toDigits 10 cleared ++ " tasks".toList)])

def applyActions : Store → List Action → Store × List Text
  | store, [] => (store, [])
  | store, action :: actions =>
    let first := applyAction store action
    let later := applyActions first.1 actions
    (later.1, first.2 ++ later.2)

/-! ### The reply -/

/-- A slot of the acknowledgement: a part as it is, or a verb whose subjects are collected. -/
inductive Slot where
  | verbatim (part : Text)
  | verb (verb : Text)

/-- The subjects of the verbs so far, and the slots. -/
structure Outcomes where
  grouped : Dict Text (List Text)
  slots : List Slot

def Outcomes.add (o : Outcomes) (part : Text) : Outcomes :=
  let verb := part.takeWhile (· ≠ ' ')
  let subject := (part.dropWhile (· ≠ ' ')).drop 1
  if subject = [] ∨ ':' ∈ part then { o with slots := o.slots ++ [.verbatim part] }
  else
    match o.grouped.get? verb with
    | none => ⟨o.grouped.set verb [subject], o.slots ++ [.verb verb]⟩
    | some bucket => if bucket.contains subject then o else { o with grouped := o.grouped.set verb (bucket ++ [subject]) }

def consolidateOutcomes (logParts : List Text) : List Text :=
  let o := logParts.foldl Outcomes.add ⟨Dict.empty, []⟩
  o.slots.map fun
    | .verbatim part => part
    | .verb verb => verb ++ ' ' :: ", ".toList.intercalate ((o.grouped.get? verb).getD [])

def formatItems (items : List Item) : Text :=
  if items = [] then "No todos.".toList
  else ['\n'].intercalate (items.map fun i =>
    '[' :: i.taskId ++ "] [".toList ++ i.status.text ++ "] ".toList ++ i.content)

/-- The reply to a call, from its log and the items that it leaves. -/
def reply (actions : List Action) (logParts : List Text) (items : List Item) : Text :=
  let outcomes := consolidateOutcomes logParts
  if .read ∈ actions ∨ outcomes = [] then formatItems items else "; ".toList.intercalate outcomes

/-- `_apply_actions` -/
def call (store : Store) (actions : List Action) : Store × Text :=
  let applied := applyActions store actions
  (applied.1, reply actions applied.2 applied.1.items)

/-- A call of the tool: arguments that are not valid change nothing. -/
def todoManage (store : Store) (args : List TodoAction) : Store × Except String Text :=
  match args.mapM TodoAction.validate with
  | .error message => (store, .error message)
  | .ok actions => ((call store actions).1, .ok (call store actions).2)

/-- Calls one after the other, with their replies. -/
def calls : Store → List (List TodoAction) → Store × List (Except String Text)
  | store, [] => (store, [])
  | store, args :: rest =>
    let first := todoManage store args
    let later := calls first.1 rest
    (later.1, first.2 :: later.2)

/-! ### What it is for -/

structure Task where
  content : Text
  status : Status
  deriving DecidableEq

/-- The tasks by number, and how many numbers are given. Task `n` is the one that is called `task_n`. -/
structure Tasks where
  given : Nat
  task : Nat → Option Task

def Tasks.empty : Tasks := ⟨0, fun _ => none⟩

/-- The item of a task; numbers count from zero, names from one. -/
def itemOf (k : Nat) (t : Task) : Item := ⟨taskId (k + 1), t.content, t.status⟩

def Tasks.items (t : Tasks) : List Item := listed itemOf t.task t.given

/-- There is a task of this name. -/
def Tasks.has (t : Tasks) (id : Text) : Bool := (List.range t.given).any fun k => taskId (k + 1) = id ∧ (t.task k).isSome

def Task.updated (content : Option Text) (status : Option Status) (t : Task) : Task :=
  ⟨content.getD t.content, status.getD t.status⟩

/-- What became of an action. -/
inductive Outcome where
  | created (n : Nat)
  | updated (id : Text)
  | deleted (id : Text)
  | unknown (id : Text)
  | cleared (n : Nat)

/-- What an action means for the table, and what becomes of it; `cleared` counts the tasks that go. -/
def Tasks.act (t : Tasks) : Action → Tasks × List Outcome
  | .read => (t, [])
  | .create content status =>
    (⟨t.given + 1, fun k => if k = t.given then some ⟨content, status⟩ else t.task k⟩, [.created (t.given + 1)])
  | .update id content status =>
    if t.has id then
      ({ t with task := fun k => (t.task k).map fun task =>
          if taskId (k + 1) = id then task.updated content status else task }, [.updated id])
    else (t, [.unknown id])
  | .delete id =>
    ({ t with task := fun k => if taskId (k + 1) = id then none else t.task k },
      [if t.has id then .deleted id else .unknown id])
  | .clear status =>
    ({ t with task := fun k => (t.task k).filter fun task => status.keeps task.status },
      [.cleared ((List.range t.given).countP fun k => (t.task k).any fun task => !status.keeps task.status)])

def Tasks.actAll : Tasks → List Action → Tasks × List Outcome
  | t, [] => (t, [])
  | t, action :: actions =>
    let first := t.act action
    let later := first.1.actAll actions
    (later.1, first.2 ++ later.2)

/-! ### What a reply says -/

def Cleared.status : Cleared → ArgStatus
  | .completed => .status .completed
  | .cancelled => .status .cancelled
  | .finished => .finished

/-- What a valid argument asks for. -/
def TodoAction.Means (a : TodoAction) : Action → Prop
  | .create content status => a.action = .create ∧ a.content = some content ∧
      (a.status = some (.status status) ∨ a.status = none ∧ status = .pending)
  | .update taskId content status =>
      a.action = .update ∧ a.taskId = some taskId ∧ taskId ≠ [] ∧ a.content = content ∧ a.status = status.map .status
  | .delete taskId => a.action = .delete ∧ a.taskId = some taskId ∧ taskId ≠ []
  | .read => a.action = .read
  | .clear cleared => a.action = .clear ∧ (a.status = some cleared.status ∨ a.status = none ∧ cleared = .finished)

/-- The argument gives a content, and nothing but blanks. -/
def TodoAction.Blank (a : TodoAction) : Prop := ∃ content, a.content = some content ∧ ∀ c ∈ content, pyIsSpace c = true

/-- The line of a task. -/
def Tasks.line (t : Tasks) (k : Nat) : Option Text :=
  (t.task k).map fun task => '[' :: taskId (k + 1) ++ "] [".toList ++ task.status.text ++ "] ".toList ++ task.content

/-- The tasks line by line, in the order of their numbers. -/
def Tasks.listing (t : Tasks) : Text :=
  match (List.range t.given).filterMap t.line with
  | [] => "No todos.".toList
  | lines => ['\n'].intercalate lines

def Outcome.verb : Outcome → Text
  | .created _ => "created".toList
  | .updated _ => "updated".toList
  | .deleted _ => "deleted".toList
  | .unknown _ => "unknown".toList
  | .cleared _ => "cleared".toList

def Outcome.subject : Outcome → Text
  | .created n => taskId n
  | .updated id => id
  | .deleted id => id
  | .unknown id => id
  | .cleared n => Nat.toDigits 10 n ++ " tasks".toList

def Outcome.text (o : Outcome) : Text := word o.verb o.subject

/-- A subject with a colon is not collected. -/
def Outcome.collected (o : Outcome) : Bool := !o.subject.contains ':'

/-- A part of an acknowledgement: an outcome by itself, or a verb with its subjects. -/
inductive Part where
  | alone (text : Text)
  | group (verb : Text) (subjects : List Text)

def Part.text : Part → Text
  | .alone text => text
  | .group verb subjects => verb ++ ' ' :: ", ".toList.intercalate subjects

def Part.alone? : Part → Option Text
  | .alone text => some text
  | .group _ _ => none

def Part.verb? : Part → Option Text
  | .alone _ => none
  | .group verb _ => some verb

/-- The verbs that are collected, as they came. -/
def verbsOf (outcomes : List Outcome) : List Text := (outcomes.filter Outcome.collected).map Outcome.verb

/-- The subjects that are collected under a verb, as they came. -/
def subjectsOf (outcomes : List Outcome) (verb : Text) : List Text :=
  ((outcomes.filter Outcome.collected).filter fun o => o.verb = verb).map Outcome.subject

/-- The parts tell the outcomes. -/
structure Tells (outcomes : List Outcome) (parts : List Part) : Prop where
  /-- What is not collected stands by itself, as often as it came. -/
  alone : parts.filterMap Part.alone? = (outcomes.filter fun o => !o.collected).map Outcome.text
  /-- Each verb has one part, in the order in which they came first. -/
  verbs : parts.filterMap Part.verb? = (verbsOf outcomes).eraseDups
  /-- The part of a verb names each of its subjects once, in the order in which they came. -/
  subjects : ∀ verb subjects, .group verb subjects ∈ parts → subjects = (subjectsOf outcomes verb).eraseDups

/-- The reply to actions that had these outcomes and left this table. -/
def Says (actions : List Action) (outcomes : List Outcome) (t : Tasks) (reply : Text) : Prop :=
  if .read ∈ actions ∨ actions = [] then reply = t.listing
  else ∃ parts, Tells outcomes parts ∧ reply = "; ".toList.intercalate (parts.map Part.text)

/-- Calls on a table, with the actions that they asked for and their replies. -/
inductive Tasks.Run : Tasks → List (List TodoAction) → List Action → Tasks → List (Except String Text) → Prop where
  | nil {t} : Tasks.Run t [] [] t []
  | refused {t t' args rest done replies a message} : a ∈ args → a.Blank ∨ (∀ action, ¬ a.Means action) →
      Tasks.Run t rest done t' replies → Tasks.Run t (args :: rest) done t' (.error message :: replies)
  | accepted {t t' args rest actions done reply replies} : (∀ a ∈ args, ¬ a.Blank) →
      List.Forall₂ TodoAction.Means args actions → Says actions (t.actAll actions).2 (t.actAll actions).1 reply →
      Tasks.Run (t.actAll actions).1 rest done t' replies →
      Tasks.Run t (args :: rest) (actions ++ done) t' (.ok reply :: replies)

/-- The store holds the table. -/
structure Holds (store : Store) (t : Tasks) : Prop where
  counter : store.counter = t.given
  items : store.items = t.items

/-- An action that gives a number. -/
def Action.creates : Action → Bool
  | .create _ _ => true
  | _ => false

section
variable {store : Store} {t : Tasks} {id : Text}

/-- The table after an update. -/
def Tasks.changed (t : Tasks) (id : Text) (content : Option Text) (status : Option Status) : Tasks :=
  { t with task := fun k => (t.task k).map fun task => if taskId (k + 1) = id then task.updated content status else task }

variable {a : TodoAction} {action : Action} {args : List TodoAction} {actions : List Action} {message : String}

variable {m : Outcomes} {outcomes : List Outcome} {o : Outcome} {parts : List Part}

/-- The verb of an outcome. -/
lemma takeWhile_text (o : Outcome) : o.text.takeWhile (· ≠ ' ') = o.verb := by
  have solid : ∀ c ∈ o.verb, decide (c ≠ ' ') = true := by
    cases o <;> simp [Outcome.verb]
  rw [Outcome.text, word, List.takeWhile_append_of_pos solid, List.takeWhile_cons_of_neg (by simp), List.append_nil]

/-- What follows the verb. -/
lemma dropWhile_text (o : Outcome) : (o.text.dropWhile (· ≠ ' ')).drop 1 = o.subject := by
  have solid : ∀ c ∈ o.verb, decide (c ≠ ' ') = true := by
    cases o <;> simp [Outcome.verb]
  rw [Outcome.text, word, List.dropWhile_append_of_pos solid, List.dropWhile_cons_of_neg (by simp)]
  rfl

/-- A colon is one of the subject. -/
lemma colon_text (o : Outcome) : ':' ∈ o.text ↔ o.collected = false := by
  have verb : ':' ∉ o.verb := by
    cases o <;> simp [Outcome.verb]
  simp [Outcome.text, word, Outcome.collected, verb]

/-- How an outcome is added. -/
lemma add_text (filled : o.subject ≠ []) (m : Outcomes) : m.add o.text =
    if o.collected then
      match m.grouped.get? o.verb with
      | none => ⟨m.grouped.set o.verb [o.subject], m.slots ++ [.verb o.verb]⟩
      | some bucket =>
        if bucket.contains o.subject then m else { m with grouped := m.grouped.set o.verb (bucket ++ [o.subject]) }
    else { m with slots := m.slots ++ [.verbatim o.text] } := by
  rw [Outcomes.add, takeWhile_text, dropWhile_text]
  cases collected : o.collected with
  | true =>
    have clean : ¬ (o.subject = [] ∨ ':' ∈ o.text) := by
      rw [colon_text, collected]
      exact not_or.mpr ⟨filled, nofun⟩
    rw [if_neg clean, if_pos rfl]
  | false => rw [if_pos (.inr (colon_text o |>.mpr collected)), if_neg Bool.false_ne_true]

def Slot.verbatim? : Slot → Option Text
  | .verbatim part => some part
  | .verb _ => none

def Slot.verb? : Slot → Option Text
  | .verbatim _ => none
  | .verb v => some v

/-- What the loop has collected of the outcomes so far. -/
structure Grouped (outcomes : List Outcome) (m : Outcomes) : Prop where
  alone : m.slots.filterMap Slot.verbatim? = (outcomes.filter fun o => !o.collected).map Outcome.text
  verbs : m.slots.filterMap Slot.verb? = (verbsOf outcomes).eraseDups
  bucket : ∀ v, m.grouped.get? v = if v ∈ verbsOf outcomes then some (subjectsOf outcomes v).eraseDups else none

/-- One outcome more. -/
lemma verbsOf_snoc (collected : o.collected = true) : verbsOf (outcomes ++ [o]) = verbsOf outcomes ++ [o.verb] := by
  simp [verbsOf, List.filter_append, collected]

/-- One outcome more. -/
lemma subjectsOf_snoc (collected : o.collected = true) (v : Text) :
    subjectsOf (outcomes ++ [o]) v = subjectsOf outcomes v ++ if o.verb = v then [o.subject] else [] := by
  by_cases same : o.verb = v
  · simp [subjectsOf, List.filter_append, collected, same]
  · simp [subjectsOf, List.filter_append, collected, same]

/-- A verb that has not come has no subjects. -/
lemma subjectsOf_eq_nil {v : Text} (new : v ∉ verbsOf outcomes) : subjectsOf outcomes v = [] := by
  rw [subjectsOf, List.map_eq_nil_iff, List.filter_eq_nil_iff]
  intro o mem same
  exact new (List.mem_map.mpr ⟨o, mem, of_decide_eq_true same⟩)

/-- One more outcome is collected. -/
lemma Grouped.snoc (h : Grouped outcomes m) (filled : o.subject ≠ []) : Grouped (outcomes ++ [o]) (m.add o.text) := by
  obtain ⟨alone, verbs, bucket⟩ := h
  rw [add_text filled]
  cases collected : o.collected with
  | false =>
    have verbs_ : verbsOf (outcomes ++ [o]) = verbsOf outcomes := by simp [verbsOf, List.filter_append, collected]
    have subjects_ : ∀ v, subjectsOf (outcomes ++ [o]) v = subjectsOf outcomes v := by
      simp [subjectsOf, List.filter_append, collected]
    rw [if_neg Bool.false_ne_true]
    refine ⟨?_, ?_, ?_⟩
    · simp [List.filterMap_append, alone, List.filter_append, collected, Slot.verbatim?]
    · rw [verbs_, ← verbs]
      simp [List.filterMap_append, Slot.verb?]
    · intro v
      rw [verbs_, subjects_]
      exact bucket v
  | true =>
    have alone_ : (outcomes ++ [o]).filter (fun o => !o.collected) = outcomes.filter fun o => !o.collected := by
      simp [List.filter_append, collected]
    have here := bucket o.verb
    rw [if_pos rfl]
    split
    next none_ =>
      have new : o.verb ∉ verbsOf outcomes := by
        intro mem
        rw [none_, if_pos mem] at here
        cases here
      refine ⟨?_, ?_, ?_⟩
      · rw [alone_, ← alone]
        simp [List.filterMap_append, Slot.verbatim?]
      · rw [verbsOf_snoc collected, eraseDups_snoc, if_neg (by simpa using new), ← verbs]
        simp [List.filterMap_append, Slot.verb?]
      · intro v
        rw [Dict.get?_set, subjectsOf_snoc collected]
        by_cases same : v = o.verb
        · subst same
          have here : o.verb ∈ verbsOf (outcomes ++ [o]) := verbsOf_snoc collected ▸ List.mem_concat_self
          rw [if_pos rfl, if_pos here, if_pos rfl, subjectsOf_eq_nil new]
          rfl
        · have before : v ∈ verbsOf (outcomes ++ [o]) ↔ v ∈ verbsOf outcomes := by
            rw [verbsOf_snoc collected, List.mem_append, List.mem_singleton]
            exact or_iff_left same
          rw [if_neg same, if_neg (Ne.symm same), List.append_nil, bucket v]
          simp only [before]
    next old some_ =>
      have known : o.verb ∈ verbsOf outcomes := by
        by_contra new
        rw [some_, if_neg new] at here
        cases here
      rw [some_, if_pos known, Option.some.injEq] at here
      have stays : (verbsOf (outcomes ++ [o])).eraseDups = (verbsOf outcomes).eraseDups := by
        rw [verbsOf_snoc collected, eraseDups_snoc, if_pos (by simpa using known)]
      have others : ∀ v, v ∈ verbsOf (outcomes ++ [o]) ↔ v ∈ verbsOf outcomes := by
        intro v
        rw [verbsOf_snoc collected, List.mem_append, List.mem_singleton]
        exact ⟨fun mem => mem.elim id fun same => same ▸ known, .inl⟩
      have joined : (subjectsOf (outcomes ++ [o]) o.verb).eraseDups =
          if (subjectsOf outcomes o.verb).contains o.subject then old else old ++ [o.subject] := by
        rw [subjectsOf_snoc collected, if_pos rfl, eraseDups_snoc, here]
      have there : old.contains o.subject = (subjectsOf outcomes o.verb).contains o.subject := by
        rw [here, Bool.eq_iff_iff, List.contains_iff_mem, List.contains_iff_mem, List.mem_eraseDups]
      have away : ∀ v, v ≠ o.verb → subjectsOf (outcomes ++ [o]) v = subjectsOf outcomes v := by
        intro v other
        rw [subjectsOf_snoc collected, if_neg (Ne.symm other), List.append_nil]
      split
      next twice =>
        refine ⟨by rw [alone_, alone], by rw [stays, verbs], ?_⟩
        intro v
        by_cases same : v = o.verb
        · subst same
          rw [some_, if_pos ((others _).mpr known), joined, ← there, if_pos twice]
        · rw [away v same, bucket v]
          simp only [others]
      next once =>
        refine ⟨by rw [alone_, alone], by rw [stays, verbs], ?_⟩
        intro v
        rw [Dict.get?_set]
        by_cases same : v = o.verb
        · subst same
          rw [if_pos rfl, if_pos ((others _).mpr known), joined, ← there, if_neg once]
        · rw [if_neg same, away v same, bucket v]
          simp only [others]

/-- The part that is made of a slot. -/
def Outcomes.part (m : Outcomes) : Slot → Part
  | .verbatim text => .alone text
  | .verb verb => .group verb ((m.grouped.get? verb).getD [])

/-- An action with an id names it. -/
def Action.Named : Action → Prop
  | .update taskId _ _ => taskId ≠ []
  | .delete taskId => taskId ≠ []
  | _ => True

/-- A creation takes an id. -/
lemma given_act (t : Tasks) (action : Action) : (t.act action).1.given = t.given + if action.creates then 1 else 0 := by
  cases action with
  | read => rfl
  | create content status => rfl
  | update id content status =>
    rw [Tasks.act]
    split
    · rfl
    · rfl
  | delete id => rfl
  | clear status => rfl

/-- Creations take ids. -/
lemma given_actAll (t : Tasks) (actions : List Action) : (t.actAll actions).1.given = t.given + actions.countP Action.creates := by
  induction actions generalizing t with
  | nil => rfl
  | cons action actions ih =>
    rw [Tasks.actAll, ih, given_act, List.countP_cons]
    omega

/-- The numbers that a run has given are those of its tasks. -/
lemma Tasks.Run.given {t' : Tasks} {rest : List (List TodoAction)} {done : List Action} {replies : List (Except String Text)}
    (run : Tasks.Run t rest done t' replies) : t'.given = t.given + done.countP Action.creates := by
  induction run with
  | nil => rfl
  | refused _ _ _ ih => exact ih
  | accepted _ _ _ _ ih =>
    rw [ih, given_actAll, List.countP_append, Nat.add_assoc]

end

end OpenAgentd.Tools.Todo
