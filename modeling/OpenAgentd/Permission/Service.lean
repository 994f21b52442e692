import OpenAgentd.Filesystem.Pattern
import OpenAgentd.Lib.Run
import Mathlib.Data.List.Basic

/-!
# Permissions

`app/agent/permission.py`: the rules for tool calls and the service that asks for approval. The last matching rule
wins, and what is approved with `always` becomes a rule of the session behind those of the base, so that a pattern
approved once is a wildcard from then on. `permissions_held` says what that can let through.
-/

namespace OpenAgentd.Permission
open Lib Filesystem

/-- `Action` -/
inductive Action where
  | allow
  | deny
  | ask
  deriving DecidableEq

/-- `Reply` -/
inductive Reply where
  | once
  | always
  | reject
  deriving DecidableEq

/-- `Rule` -/
structure Rule where
  permission : String
  pattern : String
  action : Action
  deriving DecidableEq

/-- The wildcards of a rule match a tool and a pattern. -/
def Rule.Covers (r : Rule) (tool pattern : String) : Prop :=
  fnmatch tool r.permission = true ∧ fnmatch pattern r.pattern = true

instance (r : Rule) (tool pattern : String) : Decidable (r.Covers tool pattern) :=
  inferInstanceAs (Decidable (_ ∧ _))

/-- `evaluate` -/
def evaluate (tool pattern : String) (rulesets : List (List Rule)) : Rule :=
  (rulesets.flatten.foldl (fun found rule => if rule.Covers tool pattern then some rule else found) none).getD
    { permission := tool, pattern := "*", action := .ask }

/-- `PermissionDeniedError` -/
structure PermissionDenied where
  tool : String
  pattern : String
  ruleset : List Rule
  deriving DecidableEq

/-- `PermissionRequest`, with the reply that its future holds. -/
structure PermissionRequest where
  id : Nat
  sessionId : String
  tool : String
  patterns : List String
  alwaysPatterns : List String
  metadata : List (String × String) := []
  future : Option Reply := none
  deriving DecidableEq

/-- `PermissionService`, or `AutoAllowPermissionService` when `auto` is set. `onAsk` says whether the service has a
callback of its own. -/
structure PermissionService where
  auto : Bool := false
  sessionId : String
  baseRuleset : List Rule
  sessionRuleset : List Rule := []
  pending : List PermissionRequest := []
  onAsk : Bool := false

/-- What an `ask` comes to: an error, a return with the request that was announced, or a request to wait for. -/
inductive Outcome where
  | denied (e : PermissionDenied)
  | passed (request : Option PermissionRequest)
  | waiting (request : PermissionRequest)
  deriving DecidableEq

namespace PermissionService
variable (s : PermissionService)

/-- The loop over the patterns, which says whether one of them has to be asked for. -/
def check (tool : String) : Bool → List String → Except PermissionDenied Bool
  | needsAsk, [] => .ok needsAsk
  | needsAsk, pattern :: patterns =>
    match (evaluate tool pattern [s.baseRuleset, s.sessionRuleset]).action with
    | .deny => .error { tool, pattern, ruleset := s.baseRuleset ++ s.sessionRuleset }
    | .ask => check tool true patterns
    | .allow => check tool needsAsk patterns

/-- `PermissionRequest.create` under a fresh id. -/
def create (id : Nat) (tool : String) (patterns : List String) (alwaysPatterns : Option (List String))
    (metadata : List (String × String)) : PermissionRequest where
  id
  sessionId := s.sessionId
  tool
  patterns
  alwaysPatterns := (alwaysPatterns.filter fun l => !l.isEmpty).getD patterns
  metadata

/-- The rules of a request that is allowed for good. -/
def alwaysRules (req : PermissionRequest) : List Rule :=
  req.alwaysPatterns.map fun p => { permission := req.tool, pattern := p, action := .allow }

/-- `ask`, of either service, with a callback of the call if `onAsk` is set. -/
def ask (id : Nat) (tool : String) (patterns : List String) (alwaysPatterns : Option (List String))
    (metadata : List (String × String)) (onAsk : Bool) : Outcome × PermissionService :=
  match s.check tool false patterns with
  | .error e => (.denied e, s)
  | .ok needsAsk =>
    let req := s.create id tool patterns alwaysPatterns metadata
    if s.auto then
      if s.onAsk || onAsk then
        (.passed (some req), { s with sessionRuleset := s.sessionRuleset ++ alwaysRules req })
      else (.passed none, s)
    else if needsAsk then (.waiting req, { s with pending := s.pending ++ [req] })
    else (.passed none, s)

/-- A reply is set on a request that has none. -/
def settle (requestId : Nat) (reply : Reply) (req : PermissionRequest) : PermissionRequest :=
  if req.id = requestId then { req with future := some (req.future.getD reply) } else req

/-- `reply`, with whether the request was found. -/
def reply (requestId : Nat) (reply : Reply) (sessionId : Option String) : Bool × PermissionService :=
  match s.pending.find? fun req => req.id = requestId with
  | none => (false, s)
  | some req =>
    if sessionId.any fun id => req.sessionId ≠ id then (false, s)
    else (true, { s with pending := s.pending.map (settle requestId reply) })

/-- `ask` behind its wait, when the reply of the request has come. -/
def resume (req : PermissionRequest) : PermissionService :=
  { s with
    pending := s.pending.filter fun r => r.id ≠ req.id
    sessionRuleset := s.sessionRuleset ++ if req.future = some .always then alwaysRules req else [] }

/-- An `ask` is cancelled at its wait. -/
def cancel (requestId : Nat) : PermissionService :=
  { s with pending := s.pending.filter fun r => r.id ≠ requestId }

end PermissionService

/-! ### Sessions -/

/-- A session's service, with the pairs that have been approved with `always`: by a reply, or by the service itself. -/
structure Session where
  service : PermissionService
  nextId : Nat := 0
  approved : List (String × String) := []

/-- What happens to the service. -/
inductive Event where
  | ask (tool : String) (patterns : List String) (alwaysPatterns : Option (List String))
      (metadata : List (String × String)) (onAsk : Bool)
  | reply (requestId : Nat) (reply : Reply) (sessionId : Option String)
  | resume (requestId : Nat)
  | cancel (requestId : Nat)

/-- The pairs that a request stands for. -/
def PermissionRequest.pairs (req : PermissionRequest) : List (String × String) :=
  req.alwaysPatterns.map fun p => (req.tool, p)

/-- The pairs that the service approves itself. -/
def Outcome.granted : Outcome → List (String × String)
  | .passed (some req) => req.pairs
  | _ => []

/-- The pairs that a reply approves. -/
def PermissionService.answered (s : PermissionService) (requestId : Nat) (reply : Reply)
    (sessionId : Option String) : List (String × String) :=
  if (s.reply requestId reply sessionId).1 ∧ reply = .always then
    (s.pending.filter fun req => req.id = requestId ∧ req.future = none).flatMap PermissionRequest.pairs
  else []

/-- One call, or the end of a wait. -/
inductive Step : Session → Event → Session → Prop where
  | ask {s tool patterns alwaysPatterns metadata onAsk} :
    Step s (.ask tool patterns alwaysPatterns metadata onAsk)
      { service := (s.service.ask s.nextId tool patterns alwaysPatterns metadata onAsk).2
        nextId := s.nextId + 1
        approved := s.approved ++ (s.service.ask s.nextId tool patterns alwaysPatterns metadata onAsk).1.granted }
  | reply {s requestId reply sessionId} :
    Step s (.reply requestId reply sessionId)
      { s with
        service := (s.service.reply requestId reply sessionId).2
        approved := s.approved ++ s.service.answered requestId reply sessionId }
  | resume {s req} :
    req ∈ s.service.pending →
    req.future ≠ none →
    Step s (.resume req.id) { s with service := s.service.resume req }
  | cancel {s requestId} :
    Step s (.cancel requestId) { s with service := s.service.cancel requestId }

/-- A session without approvals. -/
def Session.start (auto : Bool) (sessionId : String) (baseRuleset : List Rule) (onAsk : Bool) : Session where
  service := { auto := auto, sessionId := sessionId, baseRuleset := baseRuleset, onAsk := onAsk }

/-- An approved pair matches, as wildcards. -/
def Session.Approved (s : Session) (tool pattern : String) : Prop :=
  ∃ a ∈ s.approved, fnmatch tool a.1 = true ∧ fnmatch pattern a.2 = true

/-- What the approvals of a session leave of its base rules. -/
structure Held (base : List Rule) (s : Session) : Prop where
  denied : ∀ tool pattern patterns alwaysPatterns metadata onAsk, pattern ∈ patterns →
    (evaluate tool pattern [base]).action = .deny → ¬ s.Approved tool pattern →
    ∃ e, (s.service.ask s.nextId tool patterns alwaysPatterns metadata onAsk).1 = .denied e
  asked : ∀ tool pattern patterns alwaysPatterns metadata onAsk request, s.service.auto = false →
    pattern ∈ patterns → (evaluate tool pattern [base]).action = .ask →
    (s.service.ask s.nextId tool patterns alwaysPatterns metadata onAsk).1 = .passed request →
    s.Approved tool pattern

section
variable {base rules : List Rule} {s t : Session} {service : PermissionService} {tool pattern : String}
  {patterns : List String} {needsAsk : Bool} {req : PermissionRequest}

/-! ### Rules -/

/-- Rules that do not match do not count. -/
lemma evaluate_of_uncovered (uncovered : ∀ r ∈ rules, ¬ r.Covers tool pattern) :
    evaluate tool pattern [base, rules] = evaluate tool pattern [base] := by
  have skip : ∀ (rules : List Rule) (found : Option Rule), (∀ r ∈ rules, ¬ r.Covers tool pattern) →
      rules.foldl (fun found rule => if rule.Covers tool pattern then some rule else found) found = found := by
    intro rules
    induction rules with
    | nil => exact fun _ _ => rfl
    | cons r rules ih =>
      intro found uncovered
      rw [List.foldl_cons, if_neg (uncovered r List.mem_cons_self)]
      exact ih found fun r mem => uncovered r (List.mem_cons_of_mem _ mem)
  unfold evaluate
  simp only [List.flatten_cons, List.flatten_nil, List.append_nil, List.foldl_append]
  rw [skip rules _ uncovered]

/-- A denied pattern ends the loop. -/
lemma check_denied (mem : pattern ∈ patterns)
    (deny : (evaluate tool pattern [service.baseRuleset, service.sessionRuleset]).action = .deny) :
    ∃ e, service.check tool needsAsk patterns = .error e := by
  induction patterns generalizing needsAsk with
  | nil => cases mem
  | cons p patterns ih =>
    unfold PermissionService.check
    cases List.mem_cons.mp mem with
    | inl e =>
      rw [← e, deny]
      exact ⟨_, rfl⟩
    | inr mem =>
      split
      next => exact ⟨_, rfl⟩
      next => exact ih mem
      next => exact ih mem

/-- Without a need to ask every pattern is allowed. -/
lemma check_allowed (ok : service.check tool needsAsk patterns = .ok false) (mem : pattern ∈ patterns) :
    (evaluate tool pattern [service.baseRuleset, service.sessionRuleset]).action = .allow := by
  have needs : ∀ patterns, service.check tool true patterns ≠ .ok false := by
    intro patterns
    induction patterns with
    | nil => exact fun e => by cases e
    | cons p patterns ih =>
      unfold PermissionService.check
      split
      next => exact fun e => by cases e
      next => exact ih
      next => exact ih
  induction patterns generalizing needsAsk with
  | nil => cases mem
  | cons p patterns ih =>
    unfold PermissionService.check at ok
    split at ok
    next => cases ok
    next => exact absurd ok (needs patterns)
    next allow =>
      cases List.mem_cons.mp mem with
      | inl e => rw [e, allow]
      | inr mem => exact ih ok mem

/-! ### Approvals -/

/-- Every rule of the session comes from an approval. -/
structure Sound (base : List Rule) (s : Session) : Prop where
  base : s.service.baseRuleset = base
  rules : ∀ r ∈ s.service.sessionRuleset, r.action = .allow ∧ (r.permission, r.pattern) ∈ s.approved
  replies : ∀ req ∈ s.service.pending, req.future = some .always → ∀ a ∈ req.pairs, a ∈ s.approved

/-- What an always adds. -/
lemma mem_alwaysRules {r : Rule} (mem : r ∈ PermissionService.alwaysRules req) :
    r.action = .allow ∧ (r.permission, r.pattern) ∈ req.pairs := by
  obtain ⟨p, own, rfl⟩ := List.mem_map.mp mem
  exact ⟨rfl, List.mem_map.mpr ⟨p, own, rfl⟩⟩

/-- More approvals do no harm. -/
lemma Sound.approve (sound : Sound base s) (pairs : List (String × String)) :
    Sound base { s with approved := s.approved ++ pairs } where
  base := sound.base
  rules r mem := ⟨(sound.rules r mem).1, List.mem_append_left _ (sound.rules r mem).2⟩
  replies req mem always a mem' := List.mem_append_left _ (sound.replies req mem always a mem')

/-- Asking. -/
lemma Sound.ask (sound : Sound base s) {id : Nat} {alwaysPatterns : Option (List String)}
    {metadata : List (String × String)} {onAsk : Bool} :
    Sound base
      { service := (s.service.ask id tool patterns alwaysPatterns metadata onAsk).2
        nextId := s.nextId + 1
        approved := s.approved ++ (s.service.ask id tool patterns alwaysPatterns metadata onAsk).1.granted } := by
  have kept := sound.approve []
  unfold PermissionService.ask
  split
  next => exact ⟨kept.base, kept.rules, kept.replies⟩
  next needsAsk e =>
    dsimp only
    split
    next =>
      split
      next =>
        have kept := sound.approve (s.service.create id tool patterns alwaysPatterns metadata).pairs
        refine ⟨kept.base, fun r mem => ?_, kept.replies⟩
        cases List.mem_append.mp mem with
        | inl mem => exact kept.rules r mem
        | inr mem =>
          obtain ⟨allow, mem⟩ := mem_alwaysRules mem
          exact ⟨allow, List.mem_append_right _ mem⟩
      next => exact ⟨kept.base, kept.rules, kept.replies⟩
    next =>
      split
      next =>
        refine ⟨kept.base, kept.rules, fun req mem always => ?_⟩
        cases List.mem_append.mp mem with
        | inl mem => exact kept.replies req mem always
        | inr mem =>
          rw [List.mem_singleton.mp mem] at always
          cases always
      next => exact ⟨kept.base, kept.rules, kept.replies⟩

/-- A request with a reply of `always` had it before or has it from this reply. -/
lemma Sound.reply (sound : Sound base s) {id : Nat} {reply : Reply} {sessionId : Option String} :
    Sound base
      { s with
        service := (s.service.reply id reply sessionId).2
        approved := s.approved ++ s.service.answered id reply sessionId } := by
  unfold PermissionService.answered PermissionService.reply
  split
  next => exact sound.approve _
  next found e =>
    split
    next => exact sound.approve _
    next own =>
      refine ⟨sound.base, ?_, ?_⟩
      · intro r mem
        exact ⟨(sound.rules r mem).1, List.mem_append_left _ (sound.rules r mem).2⟩
      · intro req mem always a pair
        obtain ⟨old, own, rfl⟩ := List.mem_map.mp mem
        have pairs : (PermissionService.settle id reply old).pairs = old.pairs := by
          unfold PermissionService.settle
          split
          next => rfl
          next => rfl
        rw [pairs] at pair
        unfold PermissionService.settle at always
        split at always
        next this =>
          cases settled : old.future with
          | some earlier =>
            rw [settled] at always
            exact List.mem_append_left _ (sound.replies old own (settled.trans always) a pair)
          | none =>
            rw [settled] at always
            have reply : reply = .always := Option.some.inj always
            apply List.mem_append_right
            rw [if_pos ⟨rfl, reply⟩]
            exact List.mem_flatMap.mpr ⟨old, List.mem_filter.mpr ⟨own, by simp [this, settled]⟩, pair⟩
        next => exact List.mem_append_left _ (sound.replies old own always a pair)

/-- Resuming. -/
lemma Sound.resume (sound : Sound base s) (mem : req ∈ s.service.pending) :
    Sound base { s with service := s.service.resume req } where
  base := sound.base
  rules r new := by
    cases List.mem_append.mp new with
    | inl old => exact sound.rules r old
    | inr new =>
      split at new
      next always =>
        obtain ⟨allow, pair⟩ := mem_alwaysRules new
        exact ⟨allow, sound.replies req mem always _ pair⟩
      next => cases new
  replies req mem := sound.replies req (List.mem_of_mem_filter mem)

/-- Cancelling. -/
lemma Sound.cancel (sound : Sound base s) {id : Nat} : Sound base { s with service := s.service.cancel id } where
  base := sound.base
  rules := sound.rules
  replies req mem := sound.replies req (List.mem_of_mem_filter mem)

/-- A step keeps it sound. -/
lemma Sound.step {e : Event} (sound : Sound base s) (st : Step s e t) : Sound base t := by
  cases st with
  | ask => exact sound.ask
  | reply => exact sound.reply
  | resume mem _ => exact sound.resume mem
  | cancel => exact sound.cancel

/-- A rule of the session that matches is an approval that does. -/
lemma Sound.approved {r : Rule} (sound : Sound base s) (mem : r ∈ s.service.sessionRuleset)
    (covers : r.Covers tool pattern) : s.Approved tool pattern :=
  ⟨_, (sound.rules r mem).2, covers⟩

/-- Without an approval the base rules decide. -/
lemma Sound.evaluate (sound : Sound base s) (unapproved : ¬ s.Approved tool pattern) :
    evaluate tool pattern [s.service.baseRuleset, s.service.sessionRuleset] = evaluate tool pattern [base] := by
  rw [sound.base]
  exact evaluate_of_uncovered fun r mem covers => unapproved (sound.approved mem covers)

/-- What soundness gives. -/
lemma Sound.held (sound : Sound base s) : Held base s where
  denied tool pattern patterns alwaysPatterns metadata onAsk mem deny unapproved := by
    rw [← sound.evaluate unapproved] at deny
    have denied : ∃ e, s.service.check tool false patterns = .error e := check_denied mem deny
    obtain ⟨e, error⟩ := denied
    refine ⟨e, ?_⟩
    rw [PermissionService.ask, error]
  asked tool pattern patterns alwaysPatterns metadata onAsk request auto mem ask passed := by
    by_contra unapproved
    rw [← sound.evaluate unapproved] at ask
    unfold PermissionService.ask at passed
    split at passed
    next => cases passed
    next needsAsk ok =>
      simp only [auto, Bool.false_eq_true, if_false] at passed
      cases needsAsk with
      | true => cases passed
      | false =>
        rw [check_allowed ok mem] at ask
        cases ask

/-- What the base denies stays denied until an approval matches it, and a service that waits for replies lets what
the base asks for through without a request only behind an approval that matches it. -/
theorem permissions_held {auto onAsk : Bool} {sessionId : String} {events : List Event}
    (run : Run Step (Session.start auto sessionId base onAsk) events s) : Held base s := by
  have sound : Sound base s := by
    refine run.invariant ⟨rfl, ?_, ?_⟩ Sound.step
    · exact fun _ mem => absurd mem List.not_mem_nil
    · exact fun _ mem => absurd mem List.not_mem_nil
  exact sound.held

end

/-! ### A session -/

/-- Approvals of a session that stand for themselves only. -/
structure Unwidened (base : List Rule) (s : Session) : Prop where
  denied : ∀ tool pattern patterns alwaysPatterns metadata onAsk, pattern ∈ patterns →
    (evaluate tool pattern [base]).action = .deny →
    ∃ e, (s.service.ask s.nextId tool patterns alwaysPatterns metadata onAsk).1 = .denied e
  asked : ∀ tool pattern patterns alwaysPatterns metadata onAsk request, pattern ∈ patterns →
    (evaluate tool pattern [base]).action = .ask →
    (s.service.ask s.nextId tool patterns alwaysPatterns metadata onAsk).1 = .passed request →
    (tool, pattern) ∈ s.approved

/-- Base rules that deny every `rm`. -/
def noRemovals : List Rule := [{ permission := "shell", pattern := "rm *", action := .deny }]

/-- The request of a command that is a star. -/
def starRequest (future : Option Reply) : PermissionRequest :=
  { id := 0, sessionId := "s", tool := "shell", patterns := ["*"], alwaysPatterns := ["*"], future := future }

/-- The star is approved for good. -/
def starApproved : Session where
  service := { sessionId := "s", baseRuleset := noRemovals
               sessionRuleset := [{ permission := "shell", pattern := "*", action := .allow }] }
  nextId := 1
  approved := [("shell", "*")]

/-- Its run. -/
lemma starApproved_run : Run Step (Session.start false "s" noRemovals false)
    [.ask "shell" ["*"] none [] false, .reply 0 .always none, .resume 0] starApproved := by
  apply Run.cons (t := { service := { sessionId := "s", baseRuleset := noRemovals, pending := [starRequest none] }
                         nextId := 1 })
  · exact .ask
  · apply Run.cons (t := { service := { sessionId := "s", baseRuleset := noRemovals
                                        pending := [starRequest (some .always)] }
                           nextId := 1
                           approved := [("shell", "*")] })
    · exact .reply
    · have mem : starRequest (some .always) ∈ [starRequest (some .always)] := List.mem_cons_self
      have replied : (starRequest (some .always)).future ≠ none := by decide
      exact .single (.resume mem replied)

/-- Its permissions are held. -/
theorem starApproved_held : Held noRemovals starApproved := permissions_held starApproved_run

/-- A command that is approved as a star lets the denied commands through. -/
theorem approval_widens : ¬ ∀ (auto onAsk : Bool) (sessionId : String) (base : List Rule) (events : List Event)
    (s : Session), Run Step (Session.start auto sessionId base onAsk) events s → Unwidened base s := by
  intro all
  obtain ⟨e, denied⟩ := (all false false "s" noRemovals _ starApproved starApproved_run).denied "shell" "rm x" ["rm x"]
    none [] false List.mem_cons_self (by decide)
  have passed : (starApproved.service.ask starApproved.nextId "shell" ["rm x"] none [] false).1 = .passed none := by
    decide
  rw [passed] at denied
  cases denied

end OpenAgentd.Permission
