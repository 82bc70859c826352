import LocalEmu.Base.Run
import LocalEmu.Core.Protocol.OpRouter

/-!
# Routing REST Operations

The operation for a request is the one of its group that requires most, of those whose
required arguments are all there. A group with one operation requires nothing. For a group
with more, this is about the arguments that the rules still require: a value that an
earlier request was compared with is not required any more. So the router is the same as
a new one for a group, as long as no request to it has had an argument for which one of
its operations requires values.
-/

namespace LocalEmu.Protocol

open List Option

/-- The operations with a path and a method. -/
def candidates (operations : List OperationModel) (target : Target) : List HttpOperation :=
  (operations.map fromOperation).filter fun operation => decide (operation.target = target)

variable (operation : HttpOperation) (request : Request) (args : List (Text × Text))
  (required : List (Text × RequiredValues))

/-- The query arguments that are required are there with their values. -/
def HasArgs : Prop :=
  ∀ arg ∈ required, arg.1 ∈ args.map Prod.fst ∧ ∀ value ∈ arg.2.remaining, (arg.1, value) ∈ args

instance (args : List (Text × Text)) (required : List (Text × RequiredValues)) :
    Decidable (HasArgs args required) :=
  inferInstanceAs (Decidable (∀ arg ∈ required, _ ∧ ∀ value ∈ _, _))

def HasHeaders (headers required : List Text) : Prop :=
  ∀ key ∈ required, hasHeader headers key = true

instance (headers required : List Text) : Decidable (HasHeaders headers required) :=
  inferInstanceAs (Decidable (∀ key ∈ required, _))

/-- The required arguments of an operation are all there. -/
def Satisfied : Prop :=
  HasArgs request.args operation.queryArgs.entries ∧
    HasHeaders request.headers operation.headerArgs

instance (operation : HttpOperation) (request : Request) :
    Decidable (Satisfied operation request) := inferInstanceAs (Decidable (_ ∧ _))

def HttpOperation.score : Nat :=
  (RequiredArgsRule.new operation).matchScore

/-- A request has no argument that must have certain values. -/
def Untouched : Prop :=
  ∀ arg ∈ operation.queryArgs.entries, arg.2.remaining ≠ [] → arg.1 ∉ request.args.map Prod.fst

instance (operation : HttpOperation) (request : Request) :
    Decidable (Untouched operation request) :=
  inferInstanceAs (Decidable (∀ arg ∈ _, _ → _))

/-! ### Rules -/

theorem mem_getlist {args : List (Text × Text)} {key value : Text} :
    value ∈ getlist args key ↔ (key, value) ∈ args := by
  unfold getlist
  rw [List.mem_map]
  constructor
  · intro h
    rcases h with ⟨⟨key', value'⟩, harg, rfl⟩
    rw [mem_filter, decide_eq_true_eq] at harg
    rcases harg with ⟨harg, rfl⟩
    exact harg
  · exact fun h => ⟨(key, value), mem_filter.mpr ⟨h, decide_eq_true rfl⟩, rfl⟩

theorem consume_iff (present remaining : List Text) :
    (consume present remaining).1 = true ↔ ∀ value ∈ remaining, value ∈ present := by
  induction remaining with
  | nil => exact ⟨nofun, fun _ => rfl⟩
  | cons value remaining ih =>
    rw [consume, forall_mem_cons]
    by_cases hvalue : value ∈ present
    · rw [if_pos hvalue, ih]
      exact ⟨fun h => ⟨hvalue, h⟩, fun h => h.2⟩
    · rw [if_neg hvalue]
      exact ⟨nofun, fun h => absurd h.1 hvalue⟩

/-- When the required query arguments are there. -/
theorem matchArgs_iff : (matchArgs args required).1 = true ↔ HasArgs args required := by
  induction required with
  | nil => exact ⟨nofun, fun _ => rfl⟩
  | cons arg rest ih =>
    rcases arg with ⟨key, values⟩
    unfold HasArgs at ih ⊢
    rw [forall_mem_cons, matchArgs.eq_def, ← ih]
    dsimp only
    by_cases hkey : key ∈ args.map Prod.fst
    · rw [if_pos hkey]
      cases values with
      | any => exact ⟨fun h => ⟨⟨hkey, nofun⟩, h⟩, fun h => h.2⟩
      | iterator remaining =>
        have hconsume := consume_iff (getlist args key) remaining
        dsimp only
        by_cases hread : (consume (getlist args key) remaining).1 = true
        · rw [if_pos hread]
          refine ⟨fun h => ⟨⟨hkey, fun value hvalue => ?_⟩, h⟩, fun h => h.2⟩
          exact mem_getlist.mp (hconsume.mp hread _ hvalue)
        · rw [if_neg hread]
          refine ⟨nofun, fun h => absurd (hconsume.mpr fun value hvalue => ?_) hread⟩
          exact mem_getlist.mpr (h.1.2 value hvalue)
    · rw [if_neg hkey]
      exact ⟨nofun, fun h => absurd h.1.1 hkey⟩

theorem matchArgs_untouched
    (h : ∀ arg ∈ required, arg.2.remaining ≠ [] → arg.1 ∉ args.map Prod.fst) :
    (matchArgs args required).2 = required := by
  induction required with
  | nil => rfl
  | cons arg rest ih =>
    rcases arg with ⟨key, values⟩
    rw [forall_mem_cons] at h
    unfold matchArgs
    by_cases hkey : key ∈ args.map Prod.fst
    · rw [if_pos hkey]
      cases values with
      | any => exact congrArg _ (ih h.2)
      | iterator remaining =>
        have hnil : remaining = [] := by
          by_contra hne
          exact h.1 hne hkey
        subst hnil
        exact congrArg _ (ih h.2)
    · rw [if_neg hkey]

theorem matches_iff (rule : RequiredArgsRule) (request : Request) :
    (rule.matches request).1 = true ↔ HasArgs request.args rule.requiredQueryArgs ∧
      HasHeaders request.headers rule.requiredHeaderArgs := by
  unfold RequiredArgsRule.matches
  rw [Bool.and_eq_true, matchArgs_iff, List.all_eq_true]
  rfl

/-- The first rule that matches is a best one. -/
theorem matchRequest_sorted (rules : List RequiredArgsRule)
    (hsorted : rules.Pairwise fun a b => b.matchScore ≤ a.matchScore) :
    ((matchRequest request rules).1 = none ↔
      ∀ rule ∈ rules, (rule.matches request).1 = false) ∧
    ∀ endpoint ∈ (matchRequest request rules).1, ∃ rule ∈ rules, rule.endpoint = endpoint ∧
      (rule.matches request).1 = true ∧
      ∀ rule' ∈ rules, (rule'.matches request).1 = true → rule'.matchScore ≤ rule.matchScore := by
  induction rules with
  | nil => exact ⟨⟨fun _ => nofun, fun _ => rfl⟩, nofun⟩
  | cons rule rules ih =>
    rw [pairwise_cons] at hsorted
    rcases ih hsorted.2 with ⟨hnone, hsome⟩
    unfold matchRequest
    by_cases hmatches : (rule.matches request).1 = true
    · dsimp only
      rw [if_pos hmatches]
      refine ⟨⟨nofun, fun h => ?_⟩, fun endpoint hendpoint => ?_⟩
      · rw [h _ mem_cons_self] at hmatches
        cases hmatches
      · refine ⟨rule, mem_cons_self, some.inj hendpoint, hmatches, ?_⟩
        intro rule' hrule' _
        rcases mem_cons.mp hrule' with rfl | hrule'
        · exact Nat.le_refl _
        · exact hsorted.1 _ hrule'
    · dsimp only
      rw [if_neg hmatches]
      refine ⟨?_, fun endpoint hendpoint => ?_⟩
      · rw [forall_mem_cons, hnone]
        exact ⟨fun h => ⟨Bool.eq_false_iff.mpr hmatches, h⟩, fun h => h.2⟩
      · rcases hsome _ hendpoint with ⟨found, hfound, hendpoint', hmatch, hbest⟩
        refine ⟨found, mem_cons_of_mem _ hfound, hendpoint', hmatch, ?_⟩
        intro rule' hrule' hmatches'
        rcases mem_cons.mp hrule' with rfl | hrule'
        · exact absurd hmatches' hmatches
        · exact hbest _ hrule' hmatches'

theorem matchRequest_untouched (rules : List RequiredArgsRule)
    (h : ∀ rule ∈ rules, (rule.matches request).2 = rule) :
    (matchRequest request rules).2 = rules := by
  induction rules with
  | nil => rfl
  | cons rule rules ih =>
    rw [forall_mem_cons] at h
    unfold matchRequest
    dsimp only
    split
    · rw [h.1]
    · rw [h.1, ih h.2]

/-! ### Groups -/

/-- The rule of a group. -/
theorem get?_createServiceMap (operations : List OperationModel) (target : Target) :
    (createServiceMap operations).get? target =
      if candidates operations target = [] then none
      else some (Rule.new (candidates operations target)) := by
  rw [createServiceMap, Dict.get?_mapValues, Dict.get?_group, candidates]
  split
  · rfl
  · rfl

theorem new_of_two_le {operations : List HttpOperation} (h : 2 ≤ operations.length) :
    Rule.new operations = .matching (sortedRules operations) := by
  match operations with
  | [] => simp at h
  | [_] => simp at h
  | _ :: _ :: _ => rfl

theorem mem_sortedRules {operations : List HttpOperation} {rule : RequiredArgsRule} :
    rule ∈ sortedRules operations ↔ ∃ operation ∈ operations, .new operation = rule := by
  rw [sortedRules, (List.perm_insertionSort _ _).mem_iff, List.mem_map]

theorem sortedRules_sorted (operations : List HttpOperation) :
    (sortedRules operations).Pairwise fun a b => b.matchScore ≤ a.matchScore := by
  let ordered (a b : RequiredArgsRule) : Prop := b.matchScore ≤ a.matchScore
  exact pairwise_insertionSort _ _

theorem matches_new_iff :
    ((RequiredArgsRule.new operation).matches request).1 = true ↔ Satisfied operation request :=
  matches_iff _ _

theorem matches_new_untouched {operation : HttpOperation} {request : Request}
    (h : Untouched operation request) :
    ((RequiredArgsRule.new operation).matches request).2 = .new operation := by
  have hargs : (matchArgs request.args (RequiredArgsRule.new operation).requiredQueryArgs).2 =
      (RequiredArgsRule.new operation).requiredQueryArgs := matchArgs_untouched _ _ h
  unfold RequiredArgsRule.matches
  dsimp only
  rw [hargs]

theorem matchRequest_new (operations : List HttpOperation) (request : Request) :
    ((matchRequest request (sortedRules operations)).1 = none ↔
      ∀ operation ∈ operations, ¬Satisfied operation request) ∧
    ∀ endpoint ∈ (matchRequest request (sortedRules operations)).1,
      ∃ operation ∈ operations, operation.operation = endpoint ∧ Satisfied operation request ∧
        ∀ other ∈ operations, Satisfied other request → other.score ≤ operation.score := by
  rcases matchRequest_sorted _ _ (sortedRules_sorted _) with ⟨hnone, hsome⟩
  refine ⟨hnone.trans ⟨fun h operation hmem hsat => ?_, fun h rule hrule => ?_⟩,
    fun endpoint hendpoint => ?_⟩
  · have hfalse := h _ (mem_sortedRules.mpr ⟨operation, hmem, rfl⟩)
    rw [(matches_new_iff _ _).mpr hsat] at hfalse
    cases hfalse
  · rcases mem_sortedRules.mp hrule with ⟨operation, hmem, rfl⟩
    exact Bool.eq_false_iff.mpr fun hmatch => h _ hmem ((matches_new_iff _ _).mp hmatch)
  · rcases hsome _ hendpoint with ⟨rule, hrule, hsame, hmatch, hbest⟩
    rcases mem_sortedRules.mp hrule with ⟨operation, hmem, rfl⟩
    refine ⟨operation, hmem, hsame, (matches_new_iff _ _).mp hmatch, fun other hother hsat => ?_⟩
    exact hbest _ (mem_sortedRules.mpr ⟨other, hother, rfl⟩) ((matches_new_iff _ _).mpr hsat)

/-! ### Runs -/

/-- A request is routed. -/
def Handles (matcher : Matcher) (router : Router) (call : Request × Outcome) (router' : Router) :
    Prop :=
  router.match matcher call.1 = (call.2, router')

/-- The path and the method that a request is matched to. -/
def matchedTarget (matcher : Matcher) (operations : List OperationModel) (request : Request) :
    Option (Target × List (Text × Text)) :=
  ((Router.new operations).find matcher request).toOption

/-- No request of a group had an argument for which an operation of it requires values. -/
def Unread (matcher : Matcher) (operations : List OperationModel) (target : Target)
    (calls : List (Request × Outcome)) : Prop :=
  ∀ call ∈ calls, ∀ matched ∈ matchedTarget matcher operations call.1, matched.1 = target →
    ∀ operation ∈ candidates operations target, Untouched operation call.1

variable {matcher : Matcher} {operations : List OperationModel}

variable {router : Router}

theorem Handles.after {router' : Router} {call : Request × Outcome}
    (h : Handles matcher router call router') : router' = (router.match matcher call.1).2 :=
  (congrArg Prod.snd h).symm

theorem keys_match (router : Router) (request : Request) :
    (router.match matcher request).2.map.keys = router.map.keys := by
  unfold Router.match
  split
  · rfl
  · split
    · rfl
    · rfl
    · next target args _ _ rules hget =>
      have hmem : target ∈ router.map.keys := by
        by_contra hnot
        rw [(Dict.get?_eq_none_iff _ _).mpr hnot] at hget
        cases hget
      exact (Dict.keys_set _ _ _).trans (if_pos hmem)

variable {request : Request} {calls : List (Request × Outcome)}

theorem keys_of_runs (hrun : Runs (Handles matcher) (.new operations) calls router) :
    router.map.keys = (Router.new operations).map.keys := by
  refine Runs.invariant (P := fun router => router.map.keys = (Router.new operations).map.keys)
    (fun s call t hs hstep => ?_) hrun rfl
  rw [hstep.after, keys_match, hs]

theorem find_of_keys (h : router.map.keys = (Router.new operations).map.keys) (request : Request) :
    router.find matcher request = (Router.new operations).find matcher request := by
  unfold Router.find
  rw [h]

variable {target : Target}

/-- A request of another group leaves a group as it is, and so does one of the group that has no
    argument that must have certain values. -/
theorem get?_match (hkeys : router.map.keys = (Router.new operations).map.keys)
    (hget : router.map.get? target = (Router.new operations).map.get? target)
    (huntouched : ∀ matched ∈ matchedTarget matcher operations request, matched.1 = target →
      ∀ operation ∈ candidates operations target, Untouched operation request) :
    (router.match matcher request).2.map.get? target = (Router.new operations).map.get? target := by
  unfold Router.match
  rw [find_of_keys hkeys]
  cases hfind : (Router.new operations).find matcher request with
  | error error => exact hget
  | ok matched =>
    rcases matched with ⟨found, args⟩
    dsimp only
    split
    · exact hget
    · exact hget
    · next rules hrules =>
      rw [Dict.get?_set]
      by_cases hsame : target = found
      · subst hsame
        rw [if_pos rfl, ← hget, hrules]
        rw [hget, Router.new, get?_createServiceMap] at hrules
        have hcandidates := huntouched (target, args) (by rw [matchedTarget, hfind]; rfl) rfl
        split at hrules
        · cases hrules
        · rw [matchRequest_untouched]
          intro rule hrule
          unfold Rule.new at hrules
          split at hrules
          · cases hrules
          · cases hrules
            rcases mem_sortedRules.mp hrule with ⟨operation, hmem, rfl⟩
            exact matches_new_untouched (hcandidates _ hmem)
      · rw [if_neg hsame]
        exact hget

/-- A group that no request has touched is as it was. -/
theorem unread_of_runs (hrun : Runs (Handles matcher) (.new operations) calls router)
    (hunread : Unread matcher operations target calls) :
    router.map.get? target = (Router.new operations).map.get? target := by
  induction calls using reverseRecOn generalizing router with
  | nil =>
    cases hrun
    rfl
  | append_singleton calls call ih =>
    rcases hrun.split with ⟨s, hbefore, hlast⟩
    cases hlast with
    | cons _ t _ _ _ hstep hnil =>
      cases hnil
      have hget := ih hbefore fun call hcall =>
        hunread _ (mem_append.mpr (.inl hcall))
      rw [hstep.after]
      exact get?_match (keys_of_runs hbefore) hget (hunread _ (mem_append.mpr (.inr mem_cons_self)))

theorem get?_strict_of_runs {endpoint : OperationModel}
    (hrun : Runs (Handles matcher) (.new operations) calls router)
    (h : (Router.new operations).map.get? target = some (.strict endpoint)) :
    router.map.get? target = some (.strict endpoint) := by
  refine Runs.invariant (P := fun router => router.map.get? target = some (.strict endpoint))
    (fun s call t hs hstep => ?_) hrun h
  rw [hstep.after]
  unfold Router.match
  split
  · exact hs
  · split
    · exact hs
    · exact hs
    · next found _ _ _ rules hrules =>
      rw [Dict.get?_set, if_neg, hs]
      rintro rfl
      rw [hs] at hrules
      cases hrules

/-! ### Routing -/

/-- What a group with more than one operation makes of a request: the outcome is that of a new
    router, and it is one of the operations that require most, of those whose required arguments
    are there. -/
def RoutedByArgs (matcher : Matcher) (operations : List OperationModel) (request : Request)
    (target : Target) (args : List (Text × Text)) (outcome : Outcome) : Prop :=
  outcome = ((Router.new operations).match matcher request).1 ∧
  (outcome = none ↔ ∀ operation ∈ candidates operations target, ¬Satisfied operation request) ∧
  ∀ chosen ∈ outcome, ∃ operation ∈ candidates operations target,
    chosen = (operation.operation, postProcessArgs args) ∧ Satisfied operation request ∧
    ∀ other ∈ candidates operations target, Satisfied other request →
      other.score ≤ operation.score

variable {args : List (Text × Text)}

theorem match_of_matching {rules : List RequiredArgsRule}
    (h : router.find matcher request = .ok (target, args))
    (hget : router.map.get? target = some (.matching rules)) :
    (router.match matcher request).1 =
      (matchRequest request rules).1.map fun endpoint => (endpoint, postProcessArgs args) := by
  unfold Router.match
  rw [h]
  dsimp only
  rw [hget]

theorem routedByArgs_of_unread (hkeys : router.map.keys = (Router.new operations).map.keys)
    (hfind : (Router.new operations).find matcher request = .ok (target, args))
    (htwo : 2 ≤ (candidates operations target).length)
    (hget : router.map.get? target = (Router.new operations).map.get? target) :
    RoutedByArgs matcher operations request target args (router.match matcher request).1 := by
  have hnew : (Router.new operations).map.get? target =
      some (.matching (sortedRules (candidates operations target))) := by
    rw [Router.new, get?_createServiceMap, if_neg, new_of_two_le htwo]
    intro hnil
    rw [hnil] at htwo
    cases htwo
  have hmatch := match_of_matching ((find_of_keys hkeys _).trans hfind) (hget.trans hnew)
  rcases matchRequest_new _ _ with ⟨hnone, hsome⟩
  refine ⟨?_, ?_, fun chosen hchosen => ?_⟩
  · rw [hmatch, match_of_matching hfind hnew]
  · rw [hmatch, map_eq_none_iff, hnone]
  · rw [hmatch] at hchosen
    rcases map_eq_some_iff.mp hchosen with ⟨endpoint, hendpoint, rfl⟩
    rcases hsome _ hendpoint with ⟨operation, hmem, rfl, hsat, hbest⟩
    exact ⟨operation, hmem, rfl, hsat, hbest⟩

/-- How a request of a run is routed. If its path and method match nothing, there is no outcome. If
    they match one operation, that is the outcome. If they match more, the arguments decide, as
    long as no earlier request of the group had one for which an operation requires values. -/
theorem routes_by_request (matcher : Matcher) (operations : List OperationModel)
    (calls : List (Request × Outcome)) (router : Router)
    (hrun : Runs (Handles matcher) (.new operations) calls router) :
    ∀ before request outcome after, calls = before ++ (request, outcome) :: after →
      (matchedTarget matcher operations request = none → outcome = none) ∧
      ∀ target args, matchedTarget matcher operations request = some (target, args) →
        candidates operations target ≠ [] ∧
        (∀ operation, candidates operations target = [operation] →
          outcome = some (operation.operation, postProcessArgs args)) ∧
        (2 ≤ (candidates operations target).length → Unread matcher operations target before →
          RoutedByArgs matcher operations request target args outcome) := by
  rintro before request outcome after rfl
  rcases hrun.split with ⟨s, hbefore, hrest⟩
  have hkeys := keys_of_runs hbefore
  cases hrest with
  | cons _ t _ _ _ hstep _ =>
    have houtcome : outcome = (s.match matcher request).1 := (congrArg Prod.fst hstep).symm
    subst houtcome
    refine ⟨fun hnone => ?_, fun target args hsome => ?_⟩
    · unfold matchedTarget at hnone
      cases hfind : (Router.new operations).find matcher request with
      | error error => rw [Router.match, (find_of_keys hkeys _).trans hfind]
      | ok matched =>
        rw [hfind] at hnone
        cases hnone
    · have hfind : (Router.new operations).find matcher request = .ok (target, args) := by
        unfold matchedTarget at hsome
        cases hfind : (Router.new operations).find matcher request with
        | error error =>
          rw [hfind] at hsome
          cases hsome
        | ok matched =>
          rw [hfind] at hsome
          rw [some.inj hsome]
      -- The matcher returns one of the targets, and these have operations.
      have hmem := matcher.find_mem _ _ _ _ _ _ hfind
      have hcandidates : candidates operations target ≠ [] := by
        intro hnil
        have hget := get?_createServiceMap operations target
        rw [if_pos hnil, Dict.get?_eq_none_iff] at hget
        exact hget hmem
      refine ⟨hcandidates, fun operation hone => ?_, fun htwo hunread => ?_⟩
      · unfold Router.match
        rw [(find_of_keys hkeys _).trans hfind]
        dsimp only
        rw [get?_strict_of_runs hbefore]
        rw [Router.new, get?_createServiceMap, hone]
        rfl
      · exact routedByArgs_of_unread hkeys hfind htwo (unread_of_runs hbefore hunread)

/-! ### Examples -/

def exampleMatcher : Matcher where
  find targets _ path method :=
    if (path, method) ∈ targets then .ok ((path, method), []) else .error .notFound
  find_mem targets host path method target args h := by
    split at h
    · next hmem =>
      cases h
      exact hmem
    · cases h

def exampleOperation (name requestUri : String) (members : List Member) : OperationModel :=
  ⟨name.toList, none, requestUri.toList, "POST".toList, false, members⟩

def exampleOperations : List OperationModel :=
  [exampleOperation "CreateApiKey" "/apikeys" [],
    exampleOperation "ImportApiKeys" "/apikeys?mode=import" [],
    exampleOperation "GetUsage" "/usage" [⟨some "header".toList, "x-usage".toList⟩]]

def exampleRequest (path : String) (args : List (String × String)) : Request :=
  ⟨"localhost".toList, "POST".toList, path.toList,
    args.map fun arg => (arg.1.toList, arg.2.toList), []⟩

def exampleRouter (request : Request) : Router :=
  ((Router.new exampleOperations).match exampleMatcher request).2

def exampleOutcomes (request request' : Request) : Outcome × Outcome :=
  (((Router.new exampleOperations).match exampleMatcher request).1,
    ((exampleRouter request).match exampleMatcher request').1)

theorem runs_exampleOutcomes (request request' : Request) : ∃ router,
    Runs (Handles exampleMatcher) (.new exampleOperations)
      [(request, (exampleOutcomes request request').1),
        (request', (exampleOutcomes request request').2)] router :=
  ⟨_, .cons _ (exampleRouter request) _ _ _ rfl (.cons _ _ _ _ _ rfl (.nil _))⟩

def Outcome.name (outcome : Outcome) : Option Text := outcome.map fun chosen => chosen.1.name

def exampleImport : Request := exampleRequest "/apikeys" [("mode", "import")]

/-- Keys are created, and then imported. -/
theorem routes_by_request_of_exampleImport :
    Outcome.name (exampleOutcomes (exampleRequest "/apikeys" []) exampleImport).2 =
      some "ImportApiKeys".toList ∧
    RoutedByArgs exampleMatcher exampleOperations exampleImport
      ("/apikeys".toList, "POST".toList) []
      (exampleOutcomes (exampleRequest "/apikeys" []) exampleImport).2 := by
  refine ⟨by decide +kernel, ?_⟩
  rcases runs_exampleOutcomes _ _ with ⟨router, hrun⟩
  have hrouted := (routes_by_request _ _ _ _ hrun
    [(exampleRequest "/apikeys" [], (exampleOutcomes (exampleRequest "/apikeys" [])
      exampleImport).1)] _ _ [] rfl).2 ("/apikeys".toList, "POST".toList) []
    (by decide +kernel)
  refine hrouted.2.2 (by decide +kernel) fun call hcall => ?_
  rw [mem_singleton.mp hcall]
  decide +kernel

/-- After an import, keys are imported whatever the mode is, and not so in a new router. And the
    operation for usage is chosen without its header. -/
theorem consumed_mode_of_exampleImport :
    Outcome.name (exampleOutcomes exampleImport (exampleRequest "/apikeys" [("mode", "none")])).2 =
      some "ImportApiKeys".toList ∧
    Outcome.name (exampleOutcomes (exampleRequest "/apikeys" [("mode", "none")]) exampleImport).1 =
      some "CreateApiKey".toList ∧
    Outcome.name (exampleOutcomes (exampleRequest "/usage" []) exampleImport).1 =
      some "GetUsage".toList ∧
    ¬Satisfied (fromOperation (exampleOperation "ImportApiKeys" "/apikeys?mode=import" []))
      (exampleRequest "/apikeys" [("mode", "none")]) ∧
    ¬Satisfied (fromOperation
      (exampleOperation "GetUsage" "/usage" [⟨some "header".toList, "x-usage".toList⟩]))
      (exampleRequest "/usage" []) := by
  decide +kernel

end LocalEmu.Protocol
