import LocalEmu.Theory.Iam.Denial

/-!
# The Order of Statements

Whether the decision depends on the order of the statements and policies, and
what one more statement does to it.

Every step of the evaluation is a scan, so the order matters where a step has
both a statement that matches and one that raises: the one that comes first
decides. Any statement of a group of policies can come first in some order, so
the possible results over all orders are exactly the possible results of the
chain, and the decision is independent of the order if and only if the chain is
settled.

One more statement is another matter. A `Deny` can only be found by the steps
that deny, and an `Allow` only by the steps that allow, wherever it stands.
-/

namespace LocalEmu.Iam

open List Option

variable (py : Builtins)

/-! ### Orders of statements and policies -/

variable (members : List (String × Json)) (request : Request) (policies : Policies)
  (f : Json → Except PyError Bool) (key : String) (value : Json)

/-- `d[key] = value` on the members of a dictionary. -/
def setMember : List (String × Json) :=
  if (members.lookup key).isSome then
    members.map fun member => if member.1 = key then (key, value) else member
  else members ++ [(key, value)]

theorem lookup_map_set (h : (members.lookup key).isSome) :
    (members.map fun member => if member.1 = key then (key, value) else member).lookup key =
      some value := by
  induction members with
  | nil => cases h
  | cons member members ih =>
    rw [map_cons]
    by_cases hk : member.1 = key
    · rw [if_pos hk, lookup_cons, beq_self_eq_true]
    · have hb : (key == member.1) = false := by
        rw [beq_eq_false_iff_ne]
        exact fun he => hk he.symm
      rw [lookup_cons, hb] at h
      rw [if_neg hk, lookup_cons, hb]
      exact ih h

theorem lookup_append_new
    (h : members.lookup key = none) : (members ++ [(key, value)]).lookup key = some value := by
  induction members with
  | nil => rw [nil_append, lookup_cons, beq_self_eq_true]
  | cons member members ih =>
    rw [cons_append, lookup_cons]
    rw [lookup_cons] at h
    rcases hb : key == member.1 with _ | _
    · rw [hb] at h
      exact ih h
    · rw [hb] at h
      cases h

theorem lookup_setMember : (setMember members key value).lookup key = some value := by
  unfold setMember
  rcases h : members.lookup key with _ | old
  · exact lookup_append_new _ _ _ h
  · exact lookup_map_set _ _ _ (by rw [h]; rfl)

theorem setMember_ne_nil : (setMember members key value).isEmpty = false := by
  have h := lookup_setMember members key value
  rcases hm : setMember members key value with _ | ⟨member, rest⟩
  · rw [hm] at h
    cases h
  · rfl

/-- A policy with the statements of its list in another order. -/
inductive Reordered : Json → Json → Prop
  | refl (policy : Json) : Reordered policy policy
  | permuted (members : List (String × Json)) (items items' : List Json) :
      members.lookup "Statement" = some (.arr items) → items.Perm items' →
      Reordered (.obj members) (.obj (setMember members "Statement" (.arr items')))

/-- A list of policies in another order, each with its statements in another order. -/
def ReorderedList (policies policies' : List Json) : Prop :=
  ∃ permuted, policies.Perm permuted ∧ List.Forall₂ Reordered permuted policies'

/-- The policies of a request with their statements, and the identity and the
    session policies themselves, in another order. -/
structure Policies.Reordered (policies policies' : Policies) : Prop where
  identity : ReorderedList policies.identity policies'.identity
  resource : Iam.Reordered policies.resource policies'.resource
  boundary : Iam.Reordered policies.boundary policies'.boundary
  session : ReorderedList policies.session policies'.session

theorem ReorderedList.refl (policies : List Json) : ReorderedList policies policies :=
  ⟨policies, List.Perm.refl _, forall₂_same.mpr fun policy _ => .refl policy⟩

theorem Policies.Reordered.refl : policies.Reordered policies :=
  ⟨ReorderedList.refl _, .refl _, .refl _, ReorderedList.refl _⟩

theorem iterPolicyStatements_arr (items : List Json)
    (h : members.lookup "Statement" = some (.arr items)) :
    iterPolicyStatements (.obj members) = items.filter Json.isObj := by
  simp only [iterPolicyStatements, Json.get, h, getD_some]

variable {policy policy' : Json}

theorem Reordered.statements_perm (h : Reordered policy policy') :
    (iterPolicyStatements policy).Perm (iterPolicyStatements policy') := by
  cases h with
  | refl => exact List.Perm.refl _
  | permuted members items items' hl hp =>
    rw [iterPolicyStatements_arr _ _ hl, iterPolicyStatements_arr _ _ (lookup_setMember _ _ _)]
    exact hp.filter _

theorem Reordered.truthy (h : Reordered policy policy') :
    policy'.truthy = policy.truthy := by
  cases h with
  | refl => rfl
  | permuted members items items' hl =>
    rcases members with _ | ⟨member, members⟩
    · cases hl
    · simp only [Json.truthy, setMember_ne_nil]
      rfl

theorem forall₂_statements_perm {policies policies' : List Json}
    (h : List.Forall₂ Reordered policies policies') :
    (statements policies).Perm (statements policies') := by
  induction h with
  | nil => exact List.Perm.refl _
  | cons hp _ ih =>
    exact hp.statements_perm.append ih

theorem ReorderedList.statements_perm {policies policies' : List Json}
    (h : ReorderedList policies policies') :
    (statements policies).Perm (statements policies') := by
  rcases h with ⟨permuted, hp, hf⟩
  exact (hp.flatMap_right _).trans (forall₂_statements_perm hf)

theorem ReorderedList.isEmpty {policies policies' : List Json}
    (h : ReorderedList policies policies') : policies'.isEmpty = policies.isEmpty := by
  rcases h with ⟨permuted, hp, hf⟩
  rcases policies with _ | _ <;> rcases policies' with _ | _ <;> simp_all

theorem Reordered.present (h : Reordered policy policy') :
    (statements policy.present).Perm (statements policy'.present) := by
  unfold Json.present
  rw [h.truthy]
  rcases policy.truthy with _ | _
  · exact List.Perm.refl _
  · exact forall₂_statements_perm (List.Forall₂.cons h List.Forall₂.nil)

variable (policy statement : Json)

theorem exists_reordered_first (h : statement ∈ iterPolicyStatements policy) :
    ∃ policy' rest, Reordered policy policy' ∧
      iterPolicyStatements policy' = statement :: rest := by
  rcases policy with _ | _ | _ | _ | _ | _ | members
  case obj =>
      rcases hl : members.lookup "Statement" with _ | value
      · simp only [iterPolicyStatements, Json.get, hl, getD_none] at h
        cases h
      · rcases value with _ | _ | _ | _ | _ | items | single
        case arr =>
            rw [iterPolicyStatements_arr _ _ hl, mem_filter] at h
            rcases append_of_mem h.1 with ⟨before, after, rfl⟩
            refine ⟨_, (before ++ after).filter Json.isObj,
              Reordered.permuted members _ (statement :: (before ++ after)) hl
                perm_middle, ?_⟩
            rw [iterPolicyStatements_arr _ _ (lookup_setMember _ _ _), filter_cons_of_pos h.2]
        case obj =>
            have hi : iterPolicyStatements (.obj members) = [.obj single] := by
              simp only [iterPolicyStatements, Json.get, hl, getD_some]
            rw [hi, mem_singleton] at h
            exact ⟨_, [], .refl _, by rw [hi, h]⟩
        all_goals
          simp only [iterPolicyStatements, Json.get, hl, getD_some] at h
          cases h
  all_goals cases h

theorem exists_reorderedList_first (policies : List Json) (statement : Json)
    (h : statement ∈ statements policies) :
    ∃ policies' rest, ReorderedList policies policies' ∧
      statements policies' = statement :: rest := by
  rcases mem_flatMap.mp h with ⟨policy, hp, hs⟩
  rcases append_of_mem hp with ⟨before, after, rfl⟩
  rcases exists_reordered_first _ _ hs with ⟨policy', rest, hr, hi⟩
  refine ⟨policy' :: (before ++ after), rest ++ statements (before ++ after),
    ⟨policy :: (before ++ after), perm_middle, List.Forall₂.cons hr ?_⟩, ?_⟩
  · exact forall₂_same.mpr fun p _ => .refl p
  · rw [statements, flatMap_cons, hi]
    rfl

theorem statements_present :
    statements policy.present = if policy.truthy then iterPolicyStatements policy else [] := by
  unfold Json.present
  rcases policy.truthy with _ | _
  · rfl
  · exact append_nil _

theorem exists_present_first (h : statement ∈ statements policy.present) :
    ∃ policy' rest, Reordered policy policy' ∧ statements policy'.present = statement :: rest := by
  rw [statements_present] at h
  rcases ht : policy.truthy with _ | _
  · rw [ht] at h
    cases h
  · rw [ht] at h
    rcases exists_reordered_first _ _ h with ⟨policy', rest, hr, hi⟩
    exact ⟨policy', rest, hr, by rw [statements_present, hr.truthy, ht, if_pos rfl, hi]⟩

/-! ### The evaluation in any order -/

/-- The steps of an evaluation in any order. -/
def gates : List (Gate Decision) :=
  let session := getSessionPolicies request.caller policies.session
  [.scanning denyRule (denies py request false) (statements policies.identity),
   .scanning denyRule (denies py request true) (statements policies.resource.present),
   .scanning denyRule (denies py request false) (statements policies.boundary.present),
   .scanning grantRule (grants py request) (statements policies.resource.present),
   .scanning (requireRule true) (allows py request) (statements policies.identity),
   .scanning (requireRule policies.boundary.truthy) (allows py request)
     (statements policies.boundary.present),
   .scanning (requireRule !session.isEmpty) (allows py request) (statements session)]

variable (g : Json → Except PyError Bool) (caller : CallerIdentity)

theorem getSessionPolicies_reordered {session session' : List Json}
    (h : ReorderedList session session') :
    ReorderedList (getSessionPolicies caller session) (getSessionPolicies caller session') := by
  unfold getSessionPolicies
  by_cases hc : caller.principalType = .assumedRole ∨ caller.principalType = .federatedUser
  · rw [if_pos hc, if_pos hc]
    exact h
  · rw [if_neg hc, if_neg hc]
    exact ReorderedList.refl []

/-- The results over all orders are the possible results of the chain. -/
theorem ends_of_reordered (policies' : Policies) (h : policies.Reordered policies') :
    Ends (gates py request policies) (steps py request policies') := by
  have hi := h.identity.statements_perm
  have hr := h.resource.present
  have hb := h.boundary.present
  have hs := getSessionPolicies_reordered request.caller h.session
  have scans : ∀ (f : Json → Except PyError Bool) (l l' : List Json), l.Perm l' →
      MayEnd f l (scan f l') :=
    fun f l l' hp => (mayEnd_perm f l l' hp _).mpr (mayEnd_scan f l')
  refine .cons ⟨rfl, scans _ _ _ hi⟩ <| .cons ⟨rfl, scans _ _ _ hr⟩ <|
    .cons ⟨rfl, scans _ _ _ hb⟩ <| .cons ⟨rfl, scans _ _ _ hr⟩ <|
    .cons ⟨rfl, scans _ _ _ hi⟩ <| .cons ⟨?_, scans _ _ _ hb⟩ <|
    .cons ⟨?_, scans _ _ _ hs.statements_perm⟩ .nil
  · exact congrArg requireRule h.boundary.truthy
  · exact congrArg (fun b => requireRule !b) hs.isEmpty

theorem exists_reorderedList (policies : List Json) (o o' : Outcome)
    (hf : MayEnd f (statements policies) o)
    (hg : MayEnd g (statements policies) o') :
    ∃ policies', ReorderedList policies policies' ∧ scan f (statements policies') = o ∧
      (o = .miss → scan g (statements policies') = o') :=
  exists_order f g policies statements (ReorderedList policies) (ReorderedList.refl _)
    (exists_reorderedList_first _) (fun _ hr => hr.statements_perm) o o' hf hg

theorem exists_reordered (policy : Json) (o o' : Outcome)
    (hf : MayEnd f (statements policy.present) o)
    (hg : MayEnd g (statements policy.present) o') :
    ∃ policy', Reordered policy policy' ∧ scan f (statements policy'.present) = o ∧
      (o = .miss → scan g (statements policy'.present) = o') :=
  exists_order f g policy (fun policy' => statements policy'.present) (Reordered policy)
    (.refl policy) (exists_present_first _) (fun _ hr => hr.present) o o' hf hg

theorem exists_reordered_session (session : List Json) (o : Outcome)
    (h : MayEnd f (statements (getSessionPolicies caller session)) o) :
    ∃ session', ReorderedList session session' ∧
      scan f (statements (getSessionPolicies caller session')) = o := by
  by_cases hc : caller.principalType = .assumedRole ∨ caller.principalType = .federatedUser
  · have hget : ∀ policies, getSessionPolicies caller policies = policies :=
      fun policies => if_pos hc
    rw [hget] at h
    rcases exists_reorderedList f f _ o o h h with ⟨session', hr, hs, -⟩
    exact ⟨session', hr, by rw [hget]; exact hs⟩
  · have hget : ∀ policies, getSessionPolicies caller policies = [] :=
      fun policies => if_neg hc
    rw [hget] at h
    refine ⟨session, ReorderedList.refl _, ?_⟩
    rw [hget]
    by_cases ho : o = .miss
    · rw [ho]
      rfl
    · rcases h.exists_mem ho with ⟨a, ha, -⟩
      cases ha

/-- Whatever the steps of an evaluation may result in, some order of the
    policies and their statements does. -/
theorem exists_reordered_evaluation (h : request.caller.principalType ≠ .root) (r : Option Decision)
    (hp : Possible .allow (gates py request policies) r) :
    ∃ policies', policies.Reordered policies' ∧ (evaluate py request policies').toOption = r := by
  rcases exists_outcomes .allow _ r hp with ⟨outcomes, he, hs⟩
  rcases he with _ | @⟨_, ⟨_, d₁⟩, _, _, ⟨rfl, hd₁⟩, he⟩
  rcases he with _ | @⟨_, ⟨_, d₂⟩, _, _, ⟨rfl, hd₂⟩, he⟩
  rcases he with _ | @⟨_, ⟨_, d₃⟩, _, _, ⟨rfl, hd₃⟩, he⟩
  rcases he with _ | @⟨_, ⟨_, g₂⟩, _, _, ⟨rfl, hg₂⟩, he⟩
  rcases he with _ | @⟨_, ⟨_, a₁⟩, _, _, ⟨rfl, ha₁⟩, he⟩
  rcases he with _ | @⟨_, ⟨_, a₃⟩, _, _, ⟨rfl, ha₃⟩, he⟩
  rcases he with _ | @⟨_, ⟨_, a₄⟩, _, _, ⟨rfl, ha₄⟩, he⟩
  rcases he with _ | _
  rcases exists_reorderedList _ _ _ _ _ hd₁ ha₁ with ⟨identity, hi, h₁, h₁'⟩
  rcases exists_reordered _ _ _ _ _ hd₂ hg₂ with ⟨resource, hr, h₂, h₂'⟩
  rcases exists_reordered _ _ _ _ _ hd₃ ha₃ with ⟨boundary, hb, h₃, h₃'⟩
  rcases exists_reordered_session _ _ _ _ ha₄ with ⟨session, hn, h₄⟩
  refine ⟨⟨identity, resource, boundary, session⟩, ⟨hi, hr, hb, hn⟩, ?_⟩
  rw [evaluate_eq_settle py _ _ h, ← hs]
  have hq : (getSessionPolicies request.caller session).isEmpty =
      (getSessionPolicies request.caller policies.session).isEmpty :=
    (getSessionPolicies_reordered _ hn).isEmpty
  simp only [steps, h₁, h₂, h₃, h₄, hb.truthy, hq]
  -- The later scan of a policy counts only where the earlier one misses.
  rcases d₁ with _ | _ | _
  · rfl
  · rcases d₂ with _ | _ | _
    · rfl
    · rcases d₃ with _ | _ | _
      · rfl
      · rw [h₁' rfl, h₂' rfl, h₃' rfl]
        rfl
      · rfl
    · rfl
  · rfl

/-- When the result does not depend on the order. -/
theorem reordered_iff (h : request.caller.principalType ≠ .root) :
    (∀ policies', policies.Reordered policies' →
        (evaluate py request policies').toOption = (evaluate py request policies).toOption) ↔
      Settled (gates py request policies) := by
  have possible : ∀ policies', policies.Reordered policies' →
      Possible .allow (gates py request policies) (evaluate py request policies').toOption := by
    intro policies' hr
    rw [evaluate_eq_settle py _ _ h]
    exact possible_settle _ _ _ (ends_of_reordered py _ _ _ hr)
  rw [settled_iff .allow]
  constructor
  · intro hsame r r' hr hr'
    rcases exists_reordered_evaluation py _ _ h r hr with ⟨q, hq, rfl⟩
    rcases exists_reordered_evaluation py _ _ h r' hr' with ⟨q', hq', rfl⟩
    rw [hsame q hq, hsame q' hq']
  · intro hone policies' hr
    exact hone _ _ (possible policies' hr) (possible policies (Policies.Reordered.refl _))

/-! ### Appending a statement -/

/-- Append a statement to a policy. A single statement becomes a list. -/
def appendStatement : Json :=
  match policy with
  | .obj members =>
    let items := match members.lookup "Statement" with
      | some (.arr items) => items
      | some (.obj single) => [.obj single]
      | _ => []
    .obj (setMember members "Statement" (.arr (items ++ [statement])))
  | _ => policy

/-- The same policies, one of them with a statement appended. -/
inductive Appended (statement : Json) (policies : Policies) : Json → Policies → Prop
  | identity (before after : List Json) (policy : Json) :
      policies.identity = before ++ policy :: after →
      Appended statement policies policy
        { policies with identity := before ++ appendStatement policy statement :: after }
  | resource :
      Appended statement policies policies.resource
        { policies with resource := appendStatement policies.resource statement }
  | boundary :
      Appended statement policies policies.boundary
        { policies with boundary := appendStatement policies.boundary statement }
  | session (before after : List Json) (policy : Json) :
      policies.session = before ++ policy :: after →
      Appended statement policies policy
        { policies with session := before ++ appendStatement policy statement :: after }

def HasEffect (effect : String) (statement : Json) : Prop :=
  statement.isObj = true ∧ (statement.get "Effect" .null).isStr effect = true

theorem iterPolicyStatements_append (hs : statement.isObj = true) :
    iterPolicyStatements (appendStatement (.obj members) statement) =
      iterPolicyStatements (.obj members) ++ [statement] := by
  rw [appendStatement, iterPolicyStatements_arr _ _ (lookup_setMember _ _ _),
    filter_append, filter_cons_of_pos hs]
  simp only [iterPolicyStatements, Json.get]
  rcases members.lookup "Statement" with _ | value
  · rfl
  · rcases value with _ | _ | _ | _ | _ | _ | _ <;> rfl

theorem inserted_append (hs : statement.isObj = true) :
    Inserted statement (iterPolicyStatements policy)
      (iterPolicyStatements (appendStatement policy statement)) := by
  rcases policy with _ | _ | _ | _ | _ | _ | members
  case obj =>
      refine .inr ⟨iterPolicyStatements (.obj members), [], ?_, ?_⟩
      · rw [append_nil]
      · exact iterPolicyStatements_append _ _ hs
  all_goals exact .inl rfl

theorem truthy_append (h : policy.truthy = true) :
    (appendStatement policy statement).truthy = true := by
  rcases policy with _ | _ | _ | _ | _ | _ | members
  case obj =>
      simp only [appendStatement, Json.truthy, setMember_ne_nil]
      rfl
  all_goals exact h

theorem inserted_append_list (before after : List Json) (policy statement : Json)
    (hs : statement.isObj = true) :
    Inserted statement (statements (before ++ policy :: after))
      (statements (before ++ appendStatement policy statement :: after)) := by
  simp only [statements, flatMap_append, flatMap_cons, ← append_assoc]
  exact (inserted_append _ _ hs).context _ _

theorem inserted_append_present (hs : statement.isObj = true) :
    Inserted statement (statements policy.present)
      (statements (appendStatement policy statement).present) := by
  rw [statements_present, statements_present]
  rcases ht : policy.truthy with _ | _
  · rcases policy with _ | _ | _ | _ | _ | _ | members
    case obj =>
        rcases members with _ | _
        · refine .inr ⟨[], [], rfl, ?_⟩
          rw [iterPolicyStatements_append [] _ hs]
          rfl
        · cases ht
    all_goals
      exact .inl (by simp [appendStatement, ht])
  · rw [truthy_append _ _ ht]
    exact inserted_append _ _ hs

/-- What appending a statement does to the steps of an evaluation. -/
structure Grown (request : Request) (statement : Json) (policies policies' : Policies) :
    Prop where
  identity : Inserted statement (statements policies.identity) (statements policies'.identity)
  resource : Inserted statement (statements policies.resource.present)
    (statements policies'.resource.present)
  boundary : Inserted statement (statements policies.boundary.present)
    (statements policies'.boundary.present)
  session : Inserted statement (statements (getSessionPolicies request.caller policies.session))
    (statements (getSessionPolicies request.caller policies'.session))
  boundary_truthy : policies.boundary.truthy = true → policies'.boundary.truthy = true
  session_isEmpty : (getSessionPolicies request.caller policies'.session).isEmpty =
    (getSessionPolicies request.caller policies.session).isEmpty

theorem Appended.grown {statement : Json} {policies : Policies} {policy : Json}
    {policies' : Policies} (h : Appended statement policies policy policies')
    (hs : statement.isObj = true) : Grown request statement policies policies' := by
  cases h with
  | identity before after _ hp =>
    refine ⟨?_, .inl rfl, .inl rfl, .inl rfl, id, rfl⟩
    rw [hp]
    exact inserted_append_list _ _ _ _ hs
  | resource =>
    exact ⟨.inl rfl, inserted_append_present _ _ hs, .inl rfl, .inl rfl, id, rfl⟩
  | boundary =>
    exact ⟨.inl rfl, .inl rfl, inserted_append_present _ _ hs, .inl rfl,
      truthy_append _ _, rfl⟩
  | session before after _ hp =>
    by_cases hc : request.caller.principalType = .assumedRole ∨
        request.caller.principalType = .federatedUser
    · have hget : ∀ l, getSessionPolicies request.caller l = l := fun l => if_pos hc
      refine ⟨.inl rfl, .inl rfl, .inl rfl, ?_, id, ?_⟩
      · rw [hget, hget, hp]
        exact inserted_append_list _ _ _ _ hs
      · rw [hget, hget, hp]
        rcases before with _ | _ <;> rfl
    · have hget : ∀ l, getSessionPolicies request.caller l = [] := fun l => if_neg hc
      exact ⟨.inl rfl, .inl rfl, .inl rfl, by rw [hget, hget]; exact .inl rfl, id,
        by rw [hget, hget]⟩

theorem scan_present_of_not_truthy
    (h : policy.truthy = false) : scan f (statements policy.present) = .miss := by
  rw [statements_present, h]
  rfl

theorem scan_of_isEmpty (policies : List Json)
    (h : policies.isEmpty = true) : scan f (statements policies) = .miss := by
  rw [isEmpty_iff.mp h]
  rfl

variable (required : Bool)

theorem settle_requireRule (o : Outcome) (rest : List (Rule Decision × Outcome))
    (h : required = false → o = .miss) :
    settle .allow ((requireRule required, o) :: rest) = some .allow ↔
      (required = true → o = .hit) ∧ settle .allow rest = some .allow := by
  rcases required with _ | _
  · rw [h rfl]
    simp [settle, requireRule]
  · rcases o with _ | _ | _
    · simp [settle, requireRule]
    · simp [settle, requireRule]
    · simp [settle]

/-- What it takes to allow a request: no denial, and a grant or every allow that is required. -/
theorem evaluate_allow_iff (h : request.caller.principalType ≠ .root) :
    evaluate py request policies = .ok .allow ↔
      scan (denies py request false) (statements policies.identity) = .miss ∧
      scan (denies py request true) (statements policies.resource.present) = .miss ∧
      scan (denies py request false) (statements policies.boundary.present) = .miss ∧
      (scan (grants py request) (statements policies.resource.present) = .hit ∨
        scan (grants py request) (statements policies.resource.present) = .miss ∧
        scan (allows py request) (statements policies.identity) = .hit ∧
        (policies.boundary.truthy = true →
          scan (allows py request) (statements policies.boundary.present) = .hit) ∧
        ((getSessionPolicies request.caller policies.session).isEmpty = false →
          scan (allows py request)
            (statements (getSessionPolicies request.caller policies.session)) = .hit)) := by
  set session := getSessionPolicies request.caller policies.session
  rw [evaluate_eq_ok_iff py _ _ h, steps]
  rcases scan (denies py request false) (statements policies.identity) with _ | _ | _
  · simp [settle, denyRule]
  · rcases scan (denies py request true) (statements policies.resource.present) with _ | _ | _
    · simp [settle, denyRule]
    · rcases scan (denies py request false) (statements policies.boundary.present) with _ | _ | _
      · simp [settle, denyRule]
      · rcases scan (grants py request) (statements policies.resource.present) with _ | _ | _
        · simp [settle, denyRule, grantRule]
        · rcases scan (allows py request) (statements policies.identity) with _ | _ | _
          · have hb := settle_requireRule _ _
              [(requireRule !session.isEmpty,
                scan (allows py request)
                  (statements session))]
              (scan_present_of_not_truthy (allows py request) policies.boundary)
            have hs := settle_requireRule
              (!session.isEmpty) _ []
              (fun he => scan_of_isEmpty (allows py request) _ (by simpa using he))
            simp
            refine Iff.trans hb (and_congr Iff.rfl (Iff.trans hs ?_))
            simp [settle]
          · simp [settle, denyRule, grantRule, requireRule]
          · simp [settle, denyRule, grantRule]
        · simp [settle, denyRule]
      · simp [settle, denyRule]
    · simp [settle, denyRule]
  · simp [settle]

theorem isStr_of_ne (a b : String) (h : value.isStr a = true) (hab : a ≠ b) :
    value.isStr b = false := by
  rcases value with _ | _ | _ | _ | s | _ | _
  case str =>
      have hs : s = a := by simpa [Json.isStr] using h
      subst hs
      simpa [Json.isStr] using hab
  all_goals rfl

theorem allChecks_of_false (b : Bool) (rest : List (Unit → Except PyError Bool)) (h : b = false) :
    Outcome.of (allChecks ((fun _ => pure b) :: rest)) = .miss := by
  subst h
  rfl

theorem allows_of_deny (h : HasEffect "Deny" statement) :
    Outcome.of (allows py request statement) = .miss ∧
      Outcome.of (grants py request statement) = .miss :=
  ⟨allChecks_of_false _ _ (isStr_of_ne _ _ _ h.2 (by decide)),
    allChecks_of_false _ _ (isStr_of_ne _ _ _ h.2 (by decide))⟩

theorem denies_of_allow (isResourcePolicy : Bool) (statement : Json)
    (h : HasEffect "Allow" statement) :
    Outcome.of (denies py request isResourcePolicy statement) = .miss :=
  allChecks_of_false _ _ (isStr_of_ne _ _ _ h.2 (by decide))

/-- One more statement. -/
theorem evaluate_append_deny (policies policies' : Policies)
    (h : request.caller.principalType ≠ .root) (hs : HasEffect "Deny" statement)
    (hg : Grown request statement policies policies')
    (ha : evaluate py request policies' = .ok .allow) :
    evaluate py request policies = .ok .allow := by
  rw [evaluate_allow_iff py _ _ h] at ha ⊢
  rcases allows_of_deny py _ _ hs with ⟨hm, hn⟩
  rw [hg.resource.scan_eq _ hn, hg.identity.scan_eq _ hm, hg.boundary.scan_eq _ hm,
    hg.session.scan_eq _ hm, hg.session_isEmpty] at ha
  rcases ha with ⟨h₁, h₂, h₃, h₄⟩
  refine ⟨hg.identity.scan_miss _ h₁, hg.resource.scan_miss _ h₂, hg.boundary.scan_miss _ h₃, ?_⟩
  rcases h₄ with h₄ | ⟨h₄, h₅, h₆, h₇⟩
  · exact .inl h₄
  · exact .inr ⟨h₄, h₅, fun ht => h₆ (hg.boundary_truthy ht), h₇⟩

theorem settle_requireRule_grown (o o' : Outcome) (rest : List (Rule Decision × Outcome))
    (d : Decision) (hr : required = true → o = .hit)
    (ho : o' = .miss → o = .miss)
    (h : settle .allow ((requireRule required, o') :: rest) = some d) :
    settle .allow rest = some d := by
  rcases o' with _ | _ | _
  · exact h
  · rcases required with _ | _
    · exact h
    · have hm := ho rfl
      rw [hr rfl] at hm
      cases hm
  · cases h

/-- Appending a statement that allows to a policy that is there never leads
    from an allow to a denial. -/
theorem evaluate_append_allow (policies policies' : Policies)
    (h : request.caller.principalType ≠ .root)
    (hs : HasEffect "Allow" statement) (hg : Grown request statement policies policies')
    (hb : policies'.boundary.truthy = policies.boundary.truthy)
    (ha : evaluate py request policies = .ok .allow) (d : Decision)
    (hd : evaluate py request policies' = .ok d) : d = .allow := by
  rw [evaluate_allow_iff py _ _ h] at ha
  rcases ha with ⟨h₁, h₂, h₃, h₄⟩
  have hn := fun b => denies_of_allow py request b _ hs
  have hd' := (evaluate_eq_ok_iff py _ policies' h d).mp hd
  simp only [steps, hg.identity.scan_eq _ (hn _),
    hg.resource.scan_eq _ (hn _), hg.boundary.scan_eq _ (hn _), h₁, h₂, h₃,
    settle_denyRule_miss, hb, hg.session_isEmpty] at hd'
  rcases hgr : scan (grants py request) (statements policies'.resource.present) with _ | _ | _
  · rw [hgr] at hd'
    exact (some.inj hd').symm
  · -- Without a grant there was none before, so every required step had hit.
    rw [hgr] at hd'
    rw [hg.resource.scan_miss _ hgr] at h₄
    rcases h₄ with h₄ | ⟨-, h₅, h₆, h₇⟩
    · cases h₄
    · have hd₁ := settle_requireRule_grown _ _ _ _ d (fun _ => h₅)
        (hg.identity.scan_miss _) hd'
      have hd₂ := settle_requireRule_grown _ _ _ _ d h₆ (hg.boundary.scan_miss _) hd₁
      have hd₃ := settle_requireRule_grown _ _ _ _ d
        (fun he => h₇ (by simpa using he)) (hg.session.scan_miss _) hd₂
      exact (some.inj hd₃).symm
  · rw [hgr] at hd'
    cases hd'

theorem Appended.boundary_truthy {statement : Json} {policies : Policies} {policy : Json}
    {policies' : Policies} (h : Appended statement policies policy policies')
    (ht : policy.truthy = true) : policies'.boundary.truthy = policies.boundary.truthy := by
  cases h with
  | identity | resource | session => rfl
  | boundary => rw [ht, truthy_append _ _ ht]

/-- The result does not depend on the order of the statements and policies, a statement that denies
    never turns it into an allow, and a statement that allows never turns an allow into a denial, if
    and only if the evaluation is settled: no step it comes to has both a statement that matches and
    one that raises, unless what follows raises in any order. -/
theorem order_independent_iff (h : request.caller.principalType ≠ .root) :
    ((∀ policies', policies.Reordered policies' →
        (evaluate py request policies').toOption = (evaluate py request policies).toOption) ∧
      (∀ statement policy policies', HasEffect "Deny" statement →
        Appended statement policies policy policies' →
        evaluate py request policies ≠ .ok .allow →
        evaluate py request policies' ≠ .ok .allow) ∧
      (∀ statement policy policies', HasEffect "Allow" statement → policy.truthy = true →
        Appended statement policies policy policies' →
        evaluate py request policies = .ok .allow →
        ∀ d, evaluate py request policies' = .ok d → d = .allow)) ↔
      Settled (gates py request policies) := by
  rw [← reordered_iff py _ _ h]
  constructor
  · intro hp
    exact hp.1
  · intro hr
    refine ⟨hr, ?_, ?_⟩
    · intro statement policy policies' hs hp hn ha
      exact hn (evaluate_append_deny py _ _ _ _ h hs (hp.grown request hs.1) ha)
    · intro statement policy policies' hs ht hp ha d hd
      exact evaluate_append_allow py _ _ _ _ h hs (hp.grown _ hs.1) (hp.boundary_truthy ht) ha d hd

/-- The policies of `identityDenied` with the denial first. -/
def identityDeniedFirst : Policies where
  identity := [.obj [("Statement", .arr
    [statementOn "Deny" "s3:DeleteObject", statementOn "Allow" "*"])]]

theorem identityDenied_reordered : identityDenied.Reordered identityDeniedFirst where
  identity := ⟨_, List.Perm.refl _,
    .cons (.permuted _ _ _ rfl (List.Perm.swap _ _ _)) .nil⟩
  resource := .refl _
  boundary := .refl _
  session := ReorderedList.refl _

theorem identityDenied_settled :
    Settled (gates plainBuiltins (deleteRequest .user "arn:aws:iam::000000000000:user/alice")
      identityDenied) := by
  refine ⟨fun _ hr => ?_, fun _ => trivial, fun hm => ?_⟩
  · rcases hr with ⟨statement, hs, he⟩
    have hs' : statement ∈ [statementOn "Allow" "*", statementOn "Deny" "s3:DeleteObject"] := hs
    rw [mem_cons, mem_singleton] at hs'
    rcases hs' with rfl | rfl
    · cases he
    · cases he
  · have hd := hm _
      (mem_cons_of_mem _ (mem_cons_self ..))
    cases hd

/-- Either order of the two statements gives the same result. -/
theorem order_independent_of_identity :
    (evaluate plainBuiltins (deleteRequest .user "arn:aws:iam::000000000000:user/alice")
        identityDeniedFirst).toOption =
      (evaluate plainBuiltins (deleteRequest .user "arn:aws:iam::000000000000:user/alice")
        identityDenied).toOption :=
  ((order_independent_iff _
      _ _
      (by decide)).mpr identityDenied_settled).1 identityDeniedFirst identityDenied_reordered

/-- A denial for everyone, of an action or of a number in its place. -/
def denialOf (action : Json) : Json :=
  .obj [("Effect", .str "Deny"), ("Principal", .str "*"), ("Action", action),
    ("Resource", .str "*")]

/-- A resource policy with a denial that matches and a malformed one. -/
def malformedLast : Policies where
  resource := .obj [("Statement", .arr [denialOf (.str "*"), denialOf (.int 5)])]

/-- The same with the malformed denial first. -/
def malformedFirst : Policies where
  resource := .obj [("Statement", .arr [denialOf (.int 5), denialOf (.str "*")])]

/-- With the malformed statement first the evaluation raises, otherwise it denies. -/
theorem order_dependent_malformed :
    ¬ ∀ policies', malformedLast.Reordered policies' →
      (evaluate plainBuiltins (deleteRequest .user "arn:aws:iam::000000000000:user/alice")
          policies').toOption =
        (evaluate plainBuiltins (deleteRequest .user "arn:aws:iam::000000000000:user/alice")
          malformedLast).toOption := by
  intro h
  have hr : malformedLast.Reordered malformedFirst :=
    ⟨ReorderedList.refl _, .permuted _ _ _ rfl (List.Perm.swap _ _ _), .refl _,
      ReorderedList.refl _⟩
  have he := h _ hr
  cases he

/-! ### Grants and limits -/

theorem exists_of_scan_hit {f : Json → Except PyError Bool} {l : List Json}
    (h : scan f l = .hit) : ∃ statement ∈ l, f statement = .ok true := by
  rcases (scan_hit_iff _ _).mp h with ⟨before, statement, after, rfl, hhit, -⟩
  exact ⟨statement, mem_append_right _ mem_cons_self, (of_eq_hit_iff _).mp hhit⟩

/-- Nothing is allowed by default: a request that is allowed matches a grant of the resource
    policy, or an allow of the identity policies, of the boundary and of the session policies, where
    there are any. -/
theorem allowed_by_statements (policies : Policies) (h : request.caller.principalType ≠ .root)
    (ha : evaluate py request policies = .ok .allow) :
    (∃ statement ∈ statements policies.resource.present, grants py request statement = .ok true) ∨
      (∃ statement ∈ statements policies.identity, allows py request statement = .ok true) ∧
      (policies.boundary.truthy = true →
        ∃ statement ∈ statements policies.boundary.present,
          allows py request statement = .ok true) ∧
      ((getSessionPolicies request.caller policies.session).isEmpty = false →
        ∃ statement ∈ statements (getSessionPolicies request.caller policies.session),
          allows py request statement = .ok true) := by
  rw [evaluate_allow_iff py _ _ h] at ha
  rcases ha with ⟨-, -, -, hgrant | ⟨-, hidentity, hboundary, hsession⟩⟩
  · exact .inl (exists_of_scan_hit hgrant)
  · exact .inr ⟨exists_of_scan_hit hidentity, fun ht => exists_of_scan_hit (hboundary ht),
      fun he => exists_of_scan_hit (hsession he)⟩

/-- An identity policy that allows everything, with a boundary that allows one action. -/
def bounded : Policies where
  identity := [.obj [("Statement", .arr [statementOn "Allow" "*"])]]
  boundary := .obj [("Statement", .arr [statementOn "Allow" "s3:DeleteObject"])]

theorem allowed_by_statements_bounded :
    ∃ statement ∈ statements bounded.boundary.present, allows plainBuiltins
      (deleteRequest .user "arn:aws:iam::000000000000:user/alice") statement = .ok true := by
  rcases allowed_by_statements plainBuiltins
      (deleteRequest .user "arn:aws:iam::000000000000:user/alice") bounded (by decide) rfl with
    ⟨statement, hs, -⟩ | h
  · cases hs
  · exact h.2.1 rfl

/-- A boundary and session policies only limit: what is allowed stays allowed without them. -/
theorem allowed_without_limits (policies policies' : Policies)
    (h : request.caller.principalType ≠ .root)
    (hidentity : policies'.identity = policies.identity)
    (hresource : policies'.resource = policies.resource)
    (hboundary : policies'.boundary = policies.boundary ∨ policies'.boundary.truthy = false)
    (hsession : policies'.session = policies.session ∨ policies'.session = [])
    (ha : evaluate py request policies = .ok .allow) :
    evaluate py request policies' = .ok .allow := by
  rw [evaluate_allow_iff py _ _ h] at ha ⊢
  rw [hidentity, hresource]
  rcases ha with ⟨hdeny, hdeny', hdeny'', hgrants⟩
  refine ⟨hdeny, hdeny', ?_, hgrants.imp_right fun hallows => ⟨hallows.1, hallows.2.1, ?_, ?_⟩⟩
  · rcases hboundary with heq | hnone
    · rw [heq]
      exact hdeny''
    · exact scan_present_of_not_truthy _ _ hnone
  · rcases hboundary with heq | hnone
    · rw [heq]
      exact hallows.2.2.1
    · intro ht
      cases hnone.symm.trans ht
  · rcases hsession with heq | hnone
    · rw [heq]
      exact hallows.2.2.2
    · intro he
      have hempty : getSessionPolicies request.caller [] = [] := ite_self _
      rw [hnone, hempty] at he
      cases he

theorem allowed_without_limits_bounded :
    evaluate plainBuiltins (deleteRequest .user "arn:aws:iam::000000000000:user/alice")
      { bounded with boundary := .null } = .ok .allow :=
  allowed_without_limits plainBuiltins _ bounded _ (by decide) rfl rfl (.inr rfl) (.inl rfl) rfl

end LocalEmu.Iam
